import Mathlib.Data.List.Nodup
import Mathlib.Logic.Function.Basic
import NineP.Lib.Transition
import NineP.Proto.Wire

/-!
# The client's exchanges

`Conn.exchangeWithFlush` and `flushAndWait` of package `client` for any number of concurrent callers, with the read
loop, the tag allocator, the in-flight map and the two directions of the connection.  Callers are threads; the labels
carry what the environment decides.  The server is any one that answers a T-message at most once, with its tag, and no
request after the Tflush for it.

Left out: the message cache, spans and metrics, and the contents of messages beyond what tells an Rread apart.
-/

namespace NineP.Client

open Proto Option
open Transition (some_pair)

/-! ## Tags -/

def flushTagBit : Tag := 0x8000

def flushTagFor (oldTag : Tag) : Tag := oldTag ||| flushTagBit

def newTagAllocator (n : Nat) : List Tag := (List.range n).map fun i => UInt16.ofNat (i + 1)

def maxMaxInflight : Nat := 32766

/-! ## Messages -/

/-- A T-message: a Tflush, or one of the others. -/
inductive TMsg (μ : Type)
  | flush (oldTag : Tag)
  | other (m : μ)
  deriving DecidableEq

structure TFrame (μ : Type) where
  tag : Tag
  msg : TMsg μ
  deriving DecidableEq

/-- An R-message; `id` is the T-message it answers, by the order in which these were written. -/
structure RFrame (ρ : Type) where
  tag : Tag
  id : Nat
  rread : Bool
  body : ρ
  deriving DecidableEq

/-- What a response channel carries: a decoded message, or `rreadSentinelOK`. -/
inductive Msg (ρ : Type)
  | frame (f : RFrame ρ)
  | sentinel
  deriving DecidableEq

/-- `requestEntry`, and the tag under which it was registered. -/
structure Entry (ρ : Type) where
  tag : Tag
  /-- `dst` is not nil. -/
  zeroCopy : Bool
  /-- The buffer of the channel. -/
  ch : Option (Msg ρ) := none
  chClosed : Bool := false
  /-- The frame whose payload was copied to `dst`, with its length in `n`. -/
  dst : Option (RFrame ρ) := none
  deriving DecidableEq

/-- The T-message with number `k` is a Tflush, and `j` is the latest one before it with its old tag. -/
def flushes {μ : Type} (sent : List (TFrame μ)) (k j : Nat) : Bool :=
  match sent[k]? with
  | some ⟨_, .flush oldTag⟩ =>
    j < k && (sent[j]?).map (·.tag) = some oldTag &&
      (List.range k).all fun i => i ≤ j || (sent[i]?).map (·.tag) ≠ some oldTag
  | _ => false

/-! ## The state -/

/-- What the callers of a connection share, and the connection. -/
structure Shared (μ ρ : Type) where
  free : List Tag
  inflight : Tag → Option Nat
  /-- The entries made so far. -/
  entries : List (Entry ρ)
  /-- The T-messages written so far. -/
  sent : List (TFrame μ)
  /-- The answers that the server has written, the latest first. -/
  answered : List (RFrame ρ)
  /-- The answers on their way. -/
  wire : List (RFrame ρ)
  /-- The frame that the read loop has read and not delivered. -/
  hand : Option (RFrame ρ)
  readerDone : Bool
  /-- `closeCh` is closed. -/
  closed : Bool
  ncClosed : Bool

inductive Err
  | ctx  -- the caller's context has ended
  | closed  -- `ErrClosed`
  | refused  -- the message does not encode or is larger than `msize`
  deriving DecidableEq

/-- How an exchange ends; the numbers are those of the T-message, if it was written. -/
inductive Outcome (ρ : Type)
  | ok (id : Nat) (f : RFrame ρ)
  | failed (id : Option Nat) (err : Err)
  | abandoned (id : Nat)  -- cancelled without a Tflush: the tag is not used again
  deriving DecidableEq

/-- Where a caller is.  The numbers are entries (`e`, for the Tflush `fe`) and T-messages (`i`, the Tflush `j`). -/
inductive Pc (ρ : Type)
  | acquiring
  | acquired (tag : Tag)
  | registered (tag : Tag) (e : Nat)
  | writing (tag : Tag) (e : Nat)  -- `writeT` past its check of `closeCh`
  | waiting (tag : Tag) (e i : Nat)
  | received (tag : Tag) (e i : Nat) (m : Msg ρ) -- `unregister` is next
  | returning (tag : Tag) (e i : Nat) (m : Msg ρ)
  | reading (e i : Nat) (m : Msg ρ)  -- the tag is released, `entry.n` is next
  | abandoning (tag : Tag) (e i : Nat)
  | flushing (tag : Tag) (e i : Nat)  -- `flushAndWait`
  | flushRegistered (tag : Tag) (e i fe : Nat)
  | flushWriting (tag : Tag) (e i fe : Nat)
  | flushWaiting (tag : Tag) (e i fe j : Nat)
  | flushUnregistering (tag : Tag) (i : Nat) (err : Err)
  | unregistering (tag : Tag) (id : Option Nat) (err : Err)
  | releasing (tag : Tag) (id : Option Nat) (err : Err)
  | failing (id : Option Nat) (err : Err)
  | done (o : Outcome ρ)
  deriving DecidableEq

/-- A call of `exchangeWithFlush`. -/
structure Call (μ ρ : Type) where
  msg : TMsg μ
  zeroCopy : Bool
  flushOnCancel : Bool
  pc : Pc ρ := .acquiring
  deriving DecidableEq

structure State (μ ρ : Type) where
  shared : Shared μ ρ
  calls : List (Call μ ρ)

/-! ## Operations -/

section Operations

variable {μ ρ : Type}

namespace Shared

def register (c : Shared μ ρ) (tag : Tag) (zeroCopy : Bool) : Shared μ ρ :=
  { c with
    inflight := Function.update c.inflight tag (some c.entries.length)
    entries := c.entries ++ [{ tag, zeroCopy }] }

def unregister (c : Shared μ ρ) (tag : Tag) : Shared μ ρ :=
  { c with inflight := Function.update c.inflight tag none }

/-- `release`; the channel has room for all tags. -/
def release (c : Shared μ ρ) (maxInflight : Nat) (tag : Tag) : Shared μ ρ :=
  if c.free.length < maxInflight then { c with free := c.free ++ [tag] } else c

/-- The write of a frame. -/
def send (c : Shared μ ρ) (tag : Tag) (msg : TMsg μ) : Shared μ ρ := { c with sent := c.sent ++ [⟨tag, msg⟩] }

/-- A receive from the channel of entry `e`: a message, or nothing if it is closed; else it blocks. -/
def recv (c : Shared μ ρ) (e : Nat) : Option (Option (Msg ρ)) :=
  (c.entries[e]?).bind fun x =>
    match x.ch with
    | some m => some (some m)
    | none => if x.chClosed then some none else none

/-- Take what the channel of entry `e` holds. -/
def take (c : Shared μ ρ) (e : Nat) : Shared μ ρ := { c with entries := c.entries.modify e ({ · with ch := none }) }

/-- `signalShutdown` up to the close of `closeCh` -/
def shutdown (c : Shared μ ρ) : Shared μ ρ := { c with closed := true }

def cancelAll (c : Shared μ ρ) : Shared μ ρ :=
  { c with
    entries := c.entries.mapIdx fun e x => if c.inflight x.tag = some e then { x with chClosed := true } else x
    inflight := fun _ => none }

/-- The server answers a T-message. -/
def answer (c : Shared μ ρ) (f : RFrame ρ) : Shared μ ρ :=
  { c with answered := f :: c.answered, wire := c.wire ++ [f] }

/-- `deliver`, or the fast path for an Rread whose entry has a destination: a full channel drops the message. -/
def deliver (c : Shared μ ρ) (f : RFrame ρ) : Shared μ ρ :=
  match c.inflight f.tag with
  | none => c
  | some e =>
    { c with entries := c.entries.modify e fun x =>
        if f.rread && x.zeroCopy then { x with dst := some f, ch := x.ch.or (some .sentinel) }
        else { x with ch := x.ch.or (some (.frame f)) } }

/-- The read loop delivers the frame that it has read. -/
def handOver (c : Shared μ ρ) (f : RFrame ρ) : Shared μ ρ := ({ c with hand := none } : Shared μ ρ).deliver f

end Shared

end Operations

/-! ## Steps -/

/-- What the environment decides for a caller's step. -/
inductive Choice
  | go
  | ctxDone  -- the caller's context has ended
  | closeCh
  | refuse  -- the message does not encode or is larger than `msize`
  | fail  -- the write fails
  | recv
  | recvFlush
  | grace  -- the grace period is over
  deriving DecidableEq

inductive Label (μ ρ : Type)
  | call (msg : TMsg μ) (zeroCopy flushOnCancel : Bool)
  | move (k : Nat) (choice : Choice)
  | answer (i : Nat) (rread : Bool) (body : ρ)
  | read
  | deliver
  | readFail  -- a frame that the read loop does not accept, or a failed read
  | shutdown
  | closeNc
  | cancelAll
  deriving DecidableEq

section Steps

variable {μ ρ : Type}

/-- One step of a caller, for a connection with `maxInflight` tags. -/
def move (maxInflight : Nat) (c : Shared μ ρ) (call : Call μ ρ) (choice : Choice) : Option (Pc ρ × Shared μ ρ) :=
  match call.pc, choice with
  | .acquiring, .go =>
    match c.free with
    | [] => none
    | tag :: free => some (.acquired tag, { c with free })
  | .acquiring, .ctxDone => some (.done (.failed none .ctx), c)
  | .acquiring, .closeCh => if c.closed then some (.done (.failed none .closed), c) else none
  | .acquired tag, .go => some (.registered tag c.entries.length, c.register tag call.zeroCopy)
  | .registered tag e, .go =>
    if c.closed then some (.unregistering tag none .closed, c) else some (.writing tag e, c)
  | .registered tag _, .refuse => some (.unregistering tag none .refused, c)
  | .writing tag e, .go =>
    if c.ncClosed then none else some (.waiting tag e c.sent.length, c.send tag call.msg)
  | .writing tag _, .fail => some (.unregistering tag none .closed, c.shutdown)
  | .waiting tag e i, .recv =>
    (c.recv e).map fun
      | some m => (.received tag e i m, c.take e)
      | none => (.unregistering tag (some i) .closed, c)
  | .waiting tag e i, .ctxDone =>
    some (if call.flushOnCancel then .flushing tag e i else .abandoning tag e i, c)
  | .waiting tag _ i, .closeCh => if c.closed then some (.unregistering tag (some i) .closed, c) else none
  | .received tag e i m, .go => some (.returning tag e i m, c.unregister tag)
  | .returning tag e i m, .go => some (.reading e i m, c.release maxInflight tag)
  | .reading _ i (.frame f), .go => some (.done (.ok i f), c)
  | .reading e i .sentinel, .go => ((c.entries[e]?).bind (·.dst)).map fun f => (.done (.ok i f), c)
  | .abandoning tag e i, .go => some (.done (.abandoned i), (c.unregister tag).take e)
  | .flushing tag e i, .go =>
    some (.flushRegistered tag e i c.entries.length, c.register (flushTagFor tag) false)
  -- a Tflush always encodes and is smaller than any `msize`
  | .flushRegistered tag e i fe, .go =>
    if c.closed then some (.flushUnregistering tag i .closed, c) else some (.flushWriting tag e i fe, c)
  | .flushWriting tag e i fe, .go =>
    if c.ncClosed then none
    else some (.flushWaiting tag e i fe c.sent.length, c.send (flushTagFor tag) (.flush tag))
  | .flushWriting tag _ i _, .fail => some (.flushUnregistering tag i .closed, c.shutdown)
  | .flushWaiting tag e i fe _, .recv =>
    (c.recv e).map fun
      | some _ => (.flushUnregistering tag i .ctx, (c.take e).take fe)
      | none => (.flushUnregistering tag i .closed, c)
  | .flushWaiting tag e i fe _, .recvFlush =>
    (c.recv fe).map fun
      | some _ => (.flushUnregistering tag i .ctx, (c.take fe).take e)
      | none => (.flushUnregistering tag i .closed, c)
  | .flushWaiting tag _ i _ _, .closeCh =>
    if c.closed then some (.flushUnregistering tag i .closed, c) else none
  | .flushWaiting tag _ i _ _, .grace => some (.flushUnregistering tag i .ctx, c.shutdown)
  | .flushUnregistering tag i err, .go => some (.unregistering tag (some i) err, c.unregister (flushTagFor tag))
  | .unregistering tag id err, .go => some (.releasing tag id err, c.unregister tag)
  | .releasing tag id err, .go => some (.failing id err, c.release maxInflight tag)
  -- after a failed `writeT` the connection may be closed by now
  | .failing id err, .go => some (.done (.failed id (if err = .refused ∧ c.closed then .closed else err)), c)
  | _, _ => none

/-- The server may answer the T-message `i`: it has not, nor has it answered a Tflush for it. -/
def Shared.mayAnswer (c : Shared μ ρ) (i : Nat) : Bool :=
  c.answered.all fun g => g.id ≠ i && !flushes c.sent g.id i

def step (maxInflight : Nat) (s : State μ ρ) : Label μ ρ → Option (State μ ρ)
  | .call msg zeroCopy flushOnCancel =>
    if s.shared.closed then none else some { s with calls := s.calls ++ [{ msg, zeroCopy, flushOnCancel }] }
  | .move k choice =>
    (s.calls[k]?).bind fun call => (move maxInflight s.shared call choice).map fun (pc, shared) =>
      { shared, calls := s.calls.set k { call with pc } }
  | .answer i rread body =>
    (s.shared.sent[i]?).bind fun t =>
      if s.shared.mayAnswer i then some { s with shared := s.shared.answer ⟨t.tag, i, rread, body⟩ } else none
  | .read =>
    let c := s.shared
    match c.wire, c.hand with
    | f :: wire, none =>
      if c.ncClosed || c.readerDone then none else some { s with shared := { c with wire, hand := some f } }
    | _, _ => none
  | .deliver =>
    s.shared.hand.map fun f => { s with shared := s.shared.handOver f }
  | .readFail => some { s with shared := { s.shared.shutdown with hand := none, readerDone := true } }
  | .shutdown => some { s with shared := s.shared.shutdown }
  | .closeNc => if s.shared.closed then some { s with shared := { s.shared with ncClosed := true } } else none
  | .cancelAll => if s.shared.ncClosed then some { s with shared := s.shared.cancelAll } else none

/-- A connection after version negotiation. -/
def init (maxInflight : Nat) : State μ ρ where
  shared :=
    { free := newTagAllocator maxInflight, inflight := fun _ => none, entries := [], sent := [], answered := [],
      wire := [], hand := none, readerDone := false, closed := false, ncClosed := false }
  calls := []

end Steps

/-! ## The steps of a caller, one by one -/

/-- `move` as a relation between program points, the shared state before and the one after. -/
inductive Moves {μ ρ : Type} (maxInflight : Nat) (c : Shared μ ρ) (call : Call μ ρ) : Pc ρ → Pc ρ → Shared μ ρ → Prop
  | acquire {tag : Tag} {free : List Tag} (hfree : c.free = tag :: free) :
      Moves maxInflight c call .acquiring (.acquired tag) { c with free }
  | acquireFail {err : Err} (herr : err = .closed → c.closed) :
      Moves maxInflight c call .acquiring (.done (.failed none err)) c
  | register {tag : Tag} : Moves maxInflight c call (.acquired tag) (.registered tag c.entries.length)
      (c.register tag call.zeroCopy)
  | writeClosed {tag : Tag} {e : Nat} {err : Err} (herr : err = .closed → c.closed) :
      Moves maxInflight c call (.registered tag e) (.unregistering tag none err) c
  | check {tag : Tag} {e : Nat} (hclosed : c.closed = false) :
      Moves maxInflight c call (.registered tag e) (.writing tag e) c
  | write {tag : Tag} {e : Nat} :
      Moves maxInflight c call (.writing tag e) (.waiting tag e c.sent.length) (c.send tag call.msg)
  | writeFail {tag : Tag} {e : Nat} :
      Moves maxInflight c call (.writing tag e) (.unregistering tag none .closed) c.shutdown
  | recv {tag : Tag} {e i : Nat} {m : Msg ρ} (hm : c.recv e = some (some m)) :
      Moves maxInflight c call (.waiting tag e i) (.received tag e i m) (c.take e)
  | recvClosed {tag : Tag} {e i : Nat} (hm : c.recv e = some none) :
      Moves maxInflight c call (.waiting tag e i) (.unregistering tag (some i) .closed) c
  | flush {tag : Tag} {e i : Nat} (hflush : call.flushOnCancel = true) :
      Moves maxInflight c call (.waiting tag e i) (.flushing tag e i) c
  | abandon {tag : Tag} {e i : Nat} (hflush : call.flushOnCancel = false) :
      Moves maxInflight c call (.waiting tag e i) (.abandoning tag e i) c
  | waitClosed {tag : Tag} {e i : Nat} (hclosed : c.closed = true) :
      Moves maxInflight c call (.waiting tag e i) (.unregistering tag (some i) .closed) c
  | unregisterOk {tag : Tag} {e i : Nat} {m : Msg ρ} :
      Moves maxInflight c call (.received tag e i m) (.returning tag e i m) (c.unregister tag)
  | releaseOk {tag : Tag} {e i : Nat} {m : Msg ρ} :
      Moves maxInflight c call (.returning tag e i m) (.reading e i m) (c.release maxInflight tag)
  | returnFrame {e i : Nat} {f : RFrame ρ} : Moves maxInflight c call (.reading e i (.frame f)) (.done (.ok i f)) c
  | returnDst {e i : Nat} {x : Entry ρ} {f : RFrame ρ} (hx : c.entries[e]? = some x) (hf : x.dst = some f) :
      Moves maxInflight c call (.reading e i .sentinel) (.done (.ok i f)) c
  | abandoned {tag : Tag} {e i : Nat} :
      Moves maxInflight c call (.abandoning tag e i) (.done (.abandoned i)) ((c.unregister tag).take e)
  | flushRegister {tag : Tag} {e i : Nat} : Moves maxInflight c call (.flushing tag e i)
      (.flushRegistered tag e i c.entries.length) (c.register (flushTagFor tag) false)
  | flushClosed {tag : Tag} {e i fe : Nat} (hclosed : c.closed = true) :
      Moves maxInflight c call (.flushRegistered tag e i fe) (.flushUnregistering tag i .closed) c
  | flushCheck {tag : Tag} {e i fe : Nat} :
      Moves maxInflight c call (.flushRegistered tag e i fe) (.flushWriting tag e i fe) c
  | flushWrite {tag : Tag} {e i fe : Nat} : Moves maxInflight c call (.flushWriting tag e i fe)
      (.flushWaiting tag e i fe c.sent.length) (c.send (flushTagFor tag) (.flush tag))
  | flushWriteFail {tag : Tag} {e i fe : Nat} :
      Moves maxInflight c call (.flushWriting tag e i fe) (.flushUnregistering tag i .closed) c.shutdown
  | flushRecv {tag : Tag} {e i fe j : Nat} {m : Msg ρ} (hm : c.recv e = some (some m)) :
      Moves maxInflight c call (.flushWaiting tag e i fe j) (.flushUnregistering tag i .ctx) ((c.take e).take fe)
  | flushRecvFlush {tag : Tag} {e i fe j : Nat} {m : Msg ρ} (hm : c.recv fe = some (some m)) :
      Moves maxInflight c call (.flushWaiting tag e i fe j) (.flushUnregistering tag i .ctx) ((c.take fe).take e)
  | flushRecvClosed {tag : Tag} {e i fe j e' : Nat} (he : e' = e ∨ e' = fe) (hm : c.recv e' = some none) :
      Moves maxInflight c call (.flushWaiting tag e i fe j) (.flushUnregistering tag i .closed) c
  | flushWaitClosed {tag : Tag} {e i fe j : Nat} (hclosed : c.closed = true) :
      Moves maxInflight c call (.flushWaiting tag e i fe j) (.flushUnregistering tag i .closed) c
  | grace {tag : Tag} {e i fe j : Nat} :
      Moves maxInflight c call (.flushWaiting tag e i fe j) (.flushUnregistering tag i .ctx) c.shutdown
  | flushUnregister {tag : Tag} {i : Nat} {err : Err} : Moves maxInflight c call (.flushUnregistering tag i err)
      (.unregistering tag (some i) err) (c.unregister (flushTagFor tag))
  | unregister {tag : Tag} {id : Option Nat} {err : Err} :
      Moves maxInflight c call (.unregistering tag id err) (.releasing tag id err) (c.unregister tag)
  | release {tag : Tag} {id : Option Nat} {err : Err} :
      Moves maxInflight c call (.releasing tag id err) (.failing id err) (c.release maxInflight tag)
  | fail {id : Option Nat} {err err' : Err} (herr : err' = .closed → err = .closed ∨ c.closed) :
      Moves maxInflight c call (.failing id err) (.done (.failed id err')) c

section Inversion

variable {μ ρ : Type} {maxInflight : Nat} {c c' : Shared μ ρ} {call : Call μ ρ} {choice : Choice} {pc : Pc ρ}

theorem recv_msg (h : c.recv e = some (some m)) :
    ∃ x, c.entries[e]? = some x ∧ x.ch = some m := by
  obtain ⟨x, hx, h⟩ := bind_eq_some_iff.1 h
  refine ⟨x, hx, ?_⟩
  cases hch : x.ch with
  | some m' => simpa [hch] using h
  | none => simp [hch] at h

theorem recv_closed (h : c.recv e = some none) : ∃ x, c.entries[e]? = some x ∧ x.chClosed = true := by
  obtain ⟨x, hx, h⟩ := bind_eq_some_iff.1 h
  refine ⟨x, hx, ?_⟩
  cases hch : x.ch with
  | some m' => simp [hch] at h
  | none => simpa [hch] using h

/-- **Inversion**: what a step of a caller can be. -/
theorem move_moves (h : move maxInflight c call choice = some (pc, c')) :
    Moves maxInflight c call call.pc pc c' := by
  unfold move at h
  split at h
  all_goals try rename_i hpc; rw [hpc]
  -- the steps with one outcome
  all_goals try (
    simp only [Option.some.injEq, Prod.mk.injEq] at h
    obtain ⟨rfl, rfl⟩ := h
    constructor <;> simp
    done)
  · split at h
    · cases h
    · cases h
      exact .acquire ‹_›
  · simp only [ite_none_right_eq_some, Option.some.injEq, Prod.mk.injEq] at h
    obtain ⟨hclosed, rfl, rfl⟩ := h
    exact .acquireFail fun _ => hclosed
  · split at h <;> cases h
    · exact .writeClosed fun _ => ‹_›
    · exact .check (by simpa using ‹¬c.closed = true›)
  · simp only [ite_none_left_eq_some, Option.some.injEq, Prod.mk.injEq] at h
    obtain ⟨-, rfl, rfl⟩ := h
    exact .write
  · obtain ⟨m | m, hm, h⟩ := map_eq_some_iff.1 h <;> cases h
    · exact .recvClosed hm
    · exact .recv hm
  · cases hflush : call.flushOnCancel <;> simp only [hflush, Option.some.injEq, Prod.mk.injEq] at h <;>
      obtain ⟨rfl, rfl⟩ := h
    · exact .abandon hflush
    · exact .flush hflush
  · simp only [ite_none_right_eq_some, Option.some.injEq, Prod.mk.injEq] at h
    obtain ⟨hclosed, rfl, rfl⟩ := h
    exact .waitClosed hclosed
  · obtain ⟨f, hf, h⟩ := map_eq_some_iff.1 h
    obtain ⟨x, hx, hf⟩ := bind_eq_some_iff.1 hf
    cases h
    exact .returnDst hx hf
  · split at h <;> cases h
    · exact .flushClosed ‹_›
    · exact .flushCheck
  · simp only [ite_none_left_eq_some, Option.some.injEq, Prod.mk.injEq] at h
    obtain ⟨-, rfl, rfl⟩ := h
    exact .flushWrite
  · obtain ⟨m | m, hm, h⟩ := map_eq_some_iff.1 h <;> cases h
    · exact .flushRecvClosed (.inl rfl) hm
    · exact .flushRecv hm
  · obtain ⟨m | m, hm, h⟩ := map_eq_some_iff.1 h <;> cases h
    · exact .flushRecvClosed (.inr rfl) hm
    · exact .flushRecvFlush hm
  · simp only [ite_none_right_eq_some, Option.some.injEq, Prod.mk.injEq] at h
    obtain ⟨hclosed, rfl, rfl⟩ := h
    exact .flushWaitClosed hclosed
  · cases h
    refine .fail fun herr => ?_
    split at herr
    · rename_i hrefused
      exact .inr hrefused.2
    · exact .inl herr
  · cases h

end Inversion

/-- `step` as a relation. -/
inductive Steps {μ ρ : Type} (maxInflight : Nat) (s : State μ ρ) : Label μ ρ → State μ ρ → Prop
  | call {msg : TMsg μ} {zeroCopy flushOnCancel : Bool} (hclosed : s.shared.closed = false) :
      Steps maxInflight s (.call msg zeroCopy flushOnCancel)
        { s with calls := s.calls ++ [{ msg, zeroCopy, flushOnCancel }] }
  | move {k : Nat} {choice : Choice} {call : Call μ ρ} {pc : Pc ρ} {c : Shared μ ρ} (hk : s.calls[k]? = some call)
      (h : Moves maxInflight s.shared call call.pc pc c) :
      Steps maxInflight s (.move k choice) { shared := c, calls := s.calls.set k { call with pc } }
  | answer {f : RFrame ρ} (htag : (s.shared.sent[f.id]?).map (·.tag) = some f.tag) (hmay : s.shared.mayAnswer f.id) :
      Steps maxInflight s (.answer f.id f.rread f.body) { s with shared := s.shared.answer f }
  | read {f : RFrame ρ} {wire : List (RFrame ρ)} (hwire : s.shared.wire = f :: wire) (hhand : s.shared.hand = none) :
      Steps maxInflight s .read { s with shared := { s.shared with wire, hand := some f } }
  | deliver {f : RFrame ρ} (hhand : s.shared.hand = some f) :
      Steps maxInflight s .deliver { s with shared := s.shared.handOver f }
  | readFail : Steps maxInflight s .readFail
      { s with shared := { s.shared.shutdown with hand := none, readerDone := true } }
  | shutdown : Steps maxInflight s .shutdown { s with shared := s.shared.shutdown }
  | closeNc (hclosed : s.shared.closed = true) :
      Steps maxInflight s .closeNc { s with shared := { s.shared with ncClosed := true } }
  | cancelAll (hnc : s.shared.ncClosed = true) : Steps maxInflight s .cancelAll { s with shared := s.shared.cancelAll }

theorem step_steps {μ ρ : Type} {s s' : State μ ρ} {l : Label μ ρ}
    (h : step maxInflight s l = some s') : Steps maxInflight s l s' := by
  cases l with
  | call msg zeroCopy flushOnCancel =>
    simp only [step, ite_none_left_eq_some, Option.some.injEq] at h
    obtain ⟨hclosed, rfl⟩ := h
    exact .call (by simpa using hclosed)
  | move k choice =>
    obtain ⟨call, hk, h⟩ := bind_eq_some_iff.1 h
    obtain ⟨⟨pc, c⟩, hmove, rfl⟩ := map_eq_some_iff.1 h
    exact .move hk (move_moves hmove)
  | answer i rread body =>
    obtain ⟨t, ht, h⟩ := bind_eq_some_iff.1 h
    simp only [ite_none_right_eq_some, Option.some.injEq] at h
    obtain ⟨hmay, rfl⟩ := h
    exact .answer (f := ⟨t.tag, i, rread, body⟩) (by simp [ht]) hmay
  | read =>
    simp only [step] at h
    split at h
    · simp only [ite_none_left_eq_some, Option.some.injEq] at h
      obtain ⟨-, rfl⟩ := h
      exact .read ‹_› ‹_›
    · cases h
  | deliver =>
    obtain ⟨f, hf, rfl⟩ := map_eq_some_iff.1 h
    exact .deliver hf
  | readFail =>
    cases h
    exact .readFail
  | shutdown =>
    cases h
    exact .shutdown
  | closeNc =>
    simp only [step, ite_none_right_eq_some, Option.some.injEq] at h
    obtain ⟨hclosed, rfl⟩ := h
    exact .closeNc hclosed
  | cancelAll =>
    simp only [step, ite_none_right_eq_some, Option.some.injEq] at h
    obtain ⟨hnc, rfl⟩ := h
    exact .cancelAll hnc

end NineP.Client
