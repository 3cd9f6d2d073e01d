import NineP.Lib.Mutex
import NineP.Proto.P9l.Codec

/-!
# What the client writes

Any number of calls of `writeT` (`client/write.go`) and of `signalShutdown` on one connection, as threads.  A write hands
its bytes to the transport piece by piece and may fail after any of them.  Left out: the admission of callers, metrics.
-/

namespace NineP.Client.Writer

open Codec Framing Mutex Proto Transition List

/-! ## Threads -/

/-- Why `writeT` fails. -/
inductive WriteErr
  | closed
  | encode (e : Proto.Err)
  | tooLarge (size : UInt32)
  | write

/-- Where the function is that `closeOnce` runs. -/
inductive Stage
  | closeAdmission
  | closeCh
  | closeNc
  | cancelAll
  deriving DecidableEq

inductive Once
  | idle
  | running
  | done
  deriving DecidableEq

/-- Where a thread is; `held` says that it is a writer, with `writeMu`, whose write failed. -/
inductive Pc (M : Type)
  | checking (tag : Tag) (msg : M)
  | encoding (tag : Tag) (msg : M)
  | locking (frame : Bytes) (size : UInt32)
  | locked (frame : Bytes) (size : UInt32)
  | writing (rest : Bytes) (size : UInt32)  -- the rest of the frame is still to be written
  | shutting (held : Bool)  -- `closeOnce.Do` is next
  | closing (held : Bool) (stage : Stage)
  | unlocking (result : Except WriteErr UInt32)
  | returned (result : Except WriteErr UInt32)
  | gone

structure State (M : Type) where
  /-- The bytes that the transport took. -/
  out : Bytes := []
  closeCh : Bool := false
  ncClosed : Bool := false
  once : Once := .idle
  writeMu : Option Nat := none
  threads : List (Pc M) := []
  /-- What had been written when a write failed first. -/
  failedAt : Option Bytes := none

inductive Choice
  | go
  | emit (n : Nat)
  | fail
  deriving DecidableEq

inductive Label (M : Type)
  | writeT (tag : Tag) (msg : M)
  | signalShutdown
  | move (t : Nat) (choice : Choice)

section Steps

variable {M : Type} [Message M]

/-- The end of `signalShutdown`. -/
def afterShutdown (held : Bool) : Pc M := if held then .unlocking (.error .write) else .gone

/-- One step of thread `t`, on a connection with the given `msize`. -/
def move (msize : UInt32) (s : State M) (t : Nat) : Pc M → Choice → Option (Pc M × State M)
  | .checking tag msg, .go => some (if s.closeCh then .returned (.error .closed) else .encoding tag msg, s)
  | .encoding tag msg, .go =>
    match Message.encodeTo msg [] with
    | .error e => some (.returned (.error (.encode e)), s)
    | .ok ((), body) =>
      let size := frameSize body
      if size > msize then some (.returned (.error (.tooLarge size)), s)
      else some (.locking (headed (Message.type msg) tag body) size, s)
  | .locking frame size, .go =>
    if s.writeMu.isSome then none else some (.locked frame size, { s with writeMu := some t })
  | .locked frame size, .go =>
    some (if s.closeCh then .unlocking (.error .closed) else .writing frame size, s)
  | .writing rest size, .emit n =>
    if s.ncClosed then none else some (.writing (rest.drop n) size, { s with out := s.out ++ rest.take n })
  | .writing rest size, .go => if rest = [] then some (.unlocking (.ok size), s) else none
  | .writing _ _, .fail => some (.shutting true, { s with failedAt := some (s.failedAt.getD s.out) })
  | .shutting held, .go =>
    match s.once with
    | .idle => some (.closing held .closeAdmission, { s with once := .running })
    | .running => none
    | .done => some (afterShutdown held, s)
  | .closing held .closeAdmission, .go => some (.closing held .closeCh, s)
  | .closing held .closeCh, .go => some (.closing held .closeNc, { s with closeCh := true })
  | .closing held .closeNc, .go => some (.closing held .cancelAll, { s with ncClosed := true })
  | .closing held .cancelAll, .go => some (afterShutdown held, { s with once := .done })
  | .unlocking result, .go => some (.returned result, { s with writeMu := none })
  | _, _ => none

def step (msize : UInt32) (s : State M) : Label M → Option (State M)
  | .writeT tag msg => some { s with threads := s.threads ++ [.checking tag msg] }
  | .signalShutdown => some { s with threads := s.threads ++ [.shutting false] }
  | .move t choice =>
    (s.threads[t]?).bind fun pc => (move msize s t pc choice).map fun (pc', s') =>
      { s' with threads := s.threads.set t pc' }

/-- A connection after `Dial`. -/
def init : State M := {}

end Steps

/-! ## The steps, one by one -/

section Moves

variable {M : Type} [Message M]

/-- `move` as a relation: one case for every branch. -/
inductive Moves (msize : UInt32) (s : State M) (t : Nat) : Pc M → Pc M → State M → Prop
  | check {tag : Tag} {msg : M} {pc : Pc M} (hpc : pc = .returned (.error .closed) ∨ pc = .encoding tag msg) :
      Moves msize s t (.checking tag msg) pc s
  | refuse {tag : Tag} {msg : M} {e : WriteErr} : Moves msize s t (.encoding tag msg) (.returned (.error e)) s
  | encode {tag : Tag} {msg : M} {body : Bytes} (hbody : Message.encodeTo msg [] = .ok ((), body))
      (hsize : frameSize body ≤ msize) : Moves msize s t (.encoding tag msg)
        (.locking (headed (Message.type msg) tag body) (frameSize body)) s
  | lock {frame : Bytes} {size : UInt32} (hmu : s.writeMu = none) :
      Moves msize s t (.locking frame size) (.locked frame size) { s with writeMu := some t }
  | closed {frame : Bytes} {size : UInt32} (hclosed : s.closeCh = true) :
      Moves msize s t (.locked frame size) (.unlocking (.error .closed)) s
  | begin {frame : Bytes} {size : UInt32} (hopen : s.closeCh = false) :
      Moves msize s t (.locked frame size) (.writing frame size) s
  | emit {rest : Bytes} {size : UInt32} (n : Nat) : Moves msize s t (.writing rest size) (.writing (rest.drop n) size)
      { s with out := s.out ++ rest.take n }
  | wrote {size : UInt32} : Moves msize s t (.writing [] size) (.unlocking (.ok size)) s
  | fail {rest : Bytes} {size : UInt32} : Moves msize s t (.writing rest size) (.shutting true)
      { s with failedAt := some (s.failedAt.getD s.out) }
  | first {held : Bool} : Moves msize s t (.shutting held) (.closing held .closeAdmission) { s with once := .running }
  | later {held : Bool} (honce : s.once = .done) : Moves msize s t (.shutting held) (afterShutdown held) s
  | closeAdmission {held : Bool} : Moves msize s t (.closing held .closeAdmission) (.closing held .closeCh) s
  | closeCh {held : Bool} : Moves msize s t (.closing held .closeCh) (.closing held .closeNc) { s with closeCh := true }
  | closeNc {held : Bool} : Moves msize s t (.closing held .closeNc) (.closing held .cancelAll) { s with ncClosed := true }
  | cancelAll {held : Bool} : Moves msize s t (.closing held .cancelAll) (afterShutdown held) { s with once := .done }
  | unlock {result : Except WriteErr UInt32} :
      Moves msize s t (.unlocking result) (.returned result) { s with writeMu := none }

theorem move_moves {msize : UInt32} {s s' : State M} {t : Nat} {pc pc' : Pc M} {choice : Choice}
    (h : move msize s t pc choice = some (pc', s')) : Moves msize s t pc pc' s' := by
  unfold move at h
  split at h
  case h_1 =>
    cases h
    refine .check ?_
    split
    · exact .inl rfl
    · exact .inr rfl
  case h_2 =>
    split at h
    · cases h
      exact .refuse
    · rename_i body hbody
      simp only at h
      split at h
      · cases h
        exact .refuse
      · cases h
        exact .encode hbody (UInt32.not_lt.1 ‹_›)
  case h_3 =>
    by_cases hmu : s.writeMu.isSome
    · rw [if_pos hmu] at h
      cases h
    · rw [if_neg hmu] at h
      cases h
      exact .lock (by simpa using hmu)
  case h_4 =>
    cases h
    cases hclosed : s.closeCh with
    | true => exact .closed hclosed
    | false => exact .begin hclosed
  case h_5 =>
    split at h
    · cases h
    · cases h
      exact .emit _
  case h_6 =>
    split at h
    · subst ‹_ = []›
      cases h
      exact .wrote
    · cases h
  case h_8 =>
    split at h
    · cases h
      exact .first
    · cases h
    · cases h
      exact .later ‹_›
  case h_14 => cases h
  all_goals
    cases h
    constructor

end Moves

/-! ## The invariant -/

section Invariant

variable {M : Type} {s s' : State M} {pc pc' : Pc M}

/-- The thread has `writeMu`. -/
def Pc.Holds : Pc M → Prop
  | .locked _ _ | .writing _ _ | .shutting true | .closing true _ | .unlocking _ => True
  | _ => False

/-- What a thread is about to write, or has closed. -/
def Pc.Knows (msize : UInt32) (s : State M) : Pc M → Prop
  | .locking frame _ | .locked frame _ => IsFrame msize frame
  | .closing _ .closeNc | .closing _ .cancelAll => s.closeCh = true
  | _ => True

/-- Whole frames were written; or a write failed, and the connection is closed. -/
def Calm (msize : UInt32) (s : State M) : Prop :=
  s.failedAt = none ∧ Whole (IsFrame msize) s.out ∨
    s.failedAt = some s.out ∧ Framed (IsFrame msize) s.out ∧ s.closeCh = true

/-- What was written while a thread at this point has `writeMu`. -/
def Pc.Output (msize : UInt32) (s : State M) : Pc M → Prop
  | .writing rest _ => s.failedAt = none ∧
      ∃ pre part, Whole (IsFrame msize) pre ∧ s.out = pre ++ part ∧ IsFrame msize (part ++ rest)
  | .shutting _ | .closing _ _ => s.failedAt = some s.out ∧ Framed (IsFrame msize) s.out
  | _ => Calm msize s

structure Inv (msize : UInt32) (s : State M) : Prop where
  mutex : Guards Pc.Holds (Calm msize s) (Pc.Output msize s) s.threads s.writeMu
  knows : ∀ pc ∈ s.threads, pc.Knows msize s
  once : s.once = .done → s.closeCh = true

theorem init_inv : Inv msize (init : State M) where
  mutex := guards_nil (.inl ⟨rfl, whole_nil⟩)
  knows := by simp [init]
  once := by simp [init]

theorem Calm.framed (h : Calm msize s) :
    Framed (IsFrame msize) s.out ∧ ∀ out, s.failedAt = some out → s.out = out := by
  rcases h with ⟨hfail, hout⟩ | ⟨hfail, hout, -⟩
  · exact ⟨hout.framed, by simp [hfail]⟩
  · exact ⟨hout, by simp [hfail]⟩

theorem Inv.framed (hs : Inv msize s) :
    Framed (IsFrame msize) s.out ∧ ∀ out, s.failedAt = some out → s.out = out := by
  refine hs.mutex.resource Calm.framed fun pc hout => ?_
  cases pc with
  | writing rest size =>
    obtain ⟨hfail, pre, part, hpre, heq, hframe⟩ := hout
    exact ⟨heq ▸ hpre.framed_append hframe, by simp [hfail]⟩
  | shutting | closing => exact ⟨hout.2, by simp [hout.1]⟩
  | _ => exact Calm.framed hout

/-- What a step leaves as it was for the holder of `writeMu`, if the step is another thread's. -/
structure Later (s s' : State M) : Prop where
  out : s'.out = s.out
  failedAt : s'.failedAt = s.failedAt
  closeCh : s.closeCh = true → s'.closeCh = true

theorem Calm.later (hl : Later s s') (h : Calm msize s) : Calm msize s' := by
  unfold Calm
  rw [hl.out, hl.failedAt]
  exact h.imp_right fun ⟨hfail, hout, hclosed⟩ => ⟨hfail, hout, hl.closeCh hclosed⟩

theorem Pc.Output.later (hl : Later s s') (pc : Pc M) (h : pc.Output msize s) : pc.Output msize s' := by
  cases pc with
  | writing | shutting | closing =>
    simp only [Pc.Output] at h ⊢
    rw [hl.out, hl.failedAt]
    exact h
  | _ => exact Calm.later hl h

theorem Pc.Knows.mono (h : pc.Knows msize s) (hclosed : s.closeCh = true → s'.closeCh = true) :
    pc.Knows msize s' := by
  cases pc with
  | closing held stage => cases stage <;> first | exact hclosed h | trivial
  | _ => exact h

/-- What a step of thread `t` does that the invariant speaks of. -/
structure Local (msize : UInt32) (s : State M) (t : Nat) (pc pc' : Pc M) (s' : State M) : Prop where
  closeCh : s.closeCh = true → s'.closeCh = true
  knows : pc'.Knows msize s'
  once : s'.once = .done → s'.closeCh = true
  mutex : Use Pc.Holds (Calm msize s) (Calm msize s') (Pc.Output msize s) (Pc.Output msize s') s.writeMu s'.writeMu t
    pc pc'

theorem Inv.set (hs : Inv msize s) (ht : s.threads[t]? = some pc) (hm : Local msize s t pc pc' s') :
    Inv msize { s' with threads := s.threads.set t pc' } where
  mutex := hs.mutex.set ht hm.mutex
  knows := by
    intro q hq
    rcases mem_or_eq_of_mem_set hq with hq | rfl
    · exact (hs.knows q hq).mono hm.closeCh
    · exact hm.knows
  once := hm.once

theorem Inv.add (hs : Inv msize s) (hpc : ¬ pc.Holds) (hk : pc.Knows msize s) :
    Inv msize { s with threads := s.threads ++ [pc] } where
  mutex := hs.mutex.add hpc
  knows := by
    intro q hq
    rcases mem_append.1 hq with hq | hq
    · exact hs.knows q hq
    · exact mem_singleton.1 hq ▸ hk
  once := hs.once

theorem afterShutdown_holds : (afterShutdown held : Pc M).Holds ↔ held = true := by
  cases held <;> simp [afterShutdown, Pc.Holds]

theorem afterShutdown_knows : (afterShutdown held : Pc M).Knows msize s := by
  cases held <;> simp [afterShutdown, Pc.Knows]

theorem Later.use (hl : Later s s') (hmu : s'.writeMu = s.writeMu) (hpc : ¬ pc.Holds) (hpc' : ¬ pc'.Holds) :
    Use Pc.Holds (Calm msize s) (Calm msize s') (Pc.Output msize s) (Pc.Output msize s') s.writeMu s'.writeMu t
      pc pc' :=
  .other hpc hpc' hmu (Calm.later hl) (Pc.Output.later hl)

/-- Within `signalShutdown` a thread has `writeMu` or not, and what it has written stays. -/
theorem Later.shutdown (hl : Later s s') (hmu : s'.writeMu = s.writeMu) (hpc : pc.Holds ↔ held = true)
    (hpc' : pc'.Holds ↔ held = true) (hout : held = true → pc'.Output msize s') :
    Use Pc.Holds (Calm msize s) (Calm msize s') (Pc.Output msize s) (Pc.Output msize s') s.writeMu s'.writeMu t
      pc pc' := by
  cases held with
  | false => exact hl.use hmu (by simp [hpc]) (by simp [hpc'])
  | true => exact .keep (hpc.2 rfl) (hpc'.2 rfl) hmu (hout rfl)

theorem shutting_holds : (Pc.shutting held : Pc M).Holds ↔ held = true := by
  cases held <;> simp [Pc.Holds]

theorem closing_holds : (Pc.closing held stage : Pc M).Holds ↔ held = true := by
  cases held <;> simp [Pc.Holds]

theorem afterShutdown_output (hheld : held = true) (hout : s.failedAt = some s.out ∧ Framed (IsFrame msize) s.out)
    (hclosed : s.closeCh = true) :
    (afterShutdown held : Pc M).Output msize s := by
  subst hheld
  exact .inr ⟨hout.1, hout.2, hclosed⟩

end Invariant

/-! ## Every run -/

section Runs

variable {M : Type} [Message M] [BoundedMessage M] {msize : UInt32} {s : State M}

theorem Moves.toLocal (h : Moves msize s t pc pc' s') (hs : Inv msize s) (ht : s.threads[t]? = some pc) :
    Local msize s t pc pc' s' := by
  have hknows := hs.knows pc (mem_of_getElem? ht)
  have hout (hpc : pc.Holds) : pc.Output msize s := hs.mutex.mine ht hpc
  have hsame : Later s s := ⟨rfl, rfl, id⟩
  cases h with
  | check hpc =>
    refine ⟨id, ?_, hs.once, hsame.use rfl (by simp [Pc.Holds]) ?_⟩
    · rcases hpc with rfl | rfl <;> trivial
    · rcases hpc with rfl | rfl <;> simp [Pc.Holds]
  | refuse => exact ⟨id, trivial, hs.once, hsame.use rfl (by simp [Pc.Holds]) (by simp [Pc.Holds])⟩
  | encode hbody hsize =>
    exact ⟨id, headed_isFrame (length_body hbody) hsize, hs.once,
      hsame.use rfl (by simp [Pc.Holds]) (by simp [Pc.Holds])⟩
  | lock hmu => exact ⟨id, hknows, hs.once, .take (by simp [Pc.Holds]) trivial hmu rfl (hs.mutex.free hmu)⟩
  | closed hclosed => exact ⟨id, trivial, hs.once, .keep trivial trivial rfl (hout trivial)⟩
  | begin hopen =>
    refine ⟨id, trivial, hs.once, .keep trivial trivial rfl ?_⟩
    rcases hout trivial with ⟨hfail, hwhole⟩ | ⟨-, -, hclosed⟩
    · exact ⟨hfail, s.out, [], hwhole, by simp, hknows⟩
    · exact absurd hclosed (by simp [hopen])
  | @emit rest size n =>
    refine ⟨id, trivial, hs.once, .keep trivial trivial rfl ?_⟩
    obtain ⟨hfail, pre, part, hpre, heq, hframe⟩ := hout trivial
    refine ⟨hfail, pre, part ++ rest.take n, hpre, ?_, ?_⟩
    · simp [heq]
    · rwa [append_assoc, take_append_drop]
  | wrote =>
    refine ⟨id, trivial, hs.once, .keep trivial trivial rfl ?_⟩
    obtain ⟨hfail, pre, part, hpre, heq, hframe⟩ := hout trivial
    rw [append_nil] at hframe
    exact .inl ⟨hfail, heq ▸ hpre.append hframe⟩
  | fail =>
    refine ⟨id, trivial, hs.once, .keep trivial trivial rfl ?_⟩
    obtain ⟨hfail, pre, part, hpre, heq, hframe⟩ := hout trivial
    exact ⟨by simp [hfail], heq ▸ hpre.framed_append hframe⟩
  | first =>
    have hl : Later s { s with once := .running } := ⟨rfl, rfl, id⟩
    exact ⟨id, trivial, by simp,
      hl.shutdown rfl shutting_holds closing_holds fun hheld => hout (shutting_holds.2 hheld)⟩
  | later honce =>
    exact ⟨id, afterShutdown_knows, hs.once, hsame.shutdown rfl shutting_holds afterShutdown_holds
      fun hheld => afterShutdown_output hheld (hout (shutting_holds.2 hheld)) (hs.once honce)⟩
  | closeAdmission =>
    exact ⟨id, trivial, hs.once,
      hsame.shutdown rfl closing_holds closing_holds fun hheld => hout (closing_holds.2 hheld)⟩
  | closeCh =>
    have hl : Later s { s with closeCh := true } := ⟨rfl, rfl, fun _ => rfl⟩
    exact ⟨fun _ => rfl, rfl, fun _ => rfl,
      hl.shutdown rfl closing_holds closing_holds fun hheld => hout (closing_holds.2 hheld)⟩
  | closeNc =>
    have hl : Later s { s with ncClosed := true } := ⟨rfl, rfl, id⟩
    exact ⟨id, hknows, hs.once,
      hl.shutdown rfl closing_holds closing_holds fun hheld => hout (closing_holds.2 hheld)⟩
  | cancelAll =>
    have hl : Later s { s with once := .done } := ⟨rfl, rfl, id⟩
    exact ⟨id, afterShutdown_knows, fun _ => hknows, hl.shutdown rfl closing_holds afterShutdown_holds
      fun hheld => afterShutdown_output hheld (hout (closing_holds.2 hheld)) hknows⟩
  | unlock => exact ⟨id, trivial, hs.once, .drop trivial (by simp [Pc.Holds]) rfl (hout trivial)⟩

theorem step_inv {l : Label M} (hs : Inv msize s) (h : step msize s l = some s') : Inv msize s' := by
  cases l with
  | writeT tag msg =>
    obtain rfl := by simpa [step] using h
    exact hs.add (by simp [Pc.Holds]) trivial
  | signalShutdown =>
    obtain rfl := by simpa [step] using h
    exact hs.add (by simp [Pc.Holds]) trivial
  | move t choice =>
    obtain ⟨pc, ht, h⟩ := Option.bind_eq_some_iff.1 h
    obtain ⟨⟨pc', s1⟩, hmove, rfl⟩ := Option.map_eq_some_iff.1 h
    exact hs.set ht ((move_moves hmove).toLocal hs ht)

/-- **In every run the output is whole frames of at most `msize` bytes and at most a part of one more, and a failed write
is the last one.** -/
theorem output_framed (ls : List (Label M)) (h : run (step msize) init ls = some s) :
    (∃ frames : List Bytes, (∀ f ∈ frames, IsFrame msize f) ∧ s.out <+: frames.flatten) ∧
      ∀ out, s.failedAt = some out → s.out = out :=
  (run_inv step_inv init_inv h).framed

end Runs

/-- Two writers: the first one fails in the middle of its frame, the second one finds the connection closed. -/
def failedEvents : List (Label P9l.Msg) :=
  [.writeT 0 (.base (.tclunk ⟨1⟩)), .writeT 1 (.base (.tflush ⟨0⟩)), .move 0 .go, .move 0 .go, .move 1 .go, .move 1 .go,
    .move 0 .go, .move 0 .go, .move 0 (.emit 4), .move 0 .fail, .move 0 .go, .move 0 .go, .move 0 .go, .move 0 .go,
    .move 0 .go, .move 0 .go, .move 1 .go, .move 1 .go, .move 1 .go]

theorem output_framed_failed : ∃ s : State P9l.Msg, run (step 256) init failedEvents = some s ∧
    s.out = [11, 0, 0, 0] ∧ s.failedAt = some s.out ∧
    (∃ frames : List Bytes, (∀ f ∈ frames, IsFrame 256 f) ∧ s.out <+: frames.flatten) ∧
      ∀ out, s.failedAt = some out → s.out = out :=
  ⟨_, rfl, rfl, rfl, output_framed failedEvents rfl⟩

end NineP.Client.Writer
