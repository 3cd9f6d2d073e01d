import NineP.Client.Tags
import NineP.Proto.Frame

/-!
# The client's read loop

The callers of `Client.Exchange` against a server that may send anything.  The read loop checks each frame, looks its
tag up in the in-flight map, and either copies the payload of an Rread into the caller's buffer, byte by byte and with
the map's read lock held, or decodes the message and delivers it.  An entry knows the caller that registered it.
-/

namespace NineP.Client.ReadLoop

open Proto Codec Option

variable {μ : Type}

/-! ## The state -/

/-- Where the read loop is. -/
inductive Reader
  | idle
  | parsed (b : Bytes)  -- a frame is read; `b` is its body
  | copying (tag : Tag) (e count i : Nat) (b : Bytes)  -- `i` bytes are copied; the read lock is held
  | decoding (b : Bytes)
  | delivering (b : Bytes)
  | stopping  -- `signalShutdown` is next
  | gone
  deriving DecidableEq

def Reader.locks : Reader → Bool
  | .copying _ _ _ _ _ => true
  | _ => false

structure State (μ : Type) where
  net : Client.State μ Bytes
  /-- The caller of each entry. -/
  owners : List Nat
  /-- The buffer of each caller. -/
  dst : List Bytes
  reader : Reader

structure Config where
  maxInflight : Nat
  msize : Nat

inductive Label (μ : Type)
  | call (msg : TMsg μ) (dst : Option Bytes) (flushOnCancel : Bool)
  | move (k : Nat) (choice : Choice)
  | frame (b : Bytes)
  | readFail
  | lookup
  | copy  -- one byte
  | post  -- `entry.n`, the sentinel, and the unlock
  | decode (ok : Bool)
  | deliver
  | stop
  | shutdown
  | closeNc
  | cancelAll
  deriving DecidableEq

/-! ## Frames -/

/-- `binary.LittleEndian.Uint16` at an offset. -/
def uint16At (b : Bytes) (i : Nat) : UInt16 := (b.getD i 0).toUInt16 ||| (b.getD (i + 1) 0).toUInt16 <<< 8

/-- `binary.LittleEndian.Uint32` at an offset. -/
def uint32At (b : Bytes) (i : Nat) : UInt32 := (uint16At b i).toUInt32 ||| (uint16At b (i + 2)).toUInt32 <<< 16

def msgType (b : Bytes) : MessageType := b.getD 0 0

def tagOf (b : Bytes) : Tag := uint16At b 1

/-- The `count` of an Rread or Rreaddir. -/
def countOf (b : Bytes) : Nat := (uint32At b 3).toNat

/-- The check of a frame with a count before it is decoded. -/
def precheck (b : Bytes) : Reader :=
  if b.length < 7 then .stopping
  else if b.length - 7 < countOf b then .stopping
  else .decoding b

/-- The entry of a tag that has a `dst`, and the length of that. -/
def State.zeroCopy (s : State μ) (tag : Tag) : Option (Nat × Nat) := do
  let e ← s.net.shared.inflight tag
  let x ← s.net.shared.entries[e]?
  let k ← s.owners[e]?
  let d ← s.dst[k]?
  if x.zeroCopy then some (e, d.length) else none

/-- What the read loop does with a frame when it has looked its tag up. -/
def State.lookup (s : State μ) (b : Bytes) : Reader :=
  if msgType b = typeRread then
    match s.zeroCopy (tagOf b) with
    | some (e, len) =>
      if b.length < 7 then .stopping
      else if maxDataSize < countOf b then .stopping
      else if len % 2 ^ 32 < countOf b then .stopping
      else if b.length - 7 < countOf b then .stopping
      else .copying (tagOf b) e (countOf b) 0 b
    | none => precheck b
  else if msgType b = typeRreaddir then precheck b
  else .decoding b

/-! ## Steps -/

def locksMap : Pc Bytes → Bool
  | .acquired _ | .received _ _ _ _ | .abandoning _ _ _ | .flushing _ _ _ | .flushUnregistering _ _ _
  | .unregistering _ _ _ => true
  | _ => false

def State.blocks (s : State μ) (k : Nat) : Bool := s.reader.locks && (s.net.calls[k]?).any (locksMap ·.pc)

def State.setShared (s : State μ) (c : Shared μ Bytes) : State μ := { s with net := { s.net with shared := c } }

/-- The read loop has copied the payload of `f` and sends the sentinel. -/
def post (c : Shared μ Bytes) (e : Nat) (f : RFrame Bytes) : Shared μ Bytes :=
  { c with entries := c.entries.modify e fun x => { x with dst := some f, ch := x.ch.or (some .sentinel) } }

/-- A frame that the read loop hands to a caller; its number means nothing here. -/
def frameOf (rread : Bool) (b : Bytes) : RFrame Bytes := ⟨tagOf b, 0, rread, b⟩

def step (cfg : Config) (s : State μ) : Label μ → Option (State μ)
  | .call msg dst flushOnCancel =>
    (Client.step cfg.maxInflight s.net (.call msg dst.isSome flushOnCancel)).map fun net =>
      { s with net, dst := s.dst ++ [dst.getD []] }
  | .move k choice =>
    if s.blocks k then none
    else (Client.step cfg.maxInflight s.net (.move k choice)).map fun net =>
      { s with
        net
        owners := s.owners ++ List.replicate (net.shared.entries.length - s.net.shared.entries.length) k }
  | .frame b =>
    match s.reader with
    | .idle => some { s with reader := if b.length < 3 ∨ cfg.msize < b.length + 4 then .stopping else .parsed b }
    | _ => none
  | .readFail =>
    match s.reader with
    | .idle => some { s with reader := .stopping }
    | _ => none
  | .lookup =>
    match s.reader with
    | .parsed b => some { s with reader := s.lookup b }
    | _ => none
  | .copy =>
    match s.reader with
    | .copying tag e count i b =>
      if i < count then
        (s.owners[e]?).map fun k =>
          { s with
            dst := s.dst.modify k (·.set i (b.getD (7 + i) 0))
            reader := .copying tag e count (i + 1) b }
      else none
    | _ => none
  | .post =>
    match s.reader with
    | .copying _ e count i b =>
      if i = count then some { s.setShared (post s.net.shared e (frameOf true b)) with reader := .idle } else none
    | _ => none
  | .decode ok =>
    match s.reader with
    | .decoding b => some { s with reader := if ok then .delivering b else .stopping }
    | _ => none
  | .deliver =>
    match s.reader with
    | .delivering b => some { s.setShared (s.net.shared.deliver (frameOf false b)) with reader := .idle }
    | _ => none
  | .stop =>
    match s.reader with
    | .stopping => some { s.setShared s.net.shared.shutdown with reader := .gone }
    | _ => none
  | .shutdown => some (s.setShared s.net.shared.shutdown)
  | .closeNc =>
    if s.net.shared.closed then some (s.setShared { s.net.shared with ncClosed := true }) else none
  | .cancelAll =>
    if s.reader.locks then none
    else if s.net.shared.ncClosed then some (s.setShared s.net.shared.cancelAll) else none

def init (cfg : Config) : State μ where
  net := Client.init cfg.maxInflight
  owners := []
  dst := []
  reader := .idle

/-! ## The steps, one by one -/

def State.moved (s : State μ) (k : Nat) (call : Call μ Bytes) (pc : Pc Bytes) (c : Shared μ Bytes) : State μ :=
  { s with
    net := { shared := c, calls := s.net.calls.set k { call with pc } }
    owners := s.owners ++ List.replicate (c.entries.length - s.net.shared.entries.length) k }

inductive Steps (cfg : Config) (s : State μ) : Label μ → State μ → Prop
  | call {msg : TMsg μ} {dst : Option Bytes} {flushOnCancel : Bool} : Steps cfg s (.call msg dst flushOnCancel)
      { s with
        net := { s.net with calls := s.net.calls ++ [⟨msg, dst.isSome, flushOnCancel, .acquiring⟩] }
        dst := s.dst ++ [dst.getD []] }
  | move {k : Nat} {choice : Choice} {call : Call μ Bytes} {pc : Pc Bytes} {c : Shared μ Bytes}
      (hk : s.net.calls[k]? = some call) (hfree : s.reader.locks → locksMap call.pc = false)
      (h : Moves cfg.maxInflight s.net.shared call call.pc pc c) : Steps cfg s (.move k choice) (s.moved k call pc c)
  /-- The read loop goes on and holds no lock. -/
  | read {l : Label μ} {r : Reader} (hlocks : s.reader.locks = false) (hr : r.locks = false)
      (hl : l ≠ .post ∧ l ≠ .deliver ∧ l ≠ .cancelAll ∧ l ≠ .copy) : Steps cfg s l { s with reader := r }
  | lock {b : Bytes} {e len : Nat} (hreader : s.reader = .parsed b) (he : s.zeroCopy (tagOf b) = some (e, len))
      (hlen : countOf b ≤ len) : Steps cfg s .lookup { s with reader := .copying (tagOf b) e (countOf b) 0 b }
  | copy {tag : Tag} {e count i k : Nat} {b : Bytes} (hreader : s.reader = .copying tag e count i b) (hi : i < count)
      (hk : s.owners[e]? = some k) : Steps cfg s .copy
        { s with
          dst := s.dst.modify k (·.set i (b.getD (7 + i) 0))
          reader := .copying tag e count (i + 1) b }
  | post {tag : Tag} {e count : Nat} {b : Bytes} (hreader : s.reader = .copying tag e count count b) : Steps cfg s .post
      { s.setShared (post s.net.shared e (frameOf true b)) with reader := .idle }
  | deliver {b : Bytes} (hreader : s.reader = .delivering b) : Steps cfg s .deliver
      { s.setShared (s.net.shared.deliver (frameOf false b)) with reader := .idle }
  | stop (hlocks : s.reader.locks = false) : Steps cfg s .stop { s.setShared s.net.shared.shutdown with reader := .gone }
  | shutdown : Steps cfg s .shutdown (s.setShared s.net.shared.shutdown)
  | closeNc : Steps cfg s .closeNc (s.setShared { s.net.shared with ncClosed := true })
  | cancelAll (hlocks : s.reader.locks = false) : Steps cfg s .cancelAll (s.setShared s.net.shared.cancelAll)

section Inversion

variable {s : State μ}

theorem precheck_locks (b : Bytes) : (precheck b).locks = false := by
  unfold precheck
  split
  · rfl
  · split <;> rfl

theorem lookup_cases (b : Bytes) : (s.lookup b).locks = false ∨
    ∃ e len, s.zeroCopy (tagOf b) = some (e, len) ∧ countOf b ≤ len ∧
      s.lookup b = .copying (tagOf b) e (countOf b) 0 b := by
  unfold State.lookup
  split
  · split
    · rename_i e len he
      split
      · exact .inl rfl
      split
      · exact .inl rfl
      split
      · exact .inl rfl
      split
      · exact .inl rfl
      · have hmod := Nat.mod_le len (2 ^ 32)
        exact .inr ⟨e, len, he, by omega, rfl⟩
    · exact .inl (precheck_locks b)
  · split
    · exact .inl (precheck_locks b)
    · exact .inl rfl

theorem step_steps (h : step cfg s l = some s') : Steps cfg s l s' := by
  cases l with
  | call msg dst flushOnCancel =>
    obtain ⟨net, hnet, rfl⟩ := map_eq_some_iff.1 h
    cases Client.step_steps hnet with
    | call => exact .call
  | move k choice =>
    simp only [step, ite_none_left_eq_some] at h
    obtain ⟨hblocks, h⟩ := h
    obtain ⟨net, hnet, rfl⟩ := map_eq_some_iff.1 h
    cases Client.step_steps hnet with
    | move hk hmove =>
      refine .move hk (fun hlocks => ?_) hmove
      simpa [State.blocks, hlocks, hk] using hblocks
  | frame b =>
    simp only [step] at h
    split at h
    · rename_i hreader
      cases h
      refine .read (by rw [hreader]; rfl) ?_ (by simp)
      split <;> rfl
    · cases h
  | readFail =>
    simp only [step] at h
    split at h
    · rename_i hreader
      cases h
      exact .read (by rw [hreader]; rfl) rfl (by simp)
    · cases h
  | lookup =>
    simp only [step] at h
    split at h
    · rename_i b hreader
      cases h
      rcases lookup_cases (s := s) b with hlocks | ⟨e, len, he, hlen, heq⟩
      · exact .read (by rw [hreader]; rfl) hlocks (by simp)
      · rw [heq]
        exact .lock hreader he hlen
    · cases h
  | copy =>
    simp only [step] at h
    split at h
    · rename_i hreader
      simp only [ite_none_right_eq_some] at h
      obtain ⟨hi, h⟩ := h
      obtain ⟨k, hk, rfl⟩ := map_eq_some_iff.1 h
      exact .copy hreader hi hk
    · cases h
  | post =>
    simp only [step] at h
    split at h
    · rename_i hreader
      simp only [ite_none_right_eq_some, Option.some.injEq] at h
      obtain ⟨rfl, rfl⟩ := h
      exact .post hreader
    · cases h
  | decode ok =>
    simp only [step] at h
    split at h
    · rename_i hreader
      cases h
      refine .read (by rw [hreader]; rfl) ?_ (by simp)
      split <;> rfl
    · cases h
  | deliver =>
    simp only [step] at h
    split at h
    · rename_i hreader
      cases h
      exact .deliver hreader
    · cases h
  | stop =>
    simp only [step] at h
    split at h
    · rename_i hreader
      cases h
      exact .stop (by rw [hreader]; rfl)
    · cases h
  | shutdown =>
    cases h
    exact .shutdown
  | closeNc =>
    simp only [step, ite_none_right_eq_some, Option.some.injEq] at h
    obtain ⟨-, rfl⟩ := h
    exact .closeNc
  | cancelAll =>
    simp only [step, ite_none_left_eq_some, ite_none_right_eq_some, Option.some.injEq] at h
    obtain ⟨hlocks, -, rfl⟩ := h
    exact .cancelAll (by simpa using hlocks)

end Inversion

end NineP.Client.ReadLoop
