import NineP.Server.RawReaddir

/-!
# Reads of one open directory

`RawReaddir` of the passthrough file system, called by several Treaddirs at a time: the descriptor of a `dirHandle` has
one position, which `Seek` sets and `Getdents` reads from and moves.
-/

namespace NineP.Server.RawReaddir

open Codec Proto Transition List
open Replies (direntBytes encodeDirentsInto encodeDirentsInto_eq)

/-- A directory of the host, which does not change. -/
structure Directory where
  records : List Record
  seekErr : UInt64 → Option Errno
  /-- How many of the records left a `Getdents` returns. -/
  getdents : List Record → Except Errno Nat

def Directory.after (d : Directory) (cookie : UInt64) : List Record :=
  if cookie = 0 then d.records else (d.records.dropWhile (·.off ≠ cookie)).tail

inductive Pc
  | start
  | sought
  | done (result : Except Errno Bytes)

/-- A call of `RawReaddir` with a buffer of `size` bytes. -/
structure Read where
  size : Nat
  offset : UInt64
  pc : Pc := .start

/-- The descriptor and the calls on it. -/
structure Shared where
  pos : UInt64 := 0
  reads : List Read := []

inductive Label
  | call (size : Nat) (offset : UInt64)
  | go (i : Nat)

/-- The next system call of a `RawReaddir`, and where it leaves the position. -/
def Read.go (d : Directory) (pos : UInt64) (r : Read) : Option (UInt64 × Pc) :=
  match r.pc with
  | .start =>
    if r.offset.toNat > 2 ^ 63 - 1 then some (pos, .done (.error EINVAL))
    else
      match d.seekErr r.offset with
      | some e => some (pos, .done (.error e))
      | none => some (r.offset, .sought)
  | .sought =>
    match d.getdents (d.after pos) with
    | .error e => some (pos, .done (.error e))
    | .ok k =>
      let records := (d.after pos).take k
      let raw := records.flatMap Record.bytes
      some (records.getLast?.elim pos (·.off), .done (.ok (encodeDirentsInto r.size (parseRecords raw.length raw) [])))
  | .done _ => none

def step (d : Directory) (s : Shared) : Label → Option Shared
  | .call size offset => some { s with reads := s.reads ++ [{ size, offset }] }
  | .go i => (s.reads[i]?).bind fun r => (r.go d s.pos).map fun (pos, pc) => ⟨pos, s.reads.set i { r with pc }⟩

def Pc.isSought : Pc → Bool
  | .sought => true
  | _ => false

/-- No other call is between its `Seek` and its `Getdents`. -/
def Alone (s : Shared) : Label → Prop
  | .call _ _ => True
  | .go i => ∀ r ∈ s.reads.eraseIdx i, r.pc.isSought = false

instance : ∀ s l, Decidable (Alone s l)
  | _, .call _ _ => inferInstanceAs (Decidable True)
  | s, .go i => inferInstanceAs (Decidable (∀ r ∈ s.reads.eraseIdx i, r.pc.isSought = false))

/-- The result is made of the entries that follow the cookie. -/
def Read.Follows (d : Directory) (r : Read) : Prop :=
  ∀ data, r.pc = .done (.ok data) → ∃ ps, data = direntBytes ps ∧ ps <+: entries (d.after r.offset)

/-- What one call leaves to the others. -/
structure Inv (d : Directory) (s : Shared) : Prop where
  sought : ∀ r ∈ s.reads, r.pc.isSought = true → s.pos = r.offset
  follows : ∀ r ∈ s.reads, r.Follows d

section Step

variable {d : Directory} {s : Shared} {r : Read} {pc : Pc}

theorem entries_take (rs : List Record) (k : Nat) : entries (rs.take k) <+: entries rs :=
  ((( take_prefix k rs).filter _).map _)

theorem after_subset (d : Directory) (cookie : UInt64) : ∀ r ∈ d.after cookie, r ∈ d.records := by
  intro r hr
  unfold Directory.after at hr
  split at hr
  · exact hr
  · exact (dropWhile_sublist _).subset (mem_of_mem_tail hr)

/-- One system call: where the position is after a `Seek`, and what a `Getdents` returns from there. -/
theorem go_follows (hvalid : ∀ r ∈ d.records, r.Valid) (hpos : r.pc.isSought = true → s.pos = r.offset)
    (h : r.go d s.pos = some (pos, pc)) :
    (pc.isSought = true → pos = r.offset) ∧ Read.Follows d { r with pc } := by
  have hfailed {e : Errno} : Read.Follows d { r with pc := .done (.error e) } := fun _ h => by cases h
  unfold Read.go at h
  split at h
  · split at h
    · cases h
      exact ⟨by simp [Pc.isSought], hfailed⟩
    · split at h <;> cases h
      · exact ⟨by simp [Pc.isSought], hfailed⟩
      · exact ⟨fun _ => rfl, fun _ h => by cases h⟩
  · rename_i hpc
    have hpos := hpos (by rw [hpc]; rfl)
    rw [hpos] at h
    split at h <;> cases h
    · exact ⟨by simp [Pc.isSought], hfailed⟩
    · rename_i k _
      refine ⟨by simp [Pc.isSought], fun data hdata => ?_⟩
      have hrecords : ∀ x ∈ (d.after r.offset).take k, x.Valid := fun x hx =>
        hvalid x (after_subset d _ x (mem_of_mem_take hx))
      rw [parseRecords_bytes hrecords (Nat.le_refl _)] at hdata
      obtain rfl := Except.ok.inj (Pc.done.inj hdata)
      have hnames : ∀ x ∈ entries ((d.after r.offset).take k), x.name.length ≤ 0xFFFF := by
        intro x hx
        obtain ⟨y, hy, rfl⟩ := mem_map.1 hx
        exact Nat.le_trans (hrecords y (mem_filter.1 hy).1).1 (by decide)
      obtain ⟨ps, rest, heq, hdata, -⟩ := @encodeDirentsInto_eq _ r.size hnames []
      exact ⟨ps, hdata, (heq ▸ prefix_append ps rest).trans (entries_take _ k)⟩
  · cases h

theorem step_inv (hvalid : ∀ r ∈ d.records, r.Valid) (hs : Inv d s) (halone : Alone s l)
    (h : step d s l = some s') : Inv d s' := by
  cases l with
  | call size offset =>
    cases h
    refine ⟨fun r hr => ?_, fun r hr => ?_⟩ <;> rcases mem_append.1 hr with hr | hr
    · exact hs.sought r hr
    · obtain rfl := mem_singleton.1 hr
      exact fun h => by cases h
    · exact hs.follows r hr
    · obtain rfl := mem_singleton.1 hr
      exact fun _ h => by cases h
  | go i =>
    obtain ⟨r, hr, h⟩ := Option.bind_eq_some_iff.1 h
    obtain ⟨⟨pos, pc⟩, hgo, rfl⟩ := Option.map_eq_some_iff.1 h
    have hmem := mem_of_getElem? hr
    obtain ⟨hsought, hfollows⟩ := go_follows hvalid (hs.sought r hmem) hgo
    refine ⟨fun x hx => ?_, fun x hx => ?_⟩ <;> obtain ⟨j, hj⟩ := mem_iff_getElem?.1 hx <;>
      rcases getElem?_set_cases hj with ⟨-, rfl⟩ | ⟨hne, hj⟩
    · exact hsought
    · intro hx
      rw [halone x (mem_eraseIdx_iff_getElem?.2 ⟨j, hne, hj⟩)] at hx
      cases hx
    · exact hfollows
    · exact hs.follows x (mem_of_getElem? hj)

end Step

/-- **Reads are isolated** if no two calls are between their `Seek` and their `Getdents` at a time. -/
theorem reads_isolated (d : Directory) (hvalid : ∀ r ∈ d.records, r.Valid) (ls : List Label) (s : Shared)
    (halone : Meets (step d) Alone {} ls) (h : run (step d) {} ls = some s) : ∀ r ∈ s.reads, r.Follows d :=
  (run_inv_of_meets (P := Inv d) (step_inv hvalid) ⟨by simp, by simp⟩ halone h).follows

def twoFiles : Directory := ⟨[⟨7, 1, 8, [97]⟩, ⟨9, 2, 8, [98]⟩], fun _ => none, fun left => .ok left.length⟩

theorem reads_isolated_two : ∃ s, run (step twoFiles) {} [.call 100 0, .call 100 1, .go 0, .go 0, .go 1, .go 1] = some s ∧
    ∀ r ∈ s.reads, r.Follows twoFiles :=
  ⟨_, rfl, reads_isolated twoFiles (by simp [twoFiles, Record.Valid])
    [.call 100 0, .call 100 1, .go 0, .go 0, .go 1, .go 1] _ (by decide) rfl⟩

/-- The second call seeks before the first has read: the first gets the entry after the cookie of the second. -/
theorem reads_mixed : ∃ s data, run (step twoFiles) {} [.call 100 0, .call 100 1, .go 0, .go 1, .go 0] = some s ∧
    s.reads[0]? = some ⟨100, 0, .done (.ok data)⟩ ∧ data = direntBytes (entries (twoFiles.after 1)) ∧
      (entries (twoFiles.after 0)).map (·.name) = [[97], [98]] ∧ (entries (twoFiles.after 1)).map (·.name) = [[98]] :=
  ⟨_, _, rfl, rfl, by decide, by decide, by decide⟩

end NineP.Server.RawReaddir
