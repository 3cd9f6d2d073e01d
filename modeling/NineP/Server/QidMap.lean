import NineP.Server.RawReaddir

/-!
# The QIDs of the passthrough file system

A walk takes the QID path of a file from the map of `passthrough/qid.go`, a Treaddir takes it from the directory record.
-/

namespace NineP.Server.RawReaddir

open Codec Proto List

/-- The fields of a `Stat_t` that a QID is made of. -/
structure Stat where
  dev : UInt64
  ino : UInt64
  mode : UInt32
  ctimSec : UInt64
  ctimNsec : UInt64

/-- `S_IFMT`, `S_IFDIR` and `S_IFLNK` -/
def sIFMT : UInt32 := 0xF000
def sIFDIR : UInt32 := 0x4000
def sIFLNK : UInt32 := 0xA000

def qidVersion (seconds nanoseconds : UInt64) : UInt32 := (seconds * 1000000000 + nanoseconds).toUInt32

def statToQID (st : Stat) : QID :=
  let t := if st.mode &&& sIFMT = sIFDIR then qtDir else if st.mode &&& sIFMT = sIFLNK then qtSymlink else qtFile
  ⟨t, qidVersion st.ctimSec st.ctimNsec, st.ino⟩

structure FileIdentity where
  device : UInt64
  inode : UInt64
  deriving DecidableEq

def Stat.identity (st : Stat) : FileIdentity := ⟨st.dev, st.ino⟩

structure Root where
  qidPaths : List (FileIdentity × UInt64) := []
  nextQIDPath : UInt64 := 1

/-- `qidFor`; `Lookup` gives its result to the new node, and `handleGetattr` reports the QID of the node. -/
def Root.qidFor (r : Root) (st : Stat) : QID × Root :=
  match r.qidPaths.lookup st.identity with
  | some path => ({ statToQID st with path }, r)
  | none =>
    let path := r.nextQIDPath
    ({ statToQID st with path }, ⟨(st.identity, path) :: r.qidPaths, path + 1⟩)

/-- The QIDs of files walked to one after another, and the map after them. -/
def Root.qids (r : Root) : List Stat → List QID × Root
  | [] => ([], r)
  | st :: sts =>
    let (q, r) := r.qidFor st
    let (qs, r) := r.qids sts
    (q :: qs, r)

/-- What the record of an entry says of its file: the host may leave the type unknown. -/
structure Describes (rec : Record) (st : Stat) : Prop where
  ino : rec.ino = st.ino
  type : rec.type = 0 ∨ (rec.type = dtDir ↔ st.mode &&& sIFMT = sIFDIR) ∧ (rec.type = dtLnk ↔ st.mode &&& sIFMT = sIFLNK)

section Map

variable {r : Root} {st : Stat} {sts : List Stat} {id : FileIdentity} {path : UInt64}

/-- `qidFor` finds the path of the file, or gives it a new one. -/
theorem qidFor_cases (r : Root) (st : Stat) : ∃ path, (r.qidFor st).1 = { statToQID st with path } ∧
    (r.qidFor st).2.qidPaths.lookup st.identity = some path ∧ ((r.qidFor st).2 = r ∨
      r.qidPaths.lookup st.identity = none ∧ (r.qidFor st).2 = ⟨(st.identity, r.nextQIDPath) :: r.qidPaths, r.nextQIDPath + 1⟩) := by
  unfold Root.qidFor
  cases h : r.qidPaths.lookup st.identity with
  | some path => exact ⟨path, rfl, h, .inl rfl⟩
  | none => exact ⟨r.nextQIDPath, rfl, lookup_cons_self, .inr ⟨rfl, rfl⟩⟩

theorem lookup_kept (h : r.qidPaths.lookup id = some path) : (r.qids sts).2.qidPaths.lookup id = some path := by
  induction sts generalizing r with
  | nil => exact h
  | cons st sts ih =>
    refine @ih (r.qidFor st).2 ?_
    obtain ⟨-, -, -, heq | ⟨hnone, heq⟩⟩ := qidFor_cases r st <;> rw [heq]
    · exact h
    · have hne : (id == st.identity) = false := by
        rw [beq_eq_false_iff_ne]
        rintro rfl
        cases hnone.symm.trans h
      rw [lookup_cons, hne]
      exact h

/-- The path of a walked file stays in the map. -/
theorem lookup_qids {i : Nat} {q : QID} (hst : sts[i]? = some st) (hq : (r.qids sts).1[i]? = some q) :
    (r.qids sts).2.qidPaths.lookup st.identity = some q.path ∧ q.type = (statToQID st).type := by
  induction sts generalizing r i with
  | nil => cases hst
  | cons st' sts ih =>
    cases i with
    | zero =>
      obtain rfl : st' = st := by simpa using hst
      obtain ⟨path, heq, hlookup, -⟩ := qidFor_cases r st'
      obtain rfl : (r.qidFor st').1 = q := by simpa [Root.qids] using hq
      rw [heq]
      exact ⟨@lookup_kept (r.qidFor st').2 sts _ _ hlookup, rfl⟩
    | succ i => exact @ih (r.qidFor st').2 i hst hq

/-- The counter is at most `n` and above all paths, and no path was given twice. -/
structure Root.Ok (r : Root) (n : Nat) : Prop where
  next : r.nextQIDPath.toNat ≤ n
  below : ∀ p ∈ r.qidPaths, p.2 < r.nextQIDPath
  inj : ∀ p ∈ r.qidPaths, ∀ p' ∈ r.qidPaths, p.2 = p'.2 → p = p'

theorem Root.Ok.qidFor {n : Nat} (h : r.Ok n) (hn : n + 1 < 2 ^ 64) (st : Stat) : (r.qidFor st).2.Ok (n + 1) := by
  obtain ⟨-, -, -, heq | ⟨-, heq⟩⟩ := qidFor_cases r st <;> rw [heq]
  · exact ⟨Nat.le_succ_of_le h.next, h.below, h.inj⟩
  · have hnext : (r.nextQIDPath + 1).toNat = r.nextQIDPath.toNat + 1 := by
      have := h.next
      rw [UInt64.toNat_add]
      exact Nat.mod_eq_of_lt (show r.nextQIDPath.toNat + 1 < 2 ^ 64 by omega)
    have hlt : r.nextQIDPath < r.nextQIDPath + 1 := UInt64.lt_iff_toNat_lt.2 (by omega)
    refine ⟨hnext ▸ Nat.succ_le_succ h.next, ?_, ?_⟩
    · exact forall_mem_cons.2 ⟨hlt, fun p hp => UInt64.lt_trans (h.below p hp) hlt⟩
    · intro p hp p' hp' hpath
      rcases mem_cons.1 hp with rfl | hp <;> rcases mem_cons.1 hp' with rfl | hp'
      · rfl
      · exact absurd (h.below p' hp') (hpath ▸ UInt64.lt_irrefl _)
      · exact absurd (h.below p hp) (hpath ▸ UInt64.lt_irrefl _)
      · exact h.inj p hp p' hp' hpath

theorem Root.Ok.qids {n : Nat} (h : r.Ok n) (hn : n + sts.length < 2 ^ 64) : (r.qids sts).2.Ok (n + sts.length) := by
  induction sts generalizing r n with
  | nil => exact h
  | cons st sts ih =>
    rw [length_cons] at hn ⊢
    rw [Nat.add_comm sts.length, ← Nat.add_assoc] at hn ⊢
    exact ih (h.qidFor (by omega) st) hn

theorem mem_of_lookup (h : r.qidPaths.lookup id = some path) : (id, path) ∈ r.qidPaths := by
  obtain ⟨l, l', heq, -⟩ := lookup_eq_some_iff.1 h
  rw [heq]
  exact mem_append_right _ mem_cons_self

end Map

def firstDir : Stat := ⟨1, 7, 0x41ED, 0, 0⟩

end NineP.Server.RawReaddir
