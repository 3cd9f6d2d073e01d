import NineP.Server.ReplySize

/-!
# Directory entries on the wire

`EncodeDirentsInto` and `ParseDirents` of `proto/dirent.go`.
-/

namespace NineP.Server.Replies

open Codec Proto List

deriving instance DecidableEq for Dirent

/-! ## Packing -/

/-- The packed form of a run of entries. -/
def direntBytes (ds : List Dirent) : Bytes := ds.flatMap Dirent.bytes

theorem direntBytes_eq_nil : direntBytes ds = [] ↔ ds = [] := by
  cases ds with
  | nil => simp [direntBytes]
  | cons d ds =>
    have hlen : 0 < (direntBytes (d :: ds)).length := by
      rw [direntBytes, flatMap_cons, length_append, d.length_bytes]
      omega
    simp [ne_nil_of_length_pos hlen]

theorem encodeDirentsInto_eq (hnames : ∀ d ∈ ds, d.name.length ≤ 0xFFFF) (out : Bytes) :
    ∃ ps rest, ds = ps ++ rest ∧ encodeDirentsInto size ds out = out ++ direntBytes ps ∧
      ∀ d ∈ rest.head?, size < (out ++ direntBytes ps).length + (24 + d.name.length) := by
  induction ds generalizing out with
  | nil => exact ⟨[], [], rfl, by simp [encodeDirentsInto, direntBytes], by simp⟩
  | cons d ds ih =>
    obtain ⟨hd, hds⟩ := forall_mem_cons.1 hnames
    unfold encodeDirentsInto
    rw [if_neg (Nat.not_lt.2 hd)]
    split
    · rename_i hfull
      refine ⟨[], d :: ds, rfl, by simp [direntBytes], ?_⟩
      simpa [direntBytes, Nat.add_assoc] using hfull
    · obtain ⟨ps, rest, rfl, heq, hnext⟩ := ih hds (out ++ d.bytes)
      have happ : out ++ d.bytes ++ direntBytes ps = out ++ direntBytes (d :: ps) := by
        rw [direntBytes, direntBytes, flatMap_cons, append_assoc]
      exact ⟨d :: ps, rest, rfl, by rw [heq, happ], by rwa [happ] at hnext⟩

theorem encodeDirentsInto_eq_nil (hnames : ∀ d ∈ ds, d.name.length ≤ 0xFFFF) :
    encodeDirentsInto size ds [] = [] ↔ ∀ d ∈ ds.head?, size < 24 + d.name.length := by
  cases ds with
  | nil => simp [encodeDirentsInto]
  | cons d ds =>
    obtain ⟨hd, hds⟩ := forall_mem_cons.1 hnames
    unfold encodeDirentsInto
    rw [if_neg (Nat.not_lt.2 hd)]
    split
    · rename_i hfull
      simpa using hfull
    · rename_i hfits
      obtain ⟨ps, rest, -, heq, -⟩ := encodeDirentsInto_eq hds ([] ++ d.bytes)
      have hlen := d.length_bytes
      constructor
      · intro hnil
        rw [heq, append_eq_nil_iff, nil_append] at hnil
        rw [hnil.1, length_nil] at hlen
        omega
      · intro hfull
        exact absurd (hfull d rfl) (by simpa using hfits)

/-! ## Parsing -/

def parseDirent (data : Bytes) : Except String (Dirent × Bytes) :=
  if data.length < 24 then .error s!"truncated dirent header ({data.length} bytes left, need 24)"
  else
    let nameLen := leAt 22 2 data
    let rest := data.drop 24
    if nameLen > rest.length then .error s!"dirent name len {nameLen} exceeds remaining {rest.length} bytes"
    else
      .ok (
        { qid :=
            { type := UInt8.ofNat (leAt 0 1 data), version := UInt32.ofNat (leAt 1 4 data),
              path := UInt64.ofNat (leAt 5 8 data) }
          offset := UInt64.ofNat (leAt 13 8 data)
          type := UInt8.ofNat (leAt 21 1 data)
          name := rest.take nameLen }, rest.drop nameLen)

/-- The loop of `ParseDirents`: every entry takes a byte or more. -/
def parseDirentsFrom : Nat → Bytes → List Dirent → List Dirent × Option String
  | 0, _, out => (out, none)
  | fuel + 1, data, out =>
    if data = [] then (out, none)
    else
      match parseDirent data with
      | .error e => (out, some e)
      | .ok (d, rest) => parseDirentsFrom fuel rest (out ++ [d])

/-- `ParseDirents`: the entries, and the error that ended the parsing. -/
def parseDirents (data : Bytes) : List Dirent × Option String := parseDirentsFrom data.length data []

theorem parseDirent_bytes {d : Dirent} (hname : d.name.length ≤ 0xFFFF) (rest : Bytes) :
    parseDirent (d.bytes ++ rest) = .ok (d, rest) := by
  have hbytes : d.bytes ++ rest = leBytes 1 d.qid.type.toNat ++ (leBytes 4 d.qid.version.toNat ++
      (leBytes 8 d.qid.path.toNat ++ (leBytes 8 d.offset.toNat ++ (leBytes 1 d.type.toNat ++
        (leBytes 2 d.name.length ++ (d.name ++ rest)))))) := by
    simp [Dirent.bytes, QID.bytes, show leBytes 1 d.type.toNat = [d.type] by simp [leBytes]]
  have hqtype : leAt 0 1 (d.bytes ++ rest) = d.qid.type.toNat := by
    rw [hbytes, ← nil_append (leBytes 1 d.qid.type.toNat ++ _)]
    exact leAt_leBytes rfl d.qid.type.toNat_lt
  have hversion : leAt 1 4 (d.bytes ++ rest) = d.qid.version.toNat := by
    rw [hbytes]
    exact leAt_leBytes rfl d.qid.version.toNat_lt
  have hpath : leAt 5 8 (d.bytes ++ rest) = d.qid.path.toNat := by
    rw [hbytes, ← append_assoc]
    exact leAt_leBytes rfl d.qid.path.toNat_lt
  have hoffset : leAt 13 8 (d.bytes ++ rest) = d.offset.toNat := by
    rw [hbytes, ← append_assoc, ← append_assoc]
    exact leAt_leBytes rfl d.offset.toNat_lt
  have htype : leAt 21 1 (d.bytes ++ rest) = d.type.toNat := by
    rw [hbytes, ← append_assoc, ← append_assoc, ← append_assoc]
    exact leAt_leBytes rfl d.type.toNat_lt
  have hnameLen : leAt 22 2 (d.bytes ++ rest) = d.name.length := by
    rw [hbytes, ← append_assoc, ← append_assoc, ← append_assoc, ← append_assoc]
    exact leAt_leBytes rfl (Nat.lt_succ_of_le hname)
  have hdrop : (d.bytes ++ rest).drop 24 = d.name ++ rest := by
    rw [Dirent.bytes, append_assoc]
    exact drop_left' (by simp [QID.bytes])
  have hlen : ¬(d.bytes ++ rest).length < 24 := by
    rw [length_append, d.length_bytes]
    omega
  have hfits : ¬d.name.length > (d.name ++ rest).length := by
    rw [length_append]
    omega
  unfold parseDirent
  rw [if_neg hlen]
  simp only [hqtype, hversion, hpath, hoffset, htype, hnameLen, hdrop]
  rw [if_neg hfits, take_left, drop_left]
  simp

theorem parseDirentsFrom_bytes (hnames : ∀ d ∈ ds, d.name.length ≤ 0xFFFF)
    (hfuel : (direntBytes ds).length ≤ fuel) (out : List Dirent) :
    parseDirentsFrom fuel (direntBytes ds) out = (out ++ ds, none) := by
  induction ds generalizing fuel out with
  | nil =>
    rw [append_nil]
    cases fuel with
    | zero | succ fuel => rfl
  | cons d ds ih =>
    obtain ⟨hd, hds⟩ := forall_mem_cons.1 hnames
    have happ : direntBytes (d :: ds) = d.bytes ++ direntBytes ds := flatMap_cons
    rw [happ, length_append, d.length_bytes] at hfuel
    obtain ⟨fuel, rfl⟩ : ∃ f, fuel = f + 1 := ⟨fuel - 1, by omega⟩
    have hne : d.bytes ++ direntBytes ds ≠ [] := by
      rw [← happ, ne_eq, direntBytes_eq_nil]
      exact cons_ne_nil d ds
    rw [happ, parseDirentsFrom, if_neg hne, parseDirent_bytes hd]
    simp only
    rw [ih hds (by omega), append_assoc]
    rfl

/-- **`ParseDirents` reads back what was packed.** -/
theorem parseDirents_bytes (hnames : ∀ d ∈ ds, d.name.length ≤ 0xFFFF) :
    parseDirents (direntBytes ds) = (ds, none) :=
  parseDirentsFrom_bytes hnames (Nat.le_refl _) []

end NineP.Server.Replies
