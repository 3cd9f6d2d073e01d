import NineP.Lib.Slice
import NineP.Server.Dirents

/-!
# The codec of directory entries

`EncodeDirentsInto` of `proto/dirent.go` with the buffer that it writes into, against `ParseDirents`.
-/

namespace NineP.Proto.Dirents

open Codec Slices List
open Server.Replies (Dirent direntBytes parseDirent parseDirentsFrom parseDirents parseDirents_bytes)

/-! ## Packing into a buffer -/

/-- The loop of `EncodeDirentsInto`: the buffer, how far it is written, and the entries in it. -/
structure Packing where
  dst : Bytes
  off : Nat
  count : Nat
  deriving DecidableEq

/-- A field is written at `off`, which moves behind it. -/
def Packing.put (p : Packing) (field : Bytes) : Packing :=
  { p with dst := splice p.dst field p.off, off := p.off + field.length }

/-- `QIDSize + 8 + 1 + 2 + len(d.Name)` -/
def entrySize (d : Dirent) : Nat := 13 + 8 + 1 + 2 + d.name.length

def Packing.entry (p : Packing) (d : Dirent) : Packing :=
  let q := ((p.put (leBytes 1 d.qid.type.toNat)).put (leBytes 4 d.qid.version.toNat)).put (leBytes 8 d.qid.path.toNat)
  let t := (q.put (leBytes 8 d.offset.toNat)).put [d.type]
  let n := (t.put (leBytes 2 d.name.length)).put d.name
  { n with count := n.count + 1 }

def Packing.loop : Packing → List Dirent → Packing
  | p, [] => p
  | p, d :: ds =>
    if d.name.length > 0xFFFF then p.loop ds
    else if p.off + entrySize d > p.dst.length then p
    else (p.entry d).loop ds

/-- `EncodeDirentsInto`: the buffer afterwards, the bytes written and the entries that fit. -/
def encodeDirentsInto (dst : Bytes) (dirents : List Dirent) : Bytes × Nat × Nat :=
  let p := Packing.loop ⟨dst, 0, 0⟩ dirents
  (p.dst, p.off, p.count)

/-- The entries whose name fits its length field. -/
def packable (ds : List Dirent) : List Dirent := ds.filter fun d => d.name.length ≤ 0xFFFF

/-- `ps` is the longest run of entries from the front of `ds` that fits into `size` bytes. -/
structure Longest (size : Nat) (ds ps : List Dirent) : Prop where
  front : ps <+: ds
  fits : (direntBytes ps).length ≤ size
  longest : ∀ ps', ps' <+: ds → (direntBytes ps').length ≤ size → ps' <+: ps

variable {p : Packing} {d : Dirent}

theorem direntBytes_append (ds es : List Dirent) : direntBytes (ds ++ es) = direntBytes ds ++ direntBytes es :=
  flatMap_append

theorem direntBytes_cons (d : Dirent) (ds : List Dirent) : direntBytes (d :: ds) = d.bytes ++ direntBytes ds :=
  flatMap_cons

theorem length_bytes_eq_entrySize (d : Dirent) : d.bytes.length = entrySize d := d.length_bytes

theorem Packing.put_put {xs : Bytes} (h : p.off + xs.length ≤ p.dst.length) : (p.put xs).put ys = p.put (xs ++ ys) := by
  unfold Packing.put
  simp only
  rw [splice_splice h, length_append, Nat.add_assoc]

theorem Packing.entry_eq (h : p.off + entrySize d ≤ p.dst.length) :
    p.entry d = ⟨splice p.dst d.bytes p.off, p.off + d.bytes.length, p.count + 1⟩ := by
  have hput : ((((((p.put (leBytes 1 d.qid.type.toNat)).put (leBytes 4 d.qid.version.toNat)).put
      (leBytes 8 d.qid.path.toNat)).put (leBytes 8 d.offset.toNat)).put [d.type]).put
        (leBytes 2 d.name.length)).put d.name = p.put d.bytes := by
    unfold entrySize at h
    iterate 6
      rw [Packing.put_put (p := p) (by simp only [length_append, length_leBytes, length_singleton]; omega)]
    simp only [Dirent.bytes, QID.bytes, append_assoc]
  unfold Packing.entry
  simp only
  rw [hput]
  rfl

theorem Packing.loop_eq (ds : List Dirent) (p : Packing) (h : p.off ≤ p.dst.length) :
    ∃ ps rest, packable ds = ps ++ rest ∧
      p.loop ds = ⟨splice p.dst (direntBytes ps) p.off, p.off + (direntBytes ps).length, p.count + ps.length⟩ ∧
      p.off + (direntBytes ps).length ≤ p.dst.length ∧
      ∀ d ∈ rest.head?, p.dst.length < p.off + (direntBytes ps).length + d.bytes.length := by
  have hnone (p : Packing) : p = ⟨splice p.dst (direntBytes []) p.off, p.off + (direntBytes []).length, p.count⟩ := by
    simp [direntBytes, splice]
  induction ds generalizing p with
  | nil => exact ⟨[], [], rfl, hnone p, h, by simp⟩
  | cons d ds ih =>
    unfold Packing.loop
    by_cases hlong : d.name.length > 0xFFFF
    · -- the entry is skipped
      rw [if_pos hlong]
      have hskip : packable (d :: ds) = packable ds := filter_cons_of_neg (by simpa using hlong)
      rw [hskip]
      exact ih p h
    · rw [if_neg hlong]
      have hkeep : packable (d :: ds) = d :: packable ds := filter_cons_of_pos (by simpa using hlong)
      by_cases hfull : p.off + entrySize d > p.dst.length
      · rw [if_pos hfull]
        refine ⟨[], d :: packable ds, hkeep, hnone p, h, ?_⟩
        simpa [direntBytes, length_bytes_eq_entrySize] using hfull
      · rw [if_neg hfull, Packing.entry_eq (Nat.not_lt.1 hfull)]
        have hroom : p.off + d.bytes.length ≤ p.dst.length := by
          rw [length_bytes_eq_entrySize]
          exact Nat.not_lt.1 hfull
        have hsize : (splice p.dst d.bytes p.off).length = p.dst.length := length_splice hroom
        obtain ⟨ps, rest, hrest, hloop, hfits, hnext⟩ :=
          ih ⟨splice p.dst d.bytes p.off, p.off + d.bytes.length, p.count + 1⟩ (hsize.symm ▸ hroom)
        simp only [hsize, Nat.add_assoc] at hfits hnext
        have hlen : (direntBytes (d :: ps)).length = d.bytes.length + (direntBytes ps).length := by
          rw [direntBytes_cons, length_append]
        refine ⟨d :: ps, rest, by rw [hkeep, hrest, cons_append], ?_, by rwa [hlen], ?_⟩
        · rw [hloop, hlen, direntBytes_cons, length_cons]
          simp only
          rw [splice_splice hroom, Nat.add_assoc, Nat.add_assoc, Nat.add_comm 1]
        · rw [hlen]
          simpa only [Nat.add_assoc] using hnext

theorem Longest.of_next (hfits : (direntBytes ps).length ≤ size) {more : List Dirent}
    (hnext : ∀ d ∈ more.head?, size < (direntBytes ps).length + d.bytes.length) : Longest size (ps ++ more) ps := by
  refine ⟨prefix_append ps more, hfits, fun ps' hfront hsize => ?_⟩
  rcases prefix_or_prefix_of_prefix hfront (prefix_append ps more) with hle | ⟨es, rfl⟩
  · exact hle
  · -- a longer run begins with the entry that does not fit
    cases es with
    | nil => exact (append_nil ps).symm ▸ prefix_refl ps
    | cons e es =>
      obtain ⟨es', hes⟩ := prefix_append_right_inj ps |>.1 hfront
      have hlt := hnext e (by rw [← hes]; rfl)
      rw [direntBytes_append, direntBytes_cons, length_append, length_append] at hsize
      omega

/-- **What is packed.** -/
theorem encodeDirentsInto_packs (dst : Bytes) (ds : List Dirent) :
    ∃ ps, Longest dst.length (packable ds) ps ∧
      encodeDirentsInto dst ds =
        (direntBytes ps ++ dst.drop (direntBytes ps).length, (direntBytes ps).length, ps.length) := by
  obtain ⟨ps, rest, hrest, hloop, hfits, hnext⟩ := Packing.loop_eq ds ⟨dst, 0, 0⟩ (Nat.zero_le _)
  simp only [Nat.zero_add] at hloop hfits hnext
  refine ⟨ps, hrest ▸ Longest.of_next hfits hnext, ?_⟩
  unfold encodeDirentsInto
  simp only [hloop, splice, take_zero, nil_append, Nat.zero_add]

/-! ## What the parser accepts -/

theorem parseDirent_sound (h : parseDirent data = .ok (d, rest)) : data = d.bytes ++ rest ∧ d.name.length ≤ 0xFFFF := by
  unfold parseDirent at h
  split at h
  · exact nomatch h
  · rename_i hhead
    simp only at h
    split at h
    · exact nomatch h
    · rename_i hname
      cases h
      have htype : (UInt8.ofNat (leAt 21 1 data)).toNat = leAt 21 1 data :=
        UInt8.toNat_ofNat_of_lt' (leAt_lt 21 1 data)
      have hqtype : (UInt8.ofNat (leAt 0 1 data)).toNat = leAt 0 1 data := UInt8.toNat_ofNat_of_lt' (leAt_lt 0 1 data)
      have hversion : (UInt32.ofNat (leAt 1 4 data)).toNat = leAt 1 4 data :=
        UInt32.toNat_ofNat_of_lt' (leAt_lt 1 4 data)
      have hpath : (UInt64.ofNat (leAt 5 8 data)).toNat = leAt 5 8 data := UInt64.toNat_ofNat_of_lt' (leAt_lt 5 8 data)
      have hoffset : (UInt64.ofNat (leAt 13 8 data)).toNat = leAt 13 8 data :=
        UInt64.toNat_ofNat_of_lt' (leAt_lt 13 8 data)
      have hlen : ((data.drop 24).take (leAt 22 2 data)).length = leAt 22 2 data := by
        rw [length_take]
        exact Nat.min_eq_left (Nat.not_lt.1 hname)
      have hone : [UInt8.ofNat (leAt 21 1 data)] = leBytes 1 (leAt 21 1 data) := rfl
      refine ⟨?_, hlen.symm ▸ Nat.lt_succ_iff.1 (leAt_lt 22 2 data)⟩
      simp only [Dirent.bytes, QID.bytes, hqtype, hversion, hpath, hoffset, hlen, hone, append_assoc]
      rw [take_append_drop, leBytes_append_drop (by omega), leBytes_append_drop (by omega),
        leBytes_append_drop (by omega), leBytes_append_drop (by omega), leBytes_append_drop (by omega),
        leBytes_append_drop (by omega)]
      rfl

theorem parseDirentsFrom_sound (hfuel : data.length ≤ fuel)
    (h : parseDirentsFrom fuel data out = (ds, none)) :
    ∃ ps, ds = out ++ ps ∧ data = direntBytes ps ∧ packable ps = ps := by
  induction fuel generalizing data out with
  | zero =>
    obtain rfl := eq_nil_of_length_eq_zero (Nat.le_zero.1 hfuel)
    cases h
    exact ⟨[], (append_nil _).symm, rfl, rfl⟩
  | succ fuel ih =>
    unfold parseDirentsFrom at h
    split at h
    · rename_i hnil
      cases h
      exact ⟨[], (append_nil _).symm, hnil, rfl⟩
    · split at h
      · exact nomatch h
      · rename_i d rest hparse
        obtain ⟨rfl, hname⟩ := parseDirent_sound hparse
        rw [length_append, d.length_bytes] at hfuel
        obtain ⟨ps, rfl, rfl, hps⟩ := ih (by omega) h
        refine ⟨d :: ps, append_assoc out [d] ps, (direntBytes_cons d ps).symm, ?_⟩
        have hkeep : packable (d :: ps) = d :: packable ps := filter_cons_of_pos (by simpa using hname)
        rw [hkeep, hps]

/-- **What is accepted is the packed form of what is returned.** -/
theorem parseDirents_sound (h : parseDirents data = (ds, none)) : data = direntBytes ds ∧ packable ds = ds := by
  obtain ⟨ps, hds, hdata, hps⟩ := parseDirentsFrom_sound (Nat.le_refl _) h
  obtain rfl : ds = ps := by simpa using hds
  exact ⟨hdata, hps⟩

/-- **The codec of directory entries.**  Every list is packed into every buffer as the longest run of its packable
entries that fits; the parser returns that run; and what the parser accepts is written again, byte for byte, into a
buffer of its length. -/
theorem packed_round_trip :
    (∀ (dst : Bytes) (ds : List Dirent), ∃ ps, Longest dst.length (packable ds) ps ∧
      encodeDirentsInto dst ds =
        (direntBytes ps ++ dst.drop (direntBytes ps).length, (direntBytes ps).length, ps.length) ∧
      parseDirents ((encodeDirentsInto dst ds).1.take (encodeDirentsInto dst ds).2.1) = (ps, none)) ∧
    ∀ (data : Bytes) (ds : List Dirent), parseDirents data = (ds, none) → ∀ dst : Bytes, dst.length = data.length →
      encodeDirentsInto dst ds = (data, data.length, ds.length) := by
  constructor
  · intro dst ds
    obtain ⟨ps, hlongest, heq⟩ := encodeDirentsInto_packs dst ds
    refine ⟨ps, hlongest, heq, ?_⟩
    have hnames : ∀ d ∈ ps, d.name.length ≤ 0xFFFF := fun d hd =>
      of_decide_eq_true (mem_filter.1 (hlongest.front.subset hd)).2
    rw [heq]
    simp only [take_left]
    exact parseDirents_bytes hnames
  · intro data ds hparse dst hlen
    obtain ⟨rfl, hall⟩ := parseDirents_sound hparse
    obtain ⟨ps, hlongest, heq⟩ := encodeDirentsInto_packs dst ds
    rw [hall] at hlongest
    -- the whole list fits
    have hwhole : ps = ds :=
      hlongest.front.eq_of_length_le (hlongest.longest ds (prefix_refl ds) (Nat.le_of_eq hlen.symm)).length_le
    subst hwhole
    rw [heq, ← hlen, drop_length, append_nil]

/-- Two entries, and room for one and a half. -/
theorem packed_round_trip_one :
    encodeDirentsInto (List.replicate 25 0) [⟨⟨0x80, 1, 7⟩, 1, 4, [97]⟩] =
      (direntBytes [⟨⟨0x80, 1, 7⟩, 1, 4, [97]⟩], 25, 1) :=
  packed_round_trip.2 (direntBytes [⟨⟨0x80, 1, 7⟩, 1, 4, [97]⟩]) _ (by decide) _ (by decide)

end NineP.Proto.Dirents
