import NineP.Server.DataPath

/-!
# The end of a directory

When does an empty `Rreaddir` mean that there are no more entries?  For `readdirSimple`, and for `RawReaddir` of the
passthrough file system with the `getdents` records of a Linux host.
-/

namespace NineP.Server.RawReaddir

open Codec Proto DataPath List
open Replies (Dirent Filled clampCount fillPooled direntBytes direntBytes_eq_nil encodeDirentsInto encodeDirentsInto_eq
  encodeDirentsInto_eq_nil)

/-! ## The records of the host -/

/-- A `linux_dirent64`. -/
structure Record where
  ino : UInt64
  off : UInt64
  type : UInt8
  name : Bytes
  deriving DecidableEq

namespace Record

/-- The length of the record: header, name and NUL, up to the next multiple of 8. -/
def reclen (r : Record) : Nat := (19 + r.name.length + 1 + 7) / 8 * 8

def bytes (r : Record) : Bytes :=
  leBytes 8 r.ino.toNat ++ (leBytes 8 r.off.toNat ++ (leBytes 2 r.reclen ++ (leBytes 1 r.type.toNat ++
    (r.name ++ List.replicate (r.reclen - 19 - r.name.length) 0))))

/-- A file name of the host. -/
def Valid (r : Record) : Prop := r.name.length ≤ 255 ∧ 0 ∉ r.name

end Record

/-- "." -/
def dot : Bytes := [46]

/-- ".." -/
def dotDot : Bytes := [46, 46]

def isDots (name : Bytes) : Bool := name = dot || name = dotDot

def dtDir : UInt8 := 4

def dtLnk : UInt8 := 10

def qtSymlink : QIDType := 0x02

def qtFile : QIDType := 0x00

def dtypeToQIDType (dtype : UInt8) : QIDType :=
  if dtype = dtDir then qtDir else if dtype = dtLnk then qtSymlink else qtFile

def Record.dirent (r : Record) : Dirent := ⟨⟨dtypeToQIDType r.type, 0, r.ino⟩, r.off, r.type, r.name⟩

def parseRecords : Nat → Bytes → List Dirent
  | 0, _ => []
  | fuel + 1, buf =>
    if buf.length < 19 then []
    else
      let reclen := leAt 16 2 buf
      if reclen > buf.length ∨ reclen < 19 then []
      else
        let name := ((buf.take reclen).drop 19).takeWhile (· ≠ 0)
        let rest := parseRecords fuel (buf.drop reclen)
        if isDots name then rest
        else
          (Record.mk (UInt64.ofNat (leAt 0 8 buf)) (UInt64.ofNat (leAt 8 8 buf)) (UInt8.ofNat (leAt 18 1 buf)) name).dirent
            :: rest

/-- What the host does for an open directory. -/
structure Host where
  /-- `Seek`: the records after the one with the cookie, or all for 0. -/
  seek : UInt64 → Except Errno (List Record)
  /-- `Getdents` with these records left. -/
  getdents : List Record → Except Errno Bytes

def rawReaddir (host : Host) (size : Nat) (offset : UInt64) : Except Errno Bytes := do
  if offset.toNat > 2 ^ 63 - 1 then throw EINVAL
  let records ← host.seek offset
  let raw ← host.getdents records
  pure (encodeDirentsInto size (parseRecords raw.length raw) [])

/-! ## Parsing -/

/-- The record with these bytes after the NUL of its name. -/
def Record.laidOut (r : Record) (padding : Bytes) : Bytes :=
  leBytes 8 r.ino.toNat ++ (leBytes 8 r.off.toNat ++ (leBytes 2 (20 + r.name.length + padding.length) ++
    (leBytes 1 r.type.toNat ++ (r.name ++ 0 :: padding))))

/-- The bytes are a record: they are at least a header, and as many as it says. -/
def IsRecord (b : Bytes) : Prop := 19 ≤ b.length ∧ leAt 16 2 b = b.length

/-- What `parseDirents` reads from the bytes of a record. -/
def readRecord (b : Bytes) : Record :=
  ⟨UInt64.ofNat (leAt 0 8 b), UInt64.ofNat (leAt 8 8 b), UInt8.ofNat (leAt 18 1 b), (b.drop 19).takeWhile (· ≠ 0)⟩

def entries (rs : List Record) : List Dirent := (rs.filter fun r => !isDots r.name).map Record.dirent

section Parsing

variable {r : Record} {b rest buf : Bytes} {bs : List Bytes} {fuel : Nat}

theorem Record.length_laidOut (r : Record) (padding : Bytes) :
    (r.laidOut padding).length = 20 + r.name.length + padding.length := by
  simp only [laidOut, length_append, length_leBytes, length_cons]
  omega

theorem takeWhile_name {name : Bytes} (h : 0 ∉ name) : (name ++ 0 :: rest).takeWhile (· ≠ 0) = name := by
  rw [takeWhile_append_of_pos]
  · simp
  · intro x hx
    simp only [ne_eq, decide_not, Bool.not_eq_eq_eq_not, Bool.not_true, decide_eq_false_iff_not]
    rintro rfl
    exact h hx

theorem laidOut_record {padding : Bytes} (hname : 0 ∉ r.name) (hlen : 20 + r.name.length + padding.length < 2 ^ 16) :
    IsRecord (r.laidOut padding) ∧ readRecord (r.laidOut padding) = r := by
  have hino : leAt 0 8 (r.laidOut padding) = r.ino.toNat := by
    rw [Record.laidOut, ← nil_append (leBytes 8 r.ino.toNat ++ _)]
    exact leAt_leBytes rfl r.ino.toNat_lt
  have hoff : leAt 8 8 (r.laidOut padding) = r.off.toNat := leAt_leBytes rfl r.off.toNat_lt
  have hreclen : leAt 16 2 (r.laidOut padding) = 20 + r.name.length + padding.length := by
    rw [Record.laidOut, ← append_assoc]
    exact leAt_leBytes rfl hlen
  have htype : leAt 18 1 (r.laidOut padding) = r.type.toNat := by
    rw [Record.laidOut, ← append_assoc, ← append_assoc]
    exact leAt_leBytes rfl r.type.toNat_lt
  have hnameBytes : ((r.laidOut padding).drop 19).takeWhile (· ≠ 0) = r.name := by
    rw [Record.laidOut, ← append_assoc, ← append_assoc, ← append_assoc, drop_left' (by simp), takeWhile_name hname]
  refine ⟨⟨by rw [r.length_laidOut]; omega, by rw [hreclen, r.length_laidOut]⟩, ?_⟩
  rw [readRecord, hino, hoff, htype, hnameBytes]
  simp

theorem leAt_append (rest : Bytes) (h : i + k ≤ b.length) : leAt i k (b ++ rest) = leAt i k b := by
  rw [leAt, leAt, drop_append_of_le_length (by omega), take_append_of_le_length (by rw [length_drop]; omega)]

theorem entries_cons (r : Record) (rs : List Record) : entries (r :: rs) = entries [r] ++ entries rs := by
  cases h : isDots r.name <;> simp [entries, h]

theorem parseRecords_cons (hb : IsRecord b) :
    parseRecords (fuel + 1) (b ++ rest) = entries [readRecord b] ++ parseRecords fuel rest := by
  obtain ⟨hlen, hreclen⟩ := hb
  have hword : leAt 16 2 (b ++ rest) = b.length := (leAt_append _ (by omega)).trans hreclen
  rw [parseRecords, if_neg (by rw [length_append]; omega)]
  simp only [hword, take_left, drop_left]
  rw [if_neg (by rw [length_append]; omega), leAt_append _ (by omega), leAt_append _ (by omega), leAt_append _ (by omega)]
  rw [readRecord]
  generalize (b.drop 19).takeWhile (· ≠ 0) = name
  cases hdots : isDots name <;> simp [entries, hdots]

theorem parseRecords_stop (h : ∀ b rest, buf = b ++ rest → ¬IsRecord b) : parseRecords fuel buf = [] := by
  cases fuel with
  | zero => rfl
  | succ fuel =>
    rw [parseRecords]
    split
    · rfl
    · simp only
      split
      · rfl
      · rename_i hlen hreclen
        have htake : (buf.take (leAt 16 2 buf)).length = leAt 16 2 buf := by
          rw [length_take]
          omega
        have hword : leAt 16 2 (buf.take (leAt 16 2 buf)) = leAt 16 2 buf := by
          rw [← leAt_append (buf.drop (leAt 16 2 buf)) (by omega), take_append_drop]
        exact absurd ⟨by omega, hword.trans htake.symm⟩ (h _ _ (take_append_drop (leAt 16 2 buf) buf).symm)

theorem parseRecords_all (hbs : ∀ b ∈ bs, IsRecord b) (hrest : ∀ b tail, rest = b ++ tail → ¬IsRecord b)
    (hfuel : (bs.flatten ++ rest).length ≤ fuel) :
    parseRecords fuel (bs.flatten ++ rest) = entries (bs.map readRecord) := by
  induction bs generalizing fuel with
  | nil => exact parseRecords_stop hrest
  | cons b bs ih =>
    obtain ⟨hb, hbs⟩ := forall_mem_cons.1 hbs
    have hpos := hb.1
    rw [flatten_cons, append_assoc] at hfuel ⊢
    rw [length_append] at hfuel
    obtain ⟨fuel, rfl⟩ : ∃ n, fuel = n + 1 := ⟨fuel - 1, by omega⟩
    rw [parseRecords_cons hb, ih hbs (by omega), map_cons, entries_cons (readRecord b) (bs.map _)]

theorem not_isRecord_nil (b tail : Bytes) (h : [] = b ++ tail) : ¬IsRecord b := by
  obtain ⟨rfl, -⟩ := append_eq_nil_iff.1 h.symm
  exact fun hb => absurd hb.1 (by simp)

theorem exists_records (buf : Bytes) : ∃ (bs : List Bytes) (rest : Bytes), buf = bs.flatten ++ rest ∧ (∀ b ∈ bs, IsRecord b) ∧
    ∀ b tail, rest = b ++ tail → ¬IsRecord b := by
  induction hn : buf.length using Nat.strongRecOn generalizing buf with
  | ind n ih =>
    by_cases h : ∃ b tail, buf = b ++ tail ∧ IsRecord b
    · obtain ⟨b, tail, rfl, hb⟩ := h
      have hpos := hb.1
      obtain ⟨bs, rest, rfl, hbs, hrest⟩ := ih tail.length (by rw [← hn, length_append]; omega) tail rfl
      exact ⟨b :: bs, rest, by simp, forall_mem_cons.2 ⟨hb, hbs⟩, hrest⟩
    · exact ⟨[], buf, rfl, by simp, fun b tail heq hb => h ⟨b, tail, heq, hb⟩⟩

theorem IsRecord.append_inj (hb : IsRecord b) (hb' : IsRecord b') (h : b ++ rest = b' ++ rest') :
    b = b' ∧ rest = rest' := by
  refine List.append_inj h ?_
  rw [← hb.2, ← hb'.2, ← leAt_append rest (by have := hb.1; omega), h,
    leAt_append _ (by have := hb'.1; omega)]

theorem records_longest {bs' : List Bytes} {rest' : Bytes} (hbs : ∀ b ∈ bs, IsRecord b)
    (hrest : ∀ b tail, rest = b ++ tail → ¬IsRecord b) (hbs' : ∀ b ∈ bs', IsRecord b)
    (h : bs.flatten ++ rest = bs'.flatten ++ rest') : bs' <+: bs := by
  induction bs' generalizing bs with
  | nil => exact List.nil_prefix
  | cons b' bs' ih =>
    obtain ⟨hb', htail⟩ := forall_mem_cons.1 hbs'
    rw [flatten_cons, append_assoc] at h
    cases bs with
    | nil => exact absurd hb' (hrest _ _ h)
    | cons b bs =>
      obtain ⟨hb, hbs⟩ := forall_mem_cons.1 hbs
      rw [flatten_cons, append_assoc] at h
      obtain ⟨rfl, hflat⟩ := hb.append_inj hb' h
      exact (prefix_cons_inj b).2 (ih hbs htail hflat)

theorem parseRecords_laidOut {rs : List (Record × Bytes)}
    (hrs : ∀ r ∈ rs, 0 ∉ r.1.name ∧ 20 + r.1.name.length + r.2.length < 2 ^ 16)
    (hfuel : (rs.flatMap fun r => r.1.laidOut r.2).length ≤ fuel) :
    parseRecords fuel (rs.flatMap fun r => r.1.laidOut r.2) = entries (rs.map (·.1)) := by
  have hbs : ∀ b ∈ rs.map (fun r => r.1.laidOut r.2), IsRecord b :=
    forall_mem_map.2 fun r hr => (laidOut_record (hrs r hr).1 (hrs r hr).2).1
  have hread : (rs.map fun r => r.1.laidOut r.2).map readRecord = rs.map (·.1) := by
    rw [map_map]
    exact map_congr_left fun r hr => (laidOut_record (hrs r hr).1 (hrs r hr).2).2
  rw [flatMap_def, ← append_nil (flatten _)] at hfuel ⊢
  rw [parseRecords_all hbs not_isRecord_nil hfuel, hread]

/-- **`parseDirents` on a run of records.** -/
theorem parseRecords_bytes {rs : List Record} (hrs : ∀ r ∈ rs, r.Valid)
    (hfuel : (rs.flatMap Record.bytes).length ≤ fuel) : parseRecords fuel (rs.flatMap Record.bytes) = entries rs := by
  have hbytes (r : Record) : r.bytes = r.laidOut (List.replicate (r.reclen - 20 - r.name.length) 0) := by
    have hreclen : 20 + r.name.length ≤ r.reclen := by
      unfold Record.reclen
      omega
    obtain ⟨pad, hpad⟩ := Nat.exists_eq_add_of_le hreclen
    simp [Record.bytes, Record.laidOut, hpad, show 20 + r.name.length + pad - 19 - r.name.length = pad + 1 by omega,
      replicate_succ, show 20 + r.name.length + pad - 20 - r.name.length = pad by omega]
  let padded (r : Record) := (r, List.replicate (r.reclen - 20 - r.name.length) (0 : UInt8))
  have hflat : rs.flatMap Record.bytes = (rs.map padded).flatMap fun r => r.1.laidOut r.2 := by
    rw [flatMap_map]
    exact congrArg (rs.flatMap ·) (funext hbytes)
  rw [hflat] at hfuel ⊢
  rw [parseRecords_laidOut (forall_mem_map.2 fun r hr => ⟨(hrs r hr).2, ?_⟩) hfuel, map_map]
  · exact congrArg entries (map_id rs)
  · have hlen := (hrs r hr).1
    simp only [padded, length_replicate, Record.reclen]
    omega

/-- `buf[lo:hi]`, or `none` if it is out of range -/
def slice? (lo hi : Nat) (buf : Bytes) : Option Bytes :=
  if lo ≤ hi ∧ hi ≤ buf.length then some ((buf.take hi).drop lo) else none

/-- `parseDirents`, `none` if an access is out of range or the loop has run `fuel` times without an end -/
def parseDirents : Nat → Bytes → Option (List Dirent)
  | _, [] => some []
  | 0, _ => none
  | fuel + 1, buf =>
    if buf.length < 19 then some []
    else do
      let ino ← slice? 0 8 buf
      let offset ← slice? 8 16 buf
      let reclen := leNat (← slice? 16 18 buf)
      let dtype ← buf[18]?
      if reclen > buf.length ∨ reclen < 19 then some []
      else
        let nameBytes ← slice? 19 reclen buf
        let name := nameBytes.takeWhile (· ≠ 0)
        let dirents ← parseDirents fuel (← slice? reclen buf.length buf)
        if isDots name then some dirents
        else some ((Record.mk (UInt64.ofNat (leNat ino)) (UInt64.ofNat (leNat offset)) dtype name).dirent :: dirents)

theorem slice?_eq {lo hi : Nat} (h : lo ≤ hi) (hlen : hi ≤ buf.length) : slice? lo hi buf = some ((buf.take hi).drop lo) :=
  if_pos ⟨h, hlen⟩

theorem parseDirents_eq (h : buf.length ≤ fuel) : parseDirents fuel buf = some (parseRecords fuel buf) := by
  induction fuel generalizing buf with
  | zero =>
    obtain rfl := eq_nil_of_length_eq_zero (Nat.le_zero.1 h)
    rfl
  | succ fuel ih =>
    cases buf with
    | nil => rfl
    | cons x xs =>
      rw [parseDirents, parseRecords]
      case x_2 => simp
      generalize x :: xs = buf at h ⊢
      by_cases hshort : buf.length < 19
      · rw [if_pos hshort, if_pos hshort]
      · have htype : buf[18]? = some (UInt8.ofNat (leAt 18 1 buf)) := by
          obtain ⟨y, ys, hdrop⟩ := exists_cons_of_length_pos (l := buf.drop 18) (by rw [length_drop]; omega)
          have hy : buf[18]? = some y := by rw [← head?_drop, hdrop, head?_cons]
          simp [hy, leAt, hdrop, leNat]
        have hword (i k : Nat) : leNat ((buf.drop i).take k) = leAt i k buf := rfl
        rw [if_neg hshort, if_neg hshort, slice?_eq (by omega) (by omega), slice?_eq (by omega) (by omega),
          slice?_eq (by omega) (by omega), htype]
        simp only [drop_take, Option.bind_eq_bind, Option.bind_some, Nat.sub_zero, Nat.reduceSub, hword]
        by_cases hreclen : leAt 16 2 buf > buf.length ∨ leAt 16 2 buf < 19
        · rw [if_pos hreclen, if_pos hreclen]
        · rw [if_neg hreclen, if_neg hreclen, slice?_eq (by omega) (by omega), slice?_eq (by omega) (by omega)]
          simp only [Option.bind_some, take_length]
          rw [ih (by rw [length_drop]; omega), Option.bind_some, ← drop_take]
          split <;> rfl

end Parsing

/-! ## Responses -/

/-- If there are entries after the cookie, other than "." and "..", the response has an entry or is an error. -/
def Honest (resp : P9l.Msg) (left : List Dirent) : Prop :=
  (∃ d ∈ left, isDots d.name = false) →
    (∃ e, resp = errorMsg e) ∨ ∃ d ps, d ∈ left ∧ resp = .rreaddir ⟨direntBytes (d :: ps)⟩

def FirstFits (count : UInt32) (ds : List Dirent) : Prop := ∃ d ∈ ds.head?, 24 + d.name.length ≤ count.toNat

theorem packed_honest {count : UInt32} (hnames : ∀ d ∈ ds, d.name.length ≤ 0xFFFF)
    (hsub : ∀ d ∈ ds, d ∈ left) :
    Honest (.rreaddir ⟨encodeDirentsInto count.toNat ds []⟩) left ↔
      (∀ d ∈ left, isDots d.name = true) ∨ FirstFits count ds := by
  have hempty := @encodeDirentsInto_eq_nil ds count.toNat hnames
  constructor
  · intro hhonest
    by_cases hmore : ∃ d ∈ left, isDots d.name = false
    · right
      obtain ⟨e, he⟩ | ⟨d, ps, -, hdata⟩ := hhonest hmore
      · cases he
      · have hne : encodeDirentsInto count.toNat ds [] ≠ [] := by
          rw [P9l.Rreaddir.mk.inj (P9l.Msg.rreaddir.inj hdata), ne_eq, direntBytes_eq_nil]
          exact cons_ne_nil d ps
        by_contra hfull
        refine hne (hempty.2 fun d hd => ?_)
        by_contra hfits
        exact hfull ⟨d, hd, Nat.not_lt.1 hfits⟩
    · left
      intro d hd
      by_contra hdots
      exact hmore ⟨d, hd, by simpa using hdots⟩
  · rintro (hdots | ⟨d, hd, hfits⟩) ⟨d', hd', hmore⟩
    · rw [hdots d' hd'] at hmore
      cases hmore
    · right
      obtain ⟨ps, rest, hds, heq, -⟩ := @encodeDirentsInto_eq ds count.toNat hnames []
      cases ps with
      | nil =>
        rw [nil_append] at heq
        have := hempty.1 (by simpa [direntBytes] using heq) d hd
        omega
      | cons d₁ ps => exact ⟨d₁, ps, hsub d₁ (hds ▸ mem_cons_self), by rw [heq, nil_append]⟩

section Handlers

variable {ν : Type} {cfg : Config ν} {s : State ν} {f : DataPath.FidState ν} {m : P9l.Treaddir}
  {t : Target ν} {ds : List Dirent}

/-- The listing from which `readdirSimple` answers. -/
def listing (cfg : Config ν) (s : State ν) (f : DataPath.FidState ν) (m : P9l.Treaddir) (t : Target ν) :
    Except Errno (List Dirent) :=
  if m.offset = 0 ∨ !f.dirCached then (cfg.fs.readdir s.calls t).map withCookies else .ok f.dirCache

theorem handleReaddir_simple (hlookup : s.fids.lookup m.fid = some f) (hopen : f.state = .opened)
    (htarget : readdirTarget cfg f = some (t, false)) (hlist : listing cfg s f m t = .ok ds) :
    (handleReaddir cfg s m).1 =
      .rreaddir ⟨encodeDirentsInto (clampCount cfg.params m.count).toNat (dirView ds m.offset) []⟩ := by
  unfold handleReaddir
  rw [hlookup]
  simp only [htarget]
  rw [if_neg (not_not.2 hopen), readdirSimple]
  unfold listing at hlist
  split at hlist
  · rename_i hfetch
    rw [if_pos hfetch]
    cases hread : cfg.fs.readdir s.calls t with
    | error e =>
      rw [hread] at hlist
      cases hlist
    | ok ls =>
      rw [hread] at hlist
      obtain rfl := Except.ok.inj hlist
      rfl
  · rename_i hcached
    obtain rfl := Except.ok.inj hlist
    rw [if_neg hcached]

/-- The bytes that a `RawReaddir` has written to the buffer stand in front of what was in it. -/
def wrote (r : Except Errno Bytes) (old : Bytes) : Except Errno Filled := r.map fun b => ⟨b.length, b ++ old⟩

theorem filled_wrote {count : UInt32} {data : Bytes} {msg : Bytes → P9l.Msg} (hdata : data.length ≤ count.toNat) :
    filled count (wrote (.ok data) old) msg = msg data := by
  have hvalid : Replies.validReadCount (data.length : Int) count.toNat = true := by
    simp only [Replies.validReadCount, Bool.and_eq_true, decide_eq_true_eq]
    omega
  have htake : ((data ++ old).take count.toNat).take data.length = data := by
    rw [take_take, Nat.min_eq_left hdata, take_left]
  simp only [filled, wrote, Except.map, Except.bind, fillPooled, hvalid, if_true, Int.toNat_natCast, htake]

theorem handleReaddir_raw {host : Host} {old : Bytes} {records : List Record} {k : Nat}
    (hlookup : s.fids.lookup m.fid = some f) (hopen : f.state = .opened)
    (htarget : readdirTarget cfg f = some (t, true))
    (hraw : cfg.fs.rawReaddir s.calls t m.offset (clampCount cfg.params m.count) =
      wrote (rawReaddir host (clampCount cfg.params m.count).toNat m.offset) old)
    (hoffset : m.offset.toNat < 2 ^ 63) (hseek : host.seek m.offset = .ok records)
    (hvalid : ∀ r ∈ records, r.Valid)
    (hgetdents : host.getdents records = .ok ((records.take k).flatMap Record.bytes)) :
    (handleReaddir cfg s m).1 =
      .rreaddir ⟨encodeDirentsInto (clampCount cfg.params m.count).toNat (entries (records.take k)) []⟩ := by
  have hparse : parseRecords ((records.take k).flatMap Record.bytes).length ((records.take k).flatMap Record.bytes) =
      entries (records.take k) :=
    parseRecords_bytes (fun r hr => hvalid r (mem_of_mem_take hr)) (Nat.le_refl _)
  have hread (size : Nat) : rawReaddir host size m.offset = .ok (encodeDirentsInto size (entries (records.take k)) []) := by
    unfold rawReaddir
    rw [if_neg (by omega), hseek]
    show (host.getdents records).bind _ = _
    rw [hgetdents]
    show Except.ok (encodeDirentsInto size (parseRecords _ _) []) = _
    rw [hparse]
  unfold handleReaddir
  rw [hlookup]
  simp only [htarget]
  rw [if_neg (not_not.2 hopen)]
  rw [hraw, hread]
  exact filled_wrote (Replies.encodeDirentsInto_le _ (Nat.zero_le _))

/-- **An empty `Rreaddir` means the end of the directory exactly if the next entry fits the response.** -/
theorem empty_iff_end (hlookup : s.fids.lookup m.fid = some f) (hopen : f.state = .opened) :
    (readdirTarget cfg f = some (t, false) → ∀ ds, listing cfg s f m t = .ok ds → (∀ d ∈ ds, d.name.length ≤ 255) →
      (Honest (handleReaddir cfg s m).1 (dirView ds m.offset) ↔
        (∀ d ∈ dirView ds m.offset, isDots d.name = true) ∨
          FirstFits (clampCount cfg.params m.count) (dirView ds m.offset))) ∧
    (readdirTarget cfg f = some (t, true) → ∀ (host : Host) (old : Bytes) (records : List Record) (k : Nat),
      cfg.fs.rawReaddir s.calls t m.offset (clampCount cfg.params m.count) =
        wrote (rawReaddir host (clampCount cfg.params m.count).toNat m.offset) old →
      m.offset.toNat < 2 ^ 63 → host.seek m.offset = .ok records → (∀ r ∈ records, r.Valid) →
      host.getdents records = .ok ((records.take k).flatMap Record.bytes) →
      (Honest (handleReaddir cfg s m).1 (records.map Record.dirent) ↔
        (∀ r ∈ records, isDots r.name = true) ∨
          FirstFits (clampCount cfg.params m.count) (entries (records.take k)))) := by
  constructor
  · intro htarget ds hlist hnames
    rw [handleReaddir_simple hlookup hopen htarget hlist]
    refine packed_honest (fun d hd => ?_) fun d hd => hd
    exact Nat.le_trans (hnames d (mem_of_mem_drop hd)) (by decide)
  · intro htarget host old records k hraw hoffset hseek hvalid hgetdents
    have hentries : ∀ d ∈ entries (records.take k), ∃ r ∈ records, d = r.dirent := by
      intro d hd
      obtain ⟨r, hr, rfl⟩ := mem_map.1 hd
      exact ⟨r, mem_of_mem_take (mem_filter.1 hr).1, rfl⟩
    rw [handleReaddir_raw hlookup hopen htarget hraw hoffset hseek hvalid hgetdents, packed_honest]
    · rw [forall_mem_map]
      rfl
    · intro d hd
      obtain ⟨r, hr, rfl⟩ := hentries d hd
      exact Nat.le_trans (hvalid r hr).1 (by decide)
    · intro d hd
      obtain ⟨r, hr, rfl⟩ := hentries d hd
      exact mem_map_of_mem hr

end Handlers

/-! ### A directory with one file -/

def fileA : List Record := [⟨2, 1, dtDir, dot⟩, ⟨3, 2, 8, [97]⟩]

def giving (k : Nat) : Host := ⟨fun _ => .ok fileA, fun rs => .ok ((rs.take k).flatMap Record.bytes)⟩

def exporting (k : Nat) : Config Unit :=
  ⟨⟨8192, .l⟩, 0,
    { Fs.bare Unit with
      readdir := fun _ _ => .ok (entries fileA)
      rawReaddir := fun _ _ offset count => wrote (rawReaddir (giving k) count.toNat offset) [] }⟩

/-- The state in which fid 3 is the open directory, with a handle that lists it. -/
def opened (i : Handlers.FileIface) : State Unit :=
  ⟨AList.singleton 3 { node := (), state := .opened, handle := [i] }, []⟩

theorem empty_iff_end_large :
    Honest (handleReaddir (exporting 2) (opened .fileReaddirer) ⟨3, 0, 100⟩).1
      (dirView (withCookies (entries fileA)) 0) ∧
    Honest (handleReaddir (exporting 2) (opened .fileRawReaddirer) ⟨3, 0, 100⟩).1 (fileA.map Record.dirent) := by
  refine ⟨((empty_iff_end rfl rfl).1 rfl _ rfl (by decide)).2 (.inr ⟨_, rfl, by decide⟩), ?_⟩
  exact ((empty_iff_end rfl rfl).2 rfl (giving 2) [] fileA 2 rfl (by decide) rfl (by simp [fileA, Record.Valid, dot]) rfl).2
    (.inr ⟨_, rfl, by decide⟩)

theorem empty_not_honest (hmore : ∃ d ∈ left, isDots d.name = false) :
    ¬Honest (.rreaddir ⟨[]⟩) left := by
  intro hhonest
  obtain ⟨e, he⟩ | ⟨d, ps, -, hdata⟩ := hhonest hmore
  · cases he
  · have hnil : direntBytes (d :: ps) = [] := (P9l.Rreaddir.mk.inj (P9l.Msg.rreaddir.inj hdata)).symm
    exact cons_ne_nil d ps (direntBytes_eq_nil.1 hnil)

/-- A count of 10 is too small for any entry; and `getdents` may give the record of "." alone. -/
theorem empty_before_end :
    ¬Honest (handleReaddir (exporting 2) (opened .fileReaddirer) ⟨3, 0, 10⟩).1
      (dirView (withCookies (entries fileA)) 0) ∧
    ¬Honest (handleReaddir (exporting 1) (opened .fileRawReaddirer) ⟨3, 0, 4096⟩).1 (fileA.map Record.dirent) :=
  ⟨empty_not_honest (by decide), empty_not_honest (by decide)⟩

end NineP.Server.RawReaddir
