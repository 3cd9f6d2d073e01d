import NineP.Server.Replies

/-!
# The size of the responses
-/

namespace NineP.Server.Replies

open Codec Proto Negotiation List

/-! ## Bodies -/

theorem uint8_le (ctx : String) (v : UInt8) : WritesLe 1 (wrap ctx (writeUint8 v)) :=
  (uint8_codec.writesLe trivial).wrap _

theorem uint32_le (ctx : String) (v : UInt32) : WritesLe 4 (wrap ctx (writeUint32 v)) :=
  (uint32_codec.writesLe trivial).wrap _

theorem uint64_le (ctx : String) (v : UInt64) : WritesLe 8 (wrap ctx (writeUint64 v)) :=
  (uint64_codec.writesLe trivial).wrap _

theorem qid_le (ctx : String) (q : QID) : WritesLe 13 (wrap ctx (writeQID q)) := (qid_codec.writesLe trivial).wrap _

theorem string_le (ctx : String) (h : s.length ≤ n) : WritesLe (2 + n) (wrap ctx (writeString s)) :=
  (((writeString_writes s).writesLe).mono (by simpa using h)).wrap _

theorem errorMsg_le (c : Params) (e : Errno) : WritesLe 55 (encodeTo (errorMsg c e)) := by
  unfold errorMsg
  split
  · exact (string_le _ (errnoError_length e)).seq (uint32_le _ _)
  · exact (uint32_le "encode rlerror ecode" e).mono (by decide)

theorem rgetattr_le (m : P9l.Rgetattr) : WritesLe 153 m.encodeTo :=
  (uint64_le _ _).seq <| (qid_le _ _).seq <| (uint32_le _ _).seq <| (uint32_le _ _).seq <| (uint32_le _ _).seq <|
    (uint64_le _ _).seq <| (uint64_le _ _).seq <| (uint64_le _ _).seq <| (uint64_le _ _).seq <| (uint64_le _ _).seq <|
    (uint64_le _ _).seq <| (uint64_le _ _).seq <| (uint64_le _ _).seq <| (uint64_le _ _).seq <| (uint64_le _ _).seq <|
    (uint64_le _ _).seq <| (uint64_le _ _).seq <| (uint64_le _ _).seq <| (uint64_le _ _).seq (uint64_le _ _)

theorem rstatfs_le (m : P9l.Rstatfs) : WritesLe 60 m.encodeTo :=
  (uint32_le _ _).seq <| (uint32_le _ _).seq <| (uint64_le _ _).seq <| (uint64_le _ _).seq <| (uint64_le _ _).seq <|
    (uint64_le _ _).seq <| (uint64_le _ _).seq <| (uint64_le _ _).seq (uint32_le _ _)

theorem payload_le (ctx ctx' : String) (h : data.length ≤ n) :
    WritesLe (4 + n) (do
      failIf (data.length > maxDataSize) (.msg ctx)
      writeUint32 (UInt32.ofNat data.length)
      writePayload ctx' data) := by
  intro buf buf' hbuf
  obtain ⟨-, hbuf⟩ := failIf_bind_ok.1 hbuf
  rw [writePayload_eq_put] at hbuf
  have hseq := (uint32_codec.writesLe (a := UInt32.ofNat data.length) trivial).seq (Writes.put data).writesLe
  exact (hseq.mono (by omega)) buf buf' hbuf

theorem rread_le (h : data.length ≤ n) : WritesLe (4 + n) (Rread.encodeTo ⟨data⟩) := by
  simp only [Rread.encodeTo, Rread.encodeFixed, bind_assoc]
  exact payload_le _ _ h

theorem rreaddir_le (h : data.length ≤ n) : WritesLe (4 + n) (P9l.Rreaddir.encodeTo ⟨data⟩) := by
  simp only [P9l.Rreaddir.encodeTo, P9l.Rreaddir.encodeFixed, bind_assoc]
  exact payload_le _ _ h

/-! ## Data that is cut to size -/

theorem Dirent.length_bytes (d : Dirent) : d.bytes.length = 13 + 8 + 1 + 2 + d.name.length := by
  simp only [Dirent.bytes, QID.bytes, length_append, length_leBytes, length_singleton]

theorem encodeDirentsInto_le (ds : List Dirent) (h : out.length ≤ size) :
    (encodeDirentsInto size ds out).length ≤ size := by
  induction ds generalizing out with
  | nil => exact h
  | cons d ds ih =>
    unfold encodeDirentsInto
    split
    · exact ih h
    · split
      · exact h
      · refine ih ?_
        rw [length_append, d.length_bytes]
        omega

section Handlers

variable {c : Params}

theorem clampCount_le (count : UInt32) : clampCount c count ≤ maxData c := by
  unfold clampCount
  split
  · exact UInt32.le_refl _
  · exact UInt32.not_lt.1 ‹_›

theorem maxData_toNat (hmin : 256 ≤ c.msize.toNat) : (maxData c).toNat = c.msize.toNat - 11 := by
  have hlt := c.msize.toNat_lt
  have h7 : headerSize.toNat = 7 := rfl
  have h4 : (4 : UInt32).toNat = 4 := rfl
  simp only [maxData, UInt32.toNat_sub, h7, h4]
  omega

variable {count : UInt32} {data : Bytes}

theorem fillPooled_le (h : fillPooled count x = .ok data) : data.length ≤ count.toNat := by
  unfold fillPooled at h
  split at h
  · obtain rfl := Except.ok.inj h
    simp only [length_take]
    omega
  · cases h

variable (hmin : 256 ≤ c.msize.toNat)
include hmin

theorem fits {p : Writer Unit} (h : WritesLe n p) (hn : n ≤ 249) : WritesLe (c.msize.toNat - 7) p := h.mono (by omega)

theorem errorMsg_fits (e : Errno) : WritesLe (c.msize.toNat - 7) (encodeTo (errorMsg c e)) :=
  fits hmin (errorMsg_le c e) (by decide)

theorem clampCount_toNat (count : UInt32) : (clampCount c count).toNat ≤ c.msize.toNat - 11 := by
  rw [← maxData_toNat hmin]
  exact UInt32.le_iff_toNat_le.1 (clampCount_le count)

theorem clampCount_of_le (hle : count.toNat ≤ c.msize.toNat - 11) : clampCount c count = count := by
  rw [clampCount, if_neg]
  rw [UInt32.not_lt, UInt32.le_iff_toNat_le, maxData_toNat hmin]
  exact hle

theorem rread_fits (h : data.length ≤ c.msize.toNat - 11) :
    WritesLe (c.msize.toNat - 7) (encodeTo (.base (.rread ⟨data⟩))) :=
  (rread_le h).mono (by omega)

theorem rreaddir_fits (h : data.length ≤ c.msize.toNat - 11) :
    WritesLe (c.msize.toNat - 7) (encodeTo (.l (.rreaddir ⟨data⟩))) :=
  (rreaddir_le h).mono (by omega)

theorem fillPooled_fits (x : Filled) {reply : Bytes → Msg}
    (h : ∀ data, data.length ≤ c.msize.toNat - 11 → WritesLe (c.msize.toNat - 7) (encodeTo (reply data))) :
    WritesLe (c.msize.toNat - 7) (encodeTo (orError c ((fillPooled (clampCount c count) x).map reply))) := by
  cases hfill : fillPooled (clampCount c count) x with
  | ok data => exact h data (Nat.le_trans (fillPooled_le hfill) (clampCount_toNat hmin count))
  | error e => exact errorMsg_fits hmin e

theorem handleRead_fits (m : Tread) (source : Source) :
    WritesLe (c.msize.toNat - 7) (encodeTo (handleRead c m source)) := by
  cases source with
  | xattr data =>
    refine rread_fits hmin (Nat.le_trans ?_ (clampCount_toNat hmin m.count))
    rw [length_take]
    exact Nat.min_le_left _ _
  | buffer x => exact fillPooled_fits hmin x fun data => rread_fits hmin
  | listing => exact errorMsg_fits hmin _

theorem handleReaddir_fits (m : P9l.Treaddir) (source : Source) :
    WritesLe (c.msize.toNat - 7) (encodeTo (handleReaddir c m source)) := by
  cases source with
  | xattr => exact errorMsg_fits hmin _
  | buffer x => exact fillPooled_fits hmin x fun data => rreaddir_fits hmin
  | listing dirents =>
    exact rreaddir_fits hmin (Nat.le_trans (encodeDirentsInto_le _ (Nat.zero_le _)) (clampCount_toNat hmin m.count))

theorem handleWrite_fits (m : Twrite) (v : Values) :
    WritesLe (c.msize.toNat - 7) (encodeTo (handleWrite c m v)) := by
  unfold handleWrite
  split
  · exact fits hmin (uint32_le "encode rwrite count" _) (by decide)
  · exact errorMsg_fits hmin _

theorem handleWalk_fits (m : Twalk) (v : Values) : WritesLe (c.msize.toNat - 7) (encodeTo (handleWalk c m v)) := by
  unfold handleWalk
  split
  · exact errorMsg_fits hmin _
  · exact fits hmin (Rwalk.short_codec.writesLe trivial) (by decide)

/-- The requests whose reply has a string of a node or of another client. -/
def asksString : Msg → Bool
  | .l (.treadlink _) | .l (.tgetlock _) | .u (.tstat _) => true
  | _ => false

/-- **A reply without such a string fits `msize`.** -/
theorem dispatch_le (hm : asksString m = false) (r : Except Errno Values) :
    WritesLe (c.msize.toNat - 7) (encodeTo (dispatch c m r)) := by
  cases r with
  | error e => exact errorMsg_fits hmin e
  | ok v =>
    unfold dispatch
    dsimp only
    split
    case h_1 => exact fits hmin (qid_le "encode rattach qid" v.qid) (by decide)
    case h_2 => exact handleWalk_fits hmin _ v
    case h_5 | h_6 | h_12 | h_13 => exact fits hmin ((qid_le _ v.qid).seq (uint32_le _ _)) (by decide)
    case h_7 => exact handleRead_fits hmin _ _
    case h_8 => exact handleWrite_fits hmin _ v
    case h_9 => exact fits hmin (rgetattr_le _) (by decide)
    case h_11 => exact handleReaddir_fits hmin _ _
    case h_14 => exact fits hmin (qid_le "encode rmkdir qid" v.qid) (by decide)
    case h_15 => exact fits hmin (qid_le "encode rsymlink qid" v.qid) (by decide)
    case h_17 => exact fits hmin (qid_le "encode rmknod qid" v.qid) (by decide)
    case h_18 | h_25 | h_28 => cases hm
    case h_19 => exact fits hmin (rstatfs_le _) (by decide)
    case h_24 => exact fits hmin (uint8_le "encode rlock status" v.status) (by decide)
    case h_26 => exact fits hmin (uint64_le "encode rxattrwalk size" _) (by decide)
    case h_29 => exact errorMsg_fits hmin _
    all_goals exact fits hmin WritesLe.pure (by decide)

end Handlers

/-! ## Frames -/

section Frames

theorem length_headed (t : MessageType) (tag : Tag) (body : Bytes) :
    (headed t tag body).length = 7 + body.length := by
  simp only [headed, length_append, length_cons, length_leBytes]
  omega

theorem encode_eq_some : encode tag m = some out ↔
    ∃ body, encodeTo m [] = .ok ((), body) ∧ headed (messageType m) tag body = out := by
  unfold encode
  split
  · rename_i body heq
    simp [heq]
  · rename_i e heq
    simp [heq]

theorem encode_le (hm : WritesLe n (encodeTo m)) (h : encode tag m = some out) : out.length ≤ 7 + n := by
  obtain ⟨body, hbody, rfl⟩ := encode_eq_some.1 h
  obtain ⟨b, rfl, hb⟩ := hm _ _ hbody
  rw [length_headed]
  exact Nat.add_le_add_left hb 7

variable {p : Prop}

theorem encode_exact (hm : Writes p enc (encodeTo m)) (h : encode tag m = some out) :
    p ∧ out.length = 7 + enc.length := by
  obtain ⟨body, hbody, rfl⟩ := encode_eq_some.1 h
  obtain ⟨hp, rfl⟩ := (hm _ _).1 hbody
  exact ⟨hp, length_headed _ _ _⟩

theorem encode_none (hm : Writes p enc (encodeTo m)) (h : encode tag m = none) : ¬ p := by
  intro hp
  have hbody := (hm [] enc).2 ⟨hp, rfl⟩
  cases h.symm.trans (encode_eq_some.2 ⟨enc, hbody, rfl⟩)

theorem sendResponseInline_cases (h : sendResponseInline c tag m = some out) :
    encode tag m = some out ∨ encode tag m = none ∧ out.length ≤ 62 := by
  unfold sendResponseInline at h
  cases hm : encode tag m with
  | some frame =>
    rw [hm] at h
    exact .inl h
  | none =>
    rw [hm] at h
    exact .inr ⟨rfl, encode_le (errorMsg_le c EIO) h⟩

theorem sendResponseInline_le (hmin : 256 ≤ c.msize.toNat) (hm : WritesLe (c.msize.toNat - 7) (encodeTo m))
    (h : sendResponseInline c tag m = some out) : out.length ≤ c.msize.toNat := by
  obtain h | ⟨-, h⟩ := sendResponseInline_cases h
  · have := encode_le hm h
    omega
  · omega

/-- A reply of `k` bytes: it is sent as it is if its strings are short enough, and is too large then if `k` is. -/
theorem sendResponseInline_iff (hmin : 256 ≤ c.msize.toNat) (hm : Writes p enc (encodeTo m))
    (hk : 7 + enc.length = k) (h : sendResponseInline c tag m = some out) :
    out.length ≤ c.msize.toNat ↔ k ≤ c.msize.toNat ∨ ¬ p := by
  obtain h | ⟨hnone, hout⟩ := sendResponseInline_cases h
  · obtain ⟨hp, hlen⟩ := encode_exact hm h
    simp only [hp, not_true, or_false]
    omega
  · have hp := encode_none hm hnone
    simp only [hp, not_false_eq_true, or_true, iff_true]
    omega

theorem rreadlink_writes (target : Bytes) :
    Writes (target.length ≤ maxStringLen) (leBytes 2 target.length ++ target) (encodeTo (.l (.rreadlink ⟨target⟩))) :=
  (writeString_writes target).wrap _

def lockBytes (l : P9l.Rgetlock) : Bytes :=
  leBytes 1 l.lockType.toNat ++ (leBytes 8 l.start.toNat ++ (leBytes 8 l.length.toNat ++
    (leBytes 4 l.procID.toNat ++ (leBytes 2 l.clientID.length ++ l.clientID))))

theorem rgetlock_writes (l : P9l.Rgetlock) :
    Writes (l.clientID.length ≤ maxStringLen) (lockBytes l) (encodeTo (.l (.rgetlock l))) := by
  have word : ∀ {k v : Nat} {ctx : String}, Writes True (leBytes k v) (wrap ctx (put (leBytes k v)) : Writer Unit) :=
    (Writes.put _).wrap _
  exact Writes.congr (word.seq <| word.seq <| word.seq <| word.seq ((writeString_writes l.clientID).wrap _))
    (by simp only [true_and]) rfl

/-- A stat that does not fit its size word is refused: by `EncodedSize`, or string by string. -/
theorem rstat_writes (s : P9u.Stat) :
    Writes (s.fieldsLen ≤ maxStringLen)
      (leBytes 2 (2 + UInt16.ofNat s.fieldsLen).toNat ++ (leBytes 2 (UInt16.ofNat s.fieldsLen).toNat ++ s.fieldBytes))
      (encodeTo (.u (.rstat ⟨s⟩))) := by
  intro buf buf'
  by_cases hlen : s.fieldsLen ≤ maxStringLen
  · have hshort : s.ShortStrings := by
      simp only [P9u.Stat.fieldsLen, maxStringLen] at hlen
      simp only [P9u.Stat.ShortStrings, maxStringLen]
      omega
    have hsize : s.encodedSize = .ok (UInt16.ofNat s.fieldsLen) := by
      rw [P9u.Stat.encodedSize_ok_iff hshort, UInt16.toNat_ofNat']
      exact (Nat.mod_eq_of_lt (Nat.lt_succ_of_le hlen)).symm
    exact ((P9u.Rstat.encodeTo_writes hsize).congr (iff_of_true hshort hlen) rfl) buf buf'
  · refine iff_of_false (fun h => ?_) fun h => hlen h.1
    obtain ⟨n, mid, hn, h'⟩ := bind_ok.1 h
    obtain ⟨hsize, -⟩ := result_ok.1 (wrap_ok.1 hn)
    obtain ⟨hshort, -⟩ := (P9u.Rstat.encodeTo_writes hsize buf buf').1 h
    have hn := (P9u.Stat.encodedSize_ok_iff hshort).1 hsize
    exact hlen (hn ▸ Nat.le_of_lt_succ n.toNat_lt)

theorem statFromAttr_fieldsLen (path : Bytes) (qid : QID) (attr : P9l.Attr) :
    (statFromAttr path qid attr).fieldsLen = 61 + (statName path).length := rfl

end Frames

/-! ## Every response -/

/-- **The strings of a reply fit.**  A string that is longer than any string of the protocol does not matter: EIO is
sent in place of the reply. -/
def ShortStrings (c : Params) (f : Frame) : Outcome → Prop
  | .answer (.ok v) =>
    match f.decode c.protocol with
    | .msg (.l (.treadlink _)) => 9 + v.target.length ≤ c.msize.toNat ∨ maxStringLen < v.target.length
    | .msg (.l (.tgetlock _)) => 30 + v.lock.clientID.length ≤ c.msize.toNat ∨ maxStringLen < v.lock.clientID.length
    | .msg (.u (.tstat _)) =>
      72 + (statName v.path).length ≤ c.msize.toNat ∨ maxStringLen < 61 + (statName v.path).length
    | _ => True
  | _ => True

theorem shortStrings_of_plain (h : ∀ m, f.decode c.protocol = .msg m → asksString m = false)
    (o : Outcome) : ShortStrings c f o := by
  unfold ShortStrings
  split
  · split
    case h_1 heq | h_2 heq | h_3 heq => cases h _ heq
    case h_4 => trivial
  · trivial

theorem decode_tversion {f : Frame} (h : f.type = typeTversion) (p : Protocol) : f.decode p = .unknownType := by
  unfold Frame.decode
  rw [h]
  cases p <;> rfl

section Responses

variable {c : Params} (hmin : 256 ≤ c.msize.toNat)
include hmin

theorem rversion_le
    (hres : negotiate maxMsize tv = some res)
    (h : encode tag (.base (.rversion ⟨res.msize, res.version⟩)) = some out) : out.length ≤ c.msize.toNat := by
  have hversion : res.version.length ≤ 8 := by
    rw [negotiate_version hres]
    cases res.selected <;> decide
  have := encode_le ((uint32_le _ _).seq (string_le _ hversion)) h
  omega

theorem dispatch_size (hdecode : f.decode c.protocol = .msg m)
    (r : Except Errno Values) (h : sendResponseInline c f.tag (dispatch c m r) = some out) :
    out.length ≤ c.msize.toNat ↔ ShortStrings c f (.answer r) := by
  cases hm : asksString m with
  | false =>
    refine iff_of_true (sendResponseInline_le hmin (dispatch_le hmin hm r) h)
      (shortStrings_of_plain (fun m' h' => ?_) _)
    obtain rfl := Decoded.msg.inj (hdecode.symm.trans h')
    exact hm
  | true =>
    cases r with
    | error e => exact iff_of_true (sendResponseInline_le hmin (errorMsg_fits hmin e) h) trivial
    | ok v =>
      unfold asksString at hm
      split at hm
      case h_4 => cases hm
      all_goals
        unfold ShortStrings
        simp only [hdecode]
      case h_1 =>
        rw [sendResponseInline_iff hmin (rreadlink_writes v.target) rfl h, Nat.not_le]
        simp only [length_append, length_leBytes]
        omega
      case h_2 =>
        rw [sendResponseInline_iff hmin (rgetlock_writes v.lock) rfl h, Nat.not_le]
        simp only [lockBytes, length_append, length_leBytes]
        omega
      case h_3 =>
        have hlen := P9u.Stat.length_fieldBytes (statFromAttr v.path v.qid v.attr)
        rw [sendResponseInline_iff hmin (rstat_writes _) rfl h, Nat.not_le]
        simp only [length_append, length_leBytes, hlen, statFromAttr_fieldsLen]
        omega

/-- **The size of the responses.**  After a negotiation of `msize`, a frame that the server writes is at most `msize`
bytes long exactly if the strings of its reply fit. -/
theorem response_size (maxMsize : UInt32) (f : Frame) (o : Outcome) {out : Bytes}
    (h : respond maxMsize c f o = some out) : out.length ≤ c.msize.toNat ↔ ShortStrings c f o := by
  cases o with
  | nothing => cases h
  | panic => exact iff_of_true (sendResponseInline_le hmin (errorMsg_fits hmin EIO) h) trivial
  | answer r =>
    unfold respond at h
    dsimp only at h
    split at h
    · rename_i htype
      obtain ⟨res, hres, h⟩ := Option.bind_eq_some_iff.1 h
      obtain ⟨tv, -, hres⟩ := Option.bind_eq_some_iff.1 hres
      refine iff_of_true (rversion_le hmin hres h) (shortStrings_of_plain (fun m hm => ?_) _)
      cases (decode_tversion htype _).symm.trans hm
    · split at h
      · rename_i hdecode
        refine iff_of_true (sendResponseInline_le hmin (errorMsg_fits hmin ENOSYS) h)
          (shortStrings_of_plain (fun m hm => ?_) _)
        cases hdecode.symm.trans hm
      · cases h
      · rename_i hdecode
        refine iff_of_true (sendResponseInline_le hmin (fits hmin WritesLe.pure (by decide)) h)
          (shortStrings_of_plain (fun m hm => ?_) _)
        obtain rfl := Decoded.msg.inj (hdecode.symm.trans hm)
        rfl
      · rename_i hdecode
        exact dispatch_size hmin hdecode r h

end Responses

/-- Strings of `n` bytes as the target of a link, the client of a lock and the path of a fid. -/
def stringValues (n : Nat) : Values where
  qid := ⟨0, 0, 0⟩
  lookups := []
  iounitHint := 0
  source := .listing []
  count := 0
  attr := default
  fsStat := default
  target := List.replicate n 97
  status := 0
  lock := { (default : P9l.Rgetlock) with clientID := List.replicate n 97 }
  xattr := []
  path := List.replicate n 97

/-- Requests on fid 0 with tag 1. -/
def treadlinkFrame : Frame := ⟨typeTreadlink, 1, List.replicate 4 0⟩
def tgetlockFrame : Frame := ⟨typeTgetlock, 1, List.replicate 27 0⟩
def tstatFrame : Frame := ⟨typeTstat, 1, List.replicate 4 0⟩

/-- A target of 100 bytes fits the smallest `msize`. -/
theorem response_size_readlink :
    ∃ out, respond 8192 ⟨256, .l⟩ treadlinkFrame (.answer (.ok (stringValues 100))) = some out ∧ out.length ≤ 256 :=
  ⟨_, rfl, (response_size (c := ⟨256, .l⟩) (by decide) 8192 treadlinkFrame (.answer (.ok (stringValues 100))) rfl).2
    (Or.inl (by decide))⟩

/-- **Longer strings are sent whole.**  With an `msize` of 256, an Rreadlink of 309 bytes, an Rgetlock of 330 bytes
and an Rstat of 309 bytes; the name in the last one is one that a Twalk of 256 bytes can have. -/
theorem response_too_large :
    (respond 8192 ⟨256, .l⟩ treadlinkFrame (.answer (.ok (stringValues 300)))).map List.length = some 309 ∧
    (respond 8192 ⟨256, .l⟩ tgetlockFrame (.answer (.ok (stringValues 300)))).map List.length = some 330 ∧
    (respond 8192 ⟨256, .u⟩ tstatFrame (.answer (.ok (stringValues 237)))).map List.length = some 309 := by
  decide +kernel

end NineP.Server.Replies
