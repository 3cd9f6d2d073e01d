import NineP.Proto.Frame

/-!
# The messages both dialects share

The structs of `proto/messages.go` with their `EncodeTo` and `DecodeFrom`, and `NewBaseMessage`.  For each
message `X` the theorem `X.codec` says that the two invert each other.
-/

namespace NineP.Proto

open Codec

/-! ## Shared layouts -/

def writePayload (ctx : String) (data : Bytes) : Writer Unit :=
  if data.length > 0 then wrap ctx (put data) else pure ()

/-- The count and payload of the data message called `name` in error texts. -/
def readPayload (name : String) : Reader Bytes := do
  let count ← wrap s!"decode {name} count" readUint32
  failIf (count.toNat > maxDataSize) (.msg s!"decode {name} count {count} exceeds maximum {maxDataSize}")
  wrap s!"decode {name} data" (readData count)

theorem writePayload_eq_put (ctx : String) (data : Bytes) : writePayload ctx data = put data := by
  funext buf
  unfold writePayload
  split
  · rfl
  · rename_i h
    obtain rfl : data = [] := List.length_eq_zero_iff.1 (by omega)
    simp

theorem payload_codec (ctx name : String) {p : UInt32 → Writer Unit} (c : CodecOn 4 Any p readUint32) :
    CodecOn (4 + maxDataSize) (fun data : Bytes => data.length ≤ maxDataSize)
      (fun data => do p (UInt32.ofNat data.length); writePayload ctx data) (readPayload name) := by
  simp only [writePayload_eq_put]
  refine .field (fun data : Bytes => UInt32.ofNat data.length) (c.wrapGet _) fun count => ?_
  refine .failIfGet (fun data hd => ?_) fun hle => ?_
  · obtain ⟨hle, rfl⟩ := hd
    show ¬ (UInt32.ofNat data.length).toNat > maxDataSize
    rw [show (UInt32.ofNat data.length).toNat = data.length from
      UInt32.toNat_ofNat_of_lt (Nat.lt_of_le_of_lt hle (by decide))]
    omega
  · refine .mono (Nat.not_lt.1 hle) (.congr (.bytes count.toNat (wrapErr_ok.trans readData_ok)) fun data => ?_)
    constructor
    · rintro ⟨hd, hcount⟩
      exact (uint32_ofNat_eq_iff hd).1 hcount
    · intro hcount
      have hd : data.length ≤ maxDataSize := by omega
      exact ⟨hd, (uint32_ofNat_eq_iff hd).2 hcount⟩

/-- A list of at most `maxWalkElements` elements behind its count, as the last part of a body. -/
theorem walkList_codec {α β : Type} {S : α → Prop} {pi : Nat → β → Writer Unit} {gi : Nat → Reader β} {e : UInt16 → Err} (f : α → List β) (mk : List β → α) (c : ∀ i, CodecOn n Any (pi i) (gi i))
    (hS : ∀ a, S a → (f a).length ≤ maxWalkElements)
    (hmk : ∀ xs : List β, xs.length ≤ maxWalkElements → ∀ a, (S a ∧ f a = xs) ↔ a = mk xs) :
    CodecOn (2 + maxWalkElements * n) S
      (fun a => do wrap ctx (writeUint16 (UInt16.ofNat (f a).length)); putList pi 0 (f a))
      (do let cnt ← wrap ctx' readUint16; failIf (cnt.toNat > maxWalkElements) (e cnt)
          let xs ← getList gi 0 cnt.toNat
          return mk xs) := by
  have hmax : maxWalkElements ≤ maxStringLen := by decide
  refine .field (fun a => UInt16.ofNat (f a).length) (uint16_codec.wrap _ _) fun cnt => ?_
  have hlen : ∀ a, S a → UInt16.ofNat (f a).length = cnt → (f a).length = cnt.toNat := fun a ha hcnt =>
    (uint16_ofNat_eq_iff (Nat.le_trans (hS a ha) hmax)).1 hcnt
  refine .failIfGet (fun a ha => ?_) fun hle => ?_
  · rw [← hlen a ha.1 ha.2, Nat.not_lt]
    exact hS a ha.1
  · refine .mono (Nat.mul_le_mul_right n (Nat.not_lt.1 hle))
      (.lastOn f mk (.list c cnt.toNat 0) (fun a ha => hlen a ha.1 ha.2) fun xs hxs a => ?_)
    rw [← hmk xs (hxs ▸ Nat.not_lt.1 hle) a]
    constructor
    · rintro ⟨⟨ha, -⟩, hf⟩
      exact ⟨ha, hf⟩
    · rintro ⟨ha, hf⟩
      refine ⟨⟨ha, (uint16_ofNat_eq_iff (Nat.le_trans (hS a ha) hmax)).2 ?_⟩, hf⟩
      rw [hf, hxs]

/-! ## The messages -/

structure Tversion where
  msize : UInt32
  version : Bytes
  deriving DecidableEq, Inhabited

def Tversion.encodeTo (m : Tversion) : Writer Unit := do
  wrap "encode tversion msize" (writeUint32 m.msize)
  wrap "encode tversion version" (writeString m.version)

def Tversion.decodeFrom : Reader Tversion := do
  let msize ← wrap "decode tversion msize" readUint32
  let version ← wrap "decode tversion version" readString
  return { msize, version }

theorem Tversion.codec : CodecOn maxBody Any Tversion.encodeTo Tversion.decodeFrom :=
  .mono (by decide) <|
  .fieldW uint32_codec fun _ =>
  .lastW string_codec

structure Rversion where
  msize : UInt32
  version : Bytes
  deriving DecidableEq, Inhabited

def Rversion.encodeTo (m : Rversion) : Writer Unit := do
  wrap "encode rversion msize" (writeUint32 m.msize)
  wrap "encode rversion version" (writeString m.version)

def Rversion.decodeFrom : Reader Rversion := do
  let msize ← wrap "decode rversion msize" readUint32
  let version ← wrap "decode rversion version" readString
  return { msize, version }

theorem Rversion.codec : CodecOn maxBody Any Rversion.encodeTo Rversion.decodeFrom :=
  .mono (by decide) <|
  .fieldW uint32_codec fun _ =>
  .lastW string_codec

structure Tauth where
  afid : Fid
  uname : Bytes
  aname : Bytes
  nUname : UInt32
  deriving DecidableEq, Inhabited

def Tauth.encodeTo (m : Tauth) : Writer Unit := do
  wrap "encode tauth afid" (writeFid m.afid)
  wrap "encode tauth uname" (writeString m.uname)
  wrap "encode tauth aname" (writeString m.aname)
  wrap "encode tauth n_uname" (writeUint32 m.nUname)

def Tauth.decodeFrom : Reader Tauth := do
  let afid ← wrap "decode tauth afid" readFid
  let uname ← wrap "decode tauth uname" readString
  let aname ← wrap "decode tauth aname" readString
  let nUname ← wrap "decode tauth n_uname" readUint32
  return { afid, uname, aname, nUname }

theorem Tauth.codec : CodecOn maxBody Any Tauth.encodeTo Tauth.decodeFrom :=
  .mono (by decide) <|
  .fieldW fid_codec fun _ =>
  .fieldW string_codec fun _ =>
  .fieldW string_codec fun _ =>
  .lastW uint32_codec

structure Rauth where
  aqid : QID
  deriving DecidableEq, Inhabited

def Rauth.encodeTo (m : Rauth) : Writer Unit := do
  wrap "encode rauth aqid" (writeQID m.aqid)

def Rauth.decodeFrom : Reader Rauth := do
  let aqid ← wrap "decode rauth aqid" readQID
  return { aqid }

theorem Rauth.codec : CodecOn maxBody Any Rauth.encodeTo Rauth.decodeFrom := by
  unfold Rauth.encodeTo
  exact .mono (by decide) (.only _ _ qid_codec fun _ a => by cases a; simp)

/-- Tattach attaches a fid to the root of a file tree. -/
structure Tattach where
  fid : Fid
  afid : Fid
  uname : Bytes
  aname : Bytes
  nUname : UInt32
  deriving DecidableEq, Inhabited

def Tattach.encodeTo (m : Tattach) : Writer Unit := do
  wrap "encode tattach fid" (writeFid m.fid)
  wrap "encode tattach afid" (writeFid m.afid)
  wrap "encode tattach uname" (writeString m.uname)
  wrap "encode tattach aname" (writeString m.aname)
  wrap "encode tattach n_uname" (writeUint32 m.nUname)

def Tattach.decodeFrom : Reader Tattach := do
  let fid ← wrap "decode tattach fid" readFid
  let afid ← wrap "decode tattach afid" readFid
  let uname ← wrap "decode tattach uname" readString
  let aname ← wrap "decode tattach aname" readString
  let nUname ← wrap "decode tattach n_uname" readUint32
  return { fid, afid, uname, aname, nUname }

theorem Tattach.codec : CodecOn maxBody Any Tattach.encodeTo Tattach.decodeFrom :=
  .mono (by decide) <|
  .fieldW fid_codec fun _ =>
  .fieldW fid_codec fun _ =>
  .fieldW string_codec fun _ =>
  .fieldW string_codec fun _ =>
  .lastW uint32_codec

structure Rattach where
  qid : QID
  deriving DecidableEq, Inhabited

def Rattach.encodeTo (m : Rattach) : Writer Unit := do
  wrap "encode rattach qid" (writeQID m.qid)

def Rattach.decodeFrom : Reader Rattach := do
  let qid ← wrap "decode rattach qid" readQID
  return { qid }

theorem Rattach.codec : CodecOn maxBody Any Rattach.encodeTo Rattach.decodeFrom := by
  unfold Rattach.encodeTo
  exact .mono (by decide) (.only _ _ qid_codec fun _ a => by cases a; simp)

structure Tflush where
  oldTag : Tag
  deriving DecidableEq, Inhabited

def Tflush.encodeTo (m : Tflush) : Writer Unit := do
  wrap "encode tflush oldtag" (writeUint16 m.oldTag)

def Tflush.decodeFrom : Reader Tflush := do
  let oldTag ← wrap "decode tflush oldtag" readUint16
  return { oldTag }

theorem Tflush.codec : CodecOn maxBody Any Tflush.encodeTo Tflush.decodeFrom := by
  unfold Tflush.encodeTo
  exact .mono (by decide) (.only _ _ uint16_codec fun _ a => by cases a; simp)

structure Rflush where
  deriving DecidableEq, Inhabited

def Rflush.encodeTo (_ : Rflush) : Writer Unit := pure ()

def Rflush.decodeFrom : Reader Rflush := pure {}

theorem Rflush.codec : CodecOn maxBody Any Rflush.encodeTo Rflush.decodeFrom :=
  .mono (by decide) (.empty _ fun _ => by simp [Any])

structure Twalk where
  fid : Fid
  newFid : Fid
  names : List Bytes
  deriving DecidableEq, Inhabited

def Twalk.encodeTo (m : Twalk) : Writer Unit := do
  failIf (m.names.length > maxWalkElements)
    (.msg s!"walk name count {m.names.length} exceeds max {maxWalkElements}")
  wrap "encode twalk fid" (writeFid m.fid)
  wrap "encode twalk newfid" (writeFid m.newFid)
  wrap "encode twalk nwname" (writeUint16 (UInt16.ofNat m.names.length))
  putList (fun i name => wrap s!"encode twalk name[{i}]" (writeString name)) 0 m.names

def Twalk.decodeFrom : Reader Twalk := do
  let fid ← wrap "decode twalk fid" readFid
  let newFid ← wrap "decode twalk newfid" readFid
  let nwname ← wrap "decode twalk nwname" readUint16
  failIf (nwname.toNat > maxWalkElements) (.msg s!"walk name count {nwname} exceeds max {maxWalkElements}")
  let names ← getList (fun i => wrap s!"decode twalk name[{i}]" readString) 0 nwname.toNat
  return { fid, newFid, names }

theorem Twalk.codec : CodecOn maxBody Any Twalk.encodeTo Twalk.decodeFrom :=
  .mono (by decide) <|
  .failIfPut <|
  .fieldW fid_codec fun _ =>
  .fieldW fid_codec fun _ =>
  walkList_codec Twalk.names _ (fun i => string_codec.wrap _ _) (by simp +contextual) fun names h a => by
    cases a; simp only [Any, Twalk.mk.injEq]; grind

structure Rwalk where
  qids : List QID
  deriving DecidableEq, Inhabited

def Rwalk.encodeTo (m : Rwalk) : Writer Unit := do
  failIf (m.qids.length > maxWalkElements) (.msg s!"walk qid count {m.qids.length} exceeds max {maxWalkElements}")
  wrap "encode rwalk nwqid" (writeUint16 (UInt16.ofNat m.qids.length))
  putList (fun i qid => wrap s!"encode rwalk qid[{i}]" (writeQID qid)) 0 m.qids

def Rwalk.decodeFrom : Reader Rwalk := do
  let nwqid ← wrap "decode rwalk nwqid" readUint16
  failIf (nwqid.toNat > maxWalkElements) (.msg s!"walk qid count {nwqid} exceeds max {maxWalkElements}")
  let qids ← getList (fun i => wrap s!"decode rwalk qid[{i}]" readQID) 0 nwqid.toNat
  return { qids }

theorem Rwalk.short_codec : CodecOn (2 + maxWalkElements * 13) Any Rwalk.encodeTo Rwalk.decodeFrom :=
  .failIfPut <|
  walkList_codec Rwalk.qids _ (fun i => qid_codec.wrap _ _) (by simp +contextual) fun qids h a => by
    cases a; simp only [Any, Rwalk.mk.injEq]; grind

theorem Rwalk.codec : CodecOn maxBody Any Rwalk.encodeTo Rwalk.decodeFrom := .mono (by decide) Rwalk.short_codec

structure Tread where
  fid : Fid
  offset : UInt64
  count : UInt32
  deriving DecidableEq, Inhabited

def Tread.encodeTo (m : Tread) : Writer Unit := do
  wrap "encode tread fid" (writeFid m.fid)
  wrap "encode tread offset" (writeUint64 m.offset)
  wrap "encode tread count" (writeUint32 m.count)

def Tread.decodeFrom : Reader Tread := do
  let fid ← wrap "decode tread fid" readFid
  let offset ← wrap "decode tread offset" readUint64
  let count ← wrap "decode tread count" readUint32
  return { fid, offset, count }

theorem Tread.codec : CodecOn maxBody Any Tread.encodeTo Tread.decodeFrom :=
  .mono (by decide) <|
  .fieldW fid_codec fun _ =>
  .fieldW uint64_codec fun _ =>
  .lastW uint32_codec

structure Rread where
  data : Bytes
  deriving DecidableEq, Inhabited

def Rread.encodeFixed (m : Rread) : Writer Unit := do
  failIf (m.data.length > maxDataSize)
    (.msg s!"encode rread count {m.data.length} exceeds maximum {maxDataSize}")
  writeUint32 (UInt32.ofNat m.data.length)

def Rread.encodeTo (m : Rread) : Writer Unit := do
  m.encodeFixed
  writePayload "encode rread data" m.data

def Rread.decodeFrom : Reader Rread := do
  let data ← readPayload "rread"
  return { data }

theorem Rread.codec : CodecOn maxBody Any Rread.encodeTo Rread.decodeFrom := by
  have henc : Rread.encodeTo = fun m => (do
      failIf (m.data.length > maxDataSize)
        (.msg s!"encode rread count {m.data.length} exceeds maximum {maxDataSize}")
      writeUint32 (UInt32.ofNat m.data.length)
      writePayload "encode rread data" m.data) := by
    funext m
    simp only [Rread.encodeTo, Rread.encodeFixed, bind_assoc]
  rw [henc]
  exact .mono (by decide) <| .failIfPut <|
    .lastOn _ _ (payload_codec "encode rread data" "rread" uint32_codec) (by simp +contextual)
      fun data h a => by cases a; simp only [Any, Rread.mk.injEq]; grind

structure Twrite where
  fid : Fid
  offset : UInt64
  data : Bytes
  deriving DecidableEq, Inhabited

def Twrite.encodeFixed (m : Twrite) : Writer Unit := do
  failIf (m.data.length > maxDataSize)
    (.msg s!"encode twrite count {m.data.length} exceeds maximum {maxDataSize}")
  wrap "encode twrite fid" (writeFid m.fid)
  wrap "encode twrite offset" (writeUint64 m.offset)
  wrap "encode twrite count" (writeUint32 (UInt32.ofNat m.data.length))

def Twrite.encodeTo (m : Twrite) : Writer Unit := do
  m.encodeFixed
  writePayload "encode twrite data" m.data

def Twrite.decodeFrom : Reader Twrite := do
  let fid ← wrap "decode twrite fid" readFid
  let offset ← wrap "decode twrite offset" readUint64
  let data ← readPayload "twrite"
  return { fid, offset, data }

theorem Twrite.codec : CodecOn maxBody Any Twrite.encodeTo Twrite.decodeFrom := by
  have henc : Twrite.encodeTo = fun m => (do
      failIf (m.data.length > maxDataSize)
        (.msg s!"encode twrite count {m.data.length} exceeds maximum {maxDataSize}")
      wrap "encode twrite fid" (writeFid m.fid)
      wrap "encode twrite offset" (writeUint64 m.offset)
      wrap "encode twrite count" (writeUint32 (UInt32.ofNat m.data.length))
      writePayload "encode twrite data" m.data) := by
    funext m
    simp only [Twrite.encodeTo, Twrite.encodeFixed, bind_assoc]
  rw [henc]
  exact .mono (by decide) <| .failIfPut <|
    .fieldW fid_codec fun _ =>
    .fieldW uint64_codec fun _ =>
    .lastOn _ _ (payload_codec "encode twrite data" "twrite" (uint32_codec.wrapPut (.wrap "encode twrite count")))
      (by simp +contextual) fun data h a => by cases a; simp only [Any, Twrite.mk.injEq]; grind

structure Rwrite where
  count : UInt32
  deriving DecidableEq, Inhabited

def Rwrite.encodeTo (m : Rwrite) : Writer Unit := do
  wrap "encode rwrite count" (writeUint32 m.count)

def Rwrite.decodeFrom : Reader Rwrite := do
  let count ← wrap "decode rwrite count" readUint32
  return { count }

theorem Rwrite.codec : CodecOn maxBody Any Rwrite.encodeTo Rwrite.decodeFrom := by
  unfold Rwrite.encodeTo
  exact .mono (by decide) (.only _ _ uint32_codec fun _ a => by cases a; simp)

structure Tclunk where
  fid : Fid
  deriving DecidableEq, Inhabited

def Tclunk.encodeTo (m : Tclunk) : Writer Unit := do
  wrap "encode tclunk fid" (writeFid m.fid)

def Tclunk.decodeFrom : Reader Tclunk := do
  let fid ← wrap "decode tclunk fid" readFid
  return { fid }

theorem Tclunk.codec : CodecOn maxBody Any Tclunk.encodeTo Tclunk.decodeFrom := by
  unfold Tclunk.encodeTo
  exact .mono (by decide) (.only _ _ fid_codec fun _ a => by cases a; simp)

structure Rclunk where
  deriving DecidableEq, Inhabited

def Rclunk.encodeTo (_ : Rclunk) : Writer Unit := pure ()

def Rclunk.decodeFrom : Reader Rclunk := pure {}

theorem Rclunk.codec : CodecOn maxBody Any Rclunk.encodeTo Rclunk.decodeFrom :=
  .mono (by decide) (.empty _ fun _ => by simp [Any])

structure Tremove where
  fid : Fid
  deriving DecidableEq, Inhabited

def Tremove.encodeTo (m : Tremove) : Writer Unit := do
  wrap "encode tremove fid" (writeFid m.fid)

def Tremove.decodeFrom : Reader Tremove := do
  let fid ← wrap "decode tremove fid" readFid
  return { fid }

theorem Tremove.codec : CodecOn maxBody Any Tremove.encodeTo Tremove.decodeFrom := by
  unfold Tremove.encodeTo
  exact .mono (by decide) (.only _ _ fid_codec fun _ a => by cases a; simp)

structure Rremove where
  deriving DecidableEq, Inhabited

def Rremove.encodeTo (_ : Rremove) : Writer Unit := pure ()

def Rremove.decodeFrom : Reader Rremove := pure {}

theorem Rremove.codec : CodecOn maxBody Any Rremove.encodeTo Rremove.decodeFrom :=
  .mono (by decide) (.empty _ fun _ => by simp [Any])

/-! ## The union of the shared messages -/

/-- A message of a type both dialects share. -/
inductive BaseMessage
  | tversion (m : Tversion)
  | rversion (m : Rversion)
  | tauth (m : Tauth)
  | rauth (m : Rauth)
  | tattach (m : Tattach)
  | rattach (m : Rattach)
  | tflush (m : Tflush)
  | rflush (m : Rflush)
  | twalk (m : Twalk)
  | rwalk (m : Rwalk)
  | tread (m : Tread)
  | rread (m : Rread)
  | twrite (m : Twrite)
  | rwrite (m : Rwrite)
  | tclunk (m : Tclunk)
  | rclunk (m : Rclunk)
  | tremove (m : Tremove)
  | rremove (m : Rremove)
  deriving DecidableEq

namespace BaseMessage

def type : BaseMessage → MessageType
  | .tversion _ => typeTversion
  | .rversion _ => typeRversion
  | .tauth _ => typeTauth
  | .rauth _ => typeRauth
  | .tattach _ => typeTattach
  | .rattach _ => typeRattach
  | .tflush _ => typeTflush
  | .rflush _ => typeRflush
  | .twalk _ => typeTwalk
  | .rwalk _ => typeRwalk
  | .tread _ => typeTread
  | .rread _ => typeRread
  | .twrite _ => typeTwrite
  | .rwrite _ => typeRwrite
  | .tclunk _ => typeTclunk
  | .rclunk _ => typeRclunk
  | .tremove _ => typeTremove
  | .rremove _ => typeRremove

def encodeTo : BaseMessage → Writer Unit
  | .tversion m | .rversion m | .tauth m | .rauth m | .tattach m | .rattach m | .tflush m | .rflush m | .twalk m
  | .rwalk m | .tread m | .rread m | .twrite m | .rwrite m | .tclunk m | .rclunk m | .tremove m
  | .rremove m => m.encodeTo

def decodeFrom : BaseMessage → Reader BaseMessage
  | .tversion _ => .tversion <$> Tversion.decodeFrom
  | .rversion _ => .rversion <$> Rversion.decodeFrom
  | .tauth _ => .tauth <$> Tauth.decodeFrom
  | .rauth _ => .rauth <$> Rauth.decodeFrom
  | .tattach _ => .tattach <$> Tattach.decodeFrom
  | .rattach _ => .rattach <$> Rattach.decodeFrom
  | .tflush _ => .tflush <$> Tflush.decodeFrom
  | .rflush _ => .rflush <$> Rflush.decodeFrom
  | .twalk _ => .twalk <$> Twalk.decodeFrom
  | .rwalk _ => .rwalk <$> Rwalk.decodeFrom
  | .tread _ => .tread <$> Tread.decodeFrom
  | .rread _ => .rread <$> Rread.decodeFrom
  | .twrite _ => .twrite <$> Twrite.decodeFrom
  | .rwrite _ => .rwrite <$> Rwrite.decodeFrom
  | .tclunk _ => .tclunk <$> Tclunk.decodeFrom
  | .rclunk _ => .rclunk <$> Rclunk.decodeFrom
  | .tremove _ => .tremove <$> Tremove.decodeFrom
  | .rremove _ => .rremove <$> Rremove.decodeFrom

instance : Message BaseMessage := ⟨type, encodeTo, decodeFrom⟩

theorem coded (m : BaseMessage) : Coded Any m := by
  cases m with
  | tversion a => exact .of Tversion.codec tversion
  | rversion a => exact .of Rversion.codec rversion
  | tauth a => exact .of Tauth.codec tauth
  | rauth a => exact .of Rauth.codec rauth
  | tattach a => exact .of Tattach.codec tattach
  | rattach a => exact .of Rattach.codec rattach
  | tflush a => exact .of Tflush.codec tflush
  | rflush a => exact .of Rflush.codec rflush
  | twalk a => exact .of Twalk.codec twalk
  | rwalk a => exact .of Rwalk.codec rwalk
  | tread a => exact .of Tread.codec tread
  | rread a => exact .of Rread.codec rread
  | twrite a => exact .of Twrite.codec twrite
  | rwrite a => exact .of Rwrite.codec rwrite
  | tclunk a => exact .of Tclunk.codec tclunk
  | rclunk a => exact .of Rclunk.codec rclunk
  | tremove a => exact .of Tremove.codec tremove
  | rremove a => exact .of Rremove.codec rremove

end BaseMessage

def newBaseMessage (t : MessageType) : Option BaseMessage :=
  match t with
  | typeTversion => some (.tversion default)
  | typeRversion => some (.rversion default)
  | typeTauth => some (.tauth default)
  | typeRauth => some (.rauth default)
  | typeTattach => some (.tattach default)
  | typeRattach => some (.rattach default)
  | typeTflush => some (.tflush default)
  | typeRflush => some (.rflush default)
  | typeTwalk => some (.twalk default)
  | typeRwalk => some (.rwalk default)
  | typeTread => some (.tread default)
  | typeRread => some (.rread default)
  | typeTwrite => some (.twrite default)
  | typeRwrite => some (.rwrite default)
  | typeTclunk => some (.tclunk default)
  | typeRclunk => some (.rclunk default)
  | typeTremove => some (.tremove default)
  | typeRremove => some (.rremove default)
  | _ => none

theorem newBaseMessage_type (m : BaseMessage) :
    ∃ z, newBaseMessage m.type = some z ∧ z.decodeFrom = m.decodeFrom := by
  cases m <;> exact ⟨_, rfl, rfl⟩

theorem type_of_newBaseMessage {t : MessageType} (h : newBaseMessage t = some z) : z.type = t := by
  unfold newBaseMessage at h
  split at h <;> cases h <;> rfl

end NineP.Proto
