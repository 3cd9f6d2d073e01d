import NineP.Handshake

/-!
# Requests off the wire

`negotiateVersion` and then `readFrameLocked` of `server/conn.go` on the bytes of a connection, with the message caches
of `internal/pool` and `Twrite.DecodeFromBuf`.  The parameters and the caches are those that stand when a frame is read.
-/

namespace NineP.Server.Decoding

open Codec Proto List
open Negotiation (Protocol Params Msg maxVersionFrame)
open Handshake (readVersion negotiateVersion)

/-! ## Recycled messages -/

/-- `pool.Cache`: the structs that were put back, as their last users left them. -/
structure Cache (α : Type) where
  ch : List α

/-- `Get`: a struct from the channel is set to its zero value, and a new one has it. -/
def Cache.get {α : Type} [Inhabited α] (c : Cache α) : α × Cache α := (default, ⟨c.ch.tail⟩)

/-- The caches of `server/msgcache_pools.go`. -/
structure Caches where
  tread : Cache Tread
  twrite : Cache Twrite
  twalk : Cache Twalk
  tclunk : Cache Tclunk
  tlopen : Cache P9l.Tlopen
  tgetattr : Cache P9l.Tgetattr
  tlcreate : Cache P9l.Tlcreate
  tremove : Cache Tremove
  tmkdir : Cache P9l.Tmkdir
  tsetattr : Cache P9l.Tsetattr
  trename : Cache P9l.Trename
  tsymlink : Cache P9l.Tsymlink
  tmknod : Cache P9l.Tmknod

/-- The struct that `conn.newMessage` takes for a type. -/
def Caches.newMessage (c : Caches) (p : Protocol) (t : MessageType) : Option Msg :=
  match t with
  | typeTwalk => some (.base (.twalk c.twalk.get.1))
  | typeTclunk => some (.base (.tclunk c.tclunk.get.1))
  | typeTread => some (.base (.tread c.tread.get.1))
  | typeTwrite => some (.base (.twrite c.twrite.get.1))
  | typeTremove => some (.base (.tremove c.tremove.get.1))
  | typeTlopen => if p = .l then some (.l (.tlopen c.tlopen.get.1)) else none
  | typeTlcreate => if p = .l then some (.l (.tlcreate c.tlcreate.get.1)) else none
  | typeTgetattr => if p = .l then some (.l (.tgetattr c.tgetattr.get.1)) else none
  | typeTsetattr => if p = .l then some (.l (.tsetattr c.tsetattr.get.1)) else none
  | typeTmkdir => if p = .l then some (.l (.tmkdir c.tmkdir.get.1)) else none
  | typeTsymlink => if p = .l then some (.l (.tsymlink c.tsymlink.get.1)) else none
  | typeTmknod => if p = .l then some (.l (.tmknod c.tmknod.get.1)) else none
  | typeTrename => if p = .l then some (.l (.trename c.trename.get.1)) else none
  | t => Negotiation.newMessage p t

theorem newMessage_eq (c : Caches) (p : Protocol) (t : MessageType) : c.newMessage p t = Negotiation.newMessage p t := by
  unfold Caches.newMessage
  split <;> first | rfl | (cases p <;> rfl)

/-! ## Frames -/

def decodeFromBuf (b : Bytes) : Except Err Twrite :=
  if b.length < 16 then .error (.msg s!"decode twrite: body too short ({b.length} < 16)")
  else
    let count := UInt32.ofNat (leAt 12 4 b)
    if count.toNat > maxDataSize then .error (.msg s!"decode twrite count {count} exceeds maximum {maxDataSize}")
    else if UInt32.ofNat (b.length - 16) < count then
      .error (.msg s!"decode twrite: data short, want {count} have {b.length - 16}")
    else .ok ⟨UInt32.ofNat (leAt 0 4 b), UInt64.ofNat (leAt 4 8 b), (b.drop 16).take count.toNat⟩

/-- What `readFrameLocked` has made of a body: the body of a Tversion is left to `handleReVersion`. -/
inductive Outcome
  | unknownType
  | version (body : Bytes)
  | msg (m : Msg)
  | decodeErr (e : Err)

/-- The body is decoded into a struct: bytes that the decoder leaves are dropped. -/
def decodeInto (z : Msg) (body : Bytes) : Outcome :=
  match z with
  | .base (.twrite _) =>
    match decodeFromBuf body with
    | .ok m => .msg (.base (.twrite m))
    | .error e => .decodeErr e
  | z =>
    match z.decodeFrom body with
    | .ok (m, _) => .msg m
    | .error e => .decodeErr e

/-- `recvFrame`, with the buffer that was read. -/
structure RecvFrame where
  size : UInt32
  b : Bytes
  msgType : MessageType
  tag : Tag
  outcome : Outcome

def RecvFrame.raw (f : RecvFrame) : Bytes := leBytes 4 f.size.toNat ++ f.b

/-- What is made of the buffer. -/
def parse (p : Params) (c : Caches) (size : UInt32) (b : Bytes) : RecvFrame :=
  let msgType := UInt8.ofNat (leAt 0 1 b)
  let body := b.drop 3
  { size, b, msgType
    tag := UInt16.ofNat (leAt 1 2 b)
    outcome :=
      match c.newMessage p.protocol msgType with
      | none => if msgType ≠ typeTversion then .unknownType else .version body
      | some z => if msgType = typeTversion then .version body else decodeInto z body }

def readFrameLocked (p : Params) (c : Caches) : Reader RecvFrame := do
  let size ← readSize
  failIf (size > p.msize) (.msg "message exceeds msize")
  let b ← readFull (size - 4).toNat
  return parse p c size b

/-- The requests that are read, up to the first read that shuts the receive path down. -/
def readFrames : List (Params × Caches) → Bytes → List RecvFrame
  | [], _ => []
  | (p, c) :: es, nc =>
    match readFrameLocked p c nc with
    | .error _ => []
    | .ok (f, rest) => f :: readFrames es rest

/-- A connection: the bytes of the frame that `negotiateVersion` reads, if it is a Tversion, and the requests after it. -/
def serve (maxMsize : UInt32) (es : List (Params × Caches)) (nc : Bytes) : List Bytes × List RecvFrame :=
  match readVersion maxMsize nc with
  | .error _ => ([], [])
  | .ok (_, rest) =>
    ([nc.take (nc.length - rest.length)],
      match (negotiateVersion maxMsize nc).2 with
      | .error _ => []
      | .ok _ => readFrames es rest)

/-! ## Segmentation -/

/-- The stream cut by its size prefixes, as far as the frames are complete. -/
def segments (nc : Bytes) : List Bytes :=
  if _h : 4 ≤ leAt 0 4 nc ∧ leAt 0 4 nc ≤ nc.length then nc.take (leAt 0 4 nc) :: segments (nc.drop (leAt 0 4 nc)) else []
  termination_by nc.length
  decreasing_by
    rw [length_drop]
    omega

variable {b nc rest body : Bytes} {p : Params} {c : Caches} {f : RecvFrame} {maxMsize : UInt32} {r : Tag × Tversion}
  {es : List (Params × Caches)} {k : Nat} {z z' : Msg} {t : MessageType}

theorem segments_frame (rest : Bytes) (hb : b.length + 4 = size) (hsize : size < 2 ^ 32) :
    segments (leBytes 4 size ++ b ++ rest) = (leBytes 4 size ++ b) :: segments rest := by
  have hlen : (leBytes 4 size ++ b).length = size := by
    rw [length_append, length_leBytes]
    omega
  have hat : leAt 0 4 (leBytes 4 size ++ b ++ rest) = size := by
    have h : leAt 0 4 ([] ++ (leBytes 4 size ++ (b ++ rest))) = size := leAt_leBytes rfl (by omega)
    rwa [nil_append, ← append_assoc] at h
  rw [segments, hat, dif_pos ⟨by omega, by simp only [length_append, length_leBytes]; omega⟩,
    take_left' hlen, drop_left' hlen]

theorem segments_flatten (nc : Bytes) : (segments nc).flatten <+: nc := by
  induction nc using segments.induct with
  | case1 nc h ih =>
    rw [segments, dif_pos h, flatten_cons]
    conv_rhs => rw [← take_append_drop (leAt 0 4 nc) nc]
    exact (prefix_append_right_inj _).2 ih
  | case2 nc h =>
    rw [segments, dif_neg h]
    exact nil_prefix

/-! ## Reads -/

theorem readSize_ok (h : readSize nc = .ok (size, rest)) :
    nc = leBytes 4 size.toNat ++ rest ∧ 7 ≤ size.toNat := by
  obtain ⟨v, rest', hv, h⟩ := bind_ok.1 h
  obtain ⟨hmin, h⟩ := failIf_bind_ok.1 h
  obtain ⟨rfl, rfl⟩ : v = size ∧ rest' = rest := by simpa using h
  exact ⟨readUint32_ok.1 hv, UInt32.not_lt.1 hmin⟩

theorem readFrameLocked_ok (h : readFrameLocked p c nc = .ok (f, rest)) :
    nc = f.raw ++ rest ∧ f.b.length + 4 = f.size.toNat ∧ 7 ≤ f.size.toNat ∧ f.size.toNat ≤ p.msize.toNat ∧
      f = parse p c f.size f.b := by
  obtain ⟨size, nc₁, hsize, h⟩ := bind_ok.1 h
  obtain ⟨hnc, hmin⟩ := readSize_ok hsize
  obtain ⟨hmax, h⟩ := failIf_bind_ok.1 h
  obtain ⟨b, nc₂, hb, h⟩ := bind_ok.1 h
  obtain ⟨hnc₁, hlen⟩ := take_ok.1 hb
  obtain ⟨rfl, rfl⟩ : parse p c size b = f ∧ nc₂ = rest := by simpa using h
  have hsub : (size - 4).toNat = size.toNat - 4 := UInt32.toNat_sub_of_le _ _ (show 4 ≤ size.toNat by omega)
  refine ⟨by simp [hnc, hnc₁, RecvFrame.raw, parse], ?_, hmin, UInt32.not_lt.1 hmax, rfl⟩
  show b.length + 4 = size.toNat
  omega

theorem readVersion_ok (h : readVersion maxMsize nc = .ok (r, rest)) :
    ∃ (size : UInt32) (b : Bytes), nc = leBytes 4 size.toNat ++ b ++ rest ∧ b.length + 4 = size.toNat ∧
      7 ≤ size.toNat ∧ size.toNat ≤ (min maxMsize maxVersionFrame).toNat := by
  obtain ⟨size, nc₁, hsize, h⟩ := bind_ok.1 h
  obtain ⟨hnc, hmin⟩ := readSize_ok (wrapErr_ok.1 hsize)
  obtain ⟨hmax, h⟩ := failIf_bind_ok.1 h
  obtain ⟨t, nc₂, ht, h⟩ := bind_ok.1 h
  have hnc₁ := readUint8_ok.1 (wrapErr_ok.1 ht)
  obtain ⟨-, h⟩ := failIf_bind_ok.1 h
  obtain ⟨tag, nc₃, htag, h⟩ := bind_ok.1 h
  have hnc₂ := readUint16_ok.1 (wrapErr_ok.1 htag)
  obtain ⟨body, nc₄, hbody, h⟩ := bind_ok.1 h
  obtain ⟨hnc₃, hlen⟩ := take_ok.1 (wrapErr_ok.1 hbody)
  obtain ⟨x, nc₅, hx, h⟩ := bind_ok.1 h
  obtain ⟨-, rfl⟩ := result_ok.1 hx
  obtain ⟨-, rfl⟩ : (tag, x.1) = r ∧ nc₄ = rest := by simpa using h
  have hsub : (size - headerSize).toNat = size.toNat - 7 := UInt32.toNat_sub_of_le _ _ hmin
  refine ⟨size, t :: (leBytes 2 tag.toNat ++ body), by simp [hnc, hnc₁, hnc₂, hnc₃], ?_, hmin, UInt32.not_lt.1 hmax⟩
  simp only [length_cons, length_append, length_leBytes]
  omega

theorem readFrames_segments (es : List (Params × Caches)) (nc : Bytes) :
    (readFrames es nc).map RecvFrame.raw <+: segments nc := by
  induction es generalizing nc with
  | nil => exact nil_prefix
  | cons e es ih =>
    rw [readFrames]
    split
    · exact nil_prefix
    · rename_i f rest hread
      obtain ⟨rfl, hlen, -, -, -⟩ := readFrameLocked_ok hread
      rw [RecvFrame.raw, segments_frame rest hlen f.size.toNat_lt]
      exact (prefix_append_right_inj [f.raw]).2 (ih rest)

/-- The frame of the `k`-th read, under the parameters and caches that stood then. -/
theorem readFrames_get (h : (readFrames es nc)[k]? = some f) :
    ∃ p c, es[k]? = some (p, c) ∧ f.b.length + 4 = f.size.toNat ∧ 7 ≤ f.size.toNat ∧ f.size.toNat ≤ p.msize.toNat ∧
      f = parse p c f.size f.b := by
  induction es generalizing nc k with
  | nil => cases h
  | cons e es ih =>
    rw [readFrames] at h
    split at h
    · cases h
    · rename_i g rest hread
      cases k with
      | zero =>
        obtain rfl : g = f := by simpa using h
        exact ⟨e.1, e.2, rfl, (readFrameLocked_ok hread).2⟩
      | succ k => exact ih h

/-! ## Decoders -/

theorem decodeFromBuf_ok (h : Twrite.decodeFrom b = .ok (m, [])) : decodeFromBuf b = .ok m := by
  obtain ⟨fid, b₁, hfid, h⟩ := bind_ok.1 h
  obtain ⟨offset, b₂, hoffset, h⟩ := bind_ok.1 h
  obtain ⟨data, b₃, hdata, h⟩ := bind_ok.1 h
  obtain ⟨rfl, rfl⟩ : ⟨fid, offset, data⟩ = m ∧ b₃ = [] := by simpa using h
  obtain ⟨count, b₄, hcount, hdata⟩ := bind_ok.1 hdata
  obtain ⟨hmax, hdata⟩ := failIf_bind_ok.1 hdata
  obtain ⟨hb₄, hdlen⟩ := readData_ok.1 (wrapErr_ok.1 hdata)
  have hb₂ : b₂ = leBytes 4 count.toNat ++ data := by rw [readUint32_ok.1 (wrapErr_ok.1 hcount), hb₄, append_nil]
  have hb₁ : b₁ = leBytes 8 offset.toNat ++ b₂ := uint64_codec.get_ok_iff.1 (wrapErr_ok.1 hoffset)
  have hb : b = leBytes 4 fid.toNat ++ b₁ := readUint32_ok.1 (wrapErr_ok.1 hfid)
  have hblen : b.length = 16 + count.toNat := by
    rw [hb, hb₁, hb₂]
    simp only [length_append, length_leBytes]
    omega
  have hat₀ : leAt 0 4 b = fid.toNat := by
    rw [hb, ← nil_append (leBytes 4 fid.toNat ++ b₁)]
    exact leAt_leBytes rfl fid.toNat_lt
  have hat₄ : leAt 4 8 b = offset.toNat := by
    rw [hb, hb₁]
    exact leAt_leBytes (length_leBytes _ _) offset.toNat_lt
  have hpre : (leBytes 4 fid.toNat ++ leBytes 8 offset.toNat).length = 12 := by
    rw [length_append, length_leBytes, length_leBytes]
  have hat₁₂ : leAt 12 4 b = count.toNat := by
    rw [hb, hb₁, hb₂, ← append_assoc]
    exact leAt_leBytes hpre count.toNat_lt
  have hdrop : b.drop 16 = data := by
    rw [hb, hb₁, hb₂, ← append_assoc, ← append_assoc]
    refine drop_left' ?_
    rw [length_append, hpre, length_leBytes]
  have hleft : UInt32.ofNat (b.length - 16) = count := by rw [hblen, Nat.add_sub_cancel_left, UInt32.ofNat_toNat]
  unfold decodeFromBuf
  rw [if_neg (by omega), hat₀, hat₄, hat₁₂, hleft, hdrop, UInt32.ofNat_toNat, UInt32.ofNat_toNat, UInt64.ofNat_toNat]
  show (if count.toNat > maxDataSize then _ else if count < count then _ else _) = _
  rw [if_neg hmax, if_neg (UInt32.lt_irrefl count), ← hdlen, take_length]

/-- A message of the `.L` dialect among those that the server knows. -/
def ofL : P9l.Msg → Msg
  | .base m => .base m
  | m => .l m

def ofU : P9u.Msg → Msg
  | .base m => .base m
  | m => .u m

theorem decodeInto_other (hz : ∀ w, z ≠ .base (.twrite w)) (h : z.decodeFrom body = .ok (m, rest)) :
    decodeInto z body = .msg m := by
  unfold decodeInto
  split
  · exact absurd rfl (hz _)
  · rw [h]

theorem decodeInto_base {z : BaseMessage} (h : z.decodeFrom body = .ok (m, [])) :
    decodeInto (.base z) body = .msg (.base m) := by
  cases z with
  | twrite w =>
    obtain ⟨a, ha, rfl⟩ := map_ok.1 h
    show (match decodeFromBuf body with | .ok m => Outcome.msg (.base (.twrite m)) | .error e => .decodeErr e) = _
    rw [decodeFromBuf_ok ha]
  | _ => exact decodeInto_other nofun (bind_of_ok h)

theorem decodeInto_l {z : P9l.Msg} (h : z.decodeFrom body = .ok (m, [])) :
    decodeInto (ofL z) body = .msg (ofL m) := by
  cases z with
  | base z =>
    obtain ⟨a, ha, rfl⟩ := map_ok.1 h
    exact decodeInto_base ha
  | _ =>
    obtain ⟨a, -, rfl⟩ := map_ok.1 h
    exact decodeInto_other nofun (bind_of_ok h)

theorem decodeInto_u {z : P9u.Msg} (h : z.decodeFrom body = .ok (m, [])) :
    decodeInto (ofU z) body = .msg (ofU m) := by
  cases z with
  | base z =>
    obtain ⟨a, ha, rfl⟩ := map_ok.1 h
    exact decodeInto_base ha
  | _ =>
    obtain ⟨a, -, rfl⟩ := map_ok.1 h
    exact decodeInto_other nofun (bind_of_ok h)

theorem newMessage_l {z : P9l.Msg} (h : P9l.newMessage t = .ok z) (h' : Negotiation.newMessage .l t = some z') :
    z' = ofL z := by
  unfold Negotiation.newMessage at h'
  split at h'
  case h_9 =>
    simp only [Negotiation.newLMessage] at h'
    split at h' <;> cases h' <;> cases h <;> rfl
  all_goals
    cases h'
    cases h
    rfl

theorem newMessage_u {z : P9u.Msg} (h : P9u.newMessage t = .ok z) (h' : Negotiation.newMessage .u t = some z') :
    z' = ofU z := by
  unfold Negotiation.newMessage at h'
  split at h'
  case h_9 =>
    simp only [Negotiation.newUMessage] at h'
    split at h' <;> cases h' <;> cases h <;> rfl
  all_goals
    cases h'
    cases h
    rfl

theorem newMessage_version (p : Protocol) : Negotiation.newMessage p typeTversion = none := by cases p <;> rfl

/-! ## Frames that `Decode` accepts -/

theorem parse_frame (p : Params) (c : Caches) (size : UInt32) (t : MessageType) (tag : Tag) (body : Bytes)
    (ht : t ≠ typeTversion) (hz : Negotiation.newMessage p.protocol t = some z) :
    (parse p c size (t :: (leBytes 2 tag.toNat ++ body))).tag = tag ∧
      (parse p c size (t :: (leBytes 2 tag.toNat ++ body))).outcome = decodeInto z body := by
  have hat₀ : UInt8.ofNat (leAt 0 1 (t :: (leBytes 2 tag.toNat ++ body))) = t := by simp [leAt, leNat]
  have hat₁ : leAt 1 2 ([t] ++ (leBytes 2 tag.toNat ++ body)) = tag.toNat := leAt_leBytes rfl tag.toNat_lt
  have hdrop : (t :: (leBytes 2 tag.toNat ++ body)).drop 3 = body := by
    rw [drop_succ_cons]
    exact drop_left' (length_leBytes _ _)
  refine ⟨?_, ?_⟩
  · show UInt16.ofNat (leAt 1 2 ([t] ++ (leBytes 2 tag.toNat ++ body))) = tag
    rw [hat₁, UInt16.ofNat_toNat]
  · simp only [parse, hat₀, hdrop, newMessage_eq, hz, if_neg ht]

theorem parse_decoded {M : Type} [Message M] {newM : MessageType → Except Err M} {S : M → Prop} {of : M → Msg}
    {tag : Tag} {m : M} (d : Dialect newM S)
    (hnew : ∀ {t z z'}, newM t = .ok z → Negotiation.newMessage p.protocol t = some z' → z' = of z)
    (hinto : ∀ {z m : M} {body : Bytes}, Message.decodeFrom z body = .ok (m, []) → decodeInto (of z) body = .msg (of m))
    (hf : f = parse p c f.size f.b) (hdec : decodeFrame newM f.raw = .ok ((tag, m), []))
    (hknown : (Negotiation.newMessage p.protocol (Message.type m)).isSome) :
    f.tag = tag ∧ f.outcome = .msg (of m) := by
  obtain ⟨t, z, body, -, hz, hbody, hraw⟩ := decodeFrame_ok.1 hdec
  obtain ⟨-, rfl, -⟩ := d.bwd hz hbody
  obtain ⟨z', hz'⟩ := Option.isSome_iff_exists.1 hknown
  have ht : Message.type m ≠ typeTversion := by
    intro ht
    rw [ht, newMessage_version] at hz'
    cases hz'
  have hb : f.b = Message.type m :: (leBytes 2 tag.toNat ++ body) := by
    rw [append_nil] at hraw
    exact (append_inj hraw (by rw [length_leBytes, length_leBytes])).2
  obtain ⟨htag, hout⟩ := parse_frame p c f.size (Message.type m) tag body ht hz'
  rw [← hb, ← hf] at htag hout
  exact ⟨htag, hout.trans (hnew hz hz' ▸ hinto hbody)⟩

/-- A frame that `Decode` of the dialect accepts, of a type that the server knows, was decoded to the same message. -/
def Agrees (p : Params) (f : RecvFrame) : Prop :=
  (∀ tag m, p.protocol = .l → P9l.decode f.raw = .ok ((tag, m), []) →
    (Negotiation.newMessage .l m.type).isSome → f.tag = tag ∧ f.outcome = .msg (ofL m)) ∧
  ∀ tag m, p.protocol = .u → P9u.decode f.raw = .ok ((tag, m), []) →
    (Negotiation.newMessage .u m.type).isSome → f.tag = tag ∧ f.outcome = .msg (ofU m)

theorem readFrames_agree (h : (readFrames es nc)[k]? = some f) :
    ∃ p c, es[k]? = some (p, c) ∧ 7 ≤ f.raw.length ∧ f.raw.length ≤ p.msize.toNat ∧ Agrees p f := by
  obtain ⟨p, c, he, hlen, hmin, hmax, hf⟩ := readFrames_get h
  have hraw : f.raw.length = f.size.toNat := by
    rw [RecvFrame.raw, length_append, length_leBytes]
    omega
  refine ⟨p, c, he, by omega, by omega, fun tag m hp hdec hknown => ?_, fun tag m hp hdec hknown => ?_⟩
  · exact parse_decoded P9l.dialect (hp ▸ newMessage_l) decodeInto_l hf hdec (hp ▸ hknown)
  · exact parse_decoded P9u.dialect (hp ▸ newMessage_u) decodeInto_u hf hdec (hp ▸ hknown)

theorem serve_ok (es : List (Params × Caches)) (hread : readVersion maxMsize nc = .ok (r, rest)) :
    ∃ reqs, serve maxMsize es nc = ([nc.take (nc.length - rest.length)], reqs) ∧
      (reqs = [] ∨ reqs = readFrames es rest) := by
  rw [serve, hread]
  cases (negotiateVersion maxMsize nc).2 with
  | error e => exact ⟨[], rfl, .inl rfl⟩
  | ok p => exact ⟨readFrames es rest, rfl, .inr rfl⟩

/-- **Requests off the wire.**  The frames that a connection reads are the first ones of its stream, each within the
bound that stood when it was read; and what `Decode` of the dialect makes of one is what the handlers get. -/
theorem requests_decode (maxMsize : UInt32) (es : List (Params × Caches)) (nc : Bytes) :
    (serve maxMsize es nc).1 ++ (serve maxMsize es nc).2.map RecvFrame.raw <+: segments nc ∧
    (segments nc).flatten <+: nc ∧
    (∀ raw ∈ (serve maxMsize es nc).1, 7 ≤ raw.length ∧ raw.length ≤ (min maxMsize maxVersionFrame).toNat) ∧
    ∀ (k : Nat) (f : RecvFrame), (serve maxMsize es nc).2[k]? = some f → ∃ p c, es[k]? = some (p, c) ∧
      7 ≤ f.raw.length ∧ f.raw.length ≤ p.msize.toNat ∧ Agrees p f := by
  cases hread : readVersion maxMsize nc with
  | error e =>
    rw [show serve maxMsize es nc = ([], []) by rw [serve, hread]]
    exact ⟨List.nil_prefix, segments_flatten nc, nofun, nofun⟩
  | ok r =>
    obtain ⟨r, rest⟩ := r
    obtain ⟨reqs, hserve, hreqs⟩ := serve_ok es hread
    obtain ⟨size, b, hnc, hlen, hmin, hmax⟩ := readVersion_ok hread
    have hraw : (leBytes 4 size.toNat ++ b).length = size.toNat := by
      rw [length_append, length_leBytes]
      omega
    have htake : nc.take (nc.length - rest.length) = leBytes 4 size.toNat ++ b := by
      rw [hnc, length_append, Nat.add_sub_cancel, take_left]
    rw [hserve, htake]
    refine ⟨?_, segments_flatten nc, fun raw hmem => ?_, fun k f h => ?_⟩
    · rw [hnc, segments_frame rest hlen size.toNat_lt]
      refine (prefix_append_right_inj [leBytes 4 size.toNat ++ b]).2 ?_
      obtain rfl | rfl := hreqs
      · exact nil_prefix
      · exact readFrames_segments es rest
    · rw [mem_singleton.1 hmem, hraw]
      exact ⟨hmin, hmax⟩
    · obtain rfl | rfl := hreqs
      · cases h
      · exact readFrames_agree h

end NineP.Server.Decoding
