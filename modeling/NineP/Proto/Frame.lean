import NineP.Lib.Framing
import NineP.Proto.Wire

/-!
# Message types and frames

Every message travels as `size[4] type[1] tag[2] body`.  `encodeFrame` and `decodeFrame` model
`proto/frame.go` over the interface `Message`; the dialects supply the constructor of empty messages.
-/

namespace NineP.Proto

open Codec

/-! ## Message types -/

@[match_pattern] def typeTlerror : MessageType := 6
@[match_pattern] def typeRlerror : MessageType := 7
@[match_pattern] def typeTstatfs : MessageType := 8
@[match_pattern] def typeRstatfs : MessageType := 9
@[match_pattern] def typeTlopen : MessageType := 12
@[match_pattern] def typeRlopen : MessageType := 13
@[match_pattern] def typeTlcreate : MessageType := 14
@[match_pattern] def typeRlcreate : MessageType := 15
@[match_pattern] def typeTsymlink : MessageType := 16
@[match_pattern] def typeRsymlink : MessageType := 17
@[match_pattern] def typeTmknod : MessageType := 18
@[match_pattern] def typeRmknod : MessageType := 19
@[match_pattern] def typeTrename : MessageType := 20
@[match_pattern] def typeRrename : MessageType := 21
@[match_pattern] def typeTreadlink : MessageType := 22
@[match_pattern] def typeRreadlink : MessageType := 23
@[match_pattern] def typeTgetattr : MessageType := 24
@[match_pattern] def typeRgetattr : MessageType := 25
@[match_pattern] def typeTsetattr : MessageType := 26
@[match_pattern] def typeRsetattr : MessageType := 27
@[match_pattern] def typeTxattrwalk : MessageType := 30
@[match_pattern] def typeRxattrwalk : MessageType := 31
@[match_pattern] def typeTxattrcreate : MessageType := 32
@[match_pattern] def typeRxattrcreate : MessageType := 33
@[match_pattern] def typeTreaddir : MessageType := 40
@[match_pattern] def typeRreaddir : MessageType := 41
@[match_pattern] def typeTfsync : MessageType := 50
@[match_pattern] def typeRfsync : MessageType := 51
@[match_pattern] def typeTlock : MessageType := 52
@[match_pattern] def typeRlock : MessageType := 53
@[match_pattern] def typeTgetlock : MessageType := 54
@[match_pattern] def typeRgetlock : MessageType := 55
@[match_pattern] def typeTlink : MessageType := 70
@[match_pattern] def typeRlink : MessageType := 71
@[match_pattern] def typeTmkdir : MessageType := 72
@[match_pattern] def typeRmkdir : MessageType := 73
@[match_pattern] def typeTrenameat : MessageType := 74
@[match_pattern] def typeRrenameat : MessageType := 75
@[match_pattern] def typeTunlinkat : MessageType := 76
@[match_pattern] def typeRunlinkat : MessageType := 77
@[match_pattern] def typeTversion : MessageType := 100
@[match_pattern] def typeRversion : MessageType := 101
@[match_pattern] def typeTauth : MessageType := 102
@[match_pattern] def typeRauth : MessageType := 103
@[match_pattern] def typeTattach : MessageType := 104
@[match_pattern] def typeRattach : MessageType := 105
@[match_pattern] def typeTerror : MessageType := 106
@[match_pattern] def typeRerror : MessageType := 107
@[match_pattern] def typeTflush : MessageType := 108
@[match_pattern] def typeRflush : MessageType := 109
@[match_pattern] def typeTwalk : MessageType := 110
@[match_pattern] def typeRwalk : MessageType := 111
@[match_pattern] def typeTopen : MessageType := 112
@[match_pattern] def typeRopen : MessageType := 113
@[match_pattern] def typeTcreate : MessageType := 114
@[match_pattern] def typeRcreate : MessageType := 115
@[match_pattern] def typeTread : MessageType := 116
@[match_pattern] def typeRread : MessageType := 117
@[match_pattern] def typeTwrite : MessageType := 118
@[match_pattern] def typeRwrite : MessageType := 119
@[match_pattern] def typeTclunk : MessageType := 120
@[match_pattern] def typeRclunk : MessageType := 121
@[match_pattern] def typeTremove : MessageType := 122
@[match_pattern] def typeRremove : MessageType := 123
@[match_pattern] def typeTstat : MessageType := 124
@[match_pattern] def typeRstat : MessageType := 125
@[match_pattern] def typeTwstat : MessageType := 126
@[match_pattern] def typeRwstat : MessageType := 127

def messageTypeString (t : MessageType) : String :=
  match t with
  | typeTlerror => "Tlerror"
  | typeRlerror => "Rlerror"
  | typeTstatfs => "Tstatfs"
  | typeRstatfs => "Rstatfs"
  | typeTlopen => "Tlopen"
  | typeRlopen => "Rlopen"
  | typeTlcreate => "Tlcreate"
  | typeRlcreate => "Rlcreate"
  | typeTsymlink => "Tsymlink"
  | typeRsymlink => "Rsymlink"
  | typeTmknod => "Tmknod"
  | typeRmknod => "Rmknod"
  | typeTrename => "Trename"
  | typeRrename => "Rrename"
  | typeTreadlink => "Treadlink"
  | typeRreadlink => "Rreadlink"
  | typeTgetattr => "Tgetattr"
  | typeRgetattr => "Rgetattr"
  | typeTsetattr => "Tsetattr"
  | typeRsetattr => "Rsetattr"
  | typeTxattrwalk => "Txattrwalk"
  | typeRxattrwalk => "Rxattrwalk"
  | typeTxattrcreate => "Txattrcreate"
  | typeRxattrcreate => "Rxattrcreate"
  | typeTreaddir => "Treaddir"
  | typeRreaddir => "Rreaddir"
  | typeTfsync => "Tfsync"
  | typeRfsync => "Rfsync"
  | typeTlock => "Tlock"
  | typeRlock => "Rlock"
  | typeTgetlock => "Tgetlock"
  | typeRgetlock => "Rgetlock"
  | typeTlink => "Tlink"
  | typeRlink => "Rlink"
  | typeTmkdir => "Tmkdir"
  | typeRmkdir => "Rmkdir"
  | typeTrenameat => "Trenameat"
  | typeRrenameat => "Rrenameat"
  | typeTunlinkat => "Tunlinkat"
  | typeRunlinkat => "Runlinkat"
  | typeTversion => "Tversion"
  | typeRversion => "Rversion"
  | typeTauth => "Tauth"
  | typeRauth => "Rauth"
  | typeTattach => "Tattach"
  | typeRattach => "Rattach"
  | typeTerror => "Terror"
  | typeRerror => "Rerror"
  | typeTflush => "Tflush"
  | typeRflush => "Rflush"
  | typeTwalk => "Twalk"
  | typeRwalk => "Rwalk"
  | typeTopen => "Topen"
  | typeRopen => "Ropen"
  | typeTcreate => "Tcreate"
  | typeRcreate => "Rcreate"
  | typeTread => "Tread"
  | typeRread => "Rread"
  | typeTwrite => "Twrite"
  | typeRwrite => "Rwrite"
  | typeTclunk => "Tclunk"
  | typeRclunk => "Rclunk"
  | typeTremove => "Tremove"
  | typeRremove => "Rremove"
  | typeTstat => "Tstat"
  | typeRstat => "Rstat"
  | typeTwstat => "Twstat"
  | typeRwstat => "Rwstat"
  | _ => s!"MessageType({t})"

/-! ## Frames -/

/-- The most a body may take: `maxMessageSize` less the header. -/
def maxBody : Nat := 16777216 + 4096

/-- The interface `Message`: `decodeFrom` fills a message that `newMessage` made. -/
class Message (M : Type) where
  type : M → MessageType
  encodeTo : M → Writer Unit
  decodeFrom : M → Reader M

/-- Messages whose bodies are never longer than `maxBody`, also those that the decoder would refuse. -/
class BoundedMessage (M : Type) [Message M] : Prop where
  writesLe : ∀ m : M, WritesLe maxBody (Message.encodeTo m)

section Frame

variable {M : Type} [Message M]

def zeroHeader : Bytes := List.replicate headerSize.toNat 0

/-- Overwrite the bytes of `b` from position `i` on. -/
def putAt (i : Nat) (bs b : Bytes) : Bytes := b.take i ++ bs ++ b.drop (i + bs.length)

/-- `EncodeFrame`: the body is written after an empty header, which is then filled in. -/
def encodeFrame (tag : Tag) (msg : M) : Writer Unit := fun w =>
  match wrap s!"encode {messageTypeString (Message.type msg)} body" (Message.encodeTo msg) zeroHeader with
  | .error e => .error e
  | .ok ((), b) =>
    let b := putAt 0 (leBytes 4 b.length) b
    let b := putAt 4 [Message.type msg] b
    let b := putAt 5 (leBytes 2 tag.toNat) b
    put b w

/-- `DecodeFrame`: the declared body is read in full, decoded, and must be used up. -/
def decodeFrame (newMessage : MessageType → Except Err M) : Reader (Tag × M) := do
  let size ← wrap "decode size" readUint32
  failIf (size < headerSize) (.msg s!"message size {size} too small (minimum {headerSize})")
  failIf (size > maxMessageSize) (.msg s!"message size {size} exceeds maximum {maxMessageSize}")
  let msgType ← wrap "decode type" readUint8
  let tag ← wrap "decode tag" readUint16
  let msg ← result (newMessage msgType)
  let body := s!"decode {messageTypeString (Message.type msg)} body"
  let buf ← wrap body (readFull (size - headerSize).toNat)
  let r ← result (wrap body (Message.decodeFrom msg) buf)
  failIf (r.2 ≠ []) (.msg s!"{body}: {r.2.length} trailing bytes")
  return (tag, r.1)

/-! ## Whole frames -/

/-- A dialect is lawful on `S` when the message its constructor makes for a type decodes exactly the bodies of
that type. -/
structure Dialect (newMessage : MessageType → Except Err M) (S : M → Prop) : Prop where
  fwd : ∀ {m : M} {buf buf' : Bytes}, S m → Message.encodeTo m buf = .ok ((), buf') →
    ∃ z b, newMessage (Message.type m) = .ok z ∧ buf' = buf ++ b ∧ b.length ≤ maxBody ∧
      ∀ rest, Message.decodeFrom z (b ++ rest) = .ok (m, rest)
  bwd : ∀ {t : MessageType} {z m : M} {bs rest : Bytes}, newMessage t = .ok z →
    Message.decodeFrom z bs = .ok (m, rest) →
    S m ∧ Message.type m = t ∧ ∃ b, bs = b ++ rest ∧ ∀ buf, Message.encodeTo m buf = .ok ((), buf ++ b)

/-- The bodies of the messages of one type. -/
structure Coded (S : M → Prop) (m : M) : Prop where
  fwd : ∀ {buf buf' : Bytes}, S m → Message.encodeTo m buf = .ok ((), buf') →
    ∃ b, buf' = buf ++ b ∧ b.length ≤ maxBody ∧ ∀ rest, Message.decodeFrom m (b ++ rest) = .ok (m, rest)
  bwd : ∀ {m' : M} {bs rest : Bytes}, Message.decodeFrom m bs = .ok (m', rest) →
    S m' ∧ Message.type m' = Message.type m ∧ ∃ b, bs = b ++ rest ∧ ∀ buf, Message.encodeTo m' buf = .ok ((), buf ++ b)

/-- A codec for the contents of a variant. -/
theorem Coded.of {α : Type} {T : α → Prop} {S : M → Prop} {p : α → Writer Unit} {g : Reader α} (c : CodecOn maxBody T p g)
    (k : α → M) {a : α} (hS : ∀ b, S (k b) ↔ T b := by exact fun _ => .rfl)
    (hp : ∀ b, Message.encodeTo (k b) = p b := by exact fun _ => rfl)
    (hg : Message.decodeFrom (k a) = k <$> g := by rfl)
    (ht : ∀ b, Message.type (k b) = Message.type (k a) := by exact fun _ => rfl) : Coded S (k a) where
  fwd hm h := by
    obtain ⟨b, hb, hn, hdec⟩ := c.fwd ((hS a).1 hm) (hp a ▸ h)
    refine ⟨b, hb, hn, fun rest => ?_⟩
    rw [hg]
    exact map_ok.2 ⟨a, hdec rest, rfl⟩
  bwd h := by
    rw [hg] at h
    obtain ⟨a', ha, rfl⟩ := map_ok.1 h
    obtain ⟨hT, b, hb, hpa⟩ := c.bwd ha
    exact ⟨(hS a').2 hT, ht a', b, hb, by rwa [hp a']⟩

/-- The messages of another union. -/
theorem Coded.lift {N : Type} [Message N] {S : M → Prop} {a : N} (c : Coded Any a) (k : N → M)
    (hS : ∀ b, S (k b) := by exact fun _ => trivial)
    (hp : ∀ b, Message.encodeTo (k b) = Message.encodeTo b := by exact fun _ => rfl)
    (hg : Message.decodeFrom (k a) = k <$> Message.decodeFrom a := by rfl)
    (ht : ∀ b, Message.type (k b) = Message.type b := by exact fun _ => rfl) : Coded S (k a) where
  fwd _ h := by
    obtain ⟨b, hb, hn, hdec⟩ := c.fwd trivial (hp a ▸ h)
    refine ⟨b, hb, hn, fun rest => ?_⟩
    rw [hg]
    exact map_ok.2 ⟨a, hdec rest, rfl⟩
  bwd h := by
    rw [hg] at h
    obtain ⟨a', ha, rfl⟩ := map_ok.1 h
    obtain ⟨-, htype, b, hb, hpa⟩ := c.bwd ha
    exact ⟨hS a', by rw [ht, ht, htype], b, hb, by rwa [hp a']⟩

variable {newMessage : MessageType → Except Err M} {S : M → Prop} {tag : Tag} {m : M} {body : Bytes} {n : UInt32}

theorem Dialect.of_coded (hcoded : ∀ m, Coded S m)
    (hnew : ∀ m : M, ∃ z, newMessage (Message.type m) = .ok z ∧ Message.decodeFrom z = Message.decodeFrom m)
    (htype : ∀ {t z}, newMessage t = .ok z → Message.type z = t) : Dialect newMessage S where
  fwd {m buf buf'} hm h := by
    obtain ⟨b, hb, hn, hg⟩ := (hcoded m).fwd hm h
    obtain ⟨z, hz, hd⟩ := hnew m
    exact ⟨z, b, hz, hb, hn, fun rest => (congrFun hd _).trans (hg rest)⟩
  bwd hz h := by
    obtain ⟨hm, ht, hb⟩ := (hcoded _).bwd h
    exact ⟨hm, ht.trans (htype hz), hb⟩

def frameBytes (t : MessageType) (tag : Tag) (body : Bytes) : Bytes :=
  leBytes 4 (7 + body.length) ++ t :: (leBytes 2 tag.toNat ++ body)

theorem putAt_header (t : MessageType) (tag : Tag) (body : Bytes) :
    putAt 5 (leBytes 2 tag.toNat) (putAt 4 [t] (putAt 0 (leBytes 4 (zeroHeader ++ body).length)
      (zeroHeader ++ body))) = frameBytes t tag body := by
  have hz : zeroHeader = [0, 0, 0, 0, 0, 0, 0] := rfl
  have hlen : (zeroHeader ++ body).length = 7 + body.length := by simp [hz]; omega
  rw [hlen]
  simp [putAt, frameBytes, hz, leBytes]

theorem encodeFrame_ok {w w' : Bytes} :
    encodeFrame tag m w = .ok ((), w') ↔
      ∃ b, Message.encodeTo m zeroHeader = .ok ((), b) ∧ w' = w ++ putAt 5 (leBytes 2 tag.toNat)
        (putAt 4 [Message.type m] (putAt 0 (leBytes 4 b.length) b)) := by
  unfold encodeFrame
  rcases h : Message.encodeTo m zeroHeader with e | ⟨⟨⟩, b⟩
  · simp [wrap, wrapErr, h]
  · simp [wrap, wrapErr, h, eq_comm]

theorem encodeFrame_of_appends {n : Nat} (tag : Tag) (h : Appends n (Message.encodeTo m)) :
    ∃ body : Bytes, body.length = n ∧ encodeFrame tag m [] = .ok ((), frameBytes (Message.type m) tag body) := by
  obtain ⟨body, hlen, hput⟩ := h
  refine ⟨body, hlen, encodeFrame_ok.2 ⟨zeroHeader ++ body, hput zeroHeader, ?_⟩⟩
  rw [putAt_header, List.nil_append]

theorem decodeFrame_ok {bs rest : Bytes} :
    decodeFrame newMessage bs = .ok ((tag, m), rest) ↔
      ∃ t z body, body.length ≤ maxBody ∧ newMessage t = .ok z ∧ Message.decodeFrom z body = .ok (m, []) ∧
        bs = frameBytes t tag body ++ rest := by
  constructor
  · intro h
    obtain ⟨size, bs₁, hsize, h⟩ := bind_ok.1 h
    obtain ⟨hmin, h⟩ := failIf_bind_ok.1 h
    obtain ⟨hmax, h⟩ := failIf_bind_ok.1 h
    obtain ⟨t, bs₂, ht, h⟩ := bind_ok.1 h
    obtain ⟨tag', bs₃, htag, h⟩ := bind_ok.1 h
    obtain ⟨z, bs₄, hz, h⟩ := bind_ok.1 h
    obtain ⟨body, bs₅, hbody, h⟩ := bind_ok.1 h
    obtain ⟨⟨m', left⟩, bs₆, hm, h⟩ := bind_ok.1 h
    obtain ⟨hleft, h⟩ := failIf_bind_ok.1 h
    obtain ⟨⟨rfl, rfl⟩, rfl⟩ : (tag' = tag ∧ m' = m) ∧ bs₆ = rest := by simpa using h
    obtain rfl := readUint32_ok.1 (wrapErr_ok.1 hsize)
    obtain rfl := readUint8_ok.1 (wrapErr_ok.1 ht)
    obtain rfl := readUint16_ok.1 (wrapErr_ok.1 htag)
    obtain ⟨hnew, rfl⟩ := result_ok.1 hz
    obtain ⟨rfl, hlen⟩ := take_ok.1 (wrapErr_ok.1 hbody)
    obtain ⟨hdec, rfl⟩ := result_ok.1 hm
    obtain rfl : left = [] := by simpa using hleft
    have hsub : (size - headerSize).toNat = size.toNat - 7 := UInt32.toNat_sub_of_le _ _ (UInt32.not_lt.1 hmin)
    have hmin' : 7 ≤ size.toNat := UInt32.not_lt.1 hmin
    have hmax' : size.toNat ≤ 7 + maxBody := UInt32.not_lt.1 hmax
    refine ⟨t, z, body, by omega, hnew, wrapErr_ok.1 hdec, ?_⟩
    have hsize : 7 + body.length = size.toNat := by omega
    simp [frameBytes, hsize]
  · rintro ⟨t, z, body, hlen, hz, hm, rfl⟩
    have hlt : 7 + body.length < 2 ^ 32 := Nat.lt_of_le_of_lt (Nat.add_le_add_left hlen 7) (by decide)
    have hval : (UInt32.ofNat (7 + body.length)).toNat = 7 + body.length := UInt32.toNat_ofNat_of_lt hlt
    have hmin : ¬ UInt32.ofNat (7 + body.length) < headerSize := by
      rw [UInt32.lt_iff_toNat_lt, hval]
      show ¬ 7 + body.length < 7
      omega
    have hmax : ¬ UInt32.ofNat (7 + body.length) > maxMessageSize := by
      rw [gt_iff_lt, UInt32.lt_iff_toNat_lt, hval]
      show ¬ 7 + maxBody < 7 + body.length
      omega
    have hsub : (UInt32.ofNat (7 + body.length) - headerSize).toNat = body.length := by
      rw [UInt32.toNat_sub_of_le _ _ (UInt32.not_lt.1 hmin), hval]
      show 7 + body.length - 7 = body.length
      omega
    have hsize : readUint32 (frameBytes t tag body ++ rest) =
        .ok (UInt32.ofNat (7 + body.length), t :: (leBytes 2 tag.toNat ++ (body ++ rest))) := by
      rw [readUint32_ok, hval]
      simp [frameBytes]
    refine bind_ok.2 ⟨_, _, wrapErr_ok.2 hsize, ?_⟩
    refine failIf_bind_ok.2 ⟨hmin, failIf_bind_ok.2 ⟨hmax, ?_⟩⟩
    refine bind_ok.2 ⟨t, _, wrapErr_ok.2 (readUint8_ok.2 rfl), ?_⟩
    refine bind_ok.2 ⟨tag, body ++ rest, wrapErr_ok.2 (readUint16_ok.2 rfl), ?_⟩
    refine bind_ok.2 ⟨z, body ++ rest, result_ok.2 ⟨hz, rfl⟩, ?_⟩
    refine bind_ok.2 ⟨body, rest, wrapErr_ok.2 (take_ok.2 ⟨rfl, hsub.symm⟩), ?_⟩
    refine bind_ok.2 ⟨(m, []), rest, result_ok.2 ⟨wrapErr_ok.2 hm, rfl⟩, ?_⟩
    exact failIf_bind_ok.2 ⟨by simp, rfl⟩

/-- **Framing.**  A lawful dialect's frames decode to the tag and message they were made from, leaving what
follows them untouched, and every frame that decodes is re-encoded byte for byte. -/
theorem Dialect.frame_codec (d : Dialect newMessage S) :
    CodecOn (7 + maxBody) (fun tm : Tag × M => S tm.2) (fun tm => encodeFrame tm.1 tm.2) (decodeFrame newMessage) where
  fwd {tm w w'} hS hp := by
    obtain ⟨b, hb, rfl⟩ := encodeFrame_ok.1 hp
    obtain ⟨z, body, hz, rfl, hlen, hg⟩ := d.fwd hS hb
    rw [putAt_header]
    refine ⟨_, rfl, by simp [frameBytes]; omega, fun rest => ?_⟩
    exact decodeFrame_ok.2 ⟨_, z, body, hlen, hz, by simpa using hg [], rfl⟩
  bwd {bs tm rest} hg := by
    obtain ⟨t, z, body, -, hz, hm, rfl⟩ := decodeFrame_ok.1 hg
    obtain ⟨hS, rfl, b, hb, hp⟩ := d.bwd hz hm
    obtain rfl : body = b := by simpa using hb
    refine ⟨hS, _, rfl, fun w => encodeFrame_ok.2 ⟨_, hp zeroHeader, ?_⟩⟩
    rw [putAt_header]

/-! ## Frames that are written in place -/

/-- The size word that `writeT`, `sendResponseInline` and `writeRaw` compute. -/
def frameSize (body : Bytes) : UInt32 := headerSize + UInt32.ofNat body.length

def headed (t : MessageType) (tag : Tag) (body : Bytes) : Bytes :=
  leBytes 4 (frameSize body).toNat ++ t :: (leBytes 2 tag.toNat ++ body)

def IsFrame (n : UInt32) (f : Bytes) : Prop := ∃ t tag body, f = frameBytes t tag body ∧ 7 + body.length ≤ n.toNat

theorem frameSize_toNat (h : body.length ≤ maxBody) : (frameSize body).toNat = 7 + body.length := by
  have hlt : 7 + body.length < 2 ^ 32 := Nat.lt_of_le_of_lt (Nat.add_le_add_left h 7) (by decide)
  rw [frameSize, UInt32.toNat_add, UInt32.toNat_ofNat']
  show (7 + body.length % 2 ^ 32) % 2 ^ 32 = _
  omega

theorem headed_isFrame {t : MessageType} (h : body.length ≤ maxBody) (hn : frameSize body ≤ n) :
    IsFrame n (headed t tag body) := by
  have hsize := frameSize_toNat h
  exact ⟨t, tag, body, by rw [headed, hsize, frameBytes], hsize ▸ UInt32.le_iff_toNat_le.1 hn⟩

theorem IsFrame.size (h : IsFrame n f) : 7 ≤ f.length ∧ leNat (f.take 4) = f.length := by
  obtain ⟨t, tag, body, rfl, hn⟩ := h
  have hlt : 7 + body.length < 256 ^ 4 := Nat.lt_of_le_of_lt hn n.toNat_lt
  have hlen : (frameBytes t tag body).length = 7 + body.length := by simp [frameBytes]; omega
  refine ⟨by omega, ?_⟩
  rw [hlen, frameBytes, List.take_left' (length_leBytes ..), leNat_leBytes, Nat.mod_eq_of_lt hlt]

theorem IsFrame.prefixFree : Framing.PrefixFree (IsFrame n) := by
  intro f g hf hg hpre
  have hsize : f.take 4 = g.take 4 := by
    obtain ⟨rest, rfl⟩ := hpre
    rw [List.take_append_of_le_length (by have := hf.size; omega)]
  exact hpre.eq_of_length (by rw [← hf.size.2, hsize, hg.size.2])

theorem length_body [BoundedMessage M] (h : Message.encodeTo m [] = .ok ((), body)) : body.length ≤ maxBody := by
  obtain ⟨b, rfl, hb⟩ := BoundedMessage.writesLe m _ _ h
  simpa using hb

end Frame

end NineP.Proto
