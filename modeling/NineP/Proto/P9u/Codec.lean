import NineP.Proto.P9u.Messages

/-!
# The 9P2000.u codec

`Encode`, `Decode` and `newMessage` of `proto/p9u/codec.go` over the union of the dialect's messages.
`EncodeTo` ignores `Stat.Size`, so a decoded message is the encoded one with that field filled in: `Msg.sized`.
-/

namespace NineP.P9u

open Codec Proto

/-! ## The messages of the dialect -/

/-- A message of the dialect. -/
inductive Msg
  | rerror (m : Rerror)
  | topen (m : Topen)
  | ropen (m : Ropen)
  | tcreate (m : Tcreate)
  | rcreate (m : Rcreate)
  | tstat (m : Tstat)
  | rstat (m : Rstat)
  | twstat (m : Twstat)
  | rwstat (m : Rwstat)
  | base (m : BaseMessage)
  deriving DecidableEq

namespace Msg

def type : Msg → MessageType
  | .rerror _ => typeRerror
  | .topen _ => typeTopen
  | .ropen _ => typeRopen
  | .tcreate _ => typeTcreate
  | .rcreate _ => typeRcreate
  | .tstat _ => typeTstat
  | .rstat _ => typeRstat
  | .twstat _ => typeTwstat
  | .rwstat _ => typeRwstat
  | .base m => m.type

def encodeTo : Msg → Writer Unit
  | .rerror m | .topen m | .ropen m | .tcreate m | .rcreate m | .tstat m | .rstat m | .twstat m | .rwstat m
  | .base m => m.encodeTo

def decodeFrom : Msg → Reader Msg
  | .rerror _ => .rerror <$> Rerror.decodeFrom
  | .topen _ => .topen <$> Topen.decodeFrom
  | .ropen _ => .ropen <$> Ropen.decodeFrom
  | .tcreate _ => .tcreate <$> Tcreate.decodeFrom
  | .rcreate _ => .rcreate <$> Rcreate.decodeFrom
  | .tstat _ => .tstat <$> Tstat.decodeFrom
  | .rstat _ => .rstat <$> Rstat.decodeFrom
  | .twstat _ => .twstat <$> Twstat.decodeFrom
  | .rwstat _ => .rwstat <$> Rwstat.decodeFrom
  | .base m => .base <$> m.decodeFrom

instance : Message Msg := ⟨type, encodeTo, decodeFrom⟩

/-- The messages `Decode` returns: the stat size is filled in, and `nstat` did not wrap. -/
def Accepted : Msg → Prop
  | .rstat m | .twstat m => m.stat.Fits
  | _ => True

theorem coded (m : Msg) : Coded Accepted m := by
  cases m with
  | rerror a => exact .of Rerror.codec rerror
  | topen a => exact .of Topen.codec topen
  | ropen a => exact .of Ropen.codec ropen
  | tcreate a => exact .of Tcreate.codec tcreate
  | rcreate a => exact .of Rcreate.codec rcreate
  | tstat a => exact .of Tstat.codec tstat
  | rstat a => exact .of Rstat.codec rstat
  | twstat a => exact .of Twstat.codec twstat
  | rwstat a => exact .of Rwstat.codec rwstat
  | base a => exact (BaseMessage.coded a).lift base

instance : BoundedMessage Msg where
  writesLe := by
    intro m buf buf' h
    have hfits (hm : m.Accepted) : ∃ b, buf' = buf ++ b ∧ b.length ≤ maxBody := by
      obtain ⟨b, hb, hn, -⟩ := (coded m).fwd hm h
      exact ⟨b, hb, hn⟩
    cases m with
    | rstat a | twstat a => exact a.writesLe buf buf' h
    | _ => exact hfits trivial

end Msg

/-- `newMessage`: the empty message of a type, the shared types last. -/
def newMessage (t : MessageType) : Except Err Msg :=
  match t with
  | typeRerror => .ok (.rerror default)
  | typeTopen => .ok (.topen default)
  | typeRopen => .ok (.ropen default)
  | typeTcreate => .ok (.tcreate default)
  | typeRcreate => .ok (.rcreate default)
  | typeTstat => .ok (.tstat default)
  | typeRstat => .ok (.rstat default)
  | typeTwstat => .ok (.twstat default)
  | typeRwstat => .ok (.rwstat default)
  | _ =>
    match newBaseMessage t with
    | some m => .ok (.base m)
    | none => .error (.msg s!"unknown message type {t}")

theorem newMessage_type (m : Msg) : ∃ z, newMessage m.type = .ok z ∧ z.decodeFrom = m.decodeFrom := by
  cases m with
  | base m =>
    obtain ⟨z, hz, hd⟩ := newBaseMessage_type m
    refine ⟨.base z, ?_, by simp only [Msg.decodeFrom, hd]⟩
    cases m <;> cases hz <;> rfl
  | _ => exact ⟨_, rfl, rfl⟩

theorem type_of_newMessage {t : MessageType} {z : Msg} (h : newMessage t = .ok z) : z.type = t := by
  unfold newMessage at h
  split at h
  case h_10 =>
    split at h
    · rename_i hz
      cases h
      exact type_of_newBaseMessage hz
    · cases h
  all_goals cases h; rfl

theorem dialect : Dialect newMessage Msg.Accepted := .of_coded Msg.coded newMessage_type type_of_newMessage

def encode (tag : Tag) (msg : Msg) : Writer Unit := encodeFrame tag msg

def decode : Reader (Tag × Msg) := decodeFrame newMessage

/-! ## The size field -/

/-- The stat with the size that `EncodeTo` writes. -/
def Stat.sized (s : Stat) : Stat :=
  match s.encodedSize with
  | .ok n => { s with size := n }
  | .error _ => s

namespace Msg

/-- The message with the encoded stat size filled in. -/
def sized : Msg → Msg
  | .rstat m => .rstat { stat := m.stat.sized }
  | .twstat m => .twstat { m with stat := m.stat.sized }
  | m => m

/-- The encoded stat size leaves room for its own two bytes in `nstat`. -/
def NoWrap : Msg → Prop
  | .rstat m | .twstat m => ∀ n, m.stat.encodedSize = .ok n → n < 65534
  | _ => True

end Msg

theorem Stat.sized_of_ok {s : Stat} (h : s.encodedSize = .ok n) : s.sized = { s with size := n } := by
  unfold Stat.sized
  rw [h]

theorem Stat.encodedSize_sized (s : Stat) : s.sized.encodedSize = s.encodedSize := by
  unfold Stat.sized
  split <;> rfl

theorem Stat.encodeTo_sized (s : Stat) : s.sized.encodeTo = s.encodeTo := by
  unfold Stat.sized
  split <;> rfl

theorem Stat.fits_sized_iff {s : Stat} (h : s.encodedSize = .ok n) :
    s.sized.Fits ↔ ∀ n, s.encodedSize = .ok n → n < 65534 := by
  have hsize : s.sized.size = n := by rw [Stat.sized_of_ok h]
  unfold Stat.Fits Stat.Sized
  rw [Stat.encodedSize_sized, hsize]
  constructor
  · rintro ⟨-, hlt⟩ n' hn'
    rw [h, Except.ok.injEq] at hn'
    exact hn' ▸ hlt
  · intro hlt
    exact ⟨h, hlt n h⟩

theorem Msg.encodeTo_sized (m : Msg) : m.sized.encodeTo = m.encodeTo := by
  cases m with
  | rstat m =>
    funext buf
    simp only [Msg.sized, Msg.encodeTo, Rstat.encodeTo, Stat.encodedSize_sized, Stat.encodeTo_sized]
  | twstat m =>
    funext buf
    simp only [Msg.sized, Msg.encodeTo, Twstat.encodeTo, Stat.encodedSize_sized, Stat.encodeTo_sized]
  | _ => rfl

theorem Msg.type_sized (m : Msg) : m.sized.type = m.type := by
  cases m <;> rfl

theorem encode_sized (t : Tag) (m : Msg) : encode t m.sized = encode t m := by
  funext w
  have he : Message.encodeTo m.sized = Message.encodeTo m := m.encodeTo_sized
  have ht : Message.type m.sized = Message.type m := m.type_sized
  simp only [encode, encodeFrame, he, ht]

/-- A message that is encoded is accepted back, its size filled in, exactly when `nstat` does not wrap. -/
theorem accepted_sized_iff {m : Msg} (h : m.encodeTo buf = .ok ((), buf')) :
    m.sized.Accepted ↔ m.NoWrap := by
  cases m with
  | rstat m =>
    obtain ⟨n, _, hn, -⟩ := bind_ok.1 h
    exact Stat.fits_sized_iff (result_ok.1 (wrap_ok.1 hn)).1
  | twstat m =>
    obtain ⟨⟨⟩, _, -, h⟩ := bind_ok.1 h
    obtain ⟨n, _, hn, -⟩ := bind_ok.1 h
    exact Stat.fits_sized_iff (result_ok.1 (wrap_ok.1 hn)).1
  | _ => exact Iff.rfl

/-! ## The codec theorem -/

/-- **9P2000.u round trip.**  What `Encode` writes, `Decode` reads back in front of any suffix, with the stat size
filled in, exactly when `nstat` does not wrap; and whatever `Decode` accepts, `Encode` writes back byte for byte. -/
theorem decode_inverts_encode_iff (t : Tag) (m : Msg) :
    (∀ b, encode t m [] = .ok ((), b) →
      ((∀ suffix, decode (b ++ suffix) = .ok ((t, m.sized), suffix)) ↔ m.NoWrap)) ∧
    (∀ bs rest, decode bs = .ok ((t, m), rest) → ∃ b, bs = b ++ rest ∧ encode t m [] = .ok ((), b)) := by
  constructor
  · intro b h
    obtain ⟨body, hbody, -⟩ := encodeFrame_ok.1 h
    rw [← accepted_sized_iff hbody]
    constructor
    · intro hdec
      exact (dialect.frame_codec.bwd (hdec [])).1
    · intro hacc suffix
      obtain ⟨b', hb, -, hg⟩ := dialect.frame_codec.fwd (a := (t, m.sized)) hacc ((congrFun (encode_sized t m) []).trans h)
      obtain rfl : b = b' := by simpa using hb
      exact hg suffix
  · intro bs rest h
    obtain ⟨-, b, hb, hp⟩ := dialect.frame_codec.bwd h
    exact ⟨b, hb, (hp []).trans (by rw [List.nil_append])⟩

theorem decode_inverts_encode_iff_topen :
    encode 7 (.topen ⟨3, 1⟩) [] = .ok ((), [12, 0, 0, 0, 112, 7, 0, 3, 0, 0, 0, 1]) ∧
    ((∀ suffix, decode ([12, 0, 0, 0, 112, 7, 0, 3, 0, 0, 0, 1] ++ suffix) = .ok ((7, .topen ⟨3, 1⟩), suffix)) ↔
      (Msg.topen ⟨3, 1⟩).NoWrap) ∧
    ∃ b, [12, 0, 0, 0, 112, 7, 0, 3, 0, 0, 0, 1, 9] = b ++ [9] ∧ encode 7 (.topen ⟨3, 1⟩) [] = .ok ((), b) :=
  ⟨rfl, (decode_inverts_encode_iff 7 (.topen ⟨3, 1⟩)).1 _ rfl,
    (decode_inverts_encode_iff 7 (.topen ⟨3, 1⟩)).2 _ [9] (by decide)⟩

/-- A stat whose encoded size is 65534. -/
def wideStat : Stat := { (default : Stat) with name := List.replicate 65473 0 }

theorem wideStat_name_length : wideStat.name.length = 65473 := List.length_replicate

theorem wideStat_short : wideStat.ShortStrings := by
  refine ⟨?_, by decide, by decide, by decide, by decide⟩
  rw [wideStat_name_length]
  decide

theorem wideStat_encodedSize : wideStat.encodedSize = .ok 65534 := by
  rw [Stat.encodedSize_ok_iff wideStat_short, Stat.fieldsLen, wideStat_name_length]
  rfl

/-- **`nstat` wraps.**  `Encode` accepts a stat of 65534 bytes; two more for its size word do not fit `nstat`. -/
theorem rstat_nstat_wraps :
    ∃ b, encode 1 (.rstat ⟨wideStat⟩) [] = .ok ((), b) ∧ decode b ≠ .ok ((1, (Msg.rstat ⟨wideStat⟩).sized), []) := by
  have hbody : (Msg.rstat ⟨wideStat⟩).encodeTo zeroHeader = .ok ((), _) :=
    (Rstat.encodeTo_writes wideStat_encodedSize _ _).2 ⟨wideStat_short, rfl⟩
  refine ⟨_, encodeFrame_ok.2 ⟨_, hbody, rfl⟩, fun hdec => ?_⟩
  have hwrap := (accepted_sized_iff hbody).1 (dialect.frame_codec.bwd hdec).1
  exact absurd (hwrap 65534 wideStat_encodedSize) (by decide)

end NineP.P9u
