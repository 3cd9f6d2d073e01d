import NineP.Proto.P9l.Messages

/-!
# The 9P2000.L codec

`Encode`, `Decode` and `newMessage` of `proto/p9l/codec.go` over the union of the dialect's messages.
-/

namespace NineP.P9l

open Codec Proto

/-! ## The messages of the dialect -/

/-- A message of the dialect. -/
inductive Msg
  | rlerror (m : Rlerror)
  | tstatfs (m : Tstatfs)
  | rstatfs (m : Rstatfs)
  | tlopen (m : Tlopen)
  | rlopen (m : Rlopen)
  | tlcreate (m : Tlcreate)
  | rlcreate (m : Rlcreate)
  | tsymlink (m : Tsymlink)
  | rsymlink (m : Rsymlink)
  | tmknod (m : Tmknod)
  | rmknod (m : Rmknod)
  | trename (m : Trename)
  | rrename (m : Rrename)
  | treadlink (m : Treadlink)
  | rreadlink (m : Rreadlink)
  | tgetattr (m : Tgetattr)
  | rgetattr (m : Rgetattr)
  | tsetattr (m : Tsetattr)
  | rsetattr (m : Rsetattr)
  | txattrwalk (m : Txattrwalk)
  | rxattrwalk (m : Rxattrwalk)
  | txattrcreate (m : Txattrcreate)
  | rxattrcreate (m : Rxattrcreate)
  | treaddir (m : Treaddir)
  | rreaddir (m : Rreaddir)
  | tfsync (m : Tfsync)
  | rfsync (m : Rfsync)
  | tlock (m : Tlock)
  | rlock (m : Rlock)
  | tgetlock (m : Tgetlock)
  | rgetlock (m : Rgetlock)
  | tlink (m : Tlink)
  | rlink (m : Rlink)
  | tmkdir (m : Tmkdir)
  | rmkdir (m : Rmkdir)
  | trenameat (m : Trenameat)
  | rrenameat (m : Rrenameat)
  | tunlinkat (m : Tunlinkat)
  | runlinkat (m : Runlinkat)
  | base (m : BaseMessage)
  deriving DecidableEq

namespace Msg

def type : Msg → MessageType
  | .rlerror _ => typeRlerror
  | .tstatfs _ => typeTstatfs
  | .rstatfs _ => typeRstatfs
  | .tlopen _ => typeTlopen
  | .rlopen _ => typeRlopen
  | .tlcreate _ => typeTlcreate
  | .rlcreate _ => typeRlcreate
  | .tsymlink _ => typeTsymlink
  | .rsymlink _ => typeRsymlink
  | .tmknod _ => typeTmknod
  | .rmknod _ => typeRmknod
  | .trename _ => typeTrename
  | .rrename _ => typeRrename
  | .treadlink _ => typeTreadlink
  | .rreadlink _ => typeRreadlink
  | .tgetattr _ => typeTgetattr
  | .rgetattr _ => typeRgetattr
  | .tsetattr _ => typeTsetattr
  | .rsetattr _ => typeRsetattr
  | .txattrwalk _ => typeTxattrwalk
  | .rxattrwalk _ => typeRxattrwalk
  | .txattrcreate _ => typeTxattrcreate
  | .rxattrcreate _ => typeRxattrcreate
  | .treaddir _ => typeTreaddir
  | .rreaddir _ => typeRreaddir
  | .tfsync _ => typeTfsync
  | .rfsync _ => typeRfsync
  | .tlock _ => typeTlock
  | .rlock _ => typeRlock
  | .tgetlock _ => typeTgetlock
  | .rgetlock _ => typeRgetlock
  | .tlink _ => typeTlink
  | .rlink _ => typeRlink
  | .tmkdir _ => typeTmkdir
  | .rmkdir _ => typeRmkdir
  | .trenameat _ => typeTrenameat
  | .rrenameat _ => typeRrenameat
  | .tunlinkat _ => typeTunlinkat
  | .runlinkat _ => typeRunlinkat
  | .base m => m.type

def encodeTo : Msg → Writer Unit
  | .rlerror m | .tstatfs m | .rstatfs m | .tlopen m | .rlopen m | .tlcreate m | .rlcreate m | .tsymlink m | .rsymlink m
  | .tmknod m | .rmknod m | .trename m | .rrename m | .treadlink m | .rreadlink m | .tgetattr m | .rgetattr m
  | .tsetattr m | .rsetattr m | .txattrwalk m | .rxattrwalk m | .txattrcreate m | .rxattrcreate m | .treaddir m
  | .rreaddir m | .tfsync m | .rfsync m | .tlock m | .rlock m | .tgetlock m | .rgetlock m | .tlink m | .rlink m
  | .tmkdir m | .rmkdir m | .trenameat m | .rrenameat m | .tunlinkat m | .runlinkat m | .base m => m.encodeTo

def decodeFrom : Msg → Reader Msg
  | .rlerror _ => .rlerror <$> Rlerror.decodeFrom
  | .tstatfs _ => .tstatfs <$> Tstatfs.decodeFrom
  | .rstatfs _ => .rstatfs <$> Rstatfs.decodeFrom
  | .tlopen _ => .tlopen <$> Tlopen.decodeFrom
  | .rlopen _ => .rlopen <$> Rlopen.decodeFrom
  | .tlcreate _ => .tlcreate <$> Tlcreate.decodeFrom
  | .rlcreate _ => .rlcreate <$> Rlcreate.decodeFrom
  | .tsymlink _ => .tsymlink <$> Tsymlink.decodeFrom
  | .rsymlink _ => .rsymlink <$> Rsymlink.decodeFrom
  | .tmknod _ => .tmknod <$> Tmknod.decodeFrom
  | .rmknod _ => .rmknod <$> Rmknod.decodeFrom
  | .trename _ => .trename <$> Trename.decodeFrom
  | .rrename _ => .rrename <$> Rrename.decodeFrom
  | .treadlink _ => .treadlink <$> Treadlink.decodeFrom
  | .rreadlink _ => .rreadlink <$> Rreadlink.decodeFrom
  | .tgetattr _ => .tgetattr <$> Tgetattr.decodeFrom
  | .rgetattr _ => .rgetattr <$> Rgetattr.decodeFrom
  | .tsetattr _ => .tsetattr <$> Tsetattr.decodeFrom
  | .rsetattr _ => .rsetattr <$> Rsetattr.decodeFrom
  | .txattrwalk _ => .txattrwalk <$> Txattrwalk.decodeFrom
  | .rxattrwalk _ => .rxattrwalk <$> Rxattrwalk.decodeFrom
  | .txattrcreate _ => .txattrcreate <$> Txattrcreate.decodeFrom
  | .rxattrcreate _ => .rxattrcreate <$> Rxattrcreate.decodeFrom
  | .treaddir _ => .treaddir <$> Treaddir.decodeFrom
  | .rreaddir _ => .rreaddir <$> Rreaddir.decodeFrom
  | .tfsync _ => .tfsync <$> Tfsync.decodeFrom
  | .rfsync _ => .rfsync <$> Rfsync.decodeFrom
  | .tlock _ => .tlock <$> Tlock.decodeFrom
  | .rlock _ => .rlock <$> Rlock.decodeFrom
  | .tgetlock _ => .tgetlock <$> Tgetlock.decodeFrom
  | .rgetlock _ => .rgetlock <$> Rgetlock.decodeFrom
  | .tlink _ => .tlink <$> Tlink.decodeFrom
  | .rlink _ => .rlink <$> Rlink.decodeFrom
  | .tmkdir _ => .tmkdir <$> Tmkdir.decodeFrom
  | .rmkdir _ => .rmkdir <$> Rmkdir.decodeFrom
  | .trenameat _ => .trenameat <$> Trenameat.decodeFrom
  | .rrenameat _ => .rrenameat <$> Rrenameat.decodeFrom
  | .tunlinkat _ => .tunlinkat <$> Tunlinkat.decodeFrom
  | .runlinkat _ => .runlinkat <$> Runlinkat.decodeFrom
  | .base m => .base <$> m.decodeFrom

instance : Message Msg := ⟨type, encodeTo, decodeFrom⟩

/-- The lock type, lock flags and lock status hold values the decoder accepts. -/
def Accepted : Msg → Prop
  | .tlock m | .rlock m | .tgetlock m | .rgetlock m => m.Accepted
  | _ => True

theorem coded (m : Msg) : Coded Accepted m := by
  cases m with
  | rlerror a => exact .of Rlerror.codec rlerror
  | tstatfs a => exact .of Tstatfs.codec tstatfs
  | rstatfs a => exact .of Rstatfs.codec rstatfs
  | tlopen a => exact .of Tlopen.codec tlopen
  | rlopen a => exact .of Rlopen.codec rlopen
  | tlcreate a => exact .of Tlcreate.codec tlcreate
  | rlcreate a => exact .of Rlcreate.codec rlcreate
  | tsymlink a => exact .of Tsymlink.codec tsymlink
  | rsymlink a => exact .of Rsymlink.codec rsymlink
  | tmknod a => exact .of Tmknod.codec tmknod
  | rmknod a => exact .of Rmknod.codec rmknod
  | trename a => exact .of Trename.codec trename
  | rrename a => exact .of Rrename.codec rrename
  | treadlink a => exact .of Treadlink.codec treadlink
  | rreadlink a => exact .of Rreadlink.codec rreadlink
  | tgetattr a => exact .of Tgetattr.codec tgetattr
  | rgetattr a => exact .of Rgetattr.codec rgetattr
  | tsetattr a => exact .of Tsetattr.codec tsetattr
  | rsetattr a => exact .of Rsetattr.codec rsetattr
  | txattrwalk a => exact .of Txattrwalk.codec txattrwalk
  | rxattrwalk a => exact .of Rxattrwalk.codec rxattrwalk
  | txattrcreate a => exact .of Txattrcreate.codec txattrcreate
  | rxattrcreate a => exact .of Rxattrcreate.codec rxattrcreate
  | treaddir a => exact .of Treaddir.codec treaddir
  | rreaddir a => exact .of Rreaddir.codec rreaddir
  | tfsync a => exact .of Tfsync.codec tfsync
  | rfsync a => exact .of Rfsync.codec rfsync
  | tlock a => exact .of Tlock.codec tlock
  | rlock a => exact .of Rlock.codec rlock
  | tgetlock a => exact .of Tgetlock.codec tgetlock
  | rgetlock a => exact .of Rgetlock.codec rgetlock
  | tlink a => exact .of Tlink.codec tlink
  | rlink a => exact .of Rlink.codec rlink
  | tmkdir a => exact .of Tmkdir.codec tmkdir
  | rmkdir a => exact .of Rmkdir.codec rmkdir
  | trenameat a => exact .of Trenameat.codec trenameat
  | rrenameat a => exact .of Rrenameat.codec rrenameat
  | tunlinkat a => exact .of Tunlinkat.codec tunlinkat
  | runlinkat a => exact .of Runlinkat.codec runlinkat
  | base a => exact (BaseMessage.coded a).lift base

instance : BoundedMessage Msg where
  writesLe := by
    intro m buf buf' h
    have hfits (hm : m.Accepted) : ∃ b, buf' = buf ++ b ∧ b.length ≤ maxBody := by
      obtain ⟨b, hb, hn, -⟩ := (coded m).fwd hm h
      exact ⟨b, hb, hn⟩
    cases m with
    | tlock a | rlock a | tgetlock a | rgetlock a => exact a.writesLe buf buf' h
    | _ => exact hfits trivial

end Msg

/-- `newMessage`: the empty message of a type, the shared types last. -/
def newMessage (t : MessageType) : Except Err Msg :=
  match t with
  | typeRlerror => .ok (.rlerror default)
  | typeTstatfs => .ok (.tstatfs default)
  | typeRstatfs => .ok (.rstatfs default)
  | typeTlopen => .ok (.tlopen default)
  | typeRlopen => .ok (.rlopen default)
  | typeTlcreate => .ok (.tlcreate default)
  | typeRlcreate => .ok (.rlcreate default)
  | typeTsymlink => .ok (.tsymlink default)
  | typeRsymlink => .ok (.rsymlink default)
  | typeTmknod => .ok (.tmknod default)
  | typeRmknod => .ok (.rmknod default)
  | typeTrename => .ok (.trename default)
  | typeRrename => .ok (.rrename default)
  | typeTreadlink => .ok (.treadlink default)
  | typeRreadlink => .ok (.rreadlink default)
  | typeTgetattr => .ok (.tgetattr default)
  | typeRgetattr => .ok (.rgetattr default)
  | typeTsetattr => .ok (.tsetattr default)
  | typeRsetattr => .ok (.rsetattr default)
  | typeTxattrwalk => .ok (.txattrwalk default)
  | typeRxattrwalk => .ok (.rxattrwalk default)
  | typeTxattrcreate => .ok (.txattrcreate default)
  | typeRxattrcreate => .ok (.rxattrcreate default)
  | typeTreaddir => .ok (.treaddir default)
  | typeRreaddir => .ok (.rreaddir default)
  | typeTfsync => .ok (.tfsync default)
  | typeRfsync => .ok (.rfsync default)
  | typeTlock => .ok (.tlock default)
  | typeRlock => .ok (.rlock default)
  | typeTgetlock => .ok (.tgetlock default)
  | typeRgetlock => .ok (.rgetlock default)
  | typeTlink => .ok (.tlink default)
  | typeRlink => .ok (.rlink default)
  | typeTmkdir => .ok (.tmkdir default)
  | typeRmkdir => .ok (.rmkdir default)
  | typeTrenameat => .ok (.trenameat default)
  | typeRrenameat => .ok (.rrenameat default)
  | typeTunlinkat => .ok (.tunlinkat default)
  | typeRunlinkat => .ok (.runlinkat default)
  | _ =>
    match newBaseMessage t with
    | some m => .ok (.base m)
    | none => .error (.msg s!"unknown message type {t}")

theorem newMessage_type (m : Msg) : ∃ z, newMessage m.type = .ok z ∧ z.decodeFrom = m.decodeFrom := by
  cases m with
  | base m =>
    obtain ⟨z, hz, hd⟩ := newBaseMessage_type m
    refine ⟨.base z, ?_, by simp only [Msg.decodeFrom, hd]⟩
    cases m <;> cases hz <;> rfl
  | _ => exact ⟨_, rfl, rfl⟩

theorem type_of_newMessage {t : MessageType} {z : Msg} (h : newMessage t = .ok z) : z.type = t := by
  unfold newMessage at h
  split at h
  case h_40 =>
    split at h
    · rename_i hz
      cases h
      exact type_of_newBaseMessage hz
    · cases h
  all_goals cases h; rfl

theorem dialect : Dialect newMessage Msg.Accepted := .of_coded Msg.coded newMessage_type type_of_newMessage

def encode (tag : Tag) (msg : Msg) : Writer Unit := encodeFrame tag msg

def decode : Reader (Tag × Msg) := decodeFrame newMessage

/-- **9P2000.L round trip.**  What `Encode` writes for an accepted message, `Decode` reads back in front of any
suffix; and whatever `Decode` accepts, `Encode` writes back byte for byte. -/
theorem decode_inverts_encode (t : Tag) (m : Msg) :
    (m.Accepted → ∀ b, encode t m [] = .ok ((), b) → ∀ suffix, decode (b ++ suffix) = .ok ((t, m), suffix)) ∧
    (∀ bs rest, decode bs = .ok ((t, m), rest) → ∃ b, bs = b ++ rest ∧ encode t m [] = .ok ((), b)) := by
  constructor
  · intro hm b h suffix
    obtain ⟨b', hb, -, hg⟩ := dialect.frame_codec.fwd (a := (t, m)) hm h
    obtain rfl : b = b' := by simpa using hb
    exact hg suffix
  · intro bs rest h
    obtain ⟨-, b, hb, hp⟩ := dialect.frame_codec.bwd h
    exact ⟨b, hb, (hp []).trans (by rw [List.nil_append])⟩

theorem decode_inverts_encode_rlock :
    encode 7 (.rlock ⟨1⟩) [] = .ok ((), [8, 0, 0, 0, 53, 7, 0, 1]) ∧
    decode ([8, 0, 0, 0, 53, 7, 0, 1] ++ [9]) = .ok ((7, .rlock ⟨1⟩), [9]) ∧
    ∃ b, [8, 0, 0, 0, 53, 7, 0, 1, 9] = b ++ [9] ∧ encode 7 (.rlock ⟨1⟩) [] = .ok ((), b) :=
  ⟨rfl, (decode_inverts_encode 7 (.rlock ⟨1⟩)).1 (by decide : (1 : UInt8) ≤ lockStatusGrace) _ rfl [9],
    (decode_inverts_encode 7 (.rlock ⟨1⟩)).2 _ [9] (by decide)⟩

end NineP.P9l
