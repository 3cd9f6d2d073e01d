import NineP.Proto.P9l.Codec
import NineP.Proto.P9u.Codec
import NineP.Server.ConnMap

/-!
# Version negotiation

The life of a connection from its first frame: `negotiateVersion`, the workers of `Conn`, and `handleReVersion` with
what it writes and assigns.  Frames come as bytes; the size check and the decoding use the `msize` and `protocol` that
the connection has when a worker reads.
-/

namespace NineP.Server.Negotiation

open Proto Codec Transition Option

/-! ## Protocols and parameters -/

inductive Protocol
  | none
  | l
  | u
  deriving DecidableEq

/-- "9P2000.L" -/
def versionL : Bytes := [57, 80, 50, 48, 48, 48, 46, 76]

/-- "9P2000.u" -/
def versionU : Bytes := [57, 80, 50, 48, 48, 48, 46, 117]

def versionUnknown : Bytes := [117, 110, 107, 110, 111, 119, 110]

def Protocol.string : Protocol → Bytes
  | .l => versionL
  | .u => versionU
  | .none => versionUnknown

theorem Protocol.string_inj {p q : Protocol} (h : p.string = q.string) : p = q := by
  revert h
  cases p <;> cases q <;> decide

def minMsize : UInt32 := 256

/-- The largest first frame. -/
def maxVersionFrame : UInt32 := 1024

structure NegotiationResult where
  msize : UInt32
  selected : Protocol
  version : Bytes
  deriving DecidableEq

/-- `negotiate`; `none` is `ErrMsizeTooSmall`. -/
def negotiate (maxMsize : UInt32) (tv : Tversion) : Option NegotiationResult :=
  let msize := min tv.msize maxMsize
  if msize < minMsize then none
  else if tv.version = versionL then some ⟨msize, .l, tv.version⟩
  else if tv.version = versionU then some ⟨msize, .u, tv.version⟩
  else some ⟨msize, .none, versionUnknown⟩

theorem negotiate_version
    (h : negotiate maxMsize tv = some res) : res.version = res.selected.string := by
  simp only [negotiate] at h
  split at h
  · cases h
  split at h
  · rename_i hl
    cases h
    exact hl
  split at h
  · rename_i hu
    cases h
    exact hu
  · cases h
    rfl

/-! ## Requests -/

/-- A message of one of the dialects, or of both. -/
inductive Msg
  | base (m : BaseMessage)
  | l (m : P9l.Msg)
  | u (m : P9u.Msg)

def newLMessage (t : MessageType) : Option P9l.Msg :=
  match t with
  | typeTlopen => some (.tlopen default)
  | typeTlcreate => some (.tlcreate default)
  | typeTgetattr => some (.tgetattr default)
  | typeTsetattr => some (.tsetattr default)
  | typeTreaddir => some (.treaddir default)
  | typeTmkdir => some (.tmkdir default)
  | typeTsymlink => some (.tsymlink default)
  | typeTlink => some (.tlink default)
  | typeTmknod => some (.tmknod default)
  | typeTreadlink => some (.treadlink default)
  | typeTstatfs => some (.tstatfs default)
  | typeTfsync => some (.tfsync default)
  | typeTunlinkat => some (.tunlinkat default)
  | typeTrenameat => some (.trenameat default)
  | typeTrename => some (.trename default)
  | typeTlock => some (.tlock default)
  | typeTgetlock => some (.tgetlock default)
  | typeTxattrwalk => some (.txattrwalk default)
  | typeTxattrcreate => some (.txattrcreate default)
  | _ => none

def newUMessage (t : MessageType) : Option P9u.Msg :=
  match t with
  | typeTopen => some (.topen default)
  | typeTcreate => some (.tcreate default)
  | typeTstat => some (.tstat default)
  | typeTwstat => some (.twstat default)
  | _ => none

def newMessage (p : Protocol) (t : MessageType) : Option Msg :=
  match t with
  | typeTattach => some (.base (.tattach default))
  | typeTwalk => some (.base (.twalk default))
  | typeTclunk => some (.base (.tclunk default))
  | typeTflush => some (.base (.tflush default))
  | typeTauth => some (.base (.tauth default))
  | typeTread => some (.base (.tread default))
  | typeTwrite => some (.base (.twrite default))
  | typeTremove => some (.base (.tremove default))
  | _ =>
    match p with
    | .l => (newLMessage t).map .l
    | .u => (newUMessage t).map .u
    | .none => none

def Msg.decodeFrom : Msg → Reader Msg
  | .base z => do return .base (← z.decodeFrom)
  | .l z => do return .l (← z.decodeFrom)
  | .u z => do return .u (← z.decodeFrom)

/-! ## Frames -/

structure Frame where
  type : MessageType
  tag : Tag
  body : Bytes
  deriving DecidableEq

def Frame.size (f : Frame) : Nat := 7 + f.body.length

/-- What `readFrameLocked` makes of a frame that is no Tversion: a type without a message, a body that does not decode,
or a request. -/
inductive Decoded
  | unknownType
  | decodeErr
  | msg (m : Msg)

def Frame.decode (p : Protocol) (f : Frame) : Decoded :=
  match newMessage p f.type with
  | none => .unknownType
  | some z =>
    match z.decodeFrom f.body with
    | .ok (m, _) => .msg m
    | .error _ => .decodeErr

def Frame.kind (p : Protocol) (f : Frame) : Conn.Kind :=
  if f.type = typeTversion then .version
  else
    match f.decode p with
    | .unknownType => .unknown
    | .decodeErr => .undecodable
    | .msg (.base (.tflush m)) => .flush m.oldTag
    | .msg _ => .other

def Frame.tversion (f : Frame) : Option Tversion :=
  match Tversion.decodeFrom f.body with
  | .ok (tv, _) => some tv
  | .error _ => none

/-! ## The state -/

structure Params where
  msize : UInt32
  protocol : Protocol
  deriving DecidableEq

structure ConnInfo where
  protocol : Bytes
  msize : UInt32
  deriving DecidableEq

/-- What the end of `handleReVersion` has still to assign. -/
inductive Setting
  | nothing
  | msize (res : NegotiationResult)
  | protocol (res : NegotiationResult)
  deriving DecidableEq

/-- A connection that is served. -/
structure Session where
  net : Conn.State
  msize : UInt32
  protocol : Protocol
  setting : Setting
  info : ConnInfo
  /-- The last Rversion that was written. -/
  rversion : Rversion
  /-- The frames that were read, by request. -/
  frames : List Frame
  /-- The parameters with which they were read. -/
  decoded : List Params

inductive State
  | fresh
  | serving (s : Session)
  | closed

structure Config where
  maxInflight : Int
  maxMsize : UInt32

inductive Label
  | negotiateVersion (f : Frame)
  | fail  -- the first frame is not read, or the first Rversion not written
  | frame (w : Nat) (f : Frame)
  | rversion (w : Nat)
  | assign
  | conn (l : Conn.Label)
  deriving DecidableEq

/-! ## Steps -/

/-- `negotiateVersion`, and the start of `serve`. -/
def negotiateVersion (cfg : Config) (f : Frame) : State :=
  if (min cfg.maxMsize maxVersionFrame).toNat < f.size then .closed
  else if f.type ≠ typeTversion then .closed
  else
    match f.tversion.bind (negotiate cfg.maxMsize) with
    | none => .closed
    | some res =>
      if res.selected = .none then .closed
      else .serving
        { net := Conn.init
          msize := res.msize
          protocol := res.selected
          setting := .nothing
          info := ⟨res.selected.string, res.msize⟩
          rversion := ⟨res.msize, res.version⟩
          frames := []
          decoded := [] }

/-- The outcome of the re-negotiation that worker `w` is about to answer. -/
def Session.renegotiation (cfg : Config) (s : Session) (w : Nat) : Option NegotiationResult :=
  match s.net.workers[w]? with
  | some (.replying r) => ((s.frames[r.id]?).bind Frame.tversion).bind (negotiate cfg.maxMsize)
  | _ => none

/-- The steps of `Conn` that neither read a frame nor answer a Tversion; the lock of a Tversion is kept until all is
assigned. -/
def Session.allows (s : Session) : Conn.Label → Bool
  | .worker _ (.frame _ _) | .worker _ (.reply _) => false
  | .worker w .go => s.setting = .nothing || s.net.workers[w]? ≠ some .unlocking
  | _ => true

def Session.step (cfg : Config) (s : Session) : Label → Option Session
  | .frame w f =>
    if s.msize.toNat < f.size then none
    else (Conn.step cfg.maxInflight s.net (.worker w (.frame f.tag (f.kind s.protocol)))).map fun net =>
      { s with
        net
        frames := s.frames ++ [f]
        decoded := s.decoded ++ [⟨s.msize, s.protocol⟩] }
  | .rversion w =>
    (s.renegotiation cfg w).bind fun res =>
      (Conn.step cfg.maxInflight s.net (.worker w (.reply (res.selected ≠ .none)))).map fun net =>
        { s with
          net
          rversion := ⟨res.msize, res.version⟩
          setting := if res.selected = .none then .nothing else .msize res }
  | .assign =>
    match s.setting with
    | .nothing => none
    | .msize res => some { s with msize := res.msize, setting := .protocol res }
    | .protocol res => some { s with protocol := res.selected, setting := .nothing }
  | .conn l =>
    if s.allows l then (Conn.step cfg.maxInflight s.net l).map fun net => { s with net } else none
  | _ => none

def step (cfg : Config) : State → Label → Option State
  | .fresh, .negotiateVersion f => some (negotiateVersion cfg f)
  | .fresh, .fail => some .closed
  | .serving s, l => (s.step cfg l).map .serving
  | _, _ => none

/-! ## Agreement -/

/-- All that a request goes by is what the last Rversion announced, and that was a supported version. -/
structure Agree (s : Session) (r : Conn.Req) : Prop where
  supported : s.protocol ≠ .none
  rversion : s.rversion = ⟨s.msize, s.protocol.string⟩
  info : s.info = ⟨s.protocol.string, s.msize⟩
  decoded : s.decoded[r.id]? = some ⟨s.msize, s.protocol⟩

def Dispatches (cfg : Config) (s : Session) (w : Nat) (r : Conn.Req) : Prop :=
  s.net.workers[w]? = some (.got r) ∧
    ∃ s', s.step cfg (.conn (.worker w .go)) = some s' ∧ s'.net.workers[w]? = some (.handling r)

/-- An Rversion that is about to be written announces what the handlers' context says. -/
def keeps (cfg : Config) : State → Label → Bool
  | .serving s, .rversion w =>
    (s.renegotiation cfg w).all fun res => res.msize = s.info.msize && res.version = s.info.protocol
  | _, _ => true

structure Inv (s : Session) : Prop where
  log : Conn.LogInv s.net
  supported : s.protocol ≠ .none
  rversion : s.rversion = ⟨s.msize, s.protocol.string⟩
  info : s.info = ⟨s.protocol.string, s.msize⟩
  setting : ∀ res, s.setting = .msize res ∨ s.setting = .protocol res → res.msize = s.msize ∧ res.selected = s.protocol
  length : s.decoded.length = s.net.shared.nextId
  decoded : ∀ p ∈ s.decoded, p = ⟨s.msize, s.protocol⟩

def State.Inv : State → Prop
  | .serving s => Negotiation.Inv s
  | _ => True

section Runs

variable {cfg : Config} {s : Session}

theorem negotiateVersion_inv (f : Frame) : (negotiateVersion cfg f).Inv := by
  unfold negotiateVersion
  split
  · trivial
  split
  · trivial
  split
  · trivial
  rename_i res hres
  obtain ⟨tv, -, hres⟩ := bind_eq_some_iff.1 hres
  split
  · trivial
  rename_i hselected
  exact
    { log := Conn.init_logInv
      supported := hselected
      rversion := by rw [negotiate_version hres]
      info := rfl
      setting := by simp
      length := rfl
      decoded := by simp }

theorem Inv.conn (hs : Inv s) {l : Conn.Label} (hl : ∀ w tag kind, l ≠ .worker w (.frame tag kind))
    (h : Conn.step cfg.maxInflight s.net l = some net) : Inv { s with net } := by
  obtain ⟨hnext, -⟩ | ⟨w, tag, kind, rfl, -⟩ := Conn.step_reads h
  · exact { hs with log := Conn.step_logInv hs.log h, length := hs.length.trans hnext.symm }
  · exact absurd rfl (hl w tag kind)

theorem Inv.frame (hs : Inv s)
    (h : Conn.step cfg.maxInflight s.net (.worker w (.frame tag kind)) = some net) :
    Inv { s with net, frames := s.frames ++ [f], decoded := s.decoded ++ [⟨s.msize, s.protocol⟩] } := by
  have hnext : net.shared.nextId = s.net.shared.nextId + 1 := by
    obtain ⟨pc, e, -, hmove, rfl⟩ := Conn.step_worker.1 h
    cases Conn.move_moves hmove with
    | read => rfl
  refine { hs with log := Conn.step_logInv hs.log h, length := ?_, decoded := ?_ }
  · simp [hs.length, hnext]
  · intro p hp
    rcases List.mem_append.1 hp with hp | hp
    · exact hs.decoded p hp
    · exact List.mem_singleton.1 hp

theorem Inv.rversioned (hs : Inv s)
    (hres : s.renegotiation cfg w = some res) (hk : keeps cfg (.serving s) (.rversion w))
    (h : Conn.step cfg.maxInflight s.net (.worker w (.reply (res.selected ≠ .none))) = some net) :
    Inv { s with
      net
      rversion := ⟨res.msize, res.version⟩
      setting := if res.selected = .none then .nothing else .msize res } := by
  simp only [keeps, hres, all_some, Bool.and_eq_true, decide_eq_true_eq, hs.info] at hk
  obtain ⟨hmsize, hversion⟩ := hk
  have hselected : res.selected = s.protocol := by
    simp only [Session.renegotiation] at hres
    split at hres
    · obtain ⟨tv, -, hres⟩ := bind_eq_some_iff.1 hres
      exact Protocol.string_inj ((negotiate_version hres).symm.trans hversion)
    · cases hres
  have hconn := hs.conn (by simp) h
  refine { hconn with rversion := by rw [hmsize, hversion], setting := fun res' h => ?_ }
  rw [if_neg (hselected ▸ hs.supported)] at h
  obtain rfl : res = res' := by simpa using h
  exact ⟨hmsize, hselected⟩

theorem Session.step_inv (hs : Inv s) (hk : keeps cfg (.serving s) l) (h : s.step cfg l = some s') : Inv s' := by
  cases l with
  | frame w f =>
    simp only [Session.step, ite_none_left_eq_some] at h
    obtain ⟨-, h⟩ := h
    obtain ⟨net, hnet, rfl⟩ := map_eq_some_iff.1 h
    exact hs.frame hnet
  | rversion w =>
    obtain ⟨res, hres, h⟩ := bind_eq_some_iff.1 h
    obtain ⟨net, hnet, rfl⟩ := map_eq_some_iff.1 h
    exact hs.rversioned hres hk hnet
  | assign =>
    simp only [Session.step] at h
    split at h
    · cases h
    · rename_i res hset
      obtain ⟨hmsize, hselected⟩ := hs.setting res (.inl hset)
      cases h
      rw [hmsize]
      refine { hs with setting := fun res' h => ?_ }
      obtain rfl : res = res' := by simpa using h
      exact ⟨hmsize, hselected⟩
    · rename_i res hset
      obtain ⟨-, hselected⟩ := hs.setting res (.inr hset)
      cases h
      rw [hselected]
      exact { hs with setting := by simp }
  | conn l =>
    simp only [Session.step, ite_none_right_eq_some] at h
    obtain ⟨hallows, h⟩ := h
    obtain ⟨net, hnet, rfl⟩ := map_eq_some_iff.1 h
    refine hs.conn (fun w tag kind => ?_) hnet
    rintro rfl
    cases hallows
  | negotiateVersion | fail => cases h

theorem step_inv (hs : st.Inv) (hk : keeps cfg st l) (h : step cfg st l = some st') : st'.Inv := by
  cases st with
  | fresh =>
    cases l with
    | negotiateVersion f =>
      cases h
      exact negotiateVersion_inv f
    | fail =>
      cases h
      trivial
    | _ => cases h
  | serving s =>
    obtain ⟨s', hstep, rfl⟩ := map_eq_some_iff.1 h
    exact Session.step_inv hs hk hstep
  | closed => cases h

/-- **Negotiated parameters agree.**  In every run in which every Rversion after the first announces the same values:
when a request is dispatched, the last Rversion has announced a supported version, and its values are those of the
connection, those with which the request was decoded, and those in the handler's context. -/
theorem negotiated_agree (cfg : Config) (ls : List Label) {s : Session}
    (hk : Meets (step cfg) (fun s l => keeps cfg s l) .fresh ls) (h : run (step cfg) .fresh ls = some (.serving s))
    {w : Nat} {r : Conn.Req} (hd : Dispatches cfg s w r) : Agree s r := by
  have hs : State.Inv (.serving s) := run_inv_of_meets step_inv (show State.Inv .fresh from trivial) hk h
  have hlt : r.id < s.decoded.length := by
    rw [hs.length]
    exact hs.log.ids r (hs.log.read_of_pending hd.1 rfl)
  refine ⟨hs.supported, hs.rversion, hs.info, ?_⟩
  rw [List.getElem?_eq_getElem hlt, hs.decoded _ (List.getElem_mem hlt)]

end Runs

/-! ## Runs -/

def versionFrame (msize version : Bytes) : Frame :=
  ⟨typeTversion, noTag, msize ++ [UInt8.ofNat version.length, 0] ++ version⟩

def getattrFrame : Frame := ⟨typeTgetattr, 1, [0, 0, 0, 0, 255, 7, 0, 0, 0, 0, 0, 0]⟩

def clunkFrame : Frame := ⟨typeTclunk, 1, [0, 0, 0, 0]⟩

def go (w n : Nat) : List Label := List.replicate n (.conn (.worker w .go))

/-- The connection is served with 8192 and "9P2000.L". -/
def hello : Label := .negotiateVersion (versionFrame [0, 32, 0, 0] versionL)

/-- Worker `w` reads a Tversion and answers it. -/
def renegotiate (w : Nat) (msize version : Bytes) : List Label :=
  go w 2 ++ .frame w (versionFrame msize version) :: go w 3 ++ [.rversion w]

theorem negotiated_agree_again : ∃ s : Session,
    run (step ⟨2, 65536⟩) .fresh (hello :: renegotiate 0 [0, 32, 0, 0] versionL ++ [.assign, .assign] ++ go 0 3 ++
      [.frame 0 getattrFrame]) = some (.serving s) ∧ Dispatches ⟨2, 65536⟩ s 0 ⟨1, 1, .other⟩ ∧
      Agree s ⟨1, 1, .other⟩ :=
  ⟨_, rfl, ⟨rfl, _, rfl, rfl⟩, negotiated_agree ⟨2, 65536⟩ (hello :: renegotiate 0 [0, 32, 0, 0] versionL ++
    [.assign, .assign] ++ go 0 3 ++ [.frame 0 getattrFrame]) (by decide) rfl (w := 0) ⟨rfl, _, rfl, rfl⟩⟩

/-- The client goes over to 4096 and "9P2000.u", and the handler is told the old values; it asks for a version that the
server does not know, and is served; a Tgetattr is read before and dispatched after the change to "9P2000.u". -/
theorem negotiated_differ :
    (∃ s : Session, run (step ⟨2, 65536⟩) .fresh (hello :: renegotiate 0 [0, 16, 0, 0] versionU ++ [.assign, .assign] ++
        go 0 3 ++ [.frame 0 clunkFrame]) = some (.serving s) ∧
      Dispatches ⟨2, 65536⟩ s 0 ⟨1, 1, .other⟩ ∧ s.rversion = ⟨4096, versionU⟩ ∧ s.info = ⟨versionL, 8192⟩ ∧
      ¬Agree s ⟨1, 1, .other⟩) ∧
    (∃ s : Session, run (step ⟨2, 65536⟩) .fresh (hello :: renegotiate 0 [0, 32, 0, 0] [57, 80] ++ go 0 3 ++
        [.frame 0 clunkFrame]) = some (.serving s) ∧
      Dispatches ⟨2, 65536⟩ s 0 ⟨1, 1, .other⟩ ∧ s.rversion.version = versionUnknown ∧ ¬Agree s ⟨1, 1, .other⟩) ∧
    ∃ s : Session, run (step ⟨2, 65536⟩) .fresh (hello :: go 0 2 ++ .frame 0 getattrFrame ::
        renegotiate 1 [0, 32, 0, 0] versionU ++ [.assign, .assign]) = some (.serving s) ∧
      Dispatches ⟨2, 65536⟩ s 0 ⟨0, 1, .other⟩ ∧ s.protocol = .u ∧ s.decoded[0]? = some ⟨8192, .l⟩ ∧
      ¬Agree s ⟨0, 1, .other⟩ :=
  ⟨⟨_, rfl, ⟨rfl, _, rfl, rfl⟩, rfl, rfl, fun h => by cases h.info⟩,
    ⟨_, rfl, ⟨rfl, _, rfl, rfl⟩, rfl, fun h => by cases h.rversion⟩,
    ⟨_, rfl, ⟨rfl, _, rfl, rfl⟩, rfl, rfl, fun h => by cases h.decoded⟩⟩

end NineP.Server.Negotiation
