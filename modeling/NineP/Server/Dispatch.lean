import NineP.Lib.RefCount
import NineP.Lib.Transition
import NineP.Proto.P9l.Messages
import NineP.Proto.P9u.Messages
import NineP.Server.Fid

/-!
# Sequential requests and the nodes they bind

The handlers of `server/dispatch.go` and `server/bridge.go` that bind, rebind and unbind fids, and the connection
cleanup of `server/cleanup.go`, one request at a time.  What the file system answers is part of the request.  The
reference counts and the log of what happened to nodes outlive a connection.

Left out: a custom `Attacher`, fid paths, the buffers of xattr fids and the inode tree.
-/

namespace NineP.Server.Dispatch

open Proto RefCount

/-- The interfaces of package `server` that a node's type may implement. -/
inductive Capability
  | inodeEmbedder
  | nodeCloser
  | nodeLookuper
  | nodeOpener
  | nodeCreater
  | nodeMkdirer
  | nodeSymlinker
  | nodeMknoder
  | nodeXattrLister
  | nodeXattrGetter
  | nodeXattrSetter
  | nodeXattrRemover
  | rawXattrer
  deriving DecidableEq

/-- A server and the nodes it may meet. -/
structure Config (ν : Type) where
  root : ν
  /-- `nil` unless the server was built `WithAnames`. -/
  anames : Option (List (Codec.Bytes × ν))
  maxFids : Int
  qid : ν → QID
  implements : ν → Capability → Bool

/-- Every node embeds `Inode`, which implements all interfaces but `RawXattrer`. -/
def Config.EmbedsInode {ν : Type} (cfg : Config ν) : Prop :=
  ∀ n c, c ≠ .rawXattrer → cfg.implements n c = true

/-- The server state that requests act on. -/
structure State (ν η : Type) where
  fids : FidTable ν η
  msize : UInt32
  /-- `Inode.refs`. -/
  refs : ν → Int
  /-- Newest first. -/
  log : List (Event ν)

/-- The answers of the modelled handlers. -/
inductive Reply
  | rattach (qid : QID)
  | rwalk (qids : List QID)
  | rclunk
  | rremove
  | rlopen (qid : QID) (iounit : UInt32)
  | ropen (qid : QID) (iounit : UInt32)
  | rlcreate (qid : QID) (iounit : UInt32)
  | rcreate (qid : QID) (iounit : UInt32)
  | rmkdir (qid : QID)
  | rsymlink (qid : QID)
  | rmknod (qid : QID)
  | rxattrwalk (size : UInt64)
  | rxattrcreate
  | error (e : Errno)
  deriving DecidableEq

variable {ν η : Type} [DecidableEq ν]

/-! ## Nodes -/

namespace State

def record (s : State ν η) (e : Event ν) : State ν η := { s with log := e :: s.log }

def incRefNode (cfg : Config ν) (s : State ν η) (n : ν) : State ν η :=
  if cfg.implements n .inodeEmbedder then { s with refs := Function.update s.refs n (s.refs n + 1) } else s

def decRefNode (cfg : Config ν) (s : State ν η) (n : ν) : Bool × State ν η :=
  if cfg.implements n .inodeEmbedder then
    (s.refs n - 1 == 0, { s with refs := Function.update s.refs n (s.refs n - 1) })
  else (true, s)

def closeOrphanNode (cfg : Config ν) (s : State ν η) (n : ν) : State ν η :=
  if cfg.implements n .nodeCloser then s.record (.close n) else s

def closeUnboundNode (cfg : Config ν) (s : State ν η) (n : ν) : State ν η :=
  if cfg.implements n .inodeEmbedder ∧ s.refs n ≠ 0 then s else s.closeOrphanNode cfg n

/-- `releaseNow`, the release of the handle apart. -/
def releaseNow (cfg : Config ν) (s : State ν η) (fs : FidState ν η) (closeNode : Bool) : State ν η :=
  if closeNode then s.closeOrphanNode cfg fs.node else s

def finishClunk (cfg : Config ν) (s : State ν η) (fs : FidState ν η) (closeNode : Bool) : State ν η :=
  let (release, fs) := fs.finishClunk closeNode
  if release then s.releaseNow cfg fs closeNode else s

/-- `c.fids.add` and, when it succeeds, `incRefNode`. -/
def addFid (cfg : Config ν) (s : State ν η) (fid : Fid) (fs : FidState ν η) : Except Errno (State ν η) :=
  match s.fids.add fid fs cfg.maxFids with
  | .error .fidLimitExceeded => .error EMFILE
  | .error .fidInUse => .error EBADF
  | .ok fids => .ok (({ s with fids := fids }.record (.bind fs.node)).incRefNode cfg fs.node)

end State

/-! ## Names -/

def validatePathElement (name : Codec.Bytes) : Bool := !name.isEmpty && !name.contains 0x2f && !name.contains 0

/-- `validName`: also neither dot nor dot-dot. -/
def validName (name : Codec.Bytes) : Bool :=
  !name.isEmpty && name != [0x2e] && name != [0x2e, 0x2e] && !name.contains 0x2f && !name.contains 0

def openFlagsFromUMode (mode : UInt8) : Option UInt32 := if mode ≤ 2 then some mode.toUInt32 else none

/-- `validUCreatePerm`: none of `DMDIR`, `DMSYMLINK`, `DMDEVICE`, `DMNAMEDPIPE` and `DMSOCKET`. -/
def validUCreatePerm (perm : FileMode) (extension : Codec.Bytes) : Bool :=
  extension.isEmpty && perm &&& (0x80000000 ||| 0x02000000 ||| 0x00800000 ||| 0x00200000 ||| 0x00100000) == 0

def clampIOUnit (msize hint : UInt32) : UInt32 :=
  let maxIOUnit := msize - headerSize - 4
  if hint = 0 ∨ hint > maxIOUnit then maxIOUnit else hint

/-! ## Attach and walk -/

/-- The root node of an attach. -/
def Config.resolve (cfg : Config ν) (aname : Codec.Bytes) : Except Errno ν :=
  match cfg.anames with
  | some anames =>
    if aname = [] then .ok cfg.root
    else match anames.lookup aname with
      | some node => .ok node
      | none => .error ENOENT
  | none => .ok cfg.root

def handleAttach (cfg : Config ν) (s : State ν η) (ta : Tattach) : Reply × State ν η :=
  if ta.afid ≠ noFid then (.error ENOSYS, s)
  else match cfg.resolve ta.aname with
    | .error e => (.error e, s)
    | .ok node =>
      let s := s.record (.lent node)
      match s.addFid cfg ta.fid (.bound node .allocated) with
      | .error e => (.error e, s)
      | .ok s => (.rattach (cfg.qid node), s)

/-- Where the loop of `handleWalk` stopped. -/
structure Walked (ν : Type) where
  current : ν
  qids : List QID
  /-- Why it stopped before the last name. -/
  stop : Option Errno

/-- The loop of `handleWalk`; `lookup i` is what the `i`-th call of `Lookup` returns. -/
def walkNames (cfg : Config ν) (lookup : Nat → Except Errno ν) (walkStart : ν) :
    List Codec.Bytes → ν → List QID → State ν η → Walked ν × State ν η
  | [], current, qids, s => (⟨current, qids, none⟩, s)
  | _ :: names, current, qids, s =>
    if (cfg.qid current).type &&& qtDir = 0 then (⟨current, qids, some ENOTDIR⟩, s)
    else if !cfg.implements current .nodeLookuper then (⟨current, qids, some ENOTDIR⟩, s)
    else match lookup qids.length with
      | .error e => (⟨current, qids, some e⟩, s)
      | .ok child =>
        let s := s.record (.given child)
        let s := if current ≠ walkStart ∧ current ≠ child then s.closeUnboundNode cfg current else s
        walkNames cfg lookup walkStart names child (qids ++ [cfg.qid child]) s

def handleWalk (cfg : Config ν) (s : State ν η) (tw : Twalk) (lookup : Nat → Except Errno ν) : Reply × State ν η :=
  match s.fids.get tw.fid with
  | none => (.error EBADF, s)
  | some src =>
    if tw.names = [] then
      if tw.fid = tw.newFid then (.rwalk [], s)
      else match s.addFid cfg tw.newFid (.bound src.node .allocated) with
        | .error e => (.error e, s)
        | .ok s => (.rwalk [], s)
    else if tw.names.any (!validatePathElement ·) then (.error EINVAL, s)
    else
      let walkStart := src.node
      let (w, s) := walkNames cfg lookup walkStart tw.names walkStart [] s
      -- the first name failed: an error; a later one: a partial walk
      match w.qids, w.stop with
      | [], some e => (.error e, s)
      | qids, _ =>
        if qids.length = tw.names.length then
          if tw.fid = tw.newFid then
            match s.fids.update tw.fid w.current with
            | some (prev, fids) =>
              let s := ({ s with fids := fids }.record (.bind w.current)).incRefNode cfg w.current
              (.rwalk qids, (s.decRefNode cfg prev).2)
            | none => (.rwalk qids, if w.current ≠ walkStart then s.closeUnboundNode cfg w.current else s)
          else match s.addFid cfg tw.newFid (.bound w.current .allocated) with
            | .error e => (.error e, if w.current ≠ walkStart then s.closeUnboundNode cfg w.current else s)
            | .ok s => (.rwalk qids, s)
        else (.rwalk qids, if w.current ≠ walkStart then s.closeUnboundNode cfg w.current else s)

/-! ## Clunk and remove -/

/-- `handleClunk`; `commit` is how the commit of an xattr-write fid ends. -/
def handleClunk (cfg : Config ν) (s : State ν η) (tc : Tclunk) (commit : Except Errno Unit) : Reply × State ν η :=
  match s.fids.clunk tc.fid with
  | none => (.error EBADF, s)
  | some (fs, fids) =>
    let (lastRef, s) := { s with fids := fids }.decRefNode cfg fs.node
    if fs.state = .xattrWrite then
      match commit with
      | .error e => (.error e, s)
      | .ok () => (.rclunk, s)
    else (.rclunk, s.finishClunk cfg fs lastRef)

/-- `handleRemove`; `unlink` is how `removeViaInodeTree` ends. -/
def handleRemove (cfg : Config ν) (s : State ν η) (tr : Tremove) (unlink : Except Errno Unit) : Reply × State ν η :=
  match s.fids.clunk tr.fid with
  | none => (.error EBADF, s)
  | some (fs, fids) =>
    let (lastRef, s) := { s with fids := fids }.decRefNode cfg fs.node
    let s := s.finishClunk cfg fs lastRef
    match unlink with
    | .error e => (.error e, s)
    | .ok () => (.rremove, s)

/-! ## Open and create -/

/-- `openFid`; `result` is the handle and the iounit hint that `Open` returns. -/
def openFid (cfg : Config ν) (s : State ν η) (fid : Fid) (result : Except Errno (Option η × UInt32))
    (reply : QID → UInt32 → Reply) : Reply × State ν η :=
  match s.fids.get fid with
  | none => (.error EBADF, s)
  | some fs =>
    if fs.state ≠ .allocated then (.error EBADF, s)
    else if !cfg.implements fs.node .nodeOpener then (.error ENOSYS, s)
    else match result with
      | .error e => (.error e, s)
      | .ok (handle, iounitHint) =>
        match s.fids.markOpenedWithHandle fid handle with
        | none => (.error EBADF, s)
        | some fids => (reply (cfg.qid fs.node) (clampIOUnit s.msize iounitHint), { s with fids := fids })

def handleLopen (cfg : Config ν) (s : State ν η) (m : P9l.Tlopen) (result : Except Errno (Option η × UInt32)) :
    Reply × State ν η :=
  openFid cfg s m.fid result .rlopen

def handleUOpen (cfg : Config ν) (s : State ν η) (m : P9u.Topen) (result : Except Errno (Option η × UInt32)) :
    Reply × State ν η :=
  match openFlagsFromUMode m.mode with
  | none => (.error ENOSYS, s)
  | some _ => openFid cfg s m.fid result .ropen

/-- What `handleLcreate` and `handleUCreate` share; `result` is the child, its handle and the iounit hint that
`Create` returns. -/
def createFid (cfg : Config ν) (s : State ν η) (fid : Fid) (name : Codec.Bytes)
    (result : Except Errno (ν × Option η × UInt32)) (reply : QID → UInt32 → Reply) : Reply × State ν η :=
  match s.fids.get fid with
  | none => (.error EBADF, s)
  | some fs =>
    if fs.state ≠ .allocated then (.error EBADF, s)
    else if !validName name then (.error EINVAL, s)
    else if !cfg.implements fs.node .nodeCreater then (.error ENOSYS, s)
    else match result with
      | .error e => (.error e, s)
      | .ok (child, handle, iounitHint) =>
        let s := s.record (.given child)
        match s.fids.updateAndOpen fid child handle with
        | none => (.error EBADF, s.closeOrphanNode cfg child)
        | some (prev, fids) =>
          let s := ({ s with fids := fids }.record (.bind child)).incRefNode cfg child
          (reply (cfg.qid child) (clampIOUnit s.msize iounitHint), (s.decRefNode cfg prev).2)

def handleLcreate (cfg : Config ν) (s : State ν η) (m : P9l.Tlcreate)
    (result : Except Errno (ν × Option η × UInt32)) : Reply × State ν η :=
  createFid cfg s m.fid m.name result .rlcreate

def handleUCreate (cfg : Config ν) (s : State ν η) (m : P9u.Tcreate)
    (result : Except Errno (ν × Option η × UInt32)) : Reply × State ν η :=
  match openFlagsFromUMode m.mode with
  | none => (.error ENOSYS, s)
  | some _ =>
    if !validUCreatePerm m.perm m.extension then (.error ENOSYS, s)
    else createFid cfg s m.fid m.name result .rcreate

/-- What `handleMkdir`, `handleSymlink` and `handleMknod` share: the directory fid is not rebound. -/
def makeChild (cfg : Config ν) (s : State ν η) (capability : Capability) (dirFid : Fid) (name : Codec.Bytes)
    (result : Except Errno ν) (reply : QID → Reply) : Reply × State ν η :=
  match s.fids.get dirFid with
  | none => (.error EBADF, s)
  | some fs =>
    if !validName name then (.error EINVAL, s)
    else if !cfg.implements fs.node capability then (.error ENOSYS, s)
    else match result with
      | .error e => (.error e, s)
      | .ok child => (reply (cfg.qid child), s.record (.given child))

def handleMkdir (cfg : Config ν) (s : State ν η) (m : P9l.Tmkdir) (result : Except Errno ν) : Reply × State ν η :=
  makeChild cfg s .nodeMkdirer m.dirFid m.name result .rmkdir

def handleSymlink (cfg : Config ν) (s : State ν η) (m : P9l.Tsymlink) (result : Except Errno ν) :
    Reply × State ν η :=
  makeChild cfg s .nodeSymlinker m.dirFid m.name result .rsymlink

def handleMknod (cfg : Config ν) (s : State ν η) (m : P9l.Tmknod) (result : Except Errno ν) : Reply × State ν η :=
  makeChild cfg s .nodeMknoder m.dirFid m.name result .rmknod

/-! ## Extended attributes -/

def addXattrReadFid (cfg : Config ν) (s : State ν η) (newFid : Fid) (node : ν) (size : UInt64) : Reply × State ν η :=
  match s.addFid cfg newFid (.bound node .xattrRead) with
  | .error e => (.error e, s)
  | .ok s => (.rxattrwalk size, s)

/-- `handleXattrwalk`; `result` is the size of what the file system returns. -/
def handleXattrwalk (cfg : Config ν) (s : State ν η) (m : P9l.Txattrwalk) (result : Except Errno UInt64) :
    Reply × State ν η :=
  match s.fids.get m.fid with
  | none => (.error EBADF, s)
  | some fs =>
    if !cfg.implements fs.node .rawXattrer ∧ m.name = [] ∧ !cfg.implements fs.node .nodeXattrLister then
      (.error ENOSYS, s)
    else if !cfg.implements fs.node .rawXattrer ∧ m.name ≠ [] ∧ !cfg.implements fs.node .nodeXattrGetter then
      (.error ENOSYS, s)
    else match result with
      | .error e => (.error e, s)
      | .ok size => addXattrReadFid cfg s m.newFid fs.node size

/-- `handleXattrcreate`; `result` is what a `RawXattrer` answers. -/
def handleXattrcreate (cfg : Config ν) (s : State ν η) (m : P9l.Txattrcreate) (result : Except Errno Unit) :
    Reply × State ν η :=
  match s.fids.get m.fid with
  | none => (.error EBADF, s)
  | some fs =>
    let accept := (Reply.rxattrcreate, { s with fids := s.fids.insert m.fid { fs with state := .xattrWrite } })
    if fs.state ≠ .allocated then (.error EBADF, s)
    else if m.attrSize > s.msize.toUInt64 then (.error EINVAL, s)
    else if cfg.implements fs.node .rawXattrer then
      match result with
      | .error e => (.error e, s)
      | .ok () => accept
    else if !cfg.implements fs.node (if m.attrSize = 0 then .nodeXattrRemover else .nodeXattrSetter) then
      (.error ENOSYS, s)
    else accept

/-! ## Runs -/

/-- A request and what the file system answers to it. -/
inductive Request (ν η : Type)
  | attach (m : Tattach)
  | walk (m : Twalk) (lookup : Nat → Except Errno ν)
  | clunk (m : Tclunk) (commit : Except Errno Unit)
  | remove (m : Tremove) (unlink : Except Errno Unit)
  | lopen (m : P9l.Tlopen) (result : Except Errno (Option η × UInt32))
  | uOpen (m : P9u.Topen) (result : Except Errno (Option η × UInt32))
  | lcreate (m : P9l.Tlcreate) (result : Except Errno (ν × Option η × UInt32))
  | uCreate (m : P9u.Tcreate) (result : Except Errno (ν × Option η × UInt32))
  | mkdir (m : P9l.Tmkdir) (result : Except Errno ν)
  | symlink (m : P9l.Tsymlink) (result : Except Errno ν)
  | mknod (m : P9l.Tmknod) (result : Except Errno ν)
  | xattrwalk (m : P9l.Txattrwalk) (result : Except Errno UInt64)
  | xattrcreate (m : P9l.Txattrcreate) (result : Except Errno Unit)
  /-- Any other request: it binds no fid and closes no node. -/
  | other (reply : Reply)

def dispatch (cfg : Config ν) (s : State ν η) : Request ν η → Reply × State ν η
  | .attach m => handleAttach cfg s m
  | .walk m lookup => handleWalk cfg s m lookup
  | .clunk m commit => handleClunk cfg s m commit
  | .remove m unlink => handleRemove cfg s m unlink
  | .lopen m result => handleLopen cfg s m result
  | .uOpen m result => handleUOpen cfg s m result
  | .lcreate m result => handleLcreate cfg s m result
  | .uCreate m result => handleUCreate cfg s m result
  | .mkdir m result => handleMkdir cfg s m result
  | .symlink m result => handleSymlink cfg s m result
  | .mknod m result => handleMknod cfg s m result
  | .xattrwalk m result => handleXattrwalk cfg s m result
  | .xattrcreate m result => handleXattrcreate cfg s m result
  | .other reply => (reply, s)

/-- `clunkAll` empties the table. -/
def State.clunkAll (s : State ν η) : State ν η := { s with fids := ∅ }

/-- What re-negotiation and cleanup do with the states that `clunkAll` returned; handles and nodes are released
only when the handlers drained. -/
def releaseStates (cfg : Config ν) (drained : Bool) : State ν η → List (FidState ν η) → State ν η
  | s, [] => s
  | s, fs :: fss =>
    let (lastRef, s) := s.decRefNode cfg fs.node
    releaseStates cfg drained (if drained then s.releaseNow cfg fs lastRef else s) fss

/-- A request, a `Tversion` on the connection, or the end of the connection and the start of the next one.  Map
iteration returns the fid states in any order. -/
inductive Label (ν η : Type)
  | request (r : Request ν η)
  | version (order : List (FidState ν η)) (msize : UInt32)
  | cleanup (drained : Bool) (order : List (FidState ν η)) (msize : UInt32)

variable [DecidableEq η]

def step (cfg : Config ν) (s : State ν η) : Label ν η → Option (State ν η)
  | .request r => some (dispatch cfg s r).2
  | .version order msize =>
    if order.isPerm s.fids.states then
      some { releaseStates cfg true s.clunkAll order with msize := msize }
    else none
  | .cleanup drained order msize =>
    if order.isPerm s.fids.states then
      some { releaseStates cfg drained s.clunkAll order with msize := msize }
    else none

/-- The server before its first connection. -/
def init (msize : UInt32) : State ν η where
  fids := ∅
  msize := msize
  refs := fun _ => 0
  log := []

end NineP.Server.Dispatch
