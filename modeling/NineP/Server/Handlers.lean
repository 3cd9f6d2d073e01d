import NineP.Lib.Program
import NineP.Server.Dispatch

/-!
# The handlers as programs

The handlers of `server/dispatch.go` and `server/bridge.go`, and what `handleReVersion` and `cleanup` do with the fids,
as programs over the steps that other handlers can come between: the critical sections of the fid table and of a fid
state, the reference counts, and the calls into the file system.  A file handle is known by the number of the call that
returned it.

Left out: what a reply carries beyond its error, arguments that the server only passes on, the contents of directory
listings, and the updates of the inode tree (what the tree answers is the environment's choice).
-/

namespace NineP.Server.Handlers

open Codec Proto Program

/-! ## Nodes and file handles -/

/-- The interfaces of package `server` that a node's type may implement. -/
inductive Iface
  | inodeEmbedder
  | nodeCloser
  | nodeLookuper
  | nodeOpener
  | nodeCreater
  | nodeMkdirer
  | nodeSymlinker
  | nodeLinker
  | nodeMknoder
  | nodeReadlinker
  | nodeStatFSer
  | nodeGetattrer
  | nodeSetattrer
  | nodeReader
  | nodeWriter
  | nodeRawReaddirer
  | nodeReaddirer
  | nodeFsyncer
  | nodeUnlinker
  | nodeRenamer
  | nodeLocker
  | nodeXattrGetter
  | nodeXattrSetter
  | nodeXattrLister
  | nodeXattrRemover
  | rawXattrer
  deriving DecidableEq

/-- The interfaces that a file handle's type may implement. -/
inductive FileIface
  | fileReader
  | fileWriter
  | fileRawReaddirer
  | fileReaddirer
  | fileSyncer
  | fileLocker
  | fileReleaser
  deriving DecidableEq

/-- What a call of `Open` or `Create` returned; a nil handle implements nothing. -/
structure Handle where
  id : Nat
  ifaces : List FileIface
  deriving DecidableEq

def Handle.implements (h : Handle) (i : FileIface) : Bool := h.ifaces.contains i

structure Config (ν : Type) where
  /-- The server was built with an `Attacher`. -/
  attacher : Bool
  root : ν
  anames : Option (List (Bytes × ν))
  maxFids : Int
  implements : ν → Iface → Bool

/-- The xattr fields of a fid state. -/
structure Xattr (ν : Type) where
  node : ν
  name : Bytes
  size : UInt64
  flags : UInt32
  data : Bytes
  /-- A `RawXattrer` gave a writer. -/
  writer : Bool

/-- The calls into the file system. -/
inductive Method (ν : Type)
  | attach (aname : Bytes)
  -- methods of nodes
  | qid
  | lookup (name : Bytes)
  | openNode (flags : UInt32)
  | create (name : Bytes) (flags : UInt32) (mode : FileMode) (gid : UInt32)
  | mkdir (name : Bytes)
  | symlink (name target : Bytes)
  | mknod (name : Bytes)
  | link (target : ν) (name : Bytes)
  | unlink (name : Bytes) (flags : UInt32)
  | rename (oldName : Bytes) (newDir : ν) (newName : Bytes)
  | getattr
  | setattr
  | readlink
  | statFS
  | read (offset : UInt64) (count : UInt32)
  | write (offset : UInt64) (data : Bytes)
  | readdir
  | rawReaddir (offset : UInt64) (count : UInt32)
  | fsync
  | lock
  | getLock
  | listXattrs
  | getXattr (name : Bytes)
  | setXattr (name data : Bytes) (flags : UInt32)
  | removeXattr (name : Bytes)
  | handleXattrwalk (name : Bytes)
  | handleXattrcreate (name : Bytes) (size : UInt64) (flags : UInt32)
  -- methods of file handles and of xattr writers
  | onHandle (h : Nat) (i : FileIface)
  | writeXattr (data : Bytes)
  | commitXattr
  -- the inode tree: the parent of a node, and the name that the parent has for it
  | parent (n : ν)
  | childName (n parent : ν)

/-- What a call returns when it succeeds. -/
abbrev Method.Out {ν : Type} : Method ν → Type
  | .attach _ | .lookup _ | .mkdir _ | .symlink _ _ | .mknod _ => ν
  | .openNode _ => Handle
  | .create _ _ _ _ => ν × Handle
  | .qid => QID
  | .parent _ => Option ν
  | .childName _ _ => Option Bytes
  | _ => Unit

/-! ## Commands -/

/-- What the critical section of `handleWrite` finds. -/
inductive XattrWrite
  | refused (e : Errno)
  | writer
  | appended
  | other (state : FidStatus)  -- not an xattr-write fid
  deriving DecidableEq

inductive Cmd (ν : Type)
  -- the fid table of the connection
  | get (fid : Fid)
  | add (fid : Fid) (node : ν) (state : FidStatus)
  | clunk (fid : Fid)
  | clunkAll
  | update (fid : Fid) (node : ν)
  | markOpenedWithHandle (fid : Fid) (h : Handle)
  | updateAndOpen (fid : Fid) (node : ν) (h : Handle)
  -- fid states
  | currentState (fs : Nat)
  | currentNode (fs : Nat)
  | handle (fs : Nat)
  | takeHandle (fs : Nat)  -- the read of the handle in `releaseNow`
  | beginIo (fs : Nat)
  | endIo (fs : Nat)
  | finishClunk (fs : Nat) (closeNode : Bool)
  | setXattrWrite (fs : Nat) (name : Bytes) (size : UInt64) (flags : UInt32) (writer : Bool)
  | takeXattr (fs : Nat)  -- the critical section of `handleClunk`
  | appendXattr (fs : Nat) (data : Bytes)  -- the critical section of `handleWrite`
  | dirStale (fs : Nat) (offset : UInt64)  -- the first critical section of `readdirSimple`
  | dirStore (fs : Nat)  -- the second one
  | msize
  -- nodes and handles
  | incRef (n : ν)
  | decRef (n : ν)
  | refs (n : ν)
  | call (n : Option ν) (m : Method ν)
  | release (h : Handle)
  | close (n : ν)

abbrev Cmd.Res {ν : Type} : Cmd ν → Type
  | .get _ | .clunk _ => Option Nat
  | .add _ _ _ => Except AddErr Unit
  | .clunkAll => List Nat
  | .update _ _ | .updateAndOpen _ _ _ => Option ν
  | .markOpenedWithHandle _ _ | .beginIo _ | .finishClunk _ _ | .dirStale _ _ | .decRef _ => Bool
  | .currentState _ => FidStatus
  | .currentNode _ => ν
  | .handle _ | .takeHandle _ => Option Handle
  | .endIo _ => Bool × Bool
  | .takeXattr _ => Option (Xattr ν)
  | .appendXattr _ _ => XattrWrite
  | .msize => UInt32
  | .refs _ => Int
  | .call _ m => Except Errno m.Out
  | _ => Unit

abbrev Op (ν : Type) := Prog (Cmd ν) Cmd.Res

/-- The error of the reply, if any. -/
abbrev Answer := Except Errno Unit

variable {ν : Type}

/-- A single command. -/
def exec (c : Cmd ν) : Op ν c.Res := .lift c

def call (n : ν) (m : Method ν) : Op ν (Except Errno m.Out) := .lift (Cmd.call (some n) m)

/-- A call on something that is not a node. -/
def callOther (m : Method ν) : Op ν (Except Errno m.Out) := .lift (Cmd.call none m)

/-- The outcome of a call, as far as the reply tells. -/
def outcome {α : Type} : Except Errno α → Answer
  | .ok _ => .ok ()
  | .error e => .error e

/-! ## Nodes -/

section Nodes

variable (cfg : Config ν)

def incRefNode (n : ν) : Op ν Unit := if cfg.implements n .inodeEmbedder then exec (.incRef n) else pure ()

def decRefNode (n : ν) : Op ν Bool := if cfg.implements n .inodeEmbedder then exec (.decRef n) else pure true

def closeOrphanNode (n : ν) : Op ν Unit := if cfg.implements n .nodeCloser then exec (.close n) else pure ()

def closeUnboundNode (n : ν) : Op ν Unit :=
  if cfg.implements n .inodeEmbedder then do
    let refs ← exec (.refs n)
    if refs ≠ 0 then pure () else closeOrphanNode cfg n
  else closeOrphanNode cfg n

def releaseFileHandle : Option Handle → Op ν Unit
  | none => pure ()
  | some h => if h.implements .fileReleaser then exec (.release h) else pure ()

def releaseNow (fs : Nat) (closeNode : Bool) : Op ν Unit := do
  let h ← exec (.takeHandle fs)
  releaseFileHandle h
  if closeNode then do
    let node ← exec (.currentNode fs)
    closeOrphanNode cfg node
  else pure ()

def finishClunk (fs : Nat) (closeNode : Bool) : Op ν Unit := do
  let release ← exec (.finishClunk fs closeNode)
  if release then releaseNow cfg fs closeNode else pure ()

def endIo (fs : Nat) : Op ν Unit := do
  let (release, closeNode) ← exec (.endIo fs)
  if release then releaseNow cfg fs closeNode else pure ()

/-- `c.fids.add` and, when it succeeds, `incRefNode`. -/
def addFid (fid : Fid) (node : ν) (state : FidStatus) : Op ν Answer := do
  match ← exec (.add fid node state) with
  | .error .fidLimitExceeded => pure (.error EMFILE)
  | .error .fidInUse => pure (.error EBADF)
  | .ok () => do
    incRefNode cfg node
    pure (.ok ())

/-- The node was unbound from a fid: its reference count follows. -/
def rebound (node prev : ν) : Op ν Unit := do
  incRefNode cfg node
  let _ ← decRefNode cfg prev
  pure ()

end Nodes

/-! ## Attach and walk -/

section Walk

variable (cfg : Config ν)

/-- The root node of an attach. -/
def resolveRoot (aname : Bytes) : Op ν (Except Errno ν) :=
  if cfg.attacher then callOther (.attach aname)
  else match cfg.anames with
    | some anames =>
      if aname = [] then pure (.ok cfg.root)
      else match anames.lookup aname with
        | some node => pure (.ok node)
        | none => pure (.error ENOENT)
    | none => pure (.ok cfg.root)

def handleAttach (m : Tattach) : Op ν Answer :=
  if m.afid ≠ noFid then pure (.error ENOSYS)
  else do
    match ← resolveRoot cfg m.aname with
    | .error e => pure (.error e)
    | .ok node => do
      match ← addFid cfg m.fid node .allocated with
      | .error e => pure (.error e)
      | .ok () => do
        let _ ← call node .qid
        pure (.ok ())

/-- Where the loop of `handleWalk` stopped. -/
structure Walked (ν : Type) where
  current : ν
  /-- How many names were walked. -/
  count : Nat
  /-- Why it stopped before the last name. -/
  stop : Option Errno

/-- The node is a directory that can be walked. -/
def checkDir (n : ν) : Op ν Bool := do
  match ← call n .qid with
  | .ok qid => pure (qid.type &&& qtDir ≠ 0 ∧ cfg.implements n .nodeLookuper)
  | .error _ => pure false

variable [DecidableEq ν]

/-- The loop of `handleWalk`. -/
def walkNames (walkStart : ν) : List Bytes → ν → Nat → Op ν (Walked ν)
  | [], current, count => pure ⟨current, count, none⟩
  | name :: names, current, count => do
    if ← checkDir cfg current then do
      match ← call current (.lookup name) with
      | .error e => pure ⟨current, count, some e⟩
      | .ok child => do
        let _ ← call child .qid
        if current ≠ walkStart ∧ current ≠ child then do
          closeUnboundNode cfg current
          walkNames walkStart names child (count + 1)
        else walkNames walkStart names child (count + 1)
    else pure ⟨current, count, some ENOTDIR⟩

/-- The node that a walk reached is bound to no fid. -/
def dropWalked (walkStart current : ν) : Op ν Unit :=
  if current ≠ walkStart then closeUnboundNode cfg current else pure ()

def bindWalked (m : Twalk) (walkStart current : ν) : Op ν Answer :=
  if m.fid = m.newFid then do
    match ← exec (.update m.fid current) with
    | some prev => do
      rebound cfg current prev
      pure (.ok ())
    | none => do
      dropWalked cfg walkStart current
      pure (.ok ())
  else do
    match ← addFid cfg m.newFid current .allocated with
    | .error e => do
      dropWalked cfg walkStart current
      pure (.error e)
    | .ok () => pure (.ok ())

def handleWalk (m : Twalk) : Op ν Answer := do
  match ← exec (.get m.fid) with
  | none => pure (.error EBADF)
  | some src =>
    if m.names = [] then
      if m.fid = m.newFid then pure (.ok ())
      else do
        let node ← exec (.currentNode src)
        addFid cfg m.newFid node .allocated
    else if m.names.any (!Dispatch.validatePathElement ·) then pure (.error EINVAL)
    else do
      let walkStart ← exec (.currentNode src)
      let w ← walkNames cfg walkStart m.names walkStart 0
      match w.stop with
      | none => bindWalked cfg m walkStart w.current
      | some e =>
        -- the first name failed: an error; a later one: a partial walk
        if w.count = 0 then pure (.error e)
        else do
          dropWalked cfg walkStart w.current
          pure (.ok ())

end Walk

/-! ## Clunk and remove -/

section Clunk

variable (cfg : Config ν)

/-- What `handleClunk` does for an xattr-write fid. -/
def commitXattr (x : Xattr ν) : Op ν Answer :=
  if x.writer then callOther .commitXattr
  else if x.size = 0 then
    if cfg.implements x.node .nodeXattrRemover then call x.node (.removeXattr x.name) else pure (.ok ())
  else if x.data.length ≠ x.size.toNat then pure (.error EIO)
  else if cfg.implements x.node .nodeXattrSetter then call x.node (.setXattr x.name x.data x.flags)
  else pure (.error ENOSYS)

def handleClunk (m : Tclunk) : Op ν Answer := do
  match ← exec (.clunk m.fid) with
  | none => pure (.error EBADF)
  | some fs => do
    let node ← exec (.currentNode fs)
    let lastRef ← decRefNode cfg node
    match ← exec (.takeXattr fs) with
    | some x => commitXattr cfg x
    | none => do
      finishClunk cfg fs lastRef
      pure (.ok ())

/-- The parent of a node in the inode tree and the name that it has there. -/
def inodeEntry (node : ν) : Op ν (Except Errno (ν × Bytes)) :=
  if cfg.implements node .inodeEmbedder then do
    match ← callOther (.parent node) with
    | .ok (some parent) => do
      match ← callOther (.childName node parent) with
      | .ok (some name) => pure (.ok (parent, name))
      | _ => pure (.error EINVAL)
    | _ => pure (.error ENOSYS)
  else pure (.error ENOSYS)

def removeViaInodeTree (node : ν) : Op ν Answer := do
  match ← inodeEntry cfg node with
  | .error e => pure (.error e)
  | .ok (parent, name) =>
    if cfg.implements parent .nodeUnlinker then call parent (.unlink name 0) else pure (.error ENOSYS)

def handleRemove (m : Tremove) : Op ν Answer := do
  match ← exec (.clunk m.fid) with
  | none => pure (.error EBADF)
  | some fs => do
    let node ← exec (.currentNode fs)
    let removeErr ← removeViaInodeTree cfg node
    let node ← exec (.currentNode fs)
    let lastRef ← decRefNode cfg node
    finishClunk cfg fs lastRef
    pure removeErr

end Clunk

/-! ## Open and create -/

section Open

variable (cfg : Config ν)

/-- `nodeQID` of the node that the fid is bound to by now. -/
def currentQID (fs : Nat) : Op ν Unit := do
  let node ← exec (.currentNode fs)
  let _ ← call node .qid
  pure ()

def openFid (fid : Fid) (flags : UInt32) : Op ν Answer := do
  match ← exec (.get fid) with
  | none => pure (.error EBADF)
  | some fs => do
    let state ← exec (.currentState fs)
    if state ≠ .allocated then pure (.error EBADF)
    else do
      let node ← exec (.currentNode fs)
      if cfg.implements node .nodeOpener then do
        match ← call node (.openNode flags) with
        | .error e => pure (.error e)
        | .ok h => do
          currentQID fs
          if ← exec (.markOpenedWithHandle fid h) then pure (.ok ())
          else do
            releaseFileHandle (some h)
            pure (.error EBADF)
      else pure (.error ENOSYS)

def handleLopen (m : P9l.Tlopen) : Op ν Answer := openFid cfg m.fid m.flags

def handleUOpen (m : P9u.Topen) : Op ν Answer :=
  match Dispatch.openFlagsFromUMode m.mode with
  | none => pure (.error ENOSYS)
  | some flags => openFid cfg m.fid flags

/-- What `handleLcreate` and `handleUCreate` share. -/
def createFid (fid : Fid) (name : Bytes) (flags : UInt32) (mode : FileMode) (gid : UInt32) : Op ν Answer := do
  match ← exec (.get fid) with
  | none => pure (.error EBADF)
  | some fs => do
    let state ← exec (.currentState fs)
    if state ≠ .allocated then pure (.error EBADF)
    else if !Dispatch.validName name then pure (.error EINVAL)
    else do
      let parentNode ← exec (.currentNode fs)
      if cfg.implements parentNode .nodeCreater then do
        match ← call parentNode (.create name flags mode gid) with
        | .error e => pure (.error e)
        | .ok (child, h) => do
          match ← exec (.updateAndOpen fid child h) with
          | none => do
            releaseFileHandle (some h)
            closeOrphanNode cfg child
            pure (.error EBADF)
          | some prev => do
            rebound cfg child prev
            let _ ← call child .qid
            pure (.ok ())
      else pure (.error ENOSYS)

def handleLcreate (m : P9l.Tlcreate) : Op ν Answer := createFid cfg m.fid m.name m.flags m.mode m.gid

def handleUCreate (m : P9u.Tcreate) : Op ν Answer :=
  match Dispatch.openFlagsFromUMode m.mode with
  | none => pure (.error ENOSYS)
  | some flags =>
    if !Dispatch.validUCreatePerm m.perm m.extension then pure (.error ENOSYS)
    else createFid cfg m.fid m.name flags m.perm 0

end Open

/-! ## I/O on open fids -/

section Io

variable (cfg : Config ν)

/-- `beginIO`, the body, and the deferred `endIO`. -/
def withIo (fs : Nat) (body : Op ν Answer) : Op ν Answer := do
  if ← exec (.beginIo fs) then do
    let answer ← body
    endIo cfg fs
    pure answer
  else pure (.error EBADF)

/-- The node that the fid is bound to by now, if it implements the interface. -/
def onCurrentNode (fs : Nat) (i : Iface) (m : Method ν) : Op ν Answer := do
  let node ← exec (.currentNode fs)
  if cfg.implements node i then do
    let r ← call node m
    pure (outcome r)
  else pure (.error ENOSYS)

/-- The open handle first, then the node. -/
def preferHandle (fs : Nat) (fi : FileIface) (i : Iface) (m : Method ν) : Op ν Answer := do
  match ← exec (.handle fs) with
  | some h => if h.implements fi then callOther (.onHandle h.id fi) else onCurrentNode cfg fs i m
  | none => onCurrentNode cfg fs i m

/-- What `handleReaddir`, `handleFsync`, `handleLock` and `handleGetlock` share. -/
def onOpened (fid : Fid) (body : Nat → Op ν Answer) : Op ν Answer := do
  match ← exec (.get fid) with
  | none => pure (.error EBADF)
  | some fs => do
    let state ← exec (.currentState fs)
    if state ≠ .opened then pure (.error EBADF) else withIo cfg fs (body fs)

/-- An xattr-read fid is served from its buffer. -/
def handleRead (m : Tread) : Op ν Answer := do
  match ← exec (.get m.fid) with
  | none => pure (.error EBADF)
  | some fs => do
    match ← exec (.currentState fs) with
    | .xattrRead => pure (.ok ())
    | .opened => withIo cfg fs (preferHandle cfg fs .fileReader .nodeReader (.read m.offset m.count))
    | _ => pure (.error EBADF)

def handleWrite (m : Twrite) : Op ν Answer := do
  match ← exec (.get m.fid) with
  | none => pure (.error EBADF)
  | some fs => do
    match ← exec (.appendXattr fs m.data) with
    | .refused e => pure (.error e)
    | .writer => callOther (.writeXattr m.data)
    | .appended => pure (.ok ())
    | .other .opened => withIo cfg fs (preferHandle cfg fs .fileWriter .nodeWriter (.write m.offset m.data))
    | .other _ => pure (.error EBADF)

def readdirSimple (fs : Nat) (offset : UInt64) (fetch : Op ν Answer) : Op ν Answer := do
  if ← exec (.dirStale fs offset) then do
    match ← fetch with
    | .error e => pure (.error e)
    | .ok () => do
      exec (.dirStore fs)
      pure (.ok ())
  else pure (.ok ())

/-- The node dispatch of `handleReaddir`. -/
def readdirNode (m : P9l.Treaddir) (fs : Nat) : Op ν Answer := do
  let node ← exec (.currentNode fs)
  if cfg.implements node .nodeRawReaddirer then call node (.rawReaddir m.offset m.count)
  else do
    let node ← exec (.currentNode fs)
    if cfg.implements node .nodeReaddirer then readdirSimple fs m.offset (call node .readdir)
    else pure (.error ENOSYS)

def handleReaddir (m : P9l.Treaddir) : Op ν Answer :=
  onOpened cfg m.fid fun fs => do
    match ← exec (.handle fs) with
    | some h =>
      if h.implements .fileRawReaddirer then callOther (.onHandle h.id .fileRawReaddirer)
      else if h.implements .fileReaddirer then
        readdirSimple fs m.offset (callOther (.onHandle h.id .fileReaddirer))
      else readdirNode cfg m fs
    | none => readdirNode cfg m fs

def handleFsync (m : P9l.Tfsync) : Op ν Answer :=
  onOpened cfg m.fid fun fs => preferHandle cfg fs .fileSyncer .nodeFsyncer .fsync

def handleLock (m : P9l.Tlock) : Op ν Answer :=
  onOpened cfg m.fid fun fs => preferHandle cfg fs .fileLocker .nodeLocker .lock

def handleGetlock (m : P9l.Tgetlock) : Op ν Answer :=
  onOpened cfg m.fid fun fs => preferHandle cfg fs .fileLocker .nodeLocker .getLock

end Io

/-! ## Requests on nodes -/

section OnNodes

variable (cfg : Config ν)

def onNode (fid : Fid) (i : Iface) (m : Method ν) : Op ν Answer := do
  match ← exec (.get fid) with
  | none => pure (.error EBADF)
  | some fs => onCurrentNode cfg fs i m

def handleSetattr (m : P9l.Tsetattr) : Op ν Answer := onNode cfg m.fid .nodeSetattrer .setattr

def handleReadlink (m : P9l.Treadlink) : Op ν Answer := onNode cfg m.fid .nodeReadlinker .readlink

def handleStatfs (m : P9l.Tstatfs) : Op ν Answer := onNode cfg m.fid .nodeStatFSer .statFS

/-- What `handleGetattr` and `handleUStat` share. -/
def getattr (fid : Fid) : Op ν Answer := do
  match ← exec (.get fid) with
  | none => pure (.error EBADF)
  | some fs => do
    match ← onCurrentNode cfg fs .nodeGetattrer .getattr with
    | .error e => pure (.error e)
    | .ok () => do
      currentQID fs
      pure (.ok ())

def handleGetattr (m : P9l.Tgetattr) : Op ν Answer := getattr cfg m.fid

def handleUStat (m : P9u.Tstat) : Op ν Answer := getattr cfg m.fid

/-- What the handlers share that check a name before they call a method of the directory fid's node. -/
def onDir (fid : Fid) (name : Bytes) (i : Iface) (m : Method ν) : Op ν Answer := do
  match ← exec (.get fid) with
  | none => pure (.error EBADF)
  | some fs => if !Dispatch.validName name then pure (.error EINVAL) else onCurrentNode cfg fs i m

def handleUnlinkat (m : P9l.Tunlinkat) : Op ν Answer :=
  onDir cfg m.dirFid m.name .nodeUnlinker (.unlink m.name m.flags)

/-- What `handleMkdir`, `handleSymlink` and `handleMknod` share: the child is bound to no fid. -/
def makeChild (fid : Fid) (name : Bytes) (i : Iface) (make : ν → Op ν (Except Errno ν)) : Op ν Answer := do
  match ← exec (.get fid) with
  | none => pure (.error EBADF)
  | some fs =>
    if !Dispatch.validName name then pure (.error EINVAL)
    else do
      let node ← exec (.currentNode fs)
      if cfg.implements node i then do
        match ← make node with
        | .error e => pure (.error e)
        | .ok child => do
          let _ ← call child .qid
          pure (.ok ())
      else pure (.error ENOSYS)

def handleMkdir (m : P9l.Tmkdir) : Op ν Answer :=
  makeChild cfg m.dirFid m.name .nodeMkdirer fun node => call node (.mkdir m.name)

def handleSymlink (m : P9l.Tsymlink) : Op ν Answer :=
  makeChild cfg m.dirFid m.name .nodeSymlinker fun node => call node (.symlink m.name m.target)

def handleMknod (m : P9l.Tmknod) : Op ν Answer :=
  makeChild cfg m.dirFid m.name .nodeMknoder fun node => call node (.mknod m.name)

def handleLink (m : P9l.Tlink) : Op ν Answer := do
  match ← exec (.get m.dirFid) with
  | none => pure (.error EBADF)
  | some dirFS => do
    match ← exec (.get m.fid) with
    | none => pure (.error EBADF)
    | some targetFS =>
      if !Dispatch.validName m.name then pure (.error EINVAL)
      else do
        let dir ← exec (.currentNode dirFS)
        if cfg.implements dir .nodeLinker then do
          let target ← exec (.currentNode targetFS)
          call dir (.link target m.name)
        else pure (.error ENOSYS)

def handleRenameat (m : P9l.Trenameat) : Op ν Answer := do
  match ← exec (.get m.oldDirFid) with
  | none => pure (.error EBADF)
  | some oldDirFS => do
    match ← exec (.get m.newDirFid) with
    | none => pure (.error EBADF)
    | some newDirFS =>
      if !Dispatch.validName m.oldName then pure (.error EINVAL)
      else if !Dispatch.validName m.newName then pure (.error EINVAL)
      else do
        let oldDir ← exec (.currentNode oldDirFS)
        if cfg.implements oldDir .nodeRenamer then do
          let newDir ← exec (.currentNode newDirFS)
          call oldDir (.rename m.oldName newDir m.newName)
        else pure (.error ENOSYS)

/-- The entry is found through the inode tree, as in `removeViaInodeTree`. -/
def handleRename (m : P9l.Trename) : Op ν Answer := do
  match ← exec (.get m.fid) with
  | none => pure (.error EBADF)
  | some fs => do
    match ← exec (.get m.dirFid) with
    | none => pure (.error EBADF)
    | some dirFS =>
      if !Dispatch.validName m.name then pure (.error EINVAL)
      else do
        let node ← exec (.currentNode fs)
        match ← inodeEntry cfg node with
        | .error e => pure (.error e)
        | .ok (parent, oldName) =>
          if cfg.implements parent .nodeRenamer then do
            let dir ← exec (.currentNode dirFS)
            call parent (.rename oldName dir m.name)
          else pure (.error ENOSYS)

end OnNodes

/-! ## Extended attributes -/

section Xattrs

variable (cfg : Config ν)

def addXattrReadFid (newFid : Fid) (node : ν) (r : Answer) : Op ν Answer :=
  match r with
  | .error e => pure (.error e)
  | .ok () => addFid cfg newFid node .xattrRead

def handleXattrwalk (m : P9l.Txattrwalk) : Op ν Answer := do
  match ← exec (.get m.fid) with
  | none => pure (.error EBADF)
  | some fs => do
    let node ← exec (.currentNode fs)
    if cfg.implements node .rawXattrer then do
      let r ← call node (.handleXattrwalk m.name)
      addXattrReadFid cfg m.newFid node r
    else if m.name = [] then
      if cfg.implements node .nodeXattrLister then do
        let r ← call node .listXattrs
        addXattrReadFid cfg m.newFid node r
      else pure (.error ENOSYS)
    else if cfg.implements node .nodeXattrGetter then do
      let r ← call node (.getXattr m.name)
      addXattrReadFid cfg m.newFid node r
    else pure (.error ENOSYS)

def handleXattrcreate (m : P9l.Txattrcreate) : Op ν Answer := do
  match ← exec (.get m.fid) with
  | none => pure (.error EBADF)
  | some fs => do
    let state ← exec (.currentState fs)
    if state ≠ .allocated then pure (.error EBADF)
    else do
      let msize ← exec .msize
      if m.attrSize > msize.toUInt64 then pure (.error EINVAL)
      else do
        let node ← exec (.currentNode fs)
        if cfg.implements node .rawXattrer then do
          match ← call node (.handleXattrcreate m.name m.attrSize m.flags) with
          | .error e => pure (.error e)
          | .ok () => do
            exec (.setXattrWrite fs m.name m.attrSize m.flags true)
            pure (.ok ())
        else do
          let node ← exec (.currentNode fs)
          if cfg.implements node (if m.attrSize = 0 then .nodeXattrRemover else .nodeXattrSetter) then do
            exec (.setXattrWrite fs m.name m.attrSize m.flags false)
            pure (.ok ())
          else pure (.error ENOSYS)

end Xattrs

/-! ## Teardown -/

section Teardown

variable (cfg : Config ν)

/-- What re-negotiation and cleanup do with the states that `clunkAll` returned; handles and nodes are released only
when the handlers drained. -/
def releaseStates (drained : Bool) : List Nat → Op ν Unit
  | [] => pure ()
  | fs :: states => do
    let node ← exec (.currentNode fs)
    let lastRef ← decRefNode cfg node
    if drained then do
      releaseNow cfg fs lastRef
      releaseStates drained states
    else releaseStates drained states

def clunkAll (drained : Bool) : Op ν Answer := do
  let states ← exec .clunkAll
  releaseStates cfg drained states
  pure (.ok ())

end Teardown

/-! ## Dispatch -/

inductive Request
  | attach (m : Tattach)
  | walk (m : Twalk)
  | clunk (m : Tclunk)
  | remove (m : Tremove)
  | lopen (m : P9l.Tlopen)
  | uOpen (m : P9u.Topen)
  | lcreate (m : P9l.Tlcreate)
  | uCreate (m : P9u.Tcreate)
  | read (m : Tread)
  | write (m : Twrite)
  | readdir (m : P9l.Treaddir)
  | fsync (m : P9l.Tfsync)
  | lock (m : P9l.Tlock)
  | getlock (m : P9l.Tgetlock)
  | getattr (m : P9l.Tgetattr)
  | uStat (m : P9u.Tstat)
  | setattr (m : P9l.Tsetattr)
  | readlink (m : P9l.Treadlink)
  | statfs (m : P9l.Tstatfs)
  | mkdir (m : P9l.Tmkdir)
  | symlink (m : P9l.Tsymlink)
  | mknod (m : P9l.Tmknod)
  | link (m : P9l.Tlink)
  | unlinkat (m : P9l.Tunlinkat)
  | renameat (m : P9l.Trenameat)
  | rename (m : P9l.Trename)
  | xattrwalk (m : P9l.Txattrwalk)
  | xattrcreate (m : P9l.Txattrcreate)
  deriving DecidableEq

/-- The requests whose handlers call `beginIO`. -/
def Request.isIo : Request → Bool
  | .read _ | .write _ | .readdir _ | .fsync _ | .lock _ | .getlock _ => true
  | _ => false

def dispatch [DecidableEq ν] (cfg : Config ν) : Request → Op ν Answer
  | .attach m => handleAttach cfg m
  | .walk m => handleWalk cfg m
  | .clunk m => handleClunk cfg m
  | .remove m => handleRemove cfg m
  | .lopen m => handleLopen cfg m
  | .uOpen m => handleUOpen cfg m
  | .lcreate m => handleLcreate cfg m
  | .uCreate m => handleUCreate cfg m
  | .read m => handleRead cfg m
  | .write m => handleWrite cfg m
  | .readdir m => handleReaddir cfg m
  | .fsync m => handleFsync cfg m
  | .lock m => handleLock cfg m
  | .getlock m => handleGetlock cfg m
  | .getattr m => handleGetattr cfg m
  | .uStat m => handleUStat cfg m
  | .setattr m => handleSetattr cfg m
  | .readlink m => handleReadlink cfg m
  | .statfs m => handleStatfs cfg m
  | .mkdir m => handleMkdir cfg m
  | .symlink m => handleSymlink cfg m
  | .mknod m => handleMknod cfg m
  | .link m => handleLink cfg m
  | .unlinkat m => handleUnlinkat cfg m
  | .renameat m => handleRenameat cfg m
  | .rename m => handleRename cfg m
  | .xattrwalk m => handleXattrwalk cfg m
  | .xattrcreate m => handleXattrcreate cfg m

end NineP.Server.Handlers
