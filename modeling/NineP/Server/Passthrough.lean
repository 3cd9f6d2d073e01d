import NineP.Server.Dispatch
import NineP.Server.Inode

/-!
# A file system with a new node for every lookup

The handlers that keep the inode tree over the nodes of `server/passthrough`, one request after the other.  The host is
its directories, and may refuse every call.  A node whose descriptor is closed still has its number, which may stand for
another file by then.
-/

namespace NineP.Server.Passthrough

open Codec Proto Dispatch

/-! ## The host -/

/-- A file of the host; a file that is gone leaves its number unused. -/
abbrev File := Nat

structure Host where
  /-- What stands under a name in a directory. -/
  entry : File → Bytes → Option File
  /-- What dot-dot stands for. -/
  up : File → File
  isDir : File → Bool
  /-- The next new file. -/
  next : File

namespace Host

variable (h : Host)

def dot : Bytes := [0x2e]
def dotdot : Bytes := [0x2e, 0x2e]

/-- The file under a name, dot and dot-dot included. -/
def resolve (d : File) (name : Bytes) : Option File :=
  if name = dot then some d else if name = dotdot then some (h.up d) else h.entry d name

/-- `fstatat` and `openat` -/
def lookup (d : File) (name : Bytes) : Except Errno File :=
  if h.isDir d then
    match h.resolve d name with
    | some file => .ok file
    | none => .error ENOENT
  else .error ENOTDIR

def set (d : File) (name : Bytes) (file : Option File) : Host :=
  { h with entry := Function.update h.entry d (Function.update (h.entry d) name file) }

def make (d : File) (name : Bytes) (dir : Bool) : Host :=
  { h.set d name (some h.next) with
    up := Function.update h.up h.next d
    isDir := Function.update h.isDir h.next dir
    next := h.next + 1 }

/-- `openat` with `O_CREAT`: a file that is there is opened. -/
def create (d : File) (name : Bytes) : Except Errno (File × Host) :=
  if h.isDir d then
    match h.resolve d name with
    | some file => if h.isDir file then .error EISDIR else .ok (file, h)
    | none => .ok (h.next, h.make d name false)
  else .error ENOTDIR

def mkdir (d : File) (name : Bytes) : Except Errno (File × Host) :=
  if h.isDir d then
    match h.resolve d name with
    | some _ => .error EEXIST
    | none => .ok (h.next, h.make d name true)
  else .error ENOTDIR

def link (file d : File) (name : Bytes) : Except Errno Host :=
  if h.isDir file then .error EPERM
  else if h.isDir d then
    match h.resolve d name with
    | some _ => .error EEXIST
    | none => .ok (h.set d name (some file))
  else .error ENOTDIR

def removeDir : UInt32 := 0x200

def unlink (d : File) (name : Bytes) (flags : UInt32) : Except Errno Host :=
  if flags ≠ 0 ∧ flags ≠ removeDir ∨ name = dot ∨ name = dotdot then .error EINVAL
  else
    match h.lookup d name with
    | .error e => .error e
    | .ok file =>
      if flags = removeDir ∧ h.isDir file = false then .error ENOTDIR
      else if flags = 0 ∧ h.isDir file then .error EISDIR
      else .ok (h.set d name none)

/-- `renameat`: nothing changes if both names are names of the file. -/
def rename (d : File) (old : Bytes) (e : File) (new : Bytes) : Except Errno Host :=
  if old = dot ∨ old = dotdot ∨ new = dot ∨ new = dotdot then .error EBUSY
  else
    match h.lookup d old with
    | .error e => .error e
    | .ok file =>
      if h.isDir e then
        if h.resolve e new = some file then .ok h
        else
          let h' := (h.set d old none).set e new (some file)
          .ok { h' with up := if h.isDir file then Function.update h.up file e else h.up }
      else .error ENOTDIR

end Host

/-! ## States -/

structure Node where
  /-- What the descriptor was opened for. -/
  file : File
  /-- Whether the descriptor is still open. -/
  opened : Bool
  /-- The directory and the name through which the node was walked to, created or renamed last. -/
  entry : Option (File × Bytes)

/-- A call of `Unlink` or `Rename` of a node. -/
structure Call where
  /-- The directory that the descriptor of the node stands for. -/
  dir : Option File
  name : Bytes
  /-- The directory and the new name of a `Rename`. -/
  target : Option (Ptr × Bytes)
  failed : Bool

structure State where
  host : Host
  tree : Tree Node
  /-- The fid tables of the connections. -/
  conns : List (FidTable Ptr Unit)
  /-- Newest first. -/
  calls : List Call

/-- What is left open while a request is served. -/
structure Env where
  /-- The calls that the host refuses, and why. -/
  refuse : Nat → Option Errno
  /-- What the number of a closed descriptor stands for by now. -/
  stale : Ptr → Option File
  /-- Which node has the number of a closed descriptor by now. -/
  holder : Ptr → Option Ptr
  /-- Where a loop over the children of an inode starts. -/
  pick : Nat

inductive Reply
  | done
  | rwalk (nwqid : Nat)
  | error (e : Errno)
  deriving DecidableEq

def Reply.of : Except Errno Unit → Reply
  | .ok () => .done
  | .error e => .error e

def Reply.failed : Reply → Bool
  | .error _ => true
  | _ => false

def root : Ptr := 0

namespace State

variable (s : State) (env : Env)

def file (i : Ptr) : File := (s.tree.node i).file

def opened (i : Ptr) : Bool := (s.tree.node i).opened

def entry (i : Ptr) : Option (File × Bytes) := (s.tree.node i).entry

/-- What the descriptor number of a node stands for. -/
def fd (i : Ptr) : Option File := if s.opened i then some (s.file i) else (env.stale i).filter (· < s.host.next)

/-- The QID of a node says whether it is a directory. -/
def isDir (i : Ptr) : Bool := s.host.isDir (s.file i)

def fid? (c : Nat) (fid : Fid) : Option (FidState Ptr Unit) := s.conns[c]?.bind (·.get fid)

def setConn (c : Nat) (table : FidTable Ptr Unit) : State := { s with conns := s.conns.set c table }

/-- `Node.Close`.  The number of a closed descriptor is closed whoever has it by now. -/
def close (i : Ptr) : State :=
  let shut (i : Ptr) : State := { s with tree := s.tree.setNode i { s.tree.node i with opened := false } }
  if s.opened i then shut i
  else
    match env.holder i with
    | some k => shut k
    | none => s

def newNode (file : File) (entry : File × Bytes) : State :=
  { s with tree := s.tree.alloc ⟨file, true, some entry⟩ true }

def call (dir : Option File) (name : Bytes) (target : Option (Ptr × Bytes)) (failed : Bool) : State :=
  { s with calls := ⟨dir, name, target, failed⟩ :: s.calls }

end State

/-! ## Nodes -/

section Nodes

variable (env : Env) (s : State)

/-- `lookupParent`: the root of the export is its own parent. -/
def lookupParent (k : Nat) (i : Ptr) : Except Errno (Ptr × State) :=
  match env.refuse k, s.fd env i with
  | some e, _ => .error e
  | none, none => .error EBADF
  | none, some d => .ok (s.tree.next, s.newNode (if d = s.file root then d else s.host.up d) (d, Host.dotdot))

/-- `Node.Lookup` as the `k`th call of a request. -/
def lookup (k : Nat) (i : Ptr) (name : Bytes) : Except Errno (Ptr × State) :=
  if name = Host.dotdot then lookupParent env s k i
  else
    match env.refuse k, s.fd env i with
    | some e, _ => .error e
    | none, none => .error EBADF
    | none, some d =>
      match s.host.lookup d name with
      | .error e => .error e
      | .ok file =>
        let j := s.tree.next
        let s := s.newNode file (d, name)
        .ok (j, { s with tree := s.tree.addChild i name j })

/-- `Node.Create` and `Node.Mkdir`.  They may fail before the host has done anything, when the file is there and could
not be opened, and when its group could not be changed: then the name is removed. -/
def makeNode (op : Host → File → Bytes → Except Errno (File × Host)) (i : Ptr) (name : Bytes) :
    Except Errno Ptr × State :=
  if s.isDir i then
    match env.refuse 0, s.fd env i with
    | some e, _ => (.error e, s)
    | none, none => (.error EBADF, s)
    | none, some d =>
      match op s.host d name with
      | .error e => (.error e, s)
      | .ok (file, host) =>
        match env.refuse 1, env.refuse 2 with
        | some e, _ => (.error e, { s with host })
        | none, some e => (.error e, { s with host := host.set d name none })
        | none, none => (.ok s.tree.next, { s with host }.newNode file (d, name))
  else (.error ENOTDIR, s)

/-- `Node.Create`, the handle apart -/
def create (i : Ptr) (name : Bytes) : Except Errno Ptr × State := makeNode env s Host.create i name

def mkdir (i : Ptr) (name : Bytes) : Except Errno Ptr × State := makeNode env s Host.mkdir i name

def link (i target : Ptr) (name : Bytes) : Except Errno State :=
  if s.isDir i then
    match env.refuse 0, s.fd env target, s.fd env i with
    | some e, _, _ => .error e
    | none, none, _ => .error ENOENT
    | none, some _, none => .error EBADF
    | none, some file, some d => (s.host.link file d name).map fun host => { s with host }
  else .error ENOTDIR

def unlinkat (i : Ptr) (name : Bytes) (flags : UInt32) : Except Errno Host :=
  if s.isDir i then
    match env.refuse 0, s.fd env i with
    | some e, _ => .error e
    | none, none => .error EBADF
    | none, some d => s.host.unlink d name flags
  else .error ENOTDIR

def unlink (i : Ptr) (name : Bytes) (flags : UInt32) : Except Errno Unit × State :=
  match unlinkat env s i name flags with
  | .error e => (.error e, s.call (s.fd env i) name none true)
  | .ok host =>
    let s := s.call (s.fd env i) name none false
    (.ok (), { s with host, tree := s.tree.removeChild i name })

def renameat (i : Ptr) (old : Bytes) (q : Ptr) (new : Bytes) : Except Errno Host :=
  if s.isDir i then
    match env.refuse 0, s.fd env i, s.fd env q with
    | some e, _, _ => .error e
    | none, some d, some e => s.host.rename d old e new
    | none, _, _ => .error EBADF
  else .error ENOTDIR

/-- The nodes of the file at the old name are at the new name now. -/
def State.moved (s : State) (old new : File × Bytes) : State :=
  let move (x : Node) : Node :=
    if x.entry = some old ∧ s.host.resolve old.1 old.2 = some x.file then { x with entry := some new } else x
  { s with tree := { s.tree with node := fun k => move (s.tree.node k) } }

def rename (i : Ptr) (old : Bytes) (q : Ptr) (new : Bytes) : Except Errno Unit × State :=
  match renameat env s i old q new with
  | .error e => (.error e, s.call (s.fd env i) old (some (q, new)) true)
  | .ok host =>
    let s' := s.call (s.fd env i) old (some (q, new)) false
    match s.fd env i, s.fd env q with
    | some d, some e => (.ok (), { s'.moved (d, old) (e, new) with host })
    | _, _ => (.ok (), { s' with host })

end Nodes

/-! ## Handlers -/

section Handlers

variable (maxFids : Int) (env : Env) (s : State) (c : Nat)

def closeUnboundNode (i : Ptr) : State := if s.tree.refs i ≠ 0 then s else s.close env i

/-- `finishClunk`, the handle apart -/
def finishClunk (fs : FidState Ptr Unit) (lastRef : Bool) : State :=
  if (fs.finishClunk lastRef).1 && lastRef then s.close env fs.node else s

/-- `c.fids.add` and, when it succeeds, `incRefNode`. -/
def addFid (fid : Fid) (i : Ptr) : Except Errno State :=
  match s.conns[c]? with
  | none => .error EBADF
  | some table =>
    match table.add fid (.bound i .allocated) maxFids with
    | .error .fidLimitExceeded => .error EMFILE
    | .error .fidInUse => .error EBADF
    | .ok table => .ok { s.setConn c table with tree := s.tree.incRef i }

/-- `incRefNode` of the new node of a fid, then `decRefNode` of the old one. -/
def rebound (i prev : Ptr) : State := { s with tree := ((s.tree.incRef i).decRef env.pick prev).2 }

def handleAttach (fid : Fid) : Reply × State :=
  match addFid maxFids s c fid root with
  | .error e => (.error e, s)
  | .ok s => (.done, s)

structure Walked where
  current : Ptr
  qids : Nat
  state : State
  err : Option Errno

/-- The loop of `handleWalk`. -/
def walkNames (start : Ptr) : List Bytes → State → Ptr → Nat → Walked
  | [], s, current, k => ⟨current, k, s, none⟩
  | name :: names, s, current, k =>
    if s.isDir current then
      match lookup env s k current name with
      | .error e => ⟨current, k, s, some e⟩
      | .ok (child, s) =>
        walkNames start names (if current ≠ start then closeUnboundNode env s current else s) child (k + 1)
    else ⟨current, k, s, some ENOTDIR⟩

/-- The end of a walk that has gone all the way. -/
def bindWalked (fid newFid : Fid) (start i : Ptr) (nwqid : Nat) : Reply × State :=
  if fid = newFid then
    match s.conns[c]?.bind (·.update fid i) with
    | some (prev, table) => (.rwalk nwqid, rebound env (s.setConn c table) i prev)
    | none => (.rwalk nwqid, if i ≠ start then closeUnboundNode env s i else s)
  else
    match addFid maxFids s c newFid i with
    | .error e => (.error e, if i ≠ start then closeUnboundNode env s i else s)
    | .ok s => (.rwalk nwqid, s)

def handleWalk (fid newFid : Fid) (names : List Bytes) : Reply × State :=
  match s.fid? c fid with
  | none => (.error EBADF, s)
  | some fs =>
    if names = [] then
      if fid = newFid then (.rwalk 0, s)
      else
        match addFid maxFids s c newFid fs.node with
        | .error e => (.error e, s)
        | .ok s => (.rwalk 0, s)
    else if names.all validatePathElement then
      let w := walkNames env fs.node names s fs.node 0
      match w.err, w.qids with
      | some e, 0 => (.error e, s)
      | some _, k => (.rwalk k, if w.current ≠ fs.node then closeUnboundNode env w.state w.current else w.state)
      | none, k => bindWalked maxFids env w.state c fid newFid fs.node w.current k
    else (.error EINVAL, s)

def handleLcreate (fid : Fid) (name : Bytes) : Reply × State :=
  match s.fid? c fid with
  | none => (.error EBADF, s)
  | some fs =>
    if fs.state ≠ .allocated then (.error EBADF, s)
    else if validName name then
      match create env s fs.node name with
      | (.error e, s) => (.error e, s)
      | (.ok i, s) =>
        match s.conns[c]?.bind (·.updateAndOpen fid i (some ())) with
        | none => (.error EBADF, s.close env i)
        | some (prev, table) =>
          let s := rebound env (s.setConn c table) i prev
          (.done, { s with tree := s.tree.addChild fs.node name i })
    else (.error EINVAL, s)

def handleMkdir (dirFid : Fid) (name : Bytes) : Reply × State :=
  match s.fid? c dirFid with
  | none => (.error EBADF, s)
  | some fs =>
    if validName name then
      match mkdir env s fs.node name with
      | (.error e, s) => (.error e, s)
      | (.ok i, s) => (.done, { s with tree := s.tree.addChild fs.node name i })
    else (.error EINVAL, s)

def handleLink (dirFid fid : Fid) (name : Bytes) : Reply × State :=
  match s.fid? c dirFid, s.fid? c fid with
  | some dir, some target =>
    if validName name then
      match link env s dir.node target.node name with
      | .error e => (.error e, s)
      | .ok s => (.done, { s with tree := s.tree.addChild dir.node name target.node })
    else (.error EINVAL, s)
  | _, _ => (.error EBADF, s)

def handleUnlinkat (dirFid : Fid) (name : Bytes) (flags : UInt32) : Reply × State :=
  match s.fid? c dirFid with
  | none => (.error EBADF, s)
  | some fs =>
    if validName name then
      match unlink env s fs.node name flags with
      | (.error e, s) => (.error e, s)
      | (.ok (), s) => (.done, { s with tree := s.tree.removeChild fs.node name })
    else (.error EINVAL, s)

def handleRenameat (oldDirFid : Fid) (oldName : Bytes) (newDirFid : Fid) (newName : Bytes) : Reply × State :=
  match s.fid? c oldDirFid, s.fid? c newDirFid with
  | some old, some new =>
    if validName oldName && validName newName then
      match rename env s old.node oldName new.node newName with
      | (.error e, s) => (.error e, s)
      | (.ok (), s) =>
        match s.tree.child old.node oldName with
        | none => (.done, s)
        | some i => (.done, { s with tree := (s.tree.removeChild old.node oldName).addChild new.node newName i })
    else (.error EINVAL, s)
  | _, _ => (.error EBADF, s)

/-- The directory and the name of a node in the tree. -/
def inodeEntry (i : Ptr) : Except Errno (Ptr × Bytes) :=
  match s.tree.parent i with
  | none => .error ENOSYS
  | some p =>
    match s.tree.nameOf env.pick p i with
    | none | some [] => .error EINVAL
    | some name => .ok (p, name)

def handleRename (fid dirFid : Fid) (name : Bytes) : Reply × State :=
  match s.fid? c fid, s.fid? c dirFid with
  | some fs, some dir =>
    if validName name then
      match inodeEntry env s fs.node with
      | .error e => (.error e, s)
      | .ok (p, oldName) =>
        match rename env s p oldName dir.node name with
        | (.error e, s) => (.error e, s)
        | (.ok (), s) =>
          let tree := (s.tree.removeChild p oldName).addChild dir.node name fs.node
          -- the fid has its new name, whatever the call has moved
          let entry := (s.fd env dir.node).map fun d => (d, name)
          (.done, { s with tree := tree.setNode fs.node { tree.node fs.node with entry } })
    else (.error EINVAL, s)
  | _, _ => (.error EBADF, s)

def removeViaInodeTree (i : Ptr) : Except Errno Unit × State :=
  match inodeEntry env s i with
  | .error e => (.error e, s)
  | .ok (p, name) =>
    match unlink env s p name 0 with
    | (.error e, s) => (.error e, s)
    | (.ok (), s) => (.ok (), { s with tree := s.tree.removeChild p name })

/-- `decRefNode` and `finishClunk` of a fid that is no longer in the table. -/
def tearDown (fs : FidState Ptr Unit) : State :=
  let r := s.tree.decRef env.pick fs.node
  finishClunk env { s with tree := r.2 } fs r.1

def handleRemove (fid : Fid) : Reply × State :=
  match s.conns[c]?.bind (·.clunk fid) with
  | none => (.error EBADF, s)
  | some (fs, table) =>
    let r := removeViaInodeTree env (s.setConn c table) fs.node
    (.of r.1, tearDown env r.2 fs)

def handleClunk (fid : Fid) : Reply × State :=
  match s.conns[c]?.bind (·.clunk fid) with
  | none => (.error EBADF, s)
  | some (fs, table) => (.done, tearDown env (s.setConn c table) fs)

end Handlers

/-! ## Runs -/

inductive Request
  | tattach (fid : Fid)
  | twalk (fid newFid : Fid) (names : List Bytes)
  | tlcreate (fid : Fid) (name : Bytes)
  | tmkdir (dirFid : Fid) (name : Bytes)
  | tlink (dirFid fid : Fid) (name : Bytes)
  | tunlinkat (dirFid : Fid) (name : Bytes) (flags : UInt32)
  | trenameat (oldDirFid : Fid) (oldName : Bytes) (newDirFid : Fid) (newName : Bytes)
  | trename (fid dirFid : Fid) (name : Bytes)
  | tremove (fid : Fid)
  | tclunk (fid : Fid)

/-- A request of a connection. -/
structure Label where
  conn : Nat
  request : Request
  env : Env

def handle (maxFids : Int) (s : State) (l : Label) : Reply × State :=
  match l.request with
  | .tattach fid => handleAttach maxFids s l.conn fid
  | .twalk fid newFid names => handleWalk maxFids l.env s l.conn fid newFid names
  | .tlcreate fid name => handleLcreate l.env s l.conn fid name
  | .tmkdir dirFid name => handleMkdir l.env s l.conn dirFid name
  | .tlink dirFid fid name => handleLink l.env s l.conn dirFid fid name
  | .tunlinkat dirFid name flags => handleUnlinkat l.env s l.conn dirFid name flags
  | .trenameat oldDirFid oldName newDirFid newName =>
    handleRenameat l.env s l.conn oldDirFid oldName newDirFid newName
  | .trename fid dirFid name => handleRename l.env s l.conn fid dirFid name
  | .tremove fid => handleRemove l.env s l.conn fid
  | .tclunk fid => handleClunk l.env s l.conn fid

def step (maxFids : Int) (s : State) (l : Label) : Option State := some (handle maxFids s l).2

/-- `NewRoot` for a directory of the host, and `conns` connections without fids. -/
def init (host : Host) (dir : File) (conns : Nat) : State where
  host
  tree :=
    { node := fun _ => ⟨dir, true, none⟩
      parent := fun _ => none
      children := fun _ => ∅
      refs := fun _ => 0
      prunable := fun _ => false
      next := 1 }
  conns := List.replicate conns ∅
  calls := []

end NineP.Server.Passthrough
