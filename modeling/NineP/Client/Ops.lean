import NineP.Client.Fids
import NineP.Lib.Program
import NineP.Proto.Messages

/-!
# The client's operations

The operations of `Conn` and `File` as programs over the commands that other threads can come between: the fid
allocator, the exchange of a request, the file's lifecycle lock, and the root.

Left out: the contents of messages beyond fids, names and sizes, the texts of errors, `splitPath`, and qids, iounits and
offsets of files.
-/

namespace NineP.Client

open Proto Program

/-! ## Commands -/

inductive Cmd
  | acquire
  | release (fid : Fid)
  | exchange (req : Request) (zeroCopy flushOnCancel : Bool)
  | signalShutdown
  | root
  | setRoot (f : Nat)
  | newFile (fid : Fid)
  | beginOp (f : Nat)
  | endOp (f : Nat)
  | beginClose (f : Nat)  -- `lifecycleMu.Lock`, and the test and set of `closed`
  | endClose (f : Nat)
  deriving DecidableEq

/-- What a command returns.  Files are numbered in the order in which operations return them. -/
abbrev Cmd.Res : Cmd → Type
  | .acquire => Option Fid
  | .exchange _ _ _ => Except Err Reply
  | .root => Option Nat
  | .newFile _ => Nat
  | .beginOp _ | .beginClose _ => Option Fid  -- the file's fid, or nothing if it is closed
  | _ => Unit

abbrev Op := Prog Cmd Cmd.Res

def acquire : Op (Option Fid) := .lift Cmd.acquire

def release (fid : Fid) : Op Unit := .lift (Cmd.release fid)

/-- `roundTripWithFlush`, or for a zero-copy read its part in `readAtZeroCopy` -/
def exchange (req : Request) (zeroCopy flushOnCancel : Bool) : Op (Except Err Reply) :=
  .lift (Cmd.exchange req zeroCopy flushOnCancel)

def signalShutdown : Op Unit := .lift Cmd.signalShutdown

def root : Op (Option Nat) := .lift Cmd.root

def setRoot (f : Nat) : Op Unit := .lift (Cmd.setRoot f)

def newFile (fid : Fid) : Op Nat := .lift (Cmd.newFile fid)

def beginOp (f : Nat) : Op (Option Fid) := .lift (Cmd.beginOp f)

def endOp (f : Nat) : Op Unit := .lift (Cmd.endOp f)

def beginClose (f : Nat) : Op (Option Fid) := .lift (Cmd.beginClose f)

def endClose (f : Nat) : Op Unit := .lift (Cmd.endClose f)

/-- The errors of operations, as far as the code tells them apart. -/
inductive Error
  | server (errno : Nat)  -- `*Error`
  | closed  -- `ErrClosed`
  | other
  deriving DecidableEq

def Error.ofErr : Err → Error
  | .closed => .closed
  | _ => .other

inductive Protocol
  | l
  | u
  deriving DecidableEq

structure Config where
  maxInflight : Nat
  dialect : Protocol
  msize : Nat
  deriving DecidableEq

/-! ## Round trips -/

/-- `rtrip`, for the answers that `expect` takes. -/
def rtrip {α : Type} (req : Request) (expect : Reply → Option α) : Op (Except Error α) := do
  match ← exchange req false true with
  | .error e => pure (.error (.ofErr e))
  | .ok (.rerror errno) => pure (.error (.server errno))
  | .ok r =>
    match expect r with
    | some a => pure (.ok a)
    | none => pure (.error .other)

def tattach (fid : Fid) : Op (Except Error Unit) :=
  rtrip (.attach fid) fun
    | .rattach => some ()
    | _ => none

/-- `twalk`; the result is the number of qids. -/
def twalk (fid newFid : Fid) (names : List String) : Op (Except Error Nat) :=
  rtrip (.walk fid newFid names) fun
    | .rwalk qids => some qids
    | _ => none

def txattrwalk (fid newFid : Fid) (name : String) : Op (Except Error Nat) :=
  rtrip (.xattrwalk fid newFid name) fun
    | .rxattrwalk size => some size
    | _ => none

/-- A round trip of any other type; the type of the answer is the next one. -/
def tother (type : MessageType) (fids : List Fid) : Op (Except Error Unit) :=
  rtrip (.on type fids) fun
    | .other type' => if type' = type + 1 then some () else none
    | _ => none

/-- `tread`; the result is the number of bytes. -/
def tread (fid : Fid) (count : Nat) : Op (Except Error Nat) := do
  match ← rtrip (.on typeTread [fid]) fun | .rread n => some n | _ => none with
  | .error e => pure (.error e)
  | .ok n =>
    if n > count then
      signalShutdown
      pure (.error .other)
    else pure (.ok n)

def twrite (fid : Fid) (size : Nat) : Op (Except Error Nat) := do
  match ← rtrip (.on typeTwrite [fid]) fun | .rwrite n => some n | _ => none with
  | .error e => pure (.error e)
  | .ok n =>
    if n > size then
      signalShutdown
      pure (.error .other)
    else pure (.ok n)

/-- `cleanupFid`: the fid is released unless the server may still have it bound. -/
def cleanupFid (fid : Fid) : Op (Except Error Unit) := do
  match ← exchange (.clunk fid) false false with
  | .ok .rclunk =>
    release fid
    pure (.ok ())
  | .ok (.rerror errno) =>
    release fid
    pure (.error (.server errno))
  | .error .closed =>
    release fid
    pure (.error .closed)
  | _ => pure (.error .other)

/-- `walkNew`; the cleanup function that it returns is `cleanupFid` of the fid. -/
def walkNew (base : Fid) (names : List String) : Op (Except Error Fid) := do
  match ← acquire with
  | none => pure (.error .other)
  | some fid =>
    match ← twalk base fid names with
    | .error e =>
      release fid
      pure (.error e)
    | .ok qids =>
      if names ≠ [] ∧ qids ≠ names.length then
        release fid
        pure (.error .other)
      else pure (.ok fid)

/-! ## Locks -/

/-- `beginOp`, with `endOp` deferred. -/
def withFile {α : Type} (f : Nat) (body : Fid → Op (Except Error α)) : Op (Except Error α) := do
  match ← beginOp f with
  | none => pure (.error .closed)
  | some fid =>
    let r ← body fid
    endOp f
    pure r

def withRoot {α : Type} (body : Fid → Op (Except Error α)) : Op (Except Error α) := do
  match ← root with
  | none => pure (.error .other)
  | some f => withFile f body

/-- `requireDialect` of 9P2000.L -/
def requireL {α : Type} (cfg : Config) (p : Op (Except Error α)) : Op (Except Error α) :=
  if cfg.dialect = .l then p else pure (.error .other)

/-! ## Operations -/

def attach : Op (Except Error Unit) := do
  match ← acquire with
  | none => pure (.error .other)
  | some fid =>
    match ← tattach fid with
    | .error e =>
      release fid
      pure (.error e)
    | .ok () =>
      let f ← newFile fid
      setRoot f
      pure (.ok ())

/-- The end of an operation that returns a new file. -/
def returnFile (fid : Fid) : Op (Except Error Unit) := do
  let _ ← newFile fid
  pure (.ok ())

/-- `OpenFile`; its walk is written out in the source and is that of `walkNew`. -/
def openFile (cfg : Config) (path : List String) : Op (Except Error Unit) :=
  withRoot fun root => do
    match ← walkNew root path with
    | .error e => pure (.error e)
    | .ok fileFid =>
      match ← tother (match cfg.dialect with | .l => typeTlopen | .u => typeTopen) [fileFid] with
      | .error e =>
        let _ ← cleanupFid fileFid
        pure (.error e)
      | .ok () => returnFile fileFid

/-- The parents and the name of a path; nothing for the root. -/
def splitLast (path : List String) : Option (List String × String) :=
  path.getLast?.map fun name => (path.dropLast, name)

def create (cfg : Config) (path : List String) : Op (Except Error Unit) :=
  withRoot fun root =>
    match splitLast path with
    | none => pure (.error .other)
    | some (parents, _) => do
      match ← walkNew root parents with
      | .error e => pure (.error e)
      | .ok dirFid =>
        match ← tother (match cfg.dialect with | .l => typeTlcreate | .u => typeTcreate) [dirFid] with
        | .error e =>
          let _ ← cleanupFid dirFid
          pure (.error e)
        | .ok () => returnFile dirFid

def walk (f : Nat) (names : List String) : Op (Except Error Unit) :=
  withFile f fun fid =>
    if names = [] then pure (.error .other)
    else do
      match ← walkNew fid names with
      | .error e => pure (.error e)
      | .ok newFid => returnFile newFid

def cloneFid (f : Nat) : Op (Except Error Fid) := withFile f fun fid => walkNew fid []

def clone (f : Nat) : Op (Except Error Unit) := do
  match ← cloneFid f with
  | .error e => pure (.error e)
  | .ok newFid => returnFile newFid

def close (f : Nat) : Op (Except Error Unit) := do
  match ← beginClose f with
  | none => pure (.ok ())
  | some fid =>
    let r ← cleanupFid fid
    endClose f
    pure r

/-- Round trips of other methods of a file (reads, writes, attributes, locks and so on) on its own fid. -/
def fileOps (f : Nat) (types : List MessageType) : Op (Except Error Unit) :=
  withFile f fun fid => go fid types
where
  go (fid : Fid) : List MessageType → Op (Except Error Unit)
    | [] => pure (.ok ())
    | type :: types => do
      match ← exchange (.on type [fid]) (type == typeTread) true with
      | .error e => pure (.error (.ofErr e))
      | .ok (.rerror errno) => pure (.error (.server errno))
      | .ok _ => go fid types

/-- `Mkdir`, `Mknod` and `Symlink`, with the type of their message. -/
def makeNode (cfg : Config) (type : MessageType) (path : List String) : Op (Except Error Unit) :=
  requireL cfg <| withRoot fun root =>
    match splitLast path with
    | none => pure (.error .other)
    | some (parents, name) => do
      match ← walkNew root parents with
      | .error e => pure (.error e)
      | .ok dirFid =>
        match ← tother type [dirFid] with
        | .error e =>
          let _ ← cleanupFid dirFid
          pure (.error e)
        | .ok () =>
          let r ← walkNew dirFid [name]
          let _ ← cleanupFid dirFid
          match r with
          | .error e => pure (.error e)
          | .ok newFid => returnFile newFid

def mkdir (cfg : Config) : List String → Op (Except Error Unit) := makeNode cfg typeTmkdir

def mknod (cfg : Config) : List String → Op (Except Error Unit) := makeNode cfg typeTmknod

def symlink (cfg : Config) : List String → Op (Except Error Unit) := makeNode cfg typeTsymlink

/-- `Rename` and `Link`: a message on two walked fids; `first` is walked first and clunked last. -/
def onTwo (type : MessageType) (root : Fid) (first second : List String) (fids : Fid → Fid → List Fid) :
    Op (Except Error Unit) := do
  match ← walkNew root first with
  | .error e => pure (.error e)
  | .ok fid =>
    match ← walkNew root second with
    | .error e =>
      let _ ← cleanupFid fid
      pure (.error e)
    | .ok fid' =>
      let r ← tother type (fids fid fid')
      let _ ← cleanupFid fid'
      let _ ← cleanupFid fid
      pure r

def rename (cfg : Config) (fromPath toPath : List String) : Op (Except Error Unit) :=
  requireL cfg <| withRoot fun root =>
    match splitLast fromPath, splitLast toPath with
    | some (fromParents, _), some (toParents, _) =>
      onTwo typeTrenameat root fromParents toParents fun oldDirFid newDirFid => [oldDirFid, newDirFid]
    | _, _ => pure (.error .other)

def link (cfg : Config) (existingPath newPath : List String) : Op (Except Error Unit) :=
  requireL cfg <| withRoot fun root =>
    match splitLast existingPath, splitLast newPath with
    | some _, some (dstParents, _) =>
      onTwo typeTlink root existingPath dstParents fun srcFid dstDirFid => [dstDirFid, srcFid]
    | _, _ => pure (.error .other)

def eisdir : Nat := 21

def remove (cfg : Config) (path : List String) : Op (Except Error Unit) :=
  requireL cfg <| withRoot fun root =>
    match splitLast path with
    | none => pure (.error .other)
    | some (parents, _) => do
      match ← walkNew root parents with
      | .error e => pure (.error e)
      | .ok dirFid =>
        let r ← tother typeTunlinkat [dirFid]
        -- the second time with `AT_REMOVEDIR`
        let r ← if r = .error (.server eisdir) then tother typeTunlinkat [dirFid] else pure r
        let _ ← cleanupFid dirFid
        pure r

/-! ## Extended attributes -/

def ioFrameOverhead : Nat := 24

def xattrChunk (cfg : Config) : Nat := if cfg.msize ≤ ioFrameOverhead then 0 else cfg.msize - ioFrameOverhead

def cleanupAfter (fid : Fid) (e : Error) : Op (Except Error Unit) := do
  let _ ← cleanupFid fid
  pure (.error e)

def xattrReadLoop (newFid : Fid) (size chunk off : Nat) : Op (Except Error Unit) :=
  if off < size then do
    match ← tread newFid (min chunk (size - off)) with
    | .error e => cleanupAfter newFid e
    | .ok n =>
      if _h : n = 0 then cleanupAfter newFid .other
      else if n > size - off then cleanupAfter newFid .other
      else xattrReadLoop newFid size chunk (off + n)
  else cleanupFid newFid
termination_by size - off

def twoPhaseXattrRead (cfg : Config) (f : Nat) (name : String) : Op (Except Error Unit) :=
  withFile f fun fid => requireL cfg do
    match ← acquire with
    | none => pure (.error .other)
    | some newFid =>
      match ← txattrwalk fid newFid name with
      | .error e =>
        release newFid
        pure (.error e)
      | .ok size =>
        if size > maxDataSize then cleanupAfter newFid .other
        else if size = 0 then cleanupFid newFid
        else if xattrChunk cfg = 0 then cleanupAfter newFid .other
        else xattrReadLoop newFid size (xattrChunk cfg) 0

def xattrGet (cfg : Config) (f : Nat) (name : String) : Op (Except Error Unit) := twoPhaseXattrRead cfg f name

def xattrList (cfg : Config) (f : Nat) : Op (Except Error Unit) := twoPhaseXattrRead cfg f ""

def xattrWriteLoop (fid : Fid) (size chunk off : Nat) : Op (Except Error Unit) :=
  if off < size then do
    match ← twrite fid (min (off + chunk) size - off) with
    | .error e => cleanupAfter fid e
    | .ok n =>
      if _h : n = 0 then cleanupAfter fid .other
      else xattrWriteLoop fid size chunk (off + n)
  else cleanupFid fid
termination_by size - off

/-- `XattrSet`, for a value of `size` bytes -/
def xattrSet (cfg : Config) (f : Nat) (size : Nat) : Op (Except Error Unit) :=
  requireL cfg do
    match ← cloneFid f with
    | .error e => pure (.error e)
    | .ok fid =>
      match ← tother typeTxattrcreate [fid] with
      | .error e => cleanupAfter fid e
      | .ok () =>
        if xattrChunk cfg = 0 ∧ size > 0 then cleanupAfter fid .other
        else xattrWriteLoop fid size (xattrChunk cfg) 0

def xattrRemove (cfg : Config) (f : Nat) : Op (Except Error Unit) := xattrSet cfg f 0

/-- The calls that a program makes on a connection and its files. -/
inductive ApiCall
  | attach
  | openFile (path : List String)
  | create (path : List String)
  | walk (f : Nat) (names : List String)
  | clone (f : Nat)
  | close (f : Nat)
  | fileOps (f : Nat) (types : List MessageType)
  | mkdir (path : List String)
  | mknod (path : List String)
  | symlink (path : List String)
  | rename (fromPath toPath : List String)
  | link (existingPath newPath : List String)
  | remove (path : List String)
  | xattrGet (f : Nat) (name : String)
  | xattrList (f : Nat)
  | xattrSet (f : Nat) (size : Nat)
  | xattrRemove (f : Nat)
  deriving DecidableEq

def ApiCall.op (cfg : Config) : ApiCall → Op (Except Error Unit)
  | .attach => Client.attach
  | .openFile path => Client.openFile cfg path
  | .create path => Client.create cfg path
  | .walk f names => Client.walk f names
  | .clone f => Client.clone f
  | .close f => Client.close f
  | .fileOps f types => Client.fileOps f types
  | .mkdir path => Client.mkdir cfg path
  | .mknod path => Client.mknod cfg path
  | .symlink path => Client.symlink cfg path
  | .rename fromPath toPath => Client.rename cfg fromPath toPath
  | .link existingPath newPath => Client.link cfg existingPath newPath
  | .remove path => Client.remove cfg path
  | .xattrGet f name => Client.xattrGet cfg f name
  | .xattrList f => Client.xattrList cfg f
  | .xattrSet f size => Client.xattrSet cfg f size
  | .xattrRemove f => Client.xattrRemove cfg f

end NineP.Client
