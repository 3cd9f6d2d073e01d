import NineP.Proto.Errno
import NineP.Server.Negotiation

/-!
# The replies of the handlers

What the handlers of `server/bridge.go` and `server/dispatch.go` answer, field by field, and the frames that
`handleRequest`, `sendResponseInline` and `writeRaw` make of the answers.  An error on the way comes as an errno.
-/

namespace NineP.Server.Replies

open Codec Proto Negotiation

/-! ## Directory entries -/

structure Dirent where
  qid : QID
  offset : UInt64
  type : UInt8
  name : Bytes

/-- The bytes that `EncodeDirentsInto` writes for an entry. -/
def Dirent.bytes (d : Dirent) : Bytes :=
  d.qid.bytes ++ leBytes 8 d.offset.toNat ++ [d.type] ++ leBytes 2 d.name.length ++ d.name

/-- `EncodeDirentsInto` on a buffer of `size` bytes; `out` is what it has written. -/
def encodeDirentsInto (size : Nat) : List Dirent → Bytes → Bytes
  | [], out => out
  | d :: ds, out =>
    if d.name.length > 0xFFFF then encodeDirentsInto size ds out
    else if out.length + (13 + 8 + 1 + 2 + d.name.length) > size then out
    else encodeDirentsInto size ds (out ++ d.bytes)

/-! ## What a handler is given -/

/-- What a read into a buffer gives: the count that the method returns, and what stands in the buffer then. -/
structure Filled where
  n : Int
  buf : Bytes

/-- The sources of a Tread's or Treaddir's data. -/
inductive Source
  | xattr (data : Bytes)  -- an xattr fid
  | buffer (x : Filled)  -- `Read` or `RawReaddir`
  | listing (dirents : List Dirent)  -- `Readdir`

/-- What nodes, handles and the fid table give to a handler that gets to its end. -/
structure Values where
  qid : QID
  /-- What the `Lookup`s of a walk give. -/
  lookups : List (Except Errno QID)
  iounitHint : UInt32
  source : Source
  /-- What a `Write` returned. -/
  count : Int
  attr : P9l.Attr
  fsStat : P9l.FSStat
  /-- What a `Readlink` returned. -/
  target : Bytes
  status : LockStatus
  /-- What a `GetLock` returned. -/
  lock : P9l.Rgetlock
  /-- The data that a Txattrwalk found. -/
  xattr : Bytes
  /-- The path of the fid. -/
  path : Bytes

/-! ## Handlers -/

def errorMsg (c : Params) (e : Errno) : Msg :=
  match c.protocol with
  | .u => .u (.rerror ⟨errnoError e, e⟩)
  | _ => .l (.rlerror ⟨e⟩)

section Handlers

variable (c : Params)

/-- The largest payload of a response. -/
def maxData : UInt32 := c.msize - headerSize - 4

def clampIOUnit (hint : UInt32) : UInt32 := if hint = 0 ∨ hint > maxData c then maxData c else hint

/-- The clamp of a count in `handleRead` and `handleReaddir`. -/
def clampCount (count : UInt32) : UInt32 := if count > maxData c then maxData c else count

def validReadCount (n : Int) (size : Nat) : Bool := 0 ≤ n && n ≤ size

def validWriteCount (count : Int) (payloadLen : Nat) : Bool := 0 ≤ count && count ≤ payloadLen

/-- `fillPooled`: the data, or an error. -/
def fillPooled (count : UInt32) (x : Filled) : Except Errno Bytes :=
  if validReadCount x.n count.toNat then .ok ((x.buf.take count.toNat).take x.n.toNat) else .error EIO

/-- The reply of a handler that may still fail. -/
def orError (r : Except Errno Msg) : Msg :=
  match r with
  | .ok m => m
  | .error e => errorMsg c e

/-- `readdirSimple`, with the cookies of the entries -/
def readdirSimple (count : UInt32) (offset : UInt64) (dirents : List Dirent) : Bytes :=
  let cache := dirents.mapIdx fun i d => { d with offset := UInt64.ofNat (i + 1) }
  encodeDirentsInto count.toNat (cache.drop (min offset.toNat cache.length)) []

def handleRead (m : Tread) : Source → Msg
  | .xattr data => .base (.rread ⟨(data.drop m.offset.toNat).take (clampCount c m.count).toNat⟩)
  | .buffer x => orError c ((fillPooled (clampCount c m.count) x).map fun data => .base (.rread ⟨data⟩))
  | .listing _ => errorMsg c ENOSYS

def handleReaddir (m : P9l.Treaddir) : Source → Msg
  | .xattr _ => errorMsg c EBADF
  | .buffer x => orError c ((fillPooled (clampCount c m.count) x).map fun data => .l (.rreaddir ⟨data⟩))
  | .listing dirents => .l (.rreaddir ⟨readdirSimple (clampCount c m.count) m.offset dirents⟩)

def handleWrite (m : Twrite) (v : Values) : Msg :=
  if validWriteCount v.count m.data.length then .base (.rwrite ⟨UInt32.ofNat v.count.toNat⟩) else errorMsg c EIO

/-- The QIDs that a walk collects before its first error. -/
def walkQids : List Bytes → List (Except Errno QID) → List QID
  | _ :: names, .ok qid :: lookups => qid :: walkQids names lookups
  | _, _ => []

def handleWalk (m : Twalk) (v : Values) : Msg :=
  match m.names, v.lookups with
  | _ :: _, .error e :: _ => errorMsg c e
  | names, lookups => .base (.rwalk ⟨walkQids names lookups⟩)

def handleAttach (v : Values) : Msg := .base (.rattach ⟨v.qid⟩)

def handleLopen (v : Values) : Msg := .l (.rlopen ⟨v.qid, clampIOUnit c v.iounitHint⟩)

def handleUOpen (v : Values) : Msg := .u (.ropen ⟨v.qid, clampIOUnit c v.iounitHint⟩)

def handleLcreate (v : Values) : Msg := .l (.rlcreate ⟨v.qid, clampIOUnit c v.iounitHint⟩)

def handleUCreate (v : Values) : Msg := .u (.rcreate ⟨v.qid, clampIOUnit c v.iounitHint⟩)

def handleMkdir (v : Values) : Msg := .l (.rmkdir ⟨v.qid⟩)

def handleSymlink (v : Values) : Msg := .l (.rsymlink ⟨v.qid⟩)

def handleMknod (v : Values) : Msg := .l (.rmknod ⟨v.qid⟩)

/-- The QID is that of the node, whatever `Getattr` says. -/
def handleGetattr (v : Values) : Msg := .l (.rgetattr ⟨{ v.attr with qid := v.qid }⟩)

def handleReadlink (v : Values) : Msg := .l (.rreadlink ⟨v.target⟩)

def handleStatfs (v : Values) : Msg := .l (.rstatfs ⟨v.fsStat⟩)

def handleLock (v : Values) : Msg := .l (.rlock ⟨v.status⟩)

def handleGetlock (v : Values) : Msg := .l (.rgetlock v.lock)

def handleXattrwalk (v : Values) : Msg := .l (.rxattrwalk ⟨UInt64.ofNat v.xattr.length⟩)

def pathBase (path : Bytes) : Bytes :=
  if path = [] then [46]
  else
    let stripped := path.reverse.dropWhile (· = 47)
    let base := (stripped.takeWhile (· ≠ 47)).reverse
    if base = [] then [47] else base

def statName (path : Bytes) : Bytes :=
  let name := pathBase path
  if path = [] ∨ path = [47] ∨ name = [46] ∨ name = [47] then [] else name

def qtSymlink : QIDType := 0x02
def dmDir : FileMode := 0x80000000
def dmSymlink : FileMode := 0x02000000

def statFromAttr (path : Bytes) (qid : QID) (attr : P9l.Attr) : P9u.Stat :=
  let mode : FileMode := attr.mode &&& 0o7777
  { (default : P9u.Stat) with
    qid
    mode := if qid.type = qtDir then mode ||| dmDir else if qid.type = qtSymlink then mode ||| dmSymlink else mode
    atime := attr.aTimeSec.toUInt32
    mtime := attr.mTimeSec.toUInt32
    length := attr.size
    name := statName path
    nUid := attr.uid
    nGid := attr.gid }

def handleUStat (v : Values) : Msg := .u (.rstat ⟨statFromAttr v.path v.qid v.attr⟩)

def dispatch (m : Msg) (r : Except Errno Values) : Msg :=
  match r with
  | .error e => errorMsg c e
  | .ok v =>
    match m with
    | .base (.tattach _) => handleAttach v
    | .base (.twalk m) => handleWalk c m v
    | .base (.tclunk _) => .base (.rclunk {})
    | .base (.tremove _) => .base (.rremove {})
    | .l (.tlopen _) => handleLopen c v
    | .u (.topen _) => handleUOpen c v
    | .base (.tread m) => handleRead c m v.source
    | .base (.twrite m) => handleWrite c m v
    | .l (.tgetattr _) => handleGetattr v
    | .l (.tsetattr _) => .l (.rsetattr {})
    | .l (.treaddir m) => handleReaddir c m v.source
    | .l (.tlcreate _) => handleLcreate c v
    | .u (.tcreate _) => handleUCreate c v
    | .l (.tmkdir _) => handleMkdir v
    | .l (.tsymlink _) => handleSymlink v
    | .l (.tlink _) => .l (.rlink {})
    | .l (.tmknod _) => handleMknod v
    | .l (.treadlink _) => handleReadlink v
    | .l (.tstatfs _) => handleStatfs v
    | .l (.tfsync _) => .l (.rfsync {})
    | .l (.tunlinkat _) => .l (.runlinkat {})
    | .l (.trenameat _) => .l (.rrenameat {})
    | .l (.trename _) => .l (.rrename {})
    | .l (.tlock _) => handleLock v
    | .l (.tgetlock _) => handleGetlock v
    | .l (.txattrwalk _) => handleXattrwalk v
    | .l (.txattrcreate _) => .l (.rxattrcreate {})
    | .u (.tstat _) => handleUStat v
    | _ => errorMsg c ENOSYS

end Handlers

/-! ## Frames -/

def messageType : Msg → MessageType
  | .base m | .l m | .u m => m.type

def encodeTo : Msg → Writer Unit
  | .base m | .l m | .u m => m.encodeTo

/-- The frame of a message that encodes. -/
def encode (tag : Tag) (m : Msg) : Option Bytes :=
  match encodeTo m [] with
  | .ok ((), body) => some (headed (messageType m) tag body)
  | .error _ => none

/-- What `sendResponseInline` writes: a message that does not encode is replaced by EIO. -/
def sendResponseInline (c : Params) (tag : Tag) (m : Msg) : Option Bytes :=
  (encode tag m).or (encode tag (errorMsg c EIO))

/-- What becomes of a request once it is read. -/
inductive Outcome
  | answer (r : Except Errno Values)
  | panic
  | nothing  -- the connection ends first, or the request is flushed away

/-- The frame that the server writes for a frame that a client sends, if any. -/
def respond (maxMsize : UInt32) (c : Params) (f : Frame) : Outcome → Option Bytes
  | .nothing => none
  | .panic => sendResponseInline c f.tag (errorMsg c EIO)
  | .answer r =>
    if f.type = typeTversion then
      (f.tversion.bind (negotiate maxMsize)).bind fun res => encode f.tag (.base (.rversion ⟨res.msize, res.version⟩))
    else
      match f.decode c.protocol with
      | .unknownType => sendResponseInline c f.tag (errorMsg c ENOSYS)
      | .decodeErr => none
      | .msg (.base (.tflush _)) => sendResponseInline c f.tag (.base (.rflush {}))
      | .msg m => sendResponseInline c f.tag (dispatch c m r)

end NineP.Server.Replies
