import NineP.Proto.Messages

/-!
# The 9P2000.L messages

The structs of `proto/p9l/messages.go` with their `EncodeTo` and `DecodeFrom`; `X.codec` for each message `X`.
The lock messages decode fewer values than they encode: `X.Accepted` names those their readers let through.
-/

namespace NineP.P9l

open Codec Proto

/-! ## Attribute records -/

/-- FSStat holds filesystem statistics returned by Rstatfs. -/
structure FSStat where
  type : UInt32
  bSize : UInt32
  blocks : UInt64
  bFree : UInt64
  bAvail : UInt64
  files : UInt64
  fFree : UInt64
  fsid : UInt64
  nameLen : UInt32
  deriving DecidableEq, Inhabited

/-- Attr holds the file attributes returned by Rgetattr. -/
structure Attr where
  valid : AttrMask
  qid : QID
  mode : UInt32
  uid : UInt32
  gid : UInt32
  nLink : UInt64
  rDev : UInt64
  size : UInt64
  blkSize : UInt64
  blocks : UInt64
  aTimeSec : UInt64
  aTimeNSec : UInt64
  mTimeSec : UInt64
  mTimeNSec : UInt64
  cTimeSec : UInt64
  cTimeNSec : UInt64
  bTimeSec : UInt64
  bTimeNSec : UInt64
  gen : UInt64
  dataVersion : UInt64
  deriving DecidableEq, Inhabited

structure SetAttr where
  valid : SetAttrMask
  mode : UInt32
  uid : UInt32
  gid : UInt32
  size : UInt64
  aTimeSec : UInt64
  aTimeNSec : UInt64
  mTimeSec : UInt64
  mTimeNSec : UInt64
  deriving DecidableEq, Inhabited

/-- `%#x`. -/
def hex (v : UInt32) : String := "0x" ++ String.ofList (Nat.toDigits 16 v.toNat)

/-! ## The messages -/

structure Rlerror where
  ecode : Errno
  deriving DecidableEq, Inhabited

def Rlerror.encodeTo (m : Rlerror) : Writer Unit := do
  wrap "encode rlerror ecode" (writeUint32 m.ecode)

def Rlerror.decodeFrom : Reader Rlerror := do
  let ecode ← wrap "decode rlerror ecode" readUint32
  return { ecode }

theorem Rlerror.codec : CodecOn maxBody Any Rlerror.encodeTo Rlerror.decodeFrom := by
  unfold Rlerror.encodeTo
  exact .mono (by decide) (.only _ _ uint32_codec fun _ a => by cases a; simp)

structure Tstatfs where
  fid : Fid
  deriving DecidableEq, Inhabited

def Tstatfs.encodeTo (m : Tstatfs) : Writer Unit := do
  wrap "encode tstatfs fid" (writeFid m.fid)

def Tstatfs.decodeFrom : Reader Tstatfs := do
  let fid ← wrap "decode tstatfs fid" readFid
  return { fid }

theorem Tstatfs.codec : CodecOn maxBody Any Tstatfs.encodeTo Tstatfs.decodeFrom := by
  unfold Tstatfs.encodeTo
  exact .mono (by decide) (.only _ _ fid_codec fun _ a => by cases a; simp)

structure Rstatfs where
  stat : FSStat
  deriving DecidableEq, Inhabited

def Rstatfs.encodeTo (m : Rstatfs) : Writer Unit := do
  wrap "encode rstatfs type" (writeUint32 m.stat.type)
  wrap "encode rstatfs bsize" (writeUint32 m.stat.bSize)
  wrap "encode rstatfs blocks" (writeUint64 m.stat.blocks)
  wrap "encode rstatfs bfree" (writeUint64 m.stat.bFree)
  wrap "encode rstatfs bavail" (writeUint64 m.stat.bAvail)
  wrap "encode rstatfs files" (writeUint64 m.stat.files)
  wrap "encode rstatfs ffree" (writeUint64 m.stat.fFree)
  wrap "encode rstatfs fsid" (writeUint64 m.stat.fsid)
  wrap "encode rstatfs namelen" (writeUint32 m.stat.nameLen)

def Rstatfs.decodeFrom : Reader Rstatfs := do
  let type ← wrap "decode rstatfs type" readUint32
  let bSize ← wrap "decode rstatfs bsize" readUint32
  let blocks ← wrap "decode rstatfs blocks" readUint64
  let bFree ← wrap "decode rstatfs bfree" readUint64
  let bAvail ← wrap "decode rstatfs bavail" readUint64
  let files ← wrap "decode rstatfs files" readUint64
  let fFree ← wrap "decode rstatfs ffree" readUint64
  let fsid ← wrap "decode rstatfs fsid" readUint64
  let nameLen ← wrap "decode rstatfs namelen" readUint32
  return { stat := ⟨type, bSize, blocks, bFree, bAvail, files, fFree, fsid, nameLen⟩ }

theorem Rstatfs.codec : CodecOn maxBody Any Rstatfs.encodeTo Rstatfs.decodeFrom :=
  .mono (by decide) <|
  .fieldW uint32_codec fun _ =>
  .fieldW uint32_codec fun _ =>
  .fieldW uint64_codec fun _ =>
  .fieldW uint64_codec fun _ =>
  .fieldW uint64_codec fun _ =>
  .fieldW uint64_codec fun _ =>
  .fieldW uint64_codec fun _ =>
  .fieldW uint64_codec fun _ =>
  .lastW uint32_codec fun _ a => by rcases a with ⟨⟨⟩⟩; simp [Any, and_assoc]

structure Tlopen where
  fid : Fid
  flags : UInt32
  deriving DecidableEq, Inhabited

def Tlopen.encodeTo (m : Tlopen) : Writer Unit := do
  wrap "encode tlopen fid" (writeFid m.fid)
  wrap "encode tlopen flags" (writeUint32 m.flags)

def Tlopen.decodeFrom : Reader Tlopen := do
  let fid ← wrap "decode tlopen fid" readFid
  let flags ← wrap "decode tlopen flags" readUint32
  return { fid, flags }

theorem Tlopen.codec : CodecOn maxBody Any Tlopen.encodeTo Tlopen.decodeFrom :=
  .mono (by decide) <|
  .fieldW fid_codec fun _ =>
  .lastW uint32_codec

/-- Rlopen is the server's response to Tlopen, providing the opened file's QID and the negotiated I/O unit size. -/
structure Rlopen where
  qid : QID
  ioUnit : UInt32
  deriving DecidableEq, Inhabited

def Rlopen.encodeTo (m : Rlopen) : Writer Unit := do
  wrap "encode rlopen qid" (writeQID m.qid)
  wrap "encode rlopen iounit" (writeUint32 m.ioUnit)

def Rlopen.decodeFrom : Reader Rlopen := do
  let qid ← wrap "decode rlopen qid" readQID
  let ioUnit ← wrap "decode rlopen iounit" readUint32
  return { qid, ioUnit }

theorem Rlopen.codec : CodecOn maxBody Any Rlopen.encodeTo Rlopen.decodeFrom :=
  .mono (by decide) <|
  .fieldW qid_codec fun _ =>
  .lastW uint32_codec

structure Tlcreate where
  fid : Fid
  name : Bytes
  flags : UInt32
  mode : FileMode
  gid : UInt32
  deriving DecidableEq, Inhabited

def Tlcreate.encodeTo (m : Tlcreate) : Writer Unit := do
  wrap "encode tlcreate fid" (writeFid m.fid)
  wrap "encode tlcreate name" (writeString m.name)
  wrap "encode tlcreate flags" (writeUint32 m.flags)
  wrap "encode tlcreate mode" (writeUint32 m.mode)
  wrap "encode tlcreate gid" (writeUint32 m.gid)

def Tlcreate.decodeFrom : Reader Tlcreate := do
  let fid ← wrap "decode tlcreate fid" readFid
  let name ← wrap "decode tlcreate name" readString
  let flags ← wrap "decode tlcreate flags" readUint32
  let mode ← wrap "decode tlcreate mode" readUint32
  let gid ← wrap "decode tlcreate gid" readUint32
  return { fid, name, flags, mode, gid }

theorem Tlcreate.codec : CodecOn maxBody Any Tlcreate.encodeTo Tlcreate.decodeFrom :=
  .mono (by decide) <|
  .fieldW fid_codec fun _ =>
  .fieldW string_codec fun _ =>
  .fieldW uint32_codec fun _ =>
  .fieldW uint32_codec fun _ =>
  .lastW uint32_codec

/-- Rlcreate is the server's response to Tlcreate, providing the new file's QID and I/O unit size. -/
structure Rlcreate where
  qid : QID
  ioUnit : UInt32
  deriving DecidableEq, Inhabited

def Rlcreate.encodeTo (m : Rlcreate) : Writer Unit := do
  wrap "encode rlcreate qid" (writeQID m.qid)
  wrap "encode rlcreate iounit" (writeUint32 m.ioUnit)

def Rlcreate.decodeFrom : Reader Rlcreate := do
  let qid ← wrap "decode rlcreate qid" readQID
  let ioUnit ← wrap "decode rlcreate iounit" readUint32
  return { qid, ioUnit }

theorem Rlcreate.codec : CodecOn maxBody Any Rlcreate.encodeTo Rlcreate.decodeFrom :=
  .mono (by decide) <|
  .fieldW qid_codec fun _ =>
  .lastW uint32_codec

structure Tsymlink where
  dirFid : Fid
  name : Bytes
  target : Bytes
  gid : UInt32
  deriving DecidableEq, Inhabited

def Tsymlink.encodeTo (m : Tsymlink) : Writer Unit := do
  wrap "encode tsymlink dirfid" (writeFid m.dirFid)
  wrap "encode tsymlink name" (writeString m.name)
  wrap "encode tsymlink target" (writeString m.target)
  wrap "encode tsymlink gid" (writeUint32 m.gid)

def Tsymlink.decodeFrom : Reader Tsymlink := do
  let dirFid ← wrap "decode tsymlink dirfid" readFid
  let name ← wrap "decode tsymlink name" readString
  let target ← wrap "decode tsymlink target" readString
  let gid ← wrap "decode tsymlink gid" readUint32
  return { dirFid, name, target, gid }

theorem Tsymlink.codec : CodecOn maxBody Any Tsymlink.encodeTo Tsymlink.decodeFrom :=
  .mono (by decide) <|
  .fieldW fid_codec fun _ =>
  .fieldW string_codec fun _ =>
  .fieldW string_codec fun _ =>
  .lastW uint32_codec

structure Rsymlink where
  qid : QID
  deriving DecidableEq, Inhabited

def Rsymlink.encodeTo (m : Rsymlink) : Writer Unit := do
  wrap "encode rsymlink qid" (writeQID m.qid)

def Rsymlink.decodeFrom : Reader Rsymlink := do
  let qid ← wrap "decode rsymlink qid" readQID
  return { qid }

theorem Rsymlink.codec : CodecOn maxBody Any Rsymlink.encodeTo Rsymlink.decodeFrom := by
  unfold Rsymlink.encodeTo
  exact .mono (by decide) (.only _ _ qid_codec fun _ a => by cases a; simp)

structure Tmknod where
  dirFid : Fid
  name : Bytes
  mode : FileMode
  major : UInt32
  minor : UInt32
  gid : UInt32
  deriving DecidableEq, Inhabited

def Tmknod.encodeTo (m : Tmknod) : Writer Unit := do
  wrap "encode tmknod dirfid" (writeFid m.dirFid)
  wrap "encode tmknod name" (writeString m.name)
  wrap "encode tmknod mode" (writeUint32 m.mode)
  wrap "encode tmknod major" (writeUint32 m.major)
  wrap "encode tmknod minor" (writeUint32 m.minor)
  wrap "encode tmknod gid" (writeUint32 m.gid)

def Tmknod.decodeFrom : Reader Tmknod := do
  let dirFid ← wrap "decode tmknod dirfid" readFid
  let name ← wrap "decode tmknod name" readString
  let mode ← wrap "decode tmknod mode" readUint32
  let major ← wrap "decode tmknod major" readUint32
  let minor ← wrap "decode tmknod minor" readUint32
  let gid ← wrap "decode tmknod gid" readUint32
  return { dirFid, name, mode, major, minor, gid }

theorem Tmknod.codec : CodecOn maxBody Any Tmknod.encodeTo Tmknod.decodeFrom :=
  .mono (by decide) <|
  .fieldW fid_codec fun _ =>
  .fieldW string_codec fun _ =>
  .fieldW uint32_codec fun _ =>
  .fieldW uint32_codec fun _ =>
  .fieldW uint32_codec fun _ =>
  .lastW uint32_codec

structure Rmknod where
  qid : QID
  deriving DecidableEq, Inhabited

def Rmknod.encodeTo (m : Rmknod) : Writer Unit := do
  wrap "encode rmknod qid" (writeQID m.qid)

def Rmknod.decodeFrom : Reader Rmknod := do
  let qid ← wrap "decode rmknod qid" readQID
  return { qid }

theorem Rmknod.codec : CodecOn maxBody Any Rmknod.encodeTo Rmknod.decodeFrom := by
  unfold Rmknod.encodeTo
  exact .mono (by decide) (.only _ _ qid_codec fun _ a => by cases a; simp)

structure Trename where
  fid : Fid
  dirFid : Fid
  name : Bytes
  deriving DecidableEq, Inhabited

def Trename.encodeTo (m : Trename) : Writer Unit := do
  wrap "encode trename fid" (writeFid m.fid)
  wrap "encode trename dirfid" (writeFid m.dirFid)
  wrap "encode trename name" (writeString m.name)

def Trename.decodeFrom : Reader Trename := do
  let fid ← wrap "decode trename fid" readFid
  let dirFid ← wrap "decode trename dirfid" readFid
  let name ← wrap "decode trename name" readString
  return { fid, dirFid, name }

theorem Trename.codec : CodecOn maxBody Any Trename.encodeTo Trename.decodeFrom :=
  .mono (by decide) <|
  .fieldW fid_codec fun _ =>
  .fieldW fid_codec fun _ =>
  .lastW string_codec

structure Rrename where
  deriving DecidableEq, Inhabited

def Rrename.encodeTo (_ : Rrename) : Writer Unit := pure ()

def Rrename.decodeFrom : Reader Rrename := pure {}

theorem Rrename.codec : CodecOn maxBody Any Rrename.encodeTo Rrename.decodeFrom :=
  .mono (by decide) (.empty _ fun _ => by simp [Any])

structure Treadlink where
  fid : Fid
  deriving DecidableEq, Inhabited

def Treadlink.encodeTo (m : Treadlink) : Writer Unit := do
  wrap "encode treadlink fid" (writeFid m.fid)

def Treadlink.decodeFrom : Reader Treadlink := do
  let fid ← wrap "decode treadlink fid" readFid
  return { fid }

theorem Treadlink.codec : CodecOn maxBody Any Treadlink.encodeTo Treadlink.decodeFrom := by
  unfold Treadlink.encodeTo
  exact .mono (by decide) (.only _ _ fid_codec fun _ a => by cases a; simp)

structure Rreadlink where
  target : Bytes
  deriving DecidableEq, Inhabited

def Rreadlink.encodeTo (m : Rreadlink) : Writer Unit := do
  wrap "encode rreadlink target" (writeString m.target)

def Rreadlink.decodeFrom : Reader Rreadlink := do
  let target ← wrap "decode rreadlink target" readString
  return { target }

theorem Rreadlink.codec : CodecOn maxBody Any Rreadlink.encodeTo Rreadlink.decodeFrom := by
  unfold Rreadlink.encodeTo
  exact .mono (by decide) (.only _ _ string_codec fun _ a => by cases a; simp)

structure Tgetattr where
  fid : Fid
  requestMask : AttrMask
  deriving DecidableEq, Inhabited

def Tgetattr.encodeTo (m : Tgetattr) : Writer Unit := do
  wrap "encode tgetattr fid" (writeFid m.fid)
  wrap "encode tgetattr request_mask" (writeUint64 m.requestMask)

def Tgetattr.decodeFrom : Reader Tgetattr := do
  let fid ← wrap "decode tgetattr fid" readFid
  let requestMask ← wrap "decode tgetattr request_mask" readUint64
  return { fid, requestMask }

theorem Tgetattr.codec : CodecOn maxBody Any Tgetattr.encodeTo Tgetattr.decodeFrom :=
  .mono (by decide) <|
  .fieldW fid_codec fun _ =>
  .lastW uint64_codec

structure Rgetattr where
  attr : Attr
  deriving DecidableEq, Inhabited

def Rgetattr.encodeTo (m : Rgetattr) : Writer Unit := do
  wrap "encode rgetattr valid" (writeUint64 m.attr.valid)
  wrap "encode rgetattr qid" (writeQID m.attr.qid)
  wrap "encode rgetattr mode" (writeUint32 m.attr.mode)
  wrap "encode rgetattr uid" (writeUint32 m.attr.uid)
  wrap "encode rgetattr gid" (writeUint32 m.attr.gid)
  wrap "encode rgetattr nlink" (writeUint64 m.attr.nLink)
  wrap "encode rgetattr rdev" (writeUint64 m.attr.rDev)
  wrap "encode rgetattr size" (writeUint64 m.attr.size)
  wrap "encode rgetattr blksize" (writeUint64 m.attr.blkSize)
  wrap "encode rgetattr blocks" (writeUint64 m.attr.blocks)
  wrap "encode rgetattr atime_sec" (writeUint64 m.attr.aTimeSec)
  wrap "encode rgetattr atime_nsec" (writeUint64 m.attr.aTimeNSec)
  wrap "encode rgetattr mtime_sec" (writeUint64 m.attr.mTimeSec)
  wrap "encode rgetattr mtime_nsec" (writeUint64 m.attr.mTimeNSec)
  wrap "encode rgetattr ctime_sec" (writeUint64 m.attr.cTimeSec)
  wrap "encode rgetattr ctime_nsec" (writeUint64 m.attr.cTimeNSec)
  wrap "encode rgetattr btime_sec" (writeUint64 m.attr.bTimeSec)
  wrap "encode rgetattr btime_nsec" (writeUint64 m.attr.bTimeNSec)
  wrap "encode rgetattr gen" (writeUint64 m.attr.gen)
  wrap "encode rgetattr data_version" (writeUint64 m.attr.dataVersion)

def Rgetattr.decodeFrom : Reader Rgetattr := do
  let valid ← wrap "decode rgetattr valid" readUint64
  let qid ← wrap "decode rgetattr qid" readQID
  let mode ← wrap "decode rgetattr mode" readUint32
  let uid ← wrap "decode rgetattr uid" readUint32
  let gid ← wrap "decode rgetattr gid" readUint32
  let nLink ← wrap "decode rgetattr nlink" readUint64
  let rDev ← wrap "decode rgetattr rdev" readUint64
  let size ← wrap "decode rgetattr size" readUint64
  let blkSize ← wrap "decode rgetattr blksize" readUint64
  let blocks ← wrap "decode rgetattr blocks" readUint64
  let aTimeSec ← wrap "decode rgetattr atime_sec" readUint64
  let aTimeNSec ← wrap "decode rgetattr atime_nsec" readUint64
  let mTimeSec ← wrap "decode rgetattr mtime_sec" readUint64
  let mTimeNSec ← wrap "decode rgetattr mtime_nsec" readUint64
  let cTimeSec ← wrap "decode rgetattr ctime_sec" readUint64
  let cTimeNSec ← wrap "decode rgetattr ctime_nsec" readUint64
  let bTimeSec ← wrap "decode rgetattr btime_sec" readUint64
  let bTimeNSec ← wrap "decode rgetattr btime_nsec" readUint64
  let gen ← wrap "decode rgetattr gen" readUint64
  let dataVersion ← wrap "decode rgetattr data_version" readUint64
  return { attr := ⟨valid, qid, mode, uid, gid, nLink, rDev, size, blkSize, blocks, aTimeSec, aTimeNSec,
      mTimeSec, mTimeNSec, cTimeSec, cTimeNSec, bTimeSec, bTimeNSec, gen, dataVersion⟩ }

theorem Rgetattr.codec : CodecOn maxBody Any Rgetattr.encodeTo Rgetattr.decodeFrom :=
  .mono (by decide) <|
  .fieldW uint64_codec fun _ =>
  .fieldW qid_codec fun _ =>
  .fieldW uint32_codec fun _ =>
  .fieldW uint32_codec fun _ =>
  .fieldW uint32_codec fun _ =>
  .fieldW uint64_codec fun _ =>
  .fieldW uint64_codec fun _ =>
  .fieldW uint64_codec fun _ =>
  .fieldW uint64_codec fun _ =>
  .fieldW uint64_codec fun _ =>
  .fieldW uint64_codec fun _ =>
  .fieldW uint64_codec fun _ =>
  .fieldW uint64_codec fun _ =>
  .fieldW uint64_codec fun _ =>
  .fieldW uint64_codec fun _ =>
  .fieldW uint64_codec fun _ =>
  .fieldW uint64_codec fun _ =>
  .fieldW uint64_codec fun _ =>
  .fieldW uint64_codec fun _ =>
  .lastW uint64_codec fun _ a => by rcases a with ⟨⟨⟩⟩; simp [Any, and_assoc]

structure Tsetattr where
  fid : Fid
  attr : SetAttr
  deriving DecidableEq, Inhabited

def Tsetattr.encodeTo (m : Tsetattr) : Writer Unit := do
  wrap "encode tsetattr fid" (writeFid m.fid)
  wrap "encode tsetattr valid" (writeUint32 m.attr.valid)
  wrap "encode tsetattr mode" (writeUint32 m.attr.mode)
  wrap "encode tsetattr uid" (writeUint32 m.attr.uid)
  wrap "encode tsetattr gid" (writeUint32 m.attr.gid)
  wrap "encode tsetattr size" (writeUint64 m.attr.size)
  wrap "encode tsetattr atime_sec" (writeUint64 m.attr.aTimeSec)
  wrap "encode tsetattr atime_nsec" (writeUint64 m.attr.aTimeNSec)
  wrap "encode tsetattr mtime_sec" (writeUint64 m.attr.mTimeSec)
  wrap "encode tsetattr mtime_nsec" (writeUint64 m.attr.mTimeNSec)

def Tsetattr.decodeFrom : Reader Tsetattr := do
  let fid ← wrap "decode tsetattr fid" readFid
  let valid ← wrap "decode tsetattr valid" readUint32
  let mode ← wrap "decode tsetattr mode" readUint32
  let uid ← wrap "decode tsetattr uid" readUint32
  let gid ← wrap "decode tsetattr gid" readUint32
  let size ← wrap "decode tsetattr size" readUint64
  let aTimeSec ← wrap "decode tsetattr atime_sec" readUint64
  let aTimeNSec ← wrap "decode tsetattr atime_nsec" readUint64
  let mTimeSec ← wrap "decode tsetattr mtime_sec" readUint64
  let mTimeNSec ← wrap "decode tsetattr mtime_nsec" readUint64
  return { fid, attr := ⟨valid, mode, uid, gid, size, aTimeSec, aTimeNSec, mTimeSec, mTimeNSec⟩ }

theorem Tsetattr.codec : CodecOn maxBody Any Tsetattr.encodeTo Tsetattr.decodeFrom :=
  .mono (by decide) <|
  .fieldW fid_codec fun _ =>
  .fieldW uint32_codec fun _ =>
  .fieldW uint32_codec fun _ =>
  .fieldW uint32_codec fun _ =>
  .fieldW uint32_codec fun _ =>
  .fieldW uint64_codec fun _ =>
  .fieldW uint64_codec fun _ =>
  .fieldW uint64_codec fun _ =>
  .fieldW uint64_codec fun _ =>
  .lastW uint64_codec fun _ a => by rcases a with ⟨_, ⟨⟩⟩; simp [Any, and_assoc]

structure Rsetattr where
  deriving DecidableEq, Inhabited

def Rsetattr.encodeTo (_ : Rsetattr) : Writer Unit := pure ()

def Rsetattr.decodeFrom : Reader Rsetattr := pure {}

theorem Rsetattr.codec : CodecOn maxBody Any Rsetattr.encodeTo Rsetattr.decodeFrom :=
  .mono (by decide) (.empty _ fun _ => by simp [Any])

structure Txattrwalk where
  fid : Fid
  newFid : Fid
  name : Bytes
  deriving DecidableEq, Inhabited

def Txattrwalk.encodeTo (m : Txattrwalk) : Writer Unit := do
  wrap "encode txattrwalk fid" (writeFid m.fid)
  wrap "encode txattrwalk newfid" (writeFid m.newFid)
  wrap "encode txattrwalk name" (writeString m.name)

def Txattrwalk.decodeFrom : Reader Txattrwalk := do
  let fid ← wrap "decode txattrwalk fid" readFid
  let newFid ← wrap "decode txattrwalk newfid" readFid
  let name ← wrap "decode txattrwalk name" readString
  return { fid, newFid, name }

theorem Txattrwalk.codec : CodecOn maxBody Any Txattrwalk.encodeTo Txattrwalk.decodeFrom :=
  .mono (by decide) <|
  .fieldW fid_codec fun _ =>
  .fieldW fid_codec fun _ =>
  .lastW string_codec

structure Rxattrwalk where
  size : UInt64
  deriving DecidableEq, Inhabited

def Rxattrwalk.encodeTo (m : Rxattrwalk) : Writer Unit := do
  wrap "encode rxattrwalk size" (writeUint64 m.size)

def Rxattrwalk.decodeFrom : Reader Rxattrwalk := do
  let size ← wrap "decode rxattrwalk size" readUint64
  return { size }

theorem Rxattrwalk.codec : CodecOn maxBody Any Rxattrwalk.encodeTo Rxattrwalk.decodeFrom := by
  unfold Rxattrwalk.encodeTo
  exact .mono (by decide) (.only _ _ uint64_codec fun _ a => by cases a; simp)

structure Txattrcreate where
  fid : Fid
  name : Bytes
  attrSize : UInt64
  flags : UInt32
  deriving DecidableEq, Inhabited

def Txattrcreate.encodeTo (m : Txattrcreate) : Writer Unit := do
  wrap "encode txattrcreate fid" (writeFid m.fid)
  wrap "encode txattrcreate name" (writeString m.name)
  wrap "encode txattrcreate attr_size" (writeUint64 m.attrSize)
  wrap "encode txattrcreate flags" (writeUint32 m.flags)

def Txattrcreate.decodeFrom : Reader Txattrcreate := do
  let fid ← wrap "decode txattrcreate fid" readFid
  let name ← wrap "decode txattrcreate name" readString
  let attrSize ← wrap "decode txattrcreate attr_size" readUint64
  let flags ← wrap "decode txattrcreate flags" readUint32
  return { fid, name, attrSize, flags }

theorem Txattrcreate.codec : CodecOn maxBody Any Txattrcreate.encodeTo Txattrcreate.decodeFrom :=
  .mono (by decide) <|
  .fieldW fid_codec fun _ =>
  .fieldW string_codec fun _ =>
  .fieldW uint64_codec fun _ =>
  .lastW uint32_codec

structure Rxattrcreate where
  deriving DecidableEq, Inhabited

def Rxattrcreate.encodeTo (_ : Rxattrcreate) : Writer Unit := pure ()

def Rxattrcreate.decodeFrom : Reader Rxattrcreate := pure {}

theorem Rxattrcreate.codec : CodecOn maxBody Any Rxattrcreate.encodeTo Rxattrcreate.decodeFrom :=
  .mono (by decide) (.empty _ fun _ => by simp [Any])

structure Treaddir where
  fid : Fid
  offset : UInt64
  count : UInt32
  deriving DecidableEq, Inhabited

def Treaddir.encodeTo (m : Treaddir) : Writer Unit := do
  wrap "encode treaddir fid" (writeFid m.fid)
  wrap "encode treaddir offset" (writeUint64 m.offset)
  wrap "encode treaddir count" (writeUint32 m.count)

def Treaddir.decodeFrom : Reader Treaddir := do
  let fid ← wrap "decode treaddir fid" readFid
  let offset ← wrap "decode treaddir offset" readUint64
  let count ← wrap "decode treaddir count" readUint32
  return { fid, offset, count }

theorem Treaddir.codec : CodecOn maxBody Any Treaddir.encodeTo Treaddir.decodeFrom :=
  .mono (by decide) <|
  .fieldW fid_codec fun _ =>
  .fieldW uint64_codec fun _ =>
  .lastW uint32_codec

structure Rreaddir where
  data : Bytes
  deriving DecidableEq, Inhabited

def Rreaddir.encodeFixed (m : Rreaddir) : Writer Unit := do
  failIf (m.data.length > maxDataSize)
    (.msg s!"encode rreaddir count {m.data.length} exceeds maximum {maxDataSize}")
  writeUint32 (UInt32.ofNat m.data.length)

def Rreaddir.encodeTo (m : Rreaddir) : Writer Unit := do
  m.encodeFixed
  writePayload "encode rreaddir data" m.data

def Rreaddir.decodeFrom : Reader Rreaddir := do
  let data ← readPayload "rreaddir"
  return { data }

theorem Rreaddir.codec : CodecOn maxBody Any Rreaddir.encodeTo Rreaddir.decodeFrom := by
  have henc : Rreaddir.encodeTo = fun m => (do
      failIf (m.data.length > maxDataSize)
        (.msg s!"encode rreaddir count {m.data.length} exceeds maximum {maxDataSize}")
      writeUint32 (UInt32.ofNat m.data.length)
      writePayload "encode rreaddir data" m.data) := by
    funext m
    simp only [Rreaddir.encodeTo, Rreaddir.encodeFixed, bind_assoc]
  rw [henc]
  exact .mono (by decide) <| .failIfPut <|
    .lastOn _ _ (payload_codec "encode rreaddir data" "rreaddir" uint32_codec) (by simp +contextual)
      fun data h a => by cases a; simp only [Any, Rreaddir.mk.injEq]; grind

structure Tfsync where
  fid : Fid
  dataSync : UInt32
  deriving DecidableEq, Inhabited

def Tfsync.encodeTo (m : Tfsync) : Writer Unit := do
  wrap "encode tfsync fid" (writeFid m.fid)
  wrap "encode tfsync datasync" (writeUint32 m.dataSync)

def Tfsync.decodeFrom : Reader Tfsync := do
  let fid ← wrap "decode tfsync fid" readFid
  let dataSync ← wrap "decode tfsync datasync" readUint32
  return { fid, dataSync }

theorem Tfsync.codec : CodecOn maxBody Any Tfsync.encodeTo Tfsync.decodeFrom :=
  .mono (by decide) <|
  .fieldW fid_codec fun _ =>
  .lastW uint32_codec

structure Rfsync where
  deriving DecidableEq, Inhabited

def Rfsync.encodeTo (_ : Rfsync) : Writer Unit := pure ()

def Rfsync.decodeFrom : Reader Rfsync := pure {}

theorem Rfsync.codec : CodecOn maxBody Any Rfsync.encodeTo Rfsync.decodeFrom :=
  .mono (by decide) (.empty _ fun _ => by simp [Any])

structure Tlock where
  fid : Fid
  lockType : LockType
  flags : LockFlags
  start : UInt64
  length : UInt64
  procID : UInt32
  clientID : Bytes
  deriving DecidableEq, Inhabited

/-- The values `DecodeFrom` lets through. -/
def Tlock.Accepted (m : Tlock) : Prop := m.lockType ≤ lockTypeUnlck ∧ m.flags &&& ~~~(lockFlagBlock ||| lockFlagReclaim) = 0

def Tlock.encodeTo (m : Tlock) : Writer Unit := do
  wrap "encode tlock fid" (writeFid m.fid)
  wrap "encode tlock type" (writeUint8 m.lockType)
  wrap "encode tlock flags" (writeUint32 m.flags)
  wrap "encode tlock start" (writeUint64 m.start)
  wrap "encode tlock length" (writeUint64 m.length)
  wrap "encode tlock proc_id" (writeUint32 m.procID)
  wrap "encode tlock client_id" (writeString m.clientID)

def Tlock.decodeFrom : Reader Tlock := do
  let fid ← wrap "decode tlock fid" readFid
  let lockType ← wrap "decode tlock type" readUint8
  failIf (lockType > lockTypeUnlck) (.msg s!"decode tlock type: invalid lock type {lockType}")
  let flags ← wrap "decode tlock flags" readUint32
  failIf (flags &&& ~~~(lockFlagBlock ||| lockFlagReclaim) ≠ 0) (.msg s!"decode tlock flags: invalid flags {hex flags}")
  let start ← wrap "decode tlock start" readUint64
  let length ← wrap "decode tlock length" readUint64
  let procID ← wrap "decode tlock proc_id" readUint32
  let clientID ← wrap "decode tlock client_id" readString
  return { fid, lockType, flags, start, length, procID, clientID }

theorem Tlock.codec : CodecOn maxBody Tlock.Accepted Tlock.encodeTo Tlock.decodeFrom :=
  .mono (by decide) <|
  .fieldW fid_codec fun _ =>
  .fieldW uint8_codec fun _ =>
  .failIfGet (by rintro a ⟨⟨⟨hty, -⟩, -⟩, rfl⟩; exact UInt8.not_lt.2 hty) fun hty =>
  .fieldW uint32_codec fun _ =>
  .failIfGet (by rintro a ⟨⟨⟨⟨-, hfl⟩, -⟩, -⟩, rfl⟩; exact not_not.2 hfl) fun hfl =>
  .fieldW uint64_codec fun _ =>
  .fieldW uint64_codec fun _ =>
  .fieldW uint32_codec fun _ =>
  .lastW string_codec fun _ a => by
    have hty := UInt8.not_lt.1 hty
    have hfl := not_not.1 hfl
    cases a; simp only [Tlock.Accepted, Tlock.mk.injEq]; grind

theorem Tlock.writesLe (m : Tlock) : WritesLe maxBody m.encodeTo :=
  .mono (by decide) <|
  (fid_codec.writesLe trivial).wrap _ |>.seq <|
  (uint8_codec.writesLe trivial).wrap _ |>.seq <|
  (uint32_codec.writesLe trivial).wrap _ |>.seq <|
  (uint64_codec.writesLe trivial).wrap _ |>.seq <|
  (uint64_codec.writesLe trivial).wrap _ |>.seq <|
  (uint32_codec.writesLe trivial).wrap _ |>.seq <|
  (string_codec.writesLe trivial).wrap _

structure Rlock where
  status : LockStatus
  deriving DecidableEq, Inhabited

/-- The values `DecodeFrom` lets through. -/
def Rlock.Accepted (m : Rlock) : Prop := m.status ≤ lockStatusGrace

def Rlock.encodeTo (m : Rlock) : Writer Unit := do
  wrap "encode rlock status" (writeUint8 m.status)

def Rlock.decodeFrom : Reader Rlock := do
  let status ← wrap "decode rlock status" readUint8
  failIf (status > lockStatusGrace) (.msg s!"decode rlock status: invalid lock status {status}")
  return { status }

theorem Rlock.codec : CodecOn maxBody Rlock.Accepted Rlock.encodeTo Rlock.decodeFrom := by
  have henc : Rlock.encodeTo = fun m => (do wrap "encode rlock status" (writeUint8 m.status); pure ()) :=
    funext fun m => (bind_pure _).symm
  rw [henc]
  exact .mono (by decide) <|
    .fieldW uint8_codec fun _ =>
    .failIfGet (by rintro a ⟨hst, rfl⟩; exact UInt8.not_lt.2 hst) fun hst =>
    .empty _ fun a => by
      have hst := UInt8.not_lt.1 hst
      cases a; simp only [Rlock.Accepted, Rlock.mk.injEq]; grind

theorem Rlock.writesLe (m : Rlock) : WritesLe maxBody m.encodeTo :=
  .mono (by decide) ((uint8_codec.writesLe (a := m.status) trivial).wrap (.wrap "encode rlock status"))

structure Tgetlock where
  fid : Fid
  lockType : LockType
  start : UInt64
  length : UInt64
  procID : UInt32
  clientID : Bytes
  deriving DecidableEq, Inhabited

/-- The values `DecodeFrom` lets through. -/
def Tgetlock.Accepted (m : Tgetlock) : Prop := m.lockType ≤ lockTypeUnlck

def Tgetlock.encodeTo (m : Tgetlock) : Writer Unit := do
  wrap "encode tgetlock fid" (writeFid m.fid)
  wrap "encode tgetlock type" (writeUint8 m.lockType)
  wrap "encode tgetlock start" (writeUint64 m.start)
  wrap "encode tgetlock length" (writeUint64 m.length)
  wrap "encode tgetlock proc_id" (writeUint32 m.procID)
  wrap "encode tgetlock client_id" (writeString m.clientID)

def Tgetlock.decodeFrom : Reader Tgetlock := do
  let fid ← wrap "decode tgetlock fid" readFid
  let lockType ← wrap "decode tgetlock type" readUint8
  failIf (lockType > lockTypeUnlck) (.msg s!"decode tgetlock type: invalid lock type {lockType}")
  let start ← wrap "decode tgetlock start" readUint64
  let length ← wrap "decode tgetlock length" readUint64
  let procID ← wrap "decode tgetlock proc_id" readUint32
  let clientID ← wrap "decode tgetlock client_id" readString
  return { fid, lockType, start, length, procID, clientID }

theorem Tgetlock.codec : CodecOn maxBody Tgetlock.Accepted Tgetlock.encodeTo Tgetlock.decodeFrom :=
  .mono (by decide) <|
  .fieldW fid_codec fun _ =>
  .fieldW uint8_codec fun _ =>
  .failIfGet (by rintro a ⟨⟨hty, -⟩, rfl⟩; exact UInt8.not_lt.2 hty) fun hty =>
  .fieldW uint64_codec fun _ =>
  .fieldW uint64_codec fun _ =>
  .fieldW uint32_codec fun _ =>
  .lastW string_codec fun _ a => by
    have hty := UInt8.not_lt.1 hty
    cases a; simp only [Tgetlock.Accepted, Tgetlock.mk.injEq]; grind

theorem Tgetlock.writesLe (m : Tgetlock) : WritesLe maxBody m.encodeTo :=
  .mono (by decide) <|
  (fid_codec.writesLe trivial).wrap _ |>.seq <|
  (uint8_codec.writesLe trivial).wrap _ |>.seq <|
  (uint64_codec.writesLe trivial).wrap _ |>.seq <|
  (uint64_codec.writesLe trivial).wrap _ |>.seq <|
  (uint32_codec.writesLe trivial).wrap _ |>.seq <|
  (string_codec.writesLe trivial).wrap _

structure Rgetlock where
  lockType : LockType
  start : UInt64
  length : UInt64
  procID : UInt32
  clientID : Bytes
  deriving DecidableEq, Inhabited

/-- The values `DecodeFrom` lets through. -/
def Rgetlock.Accepted (m : Rgetlock) : Prop := m.lockType ≤ lockTypeUnlck

def Rgetlock.encodeTo (m : Rgetlock) : Writer Unit := do
  wrap "encode rgetlock type" (writeUint8 m.lockType)
  wrap "encode rgetlock start" (writeUint64 m.start)
  wrap "encode rgetlock length" (writeUint64 m.length)
  wrap "encode rgetlock proc_id" (writeUint32 m.procID)
  wrap "encode rgetlock client_id" (writeString m.clientID)

def Rgetlock.decodeFrom : Reader Rgetlock := do
  let lockType ← wrap "decode rgetlock type" readUint8
  failIf (lockType > lockTypeUnlck) (.msg s!"decode rgetlock type: invalid lock type {lockType}")
  let start ← wrap "decode rgetlock start" readUint64
  let length ← wrap "decode rgetlock length" readUint64
  let procID ← wrap "decode rgetlock proc_id" readUint32
  let clientID ← wrap "decode rgetlock client_id" readString
  return { lockType, start, length, procID, clientID }

theorem Rgetlock.codec : CodecOn maxBody Rgetlock.Accepted Rgetlock.encodeTo Rgetlock.decodeFrom :=
  .mono (by decide) <|
  .fieldW uint8_codec fun _ =>
  .failIfGet (by rintro a ⟨hty, rfl⟩; exact UInt8.not_lt.2 hty) fun hty =>
  .fieldW uint64_codec fun _ =>
  .fieldW uint64_codec fun _ =>
  .fieldW uint32_codec fun _ =>
  .lastW string_codec fun _ a => by
    have hty := UInt8.not_lt.1 hty
    cases a; simp only [Rgetlock.Accepted, Rgetlock.mk.injEq]; grind

theorem Rgetlock.writesLe (m : Rgetlock) : WritesLe maxBody m.encodeTo :=
  .mono (by decide) <|
  (uint8_codec.writesLe trivial).wrap _ |>.seq <|
  (uint64_codec.writesLe trivial).wrap _ |>.seq <|
  (uint64_codec.writesLe trivial).wrap _ |>.seq <|
  (uint32_codec.writesLe trivial).wrap _ |>.seq <|
  (string_codec.writesLe trivial).wrap _

structure Tlink where
  dirFid : Fid
  fid : Fid
  name : Bytes
  deriving DecidableEq, Inhabited

def Tlink.encodeTo (m : Tlink) : Writer Unit := do
  wrap "encode tlink dirfid" (writeFid m.dirFid)
  wrap "encode tlink fid" (writeFid m.fid)
  wrap "encode tlink name" (writeString m.name)

def Tlink.decodeFrom : Reader Tlink := do
  let dirFid ← wrap "decode tlink dirfid" readFid
  let fid ← wrap "decode tlink fid" readFid
  let name ← wrap "decode tlink name" readString
  return { dirFid, fid, name }

theorem Tlink.codec : CodecOn maxBody Any Tlink.encodeTo Tlink.decodeFrom :=
  .mono (by decide) <|
  .fieldW fid_codec fun _ =>
  .fieldW fid_codec fun _ =>
  .lastW string_codec

structure Rlink where
  deriving DecidableEq, Inhabited

def Rlink.encodeTo (_ : Rlink) : Writer Unit := pure ()

def Rlink.decodeFrom : Reader Rlink := pure {}

theorem Rlink.codec : CodecOn maxBody Any Rlink.encodeTo Rlink.decodeFrom :=
  .mono (by decide) (.empty _ fun _ => by simp [Any])

structure Tmkdir where
  dirFid : Fid
  name : Bytes
  mode : FileMode
  gid : UInt32
  deriving DecidableEq, Inhabited

def Tmkdir.encodeTo (m : Tmkdir) : Writer Unit := do
  wrap "encode tmkdir dirfid" (writeFid m.dirFid)
  wrap "encode tmkdir name" (writeString m.name)
  wrap "encode tmkdir mode" (writeUint32 m.mode)
  wrap "encode tmkdir gid" (writeUint32 m.gid)

def Tmkdir.decodeFrom : Reader Tmkdir := do
  let dirFid ← wrap "decode tmkdir dirfid" readFid
  let name ← wrap "decode tmkdir name" readString
  let mode ← wrap "decode tmkdir mode" readUint32
  let gid ← wrap "decode tmkdir gid" readUint32
  return { dirFid, name, mode, gid }

theorem Tmkdir.codec : CodecOn maxBody Any Tmkdir.encodeTo Tmkdir.decodeFrom :=
  .mono (by decide) <|
  .fieldW fid_codec fun _ =>
  .fieldW string_codec fun _ =>
  .fieldW uint32_codec fun _ =>
  .lastW uint32_codec

structure Rmkdir where
  qid : QID
  deriving DecidableEq, Inhabited

def Rmkdir.encodeTo (m : Rmkdir) : Writer Unit := do
  wrap "encode rmkdir qid" (writeQID m.qid)

def Rmkdir.decodeFrom : Reader Rmkdir := do
  let qid ← wrap "decode rmkdir qid" readQID
  return { qid }

theorem Rmkdir.codec : CodecOn maxBody Any Rmkdir.encodeTo Rmkdir.decodeFrom := by
  unfold Rmkdir.encodeTo
  exact .mono (by decide) (.only _ _ qid_codec fun _ a => by cases a; simp)

structure Trenameat where
  oldDirFid : Fid
  oldName : Bytes
  newDirFid : Fid
  newName : Bytes
  deriving DecidableEq, Inhabited

def Trenameat.encodeTo (m : Trenameat) : Writer Unit := do
  wrap "encode trenameat olddirfid" (writeFid m.oldDirFid)
  wrap "encode trenameat oldname" (writeString m.oldName)
  wrap "encode trenameat newdirfid" (writeFid m.newDirFid)
  wrap "encode trenameat newname" (writeString m.newName)

def Trenameat.decodeFrom : Reader Trenameat := do
  let oldDirFid ← wrap "decode trenameat olddirfid" readFid
  let oldName ← wrap "decode trenameat oldname" readString
  let newDirFid ← wrap "decode trenameat newdirfid" readFid
  let newName ← wrap "decode trenameat newname" readString
  return { oldDirFid, oldName, newDirFid, newName }

theorem Trenameat.codec : CodecOn maxBody Any Trenameat.encodeTo Trenameat.decodeFrom :=
  .mono (by decide) <|
  .fieldW fid_codec fun _ =>
  .fieldW string_codec fun _ =>
  .fieldW fid_codec fun _ =>
  .lastW string_codec

structure Rrenameat where
  deriving DecidableEq, Inhabited

def Rrenameat.encodeTo (_ : Rrenameat) : Writer Unit := pure ()

def Rrenameat.decodeFrom : Reader Rrenameat := pure {}

theorem Rrenameat.codec : CodecOn maxBody Any Rrenameat.encodeTo Rrenameat.decodeFrom :=
  .mono (by decide) (.empty _ fun _ => by simp [Any])

structure Tunlinkat where
  dirFid : Fid
  name : Bytes
  flags : UInt32
  deriving DecidableEq, Inhabited

def Tunlinkat.encodeTo (m : Tunlinkat) : Writer Unit := do
  wrap "encode tunlinkat dirfid" (writeFid m.dirFid)
  wrap "encode tunlinkat name" (writeString m.name)
  wrap "encode tunlinkat flags" (writeUint32 m.flags)

def Tunlinkat.decodeFrom : Reader Tunlinkat := do
  let dirFid ← wrap "decode tunlinkat dirfid" readFid
  let name ← wrap "decode tunlinkat name" readString
  let flags ← wrap "decode tunlinkat flags" readUint32
  return { dirFid, name, flags }

theorem Tunlinkat.codec : CodecOn maxBody Any Tunlinkat.encodeTo Tunlinkat.decodeFrom :=
  .mono (by decide) <|
  .fieldW fid_codec fun _ =>
  .fieldW string_codec fun _ =>
  .lastW uint32_codec

structure Runlinkat where
  deriving DecidableEq, Inhabited

def Runlinkat.encodeTo (_ : Runlinkat) : Writer Unit := pure ()

def Runlinkat.decodeFrom : Reader Runlinkat := pure {}

theorem Runlinkat.codec : CodecOn maxBody Any Runlinkat.encodeTo Runlinkat.decodeFrom :=
  .mono (by decide) (.empty _ fun _ => by simp [Any])

end NineP.P9l
