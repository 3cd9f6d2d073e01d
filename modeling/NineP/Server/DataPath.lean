import NineP.Server.Dirents
import NineP.Server.Handlers

/-!
# The data path of the server

The handlers of directory listings and extended attributes with the data that they move: requests of one connection, one
after another.  A method of a node or of its open handle may return anything: the file system is a function of the calls
so far.

Left out: reference counts, the release of handles and nodes, and what other handlers may do in between.
-/

namespace NineP.Server.DataPath

open Codec Proto
open Handlers (Iface FileIface)
open Negotiation (Params)
open Replies (Dirent Filled clampCount fillPooled validWriteCount encodeDirentsInto)

/-! ## The file system -/

/-- What a method is called on: the node of a fid, or its open handle. -/
structure Target (ν : Type) where
  node : ν
  onHandle : Bool
  deriving DecidableEq

inductive Call (ν : Type)
  | read (t : Target ν) (offset : UInt64) (count : UInt32)
  | write (t : Target ν) (offset : UInt64) (data : Bytes)
  | readdir (t : Target ν)
  | rawReaddir (t : Target ν) (offset : UInt64) (count : UInt32)
  | getXattr (n : ν) (name : Bytes)
  | listXattrs (n : ν)
  | setXattr (n : ν) (name data : Bytes) (flags : UInt32)
  | removeXattr (n : ν) (name : Bytes)
  -- `RawXattrer`, and the writer that it returns
  | handleXattrwalk (n : ν) (name : Bytes)
  | handleXattrcreate (n : ν) (name : Bytes) (size : UInt64) (flags : UInt32)
  | writeXattr (n : ν) (data : Bytes)
  | commitXattr (n : ν)
  deriving DecidableEq

/-- What the methods return after the given calls. -/
structure Fs (ν : Type) where
  implements : ν → Iface → Bool
  read : List (Call ν) → Target ν → UInt64 → UInt32 → Except Errno Filled
  write : List (Call ν) → Target ν → UInt64 → Bytes → Except Errno Int
  readdir : List (Call ν) → Target ν → Except Errno (List Dirent)
  rawReaddir : List (Call ν) → Target ν → UInt64 → UInt32 → Except Errno Filled
  getXattr : List (Call ν) → ν → Bytes → Except Errno Bytes
  listXattrs : List (Call ν) → ν → Except Errno (List Bytes)
  setXattr : List (Call ν) → ν → Bytes → Bytes → UInt32 → Except Errno Unit
  removeXattr : List (Call ν) → ν → Bytes → Except Errno Unit
  handleXattrwalk : List (Call ν) → ν → Bytes → Except Errno Bytes
  handleXattrcreate : List (Call ν) → ν → Bytes → UInt64 → UInt32 → Except Errno Unit
  writeXattr : List (Call ν) → ν → Bytes → Except Errno Int
  commitXattr : List (Call ν) → ν → Except Errno Unit

/-- A file system without any of the methods. -/
def Fs.bare (ν : Type) : Fs ν where
  implements _ _ := false
  read _ _ _ _ := .error ENOSYS
  write _ _ _ _ := .error ENOSYS
  readdir _ _ := .error ENOSYS
  rawReaddir _ _ _ _ := .error ENOSYS
  getXattr _ _ _ := .error ENOSYS
  listXattrs _ _ := .error ENOSYS
  setXattr _ _ _ _ _ := .error ENOSYS
  removeXattr _ _ _ := .error ENOSYS
  handleXattrwalk _ _ _ := .error ENOSYS
  handleXattrcreate _ _ _ _ _ := .error ENOSYS
  writeXattr _ _ _ := .error ENOSYS
  commitXattr _ _ := .error ENOSYS

structure Config (ν : Type) where
  params : Params
  maxFids : Int
  fs : Fs ν

/-! ## The state -/

structure FidState (ν : Type) where
  node : ν
  state : FidStatus
  /-- The interfaces of the open handle; a fid without one has none. -/
  handle : List FileIface := []
  dirCache : List Dirent := []
  dirCached : Bool := false
  xattrNode : ν := node
  xattrName : Bytes := []
  xattrSize : UInt64 := 0
  xattrFlags : UInt32 := 0
  xattrData : Bytes := []
  /-- There is an `XattrWriter`. -/
  xattrWriter : Bool := false

structure State (ν : Type) where
  fids : AList fun _ : Fid => FidState ν
  /-- For the record: the calls so far. -/
  calls : List (Call ν)

variable {ν : Type}

def State.call (s : State ν) (c : Call ν) : State ν := { s with calls := s.calls ++ [c] }

def State.set (s : State ν) (fid : Fid) (f : FidState ν) : State ν := { s with fids := s.fids.insert fid f }

def errorMsg (e : Errno) : P9l.Msg := .rlerror ⟨e⟩

section Handlers

variable (cfg : Config ν)

/-- `fids.add`, with the errno that its callers make of its error. -/
def addFid (s : State ν) (fid : Fid) (f : FidState ν) : Except Errno (State ν) :=
  if 0 < cfg.maxFids ∧ cfg.maxFids ≤ s.fids.entries.length then .error EMFILE
  else if (s.fids.lookup fid).isSome then .error EBADF
  else .ok (s.set fid f)

/-- The branch of `handleWalk` for a walk without names. -/
def handleClone (s : State ν) (fid newFid : Fid) : P9l.Msg × State ν :=
  match s.fids.lookup fid with
  | none => (errorMsg EBADF, s)
  | some src =>
    if fid = newFid then (.base (.rwalk ⟨[]⟩), s)
    else
      match addFid cfg s newFid { node := src.node, state := .allocated } with
      | .error e => (errorMsg e, s)
      | .ok s => (.base (.rwalk ⟨[]⟩), s)

/-! ## Directories -/

/-- The cookies: the index of the entry, from 1. -/
def withCookies (ds : List Dirent) : List Dirent := ds.mapIdx fun i d => { d with offset := UInt64.ofNat (i + 1) }

def dirView (cache : List Dirent) (offset : UInt64) : List Dirent := cache.drop (min offset.toNat cache.length)

def readdirSimple (s : State ν) (f : FidState ν) (m : P9l.Treaddir) (count : UInt32) (t : Target ν) :
    P9l.Msg × State ν :=
  let reply (f : FidState ν) : P9l.Msg := .rreaddir ⟨encodeDirentsInto count.toNat (dirView f.dirCache m.offset) []⟩
  if m.offset = 0 ∨ !f.dirCached then
    let s' := s.call (.readdir t)
    match cfg.fs.readdir s.calls t with
    | .error e => (errorMsg e, s'.set m.fid { f with dirCache := [], dirCached := false })
    | .ok dirents =>
      let f := { f with dirCache := withCookies dirents, dirCached := true }
      (reply f, s'.set m.fid f)
  else (reply f, s)

/-- The response to a method that fills a buffer of `count` bytes. -/
def filled (count : UInt32) (r : Except Errno Filled) (msg : Bytes → P9l.Msg) : P9l.Msg :=
  match r.bind (fillPooled count) with
  | .error e => errorMsg e
  | .ok data => msg data

/-- Who lists a directory: the handle if it can, else the node; `true` for a `RawReaddir`. -/
def readdirTarget (f : FidState ν) : Option (Target ν × Bool) :=
  if f.handle.contains .fileRawReaddirer then some (⟨f.node, true⟩, true)
  else if f.handle.contains .fileReaddirer then some (⟨f.node, true⟩, false)
  else if cfg.fs.implements f.node .nodeRawReaddirer then some (⟨f.node, false⟩, true)
  else if cfg.fs.implements f.node .nodeReaddirer then some (⟨f.node, false⟩, false)
  else none

def handleReaddir (s : State ν) (m : P9l.Treaddir) : P9l.Msg × State ν :=
  match s.fids.lookup m.fid with
  | none => (errorMsg EBADF, s)
  | some f =>
    if f.state ≠ .opened then (errorMsg EBADF, s)
    else
      let count := clampCount cfg.params m.count
      match readdirTarget cfg f with
      | some (t, true) =>
        (filled count (cfg.fs.rawReaddir s.calls t m.offset count) (.rreaddir ⟨·⟩), s.call (.rawReaddir t m.offset count))
      | some (t, false) => readdirSimple cfg s f m count t
      | none => (errorMsg ENOSYS, s)

/-! ## Extended attributes -/

def addXattrReadFid (s : State ν) (newFid : Fid) (node : ν) (name data : Bytes) : P9l.Msg × State ν :=
  match addFid cfg s newFid { node, state := .xattrRead, xattrNode := node, xattrName := name, xattrData := data } with
  | .error e => (errorMsg e, s)
  | .ok s => (.rxattrwalk ⟨UInt64.ofNat data.length⟩, s)

def listBytes (names : List Bytes) : Bytes := names.flatMap (· ++ [0])

def handleXattrwalk (s : State ν) (m : P9l.Txattrwalk) : P9l.Msg × State ν :=
  match s.fids.lookup m.fid with
  | none => (errorMsg EBADF, s)
  | some f =>
    if cfg.fs.implements f.node .rawXattrer then
      let s' := s.call (.handleXattrwalk f.node m.name)
      match cfg.fs.handleXattrwalk s.calls f.node m.name with
      | .error e => (errorMsg e, s')
      | .ok data => addXattrReadFid cfg s' m.newFid f.node m.name data
    else if m.name = [] then
      if cfg.fs.implements f.node .nodeXattrLister then
        let s' := s.call (.listXattrs f.node)
        match cfg.fs.listXattrs s.calls f.node with
        | .error e => (errorMsg e, s')
        | .ok names => addXattrReadFid cfg s' m.newFid f.node [] (listBytes names)
      else (errorMsg ENOSYS, s)
    else if cfg.fs.implements f.node .nodeXattrGetter then
      let s' := s.call (.getXattr f.node m.name)
      match cfg.fs.getXattr s.calls f.node m.name with
      | .error e => (errorMsg e, s')
      | .ok data => addXattrReadFid cfg s' m.newFid f.node m.name data
    else (errorMsg ENOSYS, s)

def handleXattrcreate (s : State ν) (m : P9l.Txattrcreate) : P9l.Msg × State ν :=
  match s.fids.lookup m.fid with
  | none => (errorMsg EBADF, s)
  | some f =>
    let f' (writer : Bool) : FidState ν :=
      { f with
        state := .xattrWrite, xattrNode := f.node, xattrName := m.name, xattrSize := m.attrSize, xattrFlags := m.flags,
        xattrData := [], xattrWriter := writer }
    if f.state ≠ .allocated then (errorMsg EBADF, s)
    else if m.attrSize.toNat > cfg.params.msize.toNat then (errorMsg EINVAL, s)
    else if cfg.fs.implements f.node .rawXattrer then
      let s' := s.call (.handleXattrcreate f.node m.name m.attrSize m.flags)
      match cfg.fs.handleXattrcreate s.calls f.node m.name m.attrSize m.flags with
      | .error e => (errorMsg e, s')
      | .ok () => (.rxattrcreate {}, s'.set m.fid (f' true))
    else if m.attrSize = 0 ∧ !cfg.fs.implements f.node .nodeXattrRemover then (errorMsg ENOSYS, s)
    else if m.attrSize ≠ 0 ∧ !cfg.fs.implements f.node .nodeXattrSetter then (errorMsg ENOSYS, s)
    else (.rxattrcreate {}, s.set m.fid (f' false))

def handleRead (s : State ν) (m : Tread) : P9l.Msg × State ν :=
  match s.fids.lookup m.fid with
  | none => (errorMsg EBADF, s)
  | some f =>
    let count := clampCount cfg.params m.count
    if f.state = .xattrRead then
      if m.offset.toNat ≥ f.xattrData.length then (.base (.rread ⟨[]⟩), s)
      else (.base (.rread ⟨(f.xattrData.drop m.offset.toNat).take count.toNat⟩), s)
    else if f.state ≠ .opened then (errorMsg EBADF, s)
    else
      let onHandle := f.handle.contains .fileReader
      if !onHandle ∧ !cfg.fs.implements f.node .nodeReader then (errorMsg ENOSYS, s)
      else
        (filled count (cfg.fs.read s.calls ⟨f.node, onHandle⟩ m.offset count) (.base <| .rread ⟨·⟩),
          s.call (.read ⟨f.node, onHandle⟩ m.offset count))

/-- The response to a `Write` of `size` bytes. -/
def written (size : Nat) (r : Except Errno Int) : P9l.Msg :=
  match r with
  | .error e => errorMsg e
  | .ok n => if validWriteCount n size then .base (.rwrite ⟨UInt32.ofNat n.toNat⟩) else errorMsg EIO

def handleWrite (s : State ν) (m : Twrite) : P9l.Msg × State ν :=
  match s.fids.lookup m.fid with
  | none => (errorMsg EBADF, s)
  | some f =>
    if f.state = .xattrWrite then
      if f.xattrWriter then
        (written m.data.length (cfg.fs.writeXattr s.calls f.xattrNode m.data), s.call (.writeXattr f.xattrNode m.data))
      else if f.xattrData.length + m.data.length > f.xattrSize.toNat then (errorMsg ENOSPC, s)
      else
        (.base (.rwrite ⟨UInt32.ofNat m.data.length⟩), s.set m.fid { f with xattrData := f.xattrData ++ m.data })
    else if f.state ≠ .opened then (errorMsg EBADF, s)
    else
      let onHandle := f.handle.contains .fileWriter
      if !onHandle ∧ !cfg.fs.implements f.node .nodeWriter then (errorMsg ENOSYS, s)
      else
        (written m.data.length (cfg.fs.write s.calls ⟨f.node, onHandle⟩ m.offset m.data),
          s.call (.write ⟨f.node, onHandle⟩ m.offset m.data))

/-- The response to the commit of an attribute. -/
def committed (r : Except Errno Unit) : P9l.Msg :=
  match r with
  | .error e => errorMsg e
  | .ok () => .base (.rclunk {})

def handleClunk (s : State ν) (m : Tclunk) : P9l.Msg × State ν :=
  match s.fids.lookup m.fid with
  | none => (errorMsg EBADF, s)
  | some f =>
    let s : State ν := { s with fids := s.fids.erase m.fid }
    if f.state = .xattrWrite then
      if f.xattrWriter then (committed (cfg.fs.commitXattr s.calls f.xattrNode), s.call (.commitXattr f.xattrNode))
      else if f.xattrSize = 0 then
        if cfg.fs.implements f.xattrNode .nodeXattrRemover then
          (committed (cfg.fs.removeXattr s.calls f.xattrNode f.xattrName), s.call (.removeXattr f.xattrNode f.xattrName))
        else (.base (.rclunk {}), s)
      else if f.xattrData.length ≠ f.xattrSize.toNat then (errorMsg EIO, s)
      else if cfg.fs.implements f.xattrNode .nodeXattrSetter then
        (committed (cfg.fs.setXattr s.calls f.xattrNode f.xattrName f.xattrData f.xattrFlags),
          s.call (.setXattr f.xattrNode f.xattrName f.xattrData f.xattrFlags))
      else (errorMsg ENOSYS, s)
    else (.base (.rclunk {}), s)

/-- The requests that the data path uses. -/
def serve (s : State ν) : P9l.Msg → P9l.Msg × State ν
  | .treaddir m => handleReaddir cfg s m
  | .txattrwalk m => handleXattrwalk cfg s m
  | .txattrcreate m => handleXattrcreate cfg s m
  | .base (.tread m) => handleRead cfg s m
  | .base (.twrite m) => handleWrite cfg s m
  | .base (.tclunk m) => handleClunk cfg s m
  | .base (.twalk ⟨fid, newFid, []⟩) => handleClone cfg s fid newFid
  | _ => (errorMsg ENOSYS, s)

end Handlers

end NineP.Server.DataPath
