import NineP.Proto.P9l.Carry
import NineP.Server.DataPath

/-!
# Listings and attributes at the client

`File.ReadDir` of `client/readdir.go` and the extended attributes of `client/advanced_xattr.go`, on a 9P2000.L
connection to the server of `Server.DataPath`.  Every message goes over the wire in a frame; the fid that the allocator
gives comes as an argument.

Left out: the lifecycle of files, contexts, timeouts, and a fid whose `Tclunk` was not answered.
-/

namespace NineP.Client.Transfer

open Codec Proto
open Server.DataPath (serve)
export Server.DataPath (Call Config State)
open Server.Replies (Dirent parseDirents)

variable {ν : Type}

/-! ## Exchanges -/

/-- The errors that an operation returns. -/
inductive Err
  /-- An `Rlerror`. -/
  | server (e : Errno)
  /-- A frame did not get through. -/
  | wire
  | text (msg : String)
  deriving DecidableEq

/-- A connection to a server. -/
structure Link (ν : Type) where
  cfg : Config ν
  tag : Tag
  /-- What other requests do to the server before exchange number `i`. -/
  others : Nat → State ν → State ν

def Link.msize (l : Link ν) : UInt32 := l.cfg.params.msize

structure World (ν : Type) where
  server : State ν
  exchanges : Nat

/-- An operation of the client: it returns a value or an error. -/
abbrev Op (ν α : Type) := ExceptT Err (StateM (World ν)) α

/-- The value or the error of an operation, to go on with. -/
def attempt {α : Type} (x : Op ν α) : Op ν (Except Err α) := fun w => ((.ok (x w).1), (x w).2)

section Exchange

variable (l : Link ν)

def roundTrip (req : P9l.Msg) : Op ν P9l.Msg := fun w =>
  match P9l.carry l.msize l.tag req with
  | none => (.error .wire, w)
  | some req =>
    let (resp, server) := serve l.cfg (l.others w.exchanges w.server) req
    let w : World ν := { server, exchanges := w.exchanges + 1 }
    match P9l.carry l.msize l.tag resp with
    | none => (.error .wire, w)
    | some resp => (.ok resp, w)

/-- `rtrip`: `pick` gives the response of the type that is expected, `want` -/
def rtrip {α : Type} (want : MessageType) (pick : P9l.Msg → Option α) (req : P9l.Msg) : Op ν α := do
  let resp ← roundTrip l req
  match resp with
  | .rlerror m => throw (.server m.ecode)
  | resp =>
    match pick resp with
    | some a => pure a
    | none =>
      throw (.text s!"client: expected {messageTypeString want}, got {messageTypeString (Message.type resp)}")

def pickRreaddir : P9l.Msg → Option Bytes
  | .rreaddir m => some m.data
  | _ => none

def pickRxattrwalk : P9l.Msg → Option UInt64
  | .rxattrwalk m => some m.size
  | _ => none

def pickRxattrcreate : P9l.Msg → Option Unit
  | .rxattrcreate _ => some ()
  | _ => none

def pickRread : P9l.Msg → Option Bytes
  | .base (.rread m) => some m.data
  | _ => none

def pickRwrite : P9l.Msg → Option UInt32
  | .base (.rwrite m) => some m.count
  | _ => none

def pickRclunk : P9l.Msg → Option Unit
  | .base (.rclunk _) => some ()
  | _ => none

def pickRwalk : P9l.Msg → Option (List QID)
  | .base (.rwalk m) => some m.qids
  | _ => none

def treaddir (fid : Fid) (offset : UInt64) (count : UInt32) : Op ν Bytes :=
  rtrip l typeRreaddir pickRreaddir (.treaddir ⟨fid, offset, count⟩)

def txattrwalk (fid newFid : Fid) (name : Bytes) : Op ν UInt64 :=
  rtrip l typeRxattrwalk pickRxattrwalk (.txattrwalk ⟨fid, newFid, name⟩)

def txattrcreate (fid : Fid) (name : Bytes) (attrSize : UInt64) (flags : UInt32) : Op ν Unit :=
  rtrip l typeRxattrcreate pickRxattrcreate (.txattrcreate ⟨fid, name, attrSize, flags⟩)

def tread (fid : Fid) (offset : UInt64) (count : UInt32) : Op ν Bytes := do
  let data ← rtrip l typeRread pickRread (.base (.tread ⟨fid, offset, count⟩))
  if data.length > count.toNat then
    throw (.text s!"client: Rread count {data.length} exceeds requested count {count}")
  else pure data

def twrite (fid : Fid) (offset : UInt64) (data : Bytes) : Op ν UInt32 := do
  let count ← rtrip l typeRwrite pickRwrite (.base (.twrite ⟨fid, offset, data⟩))
  if count.toNat > data.length then
    throw (.text s!"client: Rwrite count {count} exceeds write size {data.length}")
  else pure count

def twalk (fid newFid : Fid) (names : List Bytes) : Op ν (List QID) :=
  rtrip l typeRwalk pickRwalk (.base (.twalk ⟨fid, newFid, names⟩))

def cleanupFid (fid : Fid) : Op ν Unit := rtrip l typeRclunk pickRclunk (.base (.tclunk ⟨fid⟩))

end Exchange

/-! ## Listings -/

def ioFrameOverhead : UInt32 := 24

structure File where
  fid : Fid
  iounit : UInt32
  readdirOffset : UInt64

def maxChunk (msize iounit : UInt32) : UInt32 :=
  let msizeLimit := msize - ioFrameOverhead
  let msizeLimit := if iounit ≠ 0 ∧ iounit < msizeLimit then iounit else msizeLimit
  min msizeLimit (UInt32.ofNat maxDataSize)

/-- The loop over the entries of one response: the entries so far, the cursor, and whether there are `n` of them. -/
def collect (n : Int) : List Dirent → List Dirent → UInt64 → List Dirent × UInt64 × Bool
  | [], entries, offset => (entries, offset, false)
  | d :: parsed, entries, _ =>
    let entries := entries ++ [d]
    if 0 < n ∧ n ≤ entries.length then (entries, d.offset, true) else collect n parsed entries d.offset

/-- What `ReadDir` returns: entries, and perhaps an error with them. -/
abbrev Entries := List Dirent × Option Err

/-- The loop of `readDir`; `none` if it takes more than `fuel` rounds. -/
def readDirFrom (l : Link ν) : Nat → Int → List Dirent → File → World ν → Option (Entries × File × World ν)
  | 0, _, _, _, _ => none
  | fuel + 1, n, entries, f, w =>
    if 0 < n ∧ n ≤ entries.length then some ((entries.take n.toNat, none), f, w)
    else
      match treaddir l f.fid f.readdirOffset (maxChunk l.msize f.iounit) w with
      | (.error e, w) => some ((entries, some e), f, w)
      | (.ok data, w) =>
        if data = [] then some ((entries, none), f, w)
        else
          match parseDirents data with
          | (_, some e) => some ((entries, some (.text e)), f, w)
          | ([], none) => some ((entries, none), f, w)
          | (parsed, none) =>
            match collect n parsed entries f.readdirOffset with
            | (entries, offset, true) => some ((entries.take n.toNat, none), { f with readdirOffset := offset }, w)
            | (entries, offset, false) =>
              if offset ≤ f.readdirOffset then
                some ((entries, some (.text s!"client: readdir cursor did not advance past offset {f.readdirOffset}")),
                  { f with readdirOffset := offset }, w)
              else readDirFrom l fuel n entries { f with readdirOffset := offset } w

def readDir (l : Link ν) (fuel : Nat) (n : Int) (f : File) (w : World ν) : Option (Entries × File × World ν) :=
  readDirFrom l fuel n [] f w

def readDirs (l : Link ν) (fuel : Nat) : List Int → File → World ν → Option (List Entries × File × World ν)
  | [], f, w => some ([], f, w)
  | n :: ns, f, w => do
    let (es, f, w) ← readDir l fuel n f w
    let (rest, f, w) ← readDirs l fuel ns f w
    pure (es :: rest, f, w)

/-! ## Extended attributes -/

def xattrChunk (msize : UInt32) : UInt32 := if msize ≤ ioFrameOverhead then 0 else msize - ioFrameOverhead

section Xattr

variable (l : Link ν)

def giveUp {α : Type} (fid : Fid) (e : Err) : Op ν α := do
  let _ ← attempt (cleanupFid l fid)
  throw e

/-- The `Tread` loop of `twoPhaseXattrRead`; `buf` is what has been read.  A round reads a byte or more. -/
def readXattrFrom (fid : Fid) (size : Nat) (chunk : UInt32) : Nat → Bytes → Op ν Bytes
  | 0, buf => pure buf
  | fuel + 1, buf =>
    if buf.length < size then do
      let remaining := size - buf.length
      let want := if chunk.toNat > remaining then UInt32.ofNat remaining else chunk
      match ← attempt (tread l fid (UInt64.ofNat buf.length) want) with
      | .error e => giveUp l fid e
      | .ok data =>
        if data.length = 0 then giveUp l fid (.text s!"client: xattr short read at offset {buf.length}/{size}")
        else if data.length > remaining then
          giveUp l fid (.text s!"client: xattr over-read: server returned {data.length} bytes at offset {buf.length}, only {remaining} remaining")
        else readXattrFrom fid size chunk fuel (buf ++ data)
    else pure buf

def twoPhaseXattrRead (fid newFid : Fid) (name : Bytes) : Op ν Bytes := do
  let size ← txattrwalk l fid newFid name
  if size.toNat > maxDataSize then
    giveUp l newFid (.text s!"client: xattr size {size} exceeds MaxDataSize {maxDataSize}")
  else if size = 0 then do
    cleanupFid l newFid
    pure []
  else do
    let chunk := xattrChunk l.msize
    if chunk = 0 then
      giveUp l newFid (.text s!"client: xattr chunk is 0 (msize {l.msize} ≤ ioFrameOverhead {ioFrameOverhead})")
    else do
      let buf ← readXattrFrom l newFid size.toNat chunk size.toNat []
      cleanupFid l newFid
      pure buf

def xattrGet (fid newFid : Fid) (name : Bytes) : Op ν Bytes := twoPhaseXattrRead l fid newFid name

def splitNul (data : Bytes) : List Bytes := data.splitOn 0

def xattrList (fid newFid : Fid) : Op ν (List Bytes) := do
  let data ← twoPhaseXattrRead l fid newFid []
  if data.length = 0 then pure [] else pure ((splitNul data).filter (· ≠ []))

/-- The `Twrite` loop of `XattrSet`; `off` bytes are written.  A round writes a byte or more. -/
def writeXattrFrom (fid : Fid) (data : Bytes) (chunk : UInt32) : Nat → Nat → Op ν Unit
  | 0, _ => pure ()
  | fuel + 1, off =>
    if off < data.length then do
      let stop := min (off + chunk.toNat) data.length
      match ← attempt (twrite l fid (UInt64.ofNat off) ((data.take stop).drop off)) with
      | .error e => giveUp l fid e
      | .ok n =>
        if n = 0 then giveUp l fid (.text s!"client: xattr short write at offset {off}/{data.length}")
        else writeXattrFrom fid data chunk fuel (off + n.toNat)
    else pure ()

def xattrSet (fid newFid : Fid) (name data : Bytes) (flags : UInt32) : Op ν Unit := do
  let _ ← twalk l fid newFid []
  match ← attempt (txattrcreate l newFid name (UInt64.ofNat data.length) flags) with
  | .error e => giveUp l newFid e
  | .ok () =>
    let chunk := xattrChunk l.msize
    if chunk = 0 ∧ 0 < data.length then
      giveUp l newFid (.text s!"client: xattr chunk is 0 (msize {l.msize} ≤ ioFrameOverhead {ioFrameOverhead})")
    else do
      writeXattrFrom l newFid data chunk data.length 0
      cleanupFid l newFid

def xattrRemove (fid newFid : Fid) (name : Bytes) : Op ν Unit := xattrSet l fid newFid name [] 0

end Xattr

/-! ## Exchanges that go well -/

section Lemmas

variable {l : Link ν} {w : World ν}

theorem bind_ok {α β : Type} {x : Op ν α} {f : α → Op ν β} {a : α} (h : x w = (.ok a, w')) : (x >>= f) w = f a w' := by
  show ExceptT.bindCont f (x w).1 (x w).2 = _
  rw [h]
  rfl

theorem attempt_ok {α : Type} {x : Op ν α} {a : α} (h : x w = (.ok a, w')) : attempt x w = (.ok (.ok a), w') := by
  rw [attempt, h]

theorem rtrip_ok {α : Type} {want : MessageType} {pick : P9l.Msg → Option α} {a : α}
    (resp : P9l.Msg) (hreq : P9l.carry l.msize l.tag req = some req)
    (hserve : serve l.cfg (l.others w.exchanges w.server) req = (resp, s))
    (hresp : P9l.carry l.msize l.tag resp = some resp) (hpick : pick resp = some a) (herr : ∀ m, resp ≠ .rlerror m) :
    rtrip l want pick req w = (.ok a, ⟨s, w.exchanges + 1⟩) := by
  have htrip : roundTrip l req w = (.ok resp, ⟨s, w.exchanges + 1⟩) := by
    unfold roundTrip
    simp only [hreq, hserve, hresp]
  unfold rtrip
  rw [bind_ok htrip]
  split
  · exact absurd rfl (herr _)
  · rw [hpick]
    rfl

end Lemmas

end NineP.Client.Transfer
