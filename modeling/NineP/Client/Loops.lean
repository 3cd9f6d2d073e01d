import NineP.Client.Positional
import NineP.Lib.Loop

/-!
# The loops of the client against any peer

The loops of `client/file.go`, `client/readdir.go` and `client/advanced_xattr.go`, with a peer that may answer a request
with any response, any bytes or nothing.  The checks before any round trip are left out.
-/

namespace NineP.Client.Loops

open Codec Proto Slices List
open Loop (none_of_while some_of_while)
open Positional (chunkLen)
open Server.Replies (Dirent parseDirents)
open Transfer (collect pickRread pickRreaddir pickRxattrwalk pickRxattrcreate pickRclunk
  pickRwalk)
open ZeroCopy (Kind ServerError)

/-! ## Round trips -/

/-- A file of a connection that `Dial` has returned. -/
structure File extends Positional.File where
  accepted : 256 ≤ msize.toNat

def File.maxChunk (f : File) : UInt32 := Transfer.maxChunk f.msize f.iounit

inductive Failure
  | eof
  | shortWrite
  /-- There is no response: the context has ended, or the connection is closed, perhaps because of the frame that came. -/
  | conn
  | server (e : ServerError)
  | text (msg : String)

/-- A response, in the dialect of the connection. -/
inductive Response
  | l (m : P9l.Msg)
  | u (m : P9u.Msg)

def Response.type : Response → MessageType
  | .l m | .u m => m.type

def toError : Response → Option ServerError
  | .l (.rlerror m) => some ⟨m.ecode, []⟩
  | .u (.rerror m) => some ⟨m.errno, m.ename⟩
  | _ => none

/-- What comes back for the request of round trip number `k`. -/
abbrev Peer (ρ : Type) := Nat → P9l.Msg → Option ρ

def rtrip {α : Type} (want : MessageType) (pick : Response → Option α) : Option Response → Except Failure α
  | none => .error .conn
  | some resp =>
    match toError resp, pick resp with
    | some e, _ => .error (.server e)
    | none, some a => .ok a
    | none, none =>
      .error (.text s!"client: expected {messageTypeString want}, got {messageTypeString resp.type}")

/-- A response that only 9P2000.L has, or that is only awaited on it. -/
def onL {α : Type} (pick : P9l.Msg → Option α) : Response → Option α
  | .l m => pick m
  | .u _ => none

def pickRwrite : Response → Option UInt32
  | .l (.base (.rwrite m)) | .u (.base (.rwrite m)) => some m.count
  | _ => none

def tread (count : UInt32) (resp : Option Response) : Except Failure Bytes :=
  match rtrip typeRread (onL pickRread) resp with
  | .error e => .error e
  | .ok data =>
    if data.length > count.toNat then
      .error (.text s!"client: Rread count {data.length} exceeds requested count {count}")
    else .ok data

def twrite (data : Bytes) (resp : Option Response) : Except Failure Nat :=
  match rtrip typeRwrite pickRwrite resp with
  | .error e => .error e
  | .ok count =>
    if count.toNat > data.length then
      .error (.text s!"client: Rwrite count {count} exceeds write size {data.length}")
    else .ok count.toNat

def cleanupFid (peer : Peer Response) (k : Nat) (fid : Fid) : Except Failure Unit :=
  rtrip typeRclunk (onL pickRclunk) (peer k (.base (.tclunk ⟨fid⟩)))

/-! ## Reads and writes -/

/-- What a read or a write returns: the count, the error and the buffer. -/
structure Result where
  n : Nat
  err : Option Failure
  p : Bytes

/-- What comes before the loop: an empty buffer needs none, and a negative offset is refused. -/
def checked (p : Bytes) (off : Int64) (msg : String) (loop : Option (Result × Nat)) : Option (Result × Nat) :=
  if p.length = 0 then some (⟨0, none, p⟩, 0) else if off < 0 then some (⟨0, some (.text msg), p⟩, 0) else loop

section ReadWrite

variable (f : File)

/-- `readAtZeroCopy`, with the bytes of the frame that came: the count and the destination. -/
def readAtZeroCopy (dst : Bytes) : Option (Kind × Bytes) → Except Failure Nat × Bytes
  | none => (.error .conn, dst)
  | some (kind, b) =>
    let r := ZeroCopy.readAtZeroCopy (some dst) kind b
    let dst := r.2.getD dst
    match r.1 with
    | .shutdown => (.error .conn, dst)
    | .server e => (.error (.server e), dst)
    | .unexpected t => (.error (.text
        s!"client: readAtZeroCopy: expected Rread sentinel or Rlerror/Rerror, got {messageTypeString t}"), dst)
    | .ok n => (.ok n, dst)

/-- The loop of `ReadAtCtx`, on the buffer and `total`. -/
def readAtLoop (off : Int64) : Loop P9l.Msg (Option (Kind × Bytes)) (Bytes × Nat) Result where
  exit s := if s.2 < s.1.length then none else some ⟨s.2, none, s.1⟩
  ask s := .base (.tread ⟨f.fid, off.toUInt64 + UInt64.ofNat s.2, chunkLen (s.1.length - s.2) f.maxChunk⟩)
  next s reply :=
    let count := chunkLen (s.1.length - s.2) f.maxChunk
    let r := readAtZeroCopy ((s.1.drop s.2).take count.toNat) reply
    let p := splice s.1 r.2 s.2
    match r.1 with
    | .error e => .inr ⟨s.2, some e, p⟩
    | .ok n => if n = 0 then .inr ⟨s.2, some .eof, p⟩ else .inl (p, s.2 + n)

def readAtCtx (peer : Peer (Kind × Bytes)) (fuel : Nat) (p : Bytes) (off : Int64) : Option (Result × Nat) :=
  checked p off s!"client: ReadAt negative offset {off}" ((readAtLoop f off).run peer fuel (p, 0) 0)

/-- The part of the buffer that the next Twrite carries. -/
def chunkAt (p : Bytes) (total : Nat) : Bytes :=
  let chunk := p.drop total
  if chunk.length > f.maxChunk.toNat then chunk.take f.maxChunk.toNat else chunk

/-- The loop of `WriteAtCtx` and of `WriteCtx`, on `total`: `offset` is the offset of the next Twrite. -/
def writeLoop (offset : Nat → UInt64) (p : Bytes) : Loop P9l.Msg (Option Response) Nat Result where
  exit total := if total < p.length then none else some ⟨total, none, p⟩
  ask total := .base (.twrite ⟨f.fid, offset total, chunkAt f p total⟩)
  next total reply :=
    match twrite (chunkAt f p total) reply with
    | .error e => .inr ⟨total, some e, p⟩
    | .ok n => if n < (chunkAt f p total).length then .inr ⟨total + n, some .shortWrite, p⟩ else .inl (total + n)

def writeAtCtx (peer : Peer Response) (fuel : Nat) (p : Bytes) (off : Int64) : Option (Result × Nat) :=
  checked p off s!"client: WriteAt negative offset {off}"
    ((writeLoop f (fun total => off.toUInt64 + UInt64.ofNat total) p).run peer fuel 0 0)

def writeCtx (peer : Peer Response) (fuel : Nat) (p : Bytes) (offset : Int64) : Option (Result × Nat) :=
  checked p offset s!"client: negative offset {offset}"
    ((writeLoop f (fun total => (offset + Int64.ofNat total).toUInt64) p).run peer fuel 0 0)

end ReadWrite

/-! ## Listings and attributes -/

def readDirLoop (f : File) (n : Int) :
    Loop P9l.Msg (Option Response) (List Dirent × UInt64) (List Dirent × Option Failure × UInt64) where
  exit s := if 0 < n ∧ n ≤ s.1.length then some (s.1.take n.toNat, none, s.2) else none
  ask s := .treaddir ⟨f.fid, s.2, f.maxChunk⟩
  next s reply :=
    let (entries, off) := s
    match rtrip typeRreaddir (onL pickRreaddir) reply with
    | .error e => .inr (entries, some e, off)
    | .ok data =>
      if data = [] then .inr (entries, none, off)
      else
        match parseDirents data with
        | (_, some e) => .inr (entries, some (.text e), off)
        | ([], none) => .inr (entries, none, off)
        | (parsed, none) =>
          match collect n parsed entries off with
          | (entries, offset, true) => .inr (entries.take n.toNat, none, offset)
          | (entries, offset, false) =>
            if offset ≤ off then
              .inr (entries, some (.text s!"client: readdir cursor did not advance past offset {off}"), offset)
            else .inl (entries, offset)

section Xattr

variable (f : File) (peer : Peer Response)

def xattrReadLoop (fid : Fid) (size : Nat) (chunk : UInt32) :
    Loop P9l.Msg (Option Response) Bytes (Except Failure Bytes) :=
  let want (buf : Bytes) := if chunk.toNat > size - buf.length then UInt32.ofNat (size - buf.length) else chunk
  { exit buf := if buf.length < size then none else some (.ok buf)
    ask buf := .base (.tread ⟨fid, UInt64.ofNat buf.length, want buf⟩)
    next buf reply :=
      let remaining := size - buf.length
      match tread (want buf) reply with
      | .error e => .inr (.error e)
      | .ok data =>
        if data.length = 0 then .inr (.error (.text s!"client: xattr short read at offset {buf.length}/{size}"))
        else if data.length > remaining then
          .inr (.error (.text s!"client: xattr over-read: server returned {data.length} bytes at offset {buf.length}, only {remaining} remaining"))
        else .inl (buf ++ data) }

def twoPhaseXattrRead (fuel : Nat) (newFid : Fid) (name : Bytes) : Option (Except Failure Bytes × Nat) :=
  match rtrip typeRxattrwalk (onL pickRxattrwalk) (peer 0 (.txattrwalk ⟨f.fid, newFid, name⟩)) with
  | .error e => some (.error e, 1)
  | .ok size =>
    let chunk := Transfer.xattrChunk f.msize
    if size.toNat > maxDataSize then
      some (.error (.text s!"client: xattr size {size} exceeds MaxDataSize {maxDataSize}"), 2)
    else if size = 0 then some ((cleanupFid peer 1 newFid).map fun _ => [], 2)
    else if chunk = 0 then
      some (.error (.text s!"client: xattr chunk is 0 (msize {f.msize} ≤ ioFrameOverhead {Transfer.ioFrameOverhead})"), 2)
    else
      match (xattrReadLoop newFid size.toNat chunk).run peer fuel [] 1 with
      | none => none
      | some (.error e, k) => some (.error e, k + 1)
      | some (.ok buf, k) => some ((cleanupFid peer k newFid).map fun _ => buf, k + 1)

def xattrWriteLoop (fid : Fid) (data : Bytes) (chunk : UInt32) : Loop P9l.Msg (Option Response) Nat (Except Failure Unit) :=
  let part (off : Nat) := (data.take (min (off + chunk.toNat) data.length)).drop off
  { exit off := if off < data.length then none else some (.ok ())
    ask off := .base (.twrite ⟨fid, UInt64.ofNat off, part off⟩)
    next off reply :=
      match twrite (part off) reply with
      | .error e => .inr (.error e)
      | .ok n =>
        if n = 0 then .inr (.error (.text s!"client: xattr short write at offset {off}/{data.length}"))
        else .inl (off + n) }

def xattrSet (fuel : Nat) (newFid : Fid) (name data : Bytes) (flags : UInt32) : Option (Except Failure Unit × Nat) :=
  match rtrip typeRwalk (onL pickRwalk) (peer 0 (.base (.twalk ⟨f.fid, newFid, []⟩))) with
  | .error e => some (.error e, 1)
  | .ok _ =>
    match rtrip typeRxattrcreate (onL pickRxattrcreate)
      (peer 1 (.txattrcreate ⟨newFid, name, UInt64.ofNat data.length, flags⟩)) with
    | .error e => some (.error e, 3)
    | .ok () =>
      let chunk := Transfer.xattrChunk f.msize
      if chunk = 0 ∧ 0 < data.length then
        some (.error (.text s!"client: xattr chunk is 0 (msize {f.msize} ≤ ioFrameOverhead {Transfer.ioFrameOverhead})"), 3)
      else
        match (xattrWriteLoop newFid data chunk).run peer fuel 0 2 with
        | none => none
        | some (.error e, k) => some (.error e, k + 1)
        | some (.ok (), k) => some (cleanupFid peer k newFid, k + 1)

end Xattr

/-! ## Progress -/

section Progress

variable {f : File}

/-- The read loop keeps to the destination. -/
theorem readLoop_le (dst : Bytes) (kind : Kind) (b : Bytes) :
    ∃ dst' : Bytes, (ZeroCopy.readLoop (some dst) kind b).2 = some dst' ∧ dst'.length = dst.length ∧
      ∀ n, (ZeroCopy.readLoop (some dst) kind b).1 = .sentinel n → n ≤ dst.length := by
  have hdecoded : ∀ n, ZeroCopy.readDecoded kind b ≠ .sentinel n := by
    intro n
    rcases ZeroCopy.readDecoded_cases kind b with h | ⟨m, h, -⟩ <;> rw [h] <;> exact nofun
  cases kind with
  | rlerror | rerror => exact ⟨dst, rfl, rfl, fun n hn => absurd hn (hdecoded n)⟩
  | rread =>
    simp only [ZeroCopy.readLoop]
    split
    · exact ⟨dst, rfl, rfl, nofun⟩
    split
    · exact ⟨dst, rfl, rfl, nofun⟩
    split
    · exact ⟨dst, rfl, rfl, nofun⟩
    split
    · exact ⟨dst, rfl, rfl, nofun⟩
    · have hmod := Nat.mod_le dst.length (2 ^ 32)
      refine ⟨_, rfl, length_splice ?_, fun n hn => ?_⟩
      · rw [length_take]
        omega
      · cases hn
        omega

theorem readAtZeroCopy_le (dst : Bytes) (reply : Option (Kind × Bytes)) :
    (readAtZeroCopy dst reply).2.length = dst.length ∧ ∀ n, (readAtZeroCopy dst reply).1 = .ok n → n ≤ dst.length := by
  rcases reply with - | ⟨kind, b⟩
  · exact ⟨rfl, nofun⟩
  obtain ⟨dst', hdst', hlen, hn⟩ := readLoop_le dst kind b
  simp only [readAtZeroCopy, ZeroCopy.readAtZeroCopy]
  generalize ZeroCopy.readLoop (some dst) kind b = r at hdst' hn
  obtain ⟨handled, d⟩ := r
  obtain rfl : d = some dst' := hdst'
  cases handled with
  | shutdown => exact ⟨hlen, nofun⟩
  | sentinel n => exact ⟨hlen, fun n' hn' => by cases hn'; exact hn n rfl⟩
  | deliver m => cases hm : ZeroCopy.toError m <;> simp only [hm] <;> exact ⟨hlen, nofun⟩

theorem twrite_le (h : twrite data resp = .ok n) : n ≤ data.length := by
  unfold twrite at h
  split at h
  · cases h
  · split at h
    · cases h
    · obtain rfl : _ = n := by simpa using h
      omega

theorem readAtLoop_ends (f : File) (off : Int64) (size : Nat) :
    (readAtLoop f off).Ends (fun s => s.1.length = size ∧ s.2 ≤ size) (fun s => size - s.2)
      (fun r => r.n ≤ size ∧ r.p.length = size) where
  exit := by
    rintro ⟨p, total⟩ b ⟨rfl, htotal⟩ hexit
    obtain rfl := some_of_while hexit
    exact ⟨htotal, rfl⟩
  pos := by
    rintro ⟨p, total⟩ ⟨rfl, -⟩ hexit
    exact Nat.sub_pos_of_lt (none_of_while hexit)
  next := by
    rintro ⟨p, total⟩ ⟨rfl, htotal⟩ hexit reply
    have hmore : total < p.length := none_of_while hexit
    have hcount := Positional.toNat_chunkLen (n := p.length - total) f.maxChunk
    simp only [readAtLoop]
    generalize chunkLen (p.length - total) f.maxChunk = count at hcount
    obtain ⟨hlen, hn⟩ := readAtZeroCopy_le ((p.drop total).take count.toNat) reply
    rw [length_take, length_drop] at hlen hn
    have hp : (splice p (readAtZeroCopy ((p.drop total).take count.toNat) reply).2 total).length = p.length :=
      length_splice (by omega)
    split
    · exact ⟨htotal, hp⟩
    · rename_i n hok
      have := hn n hok
      split
      · exact ⟨htotal, hp⟩
      · refine ⟨⟨hp, ?_⟩, ?_⟩ <;> simp only <;> omega

/-- The chunk of a Twrite is not empty, and within the buffer. -/
theorem length_chunkAt (h : total < p.length) :
    0 < (chunkAt f p total).length ∧ total + (chunkAt f p total).length ≤ p.length := by
  have hpos : 0 < f.maxChunk.toNat := Positional.maxChunk_pos f.accepted
  unfold chunkAt
  simp only
  split
  · rw [length_take, length_drop]
    omega
  · rw [length_drop]
    omega

theorem writeLoop_ends (f : File) (offset : Nat → UInt64) (p : Bytes) :
    (writeLoop f offset p).Ends (· ≤ p.length) (p.length - ·) (·.n ≤ p.length) where
  exit := by
    intro total b htotal hexit
    obtain rfl := some_of_while hexit
    exact htotal
  pos _ hexit := Nat.sub_pos_of_lt (none_of_while hexit)
  next := by
    intro total htotal hexit reply
    obtain ⟨hpos, hle⟩ := length_chunkAt (f := f) (none_of_while hexit)
    simp only [writeLoop]
    split
    · exact htotal
    · rename_i n hn
      have := twrite_le hn
      split
      · show total + n ≤ p.length
        omega
      · exact ⟨by omega, by omega⟩

/-- The cursor goes up, below 2^64. -/
theorem readDirLoop_ends (f : File) (n : Int) :
    (readDirLoop f n).Ends (fun _ => True) (fun s => 2 ^ 64 - s.2.toNat) (fun _ => True) where
  exit _ _ := trivial
  pos {s} _ _ := Nat.sub_pos_of_lt s.2.toNat_lt
  next := by
    rintro ⟨entries, off⟩ - - reply
    simp only [readDirLoop]
    split
    · trivial
    split
    · trivial
    split
    · trivial
    · trivial
    split
    · trivial
    split
    · trivial
    · rename_i offset _ hmore
      have hlt := UInt64.lt_iff_toNat_lt.1 (UInt64.not_le.1 hmore)
      have hmax := offset.toNat_lt
      exact ⟨trivial, by simp only; omega⟩

theorem xattrReadLoop_ends (fid : Fid) (size : Nat) (chunk : UInt32) : (xattrReadLoop fid size chunk).Ends
    (·.length ≤ size) (size - ·.length) (fun r => ∀ buf, r = .ok buf → buf.length ≤ size) where
  exit := by
    intro buf r hbuf hexit
    obtain rfl := some_of_while hexit
    intro buf' hbuf'
    cases hbuf'
    exact hbuf
  pos _ hexit := Nat.sub_pos_of_lt (none_of_while hexit)
  next := by
    intro buf hbuf hexit reply
    have hmore : buf.length < size := none_of_while hexit
    simp only [xattrReadLoop]
    split
    · exact nofun
    split
    · exact nofun
    split
    · exact nofun
    · simp only [Sum.elim_inl, length_append]
      omega

theorem xattrWriteLoop_ends (fid : Fid) (data : Bytes) (chunk : UInt32) :
    (xattrWriteLoop fid data chunk).Ends (· ≤ data.length) (data.length - ·) (fun _ => True) where
  exit _ _ := trivial
  pos _ hexit := Nat.sub_pos_of_lt (none_of_while hexit)
  next := by
    intro off _ hexit reply
    have hmore : off < data.length := none_of_while hexit
    simp only [xattrWriteLoop]
    split
    · trivial
    · rename_i n hn
      have hle := twrite_le hn
      rw [length_drop, length_take] at hle
      split
      · trivial
      · exact ⟨by omega, by omega⟩

section Operations

variable {peer : Peer Response} {fuel : Nat}

theorem checked_ends {P : Result → Nat → Prop}
    (h0 : ∀ err, P ⟨0, err, p⟩ 0) (h : ∃ r k, loop = some (r, k) ∧ P r k) :
    ∃ r k, checked p off msg loop = some (r, k) ∧ P r k := by
  unfold checked
  split
  · exact ⟨_, 0, rfl, h0 _⟩
  split
  · exact ⟨_, 0, rfl, h0 _⟩
  · exact h

theorem writeLoop_run (offset : Nat → UInt64) (hfuel : p.length < fuel) :
    ∃ r k, (writeLoop f offset p).run peer fuel 0 0 = some (r, k) ∧ k ≤ p.length ∧ r.n ≤ p.length := by
  obtain ⟨r, k, hrun, hk, hn⟩ := (writeLoop_ends f offset p).run peer 0 (Nat.zero_le _) hfuel
  rw [Nat.zero_add] at hrun
  exact ⟨r, k, hrun, hk, hn⟩

theorem twoPhaseXattrRead_ends (newFid : Fid) (name : Bytes) (hfuel : maxDataSize < fuel) :
    ∃ r k, twoPhaseXattrRead f peer fuel newFid name = some (r, k) ∧ k ≤ maxDataSize + 2 ∧
      ∀ buf, r = .ok buf → buf.length ≤ maxDataSize := by
  unfold twoPhaseXattrRead
  split
  · exact ⟨_, 1, rfl, by decide, nofun⟩
  rename_i size hsize
  have hcleaned : ∀ {k : Nat} {buf' : Bytes}, buf'.length ≤ maxDataSize →
      ∀ buf, ((cleanupFid peer k newFid).map fun _ => buf') = .ok buf → buf.length ≤ maxDataSize := by
    intro k buf' hbuf' buf hbuf
    cases h : cleanupFid peer k newFid with
    | error e => rw [h] at hbuf; cases hbuf
    | ok u => rw [h] at hbuf; cases hbuf; exact hbuf'
  simp only
  split
  · exact ⟨_, 2, rfl, by decide, nofun⟩
  split
  · exact ⟨_, 2, rfl, by decide, hcleaned (Nat.zero_le _)⟩
  split
  · exact ⟨_, 2, rfl, by decide, nofun⟩
  · obtain ⟨r, k, hrun, hk, hbuf⟩ := (xattrReadLoop_ends newFid size.toNat (Transfer.xattrChunk f.msize)).run peer 1
      (Nat.zero_le _) (s := []) (show size.toNat - 0 < fuel by omega)
    have hk' : k ≤ size.toNat := hk
    rw [hrun]
    cases r with
    | error e => exact ⟨_, _, rfl, by omega, nofun⟩
    | ok buf => exact ⟨_, _, rfl, by omega, hcleaned (Nat.le_trans (hbuf buf rfl) (by omega))⟩

theorem xattrSet_ends (newFid : Fid) (name data : Bytes) (flags : UInt32) (hfuel : data.length < fuel) :
    ∃ r k, xattrSet f peer fuel newFid name data flags = some (r, k) ∧ k ≤ data.length + 3 := by
  unfold xattrSet
  split
  · exact ⟨_, 1, rfl, by omega⟩
  split
  · exact ⟨_, 3, rfl, by omega⟩
  simp only
  split
  · exact ⟨_, 3, rfl, by omega⟩
  · obtain ⟨r, k, hrun, hk, -⟩ := (xattrWriteLoop_ends newFid data (Transfer.xattrChunk f.msize)).run peer 2 (Nat.zero_le _) hfuel
    rw [hrun]
    cases r with
    | error e | ok => exact ⟨_, _, rfl, by omega⟩

end Operations

end Progress

/-- **Progress against any peer.**  Reads and writes take at most a round trip for each byte of the buffer and report no
more than it has, a listing one for each value that the cursor can still take, and an attribute one for each byte, and
those around the loop. -/
theorem loops_progress (f : File) :
    (∀ (peer : Peer (Kind × Bytes)) (p : Bytes) (off : Int64) (fuel : Nat), p.length < fuel →
      ∃ r k, readAtCtx f peer fuel p off = some (r, k) ∧ k ≤ p.length ∧ r.n ≤ p.length ∧ r.p.length = p.length) ∧
    ∀ peer : Peer Response,
      (∀ (p : Bytes) (off : Int64) (fuel : Nat), p.length < fuel →
        (∃ r k, writeAtCtx f peer fuel p off = some (r, k) ∧ k ≤ p.length ∧ r.n ≤ p.length) ∧
        ∃ r k, writeCtx f peer fuel p off = some (r, k) ∧ k ≤ p.length ∧ r.n ≤ p.length) ∧
      (∀ (n : Int) (off : UInt64) (fuel : Nat), 2 ^ 64 - off.toNat < fuel →
        ∃ r k, (readDirLoop f n).run peer fuel ([], off) 0 = some (r, k) ∧ k ≤ 2 ^ 64 - off.toNat) ∧
      (∀ (newFid : Fid) (name : Bytes) (fuel : Nat), maxDataSize < fuel →
        ∃ r k, twoPhaseXattrRead f peer fuel newFid name = some (r, k) ∧ k ≤ maxDataSize + 2 ∧
          ∀ buf, r = .ok buf → buf.length ≤ maxDataSize) ∧
      ∀ (newFid : Fid) (name data : Bytes) (flags : UInt32) (fuel : Nat), data.length < fuel →
        ∃ r k, xattrSet f peer fuel newFid name data flags = some (r, k) ∧ k ≤ data.length + 3 := by
  refine ⟨fun peer p off fuel hfuel => ?_, fun peer => ⟨fun p off fuel hfuel => ⟨?_, ?_⟩, fun n off fuel hfuel => ?_,
    fun newFid name fuel hfuel => twoPhaseXattrRead_ends newFid name hfuel,
    fun newFid name data flags fuel hfuel => xattrSet_ends newFid name data flags hfuel⟩⟩
  · refine checked_ends (fun _ => ⟨Nat.zero_le _, Nat.zero_le _, rfl⟩) ?_
    obtain ⟨r, k, hrun, hk, hr⟩ := (readAtLoop_ends f off p.length).run peer 0 (s := (p, 0)) ⟨rfl, Nat.zero_le _⟩ hfuel
    rw [Nat.zero_add] at hrun
    exact ⟨r, k, hrun, hk, hr⟩
  · exact checked_ends (fun _ => ⟨Nat.zero_le _, Nat.zero_le _⟩) (writeLoop_run _ hfuel)
  · exact checked_ends (fun _ => ⟨Nat.zero_le _, Nat.zero_le _⟩) (writeLoop_run _ hfuel)
  · obtain ⟨r, k, hrun, hk, -⟩ := (readDirLoop_ends f n).run peer 0 (s := ([], off)) trivial hfuel
    rw [Nat.zero_add] at hrun
    exact ⟨r, k, hrun, hk⟩

/-- A peer that repeats its one byte cannot keep `ReadAt` going. -/
theorem loops_progress_repeated : ∃ r k, readAtCtx ⟨⟨1, 0, 256, 0⟩, by decide⟩
    (fun _ _ => some (.rread, ZeroCopy.frame .rread 0 [1, 0, 0, 0, 7])) 3 [0, 0] 0 = some (r, k) ∧ k ≤ 2 :=
  have ⟨r, k, hrun, hk, _⟩ := (loops_progress ⟨⟨1, 0, 256, 0⟩, by decide⟩).1 _ [0, 0] 0 3 (by decide)
  ⟨r, k, hrun, hk⟩

end NineP.Client.Loops
