import NineP.Lib.Codec

/-!
# The 9P wire primitives

The types of package `proto` that messages are made of, and the `Write*` and `Read*` functions that put them
on the wire (`proto/encode.go`, `proto/decode.go`), with a codec for each pair.  A Go string is its bytes.
-/

namespace NineP.Proto

open Codec

/-! ## Errors -/

/-- Go errors as the codec builds them: the two end-of-input values of package `io`, a fresh message, or a
context wrapped around another error with `%w`. -/
inductive Err
  | eof
  | unexpectedEof
  | msg (text : String)
  | wrap (ctx : String) (e : Err)
  deriving DecidableEq

/-- Writers of this package. -/
abbrev Writer := Put Err

/-- Readers of this package. -/
abbrev Reader := Get Err

/-- `fmt.Errorf("ctx: %w", err)` on the way out. -/
def wrap {α : Type} (ctx : String) (m : StateT Bytes (Except Err) α) : StateT Bytes (Except Err) α :=
  wrapErr (.wrap ctx) m

/-! ## Constants and types -/

def headerSize : UInt32 := 7
def maxWalkElements : Nat := 16
def maxStringLen : Nat := 65535
def maxDataSize : Nat := 16777216
def maxMessageSize : UInt32 := headerSize + UInt32.ofNat maxDataSize + 4096

abbrev Fid := UInt32
abbrev Tag := UInt16
abbrev QIDType := UInt8
abbrev FileMode := UInt32
abbrev AttrMask := UInt64
abbrev SetAttrMask := UInt32
abbrev LockType := UInt8
abbrev LockFlags := UInt32
abbrev LockStatus := UInt8
abbrev Errno := UInt32
abbrev MessageType := UInt8

def noFid : Fid := 0xFFFFFFFF

def noTag : Tag := 0xFFFF

/-- The `QTDIR` bit of a QID type. -/
def qtDir : QIDType := 0x80

def EPERM : Errno := 1
def ENOENT : Errno := 2
def EIO : Errno := 5
def EBADF : Errno := 9
def EBUSY : Errno := 16
def EEXIST : Errno := 17
def ENOTDIR : Errno := 20
def EISDIR : Errno := 21
def EINVAL : Errno := 22
def EMFILE : Errno := 24
def EFBIG : Errno := 27
def ENOSPC : Errno := 28
def ENOSYS : Errno := 38
def ENOTEMPTY : Errno := 39

def setAttrMode : SetAttrMask := 0x01
def setAttrUID : SetAttrMask := 0x02
def setAttrGID : SetAttrMask := 0x04
def setAttrSize : SetAttrMask := 0x08
def setAttrATime : SetAttrMask := 0x10
def setAttrMTime : SetAttrMask := 0x20

def lockTypeUnlck : LockType := 2
def lockFlagBlock : LockFlags := 1
def lockFlagReclaim : LockFlags := 2
def lockStatusGrace : LockStatus := 3

/-- The server's identity of a file. -/
structure QID where
  type : QIDType
  version : UInt32
  path : UInt64
  deriving DecidableEq, Inhabited

/-! ## Writers -/

def writeUint8 (v : UInt8) : Writer Unit := put (leBytes 1 v.toNat)
def writeUint16 (v : UInt16) : Writer Unit := put (leBytes 2 v.toNat)
def writeUint32 (v : UInt32) : Writer Unit := put (leBytes 4 v.toNat)
def writeUint64 (v : UInt64) : Writer Unit := put (leBytes 8 v.toNat)
def writeFid (f : Fid) : Writer Unit := writeUint32 f

/-- A length of two bytes, then the data; longer strings are refused. -/
def writeString (s : Bytes) : Writer Unit := do
  failIf (s.length > maxStringLen) (.msg s!"string length {s.length} exceeds max {maxStringLen}")
  writeUint16 (UInt16.ofNat s.length)
  put s

def writeQID (q : QID) : Writer Unit := do
  wrap "write qid type" (writeUint8 q.type)
  wrap "write qid version" (writeUint32 q.version)
  wrap "write qid path" (writeUint64 q.path)

/-! ## Readers -/

/-- `io.ReadFull`: the error tells an empty input from a short one. -/
def readFull (n : Nat) : Reader Bytes :=
  take (fun bs => if bs = [] then .eof else .unexpectedEof) n

def readUint8 : Reader UInt8 := do
  let b ← readFull 1
  return UInt8.ofNat (leNat b)

def readUint16 : Reader UInt16 := do
  let b ← readFull 2
  return UInt16.ofNat (leNat b)

def readUint32 : Reader UInt32 := do
  let b ← readFull 4
  return UInt32.ofNat (leNat b)

def readUint64 : Reader UInt64 := do
  let b ← readFull 8
  return UInt64.ofNat (leNat b)

def readFid : Reader Fid := readUint32

def readString : Reader Bytes := do
  let length ← wrap "read string length" readUint16
  if length = 0 then return []
  else wrap "read string data" (readFull length.toNat)

/-- `ReadData` on the body reader: a count past what is left of the body is refused before any read. -/
def readData (count : UInt32) : Reader Bytes :=
  if count = 0 then return []
  else fun br =>
    if count.toNat > br.length then
      .error (.wrap s!"read data: count {count} exceeds remaining {br.length} bytes" .unexpectedEof)
    else wrap "read data" (readFull count.toNat) br

def readQID : Reader QID := do
  let t ← wrap "read qid type" readUint8
  let version ← wrap "read qid version" readUint32
  let path ← wrap "read qid path" readUint64
  return { type := t, version := version, path := path }

/-! ## Codecs -/

theorem wrap_ok {α : Type} {m : StateT Bytes (Except Err) α} {a : α} :
    wrap ctx m s = .ok (a, s') ↔ m s = .ok (a, s') :=
  wrapErr_ok

theorem uint8_codec : CodecOn 1 Any writeUint8 readUint8 :=
  CodecOn.word _ 1 UInt8.toNat UInt8.ofNat (fun v => v.toNat_lt) (fun _ => UInt8.ofNat_toNat)
    fun _ h => UInt8.toNat_ofNat_of_lt h

theorem uint16_codec : CodecOn 2 Any writeUint16 readUint16 :=
  CodecOn.word _ 2 UInt16.toNat UInt16.ofNat (fun v => v.toNat_lt) (fun _ => UInt16.ofNat_toNat)
    fun _ h => UInt16.toNat_ofNat_of_lt h

theorem uint32_codec : CodecOn 4 Any writeUint32 readUint32 :=
  CodecOn.word _ 4 UInt32.toNat UInt32.ofNat (fun v => v.toNat_lt) (fun _ => UInt32.ofNat_toNat)
    fun _ h => UInt32.toNat_ofNat_of_lt h

theorem uint64_codec : CodecOn 8 Any writeUint64 readUint64 :=
  CodecOn.word _ 8 UInt64.toNat UInt64.ofNat (fun v => v.toNat_lt) (fun _ => UInt64.ofNat_toNat)
    fun _ h => UInt64.toNat_ofNat_of_lt h

theorem fid_codec : CodecOn 4 Any writeFid readFid := uint32_codec

theorem qid_codec : CodecOn 13 Any writeQID readQID :=
  .field QID.type (uint8_codec.wrap _ _) fun _ =>
  .field QID.version (uint32_codec.wrap _ _) fun _ =>
  .last QID.path _ (uint64_codec.wrap _ _) fun _ a => by cases a; simp [Any, and_assoc]

theorem readUint8_ok {v : UInt8} : readUint8 bs = .ok (v, rest) ↔ bs = v :: rest := by
  rw [uint8_codec.get_ok_iff]
  simp [leBytes]

theorem readUint16_ok : readUint16 bs = .ok (v, rest) ↔ bs = leBytes 2 v.toNat ++ rest :=
  uint16_codec.get_ok_iff

theorem readUint32_ok {v : UInt32} : readUint32 bs = .ok (v, rest) ↔ bs = leBytes 4 v.toNat ++ rest :=
  uint32_codec.get_ok_iff

theorem uint16_ofNat_eq_iff (hx : x ≤ maxStringLen) : UInt16.ofNat x = v ↔ x = v.toNat := by
  have hlt : x < 65536 := Nat.lt_succ_of_le hx
  constructor
  · rintro rfl
    exact (UInt16.toNat_ofNat_of_lt hlt).symm
  · rintro rfl
    exact UInt16.ofNat_toNat

theorem uint32_ofNat_eq_iff {v : UInt32} (hx : x ≤ maxDataSize) : UInt32.ofNat x = v ↔ x = v.toNat := by
  have hlt : x < 4294967296 := Nat.lt_of_le_of_lt hx (by decide)
  constructor
  · rintro rfl
    exact (UInt32.toNat_ofNat_of_lt hlt).symm
  · rintro rfl
    exact UInt32.ofNat_toNat

theorem string_codec : CodecOn (2 + maxStringLen) Any writeString readString := by
  refine .failIfPut (.field (fun s : Bytes => UInt16.ofNat s.length) (uint16_codec.wrapGet _) fun len => ?_)
  have hacc : ∀ s : Bytes, ((Any s ∧ ¬ s.length > maxStringLen) ∧ UInt16.ofNat s.length = len) ↔
      s.length = len.toNat := by
    intro s
    constructor
    · rintro ⟨⟨-, hle⟩, hlen⟩
      exact (uint16_ofNat_eq_iff (by omega)).1 hlen
    · intro hlen
      have hle : s.length ≤ maxStringLen := by
        have := len.toNat_lt
        show s.length ≤ 65535
        omega
      exact ⟨⟨trivial, by omega⟩, (uint16_ofNat_eq_iff hle).2 hlen⟩
  have hbound : len.toNat ≤ maxStringLen := Nat.le_of_lt_succ len.toNat_lt
  -- the branch of the empty string reads nothing, as a full read of zero bytes would
  refine CodecOn.mono hbound (.congr (.bytes len.toNat fun {bs b rest} => ?_) hacc)
  split
  · rename_i h0
    subst h0
    exact pure_nil_ok
  · exact wrapErr_ok.trans take_ok

/-! ## Layouts -/

def QID.bytes (q : QID) : Bytes := leBytes 1 q.type.toNat ++ (leBytes 4 q.version.toNat ++ leBytes 8 q.path.toNat)

theorem writeQID_writes (q : QID) : Writes True q.bytes (writeQID q) :=
  (((Writes.put _).wrap _).seq (((Writes.put _).wrap _).seq ((Writes.put _).wrap _))).congr (by simp) rfl

theorem writeString_writes (s : Bytes) :
    Writes (s.length ≤ maxStringLen) (leBytes 2 s.length ++ s) (writeString s) := by
  intro buf buf'
  unfold writeString
  have hval : s.length ≤ maxStringLen → (UInt16.ofNat s.length).toNat = s.length := fun hle =>
    UInt16.toNat_ofNat_of_lt (Nat.lt_succ_of_le hle)
  have hseq : Writes (True ∧ True) (leBytes 2 (UInt16.ofNat s.length).toNat ++ s)
      (do writeUint16 (UInt16.ofNat s.length); put s) := (Writes.put _).seq (Writes.put s)
  rw [failIf_bind_ok, hseq buf buf']
  constructor
  · rintro ⟨hle, -, rfl⟩
    have hle : s.length ≤ maxStringLen := by omega
    rw [hval hle]
    exact ⟨hle, rfl⟩
  · rintro ⟨hle, rfl⟩
    rw [hval hle]
    exact ⟨by omega, by simp, rfl⟩

theorem readData_ok {count : UInt32} {b : Bytes} :
    readData count bs = .ok (b, rest) ↔ bs = b ++ rest ∧ b.length = count.toNat := by
  unfold readData
  split
  · rename_i h0
    subst h0
    exact pure_nil_ok
  · show (if count.toNat > bs.length then _ else wrap "read data" (readFull count.toNat) bs) = _ ↔ _
    split
    · rename_i hshort
      constructor
      · intro h
        cases h
      · rintro ⟨rfl, hb⟩
        simp only [List.length_append] at hshort
        omega
    · exact wrapErr_ok.trans take_ok

end NineP.Proto
