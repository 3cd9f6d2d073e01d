import NineP.Proto.P9l.Codec
import NineP.Proto.P9u.Codec

/-!
# Encoding into any writer

`EncodeTo` takes an `io.Writer`, and the `Write*` helpers of `proto/encode.go` tell three kinds of it apart: a
`*bytes.Buffer`, a `*ByteCounter`, and any other.  Here every `EncodeTo` is written over the helpers of a writer.
-/

namespace NineP.Proto

open Codec

namespace Sinks

/-! ## Writers -/

/-- An encoder into a writer with state `σ`. -/
abbrev On (σ : Type) := StateT σ (Except Err)

section Control

variable {σ α : Type}

def wrapOn (ctx : String) (m : On σ α) : On σ α := fun s =>
  match m s with
  | .ok r => .ok r
  | .error e => .error (.wrap ctx e)

def failOn (c : Prop) [Decidable c] (e : Err) : On σ Unit := fun s => if c then .error e else .ok ((), s)

def resultOn (x : Except Err α) : On σ α := fun s => x.map (·, s)

def listOn (p : Nat → α → On σ Unit) : Nat → List α → On σ Unit
  | _, [] => pure ()
  | i, x :: xs => do
    p i x
    listOn p (i + 1) xs

end Control

/-- What the helpers do with a writer; `write` is its `Write`. -/
structure Sink (σ : Type) where
  write : Bytes → On σ Unit
  uint8 : UInt8 → On σ Unit
  uint16 : UInt16 → On σ Unit
  uint32 : UInt32 → On σ Unit
  uint64 : UInt64 → On σ Unit
  string : Bytes → On σ Unit
  qid : QID → On σ Unit

/-- An argument of one of the helpers. -/
inductive Field
  | u8 (v : UInt8)
  | u16 (v : UInt16)
  | u32 (v : UInt32)
  | u64 (v : UInt64)
  | str (s : Bytes)
  | qid (q : QID)

/-- The call of the helper. -/
def Sink.put {σ : Type} (w : Sink σ) : Field → On σ Unit
  | .u8 v => w.uint8 v
  | .u16 v => w.uint16 v
  | .u32 v => w.uint32 v
  | .u64 v => w.uint64 v
  | .str s => w.string s
  | .qid q => w.qid q

/-- One helper after another, each with the context of its error. -/
def fieldsOn {σ : Type} (w : Sink σ) : List (String × Field) → On σ Unit
  | [] => pure ()
  | [(ctx, f)] => wrapOn ctx (w.put f)
  | (ctx, f) :: fs => do
    wrapOn ctx (w.put f)
    fieldsOn w fs

/-! On bytes these are the combinators of `Codec`. -/

theorem wrapOn_eq {α : Type} (ctx : String) (m : On Bytes α) : wrapOn ctx m = wrap ctx m := by
  funext s
  unfold wrapOn wrap wrapErr
  cases m s <;> rfl

theorem listOn_eq {α : Type} (p : Nat → α → On Bytes Unit) (i : Nat) (xs : List α) : listOn p i xs = putList p i xs := by
  induction xs generalizing i with
  | nil => rfl
  | cons x xs ih => rw [listOn, putList, ih]

/-- `WriteString` refuses before it looks at the writer. -/
def checked {σ : Type} (s : Bytes) (p : On σ Unit) : On σ Unit := do
  failOn (s.length > maxStringLen) (.msg s!"string length {s.length} exceeds max {maxStringLen}")
  p

/-- A `*bytes.Buffer`: every helper appends once. -/
def buffer : Sink Bytes where
  write bs := fun b => .ok ((), b ++ bs)
  uint8 v := fun b => .ok ((), b ++ leBytes 1 v.toNat)
  uint16 v := fun b => .ok ((), b ++ leBytes 2 v.toNat)
  uint32 v := fun b => .ok ((), b ++ leBytes 4 v.toNat)
  uint64 v := fun b => .ok ((), b ++ leBytes 8 v.toNat)
  string s := checked s fun b => .ok ((), b ++ (leBytes 2 s.length ++ s))
  qid q := fun b => .ok ((), b ++ q.bytes)

/-- A `*ByteCounter`: the widths are added up.  `WriteQID` has no branch for it. -/
def counter : Sink Nat where
  write bs := fun n => .ok ((), n + bs.length)
  uint8 _ := fun n => .ok ((), n + 1)
  uint16 _ := fun n => .ok ((), n + 2)
  uint32 _ := fun n => .ok ((), n + 4)
  uint64 _ := fun n => .ok ((), n + 8)
  string s := checked s fun n => .ok ((), n + (2 + s.length))
  qid _ := do
    wrapOn "write qid type" fun n => .ok ((), n + 1)
    wrapOn "write qid version" fun n => .ok ((), n + 4)
    wrapOn "write qid path" fun n => .ok ((), n + 8)

/-- One `Write` on a writer that is known by the writes it was given, and accepts them. -/
def logged (bs : Bytes) : On (List Bytes) Unit := fun ws => .ok ((), ws ++ [bs])

/-- Any other `io.Writer`. -/
def fallback : Sink (List Bytes) where
  write := logged
  uint8 v := logged (leBytes 1 v.toNat)
  uint16 v := logged (leBytes 2 v.toNat)
  uint32 v := logged (leBytes 4 v.toNat)
  uint64 v := logged (leBytes 8 v.toNat)
  string s := checked s do
    wrapOn "write string length" (logged (leBytes 2 (UInt16.ofNat s.length).toNat))
    if s.length > 0 then wrapOn "write string data" (logged s) else pure ()
  qid q := do
    wrapOn "write qid type" (logged (leBytes 1 q.type.toNat))
    wrapOn "write qid version" (logged (leBytes 4 q.version.toNat))
    wrapOn "write qid path" (logged (leBytes 8 q.path.toNat))

/-- The writers of `Wire`. -/
def plain : Sink Bytes where
  write := put
  uint8 := writeUint8
  uint16 := writeUint16
  uint32 := writeUint32
  uint64 := writeUint64
  string := writeString
  qid := writeQID

end Sinks

/-! ## Related writers -/

namespace Sinks

variable {σ τ α β : Type} {R : σ → τ → Prop}

/-- Both fail, or both return the same value in related states. -/
def Sim (R : σ → τ → Prop) (x : On σ α) (y : On τ α) : Prop :=
  ∀ s t, R s t → ((∃ e, x s = .error e) ∧ ∃ e, y t = .error e) ∨
    ∃ a s' t', x s = .ok (a, s') ∧ y t = .ok (a, t') ∧ R s' t'

theorem Sim.pure (a : α) : Sim R (pure a) (pure a) := fun s t h => .inr ⟨a, s, t, rfl, rfl, h⟩

theorem Sim.bind {f : α → On σ β} {g : α → On τ β} (h : Sim R x y)
    (hf : ∀ a, Sim R (f a) (g a)) : Sim R (x >>= f) (y >>= g) := by
  intro s t hst
  rcases h s t hst with ⟨⟨e, hx⟩, e', hy⟩ | ⟨a, s', t', hx, hy, hst'⟩
  · exact .inl ⟨⟨e, by simp [Bind.bind, StateT.bind, hx, Except.bind]⟩, e', by simp [Bind.bind, StateT.bind, hy, Except.bind]⟩
  · have hfx : (x >>= f) s = f a s' := by simp [Bind.bind, StateT.bind, hx, Except.bind]
    have hgy : (y >>= g) t = g a t' := by simp [Bind.bind, StateT.bind, hy, Except.bind]
    rw [hfx, hgy]
    exact hf a s' t' hst'

theorem Sim.wrap {y : On τ α} (ctx : String) (h : Sim R x y) : Sim R (wrapOn ctx x) (wrapOn ctx y) := by
  intro s t hst
  unfold wrapOn
  rcases h s t hst with ⟨⟨e, hx⟩, e', hy⟩ | ⟨a, s', t', hx, hy, hst'⟩
  · exact .inl ⟨⟨_, by rw [hx]⟩, _, by rw [hy]⟩
  · exact .inr ⟨a, s', t', by rw [hx], by rw [hy], hst'⟩

theorem Sim.fail (c : Prop) [Decidable c] (e : Err) : Sim R (failOn c e) (failOn c e) := by
  intro s t hst
  unfold failOn
  split
  · exact .inl ⟨⟨e, rfl⟩, e, rfl⟩
  · exact .inr ⟨(), s, t, rfl, rfl, hst⟩

theorem Sim.result (x : Except Err α) : Sim R (resultOn x) (resultOn x) := by
  intro s t hst
  cases x with
  | error e => exact .inl ⟨⟨e, rfl⟩, e, rfl⟩
  | ok a => exact .inr ⟨a, s, t, rfl, rfl, hst⟩

theorem Sim.list {p : Nat → α → On σ Unit} {q : Nat → α → On τ Unit} (h : ∀ i x, Sim R (p i x) (q i x)) (i : Nat)
    (xs : List α) : Sim R (listOn p i xs) (listOn q i xs) := by
  induction xs generalizing i with
  | nil => exact .pure ()
  | cons x xs ih => exact .bind (h i x) fun _ => ih (i + 1)

theorem Sim.checked (s : Bytes) (h : s.length ≤ maxStringLen → Sim R x y) :
    Sim R (checked s x) (checked s y) := by
  by_cases hlen : s.length > maxStringLen
  · intro a b hab
    have hfail {ρ : Type} (p : On ρ Unit) (r : ρ) : ∃ e, Sinks.checked s p r = .error e :=
      ⟨_, by simp [Sinks.checked, failOn, hlen, Bind.bind, StateT.bind, Except.bind]; rfl⟩
    exact .inl ⟨hfail x a, hfail y b⟩
  · exact .bind (.fail _ _) fun _ => h (Nat.not_lt.1 hlen)

theorem Sim.seq {y y' : On τ Unit} (h : Sim R x y) (h' : Sim R x' y') :
    Sim R (do x; x') (do y; y') :=
  h.bind fun _ => h'

/-- Writers whose helpers do related things. -/
structure Like (R : σ → τ → Prop) (v : Sink σ) (w : Sink τ) : Prop where
  write : ∀ bs, Sim R (v.write bs) (w.write bs)
  uint8 : ∀ n, Sim R (v.uint8 n) (w.uint8 n)
  uint16 : ∀ n, Sim R (v.uint16 n) (w.uint16 n)
  uint32 : ∀ n, Sim R (v.uint32 n) (w.uint32 n)
  uint64 : ∀ n, Sim R (v.uint64 n) (w.uint64 n)
  string : ∀ s, Sim R (v.string s) (w.string s)
  qid : ∀ q, Sim R (v.qid q) (w.qid q)

namespace Like

variable {v : Sink σ} {w : Sink τ}

theorem field (h : Like R v w) (ctx : String) (f : Field) : Sim R (wrapOn ctx (v.put f)) (wrapOn ctx (w.put f)) := by
  refine .wrap ctx ?_
  cases f with
  | u8 n => exact h.uint8 n
  | u16 n => exact h.uint16 n
  | u32 n => exact h.uint32 n
  | u64 n => exact h.uint64 n
  | str s => exact h.string s
  | qid q => exact h.qid q

theorem fields (h : Like R v w) (fs : List (String × Field)) : Sim R (fieldsOn v fs) (fieldsOn w fs) := by
  induction fs with
  | nil => exact .pure ()
  | cons x fs ih =>
    obtain ⟨ctx, f⟩ := x
    cases fs with
    | nil => exact h.field ctx f
    | cons y fs => exact (h.field ctx f).seq ih

end Like

end Sinks

open Sinks

/-! ## The messages -/

section Encoders

variable {σ : Type}

/-- A payload is written if there is one. -/
def payloadOn (w : Sink σ) (ctx : String) (data : Bytes) : On σ Unit :=
  if data.length > 0 then wrapOn ctx (w.write data) else pure ()

def Tversion.encodeOn (w : Sink σ) (m : Tversion) : On σ Unit := fieldsOn w [
  ("encode tversion msize", .u32 m.msize), ("encode tversion version", .str m.version)]

def Rversion.encodeOn (w : Sink σ) (m : Rversion) : On σ Unit := fieldsOn w [
  ("encode rversion msize", .u32 m.msize), ("encode rversion version", .str m.version)]

def Tauth.encodeOn (w : Sink σ) (m : Tauth) : On σ Unit := fieldsOn w [
  ("encode tauth afid", .u32 m.afid), ("encode tauth uname", .str m.uname), ("encode tauth aname", .str m.aname),
  ("encode tauth n_uname", .u32 m.nUname)]

def Rauth.encodeOn (w : Sink σ) (m : Rauth) : On σ Unit := fieldsOn w [("encode rauth aqid", .qid m.aqid)]

def Tattach.encodeOn (w : Sink σ) (m : Tattach) : On σ Unit := fieldsOn w [
  ("encode tattach fid", .u32 m.fid), ("encode tattach afid", .u32 m.afid), ("encode tattach uname", .str m.uname),
  ("encode tattach aname", .str m.aname), ("encode tattach n_uname", .u32 m.nUname)]

def Rattach.encodeOn (w : Sink σ) (m : Rattach) : On σ Unit := fieldsOn w [("encode rattach qid", .qid m.qid)]

def Tflush.encodeOn (w : Sink σ) (m : Tflush) : On σ Unit := fieldsOn w [("encode tflush oldtag", .u16 m.oldTag)]

def Rflush.encodeOn (_ : Sink σ) (_ : Rflush) : On σ Unit := pure ()

def Twalk.encodeOn (w : Sink σ) (m : Twalk) : On σ Unit := do
  failOn (m.names.length > maxWalkElements)
    (.msg s!"walk name count {m.names.length} exceeds max {maxWalkElements}")
  wrapOn "encode twalk fid" (w.uint32 m.fid)
  wrapOn "encode twalk newfid" (w.uint32 m.newFid)
  wrapOn "encode twalk nwname" (w.uint16 (UInt16.ofNat m.names.length))
  listOn (fun i name => wrapOn s!"encode twalk name[{i}]" (w.string name)) 0 m.names

def Rwalk.encodeOn (w : Sink σ) (m : Rwalk) : On σ Unit := do
  failOn (m.qids.length > maxWalkElements) (.msg s!"walk qid count {m.qids.length} exceeds max {maxWalkElements}")
  wrapOn "encode rwalk nwqid" (w.uint16 (UInt16.ofNat m.qids.length))
  listOn (fun i qid => wrapOn s!"encode rwalk qid[{i}]" (w.qid qid)) 0 m.qids

def Tread.encodeOn (w : Sink σ) (m : Tread) : On σ Unit := fieldsOn w [
  ("encode tread fid", .u32 m.fid), ("encode tread offset", .u64 m.offset), ("encode tread count", .u32 m.count)]

def Rread.encodeFixedOn (w : Sink σ) (m : Rread) : On σ Unit := do
  failOn (m.data.length > maxDataSize)
    (.msg s!"encode rread count {m.data.length} exceeds maximum {maxDataSize}")
  w.uint32 (UInt32.ofNat m.data.length)

def Rread.encodeOn (w : Sink σ) (m : Rread) : On σ Unit := do
  m.encodeFixedOn w
  payloadOn w "encode rread data" m.data

def Twrite.encodeFixedOn (w : Sink σ) (m : Twrite) : On σ Unit := do
  failOn (m.data.length > maxDataSize)
    (.msg s!"encode twrite count {m.data.length} exceeds maximum {maxDataSize}")
  wrapOn "encode twrite fid" (w.uint32 m.fid)
  wrapOn "encode twrite offset" (w.uint64 m.offset)
  wrapOn "encode twrite count" (w.uint32 (UInt32.ofNat m.data.length))

def Twrite.encodeOn (w : Sink σ) (m : Twrite) : On σ Unit := do
  m.encodeFixedOn w
  payloadOn w "encode twrite data" m.data

def Rwrite.encodeOn (w : Sink σ) (m : Rwrite) : On σ Unit := fieldsOn w [("encode rwrite count", .u32 m.count)]

def Tclunk.encodeOn (w : Sink σ) (m : Tclunk) : On σ Unit := fieldsOn w [("encode tclunk fid", .u32 m.fid)]

def Rclunk.encodeOn (_ : Sink σ) (_ : Rclunk) : On σ Unit := pure ()

def Tremove.encodeOn (w : Sink σ) (m : Tremove) : On σ Unit := fieldsOn w [("encode tremove fid", .u32 m.fid)]

def Rremove.encodeOn (_ : Sink σ) (_ : Rremove) : On σ Unit := pure ()

/-- `EncodeTo` on any writer. -/
def BaseMessage.encodeOn (w : Sink σ) : BaseMessage → On σ Unit
  | .tversion m | .rversion m | .tauth m | .rauth m | .tattach m | .rattach m | .tflush m | .rflush m | .twalk m
  | .rwalk m | .tread m | .rread m | .twrite m | .rwrite m | .tclunk m | .rclunk m | .tremove m
  | .rremove m => m.encodeOn w

end Encoders

section Related

variable {σ τ : Type} {R : σ → τ → Prop} {v : Sink σ} {w : Sink τ}

theorem payloadOn_sim (h : Like R v w) (ctx : String) (data : Bytes) :
    Sim R (payloadOn v ctx data) (payloadOn w ctx data) := by
  unfold payloadOn
  split
  · exact .wrap _ (h.write data)
  · exact .pure ()

theorem Rread.encodeFixedOn_sim (h : Like R v w) (m : Rread) : Sim R (m.encodeFixedOn v) (m.encodeFixedOn w) :=
  (Sim.fail _ _).seq <| h.uint32 _

theorem Twrite.encodeFixedOn_sim (h : Like R v w) (m : Twrite) : Sim R (m.encodeFixedOn v) (m.encodeFixedOn w) :=
  (Sim.fail _ _).seq <| (h.field _ (.u32 m.fid)).seq <| (h.field _ (.u64 m.offset)).seq <| h.field _ (.u32 _)

theorem BaseMessage.encodeOn_sim (h : Like R v w) (m : BaseMessage) : Sim R (m.encodeOn v) (m.encodeOn w) := by
  cases m with
  | twalk m =>
    exact (Sim.fail _ _).seq <| (h.field _ (.u32 m.fid)).seq <| (h.field _ (.u32 m.newFid)).seq <|
      (h.field _ (.u16 _)).seq <| Sim.list (fun _ x => h.field _ (.str x)) _ _
  | rwalk m => exact (Sim.fail _ _).seq <| (h.field _ (.u16 _)).seq <| Sim.list (fun _ x => h.field _ (.qid x)) _ _
  | rread m | twrite m => exact (m.encodeFixedOn_sim h).seq <| payloadOn_sim h _ _
  | rflush m | rclunk m | rremove m => exact Sim.pure ()
  | _ => exact h.fields _

theorem BaseMessage.encodeOn_plain (m : BaseMessage) : m.encodeOn plain = m.encodeTo := by
  cases m with
  | twalk m | rwalk m =>
    simp only [BaseMessage.encodeOn, Twalk.encodeOn, Rwalk.encodeOn, wrapOn_eq, listOn_eq]
    rfl
  | rread m | twrite m =>
    simp only [BaseMessage.encodeOn, Rread.encodeOn, Twrite.encodeOn, Rread.encodeFixedOn, Twrite.encodeFixedOn, payloadOn,
      wrapOn_eq]
    rfl
  | rflush m | rclunk m | rremove m => rfl
  | _ =>
    show fieldsOn plain _ = _
    simp only [fieldsOn, Sink.put, wrapOn_eq]
    rfl

end Related

end NineP.Proto

namespace NineP.P9l

open Codec Proto Sinks

section Encoders

variable {σ : Type}

def Rlerror.encodeOn (w : Sink σ) (m : Rlerror) : On σ Unit := fieldsOn w [("encode rlerror ecode", .u32 m.ecode)]

def Tstatfs.encodeOn (w : Sink σ) (m : Tstatfs) : On σ Unit := fieldsOn w [("encode tstatfs fid", .u32 m.fid)]

def Rstatfs.encodeOn (w : Sink σ) (m : Rstatfs) : On σ Unit := fieldsOn w [
  ("encode rstatfs type", .u32 m.stat.type), ("encode rstatfs bsize", .u32 m.stat.bSize),
  ("encode rstatfs blocks", .u64 m.stat.blocks), ("encode rstatfs bfree", .u64 m.stat.bFree),
  ("encode rstatfs bavail", .u64 m.stat.bAvail), ("encode rstatfs files", .u64 m.stat.files),
  ("encode rstatfs ffree", .u64 m.stat.fFree), ("encode rstatfs fsid", .u64 m.stat.fsid),
  ("encode rstatfs namelen", .u32 m.stat.nameLen)]

def Tlopen.encodeOn (w : Sink σ) (m : Tlopen) : On σ Unit := fieldsOn w [
  ("encode tlopen fid", .u32 m.fid), ("encode tlopen flags", .u32 m.flags)]

def Rlopen.encodeOn (w : Sink σ) (m : Rlopen) : On σ Unit := fieldsOn w [
  ("encode rlopen qid", .qid m.qid), ("encode rlopen iounit", .u32 m.ioUnit)]

def Tlcreate.encodeOn (w : Sink σ) (m : Tlcreate) : On σ Unit := fieldsOn w [
  ("encode tlcreate fid", .u32 m.fid), ("encode tlcreate name", .str m.name), ("encode tlcreate flags", .u32 m.flags),
  ("encode tlcreate mode", .u32 m.mode), ("encode tlcreate gid", .u32 m.gid)]

def Rlcreate.encodeOn (w : Sink σ) (m : Rlcreate) : On σ Unit := fieldsOn w [
  ("encode rlcreate qid", .qid m.qid), ("encode rlcreate iounit", .u32 m.ioUnit)]

def Tsymlink.encodeOn (w : Sink σ) (m : Tsymlink) : On σ Unit := fieldsOn w [
  ("encode tsymlink dirfid", .u32 m.dirFid), ("encode tsymlink name", .str m.name),
  ("encode tsymlink target", .str m.target), ("encode tsymlink gid", .u32 m.gid)]

def Rsymlink.encodeOn (w : Sink σ) (m : Rsymlink) : On σ Unit := fieldsOn w [("encode rsymlink qid", .qid m.qid)]

def Tmknod.encodeOn (w : Sink σ) (m : Tmknod) : On σ Unit := fieldsOn w [
  ("encode tmknod dirfid", .u32 m.dirFid), ("encode tmknod name", .str m.name), ("encode tmknod mode", .u32 m.mode),
  ("encode tmknod major", .u32 m.major), ("encode tmknod minor", .u32 m.minor), ("encode tmknod gid", .u32 m.gid)]

def Rmknod.encodeOn (w : Sink σ) (m : Rmknod) : On σ Unit := fieldsOn w [("encode rmknod qid", .qid m.qid)]

def Trename.encodeOn (w : Sink σ) (m : Trename) : On σ Unit := fieldsOn w [
  ("encode trename fid", .u32 m.fid), ("encode trename dirfid", .u32 m.dirFid), ("encode trename name", .str m.name)]

def Rrename.encodeOn (_ : Sink σ) (_ : Rrename) : On σ Unit := pure ()

def Treadlink.encodeOn (w : Sink σ) (m : Treadlink) : On σ Unit := fieldsOn w [("encode treadlink fid", .u32 m.fid)]

def Rreadlink.encodeOn (w : Sink σ) (m : Rreadlink) : On σ Unit := fieldsOn w [
  ("encode rreadlink target", .str m.target)]

def Tgetattr.encodeOn (w : Sink σ) (m : Tgetattr) : On σ Unit := fieldsOn w [
  ("encode tgetattr fid", .u32 m.fid), ("encode tgetattr request_mask", .u64 m.requestMask)]

def Rgetattr.encodeOn (w : Sink σ) (m : Rgetattr) : On σ Unit := fieldsOn w [
  ("encode rgetattr valid", .u64 m.attr.valid), ("encode rgetattr qid", .qid m.attr.qid),
  ("encode rgetattr mode", .u32 m.attr.mode), ("encode rgetattr uid", .u32 m.attr.uid),
  ("encode rgetattr gid", .u32 m.attr.gid), ("encode rgetattr nlink", .u64 m.attr.nLink),
  ("encode rgetattr rdev", .u64 m.attr.rDev), ("encode rgetattr size", .u64 m.attr.size),
  ("encode rgetattr blksize", .u64 m.attr.blkSize), ("encode rgetattr blocks", .u64 m.attr.blocks),
  ("encode rgetattr atime_sec", .u64 m.attr.aTimeSec), ("encode rgetattr atime_nsec", .u64 m.attr.aTimeNSec),
  ("encode rgetattr mtime_sec", .u64 m.attr.mTimeSec), ("encode rgetattr mtime_nsec", .u64 m.attr.mTimeNSec),
  ("encode rgetattr ctime_sec", .u64 m.attr.cTimeSec), ("encode rgetattr ctime_nsec", .u64 m.attr.cTimeNSec),
  ("encode rgetattr btime_sec", .u64 m.attr.bTimeSec), ("encode rgetattr btime_nsec", .u64 m.attr.bTimeNSec),
  ("encode rgetattr gen", .u64 m.attr.gen), ("encode rgetattr data_version", .u64 m.attr.dataVersion)]

def Tsetattr.encodeOn (w : Sink σ) (m : Tsetattr) : On σ Unit := fieldsOn w [
  ("encode tsetattr fid", .u32 m.fid), ("encode tsetattr valid", .u32 m.attr.valid),
  ("encode tsetattr mode", .u32 m.attr.mode), ("encode tsetattr uid", .u32 m.attr.uid),
  ("encode tsetattr gid", .u32 m.attr.gid), ("encode tsetattr size", .u64 m.attr.size),
  ("encode tsetattr atime_sec", .u64 m.attr.aTimeSec), ("encode tsetattr atime_nsec", .u64 m.attr.aTimeNSec),
  ("encode tsetattr mtime_sec", .u64 m.attr.mTimeSec), ("encode tsetattr mtime_nsec", .u64 m.attr.mTimeNSec)]

def Rsetattr.encodeOn (_ : Sink σ) (_ : Rsetattr) : On σ Unit := pure ()

def Txattrwalk.encodeOn (w : Sink σ) (m : Txattrwalk) : On σ Unit := fieldsOn w [
  ("encode txattrwalk fid", .u32 m.fid), ("encode txattrwalk newfid", .u32 m.newFid),
  ("encode txattrwalk name", .str m.name)]

def Rxattrwalk.encodeOn (w : Sink σ) (m : Rxattrwalk) : On σ Unit := fieldsOn w [
  ("encode rxattrwalk size", .u64 m.size)]

def Txattrcreate.encodeOn (w : Sink σ) (m : Txattrcreate) : On σ Unit := fieldsOn w [
  ("encode txattrcreate fid", .u32 m.fid), ("encode txattrcreate name", .str m.name),
  ("encode txattrcreate attr_size", .u64 m.attrSize), ("encode txattrcreate flags", .u32 m.flags)]

def Rxattrcreate.encodeOn (_ : Sink σ) (_ : Rxattrcreate) : On σ Unit := pure ()

def Treaddir.encodeOn (w : Sink σ) (m : Treaddir) : On σ Unit := fieldsOn w [
  ("encode treaddir fid", .u32 m.fid), ("encode treaddir offset", .u64 m.offset),
  ("encode treaddir count", .u32 m.count)]

def Rreaddir.encodeFixedOn (w : Sink σ) (m : Rreaddir) : On σ Unit := do
  failOn (m.data.length > maxDataSize)
    (.msg s!"encode rreaddir count {m.data.length} exceeds maximum {maxDataSize}")
  w.uint32 (UInt32.ofNat m.data.length)

def Rreaddir.encodeOn (w : Sink σ) (m : Rreaddir) : On σ Unit := do
  m.encodeFixedOn w
  payloadOn w "encode rreaddir data" m.data

def Tfsync.encodeOn (w : Sink σ) (m : Tfsync) : On σ Unit := fieldsOn w [
  ("encode tfsync fid", .u32 m.fid), ("encode tfsync datasync", .u32 m.dataSync)]

def Rfsync.encodeOn (_ : Sink σ) (_ : Rfsync) : On σ Unit := pure ()

def Tlock.encodeOn (w : Sink σ) (m : Tlock) : On σ Unit := fieldsOn w [
  ("encode tlock fid", .u32 m.fid), ("encode tlock type", .u8 m.lockType), ("encode tlock flags", .u32 m.flags),
  ("encode tlock start", .u64 m.start), ("encode tlock length", .u64 m.length),
  ("encode tlock proc_id", .u32 m.procID), ("encode tlock client_id", .str m.clientID)]

def Rlock.encodeOn (w : Sink σ) (m : Rlock) : On σ Unit := fieldsOn w [("encode rlock status", .u8 m.status)]

def Tgetlock.encodeOn (w : Sink σ) (m : Tgetlock) : On σ Unit := fieldsOn w [
  ("encode tgetlock fid", .u32 m.fid), ("encode tgetlock type", .u8 m.lockType),
  ("encode tgetlock start", .u64 m.start), ("encode tgetlock length", .u64 m.length),
  ("encode tgetlock proc_id", .u32 m.procID), ("encode tgetlock client_id", .str m.clientID)]

def Rgetlock.encodeOn (w : Sink σ) (m : Rgetlock) : On σ Unit := fieldsOn w [
  ("encode rgetlock type", .u8 m.lockType), ("encode rgetlock start", .u64 m.start),
  ("encode rgetlock length", .u64 m.length), ("encode rgetlock proc_id", .u32 m.procID),
  ("encode rgetlock client_id", .str m.clientID)]

def Tlink.encodeOn (w : Sink σ) (m : Tlink) : On σ Unit := fieldsOn w [
  ("encode tlink dirfid", .u32 m.dirFid), ("encode tlink fid", .u32 m.fid), ("encode tlink name", .str m.name)]

def Rlink.encodeOn (_ : Sink σ) (_ : Rlink) : On σ Unit := pure ()

def Tmkdir.encodeOn (w : Sink σ) (m : Tmkdir) : On σ Unit := fieldsOn w [
  ("encode tmkdir dirfid", .u32 m.dirFid), ("encode tmkdir name", .str m.name), ("encode tmkdir mode", .u32 m.mode),
  ("encode tmkdir gid", .u32 m.gid)]

def Rmkdir.encodeOn (w : Sink σ) (m : Rmkdir) : On σ Unit := fieldsOn w [("encode rmkdir qid", .qid m.qid)]

def Trenameat.encodeOn (w : Sink σ) (m : Trenameat) : On σ Unit := fieldsOn w [
  ("encode trenameat olddirfid", .u32 m.oldDirFid), ("encode trenameat oldname", .str m.oldName),
  ("encode trenameat newdirfid", .u32 m.newDirFid), ("encode trenameat newname", .str m.newName)]

def Rrenameat.encodeOn (_ : Sink σ) (_ : Rrenameat) : On σ Unit := pure ()

def Tunlinkat.encodeOn (w : Sink σ) (m : Tunlinkat) : On σ Unit := fieldsOn w [
  ("encode tunlinkat dirfid", .u32 m.dirFid), ("encode tunlinkat name", .str m.name),
  ("encode tunlinkat flags", .u32 m.flags)]

def Runlinkat.encodeOn (_ : Sink σ) (_ : Runlinkat) : On σ Unit := pure ()

/-- `EncodeTo` on any writer. -/
def Msg.encodeOn (w : Sink σ) : Msg → On σ Unit
  | .rlerror m | .tstatfs m | .rstatfs m | .tlopen m | .rlopen m | .tlcreate m | .rlcreate m | .tsymlink m | .rsymlink m
  | .tmknod m | .rmknod m | .trename m | .rrename m | .treadlink m | .rreadlink m | .tgetattr m | .rgetattr m
  | .tsetattr m | .rsetattr m | .txattrwalk m | .rxattrwalk m | .txattrcreate m | .rxattrcreate m | .treaddir m
  | .rreaddir m | .tfsync m | .rfsync m | .tlock m | .rlock m | .tgetlock m | .rgetlock m | .tlink m | .rlink m
  | .tmkdir m | .rmkdir m | .trenameat m | .rrenameat m | .tunlinkat m | .runlinkat m | .base m => m.encodeOn w

end Encoders

section Related

variable {σ τ : Type} {R : σ → τ → Prop} {v : Sink σ} {w : Sink τ}

theorem Rreaddir.encodeFixedOn_sim (h : Like R v w) (m : Rreaddir) : Sim R (m.encodeFixedOn v) (m.encodeFixedOn w) :=
  (Sim.fail _ _).seq <| h.uint32 _

theorem Msg.encodeOn_sim (h : Like R v w) (m : Msg) : Sim R (m.encodeOn v) (m.encodeOn w) := by
  cases m with
  | rreaddir m => exact (m.encodeFixedOn_sim h).seq <| payloadOn_sim h _ _
  | rrename m | rsetattr m | rxattrcreate m | rfsync m | rlink m | rrenameat m | runlinkat m => exact Sim.pure ()
  | base m => exact m.encodeOn_sim h
  | _ => exact h.fields _

theorem Msg.encodeOn_plain (m : Msg) : m.encodeOn plain = m.encodeTo := by
  cases m with
  | rreaddir m =>
    simp only [Msg.encodeOn, Rreaddir.encodeOn, Rreaddir.encodeFixedOn, payloadOn, wrapOn_eq]
    rfl
  | rrename m | rsetattr m | rxattrcreate m | rfsync m | rlink m | rrenameat m | runlinkat m => rfl
  | base m => exact m.encodeOn_plain
  | _ =>
    show fieldsOn plain _ = _
    simp only [fieldsOn, Sink.put, wrapOn_eq]
    rfl

end Related

end NineP.P9l

namespace NineP.P9u

open Codec Proto Sinks

section Encoders

variable {σ : Type}

def Rerror.encodeOn (w : Sink σ) (m : Rerror) : On σ Unit := fieldsOn w [
  ("encode rerror ename", .str m.ename), ("encode rerror errno", .u32 m.errno)]

def Topen.encodeOn (w : Sink σ) (m : Topen) : On σ Unit := fieldsOn w [
  ("encode topen fid", .u32 m.fid), ("encode topen mode", .u8 m.mode)]

def Ropen.encodeOn (w : Sink σ) (m : Ropen) : On σ Unit := fieldsOn w [
  ("encode ropen qid", .qid m.qid), ("encode ropen iounit", .u32 m.ioUnit)]

def Tcreate.encodeOn (w : Sink σ) (m : Tcreate) : On σ Unit := fieldsOn w [
  ("encode tcreate fid", .u32 m.fid), ("encode tcreate name", .str m.name), ("encode tcreate perm", .u32 m.perm),
  ("encode tcreate mode", .u8 m.mode), ("encode tcreate extension", .str m.extension)]

def Rcreate.encodeOn (w : Sink σ) (m : Rcreate) : On σ Unit := fieldsOn w [
  ("encode rcreate qid", .qid m.qid), ("encode rcreate iounit", .u32 m.ioUnit)]

def Stat.encodeFieldsOn (w : Sink σ) (s : Stat) : On σ Unit := fieldsOn w [
  ("encode stat type", .u16 s.type), ("encode stat dev", .u32 s.dev), ("encode stat qid", .qid s.qid),
  ("encode stat mode", .u32 s.mode), ("encode stat atime", .u32 s.atime), ("encode stat mtime", .u32 s.mtime),
  ("encode stat length", .u64 s.length), ("encode stat name", .str s.name), ("encode stat uid", .str s.uid),
  ("encode stat gid", .str s.gid), ("encode stat muid", .str s.muid), ("encode stat extension", .str s.extension),
  ("encode stat n_uid", .u32 s.nUid), ("encode stat n_gid", .u32 s.nGid), ("encode stat n_muid", .u32 s.nMuid)]

def Stat.encodeOn (w : Sink σ) (s : Stat) : On σ Unit := do
  let encodedSize ← wrapOn "encode stat" (resultOn s.encodedSize)
  wrapOn "encode stat size" (w.uint16 encodedSize)
  s.encodeFieldsOn w

def Tstat.encodeOn (w : Sink σ) (m : Tstat) : On σ Unit := fieldsOn w [("encode tstat fid", .u32 m.fid)]

def Rstat.encodeOn (w : Sink σ) (m : Rstat) : On σ Unit := do
  let encodedSize ← wrapOn "encode rstat" (resultOn m.stat.encodedSize)
  let nstat := 2 + encodedSize
  wrapOn "encode rstat nstat" (w.uint16 nstat)
  wrapOn "encode rstat stat" (m.stat.encodeOn w)

def Twstat.encodeOn (w : Sink σ) (m : Twstat) : On σ Unit := do
  wrapOn "encode twstat fid" (w.uint32 m.fid)
  let encodedSize ← wrapOn "encode twstat" (resultOn m.stat.encodedSize)
  let nstat := 2 + encodedSize
  wrapOn "encode twstat nstat" (w.uint16 nstat)
  wrapOn "encode twstat stat" (m.stat.encodeOn w)

def Rwstat.encodeOn (_ : Sink σ) (_ : Rwstat) : On σ Unit := pure ()

/-- `EncodeTo` on any writer. -/
def Msg.encodeOn (w : Sink σ) : Msg → On σ Unit
  | .rerror m | .topen m | .ropen m | .tcreate m | .rcreate m | .tstat m | .rstat m | .twstat m | .rwstat m
  | .base m => m.encodeOn w

end Encoders

section Related

variable {σ τ : Type} {R : σ → τ → Prop} {v : Sink σ} {w : Sink τ}

theorem Stat.encodeOn_sim (h : Like R v w) (s : Stat) : Sim R (s.encodeOn v) (s.encodeOn w) :=
  .bind (.wrap _ (.result _)) fun n => (h.field _ (.u16 n)).seq <| h.fields _

theorem Msg.encodeOn_sim (h : Like R v w) (m : Msg) : Sim R (m.encodeOn v) (m.encodeOn w) := by
  cases m with
  | rstat m => exact .bind (.wrap _ (.result _)) fun n => (h.field _ (.u16 (2 + n))).seq <| Sim.wrap _ (m.stat.encodeOn_sim h)
  | twstat m =>
    exact (h.field _ (.u32 m.fid)).seq <| .bind (.wrap _ (.result _)) fun n => (h.field _ (.u16 (2 + n))).seq <|
      Sim.wrap _ (m.stat.encodeOn_sim h)
  | rwstat m => exact Sim.pure ()
  | base m => exact m.encodeOn_sim h
  | _ => exact h.fields _

theorem Msg.encodeOn_plain (m : Msg) : m.encodeOn plain = m.encodeTo := by
  cases m <;>
    simp only [Msg.encodeOn, Rerror.encodeOn, Topen.encodeOn, Ropen.encodeOn, Tcreate.encodeOn, Rcreate.encodeOn,
      Tstat.encodeOn, Rstat.encodeOn, Twstat.encodeOn, Stat.encodeFieldsOn, Stat.encodeOn, fieldsOn, Sink.put, wrapOn_eq,
      BaseMessage.encodeOn_plain] <;>
    rfl

end Related

end NineP.P9u
