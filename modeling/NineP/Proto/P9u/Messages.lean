import NineP.Proto.Messages

/-!
# The 9P2000.u messages

The structs of `proto/p9u/messages.go` with their `EncodeTo` and `DecodeFrom`; `X.codec` for each message `X`.
`Rstat` and `Twstat` nest a stat behind two length words: `Stat.codec` and `nstat_codec` are about those.
-/

namespace NineP.P9u

open Codec Proto

structure Rerror where
  ename : Bytes
  errno : Errno
  deriving DecidableEq, Inhabited

def Rerror.encodeTo (m : Rerror) : Writer Unit := do
  wrap "encode rerror ename" (writeString m.ename)
  wrap "encode rerror errno" (writeUint32 m.errno)

def Rerror.decodeFrom : Reader Rerror := do
  let ename ← wrap "decode rerror ename" readString
  let errno ← wrap "decode rerror errno" readUint32
  return { ename, errno }

theorem Rerror.codec : CodecOn maxBody Any Rerror.encodeTo Rerror.decodeFrom :=
  .mono (by decide) <|
  .fieldW string_codec fun _ =>
  .lastW uint32_codec

structure Topen where
  fid : Fid
  mode : UInt8
  deriving DecidableEq, Inhabited

def Topen.encodeTo (m : Topen) : Writer Unit := do
  wrap "encode topen fid" (writeFid m.fid)
  wrap "encode topen mode" (writeUint8 m.mode)

def Topen.decodeFrom : Reader Topen := do
  let fid ← wrap "decode topen fid" readFid
  let mode ← wrap "decode topen mode" readUint8
  return { fid, mode }

theorem Topen.codec : CodecOn maxBody Any Topen.encodeTo Topen.decodeFrom :=
  .mono (by decide) <|
  .fieldW fid_codec fun _ =>
  .lastW uint8_codec

/-- Ropen is the server's response to Topen, providing the file's QID and I/O unit size. -/
structure Ropen where
  qid : QID
  ioUnit : UInt32
  deriving DecidableEq, Inhabited

def Ropen.encodeTo (m : Ropen) : Writer Unit := do
  wrap "encode ropen qid" (writeQID m.qid)
  wrap "encode ropen iounit" (writeUint32 m.ioUnit)

def Ropen.decodeFrom : Reader Ropen := do
  let qid ← wrap "decode ropen qid" readQID
  let ioUnit ← wrap "decode ropen iounit" readUint32
  return { qid, ioUnit }

theorem Ropen.codec : CodecOn maxBody Any Ropen.encodeTo Ropen.decodeFrom :=
  .mono (by decide) <|
  .fieldW qid_codec fun _ =>
  .lastW uint32_codec

structure Tcreate where
  fid : Fid
  name : Bytes
  perm : FileMode
  mode : UInt8
  extension : Bytes
  deriving DecidableEq, Inhabited

def Tcreate.encodeTo (m : Tcreate) : Writer Unit := do
  wrap "encode tcreate fid" (writeFid m.fid)
  wrap "encode tcreate name" (writeString m.name)
  wrap "encode tcreate perm" (writeUint32 m.perm)
  wrap "encode tcreate mode" (writeUint8 m.mode)
  wrap "encode tcreate extension" (writeString m.extension)

def Tcreate.decodeFrom : Reader Tcreate := do
  let fid ← wrap "decode tcreate fid" readFid
  let name ← wrap "decode tcreate name" readString
  let perm ← wrap "decode tcreate perm" readUint32
  let mode ← wrap "decode tcreate mode" readUint8
  let extension ← wrap "decode tcreate extension" readString
  return { fid, name, perm, mode, extension }

theorem Tcreate.codec : CodecOn maxBody Any Tcreate.encodeTo Tcreate.decodeFrom :=
  .mono (by decide) <|
  .fieldW fid_codec fun _ =>
  .fieldW string_codec fun _ =>
  .fieldW uint32_codec fun _ =>
  .fieldW uint8_codec fun _ =>
  .lastW string_codec

/-- Rcreate is the server's response to Tcreate, providing the new file's QID and I/O unit size. -/
structure Rcreate where
  qid : QID
  ioUnit : UInt32
  deriving DecidableEq, Inhabited

def Rcreate.encodeTo (m : Rcreate) : Writer Unit := do
  wrap "encode rcreate qid" (writeQID m.qid)
  wrap "encode rcreate iounit" (writeUint32 m.ioUnit)

def Rcreate.decodeFrom : Reader Rcreate := do
  let qid ← wrap "decode rcreate qid" readQID
  let ioUnit ← wrap "decode rcreate iounit" readUint32
  return { qid, ioUnit }

theorem Rcreate.codec : CodecOn maxBody Any Rcreate.encodeTo Rcreate.decodeFrom :=
  .mono (by decide) <|
  .fieldW qid_codec fun _ =>
  .lastW uint32_codec

/-- Stat is the 9P2000.u stat structure. `size` is what `DecodeFrom` found on the wire; `EncodeTo` recomputes it. -/
structure Stat where
  size : UInt16
  type : UInt16
  dev : UInt32
  qid : QID
  mode : FileMode
  atime : UInt32
  mtime : UInt32
  length : UInt64
  name : Bytes
  uid : Bytes
  gid : Bytes
  muid : Bytes
  extension : Bytes
  nUid : UInt32
  nGid : UInt32
  nMuid : UInt32
  deriving DecidableEq, Inhabited

/-- `EncodedSize`: the arithmetic is that of `uint32`, the result must fit `uint16`. -/
def Stat.encodedSize (s : Stat) : Except Err UInt16 :=
  let size : UInt32 := 39
  let size := size + (2 + UInt32.ofNat s.name.length)
  let size := size + (2 + UInt32.ofNat s.uid.length)
  let size := size + (2 + UInt32.ofNat s.gid.length)
  let size := size + (2 + UInt32.ofNat s.muid.length)
  let size := size + (2 + UInt32.ofNat s.extension.length)
  let size := size + 12
  if size > 65535 then .error (.msg s!"stat encoded size {size} exceeds uint16 max")
  else .ok size.toUInt16

/-- The part of `Stat.EncodeTo` behind the size. -/
def Stat.encodeFields (s : Stat) : Writer Unit := do
  wrap "encode stat type" (writeUint16 s.type)
  wrap "encode stat dev" (writeUint32 s.dev)
  wrap "encode stat qid" (writeQID s.qid)
  wrap "encode stat mode" (writeUint32 s.mode)
  wrap "encode stat atime" (writeUint32 s.atime)
  wrap "encode stat mtime" (writeUint32 s.mtime)
  wrap "encode stat length" (writeUint64 s.length)
  wrap "encode stat name" (writeString s.name)
  wrap "encode stat uid" (writeString s.uid)
  wrap "encode stat gid" (writeString s.gid)
  wrap "encode stat muid" (writeString s.muid)
  wrap "encode stat extension" (writeString s.extension)
  wrap "encode stat n_uid" (writeUint32 s.nUid)
  wrap "encode stat n_gid" (writeUint32 s.nGid)
  wrap "encode stat n_muid" (writeUint32 s.nMuid)

def Stat.encodeTo (s : Stat) : Writer Unit := do
  let encodedSize ← wrap "encode stat" (result s.encodedSize)
  wrap "encode stat size" (writeUint16 encodedSize)
  s.encodeFields

/-- The part of `Stat.DecodeFrom` read through the `LimitedReader`. -/
def Stat.decodeFields (size : UInt16) : Reader Stat := do
  let type ← wrap "decode stat type" readUint16
  let dev ← wrap "decode stat dev" readUint32
  let qid ← wrap "decode stat qid" readQID
  let mode ← wrap "decode stat mode" readUint32
  let atime ← wrap "decode stat atime" readUint32
  let mtime ← wrap "decode stat mtime" readUint32
  let length ← wrap "decode stat length" readUint64
  let name ← wrap "decode stat name" readString
  let uid ← wrap "decode stat uid" readString
  let gid ← wrap "decode stat gid" readString
  let muid ← wrap "decode stat muid" readString
  let extension ← wrap "decode stat extension" readString
  let nUid ← wrap "decode stat n_uid" readUint32
  let nGid ← wrap "decode stat n_gid" readUint32
  let nMuid ← wrap "decode stat n_muid" readUint32
  return { size, type, dev, qid, mode, atime, mtime, length, name, uid, gid, muid, extension, nUid, nGid,
           nMuid }

def Stat.decodeFrom : Reader Stat := do
  let size ← wrap "decode stat size" readUint16
  let r ← limited size.toNat (Stat.decodeFields size)
  failIf (r.2 ≠ 0) (.msg s!"decode stat: declared size {size} exceeds encoded body by {r.2} bytes")
  return r.1

/-! ### The stat codec -/

namespace Stat

theorem fields_codec (size : UInt16) :
    CodecOn 400000 (fun s : Stat => s.size = size) encodeFields (decodeFields size) :=
  .mono (by decide) <|
  .fieldW uint16_codec fun _ =>
  .fieldW uint32_codec fun _ =>
  .fieldW qid_codec fun _ =>
  .fieldW uint32_codec fun _ =>
  .fieldW uint32_codec fun _ =>
  .fieldW uint32_codec fun _ =>
  .fieldW uint64_codec fun _ =>
  .fieldW string_codec fun _ =>
  .fieldW string_codec fun _ =>
  .fieldW string_codec fun _ =>
  .fieldW string_codec fun _ =>
  .fieldW string_codec fun _ =>
  .fieldW uint32_codec fun _ =>
  .fieldW uint32_codec fun _ =>
  .lastW uint32_codec fun _ a => by
    cases a; simp only [Stat.mk.injEq]; grind

/-- The size of the encoded fields as a number. -/
def fieldsLen (s : Stat) : Nat :=
  61 + s.name.length + s.uid.length + s.gid.length + s.muid.length + s.extension.length

/-- `EncodeTo` refuses strings that do not fit their length word. -/
def ShortStrings (s : Stat) : Prop :=
  s.name.length ≤ maxStringLen ∧ s.uid.length ≤ maxStringLen ∧ s.gid.length ≤ maxStringLen ∧
    s.muid.length ≤ maxStringLen ∧ s.extension.length ≤ maxStringLen

def fieldBytes (s : Stat) : Bytes :=
  leBytes 2 s.type.toNat ++ (leBytes 4 s.dev.toNat ++ (s.qid.bytes ++ (leBytes 4 s.mode.toNat ++
    (leBytes 4 s.atime.toNat ++ (leBytes 4 s.mtime.toNat ++ (leBytes 8 s.length.toNat ++
    ((leBytes 2 s.name.length ++ s.name) ++ ((leBytes 2 s.uid.length ++ s.uid) ++
    ((leBytes 2 s.gid.length ++ s.gid) ++ ((leBytes 2 s.muid.length ++ s.muid) ++
    ((leBytes 2 s.extension.length ++ s.extension) ++ (leBytes 4 s.nUid.toNat ++
    (leBytes 4 s.nGid.toNat ++ leBytes 4 s.nMuid.toNat)))))))))))))

theorem length_fieldBytes (s : Stat) : s.fieldBytes.length = s.fieldsLen := by
  simp only [fieldBytes, fieldsLen, QID.bytes, List.length_append, length_leBytes]
  omega

theorem encodeFields_writes (s : Stat) : Writes s.ShortStrings s.fieldBytes s.encodeFields := by
  have word : ∀ {k v : Nat} {c : String}, Writes True (leBytes k v) (wrap c (put (leBytes k v)) : Writer Unit) :=
    fun {_ _ _} => (Writes.put _).wrap _
  have str : ∀ (t : Bytes) {c : String},
      Writes (t.length ≤ maxStringLen) (leBytes 2 t.length ++ t) (wrap c (writeString t)) :=
    fun t {_} => (writeString_writes t).wrap _
  have qid : ∀ {c : String}, Writes True s.qid.bytes (wrap c (writeQID s.qid)) :=
    fun {_} => (writeQID_writes s.qid).wrap _
  refine Writes.congr (word.seq <| word.seq <| qid.seq <| word.seq <| word.seq <| word.seq <| word.seq <|
    (str s.name).seq <| (str s.uid).seq <| (str s.gid).seq <| (str s.muid).seq <| (str s.extension).seq <|
    word.seq <| word.seq word) ?_ rfl
  simp only [ShortStrings, true_and, and_true]

variable {s : Stat} {n : UInt16}

/-- Short strings do not wrap the size arithmetic: `EncodedSize` is the length of the fields if that fits. -/
theorem encodedSize_ok_iff (hs : s.ShortStrings) : s.encodedSize = .ok n ↔ s.fieldsLen = n.toNat := by
  obtain ⟨h1, h2, h3, h4, h5⟩ := hs
  have hn := n.toNat_lt
  simp only [maxStringLen] at h1 h2 h3 h4 h5
  unfold encodedSize
  extract_lets z0 z1 z2 z3 z4 z5 z6
  have hz : z6.toNat = s.fieldsLen := by
    simp only [z0, z1, z2, z3, z4, z5, z6, UInt32.toNat_add, UInt32.toNat_ofNat', fieldsLen]
    simp
    omega
  split
  · rename_i hbig
    have hbig : 65535 < z6.toNat := hbig
    simp
    omega
  · rename_i hsmall
    have hsmall : ¬ 65535 < z6.toNat := hsmall
    rw [Except.ok.injEq, ← UInt16.toNat_inj, UInt32.toNat_toUInt16]
    omega

/-- The size field is the one `EncodeTo` writes. -/
def Sized (s : Stat) : Prop := s.encodedSize = .ok s.size

theorem encodeTo_eq (h : s.encodedSize = .ok n) :
    s.encodeTo = (do wrap "encode stat size" (writeUint16 n); s.encodeFields) := by
  funext buf
  unfold encodeTo
  exact bind_of_ok (wrap_ok.2 (result_ok.2 ⟨h, rfl⟩))

theorem encodeTo_writes (h : s.encodedSize = .ok n) :
    Writes s.ShortStrings (leBytes 2 n.toNat ++ s.fieldBytes) s.encodeTo := by
  rw [encodeTo_eq h]
  exact (((Writes.put _).wrap _).seq s.encodeFields_writes).congr (by simp) rfl

theorem writesLe (s : Stat) : WritesLe (2 + 400000) s.encodeTo := by
  intro buf buf' h
  obtain ⟨n, mid, hn, h⟩ := bind_ok.1 h
  obtain ⟨-, rfl⟩ := result_ok.1 (wrap_ok.1 hn)
  exact ((uint16_codec.writesLe trivial).wrap _).seq ((fields_codec s.size).writesLe rfl) _ _ h

theorem codec : CodecOn (2 + 400000) Sized encodeTo decodeFrom := by
  have c : CodecOn (2 + 400000) Sized
      (fun s : Stat => do wrap "encode stat size" (writeUint16 s.size); s.encodeFields) decodeFrom := by
    refine .field _ (uint16_codec.wrap _ _) fun size => ?_
    refine .limited (fun s => s) (fun s => s) (fields_codec size) (fun s (hs : s.Sized ∧ s.size = size) => hs.2) (fun s buf b hs hb => ?_)
      (fun s enc hsize henc hlen => ⟨?_, rfl⟩) fun _ _ => rfl
    · obtain ⟨hshort, hb⟩ := (s.encodeFields_writes _ _).1 hb
      obtain rfl := List.append_cancel_left hb
      rw [length_fieldBytes, (encodedSize_ok_iff hshort).1 hs.1, hs.2]
    · -- the fields fill the declared size, so that size is the one `EncodedSize` computes
      obtain ⟨hshort, rfl⟩ := (s.encodeFields_writes _ _).1 henc
      refine ⟨(encodedSize_ok_iff hshort).2 ?_, hsize⟩
      rw [← length_fieldBytes]
      simpa [hsize] using hlen
  exact c.congrPut fun s hs => encodeTo_eq hs

/-- The size word and the word that counts it both fit: `nstat = 2 + size` does not wrap. -/
def Fits (s : Stat) : Prop := s.Sized ∧ s.size.toNat < 65534

end Stat

/-- **A stat behind its count.**  The last part of `Rstat` and `Twstat`: the count is computed in `uint16`. -/
theorem nstat_codec {α : Type} {S : α → Prop} {ctx₁ ctx₂ ctx₃ ctx₄ ctx₅ : String} {e : UInt16 → Stat × Nat → Err}
    (f : α → Stat) (mk : Stat → α) (hS : ∀ a, S a → (f a).Fits) (hmk : ∀ s : Stat, s.Fits → S (mk s) ∧ f (mk s) = s)
    (hext : ∀ a, S a → a = mk (f a)) :
    CodecOn (2 + (2 + 400000)) S
      (fun a => do
        let encodedSize ← wrap ctx₁ (result (f a).encodedSize)
        let nstat := 2 + encodedSize
        wrap ctx₂ (writeUint16 nstat)
        wrap ctx₃ (f a).encodeTo)
      (do
        let nstat ← wrap ctx₄ readUint16
        let r ← limited nstat.toNat (wrap ctx₅ Stat.decodeFrom)
        failIf (r.2 ≠ 0) (e nstat r)
        return mk r.1) := by
  have hlen : ∀ {s : Stat} {buf b : Bytes}, s.Sized → wrap ctx₃ s.encodeTo buf = .ok ((), buf ++ b) →
      b.length = 2 + s.size.toNat := by
    intro s buf b hs hb
    obtain ⟨hshort, hb⟩ := (Stat.encodeTo_writes hs _ _).1 (wrapErr_ok.1 hb)
    obtain rfl := List.append_cancel_left hb
    rw [List.length_append, length_leBytes, Stat.length_fieldBytes, (Stat.encodedSize_ok_iff hshort).1 hs]
  have hnstat : ∀ {s : Stat}, s.size.toNat < 65534 → (2 + s.size).toNat = 2 + s.size.toNat := by
    intro s hlt
    rw [UInt16.toNat_add]
    show (2 + s.size.toNat) % 65536 = _
    omega
  have c : CodecOn (2 + (2 + 400000)) S
      (fun a => do wrap ctx₂ (writeUint16 (2 + (f a).size)); wrap ctx₃ (f a).encodeTo)
      (do
        let nstat ← wrap ctx₄ readUint16
        let r ← limited nstat.toNat (wrap ctx₅ Stat.decodeFrom)
        failIf (r.2 ≠ 0) (e nstat r)
        return mk r.1) := by
    refine .field (fun a => 2 + (f a).size) (uint16_codec.wrap _ _) fun nstat => ?_
    refine .limited f mk (Stat.codec.wrap _ _) (fun a ha => (hS a ha.1).1) (fun a buf b ha hb => ?_)
      (fun s enc hs henc hk => ?_) fun a ha => hext a ha.1
    · rw [hlen (hS a ha.1).1 hb, ← ha.2, hnstat (hS a ha.1).2]
    · have hsize := hlen hs (henc.trans (by rw [List.nil_append]))
      have hlt := nstat.toNat_lt
      have hfits : s.Fits := ⟨hs, by omega⟩
      obtain ⟨hSm, hf⟩ := hmk s hfits
      refine ⟨⟨hSm, ?_⟩, hf⟩
      rw [hf, ← UInt16.toNat_inj, hnstat hfits.2]
      omega
  refine c.congrPut fun a ha => ?_
  funext buf
  exact bind_of_ok (wrap_ok.2 (result_ok.2 ⟨(hS a ha).1, rfl⟩))

theorem nstat_writesLe (s : Stat) (ctx₁ ctx₂ ctx₃ : String) :
    WritesLe (2 + (2 + 400000)) (do
      let encodedSize ← wrap ctx₁ (result s.encodedSize)
      let nstat := 2 + encodedSize
      wrap ctx₂ (writeUint16 nstat)
      wrap ctx₃ s.encodeTo) := by
  intro buf buf' h
  obtain ⟨n, mid, hn, h⟩ := bind_ok.1 h
  obtain ⟨-, rfl⟩ := result_ok.1 (wrap_ok.1 hn)
  exact ((uint16_codec.writesLe trivial).wrap _).seq (s.writesLe.wrap _) _ _ h

structure Tstat where
  fid : Fid
  deriving DecidableEq, Inhabited

def Tstat.encodeTo (m : Tstat) : Writer Unit := do
  wrap "encode tstat fid" (writeFid m.fid)

def Tstat.decodeFrom : Reader Tstat := do
  let fid ← wrap "decode tstat fid" readFid
  return { fid }

theorem Tstat.codec : CodecOn maxBody Any Tstat.encodeTo Tstat.decodeFrom := by
  unfold Tstat.encodeTo
  exact .mono (by decide) (.only _ _ fid_codec fun _ a => by cases a; simp)

structure Rstat where
  stat : Stat
  deriving DecidableEq, Inhabited

def Rstat.encodeTo (m : Rstat) : Writer Unit := do
  let encodedSize ← wrap "encode rstat" (result m.stat.encodedSize)
  let nstat := 2 + encodedSize
  wrap "encode rstat nstat" (writeUint16 nstat)
  wrap "encode rstat stat" m.stat.encodeTo

def Rstat.decodeFrom : Reader Rstat := do
  let nstat ← wrap "decode rstat nstat" readUint16
  let r ← limited nstat.toNat (wrap "decode rstat stat" Stat.decodeFrom)
  failIf (r.2 ≠ 0) (.msg s!"decode rstat: nstat {nstat} exceeds stat encoding by {r.2} bytes")
  return { stat := r.1 }

theorem Rstat.encodeTo_writes (h : s.encodedSize = .ok n) :
    Writes s.ShortStrings (leBytes 2 (2 + n).toNat ++ (leBytes 2 n.toNat ++ s.fieldBytes)) (Rstat.encodeTo ⟨s⟩) := by
  have heq : Rstat.encodeTo ⟨s⟩ =
      (do wrap "encode rstat nstat" (writeUint16 (2 + n)); wrap "encode rstat stat" s.encodeTo) := by
    funext buf
    exact bind_of_ok (wrap_ok.2 (result_ok.2 ⟨h, rfl⟩))
  rw [heq]
  exact (((Writes.put _).wrap _).seq ((Stat.encodeTo_writes h).wrap _)).congr (by simp) rfl

theorem Rstat.codec : CodecOn maxBody (fun m => m.stat.Fits) Rstat.encodeTo Rstat.decodeFrom :=
  .mono (show 2 + (2 + 400000) ≤ maxBody by decide) <|
  nstat_codec Rstat.stat Rstat.mk (fun _ h => h) (fun _ h => ⟨h, rfl⟩) fun _ _ => rfl

theorem Rstat.writesLe (m : Rstat) : WritesLe maxBody m.encodeTo :=
  .mono (show 2 + (2 + 400000) ≤ maxBody by decide) (nstat_writesLe m.stat _ _ _)

structure Twstat where
  fid : Fid
  stat : Stat
  deriving DecidableEq, Inhabited

def Twstat.encodeTo (m : Twstat) : Writer Unit := do
  wrap "encode twstat fid" (writeFid m.fid)
  let encodedSize ← wrap "encode twstat" (result m.stat.encodedSize)
  let nstat := 2 + encodedSize
  wrap "encode twstat nstat" (writeUint16 nstat)
  wrap "encode twstat stat" m.stat.encodeTo

def Twstat.decodeFrom : Reader Twstat := do
  let fid ← wrap "decode twstat fid" readFid
  let nstat ← wrap "decode twstat nstat" readUint16
  let r ← limited nstat.toNat (wrap "decode twstat stat" Stat.decodeFrom)
  failIf (r.2 ≠ 0) (.msg s!"decode twstat: nstat {nstat} exceeds stat encoding by {r.2} bytes")
  return { fid, stat := r.1 }

theorem Twstat.codec : CodecOn maxBody (fun m => m.stat.Fits) Twstat.encodeTo Twstat.decodeFrom :=
  .mono (show 4 + (2 + (2 + 400000)) ≤ maxBody by decide) <|
  .field _ (fid_codec.wrap _ _) fun fid =>
  nstat_codec Twstat.stat (Twstat.mk fid) (fun _ h => h.1) (fun _ h => ⟨⟨h, rfl⟩, rfl⟩) fun a h => by
    cases a; simpa using h.2

theorem Twstat.writesLe (m : Twstat) : WritesLe maxBody m.encodeTo :=
  .mono (show 4 + (2 + (2 + 400000)) ≤ maxBody by decide) <|
  ((fid_codec.writesLe trivial).wrap _).seq (nstat_writesLe m.stat _ _ _)

structure Rwstat where
  deriving DecidableEq, Inhabited

def Rwstat.encodeTo (_ : Rwstat) : Writer Unit := pure ()

def Rwstat.decodeFrom : Reader Rwstat := pure {}

theorem Rwstat.codec : CodecOn maxBody Any Rwstat.encodeTo Rwstat.decodeFrom :=
  .mono (by decide) (.empty _ fun _ => by simp [Any])

end NineP.P9u
