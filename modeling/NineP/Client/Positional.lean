import NineP.Client.Listing
import NineP.Client.ZeroCopy
import NineP.Proto.Encoders

/-!
# Positional reads and writes

`File.ReadAt` and `File.WriteAt` (`client/file.go`): the loops over `readAtZeroCopy` and `twrite`, with the frames of
the requests and of the data that comes back.
-/

namespace NineP.Client.Positional

open Codec Proto Slices List
open Transfer (maxChunk)

/-! ## The server -/

/-- A server with one file, as the client sees it. -/
structure Server (σ : Type) where
  file : σ → Bytes
  read : σ → Tread → Bytes × σ
  write : σ → Twrite → UInt32 × σ

/-- Treads are answered with a part of what is there, empty only at the end of the file; of a payload some part is
stored, and said so. -/
structure Server.Honest {σ : Type} (v : Server σ) : Prop where
  read_data : ∀ s m, (v.read s m).1 <+: ((v.file s).drop m.offset.toNat).take m.count.toNat
  read_empty : ∀ s m, (v.read s m).1 = [] → ((v.file s).drop m.offset.toNat).take m.count.toNat = []
  read_file : ∀ s m, v.file (v.read s m).2 = v.file s
  write_count : ∀ s m, (v.write s m).1.toNat ≤ m.data.length
  write_file : ∀ s m,
    v.file (v.write s m).2 = store 0 (v.file s) (m.data.take (v.write s m).1.toNat) m.offset.toNat

/-! ## The client -/

/-- The file at the client, and the tag of its requests. -/
structure File where
  fid : Fid
  iounit : UInt32
  msize : UInt32
  tag : Tag

inductive Failure
  | eof
  | shortWrite
  | negativeOffset
  | conn  -- a request or an answer does not get through
  deriving DecidableEq

def chunkLen (n : Nat) (m : UInt32) : UInt32 := if n > m.toNat then m else UInt32.ofNat n

/-- The outcome of an operation: the count, the error, the buffer, the server and the requests that were sent. -/
structure Result (σ : Type) where
  n : Nat
  err : Option Failure
  p : Bytes
  server : σ
  sent : List BaseMessage

section Loops

variable {σ : Type} (f : File) (v : Server σ)

/-- The frame that answers a Tread, after its size; `none` if it is not sent or is too large for the client. -/
def answer (data : Bytes) : Option Bytes :=
  match encodeFrame f.tag (BaseMessage.rread ⟨data⟩) [] with
  | .error _ => none
  | .ok (_, frame) => if frame.length > f.msize.toNat then none else some (frame.drop 4)

/-- `readAtZeroCopy`: the count, and the destination. -/
def readAtZeroCopy (s : σ) (m : Tread) (dst : Bytes) : Option (Nat × Bytes) × σ :=
  match writeT f.msize f.tag (.l (.base (.tread m))) [] with
  | .error _ => (none, s)
  | .ok _ =>
    let r := v.read s m
    match answer f r.1 with
    | none => (none, r.2)
    | some b =>
      match ZeroCopy.readAtZeroCopy (some dst) .rread b with
      | (.ok n, some dst) => (some (n, dst), r.2)
      | _ => (none, r.2)

/-- The loop of `ReadAtCtx`. -/
def readFrom (off : Nat) : Nat → Bytes → Nat → σ → List BaseMessage → Option (Result σ)
  | 0, _, _, _, _ => none
  | fuel + 1, p, total, s, sent =>
    if total < p.length then
      let count := chunkLen (p.length - total) (maxChunk f.msize f.iounit)
      let chunk := (p.drop total).take count.toNat
      let m : Tread := ⟨f.fid, UInt64.ofNat off + UInt64.ofNat total, count⟩
      match readAtZeroCopy f v s m chunk with
      | (none, s) => some ⟨total, some .conn, p, s, sent ++ [.tread m]⟩
      | (some (n, chunk), s) =>
        let p := splice p chunk total
        if n = 0 then some ⟨total, some .eof, p, s, sent ++ [.tread m]⟩
        else readFrom off fuel p (total + n) s (sent ++ [.tread m])
    else some ⟨total, none, p, s, sent⟩

def readAt (fuel : Nat) (p : Bytes) (off : Int) (s : σ) : Option (Result σ) :=
  if p.length = 0 then some ⟨0, none, p, s, []⟩
  else if off < 0 then some ⟨0, some .negativeOffset, p, s, []⟩
  else readFrom f v off.toNat fuel p 0 s []

/-- `twrite`: a count past the data shuts the connection down. -/
def twrite (s : σ) (m : Twrite) : Option Nat × σ :=
  match writeT f.msize f.tag (.l (.base (.twrite m))) [] with
  | .error _ => (none, s)
  | .ok _ =>
    let r := v.write s m
    if r.1.toNat > m.data.length then (none, r.2) else (some r.1.toNat, r.2)

/-- The loop of `WriteAtCtx`. -/
def writeFrom (off : Nat) (p : Bytes) : Nat → Nat → σ → List BaseMessage → Option (Result σ)
  | 0, _, _, _ => none
  | fuel + 1, total, s, sent =>
    if total < p.length then
      let limit := maxChunk f.msize f.iounit
      let chunk := if (p.drop total).length > limit.toNat then (p.drop total).take limit.toNat else p.drop total
      let m : Twrite := ⟨f.fid, UInt64.ofNat off + UInt64.ofNat total, chunk⟩
      match twrite f v s m with
      | (none, s) => some ⟨total, some .conn, p, s, sent ++ [.twrite m]⟩
      | (some n, s) =>
        if n < chunk.length then some ⟨total + n, some .shortWrite, p, s, sent ++ [.twrite m]⟩
        else writeFrom off p fuel (total + n) s (sent ++ [.twrite m])
    else some ⟨total, none, p, s, sent⟩

def writeAt (fuel : Nat) (p : Bytes) (off : Int) (s : σ) : Option (Result σ) :=
  if p.length = 0 then some ⟨0, none, p, s, []⟩
  else if off < 0 then some ⟨0, some .negativeOffset, p, s, []⟩
  else writeFrom f v off.toNat p fuel 0 s []

end Loops

/-! ## Frames that fit -/

/-- A request is encoded in a frame within the msize, and so is every Rread that may answer it. -/
def Fits (f : File) (m : BaseMessage) : Prop :=
  (∃ frame, encodeFrame f.tag m [] = .ok ((), frame) ∧ frame.length ≤ f.msize.toNat) ∧
    ∀ r, m = .tread r → ∀ data : Bytes, data.length ≤ r.count.toNat →
      ∃ frame, encodeFrame f.tag (BaseMessage.rread ⟨data⟩) [] = .ok ((), frame) ∧ frame.length ≤ f.msize.toNat

section Sizes

variable {f : File} {σ : Type} {v : Server σ}

theorem maxChunk_pos (hmin : 256 ≤ f.msize.toNat) : 0 < (maxChunk f.msize f.iounit).toNat := by
  have hlimit : (f.msize - Transfer.ioFrameOverhead).toNat = f.msize.toNat - 24 :=
    UInt32.toNat_sub_of_le _ _ (UInt32.le_iff_toNat_le.2 (by show 24 ≤ _; omega))
  have hmin' (a b : UInt32) (ha : 0 < a.toNat) (hb : 0 < b.toNat) : 0 < (min a b).toNat := by
    show 0 < (if a ≤ b then a else b).toNat
    split
    · exact ha
    · exact hb
  unfold maxChunk
  refine hmin' _ _ ?_ (by decide)
  split
  · rename_i hiounit
    exact Nat.pos_of_ne_zero fun h => hiounit.1 (UInt32.toNat_inj.1 h)
  · rw [hlimit]
    omega

theorem frame_of_appends (h : Appends n (P9l.Msg.encodeTo (.base m)))
    (hfits : 7 + n ≤ f.msize.toNat) :
    (∃ r, writeT f.msize f.tag (.l (.base m)) [] = .ok r) ∧
      ∃ body, body.length = n ∧ m.encodeTo [] = .ok ((), body) ∧
        encodeFrame f.tag m [] = .ok ((), frameBytes (Message.type m) f.tag body) := by
  obtain ⟨body, rfl, hput⟩ := h
  have henc : (Outgoing.l (.base m)).encodeTo [] = .ok ((), body) := by
    rw [← nil_append body]
    exact hput []
  have hsend := writeT_of_body f.msize f.tag [] henc
  rw [if_neg (Nat.not_lt.2 hfits)] at hsend
  obtain ⟨size, hsize, -⟩ := hsend
  refine ⟨⟨_, hsize⟩, body, rfl, henc, encodeFrame_ok.2 ⟨_, hput zeroHeader, ?_⟩⟩
  rw [putAt_header, nil_append]

variable {data dst : Bytes} {m : Tread}

theorem rread_encodeTo (h : data.length ≤ maxDataSize) :
    (BaseMessage.rread ⟨data⟩).encodeTo [] = .ok ((), leBytes 4 data.length ++ data) := by
  have hcount : (UInt32.ofNat data.length).toNat = data.length :=
    UInt32.toNat_ofNat_of_lt (Nat.lt_of_le_of_lt h (by decide))
  have hpayload : writePayload "encode rread data" data = put data := writePayload_eq_put _ _
  show Rread.encodeTo ⟨data⟩ [] = _
  unfold Rread.encodeTo Rread.encodeFixed
  simp only [bind_assoc]
  refine failIf_bind_ok.2 ⟨Nat.not_lt.2 h, ?_⟩
  rw [hpayload]
  show Except.ok ((), [] ++ leBytes 4 (UInt32.ofNat data.length).toNat ++ data) = _
  rw [hcount]
  rfl

theorem rread_frame (h : data.length ≤ maxDataSize) (hfits : 7 + (4 + data.length) ≤ f.msize.toNat) :
    encodeFrame f.tag (BaseMessage.rread ⟨data⟩) [] =
      .ok ((), frameBytes typeRread f.tag (leBytes 4 data.length ++ data)) := by
  obtain ⟨-, body, -, henc, hframe⟩ := frame_of_appends (P9l.rread_body (m := ⟨data⟩) h) hfits
  obtain ⟨-, rfl⟩ := Prod.mk.inj (Except.ok.inj (henc.symm.trans (rread_encodeTo h)))
  exact hframe

theorem tread_fits (hmin : 256 ≤ f.msize.toNat) (hcount : m.count.toNat ≤ (maxChunk f.msize f.iounit).toNat) :
    Fits f (.tread m) := by
  obtain ⟨hmsize, hmax⟩ := Transfer.maxChunk_le hmin f.iounit
  obtain ⟨-, body, hlen, -, hframe⟩ := frame_of_appends (P9l.tread_body m) (f := f) (by omega)
  refine ⟨⟨_, hframe, by rw [length_frameBytes]; omega⟩, ?_⟩
  intro r hr data hdata
  obtain rfl := BaseMessage.tread.inj hr
  refine ⟨_, rread_frame (by omega) (by omega), ?_⟩
  rw [length_frameBytes, length_append, length_leBytes]
  omega

theorem twrite_fits (hmin : 256 ≤ f.msize.toNat) {m : Twrite} (hlen : m.data.length ≤ (maxChunk f.msize f.iounit).toNat) :
    Fits f (.twrite m) := by
  obtain ⟨hmsize, hmax⟩ := Transfer.maxChunk_le hmin f.iounit
  obtain ⟨-, body, hbody, -, hframe⟩ := frame_of_appends (P9l.twrite_body (m := m) (by omega)) (f := f) (by omega)
  exact ⟨⟨_, hframe, by rw [length_frameBytes]; omega⟩, nofun⟩

/-! ## One exchange -/

theorem zeroCopy_data {tag : Tag} (hmax : data.length ≤ maxDataSize) (hdst : data.length ≤ dst.length)
    (hlen : dst.length < 2 ^ 32) :
    ZeroCopy.readAtZeroCopy (some dst) .rread (typeRread :: (leBytes 2 tag.toNat ++ (leBytes 4 data.length ++ data))) =
      (.ok data.length, some (data ++ dst.drop data.length)) := by
  have hcount : leAt 3 4 (typeRread :: (leBytes 2 tag.toNat ++ (leBytes 4 data.length ++ data))) = data.length :=
    @leAt_leBytes 4 3 _ (typeRread :: leBytes 2 tag.toNat) _ (by simp) (Nat.lt_of_le_of_lt hmax (by decide))
  have hsize : (typeRread :: (leBytes 2 tag.toNat ++ (leBytes 4 data.length ++ data))).length = 7 + data.length := by
    simp only [length_cons, length_append, length_leBytes]
    omega
  have hdata : (typeRread :: (leBytes 2 tag.toNat ++ (leBytes 4 data.length ++ data))).drop 7 = data := by
    rw [← cons_append, ← append_assoc]
    exact drop_left' (by simp)
  unfold ZeroCopy.readAtZeroCopy ZeroCopy.readLoop
  simp only [hcount, hsize, hdata, Nat.mod_eq_of_lt hlen]
  rw [if_neg (by omega), if_neg (by omega), if_neg (by omega), if_neg (by omega)]
  simp [splice]

/-- `readAtZeroCopy` puts what the server returns in front of the destination. -/
theorem readAtZeroCopy_ok (hmin : 256 ≤ f.msize.toNat) (hv : v.Honest)
    (hcount : m.count.toNat ≤ (maxChunk f.msize f.iounit).toNat) (hdst : dst.length = m.count.toNat) :
    readAtZeroCopy f v s m dst =
      (some ((v.read s m).1.length, (v.read s m).1 ++ dst.drop (v.read s m).1.length), (v.read s m).2) := by
  obtain ⟨hmsize, hmax⟩ := Transfer.maxChunk_le hmin f.iounit
  have hdata : (v.read s m).1.length ≤ m.count.toNat :=
    Nat.le_trans (hv.read_data s m).length_le (length_take_le _ _)
  obtain ⟨⟨r, hsend⟩, -⟩ := frame_of_appends (P9l.tread_body m) (f := f) (by omega)
  have hframe := rread_frame (f := f) (show (v.read s m).1.length ≤ maxDataSize by omega) (by omega)
  have hshort : ¬ (frameBytes typeRread f.tag (leBytes 4 (v.read s m).1.length ++ (v.read s m).1)).length > f.msize.toNat := by
    rw [length_frameBytes, length_append, length_leBytes]
    omega
  have hanswer : answer f (v.read s m).1 =
      some (typeRread :: (leBytes 2 f.tag.toNat ++ (leBytes 4 (v.read s m).1.length ++ (v.read s m).1))) := by
    unfold answer
    rw [hframe]
    simp only [if_neg hshort]
    rfl
  unfold readAtZeroCopy
  rw [hsend]
  simp only [hanswer]
  rw [zeroCopy_data (by omega) (by omega) (by have := m.count.toNat_lt; omega)]

theorem twrite_ok (hmin : 256 ≤ f.msize.toNat) (hv : v.Honest) {m : Twrite}
    (hlen : m.data.length ≤ (maxChunk f.msize f.iounit).toNat) :
    twrite f v s m = (some (v.write s m).1.toNat, (v.write s m).2) := by
  obtain ⟨hmsize, hmax⟩ := Transfer.maxChunk_le hmin f.iounit
  obtain ⟨⟨r, hsend⟩, -⟩ := frame_of_appends (P9l.twrite_body (m := m) (by omega)) (f := f) (by omega)
  unfold twrite
  rw [hsend]
  simp only [if_neg (Nat.not_lt.2 (hv.write_count s m))]

end Sizes

/-! ## The loops -/

section Loops

variable {σ : Type} {v : Server σ}

theorem toNat_chunkLen (m : UInt32) : (chunkLen n m).toNat = min n m.toNat := by
  unfold chunkLen
  split
  · omega
  · have hn : (UInt32.ofNat n).toNat = n := UInt32.toNat_ofNat_of_lt (show n < 2 ^ 32 by have := m.toNat_lt; omega)
    omega

variable {p : Bytes}

theorem toNat_offset (hoff : off < 2 ^ 63) (htotal : total < 2 ^ 63) :
    (UInt64.ofNat off + UInt64.ofNat total).toNat = off + total := by
  have ho : (UInt64.ofNat off).toNat = off := UInt64.toNat_ofNat_of_lt (show off < 2 ^ 64 by omega)
  have ht : (UInt64.ofNat total).toNat = total := UInt64.toNat_ofNat_of_lt (show total < 2 ^ 64 by omega)
  rw [UInt64.toNat_add, ho, ht]
  exact Nat.mod_eq_of_lt (by omega)

theorem take_splice_chunk (h : total ≤ p.length) (data rest : Bytes) :
    (splice p (data ++ rest) total).take (total + data.length) = p.take total ++ data := by
  have hfront : (p.take total ++ data).length = total + data.length := by
    rw [length_append, length_take, Nat.min_eq_left h]
  rw [splice, append_assoc, append_assoc, ← append_assoc (p.take total)]
  exact take_left' hfront

theorem Server.Honest.chunk (hv : v.Honest) (s : σ) {m : Tread} (hoff : m.offset.toNat = off + total) :
    (v.read s m).1.length ≤ m.count.toNat ∧
      (v.read s m).1 = (((v.file s).drop off).drop total).take (v.read s m).1.length ∧
      ((v.read s m).1.length ≠ 0 → total + (v.read s m).1.length ≤ (v.file s).length - off) ∧
      ((v.read s m).1.length = 0 → 0 < m.count.toNat → (v.file s).length - off ≤ total) := by
  have hdrop : (v.file s).drop m.offset.toNat = ((v.file s).drop off).drop total := by rw [hoff, drop_drop]
  have hdata := hv.read_data s m
  have hempty := hv.read_empty s m
  rw [hdrop] at hdata hempty
  have hlen := hdata.length_le
  rw [length_take, length_drop, length_drop] at hlen
  refine ⟨by omega, ?_, by omega, fun hzero hpos => ?_⟩
  · have hpre := prefix_iff_eq_take.1 hdata
    rwa [take_take, Nat.min_eq_left (by omega)] at hpre
  · have hend := hempty (eq_nil_of_length_eq_zero hzero)
    rw [take_eq_nil_iff, drop_eq_nil_iff, length_drop] at hend
    omega

/-- What `ReadAt` returns: as much as there is, the content of the file, and the end of the file if that is too
little. -/
structure ReadDone (f : File) (v : Server σ) (file : Bytes) (off size : Nat) (r : Result σ) : Prop where
  n : r.n = min size (file.length - off)
  p : r.p.take r.n = (file.drop off).take r.n
  err : r.err = if r.n < size then some .eof else none
  file : v.file r.server = file
  sent : ∀ m ∈ r.sent, Fits f m

/-- What `WriteAt` returns: the file has what was written of the buffer. -/
structure WriteDone (f : File) (v : Server σ) (file p : Bytes) (off : Nat) (r : Result σ) : Prop where
  n : r.n ≤ p.length
  file : v.file r.server = store 0 file (p.take r.n) off
  err : r.err ≠ none ↔ r.n < p.length
  sent : ∀ m ∈ r.sent, Fits f m

/-- The loop of `ReadAt` from any point on: the buffer holds the content of the file so far. -/
theorem readFrom_spec (hmin : 256 ≤ f.msize.toNat) (hv : v.Honest) (hoff : off < 2 ^ 63) :
    ∀ {p : Bytes} {total : Nat} {s : σ} {sent : List BaseMessage}, p.length < 2 ^ 63 → p.length - total < fuel →
      total ≤ p.length → total ≤ (v.file s).length - off → p.take total = ((v.file s).drop off).take total →
      (∀ m ∈ sent, Fits f m) →
      ∃ r, readFrom f v off fuel p total s sent = some r ∧ ReadDone f v (v.file s) off p.length r := by
  induction fuel with
  | zero => intro p total s sent _ hfuel; exact absurd hfuel (Nat.not_lt_zero _)
  | succ fuel ih =>
    intro p total s sent hp hfuel htotal hthere hfront hsent
    unfold readFrom
    by_cases hmore : total < p.length
    · rw [if_pos hmore]
      have hcount := toNat_chunkLen (n := p.length - total) (maxChunk f.msize f.iounit)
      have hpos := maxChunk_pos (f := f) hmin
      have hle : (chunkLen (p.length - total) (maxChunk f.msize f.iounit)).toNat ≤ (maxChunk f.msize f.iounit).toNat := by
        omega
      generalize hc : chunkLen (p.length - total) (maxChunk f.msize f.iounit) = count at hcount hle
      have hchunk : ((p.drop total).take count.toNat).length = count.toNat := by
        rw [length_take, length_drop]
        omega
      simp only
      generalize hm : (⟨f.fid, UInt64.ofNat off + UInt64.ofNat total, count⟩ : Tread) = m
      have hmcount : m.count = count := hm ▸ rfl
      have hmoff : m.offset.toNat = off + total := hm ▸ toNat_offset hoff (by omega)
      rw [readAtZeroCopy_ok hmin hv (by rwa [hmcount]) (by rw [hchunk, hmcount])]
      simp only
      obtain ⟨hn, hdata, hgrows, hend⟩ := hv.chunk s hmoff
      have hfile := hv.read_file s m
      have hsent' : ∀ m' ∈ sent ++ [.tread m], Fits f m' := by
        intro m' hm'
        rcases mem_append.1 hm' with hold | hnew
        · exact hsent m' hold
        · rw [mem_singleton.1 hnew]
          exact tread_fits hmin (by rwa [hmcount])
      rw [hmcount] at hn hend
      generalize (v.read s m).1 = data at hn hdata hgrows hend ⊢
      -- the buffer with the data
      have hsize : (splice p (data ++ ((p.drop total).take count.toNat).drop data.length) total).length = p.length := by
        refine length_splice ?_
        rw [length_append, length_drop, hchunk]
        omega
      have htake := take_splice_chunk htotal data (((p.drop total).take count.toNat).drop data.length)
      have hfront' : (p.take total ++ data) = ((v.file s).drop off).take (total + data.length) := by
        rw [take_add, ← hdata, hfront]
      generalize splice p (data ++ ((p.drop total).take count.toNat).drop data.length) total = p' at hsize htake ⊢
      rw [hfront'] at htake
      by_cases hzero : data.length = 0
      · -- the end of the file
        rw [if_pos hzero]
        have heq : total = (v.file s).length - off := by
          have := hend hzero (by omega)
          omega
        rw [hzero, Nat.add_zero] at htake
        exact ⟨_, rfl, ⟨by simp only; omega, htake, by simp only [if_pos hmore], hfile, hsent'⟩⟩
      · rw [if_neg hzero]
        have hthere' := hgrows hzero
        rw [← hfile] at hthere' htake
        obtain ⟨r, hr, hdone⟩ := ih (by rw [hsize]; exact hp) (by rw [hsize]; omega) (by rw [hsize]; omega) hthere' htake hsent'
        rw [hfile, hsize] at hdone
        exact ⟨r, hr, hdone⟩
    · rw [if_neg hmore]
      have heq : total = p.length := by omega
      exact ⟨_, rfl, ⟨by simp only; omega, hfront, by simp only [if_neg hmore], rfl, hsent⟩⟩

/-- The loop of `WriteAt` from any point on: the file holds the buffer so far. -/
theorem writeFrom_spec (hmin : 256 ≤ f.msize.toNat) (hv : v.Honest) (hoff : off < 2 ^ 63) {file : Bytes}
    (hp : p.length < 2 ^ 63) :
    ∀ {total : Nat} {s : σ} {sent : List BaseMessage}, p.length - total < fuel → total ≤ p.length →
      v.file s = store 0 file (p.take total) off → (∀ m ∈ sent, Fits f m) →
      ∃ r, writeFrom f v off p fuel total s sent = some r ∧ WriteDone f v file p off r := by
  induction fuel with
  | zero => intro total s sent hfuel; exact absurd hfuel (Nat.not_lt_zero _)
  | succ fuel ih =>
    intro total s sent hfuel htotal hfile hsent
    unfold writeFrom
    by_cases hmore : total < p.length
    · rw [if_pos hmore]
      have hpos := maxChunk_pos (f := f) hmin
      have hcut : (if (p.drop total).length > (maxChunk f.msize f.iounit).toNat then
          (p.drop total).take (maxChunk f.msize f.iounit).toNat else p.drop total) =
            (p.drop total).take (maxChunk f.msize f.iounit).toNat := by
        split
        · rfl
        · exact (take_of_length_le (by omega)).symm
      simp only [hcut]
      generalize hc : (p.drop total).take (maxChunk f.msize f.iounit).toNat = chunk
      have hchunk : chunk.length = min (maxChunk f.msize f.iounit).toNat (p.length - total) := by
        rw [← hc, length_take, length_drop]
      generalize hm : (⟨f.fid, UInt64.ofNat off + UInt64.ofNat total, chunk⟩ : Twrite) = m
      have hmdata : m.data = chunk := hm ▸ rfl
      have hmoff : m.offset.toNat = off + total := hm ▸ toNat_offset hoff (by omega)
      rw [twrite_ok hmin hv (by rw [hmdata]; omega)]
      simp only
      have hcount := hv.write_count s m
      rw [hmdata] at hcount
      -- the chunk is stored behind the last one
      have hfile' : v.file (v.write s m).2 = store 0 file (p.take (total + (v.write s m).1.toNat)) off := by
        have hwhole : p.take total ++ chunk.take (v.write s m).1.toNat = p.take (total + (v.write s m).1.toNat) := by
          rw [take_add, ← hc, take_take, Nat.min_eq_left (by omega)]
        have hlen : (p.take total).length = total := by rw [length_take, Nat.min_eq_left htotal]
        rw [hv.write_file s m, hfile, hmdata, hmoff, ← hwhole, ← store_store, hlen]
      have hsent' : ∀ m' ∈ sent ++ [.twrite m], Fits f m' := by
        intro m' hm'
        rcases mem_append.1 hm' with hold | hnew
        · exact hsent m' hold
        · rw [mem_singleton.1 hnew]
          exact twrite_fits hmin (by rw [hmdata]; omega)
      by_cases hshort : (v.write s m).1.toNat < chunk.length
      · rw [if_pos hshort]
        exact ⟨_, rfl, ⟨by simp only; omega, hfile', iff_of_true nofun (by simp only; omega), hsent'⟩⟩
      · rw [if_neg hshort]
        exact ih (by omega) (by omega) hfile' hsent'
    · rw [if_neg hmore]
      exact ⟨_, rfl, ⟨htotal, hfile, iff_of_false (fun h => h rfl) hmore, hsent⟩⟩

end Loops

/-- **Positional I/O.**  Against every honest server `ReadAt` returns as many bytes of the file as there are up to the
length of the buffer, with `io.EOF` exactly if these are fewer; `WriteAt` returns a count such that the file is the old
one with that much of the buffer stored at the offset, with an error exactly if that is not all of it; and every request
and every Rread that answers it fits the msize. -/
theorem positional_io {σ : Type} (v : Server σ) (hv : v.Honest) (f : File) (hmin : 256 ≤ f.msize.toNat) (p : Bytes)
    (hp : p.length < 2 ^ 63) (off : Int) (hoff : 0 ≤ off) (hoff' : off < 2 ^ 63) (s : σ) (fuel : Nat)
    (hfuel : p.length < fuel) :
    (∃ r, readAt f v fuel p off s = some r ∧ ReadDone f v (v.file s) off.toNat p.length r) ∧
      ∃ r, writeAt f v fuel p off s = some r ∧ WriteDone f v (v.file s) p off.toNat r := by
  have hneg : ¬ off < 0 := by omega
  unfold readAt writeAt
  by_cases hempty : p.length = 0
  · have hnil := eq_nil_of_length_eq_zero hempty
    rw [if_pos hempty, if_pos hempty]
    refine ⟨⟨_, rfl, ⟨by simp [hempty], by simp, by simp [hempty], rfl, by simp⟩⟩,
      ⟨_, rfl, ⟨by simp, by simp [store], by simp [hempty], by simp⟩⟩⟩
  · rw [if_neg hempty, if_neg hempty, if_neg hneg, if_neg hneg]
    exact ⟨readFrom_spec hmin hv (by omega) hp (by omega) (Nat.zero_le _) (Nat.zero_le _) (by simp) (by simp),
      writeFrom_spec hmin hv (by omega) hp (by omega) (Nat.zero_le _) (by simp [store]) (by simp)⟩

/-! ## A server that does one byte at a time -/

/-- The state is the file. -/
def slowServer : Server Bytes where
  file s := s
  read s m := (((s.drop m.offset.toNat).take m.count.toNat).take 1, s)
  write s m := (UInt32.ofNat (min 1 m.data.length), store 0 s (m.data.take 1) m.offset.toNat)

theorem toNat_slow (n : Nat) : (UInt32.ofNat (min 1 n)).toNat = min 1 n :=
  UInt32.toNat_ofNat_of_lt' (show min 1 n < 2 ^ 32 by omega)

theorem slowServer_honest : slowServer.Honest where
  read_data _ _ := take_prefix _ _
  read_empty s m h := by
    rcases take_eq_nil_iff.1 h with h | h
    · exact absurd h (by decide)
    · exact h
  read_file _ _ := rfl
  write_count s m := by
    show (UInt32.ofNat (min 1 m.data.length)).toNat ≤ m.data.length
    rw [toNat_slow]
    exact Nat.min_le_right _ _
  write_file s m := by
    show store 0 s (m.data.take 1) _ = store 0 s (m.data.take (UInt32.ofNat (min 1 m.data.length)).toNat) _
    rw [toNat_slow]
    congr 1
    cases m.data <;> simp

/-- Two bytes of three are read, and one of two is written. -/
theorem positional_io_slow :
    (∃ r, readAt ⟨1, 0, 256, 1⟩ slowServer 4 [0, 0, 0] 1 [5, 6, 7] = some r ∧
      ReadDone ⟨1, 0, 256, 1⟩ slowServer [5, 6, 7] 1 3 r) ∧
      ∃ r, writeAt ⟨1, 0, 256, 1⟩ slowServer 4 [0, 0, 0] 1 [5, 6, 7] = some r ∧
        WriteDone ⟨1, 0, 256, 1⟩ slowServer [5, 6, 7] [0, 0, 0] 1 r :=
  positional_io slowServer slowServer_honest ⟨1, 0, 256, 1⟩ (by decide) [0, 0, 0] (by decide) 1 (by decide) (by decide)
    [5, 6, 7] 4 (by decide)

end NineP.Client.Positional
