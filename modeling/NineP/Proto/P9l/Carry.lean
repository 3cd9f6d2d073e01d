import NineP.Proto.P9l.Codec

/-!
# Messages on the wire

What arrives of a 9P2000.L message that one end sends in a frame: the frame is encoded, must fit `msize`, and is decoded
at the other end.
-/

namespace NineP.P9l

open Codec Proto

/-- The message that the other end decodes; `none` if there is no frame for it, or one that is larger than `msize`. -/
def carry (msize : UInt32) (tag : Tag) (m : Msg) : Option Msg :=
  match encode tag m [] with
  | .error _ => none
  | .ok ((), b) =>
    if b.length > msize.toNat then none
    else
      match decode b with
      | .error _ => none
      | .ok ((_, m'), _) => some m'

theorem carry_eq {msize : UInt32} {m : Msg} (hbody : Appends n m.encodeTo) (hacc : m.Accepted)
    (hfits : 7 + n ≤ msize.toNat) : carry msize tag m = some m := by
  obtain ⟨enc, rfl, henc⟩ := encodeFrame_of_appends (m := m) tag hbody
  have hlen : (frameBytes (Message.type m) tag enc).length = 7 + enc.length := by
    simp only [frameBytes, List.length_append, List.length_cons, length_leBytes]
    omega
  have hdec : decode (frameBytes (Message.type m) tag enc) = .ok ((tag, m), []) := by
    obtain ⟨b, hb, -, hg⟩ := dialect.frame_codec.fwd (a := (tag, m)) hacc henc
    obtain rfl : b = frameBytes (Message.type m) tag enc := hb.symm
    have hdec := hg []
    rwa [List.append_nil] at hdec
  unfold carry encode
  rw [henc]
  simp only [hlen, hdec]
  rw [if_neg (Nat.not_lt.2 hfits)]

/-! ## Sizes -/

theorem uint32_appends (ctx : String) (v : UInt32) : Appends 4 (wrap ctx (writeUint32 v)) :=
  ((Writes.put (leBytes 4 v.toNat)).appends trivial).wrap _

theorem uint64_appends (ctx : String) (v : UInt64) : Appends 8 (wrap ctx (writeUint64 v)) :=
  ((Writes.put (leBytes 8 v.toNat)).appends trivial).wrap _

theorem string_appends (ctx : String) {s : Bytes} (h : s.length ≤ maxStringLen) :
    Appends (2 + s.length) (wrap ctx (writeString s)) := by
  have hs := (writeString_writes s).appends h
  rw [List.length_append, length_leBytes] at hs
  exact hs.wrap _

theorem count_appends (ctx : String) (data : Bytes) :
    Appends (4 + data.length) (do writeUint32 (UInt32.ofNat data.length); writePayload ctx data) := by
  rw [writePayload_eq_put]
  have hcount : Appends 4 (writeUint32 (UInt32.ofNat data.length)) := by
    have h := (@Writes.put Err (leBytes 4 (UInt32.ofNat data.length).toNat)).appends trivial
    rwa [length_leBytes] at h
  exact hcount.seq ((Writes.put data).appends trivial)

/-! ### Requests -/

theorem treaddir_body (m : Treaddir) : Appends 16 (Msg.encodeTo (.treaddir m)) :=
  (uint32_appends _ _).seq <| (uint64_appends _ _).seq (uint32_appends _ _)

theorem txattrwalk_body {m : Txattrwalk} (h : m.name.length ≤ maxStringLen) :
    Appends (10 + m.name.length) (Msg.encodeTo (.txattrwalk m)) := by
  have hbody : Appends (4 + (4 + (2 + m.name.length))) (Msg.encodeTo (.txattrwalk m)) :=
    (uint32_appends _ _).seq <| (uint32_appends _ _).seq (string_appends _ h)
  convert hbody using 1
  omega

theorem txattrcreate_body {m : Txattrcreate} (h : m.name.length ≤ maxStringLen) :
    Appends (18 + m.name.length) (Msg.encodeTo (.txattrcreate m)) := by
  have hbody : Appends (4 + (2 + m.name.length + (8 + 4))) (Msg.encodeTo (.txattrcreate m)) :=
    (uint32_appends _ _).seq <| (string_appends _ h).seq <| (uint64_appends _ _).seq (uint32_appends _ _)
  convert hbody using 1
  omega

theorem tread_body (m : Tread) : Appends 16 (Msg.encodeTo (.base (.tread m))) :=
  (uint32_appends _ _).seq <| (uint64_appends _ _).seq (uint32_appends _ _)

theorem twrite_body {m : Twrite} (h : m.data.length ≤ maxDataSize) :
    Appends (16 + m.data.length) (Msg.encodeTo (.base (.twrite m))) := by
  have hdata : Appends m.data.length (writePayload "encode twrite data" m.data) := by
    rw [writePayload_eq_put]
    exact (Writes.put m.data).appends trivial
  have hbody : Appends (4 + (8 + 4) + m.data.length) (Msg.encodeTo (.base (.twrite m))) :=
    (Appends.guard (Nat.not_lt.2 h) <| (uint32_appends _ _).seq <| (uint64_appends _ _).seq (uint32_appends _ _)).seq hdata
  convert hbody using 1

theorem tclunk_body (m : Tclunk) : Appends 4 (Msg.encodeTo (.base (.tclunk m))) :=
  uint32_appends "encode tclunk fid" _

theorem twalk_body (fid newFid : Fid) : Appends 10 (Msg.encodeTo (.base (.twalk ⟨fid, newFid, []⟩))) := by
  have hcount : Appends 2 (wrap "encode twalk nwname" (writeUint16 0)) :=
    ((Writes.put (leBytes 2 0)).appends trivial).wrap _
  exact Appends.guard (Nat.not_lt_zero _) <| (uint32_appends _ _).seq <| (uint32_appends _ _).seq <| hcount.seq .pure

/-! ### Responses -/

theorem rreaddir_body {m : Rreaddir} (h : m.data.length ≤ maxDataSize) :
    Appends (4 + m.data.length) (Msg.encodeTo (.rreaddir m)) := by
  show Appends _ m.encodeTo
  simp only [Rreaddir.encodeTo, Rreaddir.encodeFixed, bind_assoc]
  exact .guard (Nat.not_lt.2 h) (count_appends _ _)

theorem rxattrwalk_body (m : Rxattrwalk) : Appends 8 (Msg.encodeTo (.rxattrwalk m)) :=
  uint64_appends "encode rxattrwalk size" _

theorem rxattrcreate_body (m : Rxattrcreate) : Appends 0 (Msg.encodeTo (.rxattrcreate m)) := .pure

theorem rread_body {m : Rread} (h : m.data.length ≤ maxDataSize) :
    Appends (4 + m.data.length) (Msg.encodeTo (.base (.rread m))) := by
  show Appends _ m.encodeTo
  simp only [Rread.encodeTo, Rread.encodeFixed, bind_assoc]
  exact .guard (Nat.not_lt.2 h) (count_appends _ _)

theorem rwrite_body (m : Rwrite) : Appends 4 (Msg.encodeTo (.base (.rwrite m))) :=
  uint32_appends "encode rwrite count" _

theorem rclunk_body (m : Rclunk) : Appends 0 (Msg.encodeTo (.base (.rclunk m))) := .pure

theorem rwalk_body : Appends 2 (Msg.encodeTo (.base (.rwalk ⟨[]⟩))) := by
  have hcount : Appends 2 (wrap "encode rwalk nwqid" (writeUint16 0)) :=
    ((Writes.put (leBytes 2 0)).appends trivial).wrap _
  exact Appends.guard (by decide) (hcount.seq .pure)

end NineP.P9l
