import NineP.Proto.Messages

/-!
# Frames on a connection

`wire.ReadSize` (`internal/wire`) and `writeRaw` (`server/conn.go`): the size prefix in front of a frame, and a frame
that is written field by field.
-/

namespace NineP.Proto

open Codec

def readSize : Reader UInt32 := do
  let size ← readUint32
  failIf (size < headerSize) (.msg s!"wire: frame size {size} smaller than 9P header ({headerSize})")
  return size

/-- `writeRaw`: the body is encoded into a buffer of its own, and the fields are written one after another. -/
def writeRaw {M : Type} [Message M] (tag : Tag) (msg : M) : Writer Unit := do
  let ⟨_, body⟩ ← result (wrap s!"encode {messageTypeString (Message.type msg)} body" (Message.encodeTo msg) [])
  wrap "write size" (writeUint32 (headerSize + UInt32.ofNat body.length))
  wrap "write type" (writeUint8 (Message.type msg))
  wrap "write tag" (writeUint16 tag)
  wrap "write body" (put body)

theorem toNat_frameSize (h : n ≤ maxBody) : (headerSize + UInt32.ofNat n).toNat = 7 + n := by
  have hlt : 7 + n < 2 ^ 32 := Nat.lt_of_le_of_lt (Nat.add_le_add_left h 7) (by decide)
  have hn : (UInt32.ofNat n).toNat = n := UInt32.toNat_ofNat_of_lt (show n < 2 ^ 32 by omega)
  rw [UInt32.toNat_add, hn]
  exact Nat.mod_eq_of_lt hlt

theorem length_frameBytes (t : MessageType) (tag : Tag) (body : Bytes) :
    (frameBytes t tag body).length = 7 + body.length := by
  simp only [frameBytes, List.length_append, List.length_cons, length_leBytes]
  omega

theorem readSize_frame (t : MessageType) (tag : Tag) {body : Bytes} (rest : Bytes) (h : body.length ≤ maxBody) :
    readSize (frameBytes t tag body ++ rest) =
      .ok (headerSize + UInt32.ofNat body.length, t :: (leBytes 2 tag.toNat ++ (body ++ rest))) := by
  have hsize := toNat_frameSize h
  have hmin : ¬ headerSize + UInt32.ofNat body.length < headerSize := by
    rw [UInt32.lt_iff_toNat_lt, hsize]
    show ¬ 7 + body.length < 7
    omega
  refine bind_ok.2 ⟨_, _, readUint32_ok.2 ?_, failIf_bind_ok.2 ⟨hmin, rfl⟩⟩
  rw [hsize]
  simp [frameBytes]

theorem writeRaw_frame {M : Type} [Message M] (tag : Tag) (msg : M) {body : Bytes}
    (h : Message.encodeTo msg [] = .ok ((), body)) (hlen : body.length ≤ maxBody) (w : Bytes) :
    writeRaw tag msg w = .ok ((), w ++ frameBytes (Message.type msg) tag body) := by
  refine bind_ok.2 ⟨((), body), w, result_ok.2 ⟨wrap_ok.2 h, rfl⟩, ?_⟩
  refine bind_ok.2 ⟨(), _, wrap_ok.2 (put_run _ _), bind_ok.2 ⟨(), _, wrap_ok.2 (put_run _ _),
    bind_ok.2 ⟨(), _, wrap_ok.2 (put_run _ _), wrap_ok.2 ?_⟩⟩⟩
  rw [put_run, toNat_frameSize hlen]
  simp [frameBytes, leBytes]

end NineP.Proto
