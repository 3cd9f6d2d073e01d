import NineP.Proto.P9l.Carry
import NineP.Server.Decoding
import NineP.Server.Replies

/-!
# The advertised iounit

`clampIOUnit` of `server/bridge.go` leaves room for the header of an Rread.  That of a Twrite is 12 bytes longer, and
`readFrameLocked` measures the whole frame.
-/

namespace NineP.Server.Iounit

open Codec Proto Negotiation Replies Decoding List

/-- The IOUnit of an Rlopen, Rlcreate, Ropen or Rcreate. -/
def ioUnit : Msg → Option UInt32
  | .l (.rlopen m) | .l (.rlcreate m) | .u (.ropen m) | .u (.rcreate m) => some m.ioUnit
  | _ => none

def noCaches : Caches := ⟨⟨[]⟩, ⟨[]⟩, ⟨[]⟩, ⟨[]⟩, ⟨[]⟩, ⟨[]⟩, ⟨[]⟩, ⟨[]⟩, ⟨[]⟩, ⟨[]⟩, ⟨[]⟩, ⟨[]⟩, ⟨[]⟩⟩

section Receive

variable (p : Params) (c : Caches) (t : MessageType) (tag : Tag) {body : Bytes} (rest : Bytes) (hbody : body.length ≤ maxBody)
include hbody

theorem readFrameLocked_refused (hlong : p.msize.toNat < 7 + body.length) :
    ∃ e, readFrameLocked p c (frameBytes t tag body ++ rest) = .error e := by
  cases h : readFrameLocked p c (frameBytes t tag body ++ rest) with
  | error e => exact ⟨e, rfl⟩
  | ok r =>
    unfold readFrameLocked at h
    rw [bind_of_ok (readSize_frame t tag rest hbody)] at h
    have hmax := UInt32.le_iff_toNat_le.1 (UInt32.not_lt.1 (failIf_bind_ok.1 h).1)
    rw [toNat_frameSize hbody] at hmax
    omega

theorem readFrameLocked_accepted (hfits : 7 + body.length ≤ p.msize.toNat) :
    ∃ f, readFrameLocked p c (frameBytes t tag body ++ rest) = .ok (f, rest) := by
  have hsize := toNat_frameSize hbody
  have hmax : ¬ headerSize + UInt32.ofNat body.length > p.msize :=
    UInt32.not_lt.2 (UInt32.le_iff_toNat_le.2 (hsize ▸ hfits))
  have hsub : (headerSize + UInt32.ofNat body.length - 4).toNat = 3 + body.length := by
    rw [UInt32.toNat_sub_of_le _ _ (show 4 ≤ (headerSize + UInt32.ofNat body.length).toNat by omega), hsize]
    show 7 + body.length - 4 = _
    omega
  have hread : readFull (headerSize + UInt32.ofNat body.length - 4).toNat (t :: (leBytes 2 tag.toNat ++ (body ++ rest))) =
      .ok (t :: (leBytes 2 tag.toNat ++ body), rest) := by
    refine take_ok.2 ⟨by simp, ?_⟩
    rw [hsub, length_cons, length_append, length_leBytes]
    omega
  unfold readFrameLocked
  rw [bind_of_ok (readSize_frame t tag rest hbody)]
  exact ⟨_, failIf_bind_ok.2 ⟨hmax, bind_of_ok hread⟩⟩

end Receive

section Clamp

variable {p : Params} (hmin : minMsize ≤ p.msize)
include hmin

theorem toNat_maxData : (maxData p).toNat = p.msize.toNat - 11 := by
  have hmin : 256 ≤ p.msize.toNat := hmin
  have h7 : (p.msize - headerSize).toNat = p.msize.toNat - 7 :=
    UInt32.toNat_sub_of_le _ _ (show 7 ≤ p.msize.toNat by omega)
  rw [maxData, UInt32.toNat_sub_of_le _ _ (show 4 ≤ (p.msize - headerSize).toNat by omega), h7]
  show p.msize.toNat - 7 - 4 = _
  omega

theorem le_of_clampIOUnit {c : UInt32} (hc : c ≤ clampIOUnit p hint) :
    c ≤ maxData p ∧ 11 + c.toNat ≤ p.msize.toNat := by
  have hle : c ≤ maxData p := by
    unfold clampIOUnit at hc
    split at hc
    · exact hc
    · rename_i h
      exact UInt32.le_trans hc (UInt32.not_lt.1 (not_or.1 h).2)
  have hnat := UInt32.le_iff_toNat_le.1 hle
  have hmin' : 256 ≤ p.msize.toNat := hmin
  rw [toNat_maxData hmin] at hnat
  exact ⟨hle, by omega⟩

end Clamp

theorem twrite_frame (tag : Tag) {m : Twrite} (hdata : m.data.length ≤ maxDataSize) : ∃ body : Bytes,
    body.length ≤ maxBody ∧ body.length = 16 + m.data.length ∧
      encodeFrame tag (BaseMessage.twrite m) [] = .ok ((), frameBytes typeTwrite tag body) := by
  obtain ⟨body, hlen, henc⟩ := encodeFrame_of_appends (m := BaseMessage.twrite m) tag (P9l.twrite_body hdata)
  have : 16 + maxDataSize ≤ maxBody := by decide
  exact ⟨body, by omega, hlen, henc⟩

/-- **What the advertised unit is good for.**  A read of that many bytes is not clamped and its answer fits; a write of
that many bytes is accepted exactly when its own header fits as well. -/
theorem iounit_usable_iff (p : Params) (hmin : minMsize ≤ p.msize) (_hmax : p.msize ≤ maxMessageSize) (v : Values)
    (reply : Msg) (hreply : reply ∈ [handleLopen p v, handleLcreate p v, handleUOpen p v, handleUCreate p v])
    (u : UInt32) (hu : ioUnit reply = some u) (c : UInt32) (hc : c ≤ u) (hdata : c.toNat ≤ maxDataSize) :
    clampCount p c = c ∧
    (∀ (tag : Tag) (m : Rread), m.data.length = c.toNat →
      ∃ b, encodeFrame tag (BaseMessage.rread m) [] = .ok ((), b) ∧ b.length ≤ p.msize.toNat) ∧
    ((∀ (tag : Tag) (m : Twrite) (caches : Caches) (rest : Bytes), m.data.length = c.toNat →
      ∃ b f, encodeFrame tag (BaseMessage.twrite m) [] = .ok ((), b) ∧
        readFrameLocked p caches (b ++ rest) = .ok (f, rest)) ↔ 23 + c.toNat ≤ p.msize.toNat) := by
  obtain rfl : clampIOUnit p v.iounitHint = u := by
    simp only [mem_cons, not_mem_nil, or_false] at hreply
    rcases hreply with rfl | rfl | rfl | rfl <;> exact Option.some.inj hu
  obtain ⟨hle, hfits⟩ := le_of_clampIOUnit hmin hc
  refine ⟨if_neg (UInt32.not_lt.2 hle), fun tag m hm => ?_, ?_⟩
  · obtain ⟨body, hlen, henc⟩ := encodeFrame_of_appends (m := BaseMessage.rread m) tag (P9l.rread_body (hm ▸ hdata))
    refine ⟨_, henc, ?_⟩
    rw [length_frameBytes]
    omega
  · constructor
    · intro hall
      by_contra hlong
      obtain ⟨m, hm⟩ : ∃ m : Twrite, m.data.length = c.toNat := ⟨⟨0, 0, List.replicate c.toNat 0⟩, length_replicate⟩
      obtain ⟨body, hbody, hlen, henc⟩ := twrite_frame 0 (hm ▸ hdata)
      obtain ⟨b, f, hb, hread⟩ := hall 0 m noCaches [] hm
      obtain rfl : frameBytes typeTwrite 0 body = b := (Prod.mk.inj (Except.ok.inj (henc.symm.trans hb))).2
      obtain ⟨e, he⟩ := readFrameLocked_refused p noCaches typeTwrite 0 [] hbody (by omega)
      cases he.symm.trans hread
    · intro hfits tag m caches rest hm
      obtain ⟨body, hbody, hlen, henc⟩ := twrite_frame tag (hm ▸ hdata)
      obtain ⟨f, hread⟩ := readFrameLocked_accepted p caches typeTwrite tag rest hbody (by omega)
      exact ⟨_, f, henc, hread⟩

theorem iounit_usable_hundred : clampCount ⟨8192, .l⟩ 100 = 100 :=
  (iounit_usable_iff ⟨8192, .l⟩ (by decide) (by decide)
    ⟨⟨0, 0, 0⟩, [], 0, .listing [], 0, default, default, [], 0, default, [], []⟩ _ mem_cons_self 8181 rfl 100
    (by decide) (by decide)).1

/-- With msize 256 the client is told that it may write 245 bytes at once, and the server refuses the frame. -/
theorem iounit_refused : clampIOUnit ⟨256, .l⟩ 0 = 245 ∧ ∀ m : Twrite, m.data.length = 245 →
    ∃ b e, encodeFrame 1 (BaseMessage.twrite m) [] = .ok ((), b) ∧
      readFrameLocked ⟨256, .l⟩ noCaches (b ++ []) = .error e := by
  refine ⟨rfl, fun m hm => ?_⟩
  obtain ⟨body, hbody, hlen, henc⟩ := twrite_frame 1 (show m.data.length ≤ maxDataSize by rw [hm]; decide)
  obtain ⟨e, he⟩ := readFrameLocked_refused ⟨256, .l⟩ noCaches typeTwrite 1 [] hbody (by rw [hlen, hm]; decide)
  exact ⟨_, e, henc, he⟩

end NineP.Server.Iounit
