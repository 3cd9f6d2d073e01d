import NineP.Proto.Encoders
import NineP.Server.Iounit

/-!
# The wire

What the two codecs make of the same bytes, and what becomes of the requests that `writeT` puts on the wire.
-/

namespace NineP.Proto

open Codec

/-! ## One wire for both dialects -/

section Shared

variable {M : Type} [Message M] {newMessage : MessageType → Except Err M} {S : M → Prop}

theorem Dialect.decode_shared (d : Dialect newMessage S) {k : BaseMessage → M} (hk : k.Injective)
    (htype : Message.type (k m) = m.type)
    (hnew : ∃ z, newMessage m.type = .ok z ∧ Message.decodeFrom z = k <$> m.decodeFrom) :
    decodeFrame newMessage bs = .ok ((tag, k m), rest) ↔
      ∃ body, body.length ≤ maxBody ∧ m.decodeFrom body = .ok (m, []) ∧ bs = frameBytes m.type tag body ++ rest := by
  obtain ⟨z, hz, hdec⟩ := hnew
  rw [decodeFrame_ok]
  constructor
  · rintro ⟨t, z', body, hlen, hz', hm, rfl⟩
    obtain rfl : m.type = t := htype ▸ (d.bwd hz' hm).2.1
    obtain rfl : z = z' := Except.ok.inj (hz.symm.trans hz')
    obtain ⟨m', hm', heq⟩ := map_ok.1 (hdec ▸ hm)
    exact ⟨body, hlen, hk heq ▸ hm', rfl⟩
  · rintro ⟨body, hlen, hm, rfl⟩
    exact ⟨_, z, body, hlen, hz, hdec ▸ map_ok.2 ⟨m, hm, rfl⟩, rfl⟩

theorem Dialect.decode_type (d : Dialect newMessage S) (h : decodeFrame newMessage bs = .ok ((tag, m), rest)) :
    bs[4]? = some (Message.type m) := by
  obtain ⟨t, z, body, -, hz, hm, rfl⟩ := decodeFrame_ok.1 h
  rw [(d.bwd hz hm).2.1]
  rfl

end Shared

/-- **The dialects share their base messages and nothing else.** -/
theorem dialects_agree (bs rest : Bytes) (tag : Tag) :
    (∀ m, P9l.decode bs = .ok ((tag, .base m), rest) ↔ P9u.decode bs = .ok ((tag, .base m), rest)) ∧
      ∀ (ml : P9l.Msg) (mu : P9u.Msg) tag' rest', P9l.decode bs = .ok ((tag, ml), rest) →
        P9u.decode bs = .ok ((tag', mu), rest') → ∃ m, ml = .base m ∧ mu = .base m ∧ tag' = tag ∧ rest' = rest := by
  have hiff (m : BaseMessage) : P9l.decode bs = .ok ((tag, .base m), rest) ↔ P9u.decode bs = .ok ((tag, .base m), rest) :=
    (P9l.dialect.decode_shared (fun _ _ => P9l.Msg.base.inj) rfl (P9l.newMessage_type (.base m))).trans
      (P9u.dialect.decode_shared (fun _ _ => P9u.Msg.base.inj) rfl (P9u.newMessage_type (.base m))).symm
  refine ⟨hiff, fun ml mu tag' rest' hl hu => ?_⟩
  have htype : ml.type = mu.type := Option.some.inj ((P9l.dialect.decode_type hl).symm.trans (P9u.dialect.decode_type hu))
  have hshared : 100 ≤ mu.type.toNat := by
    cases mu with
    | base m => cases m <;> exact Nat.le_of_ble_eq_true rfl
    | _ => exact Nat.le_of_ble_eq_true rfl
  obtain ⟨m, rfl⟩ : ∃ m, ml = .base m := by
    cases ml with
    | base m => exact ⟨m, rfl⟩
    | _ => exact absurd (htype ▸ hshared) (Nat.not_le_of_gt (Nat.le_of_ble_eq_true rfl))
  cases hu.symm.trans ((hiff m).1 hl)
  exact ⟨m, rfl, rfl, rfl, rfl⟩

end NineP.Proto

namespace NineP.Server.Decoding

open Codec Proto List
open Negotiation (Params Msg newMessage)

/-! ## Requests from end to end -/

/-- The calls of `writeT` of a connection. -/
def writeTs (msize : UInt32) : List (Tag × Outgoing) → Writer Unit
  | [] => pure ()
  | (tag, m) :: ms => do
    let _ ← writeT msize tag m
    writeTs msize ms

/-- The accepted messages of the connection's dialect that the server knows, and what it has for them. -/
inductive Carries (p : Params) : Outgoing → Msg → Prop
  | l {m : P9l.Msg} : p.protocol = .l → m.Accepted → (newMessage .l m.type).isSome → Carries p (.l m) (ofL m)
  | u {m : P9u.Msg} : p.protocol = .u → m.Accepted → (newMessage .u m.type).isSome → Carries p (.u m) (ofU m)

theorem Carries.arrives (h : Carries p o m) (hf : Agrees p f) (henc : encodeFrame tag o [] = .ok ((), f.raw)) :
    f.tag = tag ∧ f.outcome = .msg m := by
  cases h with
  | @l m hp hacc hknown =>
    obtain ⟨b, hb, -, hdec⟩ := P9l.dialect.frame_codec.fwd (a := (tag, m)) hacc henc
    exact hf.1 tag m hp (by simpa [P9l.decode, hb] using hdec []) hknown
  | @u m hp hacc hknown =>
    obtain ⟨b, hb, -, hdec⟩ := P9u.dialect.frame_codec.fwd (a := (tag, m)) hacc henc
    exact hf.2 tag m hp (by simpa [P9u.decode, hb] using hdec []) hknown

/-- The server has read what the client wrote, and has the same message if it is one of the dialect. -/
structure Arrives (p : Params) (x : Tag × Outgoing) (f : RecvFrame) : Prop where
  frame : encodeFrame x.1 x.2 [] = .ok ((), f.raw)
  msg : ∀ m, Carries p x.2 m → f.tag = x.1 ∧ f.outcome = .msg m

theorem readFrameLocked_arrives {p : Params} {m : Outgoing} (henc : m.encodeTo [] = .ok ((), body))
    (hfits : 7 + body.length ≤ p.msize.toNat) (tag : Tag) (c : Caches) (rest : Bytes) :
    ∃ f, readFrameLocked p c (frameBytes m.type tag body ++ rest) = .ok (f, rest) ∧ Arrives p (tag, m) f := by
  obtain ⟨f, hf⟩ := Iounit.readFrameLocked_accepted p c m.type tag rest (length_body (m := m) henc) hfits
  have hget : (readFrames [(p, c)] (frameBytes m.type tag body ++ rest))[0]? = some f := by simp [readFrames, hf]
  obtain ⟨_, _, he, -, -, hagrees⟩ := readFrames_agree hget
  cases he
  have hframe : encodeFrame tag m [] = .ok ((), f.raw) := by
    rw [encodeFrame_of_body henc, append_cancel_right (readFrameLocked_ok hf).1, nil_append]
  exact ⟨f, hf, hframe, fun _ hc => hc.arrives hagrees hframe⟩

/-- **Requests arrive.**  Messages that fit the msize are all written, and are read in order, whatever is in the caches. -/
theorem requests_arrive {p : Params} {ms : List (Tag × Outgoing)}
    (hms : ∀ x ∈ ms, ∃ body, x.2.encodeTo [] = .ok ((), body) ∧ 7 + body.length ≤ p.msize.toNat) {caches : List Caches}
    (hlen : caches.length = ms.length) (out rest : Bytes) :
    ∃ bs, writeTs p.msize ms out = .ok ((), out ++ bs) ∧
      Forall₂ (Arrives p) ms (readFrames (caches.map (p, ·)) (bs ++ rest)) := by
  induction ms generalizing caches out with
  | nil =>
    obtain rfl := eq_nil_of_length_eq_zero hlen
    exact ⟨[], by simp [writeTs], .nil⟩
  | cons x ms ih =>
    obtain ⟨tag, m⟩ := x
    obtain ⟨c, caches, rfl⟩ := exists_cons_of_length_eq_add_one hlen
    obtain ⟨body, henc, hfits⟩ := hms _ mem_cons_self
    have hw := writeT_of_body p.msize tag out henc
    rw [if_neg (Nat.not_lt.2 hfits)] at hw
    obtain ⟨size, hw, -⟩ := hw
    obtain ⟨bs, hws, hrs⟩ := ih (fun x hx => hms x (mem_cons_of_mem _ hx)) (by simpa using hlen)
      (out ++ frameBytes m.type tag body)
    obtain ⟨f, hf, harrives⟩ := readFrameLocked_arrives henc hfits tag c (bs ++ rest)
    refine ⟨frameBytes m.type tag body ++ bs, ?_, ?_⟩
    · rw [writeTs, bind_of_ok hw, hws, append_assoc]
    · rw [append_assoc, map_cons, readFrames, hf]
      exact .cons harrives hrs

def twoRequests : List (Tag × Outgoing) := [(1, .l (.base (.tclunk ⟨5⟩))), (2, .l (.tlopen ⟨6, 0⟩))]

theorem requests_arrive_two : ∃ bs, writeTs 256 twoRequests [] = .ok ((), [] ++ bs) ∧ Forall₂ (Arrives ⟨256, .l⟩) twoRequests
    (readFrames ([Iounit.noCaches, Iounit.noCaches].map (⟨256, .l⟩, ·)) (bs ++ [])) :=
  requests_arrive (p := ⟨256, .l⟩) (forall_mem_cons.2 ⟨⟨_, rfl, by decide⟩, forall_mem_singleton.2 ⟨_, rfl, by decide⟩⟩) rfl [] []

end NineP.Server.Decoding
