import NineP.Proto.Sinks
import NineP.Proto.Transport

/-!
# The four encoders of frames

`EncodeFrame` (`proto/frame.go`), `writeRaw` and `sendResponseInline` (`server/conn.go`) and `writeT`
(`client/write.go`), for every message of both dialects and the server's pooled responses.
-/

namespace NineP.Proto

open Codec List

namespace Sinks

/-! ## What the helpers write -/

section Emits

variable {τ : Type} {R : Bytes → τ → Prop}

/-- `x` succeeds and adds `bs` to what was written. -/
def Emits (R : Bytes → τ → Prop) (bs : Bytes) (x : On τ Unit) : Prop :=
  ∀ s t, R s t → ∃ t', x t = .ok ((), t') ∧ R (s ++ bs) t'

theorem Emits.wrap (ctx : String) (h : Emits R bs x) : Emits R bs (wrapOn ctx x) := by
  intro s t hst
  obtain ⟨t', hx, hst'⟩ := h s t hst
  exact ⟨t', by simp only [wrapOn, hx], hst'⟩

theorem Emits.seq (h : Emits R bs x) (h' : Emits R cs y) : Emits R (bs ++ cs) (do x; y) := by
  intro s t hst
  obtain ⟨t', hx, hst'⟩ := h s t hst
  obtain ⟨t'', hy, hst''⟩ := h' _ t' hst'
  refine ⟨t'', ?_, by rwa [append_assoc] at hst''⟩
  simp only [Bind.bind, StateT.bind, hx, Except.bind, hy]

theorem Emits.nil : Emits R [] (pure () : On τ Unit) := fun s t hst => ⟨t, rfl, (append_nil s).symm ▸ hst⟩

theorem Emits.sim (hp : ∀ s, p s = .ok ((), s ++ bs)) (h : Emits R bs x) : Sim R p x := by
  intro s t hst
  obtain ⟨t', hx, hst'⟩ := h s t hst
  exact .inr ⟨(), _, t', hp s, hx, hst'⟩

/-- The helpers of a writer write what they are for. -/
structure Emitter (R : Bytes → τ → Prop) (w : Sink τ) : Prop where
  write : ∀ bs, Emits R bs (w.write bs)
  uint8 : ∀ v, Emits R (leBytes 1 v.toNat) (w.uint8 v)
  uint16 : ∀ v, Emits R (leBytes 2 v.toNat) (w.uint16 v)
  uint32 : ∀ v, Emits R (leBytes 4 v.toNat) (w.uint32 v)
  uint64 : ∀ v, Emits R (leBytes 8 v.toNat) (w.uint64 v)
  string : ∀ s, ∃ p, w.string s = checked s p ∧ (s.length ≤ maxStringLen → Emits R (leBytes 2 s.length ++ s) p)
  qid : ∀ q, Emits R q.bytes (w.qid q)

theorem toNat_length {s : Bytes} (h : s.length ≤ maxStringLen) : (UInt16.ofNat s.length).toNat = s.length :=
  UInt16.toNat_ofNat_of_lt (Nat.lt_succ_of_le h)

theorem Like.of_emits (h : Emitter R w) : Like R plain w where
  write bs := (h.write bs).sim fun _ => rfl
  uint8 v := (h.uint8 v).sim fun _ => rfl
  uint16 v := (h.uint16 v).sim fun _ => rfl
  uint32 v := (h.uint32 v).sim fun _ => rfl
  uint64 v := (h.uint64 v).sim fun _ => rfl
  string s := by
    obtain ⟨p, hp, hemits⟩ := h.string s
    rw [hp]
    show Sim R (checked s do writeUint16 (UInt16.ofNat s.length); put s) (checked s p)
    refine .checked s fun hlen => (hemits hlen).sim fun b => ?_
    show Except.ok ((), b ++ leBytes 2 (UInt16.ofNat s.length).toNat ++ s) = _
    rw [toNat_length hlen, append_assoc]
  qid q := (h.qid q).sim fun b => by
    show Except.ok ((), b ++ leBytes 1 q.type.toNat ++ leBytes 4 q.version.toNat ++ leBytes 8 q.path.toNat) = _
    rw [append_assoc, append_assoc]
    rfl

end Emits

/-! ## The writers -/

theorem plain_emitter (pre : Bytes) : Emitter (fun s t => t = pre ++ s) plain := by
  have hput {bs : Bytes} {x : On Bytes Unit} (hx : ∀ t, x t = .ok ((), t ++ bs)) :
      Emits (fun s t => t = pre ++ s) bs x := by
    rintro s t rfl
    exact ⟨_, hx _, append_assoc _ _ _⟩
  refine ⟨fun _ => hput fun _ => rfl, fun _ => hput fun _ => rfl, fun _ => hput fun _ => rfl, fun _ => hput fun _ => rfl,
    fun _ => hput fun _ => rfl, fun s => ⟨do writeUint16 (UInt16.ofNat s.length); put s, rfl, fun hlen => hput fun t => ?_⟩,
    fun q => hput fun t => ?_⟩
  · show Except.ok ((), t ++ leBytes 2 (UInt16.ofNat s.length).toNat ++ s) = _
    rw [toNat_length hlen, append_assoc]
  · show Except.ok ((), t ++ leBytes 1 q.type.toNat ++ leBytes 4 q.version.toNat ++ leBytes 8 q.path.toNat) = _
    rw [append_assoc, append_assoc]
    rfl

theorem buffer_emitter : Emitter Eq buffer := by
  have hput {bs : Bytes} {x : On Bytes Unit} (hx : ∀ t, x t = .ok ((), t ++ bs)) : Emits Eq bs x := by
    rintro s t rfl
    exact ⟨_, hx _, rfl⟩
  exact ⟨fun _ => hput fun _ => rfl, fun _ => hput fun _ => rfl, fun _ => hput fun _ => rfl, fun _ => hput fun _ => rfl,
    fun _ => hput fun _ => rfl, fun s => ⟨_, rfl, fun _ => hput fun _ => rfl⟩, fun _ => hput fun _ => rfl⟩

theorem counter_emitter (k : Nat) : Emitter (fun s n => n = k + s.length) counter := by
  have hadd {bs : Bytes} {x : On Nat Unit} {j : Nat} (hx : ∀ n, x n = .ok ((), n + j)) (hj : bs.length = j) :
      Emits (fun s n => n = k + s.length) bs x := by
    rintro s n rfl
    refine ⟨_, hx _, ?_⟩
    show k + s.length + j = k + (s ++ bs).length
    rw [length_append, hj, Nat.add_assoc]
  refine ⟨fun _ => hadd (fun _ => rfl) rfl, fun _ => hadd (fun _ => rfl) rfl, fun _ => hadd (fun _ => rfl) rfl,
    fun _ => hadd (fun _ => rfl) rfl, fun _ => hadd (fun _ => rfl) rfl, fun s => ⟨_, rfl, fun _ => hadd (fun _ => rfl) ?_⟩,
    fun q => ?_⟩
  · rw [length_append, length_leBytes]
  · exact .seq (.wrap _ (hadd (fun _ => rfl) rfl)) (.seq (.wrap _ (hadd (fun _ => rfl) rfl))
      (.wrap _ (hadd (fun _ => rfl) rfl)))

theorem fallback_emitter : Emitter (fun s (ws : List Bytes) => ws.flatten = s) fallback := by
  have hlog (bs : Bytes) : Emits (fun s (ws : List Bytes) => ws.flatten = s) bs (logged bs) := by
    rintro s ws rfl
    exact ⟨_, rfl, by simp⟩
  refine ⟨hlog, fun _ => hlog _, fun _ => hlog _, fun _ => hlog _, fun _ => hlog _, fun s => ⟨_, rfl, fun hlen => ?_⟩,
    fun q => .seq (.wrap _ (hlog _)) (.seq (.wrap _ (hlog _)) (.wrap _ (hlog _)))⟩
  rw [toNat_length hlen]
  refine .seq (.wrap _ (hlog _)) ?_
  split
  · exact .wrap _ (hlog s)
  · rename_i hempty
    obtain rfl : s = [] := length_eq_zero_iff.1 (by omega)
    exact .nil

end Sinks

open Sinks

/-! ## Messages on their way out -/

/-- A message that a side sends; the pooled ones embed a message of the wire. -/
inductive Outgoing
  | l (m : P9l.Msg)
  | u (m : P9u.Msg)
  | pooledRread (r : Rread)
  | pooledRreaddir (r : P9l.Rreaddir)

namespace Outgoing

def type : Outgoing → MessageType
  | .l m | .u m => m.type
  | .pooledRread _ => typeRread
  | .pooledRreaddir _ => typeRreaddir

def encodeTo : Outgoing → Writer Unit
  | .l m | .u m => m.encodeTo
  | .pooledRread r | .pooledRreaddir r => r.encodeTo

def decodeFrom : Outgoing → Reader Outgoing
  | .l m => .l <$> m.decodeFrom
  | .u m => .u <$> m.decodeFrom
  | .pooledRread _ => .pooledRread <$> Rread.decodeFrom
  | .pooledRreaddir _ => .pooledRreaddir <$> P9l.Rreaddir.decodeFrom

instance : Message Outgoing := ⟨type, encodeTo, decodeFrom⟩

def encodeOn {σ : Type} (w : Sink σ) : Outgoing → On σ Unit
  | .l m | .u m => m.encodeOn w
  | .pooledRread r | .pooledRreaddir r => r.encodeOn w

/-- `EncodeFixed` into a buffer and `Payload`, if the message is a `Payloader`. -/
def payloader : Outgoing → Option (On Bytes Unit × Bytes)
  | .l (.base (.rread m)) | .u (.base (.rread m)) | .pooledRread m | .l (.base (.twrite m)) | .u (.base (.twrite m))
  | .l (.rreaddir m) | .pooledRreaddir m => some (m.encodeFixedOn buffer, m.data)
  | _ => none

instance : BoundedMessage Outgoing where
  writesLe m := by
    cases m with
    | l m | u m => exact BoundedMessage.writesLe m
    | pooledRread r => exact BoundedMessage.writesLe (P9l.Msg.base (.rread r))
    | pooledRreaddir r => exact BoundedMessage.writesLe (P9l.Msg.rreaddir r)

theorem encodeOn_plain (m : Outgoing) : m.encodeOn plain = m.encodeTo := by
  cases m with
  | l m | u m => exact m.encodeOn_plain
  | pooledRread r => exact (BaseMessage.rread r).encodeOn_plain
  | pooledRreaddir r => exact (P9l.Msg.rreaddir r).encodeOn_plain

variable {τ : Type} {R : Bytes → τ → Prop}

theorem encodeOn_sim {σ : Type} {R : σ → τ → Prop} {v : Sink σ} (h : Like R v w) (m : Outgoing) :
    Sim R (m.encodeOn v) (m.encodeOn w) := by
  cases m with
  | l m | u m => exact m.encodeOn_sim h
  | pooledRread r => exact (BaseMessage.rread r).encodeOn_sim h
  | pooledRreaddir r => exact (P9l.Msg.rreaddir r).encodeOn_sim h

theorem encodeOn_cases (h : Emitter R w) (m : Outgoing) (ht : R [] t) :
    ((∃ e, m.encodeTo [] = .error e) ∧ ∃ e, m.encodeOn w t = .error e) ∨
      ∃ body t', m.encodeTo [] = .ok ((), body) ∧ m.encodeOn w t = .ok ((), t') ∧ R body t' := by
  have hsim := m.encodeOn_sim (Like.of_emits h) [] t ht
  rw [m.encodeOn_plain] at hsim
  rcases hsim with herr | ⟨⟨⟩, body, t', hs, ht, hR⟩
  · exact .inl herr
  · exact .inr ⟨body, t', hs, ht, hR⟩

variable {m : Outgoing}

theorem encodeOn_ok (h : Emitter R w) (henc : m.encodeTo [] = .ok ((), body)) (ht : R [] t) :
    ∃ t', m.encodeOn w t = .ok ((), t') ∧ R body t' := by
  rcases m.encodeOn_cases h ht with ⟨⟨e, herr⟩, -⟩ | ⟨body', t', henc', hw, hR⟩
  · exact nomatch herr.symm.trans henc
  · obtain ⟨-, rfl⟩ := Prod.mk.inj (Except.ok.inj (henc'.symm.trans henc))
    exact ⟨t', hw, hR⟩

theorem encodeOn_error (h : Emitter R w) (henc : m.encodeTo [] = .error e) (ht : R [] t) :
    ∃ e, m.encodeOn w t = .error e := by
  rcases m.encodeOn_cases h ht with ⟨-, herr⟩ | ⟨body', t', henc', -, -⟩
  · exact herr
  · exact nomatch henc'.symm.trans henc

theorem encodeTo_append (henc : m.encodeTo [] = .ok ((), body)) (out : Bytes) : m.encodeTo out = .ok ((), out ++ body) := by
  obtain ⟨t', hw, rfl⟩ := encodeOn_ok (plain_emitter out) henc (t := out) (append_nil out).symm
  rwa [m.encodeOn_plain] at hw

theorem encodeTo_error (henc : m.encodeTo [] = .error e) (out : Bytes) : ∃ e, m.encodeTo out = .error e := by
  obtain ⟨e', he'⟩ := encodeOn_error (plain_emitter out) henc (t := out) (append_nil out).symm
  exact ⟨e', m.encodeOn_plain ▸ he'⟩

theorem encodeOn_buffer (m : Outgoing) (out : Bytes) :
    ((∃ e, m.encodeTo out = .error e) ∧ ∃ e, m.encodeOn buffer out = .error e) ∨
      m.encodeOn buffer out = m.encodeTo out := by
  have hsim := m.encodeOn_sim (Like.of_emits buffer_emitter) out out rfl
  rw [m.encodeOn_plain] at hsim
  rcases hsim with herr | ⟨⟨⟩, s, t, hs, ht, rfl⟩
  · exact .inl herr
  · exact .inr (ht.trans hs.symm)

end Outgoing

/-! ## Frames in parts -/

/-- The body buffer and the payload of `sendResponseInline` and `writeT`. -/
def encodeParts (m : Outgoing) : Except Err (Bytes × Bytes) :=
  match m.payloader with
  | some (fixed, payload) => (fixed []).map fun r => (r.2, payload)
  | none => (m.encodeOn buffer []).map fun r => (r.2, [])

def encHdr (size : UInt32) (t : MessageType) (tag : Tag) : Bytes := leBytes 4 size.toNat ++ [t] ++ leBytes 2 tag.toNat

/-- `encBufsArr`: an empty payload has no buffer of its own. -/
def encBufs (hdr body payload : Bytes) : List Bytes := hdr :: body :: if payload.length > 0 then [payload] else []

/-- `wire.WriteFramesLocked` on a transport that accepts. -/
def writeFramesLocked (bufs : List Bytes) : Writer Unit := put bufs.flatten

def wireSize (body payload : Bytes) : UInt32 := headerSize + UInt32.ofNat body.length + UInt32.ofNat payload.length

/-- `sendResponseInline`; an error stands for the `sendError` in place of the message. -/
def sendResponseInline (tag : Tag) (msg : Outgoing) : Writer Unit := do
  let parts ← result (encodeParts msg)
  writeFramesLocked (encBufs (encHdr (wireSize parts.1 parts.2) msg.type tag) parts.1 parts.2)

/-- `writeT` on an open connection: the size of the frame. -/
def writeT (msize : UInt32) (tag : Tag) (msg : Outgoing) : Writer UInt32 := do
  let parts ← wrap s!"client: encode {messageTypeString msg.type}" (result (encodeParts msg))
  let size := wireSize parts.1 parts.2
  failIf (size > msize) (.msg s!"client: frame size {size} exceeds negotiated msize {msize}")
  writeFramesLocked (encBufs (encHdr size msg.type tag) parts.1 parts.2)
  return size

/-- The two parts are those of the whole, or both are refused. -/
def PartsOk (m : Outgoing) : Prop :=
  ((∃ e, encodeParts m = .error e) ∧ ∃ e, m.encodeOn buffer [] = .error e) ∨
    ∃ body payload, encodeParts m = .ok (body, payload) ∧ m.encodeOn buffer [] = .ok ((), body ++ payload)

theorem partsOk_payload {m : Outgoing} (fixed : On Bytes Unit) (ctx : String) (data : Bytes)
    (hparts : encodeParts m = (fixed []).map fun r => (r.2, data))
    (henc : m.encodeOn buffer = do fixed; payloadOn buffer ctx data) : PartsOk m := by
  rw [PartsOk, hparts, henc]
  rcases hfixed : fixed [] with e | ⟨⟨⟩, body⟩
  · exact .inl ⟨⟨e, rfl⟩, e, by simp only [Bind.bind, StateT.bind, hfixed, Except.bind]⟩
  · refine .inr ⟨body, data, rfl, ?_⟩
    simp only [Bind.bind, StateT.bind, hfixed, Except.bind, payloadOn]
    split
    · rfl
    · rename_i hempty
      obtain rfl : data = [] := length_eq_zero_iff.1 (by omega)
      rw [append_nil]
      rfl

theorem partsOk_whole (hnone : m.payloader = none) : PartsOk m := by
  unfold PartsOk encodeParts
  rw [hnone]
  rcases henc : m.encodeOn buffer [] with e | ⟨⟨⟩, body⟩
  · exact .inl ⟨⟨e, rfl⟩, e, rfl⟩
  · exact .inr ⟨body, [], rfl, by rw [append_nil]⟩

theorem encodeParts_cases (m : Outgoing) : PartsOk m := by
  cases m with
  | pooledRread r | pooledRreaddir r => exact partsOk_payload _ _ _ rfl rfl
  | l m =>
    cases m with
    | rreaddir r => exact partsOk_payload _ _ _ rfl rfl
    | base m =>
      cases m with
      | rread r | twrite r => exact partsOk_payload _ _ _ rfl rfl
      | _ => exact partsOk_whole rfl
    | _ => exact partsOk_whole rfl
  | u m =>
    cases m with
    | base m =>
      cases m with
      | rread r | twrite r => exact partsOk_payload _ _ _ rfl rfl
      | _ => exact partsOk_whole rfl
    | _ => exact partsOk_whole rfl

theorem toNat_size (h : (body ++ payload).length ≤ maxBody) :
    (wireSize body payload).toNat = 7 + (body ++ payload).length := by
  rw [length_append] at h ⊢
  have hmax : 7 + maxBody < 2 ^ 32 := by decide
  have hpayload : (UInt32.ofNat payload.length).toNat = payload.length :=
    UInt32.toNat_ofNat_of_lt (show payload.length < 2 ^ 32 by omega)
  rw [wireSize, UInt32.toNat_add, toNat_frameSize (by omega), hpayload, Nat.mod_eq_of_lt (by omega), Nat.add_assoc]

theorem encBufs_flatten {t : MessageType} (h : (body ++ payload).length ≤ maxBody) :
    (encBufs (encHdr (wireSize body payload) t tag) body payload).flatten = frameBytes t tag (body ++ payload) := by
  have hflat : (if payload.length > 0 then [payload] else []).flatten = payload := by
    split
    · simp
    · rename_i hempty
      obtain rfl : payload = [] := length_eq_zero_iff.1 (by omega)
      rfl
  rw [encBufs, flatten_cons, flatten_cons, hflat, encHdr, toNat_size h]
  simp [frameBytes]

section Body

variable {m : Outgoing}

theorem encodeOn_buffer_of_body (henc : m.encodeTo [] = .ok ((), body)) (out : Bytes) :
    m.encodeOn buffer out = .ok ((), out ++ body) := by
  have hout := Outgoing.encodeTo_append henc out
  rcases m.encodeOn_buffer out with ⟨⟨e, herr⟩, -⟩ | heq
  · exact nomatch herr.symm.trans hout
  · exact heq.trans hout

theorem encodeParts_of_body (henc : m.encodeTo [] = .ok ((), body)) :
    ∃ fixed payload, encodeParts m = .ok (fixed, payload) ∧ body = fixed ++ payload := by
  have hbuffer := encodeOn_buffer_of_body henc []
  rcases encodeParts_cases m with ⟨-, e, herr⟩ | ⟨fixed, payload, hp, hok⟩
  · exact nomatch herr.symm.trans hbuffer
  · exact ⟨fixed, payload, hp, (Prod.mk.inj (Except.ok.inj (hbuffer.symm.trans hok))).2⟩

theorem encodeFrame_of_body (henc : m.encodeTo [] = .ok ((), body)) :
    encodeFrame tag m out = .ok ((), out ++ frameBytes m.type tag body) := by
  refine encodeFrame_ok.2 ⟨_, Outgoing.encodeTo_append henc zeroHeader, ?_⟩
  rw [putAt_header]
  rfl

theorem writeFramesLocked_parts (hlen : (fixed ++ payload).length ≤ maxBody) :
    writeFramesLocked (encBufs (encHdr (wireSize fixed payload) m.type tag) fixed payload) out =
      .ok ((), out ++ frameBytes m.type tag (fixed ++ payload)) := by
  rw [writeFramesLocked, put_run, encBufs_flatten hlen]

theorem sendResponseInline_of_body (henc : m.encodeTo [] = .ok ((), body)) :
    sendResponseInline tag m out = .ok ((), out ++ frameBytes m.type tag body) := by
  have hlen : body.length ≤ maxBody := length_body (m := m) henc
  obtain ⟨fixed, payload, hparts, rfl⟩ := encodeParts_of_body henc
  exact bind_ok.2 ⟨(fixed, payload), out, result_ok.2 ⟨hparts, rfl⟩, writeFramesLocked_parts hlen⟩

theorem writeT_of_body (msize : UInt32) (tag : Tag) (out : Bytes) (henc : m.encodeTo [] = .ok ((), body)) :
    if 7 + body.length > msize.toNat then ∀ r, writeT msize tag m out ≠ .ok r
    else ∃ size, writeT msize tag m out = .ok (size, out ++ frameBytes m.type tag body) ∧
      size.toNat = (frameBytes m.type tag body).length := by
  have hlen : body.length ≤ maxBody := length_body (m := m) henc
  obtain ⟨fixed, payload, hparts, rfl⟩ := encodeParts_of_body henc
  have hsize := toNat_size hlen
  have hover : wireSize fixed payload > msize ↔ 7 + (fixed ++ payload).length > msize.toNat := by
    rw [gt_iff_lt, UInt32.lt_iff_toNat_lt, hsize]
  split
  · rename_i hbig
    intro r hr
    obtain ⟨parts, out', hp, hr⟩ := bind_ok.1 hr
    obtain ⟨heq, -⟩ := result_ok.1 (wrap_ok.1 hp)
    obtain rfl := Except.ok.inj (hparts.symm.trans heq)
    exact (failIf_bind_ok.1 hr).1 (hover.2 hbig)
  · rename_i hfits
    refine ⟨wireSize fixed payload, ?_, by rw [hsize, length_frameBytes]⟩
    refine bind_ok.2 ⟨(fixed, payload), out, wrap_ok.2 (result_ok.2 ⟨hparts, rfl⟩), ?_⟩
    exact failIf_bind_ok.2 ⟨mt hover.1 hfits, bind_ok.2 ⟨(), _, writeFramesLocked_parts hlen, rfl⟩⟩

end Body

/-- **All encoders agree.**  Either no encoder and no writer encodes the message, or there is a body such that every
encoder emits the frame of that body (`writeT` if it is within the msize), every buffer and every other writer receives
exactly that body, and a byte counter goes up by its length. -/
theorem frame_encoders_agree (m : Outgoing) (tag : Tag) (msize : UInt32) :
    (∀ out : Bytes,
      (∃ e, encodeFrame tag m out = .error e) ∧ (∃ e, writeRaw tag m out = .error e) ∧
      (∃ e, sendResponseInline tag m out = .error e) ∧ (∃ e, writeT msize tag m out = .error e) ∧
      (∃ e, m.encodeOn buffer out = .error e) ∧ (∃ e, m.encodeOn fallback [] = .error e) ∧
      ∀ n, ∃ e, m.encodeOn counter n = .error e) ∨
    ∃ body : Bytes, ∀ out : Bytes,
      encodeFrame tag m out = .ok ((), out ++ frameBytes m.type tag body) ∧
      writeRaw tag m out = .ok ((), out ++ frameBytes m.type tag body) ∧
      sendResponseInline tag m out = .ok ((), out ++ frameBytes m.type tag body) ∧
      (if 7 + body.length > msize.toNat then ∃ e, writeT msize tag m out = .error e
        else ∃ size, writeT msize tag m out = .ok (size, out ++ frameBytes m.type tag body) ∧
          size.toNat = (frameBytes m.type tag body).length) ∧
      m.encodeOn buffer out = .ok ((), out ++ body) ∧
      (∃ ws, m.encodeOn fallback [] = .ok ((), ws) ∧ ws.flatten = body) ∧
      ∀ n, m.encodeOn counter n = .ok ((), n + body.length) := by
  have hfail {β : Type} {x : Except Err β} (h : ∀ r, x ≠ .ok r) : ∃ e, x = .error e := by
    cases x with
    | error e => exact ⟨e, rfl⟩
    | ok r => exact absurd rfl (h r)
  rcases henc : m.encodeTo [] with e | ⟨⟨⟩, body⟩
  · -- no encoder gets past the body
    refine .inl fun out => ?_
    have hbuffer (out : Bytes) : ∃ e, m.encodeOn buffer out = .error e := by
      rcases m.encodeOn_buffer out with ⟨-, herr⟩ | heq
      · exact herr
      · exact heq ▸ Outgoing.encodeTo_error henc out
    have hparts (r : Bytes × Bytes) : encodeParts m ≠ .ok r := by
      intro hr
      rcases encodeParts_cases m with ⟨⟨e, herr⟩, -⟩ | ⟨body, payload, -, hok⟩
      · exact nomatch herr.symm.trans hr
      · obtain ⟨e, herr⟩ := hbuffer []
        exact nomatch herr.symm.trans hok
    refine ⟨hfail fun r hr => ?_, hfail fun r hr => ?_, hfail fun r hr => ?_, hfail fun r hr => ?_, hbuffer out,
      Outgoing.encodeOn_error fallback_emitter henc rfl, fun n => Outgoing.encodeOn_error (counter_emitter n) henc rfl⟩
    · obtain ⟨b, hb, -⟩ := encodeFrame_ok.1 hr
      obtain ⟨e, herr⟩ := Outgoing.encodeTo_error henc zeroHeader
      exact nomatch herr.symm.trans hb
    · obtain ⟨b, out', hb, -⟩ := bind_ok.1 hr
      exact nomatch henc.symm.trans (wrap_ok.1 (result_ok.1 hb).1)
    · obtain ⟨parts, out', hp, -⟩ := bind_ok.1 hr
      exact hparts parts (result_ok.1 hp).1
    · obtain ⟨parts, out', hp, -⟩ := bind_ok.1 hr
      exact hparts parts (result_ok.1 (wrap_ok.1 hp)).1
  · refine .inr ⟨body, fun out => ?_⟩
    obtain ⟨ws, hws, hflatten⟩ := Outgoing.encodeOn_ok fallback_emitter henc (t := []) rfl
    have hsend := writeT_of_body msize tag out henc
    refine ⟨encodeFrame_of_body henc, writeRaw_frame tag m henc (length_body (m := m) henc) out,
      sendResponseInline_of_body henc, ?_, encodeOn_buffer_of_body henc out, ⟨ws, hws, hflatten⟩, fun n => ?_⟩
    · split
      · rename_i hbig
        rw [if_pos hbig] at hsend
        exact hfail hsend
      · rename_i hfits
        rwa [if_neg hfits] at hsend
    · obtain ⟨n', hn, rfl⟩ := Outgoing.encodeOn_ok (counter_emitter n) henc (t := n) rfl
      exact hn

end NineP.Proto
