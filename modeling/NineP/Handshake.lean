import NineP.Proto.Transport
import NineP.Server.Negotiation

/-!
# The handshake

`Dial` of `client/dial.go` against `negotiateVersion` of `server/conn.go`: the bytes that one side writes are the bytes
that the other side reads, and a side that gives up closes the connection.
-/

namespace NineP.Handshake

open Codec Proto List
open Server.Negotiation (Protocol Params NegotiationResult negotiate negotiate_version minMsize maxVersionFrame versionL
  versionU versionUnknown)

/-! ## The server -/

def errNotNegotiated : Err := .msg "version not negotiated"

/-- What `negotiateVersion` reads: the first frame, in full. -/
def readVersion (maxMsize : UInt32) : Reader (Tag × Tversion) := do
  let size ← wrap "read version size" readSize
  let limit := min maxMsize maxVersionFrame
  failIf (size > limit) (.msg s!"version frame size {size} exceeds maximum {limit}")
  let msgType ← wrap "read version type" readUint8
  failIf (msgType ≠ typeTversion) errNotNegotiated
  let tag ← wrap "read version tag" readUint16
  let body ← wrap "read tversion body" (readFull (size - headerSize).toNat)
  let r ← result (wrap "decode tversion" Tversion.decodeFrom body)
  return (tag, r.1)

/-- `negotiateVersion` on what the client sent: what is written, and the outcome. -/
def negotiateVersion (maxMsize : UInt32) (nc : Bytes) : Bytes × Except Err Params :=
  match readVersion maxMsize nc with
  | .error e => ([], .error e)
  | .ok ((tag, tver), _) =>
    match negotiate maxMsize tver with
    | none => ([], .error (.msg "msize too small"))
    | some res =>
      match writeRaw tag (BaseMessage.rversion ⟨res.msize, res.version⟩) [] with
      | .error e => ([], .error (.wrap "send rversion" e))
      | .ok (_, out) => (out, if res.selected = .none then .error errNotNegotiated else .ok ⟨res.msize, res.selected⟩)

/-! ## The client -/

/-- The part of `config` that the handshake reads. -/
structure Config where
  msize : UInt32
  version : Bytes
  err : Option Err
  deriving DecidableEq

def newConfig : Config := ⟨1048576, [], none⟩

/-- `setError`: the first error stays. -/
def Config.setError (c : Config) (e : Err) : Config := { c with err := c.err <|> some e }

inductive Opt
  | withVersion (v : Bytes)
  | withMsize (n : UInt32)
  deriving DecidableEq

def Config.apply (c : Config) : Opt → Config
  | .withVersion v => { c with version := v }
  | .withMsize n =>
    let c := { c with msize := n }
    if n < minMsize then c.setError (.msg "client: msize too small")
    else if n > maxMessageSize then c.setError (.msg "client: msize too large")
    else c

/-- The configuration that `Dial` makes of its options. -/
def config (opts : List Opt) : Config := opts.foldl Config.apply newConfig

/-- "9P2000" -/
def versionBare : Bytes := [57, 80, 50, 48, 48, 48]

def Config.proposedVersion (c : Config) : Bytes := if c.version ≠ [] then c.version else versionL

def noTag : Tag := 0xFFFF

/-- What `Dial` writes. -/
def send (cfg : Config) : Except Err Bytes :=
  match cfg.err with
  | some e => .error (.wrap "client.Dial: invalid configuration" e)
  | none =>
    match wrap "client.Dial: encode Tversion" (Tversion.encodeTo ⟨cfg.msize, cfg.proposedVersion⟩) [] with
    | .error e => .error e
    | .ok (_, body) =>
      let size := headerSize + UInt32.ofNat body.length
      .ok (leBytes 4 size.toNat ++ [typeTversion] ++ leBytes 2 noTag.toNat ++ body)

/-- The dialect of a version: the bare one counts as `.u`. -/
def dialect (version : Bytes) : Option Protocol :=
  if version = versionL then some .l
  else if version = versionU ∨ version = versionBare then some .u
  else none

/-- What `Dial` takes from an Rversion. -/
def settle (cfg : Config) (rver : Rversion) : Except Err Params :=
  if cfg.version ≠ [] ∧ rver.version ≠ cfg.version then
    .error (.msg "client: version mismatch: exact version match failed")
  else
    match dialect rver.version with
    | none => .error (.msg "client: version mismatch")
    | some p =>
      let negotiated := min rver.msize cfg.msize
      if negotiated < minMsize then .error (.msg "client: msize too small") else .ok ⟨negotiated, p⟩

/-- What `Dial` makes of the answer. -/
def receive (cfg : Config) : Reader Params := do
  let rsize ← wrap "client.Dial: read Rversion size" readSize
  failIf (rsize > cfg.msize) (.msg "client.Dial: invalid Rversion size")
  let bodyBuf ← wrap "client.Dial: read Rversion body" (readFull (rsize.toNat - 4))
  failIf (bodyBuf.length < 3) (.msg "client.Dial: Rversion body too small")
  failIf (leAt 0 1 bodyBuf ≠ typeRversion.toNat) (.msg "client.Dial: expected Rversion")
  failIf (leAt 1 2 bodyBuf ≠ noTag.toNat) (.msg "client.Dial: Rversion tag")
  let rver ← result (wrap "client.Dial: decode Rversion" Rversion.decodeFrom (bodyBuf.drop 3))
  result (settle cfg rver.1)

/-- `Dial` against a server, and the server's `negotiateVersion`. -/
def handshake (cfg : Config) (maxMsize : UInt32) : Except Err Params × Except Err Params :=
  match send cfg with
  | .error e => (.error e, (negotiateVersion maxMsize []).2)
  | .ok out => ((receive cfg (negotiateVersion maxMsize out).1).map Prod.fst, (negotiateVersion maxMsize out).2)

/-! ## The frames between the two -/

variable {cfg : Config} {maxMsize : UInt32} {body : Bytes}

theorem toNat_min (a b : UInt32) : (min a b).toNat = min a.toNat b.toNat := by
  show (if a ≤ b then a else b).toNat = min a.toNat b.toNat
  split
  · rename_i h
    exact (Nat.min_eq_left (UInt32.le_iff_toNat_le.1 h)).symm
  · rename_i h
    exact (Nat.min_eq_right (Nat.le_of_lt (Nat.not_le.1 fun hle => h (UInt32.le_iff_toNat_le.2 hle)))).symm

theorem config_msize (opts : List Opt) (h : (config opts).err = none) : minMsize ≤ (config opts).msize := by
  have hfold : ∀ (opts : List Opt) (c : Config), (c.err = none → minMsize ≤ c.msize) →
      (opts.foldl Config.apply c).err = none → minMsize ≤ (opts.foldl Config.apply c).msize := by
    intro opts
    induction opts with
    | nil => exact fun c hc => hc
    | cons o opts ih =>
      intro c hc
      refine ih (c.apply o) fun herr => ?_
      cases o with
      | withVersion v => exact hc herr
      | withMsize n =>
        unfold Config.apply at herr ⊢
        simp only at herr ⊢
        split at herr
        · exact absurd herr (by cases c.err <;> simp [Config.setError])
        · rename_i hmin
          split at herr
          · exact absurd herr (by cases c.err <;> simp [Config.setError])
          · rename_i hmax
            rw [if_neg hmin, if_neg hmax]
            exact UInt32.not_lt.1 hmin
  exact hfold opts newConfig (fun _ => by decide) h

theorem send_ok (h : send cfg = .ok out) :
    cfg.err = none ∧ ∃ body, out = frameBytes typeTversion noTag body ∧ body.length ≤ maxBody ∧
      Tversion.decodeFrom body = .ok (⟨cfg.msize, cfg.proposedVersion⟩, []) := by
  unfold send at h
  split at h
  · exact nomatch h
  · rename_i herr
    split at h
    · exact nomatch h
    · rename_i u buf henc
      obtain rfl := Except.ok.inj h
      obtain ⟨body, hbuf, hlen, hdec⟩ := Tversion.codec.fwd trivial (wrap_ok.1 henc)
      obtain rfl : buf = body := hbuf
      refine ⟨herr, buf, ?_, hlen, by simpa using hdec []⟩
      rw [toNat_frameSize hlen]
      simp [frameBytes]

theorem readVersion_frame (maxMsize : UInt32) (tag : Tag) {tver : Tversion} (hlen : body.length ≤ maxBody)
    (hdec : Tversion.decodeFrom body = .ok (tver, [])) :
    if (min maxMsize maxVersionFrame).toNat < 7 + body.length then
      ∃ e, readVersion maxMsize (frameBytes typeTversion tag body) = .error e
    else readVersion maxMsize (frameBytes typeTversion tag body) = .ok ((tag, tver), []) := by
  have hsize := readSize_frame typeTversion tag [] hlen
  rw [append_nil, append_nil] at hsize
  have hover : headerSize + UInt32.ofNat body.length > min maxMsize maxVersionFrame ↔
      (min maxMsize maxVersionFrame).toNat < 7 + body.length := by
    rw [gt_iff_lt, UInt32.lt_iff_toNat_lt, toNat_frameSize hlen]
  have hsub : (headerSize + UInt32.ofNat body.length - headerSize).toNat = body.length := by
    rw [UInt32.toNat_sub_of_le _ _ (UInt32.le_iff_toNat_le.2 ?_), toNat_frameSize hlen]
    · exact Nat.add_sub_cancel_left 7 body.length
    · rw [toNat_frameSize hlen]
      exact Nat.le_add_right 7 body.length
  split
  · rename_i hbig
    rcases hread : readVersion maxMsize (frameBytes typeTversion tag body) with e | ⟨r, rest⟩
    · exact ⟨e, rfl⟩
    · obtain ⟨size, nc, hs, hread⟩ := bind_ok.1 hread
      obtain ⟨hfits, -⟩ := failIf_bind_ok.1 hread
      obtain ⟨rfl, rfl⟩ := Prod.mk.inj (Except.ok.inj (hsize.symm.trans (wrap_ok.1 hs)))
      exact absurd (hover.2 hbig) hfits
  · rename_i hfits
    refine bind_ok.2 ⟨_, _, wrap_ok.2 hsize, failIf_bind_ok.2 ⟨mt hover.1 hfits, ?_⟩⟩
    refine bind_ok.2 ⟨typeTversion, _, wrap_ok.2 (readUint8_ok.2 rfl), failIf_bind_ok.2 ⟨by simp, ?_⟩⟩
    refine bind_ok.2 ⟨tag, body, wrap_ok.2 (readUint16_ok.2 rfl), ?_⟩
    refine bind_ok.2 ⟨body, [], wrap_ok.2 (take_ok.2 ⟨(append_nil body).symm, hsub.symm⟩), ?_⟩
    exact bind_ok.2 ⟨(tver, []), [], result_ok.2 ⟨wrap_ok.2 hdec, rfl⟩, rfl⟩

theorem rversion_encodeTo (msize : UInt32) (p : Protocol) :
    ∃ body, Rversion.encodeTo ⟨msize, p.string⟩ [] = .ok ((), body) ∧ body.length ≤ 14 ∧
      Rversion.decodeFrom body = .ok (⟨msize, p.string⟩, []) := by
  obtain ⟨body, henc, hlen⟩ : ∃ body, Rversion.encodeTo ⟨msize, p.string⟩ [] = .ok ((), body) ∧ body.length ≤ 14 := by
    refine ⟨leBytes 4 msize.toNat ++ (leBytes 2 p.string.length ++ p.string), ?_, ?_⟩
    · cases p <;> rfl
    · rw [length_append, length_append, length_leBytes, length_leBytes]
      cases p <;> decide
  obtain ⟨b, hb, -, hdec⟩ := Rversion.codec.fwd trivial henc
  obtain rfl : body = b := hb
  exact ⟨body, henc, hlen, by simpa using hdec []⟩

/-- **What the server answers.**  A Tversion that is small enough, with an msize that is large enough, is answered with
the frame of an Rversion; any other leaves the connection without one. -/
theorem negotiateVersion_frame (maxMsize : UInt32) (tag : Tag) (hlen : body.length ≤ maxBody)
    (hdec : Tversion.decodeFrom body = .ok (tver, [])) :
    (∃ e, negotiateVersion maxMsize (frameBytes typeTversion tag body) = ([], .error e)) ∨
      ∃ res reply, negotiate maxMsize tver = some res ∧ reply.length ≤ 14 ∧
        Rversion.decodeFrom reply = .ok (⟨res.msize, res.version⟩, []) ∧
        negotiateVersion maxMsize (frameBytes typeTversion tag body) =
          (frameBytes typeRversion tag reply,
            if res.selected = .none then .error errNotNegotiated else .ok ⟨res.msize, res.selected⟩) := by
  have hread := readVersion_frame maxMsize tag hlen hdec
  unfold negotiateVersion
  split at hread
  · obtain ⟨e, he⟩ := hread
    rw [he]
    exact .inl ⟨e, rfl⟩
  · rw [hread]
    simp only
    cases hres : negotiate maxMsize tver with
    | none => exact .inl ⟨_, rfl⟩
    | some res =>
      obtain ⟨reply, henc, hshort, hrdec⟩ := rversion_encodeTo res.msize res.selected
      rw [← negotiate_version hres] at henc hrdec
      have hraw := writeRaw_frame tag (BaseMessage.rversion ⟨res.msize, res.version⟩) henc
        (Nat.le_trans hshort (by decide)) []
      simp only [hraw]
      exact .inr ⟨res, reply, rfl, hshort, hrdec, rfl⟩

/-- **What the client makes of the answer.** -/
theorem receive_frame (hlen : body.length ≤ 14) (hmsize : minMsize ≤ cfg.msize)
    (hdec : Rversion.decodeFrom body = .ok (rver, [])) :
    (receive cfg (frameBytes typeRversion noTag body)).map Prod.fst = settle cfg rver := by
  have hbody : body.length ≤ maxBody := Nat.le_trans hlen (by decide)
  have hsize := readSize_frame typeRversion noTag [] hbody
  rw [append_nil, append_nil] at hsize
  have hfits : ¬ headerSize + UInt32.ofNat body.length > cfg.msize := by
    have hmin : 256 ≤ cfg.msize.toNat := UInt32.le_iff_toNat_le.1 hmsize
    rw [gt_iff_lt, UInt32.lt_iff_toNat_lt, toNat_frameSize hbody]
    omega
  have hall : (typeRversion :: (leBytes 2 noTag.toNat ++ body)).length = (headerSize + UInt32.ofNat body.length).toNat - 4 := by
    rw [toNat_frameSize hbody, length_cons, length_append, length_leBytes]
    omega
  have hread : readFull ((headerSize + UInt32.ofNat body.length).toNat - 4)
      (typeRversion :: (leBytes 2 noTag.toNat ++ body)) = .ok (typeRversion :: (leBytes 2 noTag.toNat ++ body), []) :=
    take_ok.2 ⟨(append_nil _).symm, hall⟩
  have hthree : ¬ (typeRversion :: (leBytes 2 noTag.toNat ++ body)).length < 3 := by
    rw [length_cons, length_append, length_leBytes]
    omega
  have hrest : Rversion.decodeFrom ((typeRversion :: (leBytes 2 noTag.toNat ++ body)).drop 3) = .ok (rver, []) := hdec
  unfold receive
  rw [bind_of_ok (wrap_ok.2 hsize), bind_of_ok (failIf_ok (u := ()) |>.2 ⟨hfits, rfl⟩), bind_of_ok (wrap_ok.2 hread),
    bind_of_ok (failIf_ok (u := ()) |>.2 ⟨hthree, rfl⟩), bind_of_ok (failIf_ok (u := ()) |>.2 ⟨by simp [leAt, leNat], rfl⟩),
    bind_of_ok (failIf_ok (u := ()) |>.2 ⟨by simp [leAt, leNat, leBytes, noTag], rfl⟩),
    bind_of_ok (result_ok.2 ⟨wrap_ok.2 hrest, rfl⟩)]
  cases settle cfg rver <;> rfl

/-! ## Agreement -/

theorem dialect_string : dialect p.string = if p = .none then none else some p := by
  cases p <;> rfl

theorem negotiate_proposed (hmin : minMsize ≤ min cfg.msize maxMsize) : ∃ p : Protocol,
    negotiate maxMsize ⟨cfg.msize, cfg.proposedVersion⟩ = some ⟨min cfg.msize maxMsize, p, p.string⟩ ∧
      (p ≠ .none → p.string = cfg.proposedVersion) := by
  unfold negotiate
  simp only [if_neg (UInt32.not_lt.2 hmin)]
  split
  · rename_i hl
    exact ⟨.l, by rw [hl]; rfl, fun _ => hl.symm⟩
  · split
    · rename_i hu
      exact ⟨.u, by rw [hu]; rfl, fun _ => hu.symm⟩
    · exact ⟨.none, rfl, fun h => absurd rfl h⟩

theorem settle_string (hmin : minMsize ≤ msize) (hle : msize ≤ cfg.msize)
    (hp : p ≠ .none → p.string = cfg.proposedVersion) :
    if p = .none then ∃ e, settle cfg ⟨msize, p.string⟩ = .error e else settle cfg ⟨msize, p.string⟩ = .ok ⟨msize, p⟩ := by
  have hnegotiated : min msize cfg.msize = msize := if_pos hle
  unfold settle
  simp only [dialect_string, hnegotiated, if_neg (UInt32.not_lt.2 hmin)]
  by_cases hnone : p = .none
  · simp only [if_pos hnone]
    split
    · exact ⟨_, rfl⟩
    · exact ⟨_, rfl⟩
  · have hsame : ¬(cfg.version ≠ [] ∧ p.string ≠ cfg.version) := by
      rintro ⟨hset, hother⟩
      rw [hp hnone, Config.proposedVersion, if_pos hset] at hother
      exact hother rfl
    simp only [if_neg hnone, if_neg hsame]

/-- **The two sides agree.**  Both succeed or both fail; and if they succeed, they hold the same msize and dialect, and
the msize is at least 256 and at most what either side proposes. -/
theorem handshake_agrees (opts : List Opt) (maxMsize : UInt32) (hmin : minMsize ≤ maxMsize)
    (_hmax : maxMsize ≤ maxMessageSize) :
    ((∃ p, (handshake (config opts) maxMsize).1 = .ok p) ↔ ∃ q, (handshake (config opts) maxMsize).2 = .ok q) ∧
      ∀ p q, (handshake (config opts) maxMsize).1 = .ok p → (handshake (config opts) maxMsize).2 = .ok q →
        p = q ∧ minMsize ≤ p.msize ∧ p.msize ≤ (config opts).msize ∧ p.msize ≤ maxMsize ∧ p.protocol ≠ .none := by
  -- a handshake in which both sides fail
  have hfail {x y : Except Err Params} (hx : ∃ e, x = .error e) (hy : ∃ e, y = .error e) :
      ((∃ p, x = .ok p) ↔ ∃ q, y = .ok q) ∧ ∀ p q, x = .ok p → y = .ok q →
        p = q ∧ minMsize ≤ p.msize ∧ p.msize ≤ (config opts).msize ∧ p.msize ≤ maxMsize ∧ p.protocol ≠ .none := by
    obtain ⟨e, rfl⟩ := hx
    obtain ⟨e', rfl⟩ := hy
    exact ⟨⟨nofun, nofun⟩, nofun⟩
  unfold handshake
  cases hsend : send (config opts) with
  | error e => exact hfail ⟨e, rfl⟩ ⟨_, rfl⟩
  | ok out =>
    obtain ⟨herr, body, rfl, hlen, hdec⟩ := send_ok hsend
    have hmsize := config_msize opts herr
    have hmsizes := toNat_min (config opts).msize maxMsize
    have hboth : minMsize ≤ min (config opts).msize maxMsize := by
      rw [UInt32.le_iff_toNat_le] at hmsize hmin ⊢
      rw [hmsizes]
      exact Nat.le_min.2 ⟨hmsize, hmin⟩
    have hclient : min (config opts).msize maxMsize ≤ (config opts).msize := by
      rw [UInt32.le_iff_toNat_le, hmsizes]
      exact Nat.min_le_left _ _
    have hserver : min (config opts).msize maxMsize ≤ maxMsize := by
      rw [UInt32.le_iff_toNat_le, hmsizes]
      exact Nat.min_le_right _ _
    rcases negotiateVersion_frame maxMsize noTag hlen hdec with
      ⟨e, hanswer⟩ | ⟨res, reply, hres, hshort, hrdec, hanswer⟩
    · simp only [hanswer]
      exact hfail ⟨_, rfl⟩ ⟨e, rfl⟩
    · obtain ⟨p, hp, hname⟩ := negotiate_proposed hboth
      obtain rfl := Option.mem_unique hp hres
      have hsettle := settle_string hboth hclient hname
      simp only [hanswer]
      rw [receive_frame hshort hmsize hrdec]
      by_cases hnone : p = .none
      · rw [if_pos hnone] at hsettle ⊢
        exact hfail hsettle ⟨_, rfl⟩
      · rw [if_neg hnone] at hsettle ⊢
        rw [hsettle]
        refine ⟨⟨fun _ => ⟨_, rfl⟩, fun _ => ⟨_, rfl⟩⟩, ?_⟩
        intro q q' hq hq'
        obtain rfl := Except.ok.inj hq
        obtain rfl := Except.ok.inj hq'
        exact ⟨rfl, hboth, hclient, hserver, hnone⟩

/-- A client that proposes 8 KiB of `.u`, and a server that allows 4 KiB. -/
theorem handshake_agrees_small : ∃ p,
    (handshake (config [.withMsize 8192, .withVersion versionU]) 4096).1 = .ok p ∧
      (handshake (config [.withMsize 8192, .withVersion versionU]) 4096).2 = .ok p := by
  obtain ⟨p, hp⟩ : ∃ p, (handshake (config [.withMsize 8192, .withVersion versionU]) 4096).1 = .ok p := ⟨⟨4096, .u⟩, by decide⟩
  have h := handshake_agrees [.withMsize 8192, .withVersion versionU] 4096 (by decide) (by decide)
  obtain ⟨q, hq⟩ := h.1.1 ⟨p, hp⟩
  obtain ⟨rfl, -⟩ := h.2 p q hp hq
  exact ⟨p, hp, hq⟩

end NineP.Handshake
