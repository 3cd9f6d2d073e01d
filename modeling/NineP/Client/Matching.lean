import NineP.Client.Live
import NineP.Client.Tags

/-!
# What a caller may rely on

The steps of the others keep it, and so does its own, if its mirror tag is clear when it sends a Tflush.
-/

namespace NineP.Client

open Proto Transition Option List

variable {μ ρ : Type} {c c' : Shared μ ρ} {e i : Nat}

/-! ## What holds at each point -/

namespace Shared

def Clear (c : Shared μ ρ) (tag : Tag) : Prop := ∀ j, c.Live j → c.tagAt j ≠ some tag

/-- No T-message with this tag is live but `i`. -/
def Only (c : Shared μ ρ) (tag : Tag) (i : Nat) : Prop := ∀ j, c.Live j → c.tagAt j = some tag → j = i

/-- Entry `e` was registered under `tag`, and what its channel holds satisfies `P`. -/
def EntryOk (c : Shared μ ρ) (e : Nat) (tag : Tag) (P : Entry ρ → Msg ρ → Prop) : Prop :=
  ∃ x, c.entries[e]? = some x ∧ x.tag = tag ∧ (x.chClosed → c.closed) ∧ ∀ m, x.ch = some m → P x m

/-- Entry `e` is in the map no more. -/
def Unmapped (c : Shared μ ρ) (e : Nat) : Prop := ∀ tag, c.inflight tag ≠ some e

end Shared

/-- The message is one of the answers, to `i`, or says that it was copied. -/
def Entry.Carries (answered : List (RFrame ρ)) (x : Entry ρ) (i : Nat) : Msg ρ → Prop
  | .frame f => f ∈ answered ∧ f.id = i
  | .sentinel => ∃ f, x.dst = some f ∧ f ∈ answered ∧ f.id = i

/-- A caller that has written its T-message `i`. -/
structure Waits (c : Shared μ ρ) (msg : TMsg μ) (tag : Tag) (e i : Nat) : Prop where
  sent : c.sent[i]? = some ⟨tag, msg⟩
  only : c.Only tag i
  last : ∀ j, i < j → c.tagAt j ≠ some tag
  entry : c.EntryOk e tag fun x m => x.Carries c.answered i m ∧ ¬c.Live i

/-- What holds for a caller with message `msg`. -/
def PcOk (c : Shared μ ρ) (msg : TMsg μ) : Pc ρ → Prop
  | .acquiring => True
  | .abandoning tag _ i => c.sent[i]? = some ⟨tag, msg⟩
  | .acquired tag => c.closed ∨ c.Clear tag
  | .registered tag e => c.closed ∨ c.Clear tag ∧ c.EntryOk e tag fun _ _ => False
  | .writing tag e => c.Clear tag ∧ c.EntryOk e tag fun _ _ => False
  | .waiting tag e i | .flushing tag e i => Waits c msg tag e i
  | .received tag e i m =>
    c.sent[i]? = some ⟨tag, msg⟩ ∧ c.Clear tag ∧ ∃ x, c.entries[e]? = some x ∧ x.tag = tag ∧
      x.Carries c.answered i m
  | .returning tag e i m =>
    c.sent[i]? = some ⟨tag, msg⟩ ∧ c.Clear tag ∧ c.Unmapped e ∧
      ∃ x, c.entries[e]? = some x ∧ x.Carries c.answered i m
  | .reading e i m =>
    (∃ tag, c.sent[i]? = some ⟨tag, msg⟩) ∧ ¬c.Live i ∧ c.Unmapped e ∧
      ∃ x, c.entries[e]? = some x ∧ x.Carries c.answered i m
  | .flushRegistered tag e i fe | .flushWriting tag e i fe =>
    Waits c msg tag e i ∧ c.Clear (flushTagFor tag) ∧ c.EntryOk fe (flushTagFor tag) fun _ _ => False
  | .flushWaiting tag e i fe j =>
    Waits c msg tag e i ∧ c.Only (flushTagFor tag) j ∧ flushes c.sent j i ∧
      c.EntryOk fe (flushTagFor tag) fun _ _ => ¬c.Live i
  | .flushUnregistering tag i err =>
    c.sent[i]? = some ⟨tag, msg⟩ ∧ (c.closed ∨ c.Clear tag) ∧ (err = .closed → c.closed)
  | .unregistering tag id err | .releasing tag id err =>
    (∀ i ∈ id, c.sent[i]? = some ⟨tag, msg⟩) ∧ (c.closed ∨ c.Clear tag) ∧ (err = .closed → c.closed)
  | .failing id err | .done (.failed id err) =>
    (∀ i ∈ id, (∃ tag, c.sent[i]? = some ⟨tag, msg⟩) ∧ (c.closed ∨ ¬c.Live i)) ∧ (err = .closed → c.closed)
  | .done (.ok i f) => (f ∈ c.answered ∧ f.id = i) ∧ (∃ tag, c.sent[i]? = some ⟨tag, msg⟩) ∧ ¬c.Live i
  | .done (.abandoned i) => ∃ tag, c.sent[i]? = some ⟨tag, msg⟩

/-! ## What the steps of others do -/

/-- A step that fills no channel. -/
structure Grows (c c' : Shared μ ρ) : Prop where
  closed : c.closed → c'.closed
  sent : c.sent <+: c'.sent
  answered : c.answered ⊆ c'.answered
  live : ∀ j, j < c.sent.length → c'.Live j → c.Live j
  entry : ∀ (e : Nat) (x : Entry ρ), c.entries[e]? = some x → ∃ x' : Entry ρ, c'.entries[e]? = some x' ∧
    x'.tag = x.tag ∧ x'.dst = x.dst ∧ (∀ m, x'.ch = some m → x.ch = some m) ∧ (x'.chClosed → x.chClosed ∨ c'.closed)
  map : ∀ tag e, c'.inflight tag = some e → c.inflight tag = some e ∨ c.entries.length ≤ e

/-- No T-message with this tag is written. -/
def Spares (c c' : Shared μ ρ) (tag : Tag) : Prop := ∀ j, c.sent.length ≤ j → c'.tagAt j ≠ some tag

theorem Grows.sent_get (g : Grows c c') (h : c.sent[i]? = some t) : c'.sent[i]? = some t := by
  obtain ⟨l, hl⟩ := g.sent
  rw [← hl, getElem?_append_left (getElem?_lt h), h]

theorem Grows.tagAt (g : Grows c c') (hj : j < c.sent.length) : c'.tagAt j = c.tagAt j := by
  obtain ⟨l, hl⟩ := g.sent
  rw [Shared.tagAt, ← hl, getElem?_append_left hj]
  rfl

theorem Grows.clear (g : Grows c c') (hs : Spares c c' tag) (h : c.Clear tag) : c'.Clear tag := by
  intro j hj
  by_cases hlt : j < c.sent.length
  · rw [g.tagAt hlt]
    exact h j (g.live j hlt hj)
  · exact hs j (by omega)

theorem Grows.only (g : Grows c c') (hs : Spares c c' tag) (h : c.Only tag i) : c'.Only tag i := by
  intro j hj htag
  by_cases hlt : j < c.sent.length
  · rw [g.tagAt hlt] at htag
    exact h j (g.live j hlt hj) htag
  · exact absurd htag (hs j (by omega))

theorem Grows.closed_or_clear (g : Grows c c') (hs : Spares c c' tag) (h : c.closed ∨ c.Clear tag) :
    c'.closed ∨ c'.Clear tag :=
  h.imp g.closed (g.clear hs)

theorem Grows.not_live (g : Grows c c') (hi : c.sent[i]? = some t) (h : ¬c.Live i) : ¬c'.Live i :=
  fun hl => h (g.live i (getElem?_lt hi) hl)

theorem Entry.Carries.mono {x x' : Entry ρ}
    (hdst : x'.dst = x.dst) (hsub : answered ⊆ answered') (h : x.Carries answered i m) :
    x'.Carries answered' i m := by
  cases m with
  | frame f => exact ⟨hsub h.1, h.2⟩
  | sentinel =>
    obtain ⟨f, hf, hmem, hid⟩ := h
    exact ⟨f, hdst.trans hf, hsub hmem, hid⟩

theorem Grows.entryOk (g : Grows c c') {P P' : Entry ρ → Msg ρ → Prop}
    (hP : ∀ x x' m, x'.dst = x.dst → P x m → P' x' m) (h : c.EntryOk e tag P) : c'.EntryOk e tag P' := by
  obtain ⟨x, hx, htag, hclosed, hm⟩ := h
  obtain ⟨x', hx', htag', hdst, hch, hclosed'⟩ := g.entry e x hx
  exact ⟨x', hx', htag'.trans htag, fun h => (hclosed' h).elim (fun h => g.closed (hclosed h)) id,
    fun m h => hP x x' m hdst (hm m (hch m h))⟩

theorem Grows.carries (g : Grows c c') (h : ∃ x, c.entries[e]? = some x ∧ x.Carries c.answered i m) :
    ∃ x, c'.entries[e]? = some x ∧ x.Carries c'.answered i m := by
  obtain ⟨x, hx, hm⟩ := h
  obtain ⟨x', hx', -, hdst, -⟩ := g.entry e x hx
  exact ⟨x', hx', hm.mono hdst g.answered⟩

theorem Grows.unmapped (g : Grows c c') (hx : c.entries[e]? = some x) (h : c.Unmapped e) :
    c'.Unmapped e := by
  intro tag htag
  have hlt := getElem?_lt hx
  rcases g.map tag e htag with hold | hnew
  · exact h tag hold
  · omega

theorem Grows.flushes (g : Grows c c') (h : flushes c.sent j i) : Client.flushes c'.sent j i := by
  obtain ⟨l, hl⟩ := g.sent
  obtain ⟨_, _, hj, -⟩ := flushes_iff.1 h
  rw [← hl, flushes_append _ (getElem?_lt hj)]
  exact h

theorem Grows.waits (g : Grows c c') (hs : Spares c c' tag) (h : Waits c msg tag e i) : Waits c' msg tag e i where
  sent := g.sent_get h.sent
  only := g.only hs h.only
  last := by
    intro j hj
    by_cases hlt : j < c.sent.length
    · rw [g.tagAt hlt]
      exact h.last j hj
    · exact hs j (by omega)
  entry := g.entryOk (fun _ _ _ hdst hx => ⟨hx.1.mono hdst g.answered, g.not_live h.sent hx.2⟩) h.entry

theorem Grows.failing (g : Grows c c') {id : Option Nat} (h : PcOk c msg (.failing id err)) :
    PcOk c' msg (.failing id err) := by
  refine ⟨fun i hi => ?_, fun herr => g.closed (h.2 herr)⟩
  obtain ⟨⟨tag, hsent⟩, hlive⟩ := h.1 i hi
  exact ⟨⟨tag, g.sent_get hsent⟩, hlive.imp g.closed (g.not_live hsent)⟩

theorem PcOk.grows (g : Grows c c')
    (hs : ∀ tag, pc.tag = some tag → Spares c c' tag ∧ Spares c c' (flushTagFor tag)) (h : PcOk c msg pc) :
    PcOk c' msg pc := by
  cases pc with
  | acquiring => trivial
  | abandoning tag e i => exact g.sent_get h
  | acquired tag => exact g.closed_or_clear (hs tag rfl).1 h
  | registered tag e =>
    exact h.imp g.closed fun h => ⟨g.clear (hs tag rfl).1 h.1, g.entryOk (fun _ _ _ _ => id) h.2⟩
  | writing tag e => exact ⟨g.clear (hs tag rfl).1 h.1, g.entryOk (fun _ _ _ _ => id) h.2⟩
  | waiting tag e i | flushing tag e i => exact g.waits (hs tag rfl).1 h
  | received tag e i m =>
    obtain ⟨hsent, hclear, x, hx, htag, hm⟩ := h
    obtain ⟨x', hx', htag', hdst, -⟩ := g.entry e x hx
    exact ⟨g.sent_get hsent, g.clear (hs tag rfl).1 hclear, x', hx', htag'.trans htag,
      hm.mono hdst g.answered⟩
  | returning tag e i m =>
    obtain ⟨hsent, hclear, hmap, x, hx, hm⟩ := h
    exact ⟨g.sent_get hsent, g.clear (hs tag rfl).1 hclear, g.unmapped hx hmap, g.carries ⟨x, hx, hm⟩⟩
  | reading e i m =>
    obtain ⟨⟨tag, hsent⟩, hlive, hmap, x, hx, hm⟩ := h
    exact ⟨⟨tag, g.sent_get hsent⟩, g.not_live hsent hlive, g.unmapped hx hmap, g.carries ⟨x, hx, hm⟩⟩
  | flushRegistered tag e i fe | flushWriting tag e i fe =>
    obtain ⟨hwaits, hclear, hentry⟩ := h
    exact ⟨g.waits (hs tag rfl).1 hwaits, g.clear (hs tag rfl).2 hclear, g.entryOk (fun _ _ _ _ => id) hentry⟩
  | flushWaiting tag e i fe j =>
    obtain ⟨hwaits, honly, hfl, hentry⟩ := h
    exact ⟨g.waits (hs tag rfl).1 hwaits, g.only (hs tag rfl).2 honly, g.flushes hfl,
      g.entryOk (fun _ _ _ _ h => g.not_live hwaits.sent h) hentry⟩
  | flushUnregistering tag i err =>
    exact ⟨g.sent_get h.1, g.closed_or_clear (hs tag rfl).1 h.2.1, fun herr => g.closed (h.2.2 herr)⟩
  | unregistering tag id err | releasing tag id err =>
    obtain ⟨hsent, hclear, herr⟩ := h
    exact ⟨fun i hi => g.sent_get (hsent i hi), g.closed_or_clear (hs tag rfl).1 hclear, fun h => g.closed (herr h)⟩
  | failing id err => exact g.failing h
  | done o =>
    cases o with
    | ok i f =>
      obtain ⟨⟨hans, hid⟩, ⟨tag, hsent⟩, hlive⟩ := h
      exact ⟨⟨g.answered hans, hid⟩, ⟨tag, g.sent_get hsent⟩, g.not_live hsent hlive⟩
    | failed id err => exact g.failing h
    | abandoned i => exact h.imp fun _ => g.sent_get

/-! ## Operations that fill no channel -/

theorem Grows.of_fewer (hclosed : c.closed → c'.closed) (hsent : c'.sent = c.sent)
    (hanswered : c.answered ⊆ c'.answered) (hlive : ∀ j, c'.Live j → c.Live j) (hentries : c'.entries = c.entries)
    (hmap : c'.inflight = c.inflight) : Grows c c' where
  closed := hclosed
  sent := hsent ▸ prefix_refl _
  answered := hanswered
  live := fun j _ => hlive j
  entry := fun _ x hx => ⟨x, hentries ▸ hx, rfl, rfl, fun _ => id, .inl⟩
  map := fun _ _ h => .inl (hmap ▸ h)

theorem SameNet.grows (h : SameNet c c') (hclosed : c.closed → c'.closed) (hentries : c'.entries = c.entries)
    (hmap : c'.inflight = c.inflight) : Grows c c' :=
  .of_fewer hclosed h.sent (by simp [h.answered]) (fun j => (h.live_iff j).1) hentries hmap

theorem Grows.trans {c₁ c₂ c₃ : Shared μ ρ} (g : Grows c₁ c₂) (g' : Grows c₂ c₃) : Grows c₁ c₃ where
  closed := fun h => g'.closed (g.closed h)
  sent := g.sent.trans g'.sent
  answered := List.Subset.trans g.answered g'.answered
  live := fun j hj h => g.live j hj (g'.live j (Nat.lt_of_lt_of_le hj g.sent.length_le) h)
  entry := by
    intro e x hx
    obtain ⟨x₂, hx₂, htag₂, hdst₂, hch₂, hclosed₂⟩ := g.entry e x hx
    obtain ⟨x₃, hx₃, htag₃, hdst₃, hch₃, hclosed₃⟩ := g'.entry e x₂ hx₂
    exact ⟨x₃, hx₃, htag₃.trans htag₂, hdst₃.trans hdst₂, fun m h => hch₂ m (hch₃ m h),
      fun h => (hclosed₃ h).elim (fun h => (hclosed₂ h).imp_right g'.closed) .inr⟩
  map := by
    intro tag e h
    rcases g'.map tag e h with h | h
    · exact g.map tag e h
    · right
      by_contra hlt
      obtain ⟨x₂, hx₂, -⟩ := g.entry e _ (getElem?_eq_getElem (Nat.lt_of_not_le hlt))
      exact absurd (getElem?_lt hx₂) (Nat.not_lt.2 h)

theorem grows_acquire (free : List Tag) : Grows c { c with free } := SameNet.grows ⟨rfl, rfl, rfl⟩ id rfl rfl

theorem grows_release (maxInflight : Nat) (tag : Tag) : Grows c (c.release maxInflight tag) := by
  unfold Shared.release
  split
  · exact grows_acquire _
  · exact SameNet.grows ⟨rfl, rfl, rfl⟩ id rfl rfl

theorem grows_shutdown : Grows c c.shutdown := SameNet.grows ⟨rfl, rfl, rfl⟩ (fun _ => rfl) rfl rfl

theorem grows_answer (hmay : c.mayAnswer f.id) : Grows c (c.answer f) :=
  .of_fewer id rfl (subset_cons_self _ _) (fun _ => answer_live hmay) rfl rfl

theorem grows_readFail : Grows c { c.shutdown with hand := none, readerDone := true } :=
  .of_fewer (fun _ => rfl) rfl (List.Subset.refl _) (fun _ => drop_live) rfl rfl

theorem grows_unregister (tag : Tag) : Grows c (c.unregister tag) where
  closed := id
  sent := prefix_refl _
  answered := List.Subset.refl _
  live := fun _ _ => id
  entry := fun e x hx => ⟨x, hx, rfl, rfl, fun _ => id, .inl⟩
  map := by
    intro tag' e h
    simp only [Shared.unregister, Function.update_apply] at h
    split at h
    · cases h
    · exact .inl h

theorem grows_register (tag : Tag) (zeroCopy : Bool) : Grows c (c.register tag zeroCopy) where
  closed := id
  sent := prefix_refl _
  answered := List.Subset.refl _
  live := fun _ _ => id
  entry := by
    intro e x hx
    refine ⟨x, ?_, rfl, rfl, fun _ => id, .inl⟩
    rw [Shared.register, getElem?_append_left (getElem?_lt hx), hx]
  map := by
    intro tag' e h
    simp only [Shared.register, Function.update_apply] at h
    split at h
    · exact .inr (Nat.le_of_eq (Option.some.inj h))
    · exact .inl h

theorem grows_take (e : Nat) : Grows c (c.take e) where
  closed := id
  sent := prefix_refl _
  answered := List.Subset.refl _
  live := fun _ _ => id
  entry := by
    intro e' x hx
    by_cases he : e = e'
    · exact ⟨{ x with ch := none }, by simp [Shared.take, he, hx], rfl, rfl, by simp, .inl⟩
    · exact ⟨x, by simp [Shared.take, he, hx], rfl, rfl, fun _ => id, .inl⟩
  map := fun _ _ => .inl

theorem grows_cancelAll (hclosed : c.closed) : Grows c c.cancelAll where
  closed := id
  sent := prefix_refl _
  answered := List.Subset.refl _
  live := fun _ _ => id
  entry := by
    intro e x hx
    refine ⟨if c.inflight x.tag = some e then { x with chClosed := true } else x, ?_, ?_⟩
    · simp [Shared.cancelAll, hx]
    · split
      · exact ⟨rfl, rfl, fun _ => id, fun _ => .inr hclosed⟩
      · exact ⟨rfl, rfl, fun _ => id, .inl⟩
  map := fun _ _ h => by cases h

theorem grows_send (hc : NetInv c) (tag : Tag) (msg : TMsg μ) : Grows c (c.send tag msg) where
  closed := id
  sent := prefix_append _ _
  answered := List.Subset.refl _
  live := fun j hj h => (send_live hc h).resolve_right (by omega)
  entry := fun e x hx => ⟨x, hx, rfl, rfl, fun _ => id, .inl⟩
  map := fun _ _ => .inl

theorem spares_of_sent (h : c'.sent = c.sent) (tag : Tag) : Spares c c' tag := by
  intro j hj htag
  have := Shared.tagAt_lt htag
  rw [h] at this
  omega

theorem spares_send (h : tag ≠ tag') : Spares c (c.send tag msg) tag' := by
  intro j hj htag
  rw [Shared.tagAt_send] at htag
  split at htag
  · exact h (Option.some.inj htag)
  · have := Shared.tagAt_lt htag
    omega

theorem register_entry (tag : Tag) (zeroCopy : Bool) :
    (c.register tag zeroCopy).EntryOk c.entries.length tag fun _ _ => False :=
  ⟨{ tag, zeroCopy }, by simp [Shared.register], rfl, by simp, by simp⟩

/-! ## The caller that moves -/

/-- Every entry is in the map under its own tag. -/
def MapOk (c : Shared μ ρ) : Prop :=
  ∀ tag e, c.inflight tag = some e → ∃ x : Entry ρ, c.entries[e]? = some x ∧ x.tag = tag

def FreeOk (c : Shared μ ρ) : Prop := ∀ tag ∈ c.free, c.closed ∨ c.Clear tag

section Mover

variable {call : Call μ ρ} {pc : Pc ρ}

theorem Waits.clear (h : Waits c msg tag e i) (hlive : ¬c.Live i) : c.Clear tag := by
  intro j hj htag
  obtain rfl := h.only j hj htag
  exact hlive hj

theorem not_live_of_clear (hsent : c.sent[i]? = some ⟨tag, msg⟩) (h : c.Clear tag) : ¬c.Live i :=
  fun hl => h i hl (by simp [Shared.tagAt, hsent])

theorem Shared.EntryOk.closed_of_recv {P : Entry ρ → Msg ρ → Prop} (h : c.EntryOk e tag P)
    (hm : c.recv e = some none) : c.closed := by
  obtain ⟨x, hx, hch⟩ := recv_closed hm
  obtain ⟨x', hx', -, hclosed, -⟩ := h
  obtain rfl := mem_unique hx hx'
  exact hclosed hch

theorem Shared.EntryOk.of_recv {P : Entry ρ → Msg ρ → Prop} (h : c.EntryOk e tag P)
    (hm : c.recv e = some (some m)) : ∃ x, c.entries[e]? = some x ∧ x.tag = tag ∧ P x m := by
  obtain ⟨x, hx, hch⟩ := recv_msg hm
  obtain ⟨x', hx', htag, -, hP⟩ := h
  obtain rfl := mem_unique hx hx'
  exact ⟨x, hx, htag, hP m hch⟩

theorem send_only (hc : NetInv c) (h : c.Clear tag) (msg : TMsg μ) : (c.send tag msg).Only tag c.sent.length := by
  intro j hj htag
  rcases send_live hc hj with hl | hl
  · rw [Shared.tagAt_send] at htag
    split at htag
    · assumption
    · exact absurd htag (h j hl)
  · exact hl

theorem write_waits (hc : NetInv c) (hclear : c.Clear tag) (hentry : c.EntryOk e tag fun _ _ => False)
    (msg : TMsg μ) : Waits (c.send tag msg) msg tag e c.sent.length where
  sent := by simp [Shared.send]
  only := send_only hc hclear msg
  last := by
    intro j hj htag
    have := Shared.tagAt_lt htag
    simp only [Shared.send, length_append, length_singleton] at this
    omega
  entry := (grows_send hc tag msg).entryOk (fun _ _ _ _ h => h.elim) hentry

theorem Waits.flushes_send (h : Waits c msg tag e i) :
    flushes (c.send (flushTagFor tag) (.flush tag)).sent c.sent.length i := by
  have hlt := getElem?_lt h.sent
  refine flushes_iff.2 ⟨flushTagFor tag, tag, by simp [Shared.send], hlt, ?_, fun j hj hj' => ?_⟩
  · rw [Shared.send, getElem?_append_left hlt, h.sent]
    rfl
  · rw [Shared.send, getElem?_append_left hj']
    exact h.last j hj

theorem unmapped_unregister (hmap : MapOk c) (hx : c.entries[e]? = some x) (htag : x.tag = tag) :
    (c.unregister tag).Unmapped e := by
  intro tag' h
  simp only [Shared.unregister, Function.update_apply] at h
  split at h
  · cases h
  · rename_i hne
    obtain ⟨x', hx', htag'⟩ := hmap tag' e h
    obtain rfl := mem_unique hx hx'
    exact hne (htag'.symm.trans htag)

theorem move_pcOk (hc : NetInv c) (hmap : MapOk c) (hfree : FreeOk c)
    (hsmall : ∀ tag, pc.tag = some tag → tag < flushTagBit)
    (hflush : ∀ tag e i, pc = .flushing tag e i → c.Clear (flushTagFor tag)) (hpc : PcOk c call.msg pc)
    (h : Moves maxInflight c call pc pc' c') : PcOk c' call.msg pc' := by
  have hspare {c₂ : Shared μ ρ} (hsent : c₂.sent = c.sent) (tag : Tag) : Spares c c₂ tag := spares_of_sent hsent tag
  cases h with
  | @acquire tag free hf =>
    exact (grows_acquire free).closed_or_clear (hspare rfl tag) (hfree tag (by simp [hf]))
  | acquireFail herr => exact ⟨by simp, herr⟩
  | @register tag =>
    exact hpc.imp id fun h => ⟨(grows_register tag _).clear (hspare rfl tag) h, register_entry tag _⟩
  | writeClosed herr => exact ⟨by simp, hpc.imp id (·.1), herr⟩
  | check hclosed => exact hpc.resolve_left (by simp [hclosed])
  | write => exact write_waits hc hpc.1 hpc.2 _
  | writeFail => exact ⟨by simp, .inl rfl, fun _ => rfl⟩
  | @recv tag e i m hm =>
    obtain ⟨x, hx, htag, hcarries, hlive⟩ := hpc.entry.of_recv hm
    have g := grows_take (c := c) e
    obtain ⟨x', hx', htag', hdst, -⟩ := g.entry e x hx
    exact ⟨hpc.sent, g.clear (hspare rfl tag) (hpc.clear hlive), x', hx', htag'.trans htag,
      hcarries.mono hdst g.answered⟩
  | recvClosed hm =>
    have hclosed := hpc.entry.closed_of_recv hm
    exact ⟨fun j hj => mem_some.1 hj ▸ hpc.sent, .inl hclosed, fun _ => hclosed⟩
  | flush | flushCheck => exact hpc
  | abandon => exact hpc.sent
  | waitClosed hclosed => exact ⟨fun j hj => mem_some.1 hj ▸ hpc.sent, .inl hclosed, fun _ => hclosed⟩
  | @unregisterOk tag e i m =>
    obtain ⟨hsent, hclear, x, hx, htag, hm⟩ := hpc
    have g := grows_unregister (c := c) tag
    exact ⟨hsent, g.clear (hspare rfl tag) hclear, unmapped_unregister hmap hx htag, g.carries ⟨x, hx, hm⟩⟩
  | @releaseOk tag e i m =>
    obtain ⟨hsent, hclear, hun, x, hx, hm⟩ := hpc
    have g := grows_release (c := c) maxInflight tag
    exact ⟨⟨tag, g.sent_get hsent⟩, g.not_live hsent (not_live_of_clear hsent hclear), g.unmapped hx hun,
      g.carries ⟨x, hx, hm⟩⟩
  | returnFrame =>
    obtain ⟨hsent, hlive, -, x, -, hm⟩ := hpc
    exact ⟨hm, hsent, hlive⟩
  | returnDst hx hf =>
    obtain ⟨hsent, hlive, -, x', hx', f', hf', hans, hid⟩ := hpc
    obtain rfl := mem_unique hx hx'
    obtain rfl := mem_unique hf hf'
    exact ⟨⟨hans, hid⟩, hsent, hlive⟩
  | abandoned => exact ⟨_, hpc⟩
  | @flushRegister tag e i =>
    have g := grows_register (c := c) (flushTagFor tag) false
    exact ⟨g.waits (hspare rfl tag) hpc, g.clear (hspare rfl _) (hflush tag e i rfl), register_entry _ _⟩
  | flushClosed hclosed | flushWaitClosed hclosed => exact ⟨hpc.1.sent, .inl hclosed, fun _ => hclosed⟩
  | @flushWrite tag e i fe =>
    obtain ⟨hwaits, hclear, hentry⟩ := hpc
    have hne := flushTagFor_ne (hsmall tag rfl) (hsmall tag rfl)
    have g := grows_send hc (flushTagFor tag) (.flush tag)
    exact ⟨g.waits (spares_send hne) hwaits, send_only hc hclear _, hwaits.flushes_send,
      g.entryOk (fun _ _ _ _ h => h.elim) hentry⟩
  | flushWriteFail | grace => exact ⟨hpc.1.sent, .inl rfl, fun _ => rfl⟩
  | @flushRecv tag e i fe j m hm =>
    obtain ⟨x, -, -, -, hlive⟩ := hpc.1.entry.of_recv hm
    have g := (grows_take (c := c) e).trans (grows_take fe)
    exact ⟨hpc.1.sent, .inr (g.clear (hspare rfl tag) (hpc.1.clear hlive)), by simp⟩
  | @flushRecvFlush tag e i fe j m hm =>
    obtain ⟨hwaits, -, -, hentry⟩ := hpc
    obtain ⟨x, -, -, hlive⟩ := hentry.of_recv hm
    have g := (grows_take (c := c) fe).trans (grows_take e)
    exact ⟨hwaits.sent, .inr (g.clear (hspare rfl tag) (hwaits.clear hlive)), by simp⟩
  | flushRecvClosed he hm =>
    obtain ⟨hwaits, -, -, hentry⟩ := hpc
    have hclosed : c.closed := by
      rcases he with rfl | rfl
      · exact hwaits.entry.closed_of_recv hm
      · exact hentry.closed_of_recv hm
    exact ⟨hwaits.sent, .inl hclosed, fun _ => hclosed⟩
  | @flushUnregister tag i err =>
    obtain ⟨hsent, hclear, herr⟩ := hpc
    have g := grows_unregister (c := c) (flushTagFor tag)
    exact ⟨fun j hj => mem_some.1 hj ▸ hsent, g.closed_or_clear (hspare rfl tag) hclear, herr⟩
  | @unregister tag id err =>
    exact ⟨hpc.1, (grows_unregister tag).closed_or_clear (hspare rfl tag) hpc.2.1, hpc.2.2⟩
  | @release tag id err =>
    obtain ⟨hsent, hclear, herr⟩ := hpc
    have g := grows_release (c := c) maxInflight tag
    refine ⟨fun i hi => ⟨⟨tag, g.sent_get (hsent i hi)⟩, ?_⟩, fun h => g.closed (herr h)⟩
    exact hclear.imp g.closed fun h => g.not_live (hsent i hi) (not_live_of_clear (hsent i hi) h)
  | fail herr => exact ⟨hpc.1, fun h => (herr h).elim hpc.2 fun h => h⟩

end Mover

/-! ## Delivery -/

section Deliver

variable {f : RFrame ρ}

theorem handOver_sent : (c.handOver f).sent = c.sent := by
  unfold Shared.handOver Shared.deliver
  split <;> rfl

theorem handOver_answered : (c.handOver f).answered = c.answered := by
  unfold Shared.handOver Shared.deliver
  split <;> rfl

theorem handOver_closed : (c.handOver f).closed = c.closed := by
  unfold Shared.handOver Shared.deliver
  split <;> rfl

theorem handOver_inflight : (c.handOver f).inflight = c.inflight := by
  unfold Shared.handOver Shared.deliver
  split <;> rfl

theorem handOver_free : (c.handOver f).free = c.free := by
  unfold Shared.handOver Shared.deliver
  split <;> rfl

theorem handOver_ncClosed : (c.handOver f).ncClosed = c.ncClosed := by
  unfold Shared.handOver Shared.deliver
  split <;> rfl

theorem handOver_sameNet : SameNet { c with hand := none } (c.handOver f) := by
  unfold Shared.handOver Shared.deliver
  split <;> exact ⟨rfl, rfl, rfl⟩

/-- What delivery does to an entry: nothing, or it puts the frame into the channel, if that is empty. -/
theorem handOver_entry (hf : f ∈ c.answered) (hx : c.entries[e]? = some x) :
    (c.handOver f).entries[e]? = some x ∨
      c.inflight f.tag = some e ∧ ∃ x', (c.handOver f).entries[e]? = some x' ∧ x'.tag = x.tag ∧
        x'.chClosed = x.chClosed ∧ ∀ m, x'.ch = some m → x.ch = some m ∨ x'.Carries c.answered f.id m := by
  unfold Shared.handOver Shared.deliver
  split
  · exact .inl hx
  · rename_i e' he'
    by_cases he : e' = e
    · subst he
      refine .inr ⟨he', if f.rread && x.zeroCopy then { x with dst := some f, ch := x.ch.or (some .sentinel) }
        else { x with ch := x.ch.or (some (.frame f)) }, by simp [hx], ?_⟩
      cases hch : x.ch <;> split <;> simp [Entry.Carries, hf]
    · exact .inl (by simp [he, hx])

/-- An entry after delivery: its channel holds what it held, or `f`, and then `f` has the entry's tag. -/
theorem deliver_entryOk (hmap : MapOk c) (hf : f ∈ c.answered) {P P' : Entry ρ → Msg ρ → Prop} (h : c.EntryOk e tag P)
    (hold : ∀ x m, P x m → P' x m)
    (hnew : f.tag = tag → ∀ x m, x.Carries c.answered f.id m ∨ (∃ y, P y m) → P' x m) :
    (c.handOver f).EntryOk e tag P' := by
  obtain ⟨x, hx, htag, hclosed, hP⟩ := h
  have hclosed' : (c.handOver f).closed = c.closed := handOver_closed
  obtain hx' | ⟨he, x', hx', htag', hch', hm⟩ := handOver_entry hf hx
  · exact ⟨x, hx', htag, fun h => hclosed'.trans (hclosed h), fun m h => hold x m (hP m h)⟩
  · obtain ⟨y, hy, hytag⟩ := hmap f.tag e he
    obtain rfl := mem_unique hx hy
    refine ⟨x', hx', htag'.trans htag, fun h => hclosed'.trans (hclosed (hch' ▸ h)), fun m h => ?_⟩
    exact hnew (hytag.symm.trans htag) x' m ((hm m h).symm.imp_right fun h => ⟨x, hP m h⟩)

section Facts

variable (hc : NetInv c) (hmap : MapOk c) (hf : c.hand = some f)
include hc hf

omit hmap in
theorem hand_answered : f ∈ c.answered := hc.answered f (by simp [Shared.queue, hf])

theorem hand_live : c.Live f.id ∧ c.tagAt f.id = some f.tag := by
  have hmem : f ∈ c.queue := by simp [Shared.queue, hf]
  have htag := hc.tags f hmem
  exact ⟨⟨Shared.tagAt_lt htag, .inr ⟨f, hmem, rfl⟩⟩, htag⟩

theorem handOver_live (h : (c.handOver f).Live j) :
    c.Live j ∧ j ≠ f.id ∧ flushes c.sent f.id j = false :=
  deliver_live hc hf ((handOver_sameNet.live_iff j).1 h)

theorem deliver_clear (h : c.Clear tag) : (c.handOver f).Clear tag := by
  intro j hj htag
  rw [Shared.tagAt, handOver_sent] at htag
  exact h j (handOver_live hc hf hj).1 htag

theorem deliver_only (h : c.Only tag i) : (c.handOver f).Only tag i := by
  intro j hj htag
  rw [Shared.tagAt, handOver_sent] at htag
  exact h j (handOver_live hc hf hj).1 htag

include hmap

theorem deliver_empty (hclear : c.Clear tag) (h : c.EntryOk e tag fun _ _ => False) :
    (c.handOver f).EntryOk e tag fun _ _ => False := by
  obtain ⟨hlive, htag⟩ := hand_live hc hf
  exact deliver_entryOk hmap (hand_answered hc hf) h (fun _ _ => id) fun h => absurd (h ▸ htag) (hclear f.id hlive)

theorem deliver_waits (h : Waits c msg tag e i) :
    Waits (c.handOver f) msg tag e i := by
  obtain ⟨hlive, htag⟩ := hand_live hc hf
  refine ⟨by rw [handOver_sent]; exact h.sent, deliver_only hc hf h.only, fun j hj => ?_,
    deliver_entryOk hmap (hand_answered hc hf) h.entry ?_ ?_⟩
  · rw [Shared.tagAt, handOver_sent]
    exact h.last j hj
  · rw [handOver_answered]
    exact fun x m hx => ⟨hx.1, fun hl => hx.2 (handOver_live hc hf hl).1⟩
  · rw [handOver_answered]
    intro heq x m hx
    obtain rfl := h.only f.id hlive (heq ▸ htag)
    refine ⟨hx.elim id fun h => h.elim fun _ hy => absurd hlive hy.2, fun hl => ?_⟩
    exact (handOver_live hc hf hl).2.1 rfl

theorem deliver_carries {x : Entry ρ} (hx : c.entries[e]? = some x) (hm : x.Carries c.answered i m)
    (h : c.Unmapped e ∨ c.Clear x.tag) :
    ∃ x', (c.handOver f).entries[e]? = some x' ∧ x'.tag = x.tag ∧ x'.Carries (c.handOver f).answered i m := by
  rw [handOver_answered]
  obtain hx' | ⟨he, -⟩ := handOver_entry (hand_answered hc hf) hx
  · exact ⟨x, hx', rfl, hm⟩
  · rcases h with h | hclear
    · exact absurd he (h f.tag)
    · obtain ⟨hlive, htag⟩ := hand_live hc hf
      obtain ⟨y, hy, hytag⟩ := hmap f.tag e he
      obtain rfl := mem_unique hx hy
      exact absurd (hytag ▸ htag) (hclear f.id hlive)

theorem deliver_pcOk (h : PcOk c msg pc) :
    PcOk (c.handOver f) msg pc := by
  have hsent : (c.handOver f).sent = c.sent := handOver_sent
  have hclosed : (c.handOver f).closed = c.closed := handOver_closed
  have hun {e : Nat} (h : c.Unmapped e) : (c.handOver f).Unmapped e := by
    intro tag
    rw [handOver_inflight]
    exact h tag
  have hlive {i : Nat} (h : ¬c.Live i) : ¬(c.handOver f).Live i :=
    fun hl => h (handOver_live hc hf hl).1
  have hcc {tag : Tag} (h : c.closed ∨ c.Clear tag) :
      (c.handOver f).closed ∨ (c.handOver f).Clear tag :=
    h.imp (hclosed.trans ·) (deliver_clear hc hf)
  have hfailed {id : Option Nat} {err : Err} (h : PcOk c msg (.failing id err)) :
      PcOk (c.handOver f) msg (.failing id err) := by
    refine ⟨fun i hi => ?_, fun herr => hclosed.trans (h.2 herr)⟩
    obtain ⟨⟨tag, hs⟩, hl⟩ := h.1 i hi
    exact ⟨⟨tag, hsent ▸ hs⟩, hl.imp (hclosed.trans ·) hlive⟩
  cases pc with
  | acquiring => trivial
  | abandoning tag e i => exact (congrArg (·[i]?) hsent).trans h
  | acquired tag => exact hcc h
  | registered tag e =>
    exact h.imp (hclosed.trans ·) fun h => ⟨deliver_clear hc hf h.1, deliver_empty hc hmap hf h.1 h.2⟩
  | writing tag e => exact ⟨deliver_clear hc hf h.1, deliver_empty hc hmap hf h.1 h.2⟩
  | waiting tag e i | flushing tag e i => exact deliver_waits hc hmap hf h
  | received tag e i m =>
    obtain ⟨hs, hclear, x, hx, htag, hm⟩ := h
    obtain ⟨x', hx', htag', hm'⟩ := deliver_carries hc hmap hf hx hm (.inr (htag ▸ hclear))
    exact ⟨hsent ▸ hs, deliver_clear hc hf hclear, x', hx', htag'.trans htag, hm'⟩
  | returning tag e i m =>
    obtain ⟨hs, hclear, hmap', x, hx, hm⟩ := h
    obtain ⟨x', hx', -, hm'⟩ := deliver_carries hc hmap hf hx hm (.inl hmap')
    exact ⟨hsent ▸ hs, deliver_clear hc hf hclear, hun hmap', x', hx', hm'⟩
  | reading e i m =>
    obtain ⟨⟨tag, hs⟩, hl, hmap', x, hx, hm⟩ := h
    obtain ⟨x', hx', -, hm'⟩ := deliver_carries hc hmap hf hx hm (.inl hmap')
    exact ⟨⟨tag, hsent ▸ hs⟩, hlive hl, hun hmap', x', hx', hm'⟩
  | flushRegistered tag e i fe | flushWriting tag e i fe =>
    obtain ⟨hwaits, hclear, hentry⟩ := h
    exact ⟨deliver_waits hc hmap hf hwaits, deliver_clear hc hf hclear, deliver_empty hc hmap hf hclear hentry⟩
  | flushWaiting tag e i fe j =>
    obtain ⟨hwaits, honly, hfl, hentry⟩ := h
    refine ⟨deliver_waits hc hmap hf hwaits, deliver_only hc hf honly, hsent ▸ hfl, ?_⟩
    refine deliver_entryOk hmap (hand_answered hc hf) hentry (fun _ _ => hlive) fun heq x m _ hl => ?_
    -- the Rflush is delivered: the answer to the request came before it, or will not come
    obtain ⟨hl', htag⟩ := hand_live hc hf
    obtain rfl := honly f.id hl' (heq ▸ htag)
    exact absurd hfl (by simp [(handOver_live hc hf hl).2.2])
  | flushUnregistering tag i err => exact ⟨hsent ▸ h.1, hcc h.2.1, fun herr => hclosed.trans (h.2.2 herr)⟩
  | unregistering tag id err | releasing tag id err =>
    exact ⟨fun i hi => hsent ▸ h.1 i hi, hcc h.2.1, fun herr => hclosed.trans (h.2.2 herr)⟩
  | failing id err => exact hfailed h
  | done o =>
    cases o with
    | ok i f' =>
      obtain ⟨hans, ⟨tag, hs⟩, hl⟩ := h
      exact ⟨by rw [handOver_answered]; exact hans, ⟨tag, hsent ▸ hs⟩, hlive hl⟩
    | failed id err => exact hfailed h
    | abandoned i => exact h.imp fun _ h => hsent ▸ h

end Facts

end Deliver

end NineP.Client
