import NineP.Client.Exchange

/-!
# Requests whose answer may still come
-/

namespace NineP.Client

open Proto Transition List

variable {μ ρ : Type}

/-! ## Tflush and its request -/

theorem flushes_iff {sent : List (TFrame μ)} :
    flushes sent k j ↔ ∃ tag oldTag, sent[k]? = some ⟨tag, .flush oldTag⟩ ∧ j < k ∧
      (sent[j]?).map (·.tag) = some oldTag ∧ ∀ i, j < i → i < k → (sent[i]?).map (·.tag) ≠ some oldTag := by
  unfold flushes
  split
  · rename_i tag oldTag hk
    simp only [Bool.and_eq_true, decide_eq_true_eq, List.all_eq_true, mem_range, Bool.or_eq_true, hk,
      Option.some.injEq, TFrame.mk.injEq, TMsg.flush.injEq, exists_and_left, exists_eq_left', and_assoc]
    refine and_congr_right fun _ => and_congr_right fun _ => forall_congr' fun i => ?_
    constructor
    · intro h hj hk
      exact (h hk).resolve_left (by omega)
    · intro h hk
      by_cases hj : j < i
      · exact .inr (h hj hk)
      · exact .inl (by omega)
  · rename_i hk
    simp only [Bool.false_eq_true, false_iff, not_exists, not_and]
    intro tag oldTag h
    exact absurd h (hk tag oldTag)

theorem flushes_append {sent : List (TFrame μ)} (l : List (TFrame μ)) (hk : k < sent.length) (j : Nat) :
    flushes (sent ++ l) k j = flushes sent k j := by
  have hget {i : Nat} (hi : i < sent.length) : (sent ++ l)[i]? = sent[i]? := getElem?_append_left hi
  rw [Bool.eq_iff_iff, flushes_iff, flushes_iff, hget hk]
  refine exists_congr fun tag => exists_congr fun oldTag => and_congr_right fun _ => and_congr_right fun hj => ?_
  rw [hget (Nat.lt_trans hj hk)]
  refine and_congr_right fun _ => forall_congr' fun i => forall_congr' fun _ => forall_congr' fun hi => ?_
  rw [hget (Nat.lt_trans hi hk)]

/-! ## Live requests -/

namespace Shared

/-- The answers on their way, the next one to be delivered first. -/
def queue (c : Shared μ ρ) : List (RFrame ρ) := c.hand.toList ++ c.wire

def tagAt (c : Shared μ ρ) (j : Nat) : Option Tag := (c.sent[j]?).map (·.tag)

def Answered (c : Shared μ ρ) (j : Nat) : Prop := ∃ g ∈ c.answered, g.id = j

/-- The server has answered a Tflush for `j`. -/
def Acked (c : Shared μ ρ) (j : Nat) : Prop := ∃ g ∈ c.answered, flushes c.sent g.id j

/-- An answer to `j` may still be delivered. -/
def Live (c : Shared μ ρ) (j : Nat) : Prop :=
  j < c.sent.length ∧ (¬c.Answered j ∧ ¬c.Acked j ∨ ∃ f ∈ c.queue, f.id = j)

end Shared

/-- The answers on their way. -/
structure NetInv (c : Shared μ ρ) : Prop where
  tags : ∀ f ∈ c.queue, c.tagAt f.id = some f.tag
  answered : ∀ f ∈ c.queue, f ∈ c.answered
  written : ∀ g ∈ c.answered, g.id < c.sent.length
  once : (c.answered.map (·.id)).Nodup
  nodup : (c.queue.map (·.id)).Nodup
  /-- An Rflush comes after the answer to its request. -/
  order : c.queue.Pairwise fun a b => flushes c.sent a.id b.id = false

/-- A step that does not touch the connection. -/
structure SameNet (c c' : Shared μ ρ) : Prop where
  sent : c'.sent = c.sent
  answered : c'.answered = c.answered
  queue : c'.queue = c.queue

section Net

variable {c c' : Shared μ ρ}

theorem SameNet.live_iff (h : SameNet c c') (j : Nat) : c'.Live j ↔ c.Live j := by
  simp only [Shared.Live, Shared.Answered, Shared.Acked, h.sent, h.answered, h.queue]

theorem SameNet.netInv (h : SameNet c c') (hc : NetInv c) : NetInv c' where
  tags := by simpa only [h.queue, Shared.tagAt, h.sent] using hc.tags
  answered := by simpa only [h.queue, h.answered] using hc.answered
  written := by simpa only [h.sent, h.answered] using hc.written
  once := by simpa only [h.answered] using hc.once
  nodup := by simpa only [h.queue] using hc.nodup
  order := by simpa only [h.queue, h.sent] using hc.order

variable {f : RFrame ρ}

theorem Shared.tagAt_lt (h : c.tagAt j = some tag) : j < c.sent.length := by
  obtain ⟨t, ht, -⟩ := Option.map_eq_some_iff.1 h
  exact getElem?_lt ht

theorem Shared.tagAt_send : (c.send tag msg).tagAt j = if j = c.sent.length then some tag else c.tagAt j := by
  unfold Shared.tagAt Shared.send
  by_cases hj : j = c.sent.length
  · simp [hj]
  · rw [if_neg hj, getElem?_append]
    split
    · rfl
    · rw [getElem?_eq_none (by simp only [length_singleton]; omega), getElem?_eq_none (by omega)]

theorem send_live (hc : NetInv c) (h : (c.send tag msg).Live j) : c.Live j ∨ j = c.sent.length := by
  obtain ⟨hlt, h⟩ := h
  by_cases hj : j = c.sent.length
  · exact .inr hj
  · have hlt : j < c.sent.length := by
      simp only [Shared.send, length_append, length_singleton] at hlt
      omega
    refine .inl ⟨hlt, h.imp_left fun ⟨hans, hack⟩ => ⟨hans, fun ⟨g, hg, hfl⟩ => hack ⟨g, hg, ?_⟩⟩⟩
    exact (flushes_append _ (hc.written g hg) j).trans hfl

theorem send_netInv (tag : Tag) (msg : TMsg μ) (hc : NetInv c) : NetInv (c.send tag msg) where
  tags := by
    intro f hf
    have hlt := Shared.tagAt_lt (hc.tags f hf)
    rw [Shared.tagAt_send, if_neg (by omega)]
    exact hc.tags f hf
  answered := hc.answered
  written := by
    intro g hg
    have := hc.written g hg
    simp only [Shared.send, length_append, length_singleton]
    omega
  once := hc.once
  nodup := hc.nodup
  order := by
    refine hc.order.imp_of_mem fun ha _ h => ?_
    exact (flushes_append _ (hc.written _ (hc.answered _ ha)) _).trans h

theorem Shared.queue_answer (f : RFrame ρ) : (c.answer f).queue = c.queue ++ [f] := by
  simp [Shared.queue, Shared.answer]

theorem Shared.mayAnswer_iff : c.mayAnswer i ↔ ¬c.Answered i ∧ ¬c.Acked i := by
  simp only [Shared.mayAnswer, List.all_eq_true, Bool.and_eq_true, decide_eq_true_eq, Bool.not_eq_true',
    Shared.Answered, Shared.Acked, not_exists, not_and, Bool.not_eq_true]
  exact ⟨fun h => ⟨fun g hg => (h g hg).1, fun g hg => (h g hg).2⟩, fun h g hg => ⟨h.1 g hg, h.2 g hg⟩⟩

theorem answer_live (hmay : c.mayAnswer f.id) (h : (c.answer f).Live j) : c.Live j := by
  obtain ⟨hj, h⟩ := h
  refine ⟨hj, ?_⟩
  rcases h with ⟨hans, hack⟩ | ⟨g, hg, rfl⟩
  · exact .inl ⟨fun ⟨g, hg, hid⟩ => hans ⟨g, mem_cons_of_mem _ hg, hid⟩, fun ⟨g, hg, hfl⟩ =>
      hack ⟨g, mem_cons_of_mem _ hg, hfl⟩⟩
  · rw [Shared.queue_answer, mem_append, mem_singleton] at hg
    rcases hg with hg | rfl
    · exact .inr ⟨g, hg, rfl⟩
    · exact .inl (Shared.mayAnswer_iff.1 hmay)

theorem answer_netInv (hc : NetInv c) (htag : c.tagAt f.id = some f.tag) (hmay : c.mayAnswer f.id) :
    NetInv (c.answer f) := by
  have hlt := Shared.tagAt_lt htag
  obtain ⟨hans, hack⟩ := Shared.mayAnswer_iff.1 hmay
  constructor
  · intro g hg
    rw [Shared.queue_answer, mem_append, mem_singleton] at hg
    rcases hg with hg | rfl
    · exact hc.tags g hg
    · exact htag
  · intro g hg
    rw [Shared.queue_answer, mem_append, mem_singleton] at hg
    rcases hg with hg | rfl
    · exact mem_cons_of_mem _ (hc.answered g hg)
    · exact mem_cons_self
  · intro g hg
    rcases mem_cons.1 hg with rfl | hg
    · exact hlt
    · exact hc.written g hg
  · refine nodup_cons.2 ⟨fun h => ?_, hc.once⟩
    obtain ⟨g, hg, hid⟩ := mem_map.1 h
    exact hans ⟨g, hg, hid⟩
  · rw [Shared.queue_answer, map_append, map_singleton]
    refine List.Nodup.append hc.nodup (nodup_singleton _) ?_
    simp only [disjoint_singleton, mem_map, not_exists, not_and]
    intro g hg hid
    exact hans ⟨g, hc.answered g hg, hid⟩
  · rw [Shared.queue_answer, pairwise_append]
    refine ⟨hc.order, pairwise_singleton _ _, fun a ha b hb => ?_⟩
    rw [mem_singleton.1 hb]
    exact Bool.eq_false_iff.2 fun hfl => hack ⟨a, hc.answered a ha, hfl⟩

/-- **Once a frame is delivered**, neither the T-message that it answers nor, if that is a Tflush, its request is
live. -/
theorem deliver_live {f : RFrame ρ} (hc : NetInv c) (hf : c.hand = some f)
    (h : ({ c with hand := none } : Shared μ ρ).Live j) :
    c.Live j ∧ j ≠ f.id ∧ flushes c.sent f.id j = false := by
  have hqueue : c.queue = f :: c.wire := by simp [Shared.queue, hf]
  have hmem : f ∈ c.queue := by simp [hqueue]
  have hnodup := hc.nodup
  have horder := hc.order
  rw [hqueue, map_cons, nodup_cons] at hnodup
  rw [hqueue, pairwise_cons] at horder
  obtain ⟨hj, h⟩ := h
  rcases h with ⟨hans, hack⟩ | ⟨g, hg, rfl⟩
  · refine ⟨⟨hj, .inl ⟨hans, hack⟩⟩, ?_, ?_⟩
    · rintro rfl
      exact hans ⟨f, hc.answered f hmem, rfl⟩
    · exact Bool.eq_false_iff.2 fun hfl => hack ⟨f, hc.answered f hmem, hfl⟩
  · have hg : g ∈ c.wire := hg
    refine ⟨⟨hj, .inr ⟨g, by simp [hqueue, hg], rfl⟩⟩, ?_, horder.1 g hg⟩
    intro heq
    exact hnodup.1 (mem_map.2 ⟨g, hg, heq⟩)

theorem drop_netInv (hc : NetInv c) : NetInv { c with hand := none } := by
  have hsub : List.Sublist ({ c with hand := none } : Shared μ ρ).queue c.queue := sublist_append_right _ _
  exact ⟨fun f hf => hc.tags f (hsub.subset hf), fun f hf => hc.answered f (hsub.subset hf), hc.written, hc.once,
    (hsub.map _).nodup hc.nodup, hc.order.sublist hsub⟩

theorem drop_live (h : ({ c with hand := none } : Shared μ ρ).Live j) : c.Live j :=
  ⟨h.1, h.2.imp_right fun ⟨g, hg, hid⟩ => ⟨g, mem_append_right _ hg, hid⟩⟩

end Net

end NineP.Client
