import NineP.Client.Matching

/-!
# Responses reach their callers
-/

namespace NineP.Client

open Proto Transition List

variable {μ ρ : Type}

/-! ## What a caller's step keeps -/

/-- A caller that returns while its T-message may still be answered. -/
def Pc.Abandons : Pc ρ → Prop
  | .abandoning _ _ _ | .done (.abandoned _) => True
  | _ => False

section Moves

variable {c c' : Shared μ ρ} {call : Call μ ρ} {pc pc' : Pc ρ}

theorem Moves.grows (h : Moves maxInflight c call pc pc' c') (hc : NetInv c) : Grows c c' := by
  cases h with
  | acquire => exact grows_acquire _
  | register | flushRegister => exact grows_register _ _
  | write | flushWrite => exact grows_send hc _ _
  | writeFail | flushWriteFail | grace => exact grows_shutdown
  | recv => exact grows_take _
  | unregisterOk | flushUnregister | unregister => exact grows_unregister _
  | releaseOk | release => exact grows_release _ _
  | abandoned => exact (grows_unregister _).trans (grows_take _)
  | flushRecv | flushRecvFlush => exact (grows_take _).trans (grows_take _)
  | _ => exact SameNet.grows ⟨rfl, rfl, rfl⟩ id rfl rfl

theorem release_sameNet (tag : Tag) : SameNet c (c.release maxInflight tag) := by
  unfold Shared.release
  split <;> exact ⟨rfl, rfl, rfl⟩

section

variable (h : Moves maxInflight c call pc pc' c')
include h

theorem Moves.net :
    SameNet c c' ∨
      ∃ tag tag' msg, pc.tag = some tag ∧ (tag' = tag ∨ tag' = flushTagFor tag) ∧ c' = c.send tag' msg := by
  cases h with
  | @write tag => exact .inr ⟨tag, tag, _, rfl, .inl rfl, rfl⟩
  | @flushWrite tag => exact .inr ⟨tag, _, _, rfl, .inr rfl, rfl⟩
  | releaseOk | release => exact .inl (release_sameNet _)
  | _ => exact .inl ⟨rfl, rfl, rfl⟩

theorem Moves.netInv (hc : NetInv c) : NetInv c' := by
  obtain hsame | ⟨_, tag, msg, -, -, rfl⟩ := h.net
  · exact hsame.netInv hc
  · exact send_netInv tag msg hc

theorem Moves.spares (hsmall : ∀ tag, pc.tag = some tag → tag < flushTagBit) (ht : t < flushTagBit)
    (hne : pc.tag ≠ some t) : Spares c c' t ∧ Spares c c' (flushTagFor t) := by
  obtain hsame | ⟨tag, tag', msg, htag, htag', rfl⟩ := h.net
  · exact ⟨spares_of_sent hsame.sent t, spares_of_sent hsame.sent _⟩
  · have hs := hsmall tag htag
    have hne : tag ≠ t := fun heq => hne (heq ▸ htag)
    rcases htag' with rfl | rfl
    · exact ⟨spares_send hne, spares_send (flushTagFor_ne ht hs).symm⟩
    · exact ⟨spares_send (flushTagFor_ne hs ht), spares_send fun heq => hne (flushTagFor_inj hs ht heq)⟩

end

theorem mapOk_register (hc : MapOk c) (tag : Tag) (zeroCopy : Bool) : MapOk (c.register tag zeroCopy) := by
  intro tag' e h
  simp only [Shared.register, Function.update_apply] at h
  split at h
  · cases h
    exact ⟨{ tag, zeroCopy }, by simp [Shared.register], Eq.symm ‹_›⟩
  · obtain ⟨x, hx, htag⟩ := hc tag' e h
    exact ⟨x, by rw [Shared.register, getElem?_append_left (getElem?_lt hx), hx], htag⟩

theorem Grows.mapOk (g : Grows c c') (hc : MapOk c)
    (hmap : ∀ tag e, c'.inflight tag = some e → c.inflight tag = some e) : MapOk c' := by
  intro tag e h
  obtain ⟨x, hx, htag⟩ := hc tag e (hmap tag e h)
  obtain ⟨x', hx', htag', -⟩ := g.entry e x hx
  exact ⟨x', hx', htag'.trans htag⟩

theorem Moves.mapOk (h : Moves maxInflight c call pc pc' c') (hnet : NetInv c) (hc : MapOk c) : MapOk c' := by
  have g := h.grows hnet
  have hunregister (tag : Tag) : ∀ tag' e, (c.unregister tag).inflight tag' = some e → c.inflight tag' = some e := by
    intro tag' e h
    simp only [Shared.unregister, Function.update_apply] at h
    split at h
    · cases h
    · exact h
  have hrelease (tag : Tag) : (c.release maxInflight tag).inflight = c.inflight := by
    unfold Shared.release
    split <;> rfl
  cases h with
  | register | flushRegister => exact mapOk_register hc _ _
  | unregisterOk | flushUnregister | unregister | abandoned => exact g.mapOk hc (hunregister _)
  | releaseOk | release => exact g.mapOk hc fun _ _ h => hrelease _ ▸ h
  | _ => exact g.mapOk hc fun _ _ h => h

theorem release_freeOk (hc : FreeOk c) (h : c.closed ∨ c.Clear tag) :
    FreeOk (c.release maxInflight tag) := by
  have g := grows_release (c := c) maxInflight tag
  have hspare (t : Tag) : Spares c (c.release maxInflight tag) t := spares_of_sent (release_sameNet tag).sent t
  intro t ht
  rcases release_free (c := c) maxInflight tag with hfree | hfree
  · exact g.closed_or_clear (hspare t) (hc t (hfree ▸ ht))
  · rw [hfree, mem_append, mem_singleton] at ht
    rcases ht with ht | rfl
    · exact g.closed_or_clear (hspare t) (hc t ht)
    · exact g.closed_or_clear (hspare t) h

section

variable (h : Moves maxInflight c call pc pc' c')
include h

theorem Moves.freeOk (hnet : NetInv c) (hc : FreeOk c) (hsmall : ∀ tag, pc.tag = some tag → tag < flushTagBit)
    (hfree : ∀ t ∈ c.free, t < flushTagBit) (hne : ∀ t ∈ c.free, pc.tag ≠ some t) (hpc : PcOk c call.msg pc) :
    FreeOk c' := by
  have hold (t : Tag) (ht : t ∈ c.free) : c'.closed ∨ c'.Clear t :=
    (h.grows hnet).closed_or_clear (h.spares hsmall (hfree t ht) (hne t ht)).1 (hc t ht)
  cases h with
  | acquire hf => exact fun t ht => hold t (by simp only [hf, mem_cons]; exact .inr ht)
  | releaseOk => exact release_freeOk hc (.inr hpc.2.1)
  | release => exact release_freeOk hc hpc.2.1
  | _ => exact hold

theorem Moves.abandons (hpc : pc.Abandons → call.flushOnCancel = false) (hpc' : pc'.Abandons) :
    call.flushOnCancel = false := by
  cases h with
  | abandon hflush => exact hflush
  | abandoned => exact hpc trivial
  | _ => cases hpc'

theorem Moves.ncClosed : c'.ncClosed = c.ncClosed := by
  have hrelease (tag : Tag) : (c.release maxInflight tag).ncClosed = c.ncClosed := by
    unfold Shared.release
    split <;> rfl
  cases h with
  | releaseOk | release => exact hrelease _
  | _ => rfl

end

end Moves

/-! ## The condition -/

def Shared.Delivered (c : Shared μ ρ) (j : Nat) : Prop := c.Answered j ∧ ∀ f ∈ c.queue, f.id ≠ j

instance (c : Shared μ ρ) (j : Nat) : Decidable (c.Delivered j) :=
  inferInstanceAs (Decidable ((∃ g ∈ c.answered, g.id = j) ∧ _))

/-- The tag whose request the caller is about to flush. -/
def State.flushing (s : State μ ρ) : Label μ ρ → Option Tag
  | .move k _ => (s.calls[k]?).bind fun call =>
    match call.pc with
    | .flushing tag _ _ => some tag
    | _ => none
  | _ => none

/-- When a Tflush is about to be sent, every earlier T-message with its tag has been answered, and the read loop has
delivered the answer. -/
def FlushTagOk (s : State μ ρ) (l : Label μ ρ) : Prop :=
  ∀ tag ∈ s.flushing l, ∀ j < s.shared.sent.length, s.shared.tagAt j = some (flushTagFor tag) → s.shared.Delivered j

instance (s : State μ ρ) (l : Label μ ρ) : Decidable (FlushTagOk s l) :=
  Option.decidableForallMem _

theorem Shared.clear_of_delivered {c : Shared μ ρ}
    (h : ∀ j < c.sent.length, c.tagAt j = some tag → c.Delivered j) : c.Clear tag := by
  rintro j ⟨hlt, hj⟩ htag
  obtain ⟨hans, hqueue⟩ := h j hlt htag
  rcases hj with hj | ⟨f, hf, hid⟩
  · exact hj.1 hans
  · exact hqueue f hf hid

/-! ## The invariant -/

structure MatchInv (s : State μ ρ) : Prop where
  tags : TagInv s
  net : NetInv s.shared
  map : MapOk s.shared
  free : FreeOk s.shared
  calls : ∀ call ∈ s.calls, PcOk s.shared call.msg call.pc
  abandons : ∀ call ∈ s.calls, call.pc.Abandons → call.flushOnCancel = false
  closed : s.shared.ncClosed → s.shared.closed

theorem init_matchInv (hn : n ≤ maxMaxInflight) : MatchInv (init n : State μ ρ) where
  tags := init_tagInv hn
  net := by constructor <;> simp [init, Shared.queue]
  map := fun _ _ h => by cases h
  free := fun _ _ => .inr fun _ h => by simp [init, Shared.Live] at h
  calls := by simp [init]
  abandons := by simp [init]
  closed := by simp [init]

section Step

variable {s : State μ ρ} {c : Shared μ ρ}

theorem MatchInv.grows (hs : MatchInv s) (g : Grows s.shared c) (htags : TagInv ⟨c, s.calls⟩)
    (hsent : c.sent = s.shared.sent) (hfree : c.free = s.shared.free)
    (hmap : ∀ tag e, c.inflight tag = some e → s.shared.inflight tag = some e) (hnet : NetInv c)
    (hclosed : c.ncClosed → c.closed) : MatchInv ⟨c, s.calls⟩ where
  tags := htags
  net := hnet
  map := g.mapOk hs.map hmap
  free := fun t ht => g.closed_or_clear (spares_of_sent hsent t) (hs.free t (hfree ▸ ht))
  calls := fun call hcall => (hs.calls call hcall).grows g fun _ _ => ⟨spares_of_sent hsent _, spares_of_sent hsent _⟩
  abandons := hs.abandons
  closed := hclosed

theorem move_matchInv {call : Call μ ρ} (hs : MatchInv s) (hk : s.calls[k]? = some call)
    (h : Moves maxInflight s.shared call call.pc pc c)
    (hflush : ∀ tag e i, call.pc = .flushing tag e i → s.shared.Clear (flushTagFor tag)) :
    MatchInv ⟨c, s.calls.set k { call with pc }⟩ := by
  have hmem := mem_of_getElem? hk
  have hsmall := hs.tags.held call hmem
  have hpc := hs.calls call hmem
  have hne (t : Tag) (ht : t ∈ s.shared.free) : call.pc.tag ≠ some t := by
    intro htag
    have hunique := hs.tags.unique t
    have := count_pos_iff.2 ht
    have : 0 < s.calls.countP (·.pc.tag = some t) := countP_pos_iff.2 ⟨call, hmem, by simp [htag]⟩
    omega
  have hpc' : PcOk c call.msg pc := move_pcOk hs.net hs.map hs.free hsmall hflush hpc h
  refine ⟨move_tagInv hs.tags hk h, h.netInv hs.net, h.mapOk hs.net hs.map,
    h.freeOk hs.net hs.free hsmall hs.tags.free hne hpc, fun x hx => ?_, fun x hx hpc' => ?_, ?_⟩
  · obtain ⟨j, hj⟩ := mem_iff_getElem?.1 hx
    rcases getElem?_set_cases hj with ⟨-, rfl⟩ | ⟨hjk, hj⟩
    · exact hpc'
    · have hxmem := mem_of_getElem? hj
      refine (hs.calls x hxmem).grows (h.grows hs.net) fun t ht => ?_
      exact h.spares hsmall (hs.tags.held x hxmem t ht) fun htag => hjk (hs.tags.eq hj hk ht htag)
  · rcases mem_or_eq_of_mem_set hx with hx | rfl
    · exact hs.abandons x hx hpc'
    · exact h.abandons (hs.abandons call hmem) hpc'
  · intro hnc
    exact (h.grows hs.net).closed (hs.closed (h.ncClosed ▸ hnc))

/-- **The invariant is kept by every step** that meets the condition. -/
theorem step_matchInv (hs : MatchInv s) (hok : FlushTagOk s l) (h : step maxInflight s l = some s') :
    MatchInv s' := by
  have hsteps := step_steps h
  have htags := step_tagInv hs.tags hsteps
  cases hsteps with
  | call =>
    refine { hs with tags := htags, calls := fun x hx => ?_, abandons := fun x hx hpc => ?_ }
    · rcases mem_append.1 hx with hx | hx
      · exact hs.calls x hx
      · rw [mem_singleton.1 hx]
        trivial
    · rcases mem_append.1 hx with hx | hx
      · exact hs.abandons x hx hpc
      · rw [mem_singleton.1 hx] at hpc
        cases hpc
  | @move k choice call pc c hk hmove =>
    refine move_matchInv hs hk hmove fun tag e i hpc => Shared.clear_of_delivered ?_
    exact hok tag (by simp [State.flushing, hk, hpc])
  | answer htag hmay =>
    exact hs.grows (grows_answer hmay) htags rfl rfl (fun _ _ => id) (answer_netInv hs.net htag hmay) hs.closed
  | @read f wire hwire hhand =>
    have hsame : SameNet s.shared { s.shared with wire, hand := some f } :=
      ⟨rfl, rfl, by simp [Shared.queue, hwire, hhand]⟩
    exact hs.grows (hsame.grows id rfl rfl) htags rfl rfl (fun _ _ => id) (hsame.netInv hs.net) hs.closed
  | @deliver f hhand =>
    refine ⟨htags, handOver_sameNet.netInv (drop_netInv hs.net), ?_, fun t ht => ?_, fun call hcall => ?_,
      hs.abandons, ?_⟩
    · intro tag e he
      obtain ⟨x, hx, htag⟩ := hs.map tag e (handOver_inflight ▸ he)
      obtain hx' | ⟨-, x', hx', htag', -⟩ := handOver_entry (hand_answered hs.net hhand) hx
      · exact ⟨x, hx', htag⟩
      · exact ⟨x', hx', htag'.trans htag⟩
    · exact (hs.free t (handOver_free ▸ ht)).imp (handOver_closed.trans ·) (deliver_clear hs.net hhand)
    · exact deliver_pcOk hs.net hs.map hhand (hs.calls call hcall)
    · intro hnc
      exact handOver_closed.trans (hs.closed (handOver_ncClosed ▸ hnc))
  | readFail =>
    have hsame : SameNet { s.shared with hand := none } { s.shared.shutdown with hand := none, readerDone := true } :=
      ⟨rfl, rfl, rfl⟩
    exact hs.grows grows_readFail htags rfl rfl (fun _ _ => id) (hsame.netInv (drop_netInv hs.net)) fun _ => rfl
  | shutdown =>
    have hsame : SameNet s.shared s.shared.shutdown := ⟨rfl, rfl, rfl⟩
    exact hs.grows grows_shutdown htags rfl rfl (fun _ _ => id) (hsame.netInv hs.net) fun _ => rfl
  | closeNc hclosed =>
    have hsame : SameNet s.shared { s.shared with ncClosed := true } := ⟨rfl, rfl, rfl⟩
    exact hs.grows (hsame.grows id rfl rfl) htags rfl rfl (fun _ _ => id) (hsame.netInv hs.net) fun _ => hclosed
  | cancelAll hnc =>
    have hsame : SameNet s.shared s.shared.cancelAll := ⟨rfl, rfl, rfl⟩
    exact hs.grows (grows_cancelAll (hs.closed hnc)) htags rfl rfl (fun _ _ h => by cases h) (hsame.netInv hs.net)
      hs.closed

end Step

/-- **Every caller gets the answer to its own T-message**, in every run in which a Tflush is sent only when every earlier
one with its tag has been answered and delivered. -/
theorem response_matches (maxInflight : Nat) (hn : maxInflight ≤ maxMaxInflight) (ls : List (Label μ ρ))
    (s : State μ ρ) (hok : Meets (step maxInflight) FlushTagOk (init maxInflight) ls)
    (h : run (step maxInflight) (init maxInflight) ls = some s) (k : Nat) (call : Call μ ρ)
    (hk : s.calls[k]? = some call) (i : Nat) (f : RFrame ρ) (hpc : call.pc = .done (.ok i f)) :
    f.id = i ∧ ∃ tag, s.shared.sent[i]? = some ⟨tag, call.msg⟩ := by
  have hs : MatchInv s := run_inv_of_meets step_matchInv (init_matchInv hn) hok h
  have hcall := hs.calls call (mem_of_getElem? hk)
  rw [hpc] at hcall
  exact ⟨hcall.1.2, hcall.2.1⟩

/-- A caller writes its T-message. -/
def sendSteps (k : Nat) : List (Label Unit Unit) := List.replicate 4 (.move k .go)

/-- A caller is cancelled and writes a Tflush. -/
def flushSteps (k : Nat) : List (Label Unit Unit) := .move k .ctxDone :: List.replicate 3 (.move k .go)

def answerSteps (i : Nat) : List (Label Unit Unit) := [.answer i false (), .read, .deliver]

/-- A caller gets its answer and returns. -/
def returnSteps (k : Nat) : List (Label Unit Unit) := .move k .recv :: List.replicate 3 (.move k .go)

/-- A cancelled caller takes what its `select` offers and returns. -/
def failSteps (k : Nat) (choice : Choice) : List (Label Unit Unit) := .move k choice :: List.replicate 4 (.move k .go)

/-- The first caller is cancelled and gets its Rflush; the next is answered on the same tag. -/
def flushedRun : List (Label Unit Unit) :=
  .call (.other ()) false true :: sendSteps 0 ++ flushSteps 0 ++ answerSteps 1 ++ failSteps 0 .recvFlush ++
    .call (.other ()) false true :: sendSteps 1 ++ answerSteps 2 ++ returnSteps 1

theorem response_matches_flushed :
    ∃ s, run (step 1) (init 1) flushedRun = some s ∧
      s.calls.map (·.pc) = [.done (.failed (some 0) .ctx), .done (.ok 2 ⟨1, 2, false, ()⟩)] ∧
      ∃ tag, s.shared.sent[2]? = some ⟨tag, .other ()⟩ :=
  ⟨_, rfl, rfl, (response_matches 1 (by decide) flushedRun _ (by decide) rfl 1
    ⟨.other (), false, true, .done (.ok 2 ⟨1, 2, false, ()⟩)⟩ rfl 2 ⟨1, 2, false, ()⟩ rfl).2⟩

/-- The first caller is cancelled and gets its answer; the Rflush comes while the second one, cancelled as well, waits
for another with the same tag; so the third caller gets the answer to the second. -/
def staleRflushRun : List (Label Unit Unit) :=
  .call (.other ()) false true :: sendSteps 0 ++ flushSteps 0 ++ answerSteps 0 ++ failSteps 0 .recv ++
    .call (.other ()) false true :: sendSteps 1 ++ flushSteps 1 ++ answerSteps 1 ++ failSteps 1 .recvFlush ++
    .call (.other ()) false true :: sendSteps 2 ++ answerSteps 2 ++ returnSteps 2

theorem stale_rflush :
    ∃ s, run (step 1) (init 1) staleRflushRun = some s ∧
      s.calls.map (·.pc) =
        [.done (.failed (some 0) .ctx), .done (.failed (some 2) .ctx), .done (.ok 4 ⟨1, 2, false, ()⟩)] :=
  ⟨_, rfl, rfl⟩

end NineP.Client
