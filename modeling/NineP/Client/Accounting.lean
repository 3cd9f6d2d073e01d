import Mathlib.Data.List.Perm.Subperm
import NineP.Client.ReadLoop
import NineP.Client.Responses

/-!
# Tags and entries of the client
-/

namespace NineP.Client.ReadLoop

open Proto Codec Transition List

/-! ## Tags -/

section Tags

variable {μ ρ : Type}

/-- The tag of a caller: held, or withheld because the caller gave up without a Tflush. -/
def account (c : Shared μ ρ) : Pc ρ → Option Tag
  | .done (.abandoned i) => c.tagAt i
  | pc => pc.tag

/-- The T-message of a caller has its tag. -/
def SentOk (c : Shared μ ρ) : Pc ρ → Prop
  | .waiting tag _ i | .abandoning tag _ i => c.tagAt i = some tag
  | .done (.abandoned i) => ∃ tag, c.tagAt i = some tag
  | _ => True

/-- What a caller's step does to the tags. -/
inductive AccountMove (maxInflight : Nat) (c : Shared μ ρ) (pc pc' : Pc ρ) (c' : Shared μ ρ) : Prop
  | keep (hfree : c'.free = c.free) (hpc : account c' pc' = account c pc)
  | acquire {tag : Tag} (hfree : c.free = tag :: c'.free) (hpc : account c pc = none)
      (hpc' : account c' pc' = some tag)
  | release {tag : Tag} (hfree : c'.free = (c.release maxInflight tag).free) (hpc : account c pc = some tag)
      (hpc' : account c' pc' = none)

variable {c c' : Shared μ ρ} {pc : Pc ρ}

theorem account_of_tag (h : pc.tag = some t) : account c pc = some t := by
  cases pc <;> first | exact h | cases h

theorem moves_account (h : Moves maxInflight c call pc pc' c') (hsent : SentOk c pc) :
    AccountMove maxInflight c pc pc' c' := by
  cases h with
  | acquire hfree => exact .acquire hfree rfl rfl
  | releaseOk | release => exact .release rfl rfl rfl
  | abandoned => exact .keep rfl hsent
  | _ => exact .keep rfl rfl

theorem moves_tagAt (h : Moves maxInflight c call pc pc' c') (hi : c.tagAt i = some t) :
    c'.tagAt i = some t := by
  obtain hsame | ⟨_, tag, msg, -, -, rfl⟩ := h.net
  · rw [Shared.tagAt, hsame.sent]
    exact hi
  · rw [Shared.tagAt_send, if_neg (Nat.ne_of_lt (Shared.tagAt_lt hi)), hi]

theorem SentOk.mono (h : SentOk c pc) (hsent : ∀ i t, c.tagAt i = some t → c'.tagAt i = some t) : SentOk c' pc := by
  cases pc with
  | waiting | abandoning => exact hsent _ _ h
  | done o =>
    cases o with
    | abandoned i => exact h.imp fun _ => hsent _ _
    | ok | failed => trivial
  | _ => trivial

theorem account_mono (h : SentOk c pc) (hsent : ∀ i t, c.tagAt i = some t → c'.tagAt i = some t) :
    account c' pc = account c pc := by
  cases pc with
  | done o =>
    cases o with
    | abandoned i =>
      obtain ⟨t, ht⟩ := h
      exact (hsent i t ht).trans ht.symm
    | ok | failed => rfl
  | _ => rfl

theorem moves_sentOk (h : Moves maxInflight c call pc pc' c') (hsent : SentOk c pc) : SentOk c' pc' := by
  cases h with
  | write => exact Shared.tagAt_send.trans (if_pos rfl)
  | abandon => exact hsent
  | abandoned => exact ⟨_, hsent⟩
  | _ => trivial

end Tags

/-! ## Entries -/

section Entries

variable {μ ρ : Type}

/-- The tag under which a caller may have its entry. -/
def own : Pc ρ → Option Tag
  | .registered tag _ | .writing tag _ | .waiting tag _ _ | .received tag _ _ _ | .abandoning tag _ _
  | .flushing tag _ _ | .flushRegistered tag _ _ _ | .flushWriting tag _ _ _ | .flushWaiting tag _ _ _ _
  | .flushUnregistering tag _ _ | .unregistering tag _ _ => some tag
  | _ => none

/-- The tag under which it may have that of its Tflush. -/
def mirror : Pc ρ → Option Tag
  | .flushRegistered tag _ _ _ | .flushWriting tag _ _ _ | .flushWaiting tag _ _ _ _
  | .flushUnregistering tag _ _ => some (flushTagFor tag)
  | _ => none

/-- A caller may have an entry under the tag. -/
def Has (pc : Pc ρ) (t : Tag) : Prop := own pc = some t ∨ mirror pc = some t

/-- Only the contents of channels and buffers differ. -/
structure SameEntries (c c' : Shared μ ρ) : Prop where
  length : c'.entries.length = c.entries.length
  entry : ∀ (e : Nat) (x : Entry ρ), c.entries[e]? = some x →
    ∃ x', c'.entries[e]? = some x' ∧ x'.tag = x.tag ∧ x'.zeroCopy = x.zeroCopy ∧ x'.chClosed = x.chClosed

/-- What a caller's step does to the map. -/
inductive MapMove (c : Shared μ ρ) (pc pc' : Pc ρ) (c' : Shared μ ρ) : Prop
  | same (hmap : c'.inflight = c.inflight) (hentries : SameEntries c c') (hhas : ∀ t, Has pc t → Has pc' t)
  | register {tag t : Tag} {zeroCopy : Bool} (htag : pc.tag = some tag) (ht : t = tag ∨ t = flushTagFor tag)
      (hmap : c'.inflight = (c.register t zeroCopy).inflight) (hentries : c'.entries = (c.register t zeroCopy).entries)
      (hhas : ∀ t', Has pc t' → Has pc' t') (hnew : Has pc' t) (hold : ¬Has pc t)
  | unregister {t : Tag} (hmap : c'.inflight = (c.unregister t).inflight) (hentries : SameEntries c c')
      (hhas : ∀ t', t' ≠ t → Has pc t' → Has pc' t')

variable {c c' : Shared μ ρ} {pc : Pc ρ}

theorem sameEntries_refl (h : c'.entries = c.entries) : SameEntries c c' := by
  refine ⟨by rw [h], fun e x hx => ⟨x, by rw [h, hx], rfl, rfl, rfl⟩⟩

theorem sameEntries_modify {f : Entry ρ → Entry ρ} (h : c'.entries = c.entries.modify e f)
    (hf : ∀ x, (f x).tag = x.tag ∧ (f x).zeroCopy = x.zeroCopy ∧ (f x).chClosed = x.chClosed) : SameEntries c c' := by
  refine ⟨by rw [h, length_modify], fun j x hx => ?_⟩
  rw [h, getElem?_modify, hx]
  by_cases hj : e = j
  · exact ⟨f x, by simp [hj], hf x⟩
  · exact ⟨x, by simp [hj], rfl, rfl, rfl⟩

theorem SameEntries.trans (h : SameEntries c c') (h' : SameEntries c' c'') : SameEntries c c'' := by
  refine ⟨h'.length.trans h.length, fun e x hx => ?_⟩
  obtain ⟨x', hx', htag, hzero, hclosed⟩ := h.entry e x hx
  obtain ⟨x'', hx'', htag', hzero', hclosed'⟩ := h'.entry e x' hx'
  exact ⟨x'', hx'', htag'.trans htag, hzero'.trans hzero, hclosed'.trans hclosed⟩

theorem sameEntries_take (e : Nat) : SameEntries c (c.take e) := sameEntries_modify rfl fun _ => ⟨rfl, rfl, rfl⟩

theorem sameEntries_deliver (f : RFrame ρ) : SameEntries c (c.deliver f) := by
  unfold Shared.deliver
  split
  · exact sameEntries_refl rfl
  · refine sameEntries_modify rfl fun x => ?_
    split <;> exact ⟨rfl, rfl, rfl⟩

theorem tag_of_has (h : Has pc t) : ∃ tag, pc.tag = some tag ∧ (t = tag ∨ t = flushTagFor tag) := by
  rcases h with h | h
  · refine ⟨t, ?_, .inl rfl⟩
    cases pc <;> first | exact h | cases h
  · cases pc <;> first | exact ⟨_, rfl, .inr (Option.some.inj h).symm⟩ | cases h

theorem release_sameEntries (tag : Tag) :
    (c.release maxInflight tag).inflight = c.inflight ∧ SameEntries c (c.release maxInflight tag) := by
  unfold Shared.release
  split <;> exact ⟨rfl, sameEntries_refl rfl⟩

theorem moves_map (h : Moves maxInflight c call pc pc' c') (hsmall : ∀ tag, pc.tag = some tag → tag < flushTagBit) :
    MapMove c pc pc' c' := by
  cases h with
  | register =>
    refine .register rfl (.inl rfl) rfl rfl (fun t h => ?_) (.inl rfl) ?_
    · simp [Has, own, mirror] at h
    · simp [Has, own, mirror]
  | @flushRegister tag =>
    have hsmall := hsmall tag rfl
    refine .register rfl (.inr rfl) rfl rfl (fun t h => ?_) (.inr rfl) ?_
    · exact .inl (h.resolve_right (by simp [mirror]))
    · simpa [Has, own, mirror] using (flushTagFor_ne hsmall hsmall).symm
  | unregisterOk | unregister =>
    refine .unregister rfl (sameEntries_refl rfl) fun t ht h => absurd ?_ ht
    exact (Option.some.inj (h.resolve_right (by simp [mirror]))).symm
  | @abandoned _ e =>
    refine .unregister rfl (sameEntries_modify (e := e) rfl fun _ => ⟨rfl, rfl, rfl⟩) fun t ht h => absurd ?_ ht
    exact (Option.some.inj (h.resolve_right (by simp [mirror]))).symm
  | flushUnregister =>
    refine .unregister rfl (sameEntries_refl rfl) fun t ht h => .inl ?_
    exact h.resolve_right fun h => ht (Option.some.inj h).symm
  | recv => exact .same rfl (sameEntries_take _) fun _ h => h
  | flushRecv | flushRecvFlush => exact .same rfl ((sameEntries_take _).trans (sameEntries_take _)) fun _ h => h
  | releaseOk | release =>
    exact .same (release_sameEntries _).1 (release_sameEntries _).2 fun _ h => h
  | _ => exact .same rfl (sameEntries_refl rfl) fun _ h => h

end Entries

/-! ## The invariant -/

/-- Entry `e` is open, and under its own tag that of a caller which may have one there. -/
def Entered {μ : Type} (net : Client.State μ Bytes) (owners : List Nat) (t : Tag) (e : Nat) : Prop :=
  ∃ (x : Entry Bytes) (k : Nat) (call : Call μ Bytes), net.shared.entries[e]? = some x ∧ x.tag = t ∧
    x.chClosed = false ∧ owners[e]? = some k ∧ net.calls[k]? = some call ∧ Has call.pc t

structure Inv {μ : Type} (maxInflight : Nat) (net : Client.State μ Bytes) (owners : List Nat) : Prop where
  account : ∀ t, net.shared.free.count t + net.calls.countP (account net.shared ·.pc = some t) =
    (newTagAllocator maxInflight).count t
  sent : ∀ call ∈ net.calls, SentOk net.shared call.pc
  length : owners.length = net.shared.entries.length
  entry : ∀ t e, net.shared.inflight t = some e → Entered net owners t e

variable {μ : Type}

theorem init_inv (maxInflight : Nat) : Inv maxInflight (Client.init maxInflight : Client.State μ Bytes) [] where
  account := fun t => by simp [Client.init]
  sent := by simp [Client.init]
  length := rfl
  entry := fun _ _ h => by cases h

section Facts

variable {net : Client.State μ Bytes} (hs : Inv maxInflight net owners)
include hs

variable {call : Call μ Bytes}

theorem Inv.mem_allocator (hcall : call ∈ net.calls) (ht : call.pc.tag = some t) : t ∈ newTagAllocator maxInflight := by
  have hpos : 0 < net.calls.countP (ReadLoop.account net.shared ·.pc = some t) :=
    countP_pos_iff.2 ⟨call, hcall, by simp [account_of_tag ht]⟩
  have := hs.account t
  exact count_pos_iff.1 (by omega)

theorem Inv.room (hcall : call ∈ net.calls) (ht : ReadLoop.account net.shared call.pc = some t) :
    net.shared.free.length < maxInflight := by
  have hcounts (t' : Tag) : (t :: net.shared.free).count t' ≤ (newTagAllocator maxInflight).count t' := by
    rw [count_cons, ← hs.account t']
    split
    · rename_i heq
      obtain rfl : t = t' := by simpa using heq
      have hpos : 0 < net.calls.countP (ReadLoop.account net.shared ·.pc = some t) :=
        countP_pos_iff.2 ⟨call, hcall, by simp [ht]⟩
      omega
    · omega
  have hlen := (subperm_ext_iff.2 fun t' _ => hcounts t').length_le
  exact Nat.lt_of_succ_le (by simpa [newTagAllocator] using hlen)

variable (hn : maxInflight ≤ maxMaxInflight)
include hn

theorem Inv.small (hcall : call ∈ net.calls) (ht : call.pc.tag = some t) : t < flushTagBit :=
  mem_newTagAllocator hn (hs.mem_allocator hcall ht)

theorem Inv.eq_of_tag {i j : Nat} (hi : net.calls[i]? = some x) (hj : net.calls[j]? = some y)
    (hx : x.pc.tag = some t) (hy : y.pc.tag = some t) : i = j := by
  have hcount := nodup_iff_count_le_one.1 (nodup_newTagAllocator hn) t
  have := hs.account t
  exact eq_of_countP_le_one (p := fun call : Call μ Bytes => ReadLoop.account net.shared call.pc = some t) (by omega)
    hi hj (by simp [account_of_tag hx]) (by simp [account_of_tag hy])

theorem Inv.has_of_entry {k : Nat} (hk : net.calls[k]? = some call) (htag : call.pc.tag = some tag)
    (ht : t = tag ∨ t = flushTagFor tag) (he : net.shared.inflight t = some e) : Has call.pc t := by
  obtain ⟨x, j, call', -, -, -, -, hj, hhas⟩ := hs.entry t e he
  obtain ⟨tag', htag', ht'⟩ := tag_of_has hhas
  have hsmall := hs.small hn (mem_of_getElem? hk) htag
  have hsmall' := hs.small hn (mem_of_getElem? hj) htag'
  obtain rfl : tag' = tag := by
    rcases ht with rfl | rfl <;> rcases ht' with ht' | ht'
    · exact ht'.symm
    · exact absurd ht'.symm (flushTagFor_ne hsmall' hsmall)
    · exact absurd ht' (flushTagFor_ne hsmall hsmall')
    · exact (flushTagFor_inj hsmall hsmall' ht').symm
  obtain rfl := hs.eq_of_tag hn hj hk htag' htag
  obtain rfl := Option.mem_unique hk hj
  exact hhas

end Facts

/-! ## Steps -/

section Step

variable {maxInflight : Nat} {net : Client.State μ Bytes} {owners : List Nat} {c : Shared μ Bytes}

theorem Inv.of_same (hs : Inv maxInflight net owners) (hfree : c.free = net.shared.free)
    (hsent : c.sent = net.shared.sent) (hmap : c.inflight = net.shared.inflight)
    (hentries : SameEntries net.shared c) : Inv maxInflight { net with shared := c } owners := by
  have htagAt (i : Nat) : c.tagAt i = net.shared.tagAt i := by rw [Shared.tagAt, hsent, Shared.tagAt]
  have hmono (i : Nat) (t : Tag) (h : net.shared.tagAt i = some t) : c.tagAt i = some t := (htagAt i).trans h
  refine ⟨fun t => ?_, fun call hcall => (hs.sent call hcall).mono hmono, hs.length.trans hentries.length.symm, ?_⟩
  · rw [hfree, ← hs.account t]
    congr 1
    exact countP_congr fun call hcall => by rw [account_mono (hs.sent call hcall) hmono]
  · intro t e he
    obtain ⟨x, k, call, hx, htag, hclosed, hrest⟩ := hs.entry t e (hmap ▸ he)
    obtain ⟨x', hx', htag', -, hclosed'⟩ := hentries.entry e x hx
    exact ⟨x', k, call, hx', htag'.trans htag, hclosed'.trans hclosed, hrest⟩

theorem call_inv (hs : Inv maxInflight net owners) (hpc : call.pc = .acquiring) :
    Inv maxInflight { net with calls := net.calls ++ [call] } owners := by
  refine ⟨fun t => ?_, fun x hx => ?_, hs.length, fun t e he => ?_⟩
  · simpa [countP_append, hpc, account, Pc.tag] using hs.account t
  · rcases mem_append.1 hx with hx | hx
    · exact hs.sent x hx
    · rw [mem_singleton.1 hx, hpc]
      trivial
  · obtain ⟨x, k, y, hx, htag, hclosed, hk, hy, hhas⟩ := hs.entry t e he
    exact ⟨x, k, y, hx, htag, hclosed, hk, getElem?_concat_left hy _, hhas⟩

theorem cancelAll_inv (hs : Inv maxInflight net owners) :
    Inv maxInflight { net with shared := net.shared.cancelAll } owners :=
  ⟨hs.account, hs.sent, hs.length.trans (by simp [Shared.cancelAll]), fun _ _ h => by cases h⟩

section Move

variable {k : Nat} {call : Call μ Bytes} {pc : Pc Bytes} (hs : Inv maxInflight net owners) (hk : net.calls[k]? = some call)
  (h : Moves maxInflight net.shared call call.pc pc c)
include hs hk h

theorem move_account (t : Tag) :
    c.free.count t + (net.calls.set k { call with pc }).countP (account c ·.pc = some t) =
      (newTagAllocator maxInflight).count t := by
  have hmem := mem_of_getElem? hk
  have hold := hs.account t
  -- the accounts of the others do not change
  have hcongr : net.calls.countP (account c ·.pc = some t) = net.calls.countP (account net.shared ·.pc = some t) :=
    countP_congr fun x hx => by rw [account_mono (hs.sent x hx) fun i t => moves_tagAt h]
  have hcount := countP_set_add (fun x : Call μ Bytes => account c x.pc = some t) { call with pc } hk
  have hself : account c call.pc = account net.shared call.pc :=
    account_mono (hs.sent call hmem) fun i t => moves_tagAt h
  simp only [hcongr, hself, decide_eq_true_eq] at hcount
  cases moves_account h (hs.sent call hmem) with
  | keep hfree hpc =>
    rw [hpc] at hcount
    rw [hfree]
    omega
  | @acquire tag hfree hpc hpc' =>
    rw [hfree, count_cons] at hold
    simp only [hpc, hpc', reduceCtorEq, if_false, Option.some.injEq] at hcount
    simp only [beq_iff_eq] at hold
    omega
  | @release tag hfree hpc hpc' =>
    simp only [hpc, hpc', reduceCtorEq, if_false, Option.some.injEq] at hcount
    rw [hfree, Shared.release, if_pos (hs.room hmem hpc), count_append, count_singleton]
    simp only [beq_iff_eq]
    omega

variable (hn : maxInflight ≤ maxMaxInflight)
include hn

theorem move_length : (owners ++ List.replicate (c.entries.length - net.shared.entries.length) k).length =
    c.entries.length := by
  cases moves_map h fun tag => hs.small hn (mem_of_getElem? hk) with
  | same _ hentries | unregister _ hentries => simp [hentries.length, hs.length]
  | register _ _ _ hentries => simp [hentries, Shared.register, hs.length]

theorem move_entry (t : Tag) (e : Nat) (he : c.inflight t = some e) :
    Entered ⟨c, net.calls.set k { call with pc }⟩
      (owners ++ List.replicate (c.entries.length - net.shared.entries.length) k) t e := by
  have hlt := getElem?_lt hk
  -- an entry that was there before
  have hold (hmap : net.shared.inflight t = some e) (hhas : Has call.pc t → Has pc t)
      (hentries : ∀ (e : Nat) (x : Entry Bytes), net.shared.entries[e]? = some x →
        ∃ x', c.entries[e]? = some x' ∧ x'.tag = x.tag ∧ x'.zeroCopy = x.zeroCopy ∧ x'.chClosed = x.chClosed) :
      Entered ⟨c, net.calls.set k { call with pc }⟩
        (owners ++ List.replicate (c.entries.length - net.shared.entries.length) k) t e := by
    obtain ⟨x, j, y, hx, htag, hclosed, hj, hy, hy'⟩ := hs.entry t e hmap
    obtain ⟨x', hx', htag', -, hclosed'⟩ := hentries e x hx
    have howner : (owners ++ List.replicate (c.entries.length - net.shared.entries.length) k)[e]? = some j := by
      rw [getElem?_append_left (getElem?_lt hj), hj]
    by_cases hjk : j = k
    · subst hjk
      obtain rfl := Option.mem_unique hk hy
      exact ⟨x', j, _, hx', htag'.trans htag, hclosed'.trans hclosed, howner, getElem?_set_self hlt, hhas hy'⟩
    · exact ⟨x', j, y, hx', htag'.trans htag, hclosed'.trans hclosed, howner,
        (getElem?_set_ne (Ne.symm hjk)).trans hy, hy'⟩
  cases moves_map h fun tag => hs.small hn (mem_of_getElem? hk) with
  | same hmap hentries hhas => exact hold (hmap ▸ he) (hhas t) hentries.entry
  | @unregister t' hmap hentries hhas =>
    rw [hmap, Shared.unregister] at he
    by_cases ht : t = t'
    · simp [ht] at he
    · exact hold (by simpa [ht] using he) (hhas t ht) hentries.entry
  | @register tag t' zeroCopy _ _ hmap hentries hhas hnew =>
    rw [hmap, Shared.register] at he
    by_cases ht : t = t'
    · subst ht
      obtain rfl : net.shared.entries.length = e := by simpa using he
      refine ⟨⟨t, zeroCopy, none, false, none⟩, k, { call with pc }, ?_, rfl, rfl, ?_, getElem?_set_self hlt, hnew⟩
      · rw [hentries, Shared.register]
        exact getElem?_concat_length
      · simp [hentries, Shared.register, ← hs.length]
    · refine hold (by simpa [ht] using he) (hhas t) fun e x hx => ⟨x, ?_, rfl, rfl, rfl⟩
      rw [hentries, Shared.register]
      exact getElem?_concat_left hx _

theorem move_inv : Inv maxInflight ⟨c, net.calls.set k { call with pc }⟩
    (owners ++ List.replicate (c.entries.length - net.shared.entries.length) k) := by
  refine ⟨move_account hs hk h, fun x hx => ?_, move_length hs hk h hn, move_entry hs hk h hn⟩
  rcases mem_or_eq_of_mem_set hx with hx | rfl
  · exact (hs.sent x hx).mono fun i t => moves_tagAt h
  · exact moves_sentOk h (hs.sent call (mem_of_getElem? hk))

end Move

theorem step_inv {s s' : State μ} (hn : cfg.maxInflight ≤ maxMaxInflight)
    (hs : Inv cfg.maxInflight s.net s.owners) (h : Steps cfg s l s') : Inv cfg.maxInflight s'.net s'.owners := by
  cases h with
  | call => exact call_inv hs rfl
  | move hk _ h => exact move_inv hs hk h hn
  | read | lock | copy => exact hs
  | post => exact hs.of_same rfl rfl rfl (sameEntries_modify rfl fun _ => ⟨rfl, rfl, rfl⟩)
  | deliver =>
    have hsame (c : Shared μ Bytes) (f : RFrame Bytes) :
        (c.deliver f).free = c.free ∧ (c.deliver f).sent = c.sent ∧ (c.deliver f).inflight = c.inflight := by
      unfold Shared.deliver
      split <;> exact ⟨rfl, rfl, rfl⟩
    exact hs.of_same (hsame _ _).1 (hsame _ _).2.1 (hsame _ _).2.2 (sameEntries_deliver _)
  | stop | shutdown | closeNc => exact hs.of_same rfl rfl rfl (sameEntries_refl rfl)
  | cancelAll => exact cancelAll_inv hs

end Step

end NineP.Client.ReadLoop
