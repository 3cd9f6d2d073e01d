import NineP.Client.Accounting

/-!
# What the read loop touches

While the read loop copies, the entry stays registered under the tag of the frame, and the count fits its buffer.
-/

namespace NineP.Client.ReadLoop

open Proto Codec Transition List Option

variable {μ : Type}

/-! ## The copy -/

/-- What the read loop relies on while it copies. -/
structure CopyOk (inflight : Tag → Option Nat) (owners : List Nat) (dst : List Bytes) (tag : Tag) (e count i : Nat) :
    Prop where
  entry : inflight tag = some e
  done : i ≤ count
  fits : ∃ (k : Nat) (d : Bytes), owners[e]? = some k ∧ dst[k]? = some d ∧ count ≤ d.length

def CopyInv (s : State μ) : Prop :=
  ∀ tag e count i b, s.reader = .copying tag e count i b →
    tag = tagOf b ∧ count = countOf b ∧ CopyOk s.net.shared.inflight s.owners s.dst tag e count i

section Copy

variable {s : State μ}

theorem zeroCopy_eq (h : s.zeroCopy tag = some (e, len)) :
    s.net.shared.inflight tag = some e ∧
      ∃ (k : Nat) (d : Bytes), s.owners[e]? = some k ∧ s.dst[k]? = some d ∧ d.length = len := by
  simp only [State.zeroCopy, bind_eq_bind, bind_eq_some_iff] at h
  obtain ⟨e', he, x, hx, k, hk, d, hd, h⟩ := h
  simp only [ite_none_right_eq_some, Option.some.injEq, Prod.mk.injEq] at h
  obtain ⟨-, rfl, rfl⟩ := h
  exact ⟨he, k, d, hk, hd, rfl⟩

theorem moves_unlocked {c : Shared μ Bytes}
    (h : Moves maxInflight s.net.shared call pc pc' c) (hpc : locksMap pc = false) :
    c.inflight = s.net.shared.inflight := by
  cases h with
  | register | flushRegister | unregisterOk | abandoned | flushUnregister | unregister => cases hpc
  | releaseOk | release => exact (release_sameEntries _).1
  | _ => rfl

theorem step_copyInv (hs : CopyInv s) (h : Steps cfg s l s') : CopyInv s' := by
  intro tag e count i b hreader
  have hnone {r : Reader} (hr : r.locks = false) : r ≠ .copying tag e count i b := by
    rintro rfl
    cases hr
  cases h with
  | call =>
    obtain ⟨htag, hcount, hentry, hdone, k, d, hk, hd, hlen⟩ := hs tag e count i b hreader
    exact ⟨htag, hcount, hentry, hdone, k, d, hk, getElem?_concat_left hd _, hlen⟩
  | move hk hfree h =>
    obtain ⟨htag, hcount, hentry, hdone, k, d, hk, hd, hlen⟩ := hs tag e count i b hreader
    have hlocked : s.reader.locks := by rw [show s.reader = _ from hreader]; rfl
    refine ⟨htag, hcount, ?_, hdone, k, d, ?_, hd, hlen⟩
    · exact (congrFun (moves_unlocked h (hfree hlocked)) tag).trans hentry
    · exact (getElem?_append_left (getElem?_lt hk)).trans hk
  | read _ hr => exact absurd hreader (hnone hr)
  | lock hparsed he hlen =>
    obtain ⟨rfl, rfl, rfl, rfl, rfl⟩ := Reader.copying.inj hreader
    obtain ⟨hentry, k, d, hk, hd, rfl⟩ := zeroCopy_eq he
    exact ⟨rfl, rfl, hentry, Nat.zero_le _, k, d, hk, hd, hlen⟩
  | @copy _ _ _ j k b' hold hi hk =>
    obtain ⟨rfl, rfl, rfl, rfl, rfl⟩ := Reader.copying.inj hreader
    obtain ⟨htag, hcount, hentry, -, k', d, hk', hd, hlen⟩ := hs _ _ _ _ _ hold
    obtain rfl := mem_unique hk hk'
    exact ⟨htag, hcount, hentry, hi, k, d.set j (b'.getD (7 + j) 0), hk, by simp [hd], by simpa using hlen⟩
  | post | deliver | stop => exact absurd hreader (hnone rfl)
  | shutdown | closeNc => exact hs tag e count i b hreader
  | cancelAll hlocks => exact absurd hreader (hnone hlocks)

end Copy

variable {cfg : Config} {s : State μ}

theorem run_invs (hn : cfg.maxInflight ≤ maxMaxInflight)
    (h : run (step cfg) (init cfg) ls = some s) : Inv cfg.maxInflight s.net s.owners ∧ CopyInv s := by
  refine run_inv (P := fun s => Inv cfg.maxInflight s.net s.owners ∧ CopyInv s) ?_ ⟨init_inv _, ?_⟩ h
  · intro s l s' hs h
    exact ⟨step_inv hn hs.1 (step_steps h), step_copyInv hs.2 (step_steps h)⟩
  · intro tag e count i b h
    cases h

def returned : Pc Bytes → Bool
  | .done _ => true
  | _ => false

theorem not_returned (h : Has pc t) : returned pc = false := by
  cases pc with
  | done => rcases h with h | h <;> cases h
  | _ => rfl

/-- **Zero-copy safety.**  A step leaves the buffers of all calls alone, or it copies one byte of the payload of a frame
to its place in the buffer of the call that is registered under the frame's tag and has not returned; and the frame's
count fits the buffer. -/
theorem zero_copy_safe (cfg : Config) (hn : cfg.maxInflight ≤ maxMaxInflight) (ls : List (Label μ)) {s s' : State μ}
    {l : Label μ} (h : run (step cfg) (init cfg) ls = some s) (hstep : step cfg s l = some s') :
    (∃ new, s'.dst = s.dst ++ new) ∨
      ∃ (b : Bytes) (e k i : Nat) (call : Call μ Bytes) (d : Bytes),
        s.reader = .copying (tagOf b) e (countOf b) i b ∧ s.net.shared.inflight (tagOf b) = some e ∧
          s.owners[e]? = some k ∧ s.net.calls[k]? = some call ∧ returned call.pc = false ∧ s.dst[k]? = some d ∧
          i < countOf b ∧ countOf b ≤ d.length ∧ s'.dst = s.dst.set k (d.set i (b.getD (7 + i) 0)) := by
  obtain ⟨hs, hcopy⟩ := run_invs hn h
  cases step_steps hstep with
  | call => exact .inl ⟨_, rfl⟩
  | @copy tag e count i k b hreader hi hk =>
    obtain ⟨rfl, rfl, hentry, -, k', d, hk', hd, hlen⟩ := hcopy tag e count i b hreader
    obtain rfl := mem_unique hk hk'
    obtain ⟨x, j, call, -, -, -, hj, hcall, hhas⟩ := hs.entry _ e hentry
    obtain rfl := mem_unique hk hj
    refine .inr ⟨b, e, k, i, call, d, hreader, hentry, hk, hcall, not_returned hhas, hd, hi, hlen, ?_⟩
    rw [modify_eq_set_getElem?, hd]
    rfl
  | move | read | lock | post | deliver | stop | shutdown | closeNc | cancelAll =>
    exact .inl ⟨[], (append_nil _).symm⟩

/-- Two callers with buffers of two bytes; the second one is cancelled and returns, and an Rread comes for each. -/
def zeroCopyRun : List (Label Unit) :=
  [.call (.other ()) (some [0, 0]) false, .call (.other ()) (some [0, 0]) false] ++
    List.replicate 4 (.move 0 .go) ++ List.replicate 4 (.move 1 .go) ++ [.move 1 .ctxDone, .move 1 .go] ++
    [.frame [117, 2, 0, 2, 0, 0, 0, 8, 9], .lookup, .decode true, .deliver] ++
    [.frame [117, 1, 0, 2, 0, 0, 0, 8, 9], .lookup, .copy]

theorem zero_copy_safe_second : ∃ s s' : State Unit,
    run (step ⟨2, 8192⟩) (init ⟨2, 8192⟩) zeroCopyRun = some s ∧ step ⟨2, 8192⟩ s .copy = some s' ∧
      s'.dst = [[8, 9], [0, 0]] ∧
      ((∃ new, s'.dst = s.dst ++ new) ∨
        ∃ (b : Bytes) (e k i : Nat) (call : Call Unit Bytes) (d : Bytes),
          s.reader = .copying (tagOf b) e (countOf b) i b ∧ s.net.shared.inflight (tagOf b) = some e ∧
            s.owners[e]? = some k ∧ s.net.calls[k]? = some call ∧ returned call.pc = false ∧ s.dst[k]? = some d ∧
            i < countOf b ∧ countOf b ≤ d.length ∧ s'.dst = s.dst.set k (d.set i (b.getD (7 + i) 0))) :=
  ⟨_, _, rfl, rfl, rfl, zero_copy_safe ⟨2, 8192⟩ (by decide) zeroCopyRun (l := .copy) rfl rfl⟩

/-! ## Tags and channels -/

def held (t : Tag) (call : Call μ Bytes) : Bool := call.pc.tag = some t

/-- The caller gave up without a Tflush, and the tag is not used again. -/
def withheld (c : Shared μ Bytes) (t : Tag) (call : Call μ Bytes) : Bool :=
  match call.pc with
  | .done (.abandoned i) => c.tagAt i = some t
  | _ => false

/-- The tag under which a caller's next step registers an entry. -/
def registers : Pc Bytes → Option Tag
  | .acquired tag => some tag
  | .flushing tag _ _ => some (flushTagFor tag)
  | _ => none

/-- The step sends on the channel of entry `e`, or closes it. -/
def touches (s : State μ) : Label μ → Nat → Prop
  | .post, e => ∃ tag count i b, s.reader = .copying tag e count i b
  | .deliver, e => ∃ b, s.reader = .delivering b ∧ s.net.shared.inflight (tagOf b) = some e
  | .cancelAll, e => ∃ t, s.net.shared.inflight t = some e
  | _, _ => False

/-- The channel of entry `e` is not closed and gets no message. -/
def QuietAt (c c' : Shared μ Bytes) (e : Nat) : Prop :=
  ∀ x x' : Entry Bytes, c.entries[e]? = some x → c'.entries[e]? = some x' →
    x'.chClosed = x.chClosed ∧ (x'.ch = none ∨ x'.ch = x.ch)

section Quiet

variable {c c' : Shared μ Bytes}

theorem quietAt_of_eq (h : c'.entries[e]? = c.entries[e]?) : QuietAt c c' e := by
  intro x x' hx hx'
  rw [h, hx] at hx'
  cases hx'
  exact ⟨rfl, .inr rfl⟩

theorem quietAt_modify {f : Entry Bytes → Entry Bytes} (h : c'.entries = c.entries.modify e' f)
    (hne : e' ≠ e) : QuietAt c c' e :=
  quietAt_of_eq (by simp [h, hne])

theorem quietAt_take (h : QuietAt c c' e) (e' : Nat) : QuietAt c (c'.take e') e := by
  intro x x' hx hx'
  rw [Shared.take, getElem?_modify] at hx'
  obtain ⟨y, hy, rfl⟩ := map_eq_some_iff.1 hx'
  obtain ⟨hclosed, hch⟩ := h x y hx hy
  split
  · exact ⟨hclosed, .inl rfl⟩
  · exact ⟨hclosed, hch⟩

theorem quietAt_register (t : Tag) (zeroCopy : Bool) : QuietAt c (c.register t zeroCopy) e := by
  intro x x' hx hx'
  rw [Shared.register, getElem?_concat_left hx] at hx'
  cases hx'
  exact ⟨rfl, .inr rfl⟩

theorem moves_quietAt
    (h : Moves maxInflight c call pc pc' c') : QuietAt c c' e := by
  cases h with
  | register | flushRegister => exact quietAt_register _ _
  | recv => exact quietAt_take (quietAt_of_eq rfl) _
  | flushRecv | flushRecvFlush => exact quietAt_take (quietAt_take (quietAt_of_eq rfl) _) _
  | abandoned => exact quietAt_take (quietAt_of_eq (show (c.unregister _).entries[e]? = c.entries[e]? from rfl)) _
  | releaseOk | release =>
    refine quietAt_of_eq ?_
    unfold Shared.release
    split <;> rfl
  | _ => exact quietAt_of_eq rfl

theorem deliver_quietAt (f : RFrame Bytes) (h : c.inflight f.tag ≠ some e) : QuietAt c (c.deliver f) e := by
  unfold Shared.deliver
  split
  · exact quietAt_of_eq rfl
  · rename_i e' he'
    exact quietAt_modify rfl fun heq => h (heq ▸ he')

theorem cancelAll_quietAt (h : ∀ t, c.inflight t ≠ some e) : QuietAt c c.cancelAll e := by
  refine quietAt_of_eq ?_
  simp only [Shared.cancelAll, getElem?_mapIdx]
  cases c.entries[e]? with
  | none => rfl
  | some x => simp [h x.tag]

end Quiet

theorem touches_of_step {s' : State μ} (h : step cfg s l = some s')
    (hquiet : ¬QuietAt s.net.shared s'.net.shared e) : touches s l e := by
  cases step_steps h with
  | call | read | lock | copy | stop | shutdown | closeNc => exact absurd (quietAt_of_eq rfl) hquiet
  | move _ _ hmove => exact absurd (moves_quietAt hmove) hquiet
  | @post tag e' count b hreader =>
    by_cases he : e' = e
    · exact ⟨tag, count, count, b, he ▸ hreader⟩
    · exact absurd (quietAt_modify rfl he) hquiet
  | @deliver b hreader => exact ⟨b, hreader, by_contra fun he => hquiet (deliver_quietAt _ he)⟩
  | cancelAll => exact by_contra fun he => hquiet (cancelAll_quietAt (not_exists.1 he))

theorem count_newTagAllocator (hn : n ≤ maxMaxInflight) (h1 : 1 ≤ t.toNat) (ht : t.toNat ≤ n) :
    (newTagAllocator n).count t = 1 := by
  refine count_eq_one_of_mem (nodup_newTagAllocator hn) (mem_map.2 ⟨t.toNat - 1, ?_, ?_⟩)
  · exact mem_range.2 (by omega)
  · rw [Nat.sub_add_cancel h1, UInt16.ofNat_toNat]

theorem toNat_le_of_mem (h : t ∈ newTagAllocator n) : t.toNat ≤ n := by
  obtain ⟨i, hi, rfl⟩ := mem_map.1 h
  have hi := mem_range.1 hi
  rw [UInt16.toNat_ofNat']
  exact Nat.le_trans (Nat.mod_le _ _) hi

theorem account_eq (c : Shared μ Bytes) (t : Tag) (call : Call μ Bytes) :
    decide (account c call.pc = some t) = (held t call || withheld c t call) := by
  obtain ⟨msg, zeroCopy, flushOnCancel, pc⟩ := call
  rw [Bool.eq_iff_iff, decide_eq_true_iff]
  cases pc with
  | done o => cases o <;> simp [account, held, withheld, Pc.tag]
  | _ => simp [account, held, withheld]

theorem not_withheld {call : Call μ Bytes} (h : held t call) : withheld c t call = false := by
  obtain ⟨msg, zeroCopy, flushOnCancel, pc⟩ := call
  cases pc with
  | done => cases of_decide_eq_true h
  | _ => rfl

theorem countP_account (c : Shared μ Bytes) (calls : List (Call μ Bytes)) (t : Tag) :
    calls.countP (account c ·.pc = some t) = calls.countP (held t) + calls.countP (withheld c t) := by
  induction calls with
  | nil => rfl
  | cons call calls ih =>
    rw [countP_cons, ih, account_eq, countP_cons, countP_cons]
    cases hheld : held t call with
    | true =>
      rw [not_withheld hheld]
      simp only [Bool.true_or, if_true, Bool.false_eq_true, if_false]
      omega
    | false =>
      simp only [Bool.false_or, Bool.false_eq_true, if_false]
      omega

section Facts

variable {net : Client.State μ Bytes} (hs : Inv maxInflight net owners)
  (hn : maxInflight ≤ maxMaxInflight)
include hs hn

/-- Every key of the map is a tag in use or the mirror of one, and not `NoTag`. -/
theorem Inv.key (he : net.shared.inflight t = some e) :
    t ≠ noTag ∧ ∃ call ∈ net.calls, ∃ tag, call.pc.tag = some tag ∧ (t = tag ∨ t = flushTagFor tag) := by
  obtain ⟨x, k, call, -, -, -, -, hk, hhas⟩ := hs.entry t e he
  obtain ⟨tag, htag, ht⟩ := tag_of_has hhas
  have hmem := mem_of_getElem? hk
  have hle := toNat_le_of_mem (hs.mem_allocator hmem htag)
  have hlarge : noTag.toNat = 65535 := rfl
  unfold maxMaxInflight at hn
  refine ⟨?_, call, hmem, tag, htag, ht⟩
  rintro rfl
  rcases ht with rfl | ht
  · omega
  · rw [ht, flushTagFor_toNat (hs.small hn hmem htag)] at hlarge
    omega

theorem Inv.unregistered {k : Nat} {call : Call μ Bytes} (hk : net.calls[k]? = some call)
    (ht : registers call.pc = some t) : net.shared.inflight t = none := by
  rw [eq_none_iff_forall_ne_some]
  intro e he
  obtain ⟨msg, zeroCopy, flushOnCancel, pc⟩ := call
  cases pc with
  | acquired tag =>
    have hhas := hs.has_of_entry hn hk rfl (.inl (Option.some.inj ht).symm) he
    rcases hhas with h | h <;> cases h
  | flushing tag _ _ =>
    have hhas := hs.has_of_entry hn hk rfl (.inr (Option.some.inj ht).symm) he
    have hsmall := hs.small hn (mem_of_getElem? hk) (t := tag) rfl
    cases ht
    exact flushTagFor_ne hsmall hsmall (Option.some.inj (hhas.resolve_right nofun)).symm
  | _ => cases ht

end Facts

/-- What the accounting of tags, entries and channels says of a state. -/
structure Accounted (cfg : Config) (s : State μ) : Prop where
  /-- A tag is free, held by one caller, or withheld by one. -/
  once : ∀ t : Tag, 1 ≤ t.toNat → t.toNat ≤ cfg.maxInflight →
    s.net.shared.free.count t + s.net.calls.countP (held t) + s.net.calls.countP (withheld s.net.shared t) = 1
  key : ∀ t e, s.net.shared.inflight t = some e →
    t ≠ noTag ∧ ∃ call ∈ s.net.calls, ∃ tag, call.pc.tag = some tag ∧ (t = tag ∨ t = flushTagFor tag)
  /-- To register replaces nothing. -/
  unregistered : ∀ (k : Nat) (call : Call μ Bytes) t, s.net.calls[k]? = some call → registers call.pc = some t →
    s.net.shared.inflight t = none
  /-- No entry has two tags; `cancelAll` closes each channel once. -/
  unique : ∀ t t' e, s.net.shared.inflight t = some e → s.net.shared.inflight t' = some e → t = t'
  /-- A channel that a step touches is open. -/
  opened : ∀ l s' e, step cfg s l = some s' →
    (QuietAt s.net.shared s'.net.shared e ∨ touches s l e) ∧
      (touches s l e → ∃ x, s.net.shared.entries[e]? = some x ∧ x.chClosed = false)

/-- **Tag accounting.**  In every state of every run, each tag from 1 to `maxInflight` is in the free list once, held by
one caller, or withheld by one that gave up without a Tflush; the keys of the in-flight map are such tags and their
mirrors, so that nobody's entry is replaced; and no step sends on a closed channel or closes it again. -/
theorem tag_accounting (cfg : Config) (hn : cfg.maxInflight ≤ maxMaxInflight) (ls : List (Label μ)) {s : State μ}
    (h : run (step cfg) (init cfg) ls = some s) : Accounted cfg s := by
  obtain ⟨hs, hcopy⟩ := run_invs hn h
  have hopen {t : Tag} {e : Nat} (he : s.net.shared.inflight t = some e) :
      ∃ x, s.net.shared.entries[e]? = some x ∧ x.chClosed = false := by
    obtain ⟨x, k, call, hx, -, hclosed, -⟩ := hs.entry t e he
    exact ⟨x, hx, hclosed⟩
  refine ⟨fun t h1 ht => ?_, fun t e => hs.key hn, fun k call t hk => hs.unregistered hn hk, ?_, ?_⟩
  · rw [Nat.add_assoc, ← countP_account, hs.account, count_newTagAllocator hn h1 ht]
  · intro t t' e he he'
    obtain ⟨x, k, call, hx, rfl, -⟩ := hs.entry t e he
    obtain ⟨x', k', call', hx', rfl, -⟩ := hs.entry t' e he'
    rw [mem_unique hx hx']
  · intro l s' e hstep
    refine ⟨or_iff_not_imp_left.2 (touches_of_step hstep), fun htouches => ?_⟩
    cases l with
    | post =>
      obtain ⟨tag, count, i, b, hreader⟩ := htouches
      exact hopen (hcopy tag e count i b hreader).2.2.entry
    | deliver =>
      obtain ⟨b, -, he⟩ := htouches
      exact hopen he
    | cancelAll =>
      obtain ⟨t, he⟩ := htouches
      exact hopen he
    | _ => exact htouches.elim

/-- One caller waits and another one has given up its tag; then the connection is shut down. -/
theorem tag_accounting_closed : ∃ s : State Unit,
    run (step ⟨2, 8192⟩) (init ⟨2, 8192⟩) (zeroCopyRun ++ [.copy, .post, .shutdown, .closeNc, .cancelAll]) = some s ∧
      s.net.shared.free = [] ∧ s.net.calls.map (·.pc) = [.waiting 1 0 0, .done (.abandoned 1)] ∧
      s.net.shared.entries.map (·.chClosed) = [true, false] ∧ Accounted ⟨2, 8192⟩ s :=
  ⟨_, rfl, rfl, rfl, rfl, tag_accounting ⟨2, 8192⟩ (by decide)
    (zeroCopyRun ++ [.copy, .post, .shutdown, .closeNc, .cancelAll]) rfl⟩

end NineP.Client.ReadLoop
