import Mathlib.Data.List.Count
import Mathlib.Logic.Function.Basic
import Mathlib.Tactic.Common

/-!
# Reference-counted resources

Holders take resources from their makers, the resource is counted, and the holder that leaves last closes it.

Main results: `Settled`, `Txn.settled`.
-/

namespace RefCount

open List

variable {ν : Type}

/-- What happens to resources. -/
inductive Event (ν : Type)
  | lent (n : ν)  -- handed out by a maker that keeps it
  | given (n : ν)  -- handed out for good: whoever has it must close it
  | bind (n : ν)  -- a holder takes it
  | close (n : ν)
  deriving DecidableEq

/-- How many hold each resource; the log is newest first. -/
@[ext] structure Ledger (ν : Type) where
  held : ν → Nat
  log : List (Event ν)

namespace Ledger

/-- Before anything happens. -/
def empty : Ledger ν := ⟨fun _ => 0, []⟩

def record (l : Ledger ν) (e : Event ν) : Ledger ν := { l with log := e :: l.log }

@[simp] theorem record_held (l : Ledger ν) (e : Event ν) : (l.record e).held = l.held := rfl

@[simp] theorem record_log (l : Ledger ν) (e : Event ν) : (l.record e).log = e :: l.log := rfl

/-- All holders leave and close nothing. -/
def abandon (l : Ledger ν) : Ledger ν := { l with held := fun _ => 0 }

/-- Close `n` unless somebody holds it. -/
def closeUnheld (l : Ledger ν) (n : ν) : Ledger ν := if l.held n = 0 then l.record (.close n) else l

@[simp] theorem closeUnheld_held (l : Ledger ν) (n : ν) : (l.closeUnheld n).held = l.held := by
  unfold closeUnheld
  split <;> rfl

variable [DecidableEq ν]

/-- A new holder of `n`. -/
def hold (l : Ledger ν) (n : ν) : Ledger ν where
  held := Function.update l.held n (l.held n + 1)
  log := .bind n :: l.log

@[simp] theorem hold_log (l : Ledger ν) (n : ν) : (l.hold n).log = .bind n :: l.log := rfl

@[simp] theorem hold_held (l : Ledger ν) (n m : ν) :
    (l.hold n).held m = if m = n then l.held n + 1 else l.held m := Function.update_apply ..

/-- A holder of `n` leaves. -/
def drop (l : Ledger ν) (n : ν) : Ledger ν := { l with held := Function.update l.held n (l.held n - 1) }

@[simp] theorem drop_log (l : Ledger ν) (n : ν) : (l.drop n).log = l.log := rfl

@[simp] theorem drop_held (l : Ledger ν) (n m : ν) :
    (l.drop n).held m = if m = n then l.held n - 1 else l.held m := Function.update_apply ..

/-- A holder of `n` leaves and closes it if nobody else holds it. -/
def release (l : Ledger ν) (n : ν) : Ledger ν := (l.drop n).closeUnheld n

/-- The holders of `ns` leave one after another. -/
def releaseAll (l : Ledger ν) (ns : List ν) : Ledger ν := ns.foldl release l

/-- A walk from `start` receives `child` and lets go of `cur`. -/
def stepPast (l : Ledger ν) (start cur child : ν) : Ledger ν :=
  if cur ≠ start ∧ cur ≠ child then (l.record (.given child)).closeUnheld cur else l.record (.given child)

end Ledger

/-! ## Requests -/

section Requests

variable [DecidableEq ν]

/-- A walk from `start` that has come to a resource: it is responsible for that one only. -/
inductive Visit (start : ν) (l : Ledger ν) : Ledger ν → ν → Prop
  | here : Visit start l l start
  | next {l₁ : Ledger ν} {cur : ν} (child : ν) :
      Visit start l l₁ cur → Visit start l (l₁.stepPast start cur child) child

/-- A resource that a request may leave without a holder and unclosed. -/
inductive Loss (ν : Type)
  | dropped (n : ν)  -- its holder left without closing it
  | orphaned (n : ν)  -- it was given away and nobody took it
  deriving DecidableEq

inductive Txn : Ledger ν → Option (Loss ν) → Ledger ν → Prop
  | skip {l} : Txn l none l
  | refuse {l} (n : ν) : Txn l none (l.record (.lent n))
  | attach {l} (n : ν) : Txn l none ((l.record (.lent n)).hold n)
  | share {l} {n : ν} (h : 0 < l.held n) : Txn l none (l.hold n)
  | visit {l l₁ start cur} (h : 0 < l.held start) (hv : Visit start l l₁ cur) :
      Txn l none (if cur ≠ start then l₁.closeUnheld cur else l₁)
  | walk {l l₁ start cur} (h : 0 < l.held start) (hv : Visit start l l₁ cur) : Txn l none (l₁.hold cur)
  | move {l l₁ start cur} (h : 0 < l.held start) (hv : Visit start l l₁ cur) :
      Txn l (some (.dropped start)) ((l₁.hold cur).drop start)
  | create {l prev} (child : ν) (h : 0 < l.held prev) :
      Txn l (some (.dropped prev)) (((l.record (.given child)).hold child).drop prev)
  | make {l} (child : ν) : Txn l (some (.orphaned child)) (l.record (.given child))
  | forget {l n} (h : 0 < l.held n) : Txn l (some (.dropped n)) (l.drop n)
  | release {l n} (h : 0 < l.held n) : Txn l none (l.release n)

section Logs

variable {l l₁ : Ledger ν}

omit [DecidableEq ν] in
theorem Ledger.closeUnheld_log_suffix (l : Ledger ν) (n : ν) : l.log <:+ (l.closeUnheld n).log := by
  unfold Ledger.closeUnheld
  split
  · exact suffix_cons _ _
  · exact suffix_refl _

theorem Ledger.releaseAll_log_suffix (l : Ledger ν) (ns : List ν) : l.log <:+ (l.releaseAll ns).log := by
  induction ns generalizing l with
  | nil => exact suffix_refl _
  | cons n ns ih => exact ((l.drop n).closeUnheld_log_suffix n).trans (ih _)

theorem Visit.log_suffix (hv : Visit start l l₁ cur) : l.log <:+ l₁.log := by
  induction hv with
  | here => exact suffix_refl _
  | @next l₁ cur child _ ih =>
    have hgiven : l.log <:+ (l₁.record (.given child)).log := ih.trans (suffix_cons _ _)
    unfold Ledger.stepPast
    split
    · exact hgiven.trans (Ledger.closeUnheld_log_suffix _ _)
    · exact hgiven

theorem Txn.log_suffix {loss : Option (Loss ν)} (t : Txn l loss l') : l.log <:+ l'.log := by
  cases t with
  | skip | forget h => exact suffix_refl _
  | refuse n | share h | make child => exact suffix_cons _ _
  | attach n | create child h => exact (suffix_cons _ _).trans (suffix_cons _ _)
  | visit h hv =>
    split
    · exact hv.log_suffix.trans (Ledger.closeUnheld_log_suffix _ _)
    · exact hv.log_suffix
  | walk h hv | move h hv => exact hv.log_suffix.trans (suffix_cons _ _)
  | @release n h => exact (l.drop n).closeUnheld_log_suffix n

end Logs

end Requests

/-! ## Nothing closed is bound -/

def NeverAfterClose (e : ν → Event ν) (log : List (Event ν)) : Prop :=
  ∀ post n pre, log = post ++ e n :: pre → .close n ∉ pre

variable {e : ν → Event ν} {x : Event ν} {log log' : List (Event ν)} {n : ν}

theorem neverAfterClose_cons :
    NeverAfterClose e (x :: log) ↔ (∀ n, x = e n → .close n ∉ log) ∧ NeverAfterClose e log := by
  constructor
  · intro h
    exact ⟨fun n hx => h [] n log (by rw [hx]; rfl), fun post n pre hlog => h (x :: post) n pre (by rw [hlog]; rfl)⟩
  · rintro ⟨hx, hlog⟩ post n pre heq
    cases post with
    | nil =>
      obtain ⟨rfl, rfl⟩ := List.cons.inj heq
      exact hx n rfl
    | cons y post => exact hlog post n pre (List.cons.inj heq).2

theorem neverAfterClose_nil : NeverAfterClose e [] := fun post _ _ h => by
  cases post <;> cases h

/-- Everything handed out was open. -/
structure OffersOpen (log : List (Event ν)) : Prop where
  lent : NeverAfterClose .lent log
  given : NeverAfterClose .given log

theorem NeverAfterClose.of_suffix (h : log <:+ log') (hlog : NeverAfterClose e log') : NeverAfterClose e log := by
  intro post n pre heq
  obtain ⟨front, rfl⟩ := h
  exact hlog (front ++ post) n pre (by rw [heq, append_assoc])

theorem OffersOpen.of_suffix (h : log <:+ log') (ho : OffersOpen log') : OffersOpen log :=
  ⟨ho.lent.of_suffix h, ho.given.of_suffix h⟩

theorem OffersOpen.tail (h : OffersOpen (x :: log)) : OffersOpen log :=
  h.of_suffix (suffix_cons _ _)

theorem OffersOpen.open_lent (h : OffersOpen (.lent n :: log)) : .close n ∉ log :=
  (neverAfterClose_cons.1 h.lent).1 n rfl

theorem OffersOpen.open_given (h : OffersOpen (.given n :: log)) : .close n ∉ log :=
  (neverAfterClose_cons.1 h.given).1 n rfl

theorem close_notMem_closeUnheld {l : Ledger ν} (hmn : m ≠ n) (hm : .close m ∉ l.log) :
    .close m ∉ (l.closeUnheld n).log := by
  by_cases hn : l.held n = 0
  · rw [Ledger.closeUnheld, if_pos hn]
    simpa [hmn] using hm
  · rwa [Ledger.closeUnheld, if_neg hn]

/-- Nothing closed was bound, and nothing closed is held. -/
structure Safe (l : Ledger ν) : Prop where
  binds : NeverAfterClose .bind l.log
  unheld : ∀ n, .close n ∈ l.log → l.held n = 0

section Safe

variable {l l₁ : Ledger ν}

theorem Safe.empty : Safe (Ledger.empty : Ledger ν) := ⟨neverAfterClose_nil, fun _ _ => rfl⟩

theorem Safe.open_of_held (hs : Safe l) (h : 0 < l.held n) : .close n ∉ l.log := by
  intro hc
  have := hs.unheld n hc
  omega

theorem Safe.lent (hs : Safe l) (n : ν) : Safe (l.record (.lent n)) :=
  ⟨neverAfterClose_cons.2 ⟨by simp, hs.binds⟩, fun m hm => hs.unheld m (by simpa using hm)⟩

theorem Safe.given (hs : Safe l) (n : ν) : Safe (l.record (.given n)) :=
  ⟨neverAfterClose_cons.2 ⟨by simp, hs.binds⟩, fun m hm => hs.unheld m (by simpa using hm)⟩

theorem Safe.abandon (hs : Safe l) : Safe l.abandon := ⟨hs.binds, fun _ _ => rfl⟩

theorem Safe.closeUnheld (hs : Safe l) (n : ν) : Safe (l.closeUnheld n) := by
  by_cases hn : l.held n = 0
  · rw [Ledger.closeUnheld, if_pos hn]
    refine ⟨neverAfterClose_cons.2 ⟨by simp, hs.binds⟩, fun m hm => ?_⟩
    rcases mem_cons.1 hm with hm | hm
    · obtain rfl := Event.close.inj hm
      exact hn
    · exact hs.unheld m hm
  · rwa [Ledger.closeUnheld, if_neg hn]

variable [DecidableEq ν]

theorem Safe.hold (hs : Safe l) (hn : .close n ∉ l.log) : Safe (l.hold n) := by
  refine ⟨neverAfterClose_cons.2 ⟨?_, hs.binds⟩, fun m hm => ?_⟩
  · rintro m ⟨⟩
    exact hn
  · have hm : .close m ∈ l.log := by simpa using hm
    have hne : m ≠ n := fun h => hn (h ▸ hm)
    simpa [hne] using hs.unheld m hm

theorem Safe.drop (hs : Safe l) (n : ν) : Safe (l.drop n) := by
  refine ⟨hs.binds, fun m hm => ?_⟩
  have hzero := hs.unheld m hm
  by_cases hmn : m = n
  · subst hmn
    simp [hzero]
  · simpa [hmn] using hzero

theorem Visit.safe (hv : Visit start l l₁ cur) (hs : Safe l) (hstart : .close start ∉ l.log)
    (ho : OffersOpen l₁.log) : Safe l₁ ∧ .close cur ∉ l₁.log := by
  induction hv with
  | here => exact ⟨hs, hstart⟩
  | @next l₁ cur child _ ih =>
    have hgiven : ∀ {l₂ : Ledger ν}, OffersOpen (l₂.record (.given child)).log →
        .close child ∉ (l₂.record (.given child)).log := by
      intro l₂ h
      simpa using h.open_given
    by_cases hc : cur ≠ start ∧ cur ≠ child
    · rw [Ledger.stepPast, if_pos hc] at ho ⊢
      have ho' := ho.of_suffix (Ledger.closeUnheld_log_suffix _ _)
      exact ⟨((ih ho'.tail).1.given child).closeUnheld cur, close_notMem_closeUnheld (Ne.symm hc.2) (hgiven ho')⟩
    · rw [Ledger.stepPast, if_neg hc] at ho ⊢
      exact ⟨(ih ho.tail).1.given child, hgiven ho⟩

/-- **Requests keep a ledger safe** as long as nothing closed is handed out. -/
theorem Txn.safe {loss : Option (Loss ν)} (t : Txn l loss l') (hs : Safe l) (ho : OffersOpen l'.log) : Safe l' := by
  cases t with
  | skip => exact hs
  | refuse n => exact hs.lent n
  | attach n => exact (hs.lent n).hold (by simpa using ho.tail.open_lent)
  | share h => exact hs.hold (hs.open_of_held h)
  | @visit l₁ start cur h hv =>
    by_cases hc : cur ≠ start
    · rw [if_pos hc] at ho ⊢
      exact (hv.safe hs (hs.open_of_held h) (ho.of_suffix (Ledger.closeUnheld_log_suffix _ _))).1.closeUnheld cur
    · rw [if_neg hc] at ho ⊢
      exact (hv.safe hs (hs.open_of_held h) ho).1
  | walk h hv =>
    obtain ⟨hs', hcur⟩ := hv.safe hs (hs.open_of_held h) ho.tail
    exact hs'.hold hcur
  | move h hv =>
    obtain ⟨hs', hcur⟩ := hv.safe hs (hs.open_of_held h) ho.tail
    exact (hs'.hold hcur).drop _
  | create child h => exact ((hs.given child).hold (by simpa using ho.tail.open_given)).drop _
  | make child => exact hs.given child
  | forget h => exact hs.drop _
  | release h => exact (hs.drop _).closeUnheld _

theorem Safe.releaseAll (hs : Safe l) (ns : List ν) : Safe (l.releaseAll ns) := by
  induction ns generalizing l with
  | nil => exact hs
  | cons n ns ih => exact ih ((hs.drop n).closeUnheld n)

end Safe

/-! ## Everything given away is closed once -/

/-- Every resource that is given away is given once, and never lent. -/
def Fresh [DecidableEq ν] (log : List (Event ν)) : Prop :=
  ∀ n, .given n ∈ log → log.count (.given n) = 1 ∧ .lent n ∉ log

/-- What was given away is held or closed once, apart from `loose`, which is neither. -/
structure Settled [DecidableEq ν] (loose : List ν) (l : Ledger ν) : Prop where
  known : ∀ n, 0 < l.held n ∨ .close n ∈ l.log → .given n ∈ l.log ∨ .lent n ∈ l.log
  closed : ∀ n, .given n ∈ l.log → l.held n = 0 → n ∉ loose → l.log.count (.close n) = 1
  unclosed : ∀ n, .given n ∈ l.log → 0 < l.held n ∨ n ∈ loose → .close n ∉ l.log
  loose : ∀ n ∈ loose, .given n ∈ l.log ∧ l.held n = 0

section Settled

variable [DecidableEq ν] {l l₁ : Ledger ν} {n : ν} {loose loose' : List ν} {log : List (Event ν)}

theorem Fresh.of_suffix {log' : List (Event ν)} (h : log <:+ log') (hf : Fresh log') : Fresh log := by
  intro n hn
  obtain ⟨hcount, hlent⟩ := hf n (h.subset hn)
  have hpos := count_pos_iff.2 hn
  have hle := h.sublist.count_le (.given n)
  exact ⟨by omega, fun hl => hlent (h.subset hl)⟩

theorem Fresh.tail {x : Event ν} (h : Fresh (x :: log)) : Fresh log :=
  h.of_suffix (suffix_cons _ _)

theorem Fresh.new (h : Fresh (.given n :: log)) : .given n ∉ log ∧ .lent n ∉ log := by
  obtain ⟨hcount, hlent⟩ := h n mem_cons_self
  rw [count_cons_self] at hcount
  exact ⟨count_eq_zero.1 (by omega), fun hl => hlent (mem_cons_of_mem _ hl)⟩

theorem Fresh.not_given (h : Fresh (.lent n :: log)) : .given n ∉ log := fun hg =>
  (h n (mem_cons_of_mem _ hg)).2 mem_cons_self

theorem Settled.empty : Settled [] (Ledger.empty : Ledger ν) := by
  refine ⟨fun n h => ?_, fun _ h => ?_, fun _ h => ?_, fun _ h => ?_⟩
  · simp [Ledger.empty] at h
  · cases h
  · cases h
  · cases h

section

variable (hs : Settled loose l)
include hs

theorem Settled.lent (n : ν) : Settled loose (l.record (.lent n)) where
  known m hm := by
    have := hs.known m (by simpa using hm)
    simp only [Ledger.record_log, mem_cons]
    tauto
  closed m hm hz hl := by
    have := hs.closed m (by simpa using hm) hz hl
    simpa using this
  unclosed m hm hh := by
    have := hs.unclosed m (by simpa using hm) hh
    simpa using this
  loose m hm := by simpa using hs.loose m hm

theorem Settled.given (hf : Fresh (.given n :: l.log)) : Settled (n :: loose) (l.record (.given n)) := by
  obtain ⟨hgiven, hlent⟩ := hf.new
  have hnew : ¬(0 < l.held n ∨ .close n ∈ l.log) := fun h => (hs.known n h).elim hgiven hlent
  have hold : ∀ {m}, .given m ∈ (l.record (.given n)).log → m ≠ n → .given m ∈ l.log := by
    intro m hm hmn
    simpa [hmn] using hm
  refine ⟨fun m hm => ?_, fun m hm hz hl => ?_, fun m hm hh => ?_, fun m hm => ?_⟩
  · have := hs.known m (by simpa using hm)
    simp only [Ledger.record_log, mem_cons]
    tauto
  · have hmn : m ≠ n := fun h => hl (h ▸ mem_cons_self)
    have := hs.closed m (hold hm hmn) hz (fun h => hl (mem_cons_of_mem _ h))
    simpa using this
  · by_cases hmn : m = n
    · subst hmn
      simpa using fun h => hnew (.inr h)
    · have := hs.unclosed m (hold hm hmn) (by simpa [hmn] using hh)
      simpa using this
  · rcases mem_cons.1 hm with rfl | hm
    · exact ⟨mem_cons_self, Nat.eq_zero_of_not_pos fun h => hnew (.inl h)⟩
    · exact ⟨mem_cons_of_mem _ (hs.loose m hm).1, (hs.loose m hm).2⟩

/-- Closing a resource that nobody holds any more. -/
theorem Settled.close (hlog : l₁.log = l.log) (hzero : l₁.held n = 0) (hother : ∀ m, m ≠ n → l₁.held m = l.held m)
    (hn : 0 < l.held n ∨ n ∈ loose) (hl : ∀ m, m ∈ loose' ↔ m ∈ loose ∧ m ≠ n) :
    Settled loose' (l₁.record (.close n)) := by
  refine ⟨fun m hm => ?_, fun m hm hz hm' => ?_, fun m hm hh => ?_, fun m hm => ?_⟩
  · simp only [Ledger.record_log, hlog, mem_cons, reduceCtorEq, false_or]
    by_cases hmn : m = n
    · subst hmn
      exact hn.elim (fun hn => hs.known m (.inl hn)) fun hn => .inl (hs.loose m hn).1
    · exact hs.known m (by simpa [hlog, hmn, hother m hmn] using hm)
  · have hg : .given m ∈ l.log := by simpa [hlog] using hm
    by_cases hmn : m = n
    · subst hmn
      have hcount := count_eq_zero.2 (hs.unclosed m hg hn)
      simp [hlog, hcount]
    · have := hs.closed m hg ((hother m hmn).symm.trans hz) fun h => hm' ((hl m).2 ⟨h, hmn⟩)
      simpa [hlog, count_cons, Ne.symm hmn] using this
  · have hg : .given m ∈ l.log := by simpa [hlog] using hm
    have hmn : m ≠ n := by
      rintro rfl
      exact hh.elim (fun hh => absurd hzero (Nat.ne_of_gt hh)) fun hh => ((hl m).1 hh).2 rfl
    have := hs.unclosed m hg (hother m hmn ▸ hh.imp id fun h => ((hl m).1 h).1)
    simpa [hlog, hmn] using this
  · obtain ⟨hm, hmn⟩ := (hl m).1 hm
    obtain ⟨h1, h2⟩ := hs.loose m hm
    exact ⟨by simpa [hlog] using h1, (hother m hmn).trans h2⟩

theorem Settled.closeUnheld (hn : n ∈ loose) (hl : ∀ m, m ∈ loose' ↔ m ∈ loose ∧ m ≠ n) :
    Settled loose' (l.closeUnheld n) := by
  have hzero := (hs.loose n hn).2
  rw [Ledger.closeUnheld, if_pos hzero]
  exact hs.close rfl hzero (fun _ _ => rfl) (.inr hn) hl

theorem Settled.hold (hk : .given n ∈ l.log ∨ .lent n ∈ l.log) (ho : .given n ∈ l.log → 0 < l.held n ∨ n ∈ loose)
    (hl : ∀ m, m ∈ loose' ↔ m ∈ loose ∧ m ≠ n) :
    Settled loose' (l.hold n) := by
  refine ⟨fun m hm => ?_, fun m hm hz hm' => ?_, fun m hm hh => ?_, fun m hm => ?_⟩
  · simp only [Ledger.hold_log, mem_cons, reduceCtorEq, false_or]
    by_cases hmn : m = n
    · exact hmn ▸ hk
    · exact hs.known m (by simpa [hmn] using hm)
  · have hmn : m ≠ n := by
      rintro rfl
      simp at hz
    have hnot : m ∉ loose := fun h => hm' ((hl m).2 ⟨h, hmn⟩)
    have := hs.closed m (by simpa using hm) (by simpa [hmn] using hz) hnot
    simpa using this
  · have hm : .given m ∈ l.log := by simpa using hm
    by_cases hmn : m = n
    · have := hs.unclosed m hm (by rw [hmn] at hm ⊢; exact ho hm)
      simpa using this
    · have := hs.unclosed m hm (by
        rcases hh with hh | hh
        · exact .inl (by simpa [hmn] using hh)
        · exact .inr ((hl m).1 hh).1)
      simpa using this
  · obtain ⟨hm, hmn⟩ := (hl m).1 hm
    obtain ⟨h1, h2⟩ := hs.loose m hm
    exact ⟨by simpa using h1, by simpa [hmn] using h2⟩

theorem Settled.drop (hn : .given n ∈ l.log → 1 < l.held n) : Settled loose (l.drop n) := by
  have hpos : ∀ {m}, 0 < (l.drop n).held m → 0 < l.held m := by
    intro m hm
    by_cases hmn : m = n
    · subst hmn
      simp only [Ledger.drop_held, if_true] at hm
      omega
    · simpa [hmn] using hm
  refine ⟨fun m hm => hs.known m (hm.imp hpos id), fun m hm hz hm' => ?_,
    fun m hm hh => hs.unclosed m hm (hh.imp hpos id), fun m hm => ⟨(hs.loose m hm).1, ?_⟩⟩
  · by_cases hmn : m = n
    · subst hmn
      have := hn hm
      simp only [Ledger.drop_held, if_true] at hz
      omega
    · exact hs.closed m hm (by simpa [hmn] using hz) hm'
  · have hz := (hs.loose m hm).2
    by_cases hmn : m = n
    · subst hmn
      simp [hz]
    · simpa [hmn] using hz

theorem Settled.release (hn : 0 < l.held n) : Settled loose (l.release n) := by
  by_cases hone : l.held n = 1
  · have hclose : l.release n = (l.drop n).record (.close n) := if_pos (by simp [hone])
    rw [hclose]
    refine hs.close rfl (by simp [hone]) (fun m hmn => by simp [hmn]) (.inl hn) fun m => ⟨fun hm => ⟨hm, ?_⟩, And.left⟩
    rintro rfl
    have := (hs.loose m hm).2
    omega
  · have hkeep : l.release n = l.drop n := if_neg (by simp; omega)
    rw [hkeep]
    exact hs.drop fun _ => by omega

theorem Settled.releaseAll {ns : List ν} (hns : ∀ n, ns.count n ≤ l.held n) : Settled loose (l.releaseAll ns) := by
  induction ns generalizing l with
  | nil => exact hs
  | cons n ns ih =>
    have hn := hns n
    rw [count_cons_self] at hn
    refine ih (hs.release (by omega)) fun m => ?_
    have hm := hns m
    by_cases hmn : m = n
    · subst hmn
      simp only [Ledger.release, Ledger.closeUnheld_held, Ledger.drop_held, if_true]
      omega
    · rw [count_cons_of_ne (Ne.symm hmn)] at hm
      simpa [Ledger.release, hmn] using hm

end

theorem Visit.held (hv : Visit start l l₁ cur) : l₁.held = l.held := by
  induction hv with
  | here => rfl
  | @next l₁ cur child _ ih =>
    by_cases hc : cur ≠ start ∧ cur ≠ child
    · simpa [Ledger.stepPast, hc] using ih
    · rw [Ledger.stepPast, if_neg hc]
      exact ih

theorem Visit.settled (hv : Visit start l l₁ cur) (hs : Settled [] l) (hstart : 0 < l.held start)
    (hf : Fresh l₁.log) : (cur = start ∧ l₁ = l) ∨ (cur ≠ start ∧ Settled [cur] l₁) := by
  induction hv with
  | here => exact .inl ⟨rfl, rfl⟩
  | @next l₁ cur child hv ih =>
    right
    have hheld := hv.held
    by_cases hc : cur ≠ start ∧ cur ≠ child
    · rw [Ledger.stepPast, if_pos hc] at hf ⊢
      have hf' := hf.of_suffix (Ledger.closeUnheld_log_suffix _ _)
      obtain ⟨heq, -⟩ | ⟨-, hs₁⟩ := ih hf'.tail
      · exact absurd heq hc.1
      · have hne : child ≠ start := by
          rintro rfl
          have := hs₁.known child (.inl (by rw [hheld]; exact hstart))
          exact this.elim hf'.new.1 hf'.new.2
        refine ⟨hne, (hs₁.given hf').closeUnheld (by simp) fun m => ?_⟩
        constructor
        · intro hm
          obtain rfl := mem_singleton.1 hm
          exact ⟨by simp, Ne.symm hc.2⟩
        · rintro ⟨hm, hmc⟩
          simpa [hmc] using hm
    · rw [Ledger.stepPast, if_neg hc] at hf ⊢
      obtain ⟨rfl, rfl⟩ | ⟨hcur, hs₁⟩ := ih hf.tail
      · have hne : child ≠ cur := by
          rintro rfl
          exact (hs.known child (.inl hstart)).elim hf.new.1 hf.new.2
        exact ⟨hne, hs.given hf⟩
      · obtain rfl : cur = child := by
          by_contra h
          exact hc ⟨hcur, h⟩
        exact absurd (hs₁.loose cur (by simp)).1 hf.new.1

/-- What a request loses is still held by somebody else, or need not be closed. -/
def Harmless (l : Ledger ν) : Option (Loss ν) → Prop
  | none => True
  | some (.dropped n) => .given n ∈ l.log → 1 < l.held n
  | some (.orphaned _) => False

instance (l : Ledger ν) : DecidablePred (Harmless l)
  | none => .isTrue trivial
  | some (.dropped n) => inferInstanceAs (Decidable (.given n ∈ l.log → 1 < l.held n))
  | some (.orphaned _) => .isFalse id

/-- **Requests keep a ledger settled** as long as what they lose is harmless and makers give away new resources. -/
theorem Txn.settled {loss : Option (Loss ν)} (t : Txn l loss l') (hs : Settled [] l) (hl : Harmless l loss)
    (hf : Fresh l'.log) : Settled [] l' := by
  cases t with
  | skip => exact hs
  | refuse n => exact hs.lent n
  | attach n =>
    refine (hs.lent n).hold (.inr mem_cons_self) (fun hg => ?_) (by simp)
    exact absurd (by simpa using hg) hf.tail.not_given
  | share h => exact hs.hold (hs.known _ (.inl h)) (fun _ => .inl h) (by simp)
  | @visit l₁ start cur h hv =>
    by_cases hc : cur ≠ start
    · rw [if_pos hc] at hf ⊢
      obtain ⟨heq, -⟩ | ⟨-, hs₁⟩ := hv.settled hs h (hf.of_suffix (Ledger.closeUnheld_log_suffix _ _))
      · exact absurd heq hc
      · exact hs₁.closeUnheld (by simp) (by simp)
    · rw [if_neg hc] at hf ⊢
      obtain ⟨-, rfl⟩ | ⟨hne, -⟩ := hv.settled hs h hf
      · exact hs
      · exact absurd hne hc
  | walk h hv =>
    obtain ⟨rfl, rfl⟩ | ⟨-, hs₁⟩ := hv.settled hs h hf.tail
    · exact hs.hold (hs.known _ (.inl h)) (fun _ => .inl h) (by simp)
    · exact hs₁.hold (.inl (hs₁.loose _ (by simp)).1) (fun _ => .inr (by simp)) (by simp)
  | @move l₁ start cur h hv =>
    obtain ⟨rfl, rfl⟩ | ⟨hne, hs₁⟩ := hv.settled hs h hf.tail
    · refine (hs.hold (hs.known _ (.inl h)) (fun _ => .inl h) (by simp)).drop fun _ => ?_
      simp only [Ledger.hold_held, if_true]
      omega
    · have hs₂ : Settled [] (l₁.hold cur) :=
        hs₁.hold (.inl (hs₁.loose _ (by simp)).1) (fun _ => .inr (by simp)) (by simp)
      refine hs₂.drop fun hg => ?_
      have hg : .given start ∈ l₁.log := by simpa using hg
      rw [Ledger.hold_held, if_neg (Ne.symm hne), hv.held]
      rcases hs.known start (.inl h) with hold | hlent
      · exact hl hold
      · exact absurd (hv.log_suffix.subset hlent) (hf.tail start hg).2
  | @create prev child h =>
    have hfresh := hf.tail.new
    have hne : prev ≠ child := by
      rintro rfl
      exact (hs.known prev (.inl h)).elim hfresh.1 hfresh.2
    refine ((hs.given hf.tail).hold (.inl mem_cons_self) (fun _ => .inr (by simp)) (by simp)).drop fun hg => ?_
    rw [Ledger.hold_held, if_neg hne]
    exact hl (by simpa [hne] using hg)
  | make child => exact hl.elim
  | forget h => exact hs.drop hl
  | release h => exact hs.release h

end Settled

end RefCount
