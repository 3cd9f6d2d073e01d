import Mathlib.Algebra.Ring.Int.Defs
import Mathlib.Data.List.Basic
import Mathlib.Tactic.Common

/-!
# Labelled transition systems given by a partial step function

With lists of threads: moving one of them changes a count or a sum by what it contributes, and leaves the others where
they were.
-/

namespace Transition

open List

variable {σ α : Type}

/-- Take the steps `as` from `s`; `none` when one of them is not enabled. -/
def run (step : σ → α → Option σ) : σ → List α → Option σ
  | s, [] => some s
  | s, a :: as => (step s a).bind fun s' => run step s' as

variable {step : σ → α → Option σ} {P : σ → Prop} {C D : σ → α → Prop} {β τ : Type}
  {ts : List τ} {i j : Nat} {x y : τ}

theorem run_cons : run step s (a :: as) = some s'' ↔ ∃ s', step s a = some s' ∧ run step s' as = some s'' := by
  simp [run, Option.bind_eq_some_iff]

theorem run_append :
    run step s (as ++ bs) = some s'' ↔ ∃ s', run step s as = some s' ∧ run step s' bs = some s'' := by
  induction as generalizing s with
  | nil => simp [run]
  | cons a as ih =>
    simp only [cons_append, run_cons, ih]
    constructor
    · rintro ⟨s₁, h1, s₂, h2, h3⟩
      exact ⟨s₂, ⟨s₁, h1, h2⟩, h3⟩
    · rintro ⟨s₂, ⟨s₁, h1, h2⟩, h3⟩
      exact ⟨s₁, h1, s₂, h2, h3⟩

theorem some_pair {γ : Type} {b b' : β} {c c' : γ} (h : some (b, c) = some (b', c')) : b = b' ∧ c = c' :=
  Prod.mk.inj (Option.some.inj h)

theorem getElem?_lt {l : List τ} (h : l[i]? = some a) : i < l.length :=
  (List.getElem?_eq_some_iff.1 h).1

theorem set_same {l : List τ} (h : l[i]? = some a) (b : τ) : (l.set i b)[i]? = some b :=
  List.getElem?_set_self (getElem?_lt h)

/-- **Invariance.**  A property every step preserves holds after every run. -/
theorem run_inv (hstep : ∀ {s a s'}, P s → step s a = some s' → P s') (h0 : P s)
    (h : run step s as = some s') : P s' := by
  induction as generalizing s with
  | nil =>
    obtain rfl : s = s' := by simpa [run] using h
    exact h0
  | cons a as ih =>
    obtain ⟨s₁, h1, h2⟩ := run_cons.1 h
    exact ih (hstep h0 h1) h2

/-- Every step of the run is taken in a state and with a label that meet `C`. -/
def Meets (step : σ → α → Option σ) (C : σ → α → Prop) : σ → List α → Prop
  | _, [] => True
  | s, a :: as => C s a ∧ ∀ s', step s a = some s' → Meets step C s' as

theorem meets_of_forall {C : α → Prop} (h : ∀ a ∈ as, C a) : Meets step (fun _ => C) s as := by
  induction as generalizing s with
  | nil => trivial
  | cons a as ih => exact ⟨h a mem_cons_self, fun _ _ => ih fun b hb => h b (mem_cons_of_mem a hb)⟩

theorem Meets.mono (h : Meets step C s as) (himp : ∀ s a, C s a → D s a) : Meets step D s as := by
  induction as generalizing s with
  | nil => trivial
  | cons a as ih => exact ⟨himp s a h.1, fun s' hs' => ih (h.2 s' hs')⟩

theorem Meets.and (h : Meets step C s as) (h' : Meets step D s as) : Meets step (fun s a => C s a ∧ D s a) s as := by
  induction as generalizing s with
  | nil => trivial
  | cons a as ih => exact ⟨⟨h.1, h'.1⟩, fun s' hs' => ih (h.2 s' hs') (h'.2 s' hs')⟩

instance Meets.decidable (C : σ → α → Prop) [∀ s a, Decidable (C s a)] :
    ∀ (as : List α) (s : σ), Decidable (Meets step C s as)
  | [], _ => .isTrue trivial
  | a :: as, s =>
    match h : step s a with
    | none => decidable_of_iff (C s a) (by simp [Meets, h])
    | some s' =>
      have := Meets.decidable C as s'
      decidable_of_iff (C s a ∧ Meets step C s' as) (by simp [Meets, h])

/-- **Invariance under a condition.**  What every step that meets `C` preserves holds after every run whose steps
all meet `C`. -/
theorem run_inv_of_meets (hstep : ∀ {s a s'}, P s → C s a → step s a = some s' → P s')
    (h0 : P s) (hC : Meets step C s as) (h : run step s as = some s') : P s' := by
  induction as generalizing s with
  | nil =>
    obtain rfl : s = s' := by simpa [run] using h
    exact h0
  | cons a as ih =>
    obtain ⟨s₁, h1, h2⟩ := run_cons.1 h
    exact ih (hstep h0 hC.1 h1) (hC.2 s₁ h1) h2

/-! ## Threads in a list -/

/-- Moving thread `i` from `x` to `y`: the count of the others does not change. -/
theorem countP_set_add (p : τ → Bool) (y : τ) (h : ts[i]? = some x) :
    (ts.set i y).countP p + (if p x then 1 else 0) = ts.countP p + (if p y then 1 else 0) := by
  induction ts generalizing i with
  | nil => simp at h
  | cons t ts ih =>
    cases i with
    | zero =>
      obtain rfl : t = x := by simpa using h
      simp only [set_cons_zero, countP_cons]
      omega
    | succ i =>
      have := ih (i := i) (by simpa using h)
      simp only [set_cons_succ, countP_cons]
      omega

/-- Moving thread `i` from `x` to `y`: the sum over the others does not change. -/
theorem sum_map_set (f : τ → Int) (y : τ) (h : ts[i]? = some x) :
    ((ts.set i y).map f).sum + f x = (ts.map f).sum + f y := by
  induction ts generalizing i with
  | nil => simp at h
  | cons t ts ih =>
    cases i with
    | zero =>
      obtain rfl : t = x := by simpa using h
      simp only [set_cons_zero, map_cons, sum_cons]
      omega
    | succ i =>
      have := ih (i := i) (by simpa using h)
      simp only [set_cons_succ, map_cons, sum_cons]
      omega

theorem countP_range (p : τ → Bool) (ts : List τ) :
    (List.range ts.length).countP (fun i => (ts[i]?).any p) = ts.countP p := by
  induction ts with
  | nil => rfl
  | cons x ts ih =>
    rw [length_cons, range_succ_eq_map, countP_cons, countP_cons, countP_map, ← ih]
    simp [Function.comp_def]

theorem forall_mem_set {P : τ → Prop} (h : ∀ y ∈ ts, P y) (hx : P x) : ∀ y ∈ ts.set i x, P y :=
  fun y hy => (mem_or_eq_of_mem_set hy).elim (h y) fun heq => heq ▸ hx

theorem getElem?_set_cases (h : (ts.set i y)[j]? = some x) : j = i ∧ x = y ∨ j ≠ i ∧ ts[j]? = some x := by
  by_cases hij : i = j
  · subst hij
    rw [getElem?_set_self'] at h
    obtain ⟨-, -, rfl⟩ := Option.map_eq_some_iff.1 h
    exact .inl ⟨rfl, rfl⟩
  · rw [getElem?_set_ne hij] at h
    exact .inr ⟨Ne.symm hij, h⟩

theorem getElem?_concat_left (h : ts[i]? = some x) (y : τ) : (ts ++ [y])[i]? = some x := by
  rw [getElem?_append_left (getElem?_lt h), h]

theorem getElem?_concat_cases (h : (ts ++ [y])[i]? = some x) : ts[i]? = some x ∨ i = ts.length ∧ x = y := by
  rw [getElem?_append] at h
  split at h
  · exact .inl h
  · rw [getElem?_singleton] at h
    split at h
    · exact .inr ⟨by omega, (Option.some.inj h).symm⟩
    · cases h

theorem flatMap_set_perm (f : τ → List β) (h : ts[i]? = some x) :
    ∃ rest, (ts.flatMap f).Perm (f x ++ rest) ∧ ∀ y, ((ts.set i y).flatMap f).Perm (f y ++ rest) := by
  induction ts generalizing i with
  | nil => simp at h
  | cons t ts ih =>
    cases i with
    | zero =>
      obtain rfl : t = x := by simpa using h
      exact ⟨ts.flatMap f, by simp, fun y => by simp⟩
    | succ i =>
      obtain ⟨rest, h1, h2⟩ := ih (i := i) (by simpa using h)
      have swap {l : List β} {z : τ} (hl : l.Perm (f z ++ rest)) : (f t ++ l).Perm (f z ++ (f t ++ rest)) :=
        ((List.Perm.refl (f t)).append hl).trans (perm_append_comm_assoc _ _ _)
      exact ⟨f t ++ rest, swap h1, fun y => swap (h2 y)⟩

theorem eq_of_countP_le_one {p : τ → Bool} (h : ts.countP p ≤ 1) (hi : ts[i]? = some x) (hj : ts[j]? = some y)
    (hx : p x) (hy : p y) : i = j := by
  induction ts generalizing i j with
  | nil => simp at hi
  | cons t ts ih =>
    have hpos {k : Nat} {z : τ} (hk : ts[k]? = some z) (hz : p z) : 0 < ts.countP p :=
      countP_pos_iff.2 ⟨z, mem_of_getElem? hk, hz⟩
    rw [countP_cons] at h
    cases i with
    | zero =>
      obtain rfl : t = x := by simpa using hi
      cases j with
      | zero => rfl
      | succ j =>
        have := hpos (k := j) (by simpa using hj) hy
        simp only [hx, if_true] at h
        omega
    | succ i =>
      cases j with
      | zero =>
        obtain rfl : t = y := by simpa using hj
        have := hpos (k := i) (by simpa using hi) hx
        simp only [hy, if_true] at h
        omega
      | succ j => exact congrArg _ (ih (by omega) (by simpa using hi) (by simpa using hj))

end Transition
