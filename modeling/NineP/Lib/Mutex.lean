import NineP.Lib.Transition

/-!
# A mutex and the threads that use it

Threads in a list, a mutex that names its holder, and a resource that the mutex guards.
-/

namespace Mutex

open Transition List

variable {P : Type} {Holds : P → Prop} {free free' : Prop} {own own' : P → Prop} {ts : List P} {mu : Option Nat}
  {t : Nat} {pc : P}

/-- `mu` is held by the thread at a point in `Holds`; `free` and `own` say what is true of the resource. -/
structure Guards (Holds : P → Prop) (free : Prop) (own : P → Prop) (ts : List P) (mu : Option Nat) : Prop where
  holds : ∀ (t : Nat) (pc : P), ts[t]? = some pc → (Holds pc ↔ mu = some t)
  holder : ∀ t, mu = some t → t < ts.length
  free : mu = none → free
  own : ∀ (t : Nat) (pc : P), mu = some t → ts[t]? = some pc → own pc

theorem guards_nil (h : free) : Guards Holds free own [] none where
  holds := by simp
  holder := by simp
  free := fun _ => h
  own := by simp

theorem Guards.resource {R : Prop} (h : Guards Holds free own ts mu) (hfree : free → R) (hown : ∀ pc, own pc → R) :
    R := by
  cases hmu : mu with
  | none => exact hfree (h.free hmu)
  | some t =>
    obtain ⟨pc, hpc⟩ : ∃ pc, ts[t]? = some pc := ⟨_, getElem?_eq_getElem (h.holder t hmu)⟩
    exact hown pc (h.own t pc hmu hpc)

theorem Guards.mine (h : Guards Holds free own ts mu) (ht : ts[t]? = some pc) (hpc : Holds pc) : own pc :=
  h.own t pc ((h.holds t pc ht).1 hpc) ht

/-- A step of thread `t` from `pc` to `pc'`: without the mutex, with it, taking it, or giving it back. -/
inductive Use (Holds : P → Prop) (free free' : Prop) (own own' : P → Prop) (mu mu' : Option Nat) (t : Nat)
    (pc pc' : P) : Prop
  | other (hpc : ¬ Holds pc) (hpc' : ¬ Holds pc') (hmu : mu' = mu) (hfree : free → free')
      (hown : ∀ q, own q → own' q)
  | keep (hpc : Holds pc) (hpc' : Holds pc') (hmu : mu' = mu) (hout : own' pc')
  | take (hpc : ¬ Holds pc) (hpc' : Holds pc') (hnone : mu = none) (hmu : mu' = some t) (hout : own' pc')
  | drop (hpc : Holds pc) (hpc' : ¬ Holds pc') (hmu : mu' = none) (hfree : free')

/-- **A step of one thread.** -/
theorem Guards.set (h : Guards Holds free own ts mu) (ht : ts[t]? = some pc)
    (hu : Use Holds free free' own own' mu mu' t pc pc') : Guards Holds free' own' (ts.set t pc') mu' := by
  have hlen : t < ts.length := getElem?_lt ht
  have hold := h.holds t pc ht
  cases hu with
  | other hpc hpc' hmu hfree hown =>
    subst hmu
    refine ⟨fun u q hq => ?_, fun u hu => ?_, fun hnone => hfree (h.free hnone), fun u q hu hq => ?_⟩
    · rcases getElem?_set_cases hq with ⟨rfl, rfl⟩ | ⟨-, hq⟩
      · exact iff_of_false hpc' fun hmu => hpc (hold.2 hmu)
      · exact h.holds u q hq
    · exact (length_set ..).symm ▸ h.holder u hu
    · rcases getElem?_set_cases hq with ⟨rfl, -⟩ | ⟨-, hq⟩
      · exact absurd (hold.2 hu) hpc
      · exact hown q (h.own u q hu hq)
  | keep hpc hpc' hmu hout =>
    subst hmu
    have hmine := hold.1 hpc
    refine ⟨fun u q hq => ?_, fun u hu => ?_, fun hnone => ?_, fun u q hu hq => ?_⟩
    · rcases getElem?_set_cases hq with ⟨rfl, rfl⟩ | ⟨-, hq⟩
      · exact iff_of_true hpc' hmine
      · exact h.holds u q hq
    · exact (length_set ..).symm ▸ h.holder u hu
    · exact absurd (hmine.symm.trans hnone) (by simp)
    · rcases getElem?_set_cases hq with ⟨-, rfl⟩ | ⟨hne, -⟩
      · exact hout
      · exact absurd (Option.mem_unique hu hmine) hne
  | take hpc hpc' hnone hmu hout =>
    subst hnone hmu
    refine ⟨fun u q hq => ?_, fun u hu => ?_, fun hnone => ?_, fun u q hu hq => ?_⟩
    · rcases getElem?_set_cases hq with ⟨rfl, rfl⟩ | ⟨hne, hq⟩
      · exact iff_of_true hpc' rfl
      · rw [h.holds u q hq]
        exact iff_of_false (by simp) fun hu => hne (Option.some.inj hu).symm
    · rw [length_set]
      exact Option.some.inj hu ▸ hlen
    · exact absurd hnone (by simp)
    · rcases getElem?_set_cases hq with ⟨-, rfl⟩ | ⟨hne, -⟩
      · exact hout
      · exact absurd (Option.some.inj hu).symm hne
  | drop hpc hpc' hmu hfree =>
    subst hmu
    refine ⟨fun u q hq => ?_, fun u hu => absurd hu (by simp), fun _ => hfree, fun u q hu _ => absurd hu (by simp)⟩
    refine iff_of_false (fun hhold => ?_) (by simp)
    rcases getElem?_set_cases hq with ⟨-, rfl⟩ | ⟨hne, hq⟩
    · exact hpc' hhold
    · have hu := (h.holds u q hq).1 hhold
      exact hne (Option.some.inj (hu.symm.trans (hold.1 hpc)))

theorem Guards.add (h : Guards Holds free own ts mu) (hpc : ¬ Holds pc) : Guards Holds free own (ts ++ [pc]) mu := by
  have hcases (u : Nat) (q : P) (hq : (ts ++ [pc])[u]? = some q) : ts[u]? = some q ∨ u = ts.length ∧ q = pc := by
    rcases Nat.lt_or_ge u ts.length with hlt | hge
    · rw [getElem?_append_left hlt] at hq
      exact .inl hq
    · rw [getElem?_append_right hge, getElem?_singleton] at hq
      obtain ⟨h0, hq⟩ := by simpa using hq
      exact .inr ⟨by omega, hq.symm⟩
  refine ⟨fun u q hq => ?_, fun u hu => ?_, h.free, fun u q hu hq => ?_⟩
  · rcases hcases u q hq with hq | ⟨rfl, rfl⟩
    · exact h.holds u q hq
    · exact iff_of_false hpc fun hmu => Nat.lt_irrefl _ (h.holder _ hmu)
  · have := h.holder u hu
    simp only [length_append]
    omega
  · rcases hcases u q hq with hq | ⟨rfl, rfl⟩
    · exact h.own u q hu hq
    · exact absurd (h.holder _ hu) (Nat.lt_irrefl _)

theorem Guards.mono (h : Guards Holds free own ts mu) (hfree : free → free') (hown : ∀ q, own q → own' q) :
    Guards Holds free' own' ts mu where
  holds := h.holds
  holder := h.holder
  free := fun hmu => hfree (h.free hmu)
  own := fun t pc hmu ht => hown pc (h.own t pc hmu ht)

end Mutex
