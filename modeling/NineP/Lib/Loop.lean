import Mathlib.Order.Basic

/-!
# Loops that ask a peer

A loop that puts one question to a peer in every iteration, and a rule for what it returns and how many questions it
needs, whatever the peer answers (`Loop.Ends.run`).
-/

/-- The state of a loop goes through `next`, until `exit` or `next` return a result. -/
structure Loop (α ρ σ β : Type) where
  exit : σ → Option β
  ask : σ → α
  next : σ → ρ → σ ⊕ β

namespace Loop

variable {α ρ σ β : Type}

/-- The result, and the number of the next question; `none` after `fuel` iterations. -/
def run (l : Loop α ρ σ β) (peer : Nat → α → ρ) : Nat → σ → Nat → Option (β × Nat)
  | 0, _, _ => none
  | fuel + 1, s, k =>
    match l.exit s with
    | some b => some (b, k)
    | none =>
      match l.next s (peer k (l.ask s)) with
      | .inl s => run l peer fuel s (k + 1)
      | .inr b => some (b, k + 1)

/-- An iteration that continues keeps the invariant and makes the measure smaller, and any other returns what it
should. -/
structure Ends (l : Loop α ρ σ β) (Inv : σ → Prop) (μ : σ → Nat) (Post : β → Prop) : Prop where
  exit : ∀ {s b}, Inv s → l.exit s = some b → Post b
  pos : ∀ {s}, Inv s → l.exit s = none → 0 < μ s
  next : ∀ {s}, Inv s → l.exit s = none → ∀ r, (l.next s r).elim (fun s' => Inv s' ∧ μ s' < μ s) Post

/-- Such a loop asks at most as often as the measure says. -/
theorem Ends.run {l : Loop α ρ σ β} {Inv : σ → Prop} {μ : σ → Nat} {Post : β → Prop} (h : l.Ends Inv μ Post)
    (peer : Nat → α → ρ) (k : Nat) (hs : Inv s) (hfuel : μ s < fuel) :
    ∃ b n, l.run peer fuel s k = some (b, k + n) ∧ n ≤ μ s ∧ Post b := by
  induction fuel generalizing s k with
  | zero => exact absurd hfuel (Nat.not_lt_zero _)
  | succ fuel ih =>
    rw [Loop.run]
    cases hexit : l.exit s with
    | some b => exact ⟨b, 0, rfl, Nat.zero_le _, h.exit hs hexit⟩
    | none =>
      have hnext := h.next hs hexit (peer k (l.ask s))
      generalize l.next s (peer k (l.ask s)) = r at hnext
      cases r with
      | inr b => exact ⟨b, 1, rfl, h.pos hs hexit, hnext⟩
      | inl s' =>
        obtain ⟨hs', hless⟩ := hnext
        obtain ⟨b, n, hrun, hn, hb⟩ := ih (k + 1) hs' (by omega)
        rw [Nat.add_right_comm] at hrun
        exact ⟨b, n + 1, hrun, by omega, hb⟩

/-- The test of a loop that goes on as long as `c` holds. -/
theorem none_of_while {c : Prop} [Decidable c] {b : β} (h : (if c then none else some b) = none) : c := by
  by_contra hc
  rw [if_neg hc] at h
  cases h

theorem some_of_while {c : Prop} [Decidable c] {b b' : β} (h : (if c then none else some b) = some b') : b = b' := by
  split at h
  · cases h
  · exact Option.some.inj h

end Loop
