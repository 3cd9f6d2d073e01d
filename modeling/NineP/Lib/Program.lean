import Mathlib.Data.List.Forall2

/-!
# Programs and their rules

A program is a value, or a command with a continuation for each of its results.  `Rules` say what a command asks of
the resources that its thread has, and what resources it leaves; `Rules.Wp` extends them to programs.
-/

namespace Program

/-- Programs over commands `C` with results `R`. -/
inductive Prog (C : Type) (R : C → Type) (α : Type)
  | pure (a : α)
  | cmd (c : C) (k : R c → Prog C R α)

variable {C : Type} {R : C → Type} {α β : Type}

namespace Prog

def bind : Prog C R α → (α → Prog C R β) → Prog C R β
  | .pure a, f => f a
  | .cmd c k, f => .cmd c fun x => (k x).bind f

instance : Monad (Prog C R) where
  pure := .pure
  bind := .bind

/-- A single command. -/
def lift (c : C) : Prog C R (R c) := .cmd c .pure

def ended : Prog C R α → Bool
  | .pure _ => true
  | .cmd _ _ => false

variable {p : Prog C R α} {P : C → Prop}

theorem ended_iff : p.ended = true ↔ ∃ a, p = .pure a := by
  cases p <;> simp [ended]

/-- Every command of the program is in `P`, whatever the commands return. -/
def All (P : C → Prop) : Prog C R α → Prop
  | .pure _ => True
  | .cmd c k => P c ∧ ∀ x, All P (k x)

@[simp] theorem all_pure : All P (pure a : Prog C R α) := trivial

@[simp] theorem all_lift : All P (lift c : Prog C R (R c)) ↔ P c :=
  ⟨fun h => h.1, fun h => ⟨h, fun _ => trivial⟩⟩

theorem All.mono {P' : C → Prop} (h : All P p) (hP : ∀ c, P c → P' c) : All P' p := by
  induction p with
  | pure a => trivial
  | cmd c k ih => exact ⟨hP c h.1, fun x => ih x (h.2 x)⟩

theorem All.bind {f : α → Prog C R β} (hp : All P p) (hf : ∀ a, All P (f a)) : All P (p >>= f) := by
  induction p with
  | pure a => exact hf a
  | cmd c k ih => exact ⟨hp.1, fun x => ih x (hp.2 x)⟩

end Prog

/-- What commands ask of resources `ρ`, and what they leave. -/
structure Rules (C : Type) (R : C → Type) (ρ : Type) where
  pre : C → ρ → Prop
  post : (c : C) → ρ → R c → ρ → Prop

namespace Rules

variable {ρ : Type} (S : Rules C R ρ)

/-- Every command of the program finds the resources it asks for, and the end finds `Q`. -/
def Wp : Prog C R α → (α → ρ → Prop) → ρ → Prop
  | .pure a, Q, r => Q a r
  | .cmd c k, Q, r => S.pre c r ∧ ∀ x r', S.post c r x r' → Wp (k x) Q r'

variable {S} {Q : α → ρ → Prop} {r : ρ} {p : Prog C R α}

@[simp] theorem wp_pure : S.Wp (pure a) Q r ↔ Q a r := .rfl

@[simp] theorem wp_lift {Q : R c → ρ → Prop} :
    S.Wp (.lift c) Q r ↔ S.pre c r ∧ ∀ x r', S.post c r x r' → Q x r' := .rfl

@[simp] theorem wp_bind {f : α → Prog C R β} {Q : β → ρ → Prop} :
    S.Wp (p >>= f) Q r ↔ S.Wp p (fun a => S.Wp (f a) Q) r := by
  induction p generalizing r with
  | pure a => exact .rfl
  | cmd c k ih =>
    exact and_congr_right fun _ => forall_congr' fun x => forall_congr' fun _ => imp_congr_right fun _ => ih x

theorem wp_cmd {f : R c → Prog C R β} {Q : β → ρ → Prop} :
    S.Wp (Prog.lift c >>= f) Q r ↔ S.pre c r ∧ ∀ x r', S.post c r x r' → S.Wp (f x) Q r' := .rfl

theorem Wp.mono {Q' : α → ρ → Prop} (h : S.Wp p Q r) (hQ : ∀ a r, Q a r → Q' a r) : S.Wp p Q' r := by
  induction p generalizing r with
  | pure a => exact hQ a r h
  | cmd c k ih => exact ⟨h.1, fun x r' hpost => ih x (h.2 x r' hpost)⟩

/-- Commands that ask nothing and leave everything. -/
def Silent (S : Rules C R ρ) (c : C) : Prop := (∀ r, S.pre c r) ∧ ∀ r x r', S.post c r x r' → r' = r

theorem Wp.of_all {P : C → Prop} {I : ρ → Prop} (hP : ∀ c, P c → ∀ r, I r → S.pre c r ∧ ∀ x r', S.post c r x r' → I r')
    (h : p.All P) (hr : I r) :
    S.Wp p (fun _ => I) r := by
  induction p generalizing r with
  | pure a => exact hr
  | cmd c k ih => exact ⟨(hP c h.1 r hr).1, fun x r' hpost => ih x (h.2 x) ((hP c h.1 r hr).2 x r' hpost)⟩

theorem Wp.of_silent (h : p.All S.Silent) (hQ : ∀ a, Q a r) : S.Wp p Q r := by
  refine (of_all (I := (· = r)) (fun c hc r₁ hr₁ => ?_) h rfl).mono fun a r' hr' => hr' ▸ hQ a
  exact ⟨hc.1 r₁, fun x r' hpost => (hc.2 r₁ x r' hpost).trans hr₁⟩

/-- Programs that run side by side, with resources `rs`, and end with `Q`. -/
def Pool (S : Rules C R ρ) (Q : α → ρ → Prop) (ps : List (Prog C R α)) (rs : List ρ) : Prop :=
  List.Forall₂ (fun p r => S.Wp p Q r) ps rs

section Pool

variable {Q : α → ρ → Prop} {ps : List (Prog C R α)} {rs : List ρ} {t : Nat} {p : Prog C R α} {r : ρ}

theorem Pool.get (h : S.Pool Q ps rs) (hp : ps[t]? = some p) : ∃ r, rs[t]? = some r ∧ S.Wp p Q r := by
  obtain ⟨hlt, rfl⟩ := List.getElem?_eq_some_iff.1 hp
  have hlt' : t < rs.length := List.Forall₂.length_eq h ▸ hlt
  exact ⟨rs.get ⟨t, hlt'⟩, List.getElem?_eq_getElem hlt', List.Forall₂.get h hlt hlt'⟩

theorem Pool.set (h : S.Pool Q ps rs) (hp : S.Wp p Q r) : S.Pool Q (ps.set t p) (rs.set t r) := by
  induction h generalizing t with
  | nil => exact .nil
  | cons h hs ih =>
    cases t with
    | zero => exact .cons hp hs
    | succ t => exact .cons h ih

theorem Pool.add (h : S.Pool Q ps rs) (hp : S.Wp p Q r) : S.Pool Q (ps ++ [p]) (rs ++ [r]) := by
  induction h with
  | nil => exact .cons hp .nil
  | cons h _ ih => exact .cons h ih

theorem Pool.ended (h : S.Pool Q ps rs) (hps : ∀ p ∈ ps, ∃ a, p = .pure a) : ∀ r ∈ rs, ∃ a, Q a r := by
  induction h with
  | nil => simp
  | cons h _ ih =>
    intro r hr
    rcases List.mem_cons.1 hr with rfl | hr
    · obtain ⟨a, rfl⟩ := hps _ List.mem_cons_self
      exact ⟨a, h⟩
    · exact ih (fun p hp => hps p (List.mem_cons_of_mem _ hp)) r hr

end Pool

end Rules

end Program
