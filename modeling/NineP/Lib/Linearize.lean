import NineP.Lib.Transition

/-!
# Linearization points

Operations on a shared object, each of them run by a thread through atomic steps, against a specification that does
each operation in one go.  Main result: `linearize`.
-/

namespace Linearize

open Transition List Option

variable {σ ω ρ π χ α : Type}

/-! ## Threads -/

/-- Operations `ω` with answers `ρ`, as programs that go by atomic steps on `σ` from one point `π` to the next; `χ` is
what a step leaves open. -/
structure Machine (σ ω ρ π χ : Type) where
  start : ω → π
  advance : π → χ → σ → π × σ
  /-- The answer of a program that has ended. -/
  answer : π → Option ρ

structure Thread (ω π : Type) where
  op : ω
  pc : π
  /-- The threads that had ended when this one began. -/
  before : List Nat

structure State (σ ω π : Type) where
  shared : σ
  threads : List (Thread ω π)

inductive Label (ω χ : Type)
  | call (op : ω)
  | step (i : Nat) (c : χ)

/-- No thread has begun. -/
def init (x : σ) : State σ ω π := ⟨x, []⟩

section Steps

variable (M : Machine σ ω ρ π χ)

def Machine.ended (t : Thread ω π) : Bool := (M.answer t.pc).isSome

def Machine.endedIds (ts : List (Thread ω π)) : List Nat :=
  (List.range ts.length).filter fun i => ts[i]?.any M.ended

def Machine.call (s : State σ ω π) (op : ω) : State σ ω π :=
  { s with threads := s.threads ++ [⟨op, M.start op, M.endedIds s.threads⟩] }

def Machine.move (s : State σ ω π) (i : Nat) (t : Thread ω π) (c : χ) : State σ ω π where
  shared := (M.advance t.pc c s.shared).2
  threads := s.threads.set i { t with pc := (M.advance t.pc c s.shared).1 }

def step (s : State σ ω π) : Label ω χ → Option (State σ ω π)
  | .call op => some (M.call s op)
  | .step i c =>
    match s.threads[i]? with
    | none => none
    | some t => if M.ended t then none else some (M.move s i t c)

end Steps

variable {M : Machine σ ω ρ π χ}

theorem step_cases {s : State σ ω π} (h : step M s l = some s') :
    (∃ op, l = .call op ∧ s' = M.call s op) ∨
      ∃ i c t, l = .step i c ∧ s.threads[i]? = some t ∧ M.answer t.pc = none ∧ s' = M.move s i t c := by
  cases l with
  | call op => exact .inl ⟨op, rfl, (Option.some.inj h).symm⟩
  | step i c =>
    simp only [step] at h
    split at h
    · cases h
    · rename_i t ht
      split at h
      · cases h
      · rename_i hend
        have hnone : M.answer t.pc = none := by simpa [Machine.ended] using hend
        exact .inr ⟨i, c, t, rfl, ht, hnone, (Option.some.inj h).symm⟩

theorem mem_endedIds :
    i ∈ M.endedIds ts ↔ ∃ t, ts[i]? = some t ∧ (M.answer t.pc).isSome = true := by
  simp only [Machine.endedIds, mem_filter, mem_range, Option.any_eq_true, Machine.ended]
  constructor
  · exact fun h => h.2
  · rintro ⟨t, ht, hend⟩
    exact ⟨getElem?_lt ht, t, ht, hend⟩

/-! ## Orders -/

/-- An operation done in one go. -/
structure Entry (ω ρ χ : Type) where
  id : Nat
  op : ω
  choice : χ
  answer : ρ

def Entry.Of (e : Entry ω ρ χ) (answer : π → Option ρ) (ts : List (Thread ω π)) : Prop :=
  ∃ t, ts[e.id]? = some t ∧ t.op = e.op ∧ answer t.pc = some e.answer

/-- None of the operations had ended when one before it began. -/
def RealTime (ts : List (Thread ω π)) (h : List (Entry ω ρ χ)) : Prop :=
  h.Pairwise fun e e' => ∀ t, ts[e.id]? = some t → e'.id ∉ t.before

structure Orders (M : Machine σ ω ρ π χ) (ts : List (Thread ω π)) (h : List (Entry ω ρ χ)) : Prop where
  perm : (h.map Entry.id).Perm (List.range ts.length)
  entry : ∀ e ∈ h, e.Of M.answer ts
  realTime : RealTime ts h

section Serial

variable [DecidableEq ρ] (spec : χ → ω → α → Option (ρ × α))

/-- An operation done in one go that gives the answer of the entry. -/
def serial (a : α) (e : Entry ω ρ χ) : Option α :=
  match spec e.choice e.op a with
  | none => none
  | some (r, a') => if r = e.answer then some a' else none

variable {spec}

theorem serial_eq_some {a a' : α} {e : Entry ω ρ χ} :
    serial spec a e = some a' ↔ spec e.choice e.op a = some (e.answer, a') := by
  unfold serial
  constructor
  · intro h
    split at h
    · cases h
    · rename_i r b hspec
      split at h
      · rename_i hr
        cases h
        rw [hspec, hr]
      · cases h
  · intro h
    simp [h]

end Serial

/-! ## Linearization points -/

/-- The method.  `Sim` relates the states of the runs to the states of the specification and `lin` tells at which points
an operation has been done.  A step of a thread does its operation or leaves the specification alone. -/
structure Points (M : Machine σ ω ρ π χ) (spec : χ → ω → α → Option (ρ × α))
    (C : State σ ω π → Label ω χ → Prop) (Sim : State σ ω π → α → Prop) (lin : π → Option ρ) : Prop where
  lin_start : ∀ op, lin (M.start op) = none
  lin_answer : ∀ pc r, M.answer pc = some r → lin pc = some r
  call : ∀ {s a op}, Sim s a → C s (.call op) → Sim (M.call s op) a
  move : ∀ {s a i c t}, Sim s a → C s (.step i c) → s.threads[i]? = some t → M.answer t.pc = none →
    lin (M.advance t.pc c s.shared).1 = lin t.pc ∧ Sim (M.move s i t c) a ∨
      lin t.pc = none ∧ ∃ c' r a', spec c' t.op a = some (r, a') ∧ lin (M.advance t.pc c s.shared).1 = some r ∧
        Sim (M.move s i t c) a'

/-- The history so far: the operations that are done. -/
structure Past (M : Machine σ ω ρ π χ) (lin : π → Option ρ) (ts : List (Thread ω π)) (h : List (Entry ω ρ χ)) :
    Prop where
  nodup : (h.map Entry.id).Nodup
  entry : ∀ e ∈ h, e.Of lin ts
  all : ∀ i t, ts[i]? = some t → (lin t.pc).isSome = true → i ∈ h.map Entry.id
  realTime : RealTime ts h
  before : ∀ t ∈ ts, ∀ b ∈ t.before, ∃ u, ts[b]? = some u ∧ (M.answer u.pc).isSome = true

section Past

variable {lin : π → Option ρ} {ts : List (Thread ω π)} {h : List (Entry ω ρ χ)}

theorem past_nil : Past M lin [] ([] : List (Entry ω ρ χ)) where
  nodup := nodup_nil
  entry := by simp
  all := by simp
  realTime := List.Pairwise.nil
  before := by simp

theorem Past.add (hp : Past M lin ts h) (hstart : lin (M.start op) = none) :
    Past M lin (ts ++ [⟨op, M.start op, M.endedIds ts⟩]) h where
  nodup := hp.nodup
  entry e he := by
    obtain ⟨t, ht, hop, hans⟩ := hp.entry e he
    exact ⟨t, getElem?_concat_left ht _, hop, hans⟩
  all i t ht hlin := by
    obtain ht | ⟨rfl, rfl⟩ := getElem?_concat_cases ht
    · exact hp.all i t ht hlin
    · simp [hstart] at hlin
  realTime := by
    refine hp.realTime.imp_of_mem fun {e _} he _ hrt t ht => ?_
    obtain ⟨u, hu, -⟩ := hp.entry e he
    rw [getElem?_concat_left hu] at ht
    exact hrt t (hu.trans ht)
  before t ht b hb := by
    have hold : ∃ u, ts[b]? = some u ∧ (M.answer u.pc).isSome = true := by
      obtain ht | ht := mem_append.1 ht
      · exact hp.before t ht b hb
      · obtain rfl := mem_singleton.1 ht
        exact mem_endedIds.1 hb
    obtain ⟨u, hu, hend⟩ := hold
    exact ⟨u, getElem?_concat_left hu _, hend⟩

variable {i : Nat} {t : Thread ω π} {pc : π}

theorem getElem?_moved (ht : ts[i]? = some t) {j : Nat} {u : Thread ω π}
    (hu : (ts.set i { t with pc := pc })[j]? = some u) : ∃ u₀, ts[j]? = some u₀ ∧ u₀.before = u.before := by
  obtain ⟨rfl, rfl⟩ | ⟨-, hu⟩ := getElem?_set_cases hu
  · exact ⟨t, ht, rfl⟩
  · exact ⟨u, hu, rfl⟩

theorem realTime_moved (hrt : RealTime ts h) (ht : ts[i]? = some t) : RealTime (ts.set i { t with pc := pc }) h := by
  refine hrt.imp fun {e e'} hee' u hu => ?_
  obtain ⟨u₀, hu₀, hbefore⟩ := getElem?_moved ht hu
  rw [← hbefore]
  exact hee' u₀ hu₀

theorem before_moved (hb : ∀ t ∈ ts, ∀ b ∈ t.before, ∃ u, ts[b]? = some u ∧ (M.answer u.pc).isSome = true)
    (ht : ts[i]? = some t) (hans : M.answer t.pc = none) :
    ∀ u ∈ ts.set i { t with pc := pc }, ∀ b ∈ u.before,
      ∃ v, (ts.set i { t with pc := pc })[b]? = some v ∧ (M.answer v.pc).isSome = true := by
  intro u hu b hbu
  obtain ⟨j, hj⟩ := mem_iff_getElem?.1 hu
  obtain ⟨u₀, hu₀, hbefore⟩ := getElem?_moved ht hj
  obtain ⟨v, hv, hend⟩ := hb u₀ (mem_of_getElem? hu₀) b (hbefore ▸ hbu)
  have hne : i ≠ b := by
    rintro rfl
    obtain rfl := mem_unique ht hv
    simp [hans] at hend
  exact ⟨v, by rw [getElem?_set_ne hne, hv], hend⟩

theorem entry_moved {e : Entry ω ρ χ} (he : e.Of lin ts) (ht : ts[i]? = some t)
    (hlin : (lin t.pc).isSome → lin pc = lin t.pc) : e.Of lin (ts.set i { t with pc := pc }) := by
  obtain ⟨u, hu, hop, hans⟩ := he
  by_cases hi : i = e.id
  · subst hi
    obtain rfl := mem_unique ht hu
    have hlin' := hlin (by rw [hans]; rfl)
    exact ⟨{ t with pc }, by rw [getElem?_set_self', ht]; rfl, hop, hlin'.trans hans⟩
  · exact ⟨u, by rw [getElem?_set_ne hi, hu], hop, hans⟩

theorem Past.skip (hp : Past M lin ts h) (ht : ts[i]? = some t) (hans : M.answer t.pc = none)
    (hlin : lin pc = lin t.pc) : Past M lin (ts.set i { t with pc := pc }) h where
  nodup := hp.nodup
  entry e he := entry_moved (hp.entry e he) ht fun _ => hlin
  all j u hu hj := by
    obtain ⟨rfl, rfl⟩ | ⟨-, hu⟩ := getElem?_set_cases hu
    · exact hp.all j t ht (hlin ▸ hj)
    · exact hp.all j u hu hj
  realTime := realTime_moved hp.realTime ht
  before := before_moved hp.before ht hans

theorem Past.done (hp : Past M lin ts h) (ht : ts[i]? = some t) (hans : M.answer t.pc = none)
    (hlin : lin t.pc = none) (hlin' : lin pc = some r) :
    Past M lin (ts.set i { t with pc := pc }) (h ++ [⟨i, t.op, c, r⟩]) where
  nodup := by
    rw [map_append]
    refine nodup_append.2 ⟨hp.nodup, pairwise_singleton _ _, ?_⟩
    rintro _ hi j hj rfl
    obtain rfl := mem_singleton.1 hj
    obtain ⟨e, he, rfl⟩ := mem_map.1 hi
    obtain ⟨u, hu, -, hlin_u⟩ := hp.entry e he
    obtain rfl := mem_unique ht hu
    simp [hlin] at hlin_u
  entry e he := by
    obtain he | he := mem_append.1 he
    · exact entry_moved (hp.entry e he) ht (by simp [hlin])
    · obtain rfl := mem_singleton.1 he
      exact ⟨{ t with pc }, by rw [getElem?_set_self', ht]; rfl, rfl, hlin'⟩
  all j u hu hj := by
    rw [map_append, mem_append]
    obtain ⟨rfl, -⟩ | ⟨-, hu⟩ := getElem?_set_cases hu
    · exact .inr (mem_singleton_self _)
    · exact .inl (hp.all j u hu hj)
  realTime := by
    refine pairwise_append.2 ⟨realTime_moved hp.realTime ht, pairwise_singleton _ _, ?_⟩
    intro e he e' he' u hu hmem
    obtain rfl := mem_singleton.1 he'
    -- it has not ended, so it had not when another one began
    obtain ⟨u₀, hu₀, hbefore⟩ := getElem?_moved ht hu
    obtain ⟨v, hv, hend⟩ := hp.before u₀ (mem_of_getElem? hu₀) i (hbefore ▸ hmem)
    obtain rfl := mem_unique ht hv
    simp [hans] at hend
  before := before_moved hp.before ht hans

theorem Past.orders (hp : Past M lin ts h) (hlin : ∀ pc r, M.answer pc = some r → lin pc = some r)
    (hend : ∀ t ∈ ts, (M.answer t.pc).isSome = true) : Orders M ts h where
  perm := by
    refine (perm_ext_iff_of_nodup hp.nodup nodup_range).2 fun i => ?_
    rw [mem_range]
    constructor
    · intro hi
      obtain ⟨e, he, rfl⟩ := mem_map.1 hi
      obtain ⟨t, ht, -⟩ := hp.entry e he
      exact getElem?_lt ht
    · intro hi
      have ht := getElem?_eq_getElem hi
      obtain ⟨r, hr⟩ := isSome_iff_exists.1 (hend _ (getElem_mem hi))
      exact hp.all i _ ht (by rw [hlin _ r hr]; rfl)
  entry e he := by
    obtain ⟨t, ht, hop, hans⟩ := hp.entry e he
    obtain ⟨r, hr⟩ := isSome_iff_exists.1 (hend t (mem_of_getElem? ht))
    refine ⟨t, ht, hop, ?_⟩
    rw [hr, ← hans, hlin _ r hr]
  realTime := hp.realTime

end Past

section Linearize

variable [DecidableEq ρ] {spec : χ → ω → α → Option (ρ × α)} {C : State σ ω π → Label ω χ → Prop}
  {Sim : State σ ω π → α → Prop} {lin : π → Option ρ}

theorem Points.step_past (P : Points M spec C Sim lin) {s s' : State σ ω π} {l : Label ω χ}
    (hs : ∃ h a, Past M lin s.threads h ∧ run (serial spec) a₀ h = some a ∧ Sim s a) (hC : C s l)
    (hstep : step M s l = some s') :
    ∃ h a, Past M lin s'.threads h ∧ run (serial spec) a₀ h = some a ∧ Sim s' a := by
  obtain ⟨h, a, hp, hrun, hsim⟩ := hs
  obtain ⟨op, rfl, rfl⟩ | ⟨i, c, t, rfl, ht, hans, rfl⟩ := step_cases hstep
  · exact ⟨h, a, hp.add (P.lin_start op), hrun, P.call hsim hC⟩
  · obtain ⟨hlin, hsim'⟩ | ⟨hlin, c', r, a', hspec, hlin', hsim'⟩ := P.move hsim hC ht hans
    · exact ⟨h, a, hp.skip ht hans hlin, hrun, hsim'⟩
    · have hp' := hp.done (c := c') ht hans hlin hlin'
      refine ⟨_, a', hp', ?_, hsim'⟩
      exact run_append.2 ⟨a, hrun, run_cons.2 ⟨a', serial_eq_some.2 hspec, rfl⟩⟩

/-- **Linearization.**  Every run to the end of all threads is accounted for by their operations, done one at a time in
an order that respects real time. -/
theorem Points.linearize (P : Points M spec C Sim lin) (h0 : Sim (init x) a₀) {ls : List (Label ω χ)}
    {s : State σ ω π} (hrun : run (step M) (init x) ls = some s) (hC : Meets (step M) C (init x) ls)
    (hend : ∀ t ∈ s.threads, (M.answer t.pc).isSome = true) :
    ∃ h a, Orders M s.threads h ∧ run (serial spec) a₀ h = some a ∧ Sim s a := by
  have hinit : ∃ h a, Past M lin (init x : State σ ω π).threads h ∧ run (serial spec) a₀ h = some a ∧
      Sim (init x) a := ⟨[], a₀, past_nil, rfl, h0⟩
  obtain ⟨h, a, hp, hserial, hsim⟩ := run_inv_of_meets (fun hs hC hstep => P.step_past hs hC hstep) hinit hC hrun
  exact ⟨h, a, hp.orders P.lin_answer hend, hserial, hsim⟩

end Linearize

end Linearize
