import NineP.Server.HandleRules

/-!
# Where the handles are

Every command keeps the books, as long as `handleClunk` does not take a fid state that stores a handle for an xattr
fid.
-/

namespace NineP.Server.Handlers

open Codec Proto Program Transition List Option

variable {ν : Type} {rs : List (Holds ν)} {r : Holds ν} {t i : Nat} {s s' : State ν}

/-! ## The books -/

def Obj.releases (o : Obj ν) : Bool := o.handle.any (·.releases)

/-- The handle of the fid state has been taken, or the last I/O on it will take it. -/
def Obj.settled (o : Obj ν) : Int :=
  (if o.taken then 1 else 0) + if o.closing = true ∧ o.ioRefs ≠ 0 then 1 else 0

/-- The fid state stores the handle of call number `i`. -/
def Obj.stores (i : Nat) (o : Obj ν) : Bool := !o.taken && o.handle.any (·.id == i)

/-- A call has returned the handle. -/
def State.Opened (s : State ν) (h : Handle) : Prop := ∃ n, s.opens[h.id]? = some (n, h.ifaces)

/-- What all handlers have in hand together. -/
def tally (f : Holds ν → Nat) (rs : List (Holds ν)) : Int := (rs.map fun r => (f r : Int)).sum

structure Ledger (s : State ν) (rs : List (Holds ν)) : Prop where
  io : ∀ i o, s.objs[i]? = some o → o.ioRefs = tally (·.io.count i) rs
  begun : ∀ r ∈ rs, ∀ i ∈ r.io, i < s.objs.length
  duty : ∀ r ∈ rs, ∀ i ∈ r.duty, ∃ o, s.objs[i]? = some o ∧ o.key = none
  opened : ∀ r ∈ rs, ∀ p ∈ r.opened, s.opens[p.2.id]? = some (p.1, p.2.ifaces)
  held : ∀ r ∈ rs, ∀ h ∈ r.held, s.Opened h
  table : ∀ o ∈ s.objs, o.key.isSome = true → o.closing = false ∧ o.taken = false
  fresh : ∀ o ∈ s.objs, o.state = .allocated → o.handle = none
  stored : ∀ o ∈ s.objs, ∀ h, o.handle = some h → s.Opened h
  /-- Out of the table: the handle is taken, or one handler has to take it, or the last I/O will. -/
  out : ∀ i o, s.objs[i]? = some o → o.key = none → o.releases = true → o.settled + tally (·.duty.count i) rs = 1
  released : ∀ i ∈ s.released, i < s.opens.length
  /-- Every handle is in one place. -/
  place : ∀ i n ifaces, s.opens[i]? = some (n, ifaces) → .fileReleaser ∈ ifaces →
    (s.released.count i : Int) + tally (fun r => r.held.countP (·.id == i)) rs + s.objs.countP (·.stores i) = 1

theorem settled_eq_zero {o : Obj ν} :
    o.settled = 0 ↔ o.taken = false ∧ ¬ (o.closing = true ∧ o.ioRefs ≠ 0) := by
  unfold Obj.settled
  by_cases htaken : o.taken = true
  · simp only [htaken, if_true]
    split <;> simp
  · simp only [htaken]
    split <;> simp_all

section Tally

variable {f : Holds ν → Nat}

theorem tally_set (f : Holds ν → Nat) (r' : Holds ν) (hr : rs[t]? = some r) :
    tally f (rs.set t r') + f r = tally f rs + f r' :=
  sum_map_set (fun r => (f r : Int)) r' hr

theorem tally_same (hr : rs[t]? = some r) (hf : f r' = f r) : tally f (rs.set t r') = tally f rs := by
  have := tally_set f r' hr
  rw [hf] at this
  omega

theorem tally_add (h : f r = 0) : tally f (rs ++ [r]) = tally f rs := by
  simp [tally, h]

theorem tally_nonneg : 0 ≤ tally f rs := by
  induction rs with
  | nil => exact Int.le_refl 0
  | cons q rs ih =>
    simp only [tally, map_cons, sum_cons] at ih ⊢
    omega

theorem le_tally (h : r ∈ rs) : (f r : Int) ≤ tally f rs := by
  induction rs with
  | nil => cases h
  | cons q rs ih =>
    have hrest : 0 ≤ tally f rs := tally_nonneg
    simp only [tally, map_cons, sum_cons] at ih hrest ⊢
    rcases mem_cons.1 h with rfl | h
    · omega
    · have := ih h
      omega

theorem tally_eq_zero (h : ∀ r ∈ rs, f r = 0) : tally f rs = 0 := by
  induction rs with
  | nil => rfl
  | cons q rs ih =>
    have := ih fun r hr => h r (mem_cons_of_mem _ hr)
    simp only [tally, map_cons, sum_cons, h q mem_cons_self] at this ⊢
    omega

theorem countP_put (hheld : h.releases = true → h ∈ r.held) (j : Nat) :
    (r.put h).held.countP (·.id == j) + (if h.releases = true ∧ h.id = j then 1 else 0) = r.held.countP (·.id == j) := by
  unfold Holds.put
  by_cases hrel : h.releases = true
  · have hpos : h.id = j → 0 < r.held.countP (·.id == j) :=
      fun hj => countP_pos_iff.2 ⟨h, hheld hrel, by simp [hj]⟩
    rw [if_pos hrel]
    simp only [countP_erase, hheld hrel, hrel, true_and, beq_iff_eq]
    split
    · have := hpos ‹_›
      omega
    · rfl
  · simp [hrel]

theorem countP_take (j : Nat) :
    (r.take h).held.countP (·.id == j) = r.held.countP (·.id == j) + if h.releases = true ∧ h.id = j then 1 else 0 := by
  unfold Holds.take
  by_cases hrel : h.releases = true
  · simp only [hrel, if_true, countP_cons, true_and, beq_iff_eq]
  · simp [hrel]

end Tally

/-! ## Changes -/

section Changes

variable {o o' : Obj ν}

theorem Ledger.no_duty (hl : Ledger s rs) (ho : s.objs[i]? = some o) (hkey : o.key.isSome = true) :
    tally (·.duty.count i) rs = 0 := by
  refine tally_eq_zero fun r hr => count_eq_zero.2 fun hi => ?_
  obtain ⟨o₁, ho₁, hnone⟩ := hl.duty r hr i hi
  obtain rfl := mem_unique ho ho₁
  rw [hnone] at hkey
  cases hkey

theorem Ledger.my_duty (hl : Ledger s rs) (hr : rs[t]? = some r) (hi : i ∈ r.duty) (ho : s.objs[i]? = some o) :
    o.key = none ∧ (o.releases = true → o.settled = 0 ∧ tally (·.duty.count i) rs = 1) := by
  have hmem := mem_of_getElem? hr
  have hkey : o.key = none := by
    obtain ⟨o₁, ho₁, hnone⟩ := hl.duty r hmem i hi
    obtain rfl := mem_unique ho ho₁
    exact hnone
  refine ⟨hkey, fun hrel => ?_⟩
  have hout := hl.out i o ho hkey hrel
  have hmine := le_tally (f := (·.duty.count i)) hmem
  have hpos := count_pos_iff.2 hi
  have hsettled : 0 ≤ o.settled := by
    unfold Obj.settled
    split <;> split <;> omega
  omega

theorem not_stores_of_opened (hopened : s.Opened h)
    (hrel : h.releases = false) (hi : s.opens[i]? = some (n, ifaces)) (hmem : .fileReleaser ∈ ifaces) : h.id ≠ i := by
  rintro rfl
  obtain ⟨n', hn'⟩ := hopened
  obtain ⟨-, rfl⟩ := Prod.mk.inj (mem_unique hi hn')
  simp [Handle.releases, Handle.implements, hmem] at hrel

/-- A fid state changes, and what one handler has in hand. -/
structure Change (s : State ν) (rs : List (Holds ν)) (i : Nat) (o o' : Obj ν) (r r' : Holds ν) : Prop where
  key : o.key = none → o'.key = none
  io : o'.ioRefs + r.io.count i = o.ioRefs + r'.io.count i
  ioElse : ∀ j, j ≠ i → r'.io.count j = r.io.count j
  duty : i ∈ r'.duty → o'.key = none
  dutyElse : ∀ j, j ≠ i → r'.duty.count j = r.duty.count j
  opened : r'.opened = r.opened
  held : ∀ h ∈ r'.held, s.Opened h
  table : o'.key.isSome = true → o'.closing = false ∧ o'.taken = false
  fresh : o'.state = .allocated → o'.handle = none
  stored : ∀ h, o'.handle = some h → s.Opened h
  out : o'.key = none → o'.releases = true →
    o'.settled + tally (·.duty.count i) rs + r'.duty.count i = 1 + r.duty.count i
  place : ∀ j n ifaces, s.opens[j]? = some (n, ifaces) → .fileReleaser ∈ ifaces →
    r'.held.countP (·.id == j) + (if o'.stores j then 1 else 0) = r.held.countP (·.id == j) + if o.stores j then 1 else 0

theorem Ledger.set (hl : Ledger s rs) (hr : rs[t]? = some r) (ho : s.objs[i]? = some o)
    (hc : Change s rs i o o' r r') : Ledger { s with objs := s.objs.set i o' } (rs.set t r') where
  io j q hq := by
    have hset := tally_set (fun r => r.io.count j) r' hr
    rcases getElem?_set_cases hq with ⟨rfl, rfl⟩ | ⟨hne, hq⟩
    · have := hl.io _ o ho
      have := hc.io
      omega
    · have := hl.io j q hq
      have := hc.ioElse j hne
      omega
  begun q hq j hj := by
    rw [length_set]
    rcases mem_or_eq_of_mem_set hq with hq | rfl
    · exact hl.begun q hq j hj
    · by_cases hij : j = i
      · subst hij
        exact getElem?_lt ho
      · refine hl.begun r (mem_of_getElem? hr) j (count_pos_iff.1 ?_)
        rw [← hc.ioElse j hij]
        exact count_pos_iff.2 hj
  duty q hq j hj := by
    have hold (h : ∃ o, s.objs[j]? = some o ∧ o.key = none) :
        ∃ o, (s.objs.set i o')[j]? = some o ∧ o.key = none := by
      obtain ⟨o₁, ho₁, hkey⟩ := h
      by_cases hij : i = j
      · subst hij
        obtain rfl := mem_unique ho ho₁
        exact ⟨o', set_same ho _, hc.key hkey⟩
      · exact ⟨o₁, by rwa [getElem?_set_ne hij], hkey⟩
    rcases mem_or_eq_of_mem_set hq with hq | rfl
    · exact hold (hl.duty q hq j hj)
    · by_cases hij : j = i
      · subst hij
        exact ⟨o', set_same ho _, hc.duty hj⟩
      · refine hold (hl.duty r (mem_of_getElem? hr) j (count_pos_iff.1 ?_))
        rw [← hc.dutyElse j hij]
        exact count_pos_iff.2 hj
  opened := forall_mem_set hl.opened (hc.opened ▸ hl.opened r (mem_of_getElem? hr))
  held := forall_mem_set hl.held hc.held
  table := forall_mem_set hl.table hc.table
  fresh := forall_mem_set hl.fresh hc.fresh
  stored := forall_mem_set hl.stored hc.stored
  out j q hq hkey hrel := by
    have hset := tally_set (fun r => r.duty.count j) r' hr
    rcases getElem?_set_cases hq with ⟨rfl, rfl⟩ | ⟨hne, hq⟩
    · have := hc.out hkey hrel
      omega
    · have := hl.out j q hq hkey hrel
      have := hc.dutyElse j hne
      omega
  released := hl.released
  place j n ifaces hj hmem := by
    have hset := tally_set (fun r => r.held.countP (·.id == j)) r' hr
    have hobjs := countP_set_add (·.stores j) o' ho
    have hold := hl.place j n ifaces hj hmem
    have := hc.place j n ifaces hj hmem
    simp only at hset hobjs hold ⊢
    omega

theorem Ledger.congr (hl : Ledger s rs) (hobjs : s'.objs = s.objs) (hopens : s'.opens = s.opens)
    (hreleased : s'.released = s.released) : Ledger s' rs := by
  obtain ⟨h₁, h₂, h₃, h₄, h₅, h₆, h₇, h₈, h₉, h₁₀, h₁₁⟩ := hl
  constructor
  all_goals simpa only [State.Opened, hobjs, hopens, hreleased]

theorem Ledger.idle (hl : Ledger s rs) (hr : rs[t]? = some r) : Ledger s (rs.set t r) := by
  obtain ⟨hlt, rfl⟩ := List.getElem?_eq_some_iff.1 hr
  rwa [set_getElem_self hlt]

theorem Ledger.add (hl : Ledger s rs) : Ledger s (rs ++ [({} : Holds ν)]) := by
  have hq {P : Holds ν → Prop} (h : ∀ q ∈ rs, P q) (h₀ : P {}) : ∀ q ∈ rs ++ [({} : Holds ν)], P q := by
    intro q hq
    rcases mem_append.1 hq with hq | hq
    · exact h q hq
    · rw [mem_singleton.1 hq]
      exact h₀
  refine ⟨fun i o ho => ?_, hq hl.begun (by simp), hq hl.duty (by simp), hq hl.opened (by simp), hq hl.held (by simp),
    hl.table, hl.fresh, hl.stored, fun i o ho hkey hrel => ?_, hl.released, fun i n ifaces hi hrel => ?_⟩
  · rw [tally_add (by rfl)]
    exact hl.io i o ho
  · rw [tally_add (by rfl)]
    exact hl.out i o ho hkey hrel
  · rw [tally_add (by rfl)]
    exact hl.place i n ifaces hi hrel

theorem Ledger.keep (hl : Ledger s rs) (ho : s.objs[i]? = some o) (hkey : o'.key = o.key)
    (hclosing : o'.closing = o.closing) (htaken : o'.taken = o.taken) (hio : o'.ioRefs = o.ioRefs)
    (hhandle : o'.handle = o.handle) (hstate : o'.state = .allocated → o.state = .allocated) (hr : rs[t]? = some r) :
    Ledger { s with objs := s.objs.set i o' } (rs.set t r) := by
  have hmem := mem_of_getElem? hr
  have hobj := mem_of_getElem? ho
  refine hl.set hr ho ⟨fun h => hkey.trans h, by rw [hio], fun _ _ => rfl, fun hi => ?_, fun _ _ => rfl, rfl,
    hl.held r hmem, fun h => ?_, fun h => ?_, fun h hh => ?_, fun hk hrel => ?_, fun j n ifaces _ _ => ?_⟩
  · rw [hkey]
    exact (hl.my_duty hr hi ho).1
  · rw [hclosing, htaken]
    exact hl.table o hobj (hkey ▸ h)
  · rw [hhandle]
    exact hl.fresh o hobj (hstate h)
  · exact hl.stored o hobj h (hhandle ▸ hh)
  · have hout := hl.out i o ho (hkey ▸ hk) (by simpa only [Obj.releases, hhandle] using hrel)
    simp only [Obj.settled, hclosing, htaken, hio] at hout ⊢
    omega
  · rw [show o'.stores j = o.stores j by simp only [Obj.stores, htaken, hhandle]]

end Changes

/-! ## Commands -/

section Commands

variable [DecidableEq ν] {cfg : Config ν} {conn : Nat} {fs : Nat} {fid : Fid} {node : ν} {h : Handle} {x : Bool}

section

variable (hl : Ledger s rs) (hr : rs[t]? = some r)
include hl hr

omit [DecidableEq ν] in
theorem onObj_ledger {α : Type} {f : Obj ν → α × Obj ν} {x : α} (h : s.onObj i f = some (x, s'))
    (hf : ∀ o, s.objs[i]? = some o → (f o).2.key = o.key ∧ (f o).2.closing = o.closing ∧ (f o).2.taken = o.taken ∧
      (f o).2.ioRefs = o.ioRefs ∧ (f o).2.handle = o.handle ∧ ((f o).2.state = .allocated → o.state = .allocated)) :
    Ledger s' (rs.set t r) := by
  obtain ⟨o, ho, -, rfl⟩ := onObj_some h
  obtain ⟨hkey, hclosing, htaken, hio, hhandle, hstate⟩ := hf o ho
  exact hl.keep ho hkey hclosing htaken hio hhandle hstate hr

theorem add_ledger {state : FidStatus} {x : Except AddErr Unit}
    (h : s.exec cfg conn (.add fid node state) = some (x, s')) : Ledger s' (rs.set t r) := by
  refine Ledger.idle ?_ hr
  simp only [State.exec] at h
  split at h
  · cases h
    exact hl
  split at h
  · cases h
    exact hl
  cases h
  -- the new fid state is in the table, without a handle and without I/O
  have hcases {i : Nat} {o : Obj ν} (ho : (s.objs ++ [Obj.new (conn, fid) node state])[i]? = some o) :
      s.objs[i]? = some o ∨ i = s.objs.length ∧ o = .new (conn, fid) node state := by
    rcases lt_or_ge i s.objs.length with hlt | hge
    · exact .inl (by rwa [getElem?_append_left hlt] at ho)
    · rw [getElem?_append_right hge] at ho
      obtain ⟨hi, ho⟩ := List.getElem?_eq_some_iff.1 ho
      simp only [length_singleton] at hi
      exact .inr ⟨by omega, by simpa [show i - s.objs.length = 0 by omega] using ho.symm⟩
  have hmem {o : Obj ν} (ho : o ∈ s.objs ++ [Obj.new (conn, fid) node state]) :
      o ∈ s.objs ∨ o = .new (conn, fid) node state := by simpa using ho
  refine ⟨fun i o ho => ?_, fun q hq i hi => ?_, fun q hq i hi => ?_, hl.opened, hl.held, fun o ho hkey => ?_,
    fun o ho hstate => ?_, fun o ho handle hh => ?_, fun i o ho hkey hrel => ?_, hl.released, fun i n ifaces hi hrel => ?_⟩
  · rcases hcases ho with ho | ⟨rfl, rfl⟩
    · exact hl.io i o ho
    · refine (tally_eq_zero fun q hq => count_eq_zero.2 fun hi => ?_).symm
      exact absurd (hl.begun q hq _ hi) (Nat.lt_irrefl _)
  · rw [length_append]
    exact Nat.lt_add_right _ (hl.begun q hq i hi)
  · obtain ⟨o, ho, hkey⟩ := hl.duty q hq i hi
    exact ⟨o, by rwa [getElem?_append_left (getElem?_lt ho)], hkey⟩
  · rcases hmem ho with ho | rfl
    · exact hl.table o ho hkey
    · exact ⟨rfl, rfl⟩
  · rcases hmem ho with ho | rfl
    · exact hl.fresh o ho hstate
    · rfl
  · rcases hmem ho with ho | rfl
    · exact hl.stored o ho handle hh
    · cases hh
  · rcases hcases ho with ho | ⟨rfl, rfl⟩
    · exact hl.out i o ho hkey hrel
    · cases hkey
  · have hplace := hl.place i n ifaces hi hrel
    rw [countP_append]
    simpa [Obj.stores, Obj.new, FidState.bound] using hplace

theorem clunk_ledger {x : Option Nat} (h : s.exec cfg conn (.clunk fid) = some (x, s')) :
    Ledger s' (rs.set t (r.after (.clunk fid) x)) := by
  obtain ⟨-, rfl, rfl⟩ | ⟨fs, o, -, ho, hkey, rfl, rfl⟩ := find_cases h
  · exact hl.idle hr
  · have hobj := mem_of_getElem? ho
    have hsome : o.key.isSome = true := by simp [hkey]
    obtain ⟨hclosing, htaken⟩ := hl.table o hobj hsome
    have hduty := hl.no_duty ho hsome
    refine hl.set hr ho ⟨fun _ => rfl, rfl, fun _ _ => rfl, fun _ => rfl, fun j hj => ?_, rfl,
      hl.held r (mem_of_getElem? hr), by simp, hl.fresh o hobj, hl.stored o hobj, fun _ _ => ?_, fun _ _ _ _ _ => rfl⟩
    · exact count_cons_of_ne (Ne.symm hj)
    · simp only [Holds.after, Obj.settled, hclosing, htaken, hduty, count_cons_self]
      simp
      omega

end

omit [DecidableEq ν] in
theorem store_ledger (hl : Ledger s rs) (hr : rs[t]? = some r) (ho : s.objs[i]? = some o)
    (hsome : o.key.isSome = true) (hstate : o.state = .allocated) (hheld : h.releases = true → h ∈ r.held)
    (hopened : (n, h) ∈ r.opened) (node : ν) :
    Ledger { s with objs := s.objs.set i { o with node := node, state := .opened, handle := some h } }
      (rs.set t (r.put h)) := by
  have hmem := mem_of_getElem? hr
  have hobj := mem_of_getElem? ho
  obtain ⟨hclosing, htaken⟩ := hl.table o hobj hsome
  have hnone := hl.fresh o hobj hstate
  have hop : s.Opened h := ⟨n, hl.opened r hmem _ hopened⟩
  have hput : (r.put h).io = r.io ∧ (r.put h).duty = r.duty ∧ (r.put h).opened = r.opened ∧ (r.put h).held ⊆ r.held := by
    unfold Holds.put
    split
    · exact ⟨rfl, rfl, rfl, erase_subset⟩
    · exact ⟨rfl, rfl, rfl, fun _ h => h⟩
  refine hl.set hr ho ⟨fun h => ?_, by rw [hput.1], fun _ _ => by rw [hput.1], fun hi => ?_, fun _ _ => by rw [hput.2.1],
    hput.2.2.1, fun h' hh' => hl.held r hmem h' (hput.2.2.2 hh'), fun _ => ⟨hclosing, htaken⟩, by simp, fun h' hh' => ?_,
    fun hkey => ?_, fun j n' ifaces hj hrel => ?_⟩
  · rw [h] at hsome
    cases hsome
  · rw [hput.2.1] at hi
    rw [(hl.my_duty hr hi ho).1] at hsome
    cases hsome
  · cases hh'
    exact hop
  · simp only at hkey
    rw [hkey] at hsome
    cases hsome
  · have hcount := countP_put hheld j
    simp only [Obj.stores, htaken, hnone, any_some, any_none, Bool.not_false, Bool.true_and, beq_iff_eq]
    cases hrelh : h.releases with
    | true =>
      simp only [hrelh, true_and] at hcount
      simpa using hcount
    | false =>
      have hne := not_stores_of_opened hop hrelh hj hrel
      simpa [hne, hrelh] using hcount

section

variable (hl : Ledger s rs) (hr : rs[t]? = some r)
include hl hr

theorem markOpenedWithHandle_ledger (hpre : handleRules.pre (.markOpenedWithHandle fid h) r)
    (hexec : s.exec cfg conn (.markOpenedWithHandle fid h) = some (x, s')) :
    Ledger s' (rs.set t (r.after (.markOpenedWithHandle fid h) x)) := by
  obtain ⟨hheld, n, hopened⟩ := hpre
  obtain ⟨-, rfl, rfl⟩ | ⟨fs, o, -, ho, hkey, rfl, rfl⟩ := find_cases hexec
  · exact hl.idle hr
  · rcases ne_or_eq o.state .allocated with hstate | hstate
    · rw [if_pos hstate]
      exact hl.keep ho rfl rfl rfl rfl rfl id hr
    · rw [if_neg (not_not.2 hstate)]
      exact store_ledger hl hr ho (by simp [hkey]) hstate hheld hopened o.node

theorem updateAndOpen_ledger {x : Option ν} (hpre : handleRules.pre (.updateAndOpen fid node h) r)
    (hexec : s.exec cfg conn (.updateAndOpen fid node h) = some (x, s')) :
    Ledger s' (rs.set t (r.after (.updateAndOpen fid node h) x)) := by
  obtain ⟨hheld, hopened⟩ := hpre
  obtain ⟨-, rfl, rfl⟩ | ⟨fs, o, -, ho, hkey, rfl, rfl⟩ := find_cases hexec
  · exact hl.idle hr
  · rcases ne_or_eq o.state .allocated with hstate | hstate
    · rw [if_pos hstate]
      exact hl.keep ho rfl rfl rfl rfl rfl id hr
    · rw [if_neg (not_not.2 hstate)]
      exact store_ledger hl hr ho (by simp [hkey]) hstate hheld hopened node

theorem update_ledger {x : Option ν} (h : s.exec cfg conn (.update fid node) = some (x, s')) :
    Ledger s' (rs.set t r) := by
  simp only [State.exec] at h
  cases hfind : s.find (conn, fid) with
  | none =>
    rw [hfind] at h
    cases h
    exact hl.idle hr
  | some fs =>
    rw [hfind] at h
    exact onObj_ledger hl hr h fun _ _ => ⟨rfl, rfl, rfl, rfl, rfl, id⟩

theorem takeHandle_ledger {x : Option Handle} (hfs : fs ∈ r.duty) (h : s.exec cfg conn (.takeHandle fs) = some (x, s')) :
    Ledger s' (rs.set t (r.after (.takeHandle fs) x)) := by
  obtain ⟨o, ho, rfl, rfl⟩ := onObj_some h
  have hmem := mem_of_getElem? hr
  have hobj := mem_of_getElem? ho
  obtain ⟨hkey, hmine⟩ := hl.my_duty hr hfs ho
  have hpos := count_pos_iff.2 hfs
  have hafter : (r.after (.takeHandle fs) o.handle).io = r.io ∧
      (r.after (.takeHandle fs) o.handle).duty = r.duty.erase fs ∧
      (r.after (.takeHandle fs) o.handle).opened = r.opened := by
    cases o.handle with
    | none => exact ⟨rfl, rfl, rfl⟩
    | some h =>
      simp only [Holds.after, Holds.take]
      split <;> exact ⟨rfl, rfl, rfl⟩
  obtain ⟨hio, hduty, hopened⟩ := hafter
  refine hl.set hr ho ⟨fun h => h, by rw [hio], fun _ _ => by rw [hio], fun _ => hkey, fun j hj => ?_, hopened,
    fun h hh => ?_, fun h => ?_, hl.fresh o hobj, hl.stored o hobj, fun _ hrel => ?_, fun j n ifaces hj hrel => ?_⟩
  · rw [hduty]
    exact count_erase_of_ne hj
  · cases hhandle : o.handle with
    | none =>
      rw [hhandle] at hh
      exact hl.held r hmem h hh
    | some h' =>
      rw [hhandle] at hh
      simp only [Holds.after, Holds.take] at hh
      split at hh
      · rcases mem_cons.1 hh with rfl | hh
        · exact hl.stored o hobj h hhandle
        · exact hl.held r hmem h hh
      · exact hl.held r hmem h hh
  · rw [show o.key = none from hkey] at h
    cases h
  · obtain ⟨hsettled, htally⟩ := hmine hrel
    obtain ⟨-, hdefer⟩ := settled_eq_zero.1 hsettled
    rw [hduty, count_erase_self, htally]
    simp only [Obj.settled, if_true, if_neg hdefer]
    omega
  · cases hhandle : o.handle with
    | none => simp [Holds.after, Obj.stores, hhandle]
    | some h' =>
      have hop := hl.stored o hobj h' hhandle
      simp only [Holds.after, countP_take, Obj.stores, hhandle, Bool.not_true, Bool.false_and, any_some]
      cases hrelh : h'.releases with
      | false =>
        have hne := not_stores_of_opened hop hrelh hj hrel
        simp [hne]
      | true =>
        have hsettled := (hmine (by simp [Obj.releases, hhandle, hrelh])).1
        simp [(settled_eq_zero.1 hsettled).1]

theorem beginIo_ledger (h : s.exec cfg conn (.beginIo fs) = some (x, s')) :
    Ledger s' (rs.set t (r.after (.beginIo fs) x)) := by
  obtain ⟨o, ho, rfl, rfl⟩ := onObj_some h
  have hobj := mem_of_getElem? ho
  cases hclosing : o.closing with
  | true =>
    simp only [FidState.beginIo, hclosing, if_true]
    exact hl.keep ho rfl rfl rfl rfl rfl id hr
  | false =>
    simp only [FidState.beginIo, hclosing, Bool.false_eq_true, if_false]
    refine hl.set hr ho ⟨fun h => h, ?_, fun j hj => ?_, fun hi => (hl.my_duty hr hi ho).1, fun _ _ => rfl, rfl,
      hl.held r (mem_of_getElem? hr), fun h => ⟨rfl, (hl.table o hobj h).2⟩, hl.fresh o hobj, hl.stored o hobj,
      fun hkey hrel => ?_, fun _ _ _ _ _ => rfl⟩
    · simp only [Holds.after, count_cons_self]
      omega
    · exact count_cons_of_ne (Ne.symm hj)
    · have hout := hl.out fs o ho hkey hrel
      simp only [Obj.settled, hclosing, Holds.after] at hout ⊢
      simp at hout ⊢
      omega

theorem endIo_ledger {x : Bool × Bool} (hfs : fs ∈ r.io) (h : s.exec cfg conn (.endIo fs) = some (x, s')) :
    Ledger s' (rs.set t (r.after (.endIo fs) x)) := by
  obtain ⟨o, ho, rfl, rfl⟩ := onObj_some h
  have hmem := mem_of_getElem? hr
  have hobj := mem_of_getElem? ho
  have hpos := count_pos_iff.2 hfs
  have hrefs : 1 ≤ o.ioRefs := by
    have h₁ := hl.io fs o ho
    have h₂ := le_tally (f := (·.io.count fs)) hmem
    omega
  have hcount (q : Holds ν) (hq : q.io = r.io.erase fs) :
      o.ioRefs - 1 + (r.io.count fs : Int) = o.ioRefs + q.io.count fs := by
    rw [hq, count_erase_self]
    omega
  have helse (q : Holds ν) (hq : q.io = r.io.erase fs) (j : Nat) (hj : j ≠ fs) : q.io.count j = r.io.count j := by
    rw [hq]
    exact count_erase_of_ne hj
  -- the last I/O on a fid state that is being clunked gets the duty to release its handle
  by_cases hlast : o.closing = true ∧ o.ioRefs = 1
  · obtain ⟨hclosing, hone⟩ := hlast
    have hkey : o.key = none := by
      by_contra hkey
      have := (hl.table o hobj (isSome_iff_ne_none.2 hkey)).1
      rw [hclosing] at this
      cases this
    simp only [FidState.endIo, hclosing, hone, Int.sub_self, beq_self_eq_true, Bool.and_self]
    refine hl.set hr ho ⟨fun h => h, ?_, helse _ rfl, fun _ => hkey, fun j hj => count_cons_of_ne (Ne.symm hj), rfl,
      hl.held r hmem, fun h => ?_, hl.fresh o hobj, hl.stored o hobj, fun _ hrel => ?_, fun _ _ _ _ _ => rfl⟩
    · have := hcount (r.after (.endIo fs) (true, o.closeNode)) rfl
      simp only at this ⊢
      omega
    · rw [show o.key = none from hkey] at h
      cases h
    · have hout := hl.out fs o ho hkey hrel
      simp only [Obj.settled, hclosing, hone, Holds.after, count_cons_self] at hout ⊢
      simp at hout ⊢
      omega
  · have hfalse : (o.closing && o.ioRefs - 1 == 0) = false := by
      rw [Bool.and_eq_false_iff, beq_eq_false_iff_ne]
      by_cases hclosing : o.closing = true
      · exact .inr fun h => hlast ⟨hclosing, by omega⟩
      · exact .inl (by simpa using hclosing)
    simp only [FidState.endIo, hfalse]
    refine hl.set hr ho ⟨fun h => h, hcount _ rfl, helse _ rfl, fun hi => (hl.my_duty hr hi ho).1, fun _ _ => rfl, rfl,
      hl.held r hmem, hl.table o hobj, hl.fresh o hobj, hl.stored o hobj, fun hkey hrel => ?_, fun _ _ _ _ _ => rfl⟩
    have hout := hl.out fs o ho hkey hrel
    have hsame : (o.closing = true ∧ o.ioRefs - 1 ≠ 0) ↔ (o.closing = true ∧ o.ioRefs ≠ 0) :=
      and_congr_right fun hclosing => ⟨fun _ => by omega, fun _ h => hlast ⟨hclosing, by omega⟩⟩
    simp only [Obj.settled, hsame, Holds.after] at hout ⊢
    omega

theorem finishClunk_ledger {closeNode : Bool} (hfs : fs ∈ r.duty)
    (h : s.exec cfg conn (.finishClunk fs closeNode) = some (x, s')) :
    Ledger s' (rs.set t (r.after (.finishClunk fs closeNode) x)) := by
  obtain ⟨o, ho, rfl, rfl⟩ := onObj_some h
  have hmem := mem_of_getElem? hr
  have hobj := mem_of_getElem? ho
  have hpos := count_pos_iff.2 hfs
  obtain ⟨hkey, hmine⟩ := hl.my_duty hr hfs ho
  have hnokey {p : Prop} (h : o.key.isSome = true) : p := by
    rw [hkey] at h
    cases h
  by_cases hzero : o.ioRefs = 0
  · simp only [FidState.finishClunk, hzero, beq_self_eq_true]
    refine hl.set hr ho ⟨fun h => h, by rw [hzero]; rfl, fun _ _ => rfl, fun _ => hkey, fun _ _ => rfl, rfl,
      hl.held r hmem, hnokey, hl.fresh o hobj, hl.stored o hobj, fun _ hrel => ?_, fun _ _ _ _ _ => rfl⟩
    have hout := hl.out fs o ho hkey hrel
    simp only [Obj.settled, hzero, Holds.after] at hout ⊢
    simp at hout ⊢
    omega
  · have hfalse : (o.ioRefs == 0) = false := beq_eq_false_iff_ne.2 hzero
    simp only [FidState.finishClunk, hfalse]
    refine hl.set hr ho ⟨fun h => h, rfl, fun _ _ => rfl, fun _ => hkey, fun j hj => count_erase_of_ne hj, rfl,
      hl.held r hmem, hnokey, hl.fresh o hobj, hl.stored o hobj, fun _ hrel => ?_, fun _ _ _ _ _ => rfl⟩
    obtain ⟨hsettled, htally⟩ := hmine hrel
    have htaken := (settled_eq_zero.1 hsettled).1
    simp only [Obj.settled, htaken, htally, Holds.after, count_erase_self]
    simp [hzero]
    omega

end

/-- A fid state that `handleClunk` finds to be an xattr-write fid has no handle to be released. -/
def xattrFree (s : State ν) : Cmd ν → Bool
  | .takeXattr fs => (s.objs[fs]?).all fun o => o.state ≠ .xattrWrite ∨ !o.releases
  | _ => true

theorem takeXattr_ledger {x : Option (Xattr ν)} (hl : Ledger s rs) (hr : rs[t]? = some r) (hfs : fs ∈ r.duty)
    (hC : xattrFree s (.takeXattr fs) = true) (h : s.exec cfg conn (.takeXattr fs) = some (x, s')) :
    Ledger s' (rs.set t (r.after (.takeXattr fs) x)) := by
  obtain ⟨o, ho, rfl, rfl⟩ := onObj_some h
  have hmem := mem_of_getElem? hr
  have hobj := mem_of_getElem? ho
  have hkey := (hl.my_duty hr hfs ho).1
  unfold Obj.takeXattr
  split
  · have hrel : o.releases = false := by simpa [xattrFree, ho, ‹o.state = .xattrWrite›] using hC
    have hafter : ∃ duty, r.after (.takeXattr fs) o.xattr = { r with duty := duty } ∧
        ∀ j, j ≠ fs → duty.count j = r.duty.count j := by
      cases o.xattr with
      | none => exact ⟨_, rfl, fun _ _ => rfl⟩
      | some x => exact ⟨_, rfl, fun j hj => count_erase_of_ne hj⟩
    obtain ⟨duty, hafter, helse⟩ := hafter
    simp only [hafter]
    refine hl.set hr ho ⟨fun h => h, rfl, fun _ _ => rfl, fun _ => hkey, helse, rfl, hl.held r hmem, fun h => ?_,
      hl.fresh o hobj, hl.stored o hobj, fun _ h => ?_, fun _ _ _ _ _ => rfl⟩
    · rw [show o.key = none from hkey] at h
      cases h
    · rw [show o.releases = true from h] at hrel
      cases hrel
  · exact hl.keep ho rfl rfl rfl rfl rfl id hr

omit [DecidableEq ν] in
theorem release_ledger (hl : Ledger s rs) (hr : rs[t]? = some r) (hrel : h.releases = true) (hheld : h ∈ r.held) :
    Ledger { s with released := h.id :: s.released } (rs.set t (r.put h)) := by
  have hmem := mem_of_getElem? hr
  have hput : r.put h = { r with held := r.held.erase h } := if_pos hrel
  have hq {P : Holds ν → Prop} (h₁ : ∀ q ∈ rs, P q) (h₂ : P r → P (r.put h)) : ∀ q ∈ rs.set t (r.put h), P q :=
    forall_mem_set h₁ (h₂ (h₁ r hmem))
  refine ⟨fun i o ho => ?_, hq hl.begun ?_, hq hl.duty ?_, hq hl.opened ?_, hq hl.held ?_, hl.table, hl.fresh, hl.stored,
    fun i o ho hkey hrel => ?_, fun i hi => ?_, fun i n ifaces hi hifaces => ?_⟩
  · rw [tally_same hr (by rw [hput])]
    exact hl.io i o ho
  · rw [hput]; exact id
  · rw [hput]; exact id
  · rw [hput]; exact id
  · rw [hput]
    exact fun h' i hi => h' i (mem_of_mem_erase hi)
  · rw [tally_same hr (by rw [hput])]
    exact hl.out i o ho hkey hrel
  · rcases mem_cons.1 hi with rfl | hi
    · obtain ⟨n, hn⟩ := hl.held r hmem h hheld
      exact getElem?_lt hn
    · exact hl.released i hi
  · have hset := tally_set (fun r => r.held.countP (·.id == i)) (r.put h) hr
    have hplace := hl.place i n ifaces hi hifaces
    have hcount := countP_put (fun _ => hheld) i
    simp only [hrel, true_and] at hcount
    simp only [count_cons, beq_iff_eq]
    split at hcount
    · rw [if_pos ‹_›]
      omega
    · rw [if_neg ‹_›]
      omega

omit [DecidableEq ν] in
theorem open_ledger (hl : Ledger s rs) (hr : rs[t]? = some r) (hobjs : s'.objs = s.objs)
    (hreleased : s'.released = s.released) (hopens : s'.opens = s.opens ++ [(n, ifaces)]) :
    Ledger s' (rs.set t (Holds.take { r with opened := (n, ⟨s.opens.length, ifaces⟩) :: r.opened }
      ⟨s.opens.length, ifaces⟩)) := by
  have hmem := mem_of_getElem? hr
  have hnew : s'.opens[s.opens.length]? = some (n, ifaces) := by simp [hopens]
  have hold {i : Nat} {p : ν × List FileIface} (h : s.opens[i]? = some p) : s'.opens[i]? = some p := by
    rwa [hopens, getElem?_append_left (getElem?_lt h)]
  have hopened {h : Handle} (hh : s.Opened h) : s'.Opened h := hh.imp fun _ => hold
  have hother {h : Handle} (hh : s.Opened h) : h.id ≠ s.opens.length := by
    obtain ⟨n', hn'⟩ := hh
    exact Nat.ne_of_lt (getElem?_lt hn')
  generalize hr' : Holds.take { r with opened := (n, ⟨s.opens.length, ifaces⟩) :: r.opened }
    ⟨s.opens.length, ifaces⟩ = r'
  have hkeep : r'.io = r.io ∧ r'.duty = r.duty ∧ r'.opened = (n, ⟨s.opens.length, ifaces⟩) :: r.opened ∧
      ∀ h ∈ r'.held, h ∈ r.held ∨ h = ⟨s.opens.length, ifaces⟩ := by
    subst hr'
    unfold Holds.take
    split
    · exact ⟨rfl, rfl, rfl, fun h hh => (mem_cons.1 hh).symm⟩
    · exact ⟨rfl, rfl, rfl, fun h hh => .inl hh⟩
  obtain ⟨hio, hduty, hop, hheld⟩ := hkeep
  have hq {P : Holds ν → Prop} (h₁ : ∀ q ∈ rs, P q) (h₂ : P r → P r') : ∀ q ∈ rs.set t r', P q :=
    forall_mem_set h₁ (h₂ (h₁ r hmem))
  refine ⟨fun i o ho => ?_, hq (by rw [hobjs]; exact hl.begun) (by rw [hio]; exact id),
    hq (by rw [hobjs]; exact hl.duty) (by rw [hduty]; exact id), hq (fun q hq p hp => hold (hl.opened q hq p hp)) ?_,
    hq (fun q hq h hh => hopened (hl.held q hq h hh)) fun h' h hh => ?_, by rw [hobjs]; exact hl.table,
    by rw [hobjs]; exact hl.fresh, ?_, fun i o ho hkey hrel => ?_, fun i hi => ?_, fun i n' ifaces' hi hrel => ?_⟩
  · rw [tally_same hr (by rw [hio])]
    exact hl.io i o (hobjs ▸ ho)
  · rw [hop]
    intro h p hp
    rcases mem_cons.1 hp with rfl | hp
    · exact hnew
    · exact h p hp
  · rcases hheld h hh with hh | rfl
    · exact h' h hh
    · exact ⟨n, hnew⟩
  · rw [hobjs]
    exact fun o ho h hh => hopened (hl.stored o ho h hh)
  · rw [tally_same hr (by rw [hduty])]
    exact hl.out i o (hobjs ▸ ho) hkey hrel
  · rw [hreleased] at hi
    rw [hopens, length_append]
    exact Nat.lt_add_right _ (hl.released i hi)
  · have hset := tally_set (fun r => r.held.countP (·.id == i)) r' hr
    have hcount : r'.held.countP (·.id == i) = r.held.countP (·.id == i) +
        if Handle.releases ⟨s.opens.length, ifaces⟩ = true ∧ s.opens.length = i then 1 else 0 := by
      rw [← hr', countP_take]
    rw [hobjs, hreleased]
    rcases lt_or_ge i s.opens.length with hlt | hge
    · rw [hopens, getElem?_append_left hlt] at hi
      have hplace := hl.place i n' ifaces' hi hrel
      rw [if_neg (by omega)] at hcount
      omega
    · -- the new handle is in hand and nowhere else
      obtain rfl : i = s.opens.length := by
        have hlt := getElem?_lt hi
        rw [hopens, length_append, length_singleton] at hlt
        omega
      obtain ⟨-, rfl⟩ := Prod.mk.inj (mem_unique hi hnew)
      have hreleases : Handle.releases ⟨s.opens.length, ifaces'⟩ = true := by
        simpa [Handle.releases, Handle.implements] using hrel
      have h₁ : s.released.count s.opens.length = 0 :=
        count_eq_zero.2 fun h => Nat.lt_irrefl _ (hl.released _ h)
      have h₂ : tally (fun r => r.held.countP (·.id == s.opens.length)) rs = 0 :=
        tally_eq_zero fun q hq => countP_eq_zero.2 fun h hh => by simpa using hother (hl.held q hq h hh)
      have h₃ : s.objs.countP (·.stores s.opens.length) = 0 := by
        refine countP_eq_zero.2 fun o ho => ?_
        cases hhandle : o.handle with
        | none => simp [Obj.stores, hhandle]
        | some h => simp [Obj.stores, hhandle, hother (hl.stored o ho h hhandle)]
      rw [if_pos ⟨hreleases, rfl⟩] at hcount
      omega

omit [DecidableEq ν] in
theorem call_ledger {n : Option ν} {x : m.Out} (hl : Ledger s rs) (hr : rs[t]? = some r)
    (h : s.accept n m v = some (x, s')) : Ledger s' (rs.set t (r.after (.call n m) (.ok x))) := by
  rcases accept_cases h r with ⟨n', ifaces, hobjs, hreleased, hopens, hafter⟩ | ⟨hopens, hafter⟩
  · rw [hafter]
    exact open_ledger hl hr hobjs hreleased hopens
  · have hsame := accept_sameFids h
    rw [hafter]
    exact (hl.congr hsame.objs hopens hsame.released).idle hr

omit [DecidableEq ν] in
theorem nodup_fidsOf (s : State ν) (conn : Nat) : (s.fidsOf conn).Nodup := nodup_range.filter _

omit [DecidableEq ν] in
theorem collect_ledger (hl : Ledger s rs) (hr : rs[t]? = some r)
    (horder : order.Perm (s.fidsOf conn)) :
    Ledger (s.removeAll conn) (rs.set t { r with duty := order ++ r.duty }) := by
  have hmem := mem_of_getElem? hr
  have hget {i : Nat} {o' : Obj ν} (ho' : (s.removeAll conn).objs[i]? = some o') : ∃ o, s.objs[i]? = some o ∧
      o' = if o.isOf conn then { o with key := none } else o := by
    rw [State.removeAll, getElem?_map] at ho'
    obtain ⟨o, ho, rfl⟩ := map_eq_some_iff.1 ho'
    exact ⟨o, ho, rfl⟩
  have hset {i : Nat} {o : Obj ν} (ho : s.objs[i]? = some o) :
      (s.removeAll conn).objs[i]? = some (if o.isOf conn then { o with key := none } else o) := by
    rw [State.removeAll, getElem?_map, ho, map_some]
  have hmap {P : Obj ν → Prop} (hP : ∀ o ∈ s.objs, P (if o.isOf conn then { o with key := none } else o)) :
      ∀ o ∈ (s.removeAll conn).objs, P o := by
    intro o' ho'
    obtain ⟨o, ho, rfl⟩ := mem_map.1 ho'
    exact hP o ho
  have hq {P : Holds ν → Prop} (h₁ : ∀ q ∈ rs, P q) (h₂ : P r → P { r with duty := order ++ r.duty }) :
      ∀ q ∈ rs.set t { r with duty := order ++ r.duty }, P q :=
    forall_mem_set h₁ (h₂ (h₁ r hmem))
  refine ⟨fun i o' ho' => ?_, hq (by simpa [State.removeAll] using hl.begun) id, hq (fun q hq i hi => ?_) fun h i hi => ?_,
    hq hl.opened id, hq hl.held id, hmap fun o ho hkey => ?_, hmap fun o ho hstate => ?_, hmap fun o ho h hh => ?_,
    fun i o' ho' hkey hrel => ?_, hl.released, fun i n ifaces hi hrel => ?_⟩
  · obtain ⟨o, ho, rfl⟩ := hget ho'
    rw [tally_same hr (by rfl)]
    split
    · exact hl.io i o ho
    · exact hl.io i o ho
  · obtain ⟨o, ho, hkey⟩ := hl.duty q hq i hi
    exact ⟨_, hset ho, by split <;> [rfl; exact hkey]⟩
  · rcases mem_append.1 hi with hi | hi
    · obtain ⟨o, ho, hof⟩ := mem_fidsOf.1 (horder.mem_iff.1 hi)
      exact ⟨_, hset ho, by rw [if_pos hof]⟩
    · exact h i hi
  · split at hkey
    · cases hkey
    · rw [if_neg ‹_›]
      exact hl.table o ho hkey
  · split at hstate
    · rw [if_pos ‹_›]
      exact hl.fresh o ho hstate
    · rw [if_neg ‹_›]
      exact hl.fresh o ho hstate
  · split at hh
    · exact hl.stored o ho h hh
    · exact hl.stored o ho h hh
  · obtain ⟨o, ho, rfl⟩ := hget ho'
    have hset := tally_set (fun r => r.duty.count i) { r with duty := order ++ r.duty } hr
    have hcount := horder.count_eq i
    simp only [count_append] at hset
    by_cases hof : o.isOf conn = true
    · have hsome : o.key.isSome = true := isSome_of_any hof
      have hone : (s.fidsOf conn).count i = 1 :=
        count_eq_one_of_mem (nodup_fidsOf s conn) (mem_fidsOf.2 ⟨o, ho, hof⟩)
      have hduty := hl.no_duty ho hsome
      obtain ⟨hclosing, htaken⟩ := hl.table o (mem_of_getElem? ho) hsome
      rw [if_pos hof]
      simp only [Obj.settled, hclosing, htaken]
      simp
      omega
    · have hzero : (s.fidsOf conn).count i = 0 := by
        refine count_eq_zero.2 fun hi => ?_
        obtain ⟨o₁, ho₁, hof₁⟩ := mem_fidsOf.1 hi
        obtain rfl := mem_unique ho ho₁
        exact hof hof₁
      rw [if_neg hof] at hkey hrel ⊢
      have hout := hl.out i o ho hkey hrel
      omega
  · have hobjs : (s.removeAll conn).objs.countP (·.stores i) = s.objs.countP (·.stores i) := by
      rw [State.removeAll, countP_map]
      refine countP_congr fun o _ => ?_
      simp only [Function.comp_apply]
      split <;> rfl
    rw [hobjs, tally_same hr (by rfl)]
    exact hl.place i n ifaces hi hrel

theorem Does.ledger {c : Cmd ν} {x : c.Res} (h : Does cfg s conn c x s') (hl : Ledger s rs) (hr : rs[t]? = some r)
    (hpre : handleRules.pre c r) (hC : xattrFree s c = true) : Ledger s' (rs.set t (r.after c x)) := by
  cases h with
  | @fail n m e hm => cases n <;> cases m <;> exact hl.idle hr
  | call v h => exact call_ledger hl hr h
  | collect h => exact collect_ledger hl hr h
  | exec h =>
    cases c with
    | get | msize | incRef | decRef | refs | close =>
      cases h
      exact Ledger.congr (hl.idle hr) rfl rfl rfl
    | add fid node state => exact add_ledger hl hr h
    | clunk fid => exact clunk_ledger hl hr h
    | update fid node => exact update_ledger hl hr h
    | markOpenedWithHandle fid handle => exact markOpenedWithHandle_ledger hl hr hpre h
    | updateAndOpen fid node handle => exact updateAndOpen_ledger hl hr hpre h
    | currentState | currentNode | handle | dirStore =>
      exact onObj_ledger hl hr h fun _ _ => ⟨rfl, rfl, rfl, rfl, rfl, id⟩
    | setXattrWrite => exact onObj_ledger hl hr h fun _ _ => ⟨rfl, rfl, rfl, rfl, rfl, by simp⟩
    | appendXattr fs data =>
      refine onObj_ledger hl hr h fun o _ => ?_
      obtain ⟨x, hx⟩ := appendXattr_eq o data
      rw [hx]
      exact ⟨rfl, rfl, rfl, rfl, rfl, id⟩
    | dirStale fs offset =>
      refine onObj_ledger hl hr h fun o _ => ?_
      split <;> exact ⟨rfl, rfl, rfl, rfl, rfl, id⟩
    | takeHandle fs => exact takeHandle_ledger hl hr hpre h
    | beginIo fs => exact beginIo_ledger hl hr h
    | endIo fs => exact endIo_ledger hl hr hpre h
    | finishClunk fs closeNode => exact finishClunk_ledger hl hr hpre h
    | takeXattr fs => exact takeXattr_ledger hl hr hpre hC h
    | release handle =>
      cases h
      exact release_ledger hl hr hpre.1 hpre.2
    | clunkAll | call => cases h

end Commands

end NineP.Server.Handlers
