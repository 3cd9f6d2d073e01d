import NineP.Server.MemFs

/-!
# The order of concurrent requests on an in-memory file system

A request takes effect at its `TryAddChild` or `RemoveChildIf`, or where it fails.  What it does to the tree after that
does nothing if the entry is still as the request left it.
-/

namespace NineP.Server.MemFs

open Codec Proto Dispatch Linearize List Function Option

/-! ## The condition -/

/-- A request that rebinds or clunks its fid. -/
def Op.solo : Op → Bool
  | .tlcreate _ _ | .tremove _ => true
  | _ => false

/-- The tree is as the request left it, or as it read it. -/
def Settled (t : Tree Kind) : Pc → Prop
  | .lcRegister name p i | .mkRegister name p i => t.child p name = some i ∧ t.parent i = some p
  | .ulRemove name p | .rmRemove name p => t.child p name = none
  | .rmChildren _ i p => t.parent i = some p
  | .rmUnlink _ i p name => t.parent i = some p ∧ t.child p name = some i
  | _ => True

instance Settled.decidable (t : Tree Kind) (pc : Pc) : Decidable (Settled t pc) := by
  cases pc <;> unfold Settled <;> infer_instance

/-- Two requests that may be served at the same time. -/
def Apart (op op' : Op) : Prop := op.key = op'.key → op.solo = false ∧ op'.solo = false

instance Apart.decidable (op op' : Op) : Decidable (Apart op op') :=
  inferInstanceAs (Decidable (op.key = op'.key → _))

/-- The condition on the steps of a run. -/
def Careful (s : State) : Label → Prop
  | .call op => ∀ t ∈ s.threads, answer t.pc = none → Apart t.op op
  | .step i _ => ∀ t ∈ s.threads[i]?, Settled s.shared.tree t.pc

instance Careful.decidable (s : State) (l : Label) : Decidable (Careful s l) := by
  cases l with
  | call op => exact inferInstanceAs (Decidable (∀ t ∈ s.threads, answer t.pc = none → Apart t.op op))
  | step i c => exact inferInstanceAs (Decidable (∀ t ∈ s.threads[i]?, Settled s.shared.tree t.pc))

/-! ## The simulation -/

/-- The answer of a request that has taken effect. -/
def lin : Pc → Option Answer
  | .lcOpen _ _ _ _ | .lcRegister _ _ _ | .mkAgain _ _ _ | .mkRegister _ _ _ | .ulAgain _ _ | .ulRemove _ _
  | .rmRemove _ _ => some (.ok ())
  | .done r => some r
  | _ => none

/-- The fid that is not yet as the request makes it, or is so already. -/
def ahead : Pc → Option Key
  | .lcOpen key _ _ _ | .rmNode key | .rmParent key _ | .rmChildren key _ _ | .rmUnlink key _ _ _ => some key
  | _ => none

/-- What a request of node `i` knows once it has clunked the fid: in the order it has not yet done so. -/
def Clunked (fs fs' : FidObj) : Prop := fs.bound = false ∧ fs' = { fs with bound := true }

/-- What a request at `pc` knows of its fid: `fs` in the run and `fs'` in the order. -/
def Known (op : Op) (fs fs' : FidObj) : Pc → Prop
  | .lcGet key name => op = .tlcreate key name
  | .lcState key name => op = .tlcreate key name ∧ fs.bound = true
  | .lcNode key name =>
    op = .tlcreate key name ∧ fs.bound = true ∧ fs.state = .allocated ∧ validName name = true
  | .lcCreate key name p => op = .tlcreate key name ∧ fs = ⟨p, .allocated, true⟩ ∧ validName name = true
  | .lcOpen key name p i => op = .tlcreate key name ∧ fs = ⟨p, .allocated, true⟩ ∧ fs' = ⟨i, .opened, true⟩
  | .mkGet key name => op = .tmkdir key name
  | .mkNode key name => op = .tmkdir key name ∧ fs.bound = true ∧ validName name = true
  | .mkCreate key name p => op = .tmkdir key name ∧ fs.bound = true ∧ validName name = true ∧ fs.node = p
  | .ulGet key name flags => op = .tunlinkat key name flags
  | .ulNode key name flags => op = .tunlinkat key name flags ∧ fs.bound = true ∧ validName name = true
  | .ulUnlink key name flags p =>
    op = .tunlinkat key name flags ∧ fs.bound = true ∧ validName name = true ∧ fs.node = p
  | .rmClunk key => op = .tremove key
  | .rmNode key => op = .tremove key ∧ Clunked fs fs'
  | .rmParent key i | .rmChildren key i _ => op = .tremove key ∧ Clunked fs fs' ∧ fs.node = i
  | .rmUnlink key i _ name => op = .tremove key ∧ Clunked fs fs' ∧ fs.node = i ∧ name ≠ []
  | _ => True

theorem solo_of_ahead {op : Op} (h : Known op fs fs' pc)
    (hahead : ahead pc = some key) : op.key = key ∧ op.solo = true ∧ answer pc = none := by
  cases pc <;> simp only [ahead, reduceCtorEq, Option.some.injEq] at hahead
  all_goals
    subst hahead
    obtain ⟨rfl, -⟩ := h
    exact ⟨rfl, rfl, rfl⟩

theorem known_of_answer (h : answer pc ≠ none) : Known op fs fs' pc := by
  cases pc
  case done => trivial
  all_goals exact absurd rfl h

/-- The states of a run and the state `a` that the order has come to. -/
structure Sim (s : State) (a : Shared) : Prop where
  tree : a.tree = s.shared.tree
  fids : ∀ key, (∀ t ∈ s.threads, ahead t.pc ≠ some key) → a.fids key = s.shared.fids key
  known : ∀ t ∈ s.threads, Known t.op (s.shared.fids t.op.key) (a.fids t.op.key) t.pc
  apart : ∀ (i j : Nat) (t u : Thread), i ≠ j → s.threads[i]? = some t → s.threads[j]? = some u → answer t.pc = none →
    answer u.pc = none → Apart t.op u.op

section Sim

variable {s : State} {a : Shared} {i : Nat} {t : Thread}

theorem Sim.fid_eq (h : Sim s a) (ht : s.threads[i]? = some t) (hact : answer t.pc = none) (hahead : ahead t.pc = none) :
    a.fids t.op.key = s.shared.fids t.op.key := by
  refine h.fids _ fun u hu hu' => ?_
  obtain ⟨hkey, hsolo, hact'⟩ := solo_of_ahead (h.known u hu) hu'
  obtain ⟨j, hj⟩ := mem_iff_getElem?.1 hu
  have hij : i ≠ j := by
    rintro rfl
    obtain rfl := mem_unique ht hj
    rw [hahead] at hu'
    cases hu'
  have := (h.apart i j t u hij ht hj hact hact' hkey.symm).2
  rw [hsolo] at this
  cases this

theorem sim_init (x : Shared) : Sim (init x) x where
  tree := rfl
  fids _ _ := rfl
  known t ht := by cases ht
  apart i j t u _ ht := by cases ht

theorem Sim.call (h : Sim s a) (hcare : Careful s (.call op)) : Sim (machine.call s op) a where
  tree := h.tree
  fids key hkey := h.fids key fun t ht => hkey t (mem_append_left _ ht)
  known t ht := by
    obtain ht | ht := mem_append.1 ht
    · exact h.known t ht
    · obtain rfl := mem_singleton.1 ht
      cases op <;> rfl
  apart i j t u hij ht hu hact hact' := by
    have hcare' {t : Thread} (ht : t ∈ s.threads) (hact : answer t.pc = none) : Apart t.op op := hcare t ht hact
    obtain ht | ⟨rfl, rfl⟩ := Transition.getElem?_concat_cases ht <;>
      obtain hu | ⟨rfl, rfl⟩ := Transition.getElem?_concat_cases hu
    · exact h.apart i j t u hij ht hu hact hact'
    · exact hcare' (mem_of_getElem? ht) hact
    · exact fun hkey => (hcare' (mem_of_getElem? hu) hact' hkey.symm).symm
    · exact absurd rfl hij

/-- **A step of one request.**  It changes the tree in the run as in the order, and no fid but its own, and this only if
it has the fid for itself. -/
theorem Sim.set (h : Sim s a) (ht : s.threads[i]? = some t) (hact : answer t.pc = none) (tree : Tree Kind)
    (fs : FidObj) (hfs : t.op.solo = false → fs = s.shared.fids t.op.key)
    (hfs' : t.op.solo = false → fs' = a.fids t.op.key) (heq : ahead pc ≠ some t.op.key → fs' = fs)
    (hknown : Known t.op fs fs' pc) :
    Sim ⟨⟨tree, Function.update s.shared.fids t.op.key fs⟩, s.threads.set i { t with pc }⟩
      ⟨tree, Function.update a.fids t.op.key fs'⟩ where
  tree := rfl
  fids key hkey := by
    have hlen : i < s.threads.length := Transition.getElem?_lt ht
    have hpc : ahead pc ≠ some key := hkey _ (mem_set hlen _)
    show Function.update a.fids t.op.key fs' key = Function.update s.shared.fids t.op.key fs key
    by_cases hk : key = t.op.key
    · subst hk
      rw [update_self, update_self]
      exact heq hpc
    · rw [update_of_ne hk, update_of_ne hk]
      refine h.fids key fun u hu hu' => ?_
      obtain ⟨j, hj⟩ := mem_iff_getElem?.1 hu
      by_cases hij : i = j
      · subst hij
        obtain rfl := mem_unique ht hj
        exact hk (solo_of_ahead (h.known t hu) hu').1.symm
      · have hu'' : u ∈ s.threads.set i { t with pc } :=
          mem_of_getElem? (i := j) (by rw [getElem?_set_ne hij, hj])
        exact hkey u hu'' hu'
  known u hu := by
    obtain ⟨j, hj⟩ := mem_iff_getElem?.1 hu
    show Known u.op (Function.update s.shared.fids t.op.key fs u.op.key) (Function.update a.fids t.op.key fs' u.op.key) u.pc
    obtain ⟨rfl, rfl⟩ | ⟨hij, hj⟩ := Transition.getElem?_set_cases hj
    · rw [update_self, update_self]
      exact hknown
    · have hold := h.known u (mem_of_getElem? hj)
      by_cases hk : u.op.key = t.op.key
      · by_cases hact' : answer u.pc = none
        · have hsolo := (h.apart i j t u (Ne.symm hij) ht hj hact hact' hk.symm).1
          rw [hk, update_self, update_self, hfs hsolo, hfs' hsolo, ← hk]
          exact hold
        · exact known_of_answer hact'
      · rw [update_of_ne hk, update_of_ne hk]
        exact hold
  apart j k u v hjk hu hv hact hact' := by
    have hold {j : Nat} {u : Thread} (hu : (s.threads.set i { t with pc })[j]? = some u) (hact' : answer u.pc = none) :
        ∃ u₀, s.threads[j]? = some u₀ ∧ answer u₀.pc = none ∧ u₀.op = u.op := by
      obtain ⟨rfl, rfl⟩ | ⟨-, hu⟩ := Transition.getElem?_set_cases hu
      · exact ⟨t, ht, ‹_›, rfl⟩
      · exact ⟨u, hu, hact', rfl⟩
    obtain ⟨u₀, hu₀, hactu, hopu⟩ := hold hu hact
    obtain ⟨v₀, hv₀, hactv, hopv⟩ := hold hv hact'
    rw [← hopu, ← hopv]
    exact h.apart j k u₀ v₀ hjk hu₀ hv₀ hactu hactv

end Sim

/-! ## The steps -/

/-- A step takes effect, or leaves the order as it is. -/
def Simulated (s : State) (a : Shared) (i : Nat) (t : Thread) (c : Nat) : Prop :=
  lin (advance t.pc c s.shared).1 = lin t.pc ∧ Sim (machine.move s i t c) a ∨
    lin t.pc = none ∧ ∃ c' r a', exec c' t.op a = some (r, a') ∧ lin (advance t.pc c s.shared).1 = some r ∧
      Sim (machine.move s i t c) a'

section Steps

variable {s : State} {a : Shared} {i c : Nat} {t : Thread}

theorem move_eq (hadv : advance t.pc c s.shared = (pc, x)) :
    machine.move s i t c = ⟨x, s.threads.set i { t with pc }⟩ := by
  show (⟨(advance t.pc c s.shared).2, s.threads.set i { t with pc := (advance t.pc c s.shared).1 }⟩ : State) = _
  rw [hadv]

section

variable (h : Sim s a) (ht : s.threads[i]? = some t) (hact : answer t.pc = none)
include h ht hact

theorem Sim.keeps (pc : Pc) (fs : FidObj)
    (hadv : advance t.pc c s.shared = (pc, ⟨s.shared.tree, Function.update s.shared.fids t.op.key fs⟩))
    (hlin : lin pc = lin t.pc) (hfs : t.op.solo = false → fs = s.shared.fids t.op.key)
    (heq : ahead pc ≠ some t.op.key → a.fids t.op.key = fs) (hknown : Known t.op fs (a.fids t.op.key) pc) :
    Simulated s a i t c := by
  refine .inl ⟨by rw [hadv, hlin], ?_⟩
  have hsim := h.set ht hact s.shared.tree fs hfs (fun _ => rfl) heq hknown
  rw [move_eq hadv, ← h.tree]
  rwa [update_eq_self, ← h.tree] at hsim

theorem Sim.goes (pc : Pc) (hadv : advance t.pc c s.shared = (pc, s.shared)) (hlin : lin pc = lin t.pc)
    (heq : ahead pc ≠ some t.op.key → a.fids t.op.key = s.shared.fids t.op.key)
    (hknown : Known t.op (s.shared.fids t.op.key) (a.fids t.op.key) pc) : Simulated s a i t c := by
  refine h.keeps ht hact pc (s.shared.fids t.op.key) ?_ hlin (fun _ => rfl) heq hknown
  rw [update_eq_self, hadv]

theorem Sim.lands (hlin : lin t.pc = none) (pc : Pc) (tree : Tree Kind) (fs' : FidObj) (c' : Nat)
    (hadv : advance t.pc c s.shared = (pc, { s.shared with tree }))
    (heff : effect c' s.shared.tree (a.fids t.op.key) t.op = (r, tree, fs')) (hpc : lin pc = some r)
    (hfs' : t.op.solo = false → fs' = a.fids t.op.key) (heq : ahead pc ≠ some t.op.key → fs' = s.shared.fids t.op.key)
    (hknown : Known t.op (s.shared.fids t.op.key) fs' pc) : Simulated s a i t c := by
  refine .inr ⟨hlin, c', r, ⟨tree, Function.update a.fids t.op.key fs'⟩, ?_, by rw [hadv, hpc], ?_⟩
  · rw [exec_eq, h.tree, heff]
    rfl
  · have hsim := h.set ht hact tree (s.shared.fids t.op.key) (fun _ => rfl) hfs' heq hknown
    rw [move_eq hadv]
    rwa [update_eq_self] at hsim

theorem Sim.fails (hlin : lin t.pc = none) (hahead : ahead t.pc = none)
    (hadv : advance t.pc c s.shared = (.fail e, s.shared))
    (heff : effect c s.shared.tree (s.shared.fids t.op.key) t.op =
      (.error e, s.shared.tree, s.shared.fids t.op.key)) : Simulated s a i t c := by
  have hfid := h.fid_eq ht hact hahead
  refine h.lands ht hact hlin (.fail e) s.shared.tree (s.shared.fids t.op.key) c hadv ?_ rfl (fun _ => hfid.symm) (fun _ => rfl)
    trivial
  rw [hfid, heff]

theorem Sim.removeFails (hlin : lin t.pc = none) (hop : t.op = .tremove key)
    (hcl : Clunked (s.shared.fids t.op.key) (a.fids t.op.key)) (c' : Nat)
    (hadv : advance t.pc c s.shared = (.fail e, s.shared))
    (hrm : removed c' s.shared.tree (s.shared.fids t.op.key).node = .error e) : Simulated s a i t c := by
  refine h.lands ht hact hlin (.fail e) s.shared.tree (s.shared.fids t.op.key) c' hadv ?_ rfl (by simp [hop, Op.solo])
    (fun _ => rfl) trivial
  obtain ⟨hbound, hfs'⟩ := hcl
  rw [hfs', hop]
  rw [hop] at hbound hrm
  simp only [effect, if_true, hrm]
  rw [← hbound]

end

end Steps

section Handlers

variable {s : State} {a : Shared} {i c : Nat} {key : Key} {name : Bytes} {p j : Ptr}

/-- The steps of an operation at one place. -/
def Simulates (s : State) (a : Shared) (i c : Nat) (op : Op) (pc : Pc) : Prop :=
  ∀ before, s.threads[i]? = some ⟨op, pc, before⟩ → Simulated s a i ⟨op, pc, before⟩ c

section

variable (h : Sim s a)
include h

/-! ### Tlcreate -/

theorem simulated_lcState (hbound : (s.shared.fids key).bound = true) :
    Simulates s a i c (.tlcreate key name) (.lcState key name) := by
  intro before ht
  by_cases hstate : (s.shared.fids key).state = .allocated
  · by_cases hname : validName name = true
    · refine h.goes ht rfl (.lcNode key name) ?_ rfl (fun _ => h.fid_eq ht rfl rfl) ⟨rfl, hbound, hstate, hname⟩
      simp [advance, hstate, hname]
    · refine h.fails ht rfl rfl rfl (e := EINVAL) (by simp [advance, hstate, hname]) ?_
      simp [effect, Op.key, hbound, hstate, hname]
  · refine h.fails ht rfl rfl rfl (e := EBADF) (by simp [advance, hstate]) ?_
    simp [effect, Op.key, hbound, hstate]

theorem simulated_lcCreate (hfs : s.shared.fids key = ⟨p, .allocated, true⟩) (hname : validName name = true) :
    Simulates s a i c (.tlcreate key name) (.lcCreate key name p) := by
  intro before ht
  have hfid : a.fids key = ⟨p, .allocated, true⟩ := (h.fid_eq ht rfl rfl).trans hfs
  cases hcreate : create s.shared.tree p .file name with
  | error e =>
    refine h.fails ht rfl rfl rfl (e := e) (by simp [advance, hcreate]) ?_
    simp [effect, Op.key, hfs, hname, hcreate]
  | ok r =>
    obtain ⟨j, tree⟩ := r
    refine h.lands ht rfl rfl (.lcOpen key name p j) tree ⟨j, .opened, true⟩ c
      (by simp [advance, hcreate]) ?_ rfl (fun hsolo => by cases hsolo) (fun hne => absurd rfl hne) ⟨rfl, hfs, rfl⟩
    simp [effect, Op.key, hfid, hname, hcreate]

theorem simulated_lcOpen (hfs : s.shared.fids key = ⟨p, .allocated, true⟩) (hfs' : a.fids key = ⟨j, .opened, true⟩) :
    Simulates s a i c (.tlcreate key name) (.lcOpen key name p j) := by
  intro before ht
  refine h.keeps ht rfl (.lcRegister name p j) ⟨j, .opened, true⟩ ?_ rfl (fun hsolo => by cases hsolo)
    (fun _ => hfs') trivial
  simp [advance, Shared.updateAndOpen, hfs, Shared.setFid, Op.key]

/-! ### Tmkdir and Tunlinkat -/

theorem simulated_mkGet : Simulates s a i c (.tmkdir key name) (.mkGet key name) := by
  intro before ht
  by_cases hbound : (s.shared.fids key).bound = true
  · by_cases hname : validName name = true
    · refine h.goes ht rfl (.mkNode key name) ?_ rfl (fun _ => h.fid_eq ht rfl rfl) ⟨rfl, hbound, hname⟩
      simp [advance, hbound, hname]
    · refine h.fails ht rfl rfl rfl (e := EINVAL) (by simp [advance, hbound, hname]) ?_
      simp [effect, Op.key, hbound, hname]
  · refine h.fails ht rfl rfl rfl (e := EBADF) (by simp [advance, hbound]) ?_
    simp [effect, Op.key, hbound]

theorem simulated_mkCreate (hbound : (s.shared.fids key).bound = true) (hname : validName name = true)
    (hnode : (s.shared.fids key).node = p) : Simulates s a i c (.tmkdir key name) (.mkCreate key name p) := by
  intro before ht
  have hfid : a.fids key = s.shared.fids key := h.fid_eq ht rfl rfl
  cases hcreate : create s.shared.tree p .dir name with
  | error e =>
    refine h.fails ht rfl rfl rfl (e := e) (by simp [advance, hcreate]) ?_
    simp [effect, Op.key, hbound, hnode, hname, hcreate]
  | ok r =>
    obtain ⟨j, tree⟩ := r
    refine h.lands ht rfl rfl (.mkAgain key name j) tree (s.shared.fids key) c
      (by simp [advance, hcreate]) ?_ rfl (fun _ => hfid.symm) (fun _ => rfl) trivial
    simp [effect, Op.key, hfid, hbound, hnode, hname, hcreate]

theorem simulated_ulGet : Simulates s a i c (.tunlinkat key name flags) (.ulGet key name flags) := by
  intro before ht
  by_cases hbound : (s.shared.fids key).bound = true
  · by_cases hname : validName name = true
    · refine h.goes ht rfl (.ulNode key name flags) ?_ rfl (fun _ => h.fid_eq ht rfl rfl) ⟨rfl, hbound, hname⟩
      simp [advance, hbound, hname]
    · refine h.fails ht rfl rfl rfl (e := EINVAL) (by simp [advance, hbound, hname]) ?_
      simp [effect, Op.key, hbound, hname]
  · refine h.fails ht rfl rfl rfl (e := EBADF) (by simp [advance, hbound]) ?_
    simp [effect, Op.key, hbound]

theorem simulated_ulUnlink (hbound : (s.shared.fids key).bound = true) (hname : validName name = true)
    (hnode : (s.shared.fids key).node = p) :
    Simulates s a i c (.tunlinkat key name flags) (.ulUnlink key name flags p) := by
  intro before ht
  have hfid : a.fids key = s.shared.fids key := h.fid_eq ht rfl rfl
  cases hunlink : unlink s.shared.tree p name flags with
  | error e =>
    refine h.fails ht rfl rfl rfl (e := e) (by simp [advance, hunlink]) ?_
    simp [effect, Op.key, hbound, hnode, hname, hunlink]
  | ok tree =>
    refine h.lands ht rfl rfl (.ulAgain key name) tree (s.shared.fids key) c
      (by simp [advance, hunlink]) ?_ rfl (fun _ => hfid.symm) (fun _ => rfl) trivial
    simp [effect, Op.key, hfid, hbound, hnode, hname, hunlink]

/-! ### Tremove -/

theorem simulated_rmClunk : Simulates s a i c (.tremove key) (.rmClunk key) := by
  intro before ht
  by_cases hbound : (s.shared.fids key).bound = true
  · have hfid : a.fids key = s.shared.fids key := h.fid_eq ht rfl rfl
    refine h.keeps ht rfl (.rmNode key) { s.shared.fids key with bound := false } ?_ rfl
      (fun hsolo => by cases hsolo) (fun hne => absurd rfl hne) ⟨rfl, rfl, ?_⟩
    · simp [advance, hbound, Shared.clunk, Shared.setFid, Op.key]
    · show a.fids key = { s.shared.fids key with bound := true }
      rw [hfid, ← hbound]
  · refine h.fails ht rfl rfl rfl (e := EBADF) (by simp [advance, hbound]) ?_
    simp [effect, Op.key, hbound]

section

variable (hcl : Clunked (s.shared.fids key) (a.fids key)) (hnode : (s.shared.fids key).node = j)
include hcl hnode

theorem simulated_rmParent : Simulates s a i c (.tremove key) (.rmParent key j) := by
  intro before ht
  cases hparent : s.shared.tree.parent j with
  | none =>
    refine h.removeFails ht rfl rfl rfl hcl (e := ENOSYS) c (by simp [advance, hparent]) ?_
    simp [removed, Op.key, hnode, hparent]
  | some p =>
    exact h.goes ht rfl (.rmChildren key j p) (by simp [advance, hparent]) rfl (fun hne => absurd rfl hne)
      ⟨rfl, hcl, hnode⟩

theorem simulated_rmChildren (hparent : s.shared.tree.parent j = some p) :
    Simulates s a i c (.tremove key) (.rmChildren key j p) := by
  intro before ht
  cases hname : s.shared.tree.nameOf c p j with
  | none =>
    refine h.removeFails ht rfl rfl rfl hcl (e := EINVAL) c (by simp [advance, hname]) ?_
    simp [removed, Op.key, hnode, hparent, hname]
  | some name =>
    by_cases hnil : name = []
    · refine h.removeFails ht rfl rfl rfl hcl (e := EINVAL) c (by simp [advance, hname, hnil]) ?_
      simp [removed, Op.key, hnode, hparent, hname, hnil]
    · exact h.goes ht rfl (.rmUnlink key j p name) (by simp [advance, hname, hnil]) rfl
        (fun hne => absurd rfl hne) ⟨rfl, hcl, hnode, hnil⟩

/-- The order reads the children of the directory now, in the order in which it finds the same name. -/
theorem simulated_rmUnlink (hnil : name ≠ []) (hparent : s.shared.tree.parent j = some p)
    (hchild : s.shared.tree.child p name = some j) :
    Simulates s a i c (.tremove key) (.rmUnlink key j p name) := by
  intro before ht
  obtain ⟨c', hname⟩ := Tree.nameOf_eq_some.2 hchild
  have hremoved : removed c' s.shared.tree j = unlink s.shared.tree p name 0 := by
    simp [removed, hparent, hname, hnil]
  cases hunlink : unlink s.shared.tree p name 0 with
  | error e =>
    refine h.removeFails ht rfl rfl rfl hcl (e := e) c' (by simp [advance, hunlink]) ?_
    show removed c' s.shared.tree (s.shared.fids key).node = .error e
    rw [hnode, hremoved, hunlink]
  | ok tree =>
    refine h.lands ht rfl rfl (.rmRemove name p) tree (s.shared.fids key) c'
      (by simp [advance, hunlink]) ?_ rfl (fun hsolo => by cases hsolo) (fun _ => rfl) trivial
    obtain ⟨hbound, hfs'⟩ := hcl
    show effect c' s.shared.tree (a.fids key) (.tremove key) = (.ok (), tree, s.shared.fids key)
    rw [hfs']
    simp only [effect, if_true, hnode, hremoved, hunlink]
    rw [← hbound, ← hnode]

end

end

/-! ### Every handler -/

theorem simulated {t : Thread} (h : Sim s a) (ht : s.threads[i]? = some t) (hact : answer t.pc = none)
    (hcare : Settled s.shared.tree t.pc) : Simulated s a i t c := by
  have hknown := h.known t (mem_of_getElem? ht)
  obtain ⟨op, pc, before⟩ := t
  -- the second update of the tree finds it as it makes it
  have registers {name : Bytes} {p j : Ptr} (hpc : advance pc c s.shared =
      (.done (.ok ()), { s.shared with tree := s.shared.tree.addChild p name j })) (hahead : ahead pc = none)
      (hlin : lin pc = some (.ok ())) (hset : s.shared.tree.child p name = some j ∧ s.shared.tree.parent j = some p) :
      Simulated s a i ⟨op, pc, before⟩ c := by
    rw [Tree.addChild_self hset.1 hset.2] at hpc
    exact h.goes ht hact _ hpc hlin.symm (fun _ => h.fid_eq ht hact hahead) trivial
  have removes {name : Bytes} {p : Ptr} (hpc : advance pc c s.shared =
      (.done (.ok ()), { s.shared with tree := s.shared.tree.removeChild p name })) (hahead : ahead pc = none)
      (hlin : lin pc = some (.ok ())) (hset : s.shared.tree.child p name = none) :
      Simulated s a i ⟨op, pc, before⟩ c := by
    rw [Tree.removeChild_self hset] at hpc
    exact h.goes ht hact _ hpc hlin.symm (fun _ => h.fid_eq ht hact hahead) trivial
  cases pc with
  | lcGet key name =>
    obtain rfl := hknown
    by_cases hbound : (s.shared.fids key).bound = true
    · exact h.goes ht rfl (.lcState key name) (by simp [advance, hbound]) rfl (fun _ => h.fid_eq ht rfl rfl)
        ⟨rfl, hbound⟩
    · refine h.fails ht rfl rfl rfl (e := EBADF) (by simp [advance, hbound]) ?_
      simp [effect, Op.key, hbound]
  | lcState key name =>
    obtain ⟨rfl, hbound⟩ := hknown
    exact simulated_lcState h hbound before ht
  | lcNode key name =>
    obtain ⟨rfl, hbound, hstate, hname⟩ := hknown
    refine h.goes ht rfl (.lcCreate key name (s.shared.fids key).node) rfl rfl (fun _ => h.fid_eq ht rfl rfl)
      ⟨rfl, ?_, hname⟩
    show s.shared.fids key = ⟨(s.shared.fids key).node, .allocated, true⟩
    rw [← hstate, ← hbound]
    rfl
  | lcCreate key name p =>
    obtain ⟨rfl, hfs, hname⟩ := hknown
    exact simulated_lcCreate h hfs hname before ht
  | lcOpen key name p j =>
    obtain ⟨rfl, hfs, hfs'⟩ := hknown
    exact simulated_lcOpen h hfs hfs' before ht
  | lcRegister name p j | mkRegister name p j => exact registers rfl rfl rfl hcare
  | mkGet key name =>
    obtain rfl := hknown
    exact simulated_mkGet h before ht
  | mkNode key name =>
    obtain ⟨rfl, hbound, hname⟩ := hknown
    exact h.goes ht rfl (.mkCreate key name (s.shared.fids key).node) rfl rfl (fun _ => h.fid_eq ht rfl rfl)
      ⟨rfl, hbound, hname, rfl⟩
  | mkCreate key name p =>
    obtain ⟨rfl, hbound, hname, hnode⟩ := hknown
    exact simulated_mkCreate h hbound hname hnode before ht
  | mkAgain key name j | ulAgain key name => exact h.goes ht rfl _ rfl rfl (fun _ => h.fid_eq ht rfl rfl) trivial
  | ulGet key name flags =>
    obtain rfl := hknown
    exact simulated_ulGet h before ht
  | ulNode key name flags =>
    obtain ⟨rfl, hbound, hname⟩ := hknown
    exact h.goes ht rfl (.ulUnlink key name flags (s.shared.fids key).node) rfl rfl
      (fun _ => h.fid_eq ht rfl rfl) ⟨rfl, hbound, hname, rfl⟩
  | ulUnlink key name flags p =>
    obtain ⟨rfl, hbound, hname, hnode⟩ := hknown
    exact simulated_ulUnlink h hbound hname hnode before ht
  | ulRemove name p | rmRemove name p => exact removes rfl rfl rfl hcare
  | rmClunk key =>
    obtain rfl := hknown
    exact simulated_rmClunk h before ht
  | rmNode key =>
    obtain ⟨rfl, hcl⟩ := hknown
    exact h.goes ht rfl (.rmParent key (s.shared.fids key).node) rfl rfl (fun hne => absurd rfl hne)
      ⟨rfl, hcl, rfl⟩
  | rmParent key j =>
    obtain ⟨rfl, hcl, hnode⟩ := hknown
    exact simulated_rmParent h hcl hnode before ht
  | rmChildren key j p =>
    obtain ⟨rfl, hcl, hnode⟩ := hknown
    exact simulated_rmChildren h hcl hnode hcare before ht
  | rmUnlink key j p name =>
    obtain ⟨rfl, hcl, hnode, hnil⟩ := hknown
    exact simulated_rmUnlink h hcl hnode hnil hcare.1 hcare.2 before ht
  | done r => cases hact

end Handlers

theorem points : Points machine exec Careful Sim lin where
  lin_start op := by cases op <;> rfl
  lin_answer pc r h := by
    cases pc
    case done => exact h
    all_goals cases h
  call h hcare := h.call hcare
  move h hcare ht hact := simulated h ht hact (hcare _ ht)

/-- **Consistency.**  In every run of requests on any number of connections whose steps are careful, once all requests
have ended, what they did is what they do one at a time in some order that respects real time. -/
theorem namespace_consistent (x₀ : Shared) (ls : List Label) {s : State}
    (hrun : Transition.run (step machine) (init x₀) ls = some s)
    (hcare : Transition.Meets (step machine) Careful (init x₀) ls)
    (hend : ∀ t ∈ s.threads, (answer t.pc).isSome = true) : Consistent x₀ s := by
  obtain ⟨h, a, horders, hserial, hsim⟩ := points.linearize (sim_init x₀) hrun hcare hend
  obtain ⟨b, hserial', hwithin⟩ := run_successes ⟨rfl, fun _ => .inl rfl⟩ hserial
  refine ⟨h, a, b, horders, hserial, hserial', fun p name => ?_⟩
  rw [← hsim.tree, hwithin.tree]

/-- "a", "b" -/
def nameA : Bytes := [97]
def nameB : Bytes := [98]

def emptyDir : Tree Kind where
  node _ := .dir
  parent _ := none
  children _ := ∅
  refs _ := 0
  prunable _ := false
  next := 1

/-- Every fid is at the directory. -/
def attached (tree : Tree Kind) : Shared := ⟨tree, fun _ => ⟨0, .allocated, true⟩⟩

def steps (i n : Nat) : List Label := List.replicate n (.step i 0)

/-- A Tlcreate and a Tmkdir, step by step, and then a Tremove of the file and a Tunlinkat of the directory. -/
def carefulRun : List Label :=
  [.call (.tlcreate (0, 0) nameA), .call (.tmkdir (1, 0) nameB)] ++ steps 0 4 ++ steps 1 3 ++ steps 0 2 ++ steps 1 2 ++
  [.call (.tremove (0, 0)), .call (.tunlinkat (1, 0) nameB removeDir)] ++ steps 2 4 ++ steps 3 3 ++ steps 2 2 ++ steps 3 2

theorem namespace_consistent_run : ∃ s, Transition.run (step machine) (init (attached emptyDir)) carefulRun = some s ∧
    s.threads.map (fun t => answer t.pc) = List.replicate 4 (some (.ok ())) ∧ Consistent (attached emptyDir) s :=
  ⟨_, rfl, by decide, namespace_consistent (attached emptyDir) carefulRun rfl (by decide) (by decide)⟩

theorem consistent_two {s : State} (h : Consistent x₀ s) {t u : Thread} (hs : s.threads = [t, u])
    (ht : answer t.pc = some (.ok ())) (hu : answer u.pc = some (.ok ())) :
    ∃ c c' y b, (exec c t.op x₀ = some (.ok (), y) ∧ exec c' u.op y = some (.ok (), b) ∨
      exec c u.op x₀ = some (.ok (), y) ∧ exec c' t.op y = some (.ok (), b)) ∧
      ∀ p name, s.shared.tree.child p name = b.tree.child p name := by
  obtain ⟨h, a, b, horders, -, hserial, hchild⟩ := h
  rw [hs] at horders
  obtain ⟨e, e', rfl⟩ : ∃ e e', h = [e, e'] := by
    have hlen := horders.perm.length_eq
    rw [length_map, length_range] at hlen
    exact length_eq_two.1 hlen
  have hids : e.id = 0 ∧ e'.id = 1 ∨ e.id = 1 ∧ e'.id = 0 := by
    have hmem := fun k => horders.perm.mem_iff (a := k)
    have hnodup := horders.perm.nodup_iff.2 nodup_range
    simp only [map_cons, map_nil, nodup_cons, length_cons, length_nil,
      mem_cons, mem_range] at hmem hnodup
    have h0 := (hmem e.id).1 (.inl rfl)
    have h1 := (hmem e'.id).1 (.inr (.inl rfl))
    omega
  have hof (e : Entry) (he : e.Of machine.answer [t, u]) :
      (e.id = 0 → e.op = t.op ∧ e.answer = .ok ()) ∧ (e.id = 1 → e.op = u.op ∧ e.answer = .ok ()) := by
    obtain ⟨v, hv, hop, hans⟩ := he
    constructor <;> intro hid <;> rw [hid] at hv <;> cases hv
    · exact ⟨hop.symm, mem_unique hans ht⟩
    · exact ⟨hop.symm, mem_unique hans hu⟩
  have he := hof e (horders.entry e mem_cons_self)
  have he' := hof e' (horders.entry e' (mem_cons_of_mem _ mem_cons_self))
  have hruns {v w : Thread} (hv : e.op = v.op ∧ e.answer = .ok ()) (hw : e'.op = w.op ∧ e'.answer = .ok ()) :
      ∃ y, exec e.choice v.op x₀ = some (.ok (), y) ∧ exec e'.choice w.op y = some (.ok (), b) := by
    have hok : ∀ d ∈ [e, e'], d.answer.isOk = true := by
      simp [hv.2, hw.2, Except.isOk, Except.toBool]
    rw [filter_eq_self.2 hok] at hserial
    obtain ⟨y, h1, hrest⟩ := Transition.run_cons.1 hserial
    obtain ⟨z, h2, hnil⟩ := Transition.run_cons.1 hrest
    cases hnil
    rw [serial_eq_some, hv.1, hv.2] at h1
    rw [serial_eq_some, hw.1, hw.2] at h2
    exact ⟨y, h1, h2⟩
  obtain ⟨hid, hid'⟩ | ⟨hid, hid'⟩ := hids
  · obtain ⟨y, h12⟩ := hruns (he.1 hid) (he'.2 hid')
    exact ⟨_, _, y, b, .inl h12, hchild⟩
  · obtain ⟨y, h12⟩ := hruns (he.2 hid) (he'.1 hid')
    exact ⟨_, _, y, b, .inr h12, hchild⟩

/-- A Tlcreate of "a" up to `updateAndOpen`, a Tunlinkat of "a", and `registerChild` of the Tlcreate. -/
def resurrected : List Label :=
  [.call (.tlcreate (0, 0) nameA), .call (.tunlinkat (1, 0) nameA 0)] ++ steps 0 5 ++ steps 1 5 ++ steps 0 1

/-- A Tunlinkat of "a" up to `Unlink`, a Tlcreate of "a", and `RemoveChild` of the Tunlinkat. -/
def lost : List Label :=
  [.call (.tunlinkat (1, 0) nameA 0), .call (.tlcreate (0, 0) nameA)] ++ steps 0 4 ++ steps 1 6 ++ steps 0 1

def oneFile : Tree Kind := (emptyDir.alloc .file false).addChild 0 nameA 1

/-- **A file that was unlinked, and one that was created.**  All four requests succeed.  In the first run the entry that
was removed is there at the end; in the second the entry that was created is not. -/
theorem namespace_inconsistent :
    (∃ s, Transition.run (step machine) (init (attached emptyDir)) resurrected = some s ∧
      s.threads.map (fun t => answer t.pc) = [some (.ok ()), some (.ok ())] ∧
      s.shared.tree.child 0 nameA = some 1 ∧ ¬ Consistent (attached emptyDir) s) ∧
    ∃ s, Transition.run (step machine) (init (attached oneFile)) lost = some s ∧
      s.threads.map (fun t => answer t.pc) = [some (.ok ()), some (.ok ())] ∧
      s.shared.tree.child 0 nameA = none ∧ ¬ Consistent (attached oneFile) s := by
  refine ⟨⟨_, rfl, by decide, by decide, fun h => ?_⟩, ⟨_, rfl, by decide, by decide, fun h => ?_⟩⟩
  · obtain ⟨c, c', y, b, ⟨h1, h2⟩ | ⟨h1, -⟩, hchild⟩ := consistent_two h rfl rfl rfl
    · rw [exec_eq] at h1
      cases h1
      rw [exec_eq] at h2
      cases h2
      exact some_ne_none 1 (hchild 0 nameA)
    · rw [exec_eq] at h1
      have hanswer := (Prod.mk.inj (Option.some.inj h1)).1
      cases hanswer
  · obtain ⟨c, c', y, b, ⟨h1, h2⟩ | ⟨h1, -⟩, hchild⟩ := consistent_two h rfl rfl rfl
    · rw [exec_eq] at h1
      cases h1
      rw [exec_eq] at h2
      cases h2
      exact some_ne_none 2 (hchild 0 nameA).symm
    · rw [exec_eq] at h1
      have hanswer := (Prod.mk.inj (Option.some.inj h1)).1
      cases hanswer

end NineP.Server.MemFs
