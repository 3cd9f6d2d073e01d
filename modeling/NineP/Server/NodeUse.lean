import NineP.Server.NodeRules

/-!
# Nodes after `Close`

Who may come to call a method of a node: the fid table has it, or a handler at work has got hold of it or of a fid state
that gives it.
-/

namespace NineP.Server.Handlers

open Codec Proto Program Transition List

variable {ν : Type} [DecidableEq ν]

/-! ## Who reaches a node -/

/-- `handleClunk` of the fid state calls the node. -/
def Obj.commits (o : Obj ν) (n : ν) : Bool := o.state = .xattrWrite && o.xattr.any (·.node = n)

def State.tableReaches (s : State ν) (n : ν) : Bool := s.objs.any fun o => o.key.isSome && (o.node = n || o.commits n)

/-- A handler has got hold of the node, or of a fid state that gives it. -/
def Ghost.reaches (g : Ghost ν) (s : State ν) (n : ν) : Bool :=
  n ∈ g.nodes || g.states.any (fun r => (s.objs[r]?).any (·.node = n)) ||
    g.guarded.any (fun r => (s.objs[r]?).any fun o => !o.closing && o.node = n) ||
    g.doomed.any fun r => (s.objs[r]?).any (·.commits n)

def Reach (cfg : Config ν) (s : State ν) (n : ν) : Prop :=
  cfg.isRoot n = true ∨ s.tableReaches n = true ∨
    ∃ th ∈ s.threads, th.op.ended = false ∧ th.ghost.reaches s n = true

section Reach

variable {s : State ν} {g : Ghost ν}

theorem tableReaches_iff : s.tableReaches n = true ↔
    ∃ (i : Nat) (o : Obj ν), s.objs[i]? = some o ∧ o.key.isSome = true ∧ (o.node = n ∨ o.commits n = true) := by
  simp only [State.tableReaches, List.any_eq_true, Bool.and_eq_true, Bool.or_eq_true, decide_eq_true_eq]
  constructor
  · rintro ⟨o, ho, hkey, h⟩
    obtain ⟨i, hi⟩ := mem_iff_getElem?.1 ho
    exact ⟨i, o, hi, hkey, h⟩
  · rintro ⟨i, o, hi, hkey, h⟩
    exact ⟨o, mem_of_getElem? hi, hkey, h⟩

theorem reaches_iff : g.reaches s n = true ↔ n ∈ g.nodes ∨
    (∃ i ∈ g.states, ∃ o, s.objs[i]? = some o ∧ o.node = n) ∨
    (∃ i ∈ g.guarded, ∃ o, s.objs[i]? = some o ∧ o.closing = false ∧ o.node = n) ∨
    ∃ i ∈ g.doomed, ∃ o, s.objs[i]? = some o ∧ o.commits n = true := by
  simp [Ghost.reaches, or_assoc, Option.any_eq_true]

theorem reach_table {i : Nat} {o : Obj ν} (ho : s.objs[i]? = some o) (hkey : o.key.isSome = true)
    (h : o.node = n ∨ o.commits n = true) : Reach cfg s n :=
  .inr (.inl (tableReaches_iff.2 ⟨i, o, ho, hkey, h⟩))

theorem reach_ghost {t : Nat} {th : Thread ν} (ht : s.threads[t]? = some th) (hbusy : th.op.ended = false)
    (h : th.ghost.reaches s n = true) : Reach cfg s n :=
  .inr (.inr ⟨th, mem_of_getElem? ht, hbusy, h⟩)

theorem reach_got {t : Nat} {th : Thread ν} (ht : s.threads[t]? = some th) (hbusy : th.op.ended = false)
    (h : th.ghost.Got cfg n) : Reach cfg s n :=
  h.elim (fun h => reach_ghost ht hbusy (reaches_iff.2 (.inl h))) .inl

end Reach

/-! ## Changes of fid states -/

/-- The fid state `o'` gives only nodes that `o` gives or that are in `R`. -/
structure Harmless (R : ν → Prop) (o o' : Obj ν) : Prop where
  key : o'.key.isSome = true → o.key.isSome = true
  closing : o'.closing = false → o.closing = false
  node : o'.node = o.node ∨ R o'.node
  commits : ∀ n, o'.commits n = true → o.commits n = true ∨ R n

/-- Every fid state gives only what it gave before or what is in `R`. -/
def HarmlessStep (R : ν → Prop) (s s' : State ν) : Prop :=
  ∀ (i : Nat) (o' : Obj ν), s'.objs[i]? = some o' →
    (∃ o, s.objs[i]? = some o ∧ Harmless R o o') ∨ R o'.node ∧ o'.xattr = none

section Harmless

variable {s' : State ν} {g : Ghost ν} {R : ν → Prop}

theorem Harmless.refl (o : Obj ν) : Harmless R o o := ⟨id, id, .inl rfl, fun _ => .inl⟩

theorem harmlessStep_of_eq (h : s'.objs = s.objs) : HarmlessStep R s s' :=
  fun _ o' ho' => .inl ⟨o', h ▸ ho', .refl o'⟩

theorem harmlessStep_set {i : Nat} {o o' : Obj ν} (hobjs : s'.objs = s.objs.set i o') (ho : s.objs[i]? = some o)
    (h : Harmless R o o') : HarmlessStep R s s' := by
  intro j o₁ ho₁
  rw [hobjs] at ho₁
  rcases getElem?_set_cases ho₁ with ⟨rfl, rfl⟩ | ⟨-, ho₁⟩
  · exact .inl ⟨o, ho, h⟩
  · exact .inl ⟨o₁, ho₁, .refl o₁⟩

theorem HarmlessStep.table (h : HarmlessStep (Reach cfg s) s s') (hn : s'.tableReaches n = true) : Reach cfg s n := by
  obtain ⟨i, o', ho', hkey, hgives⟩ := tableReaches_iff.1 hn
  rcases h i o' ho' with ⟨o, ho, hh⟩ | ⟨hnode, hnone⟩
  · rcases hgives with rfl | hcommits
    · rcases hh.node with hnode | hnode
      · exact reach_table ho (hh.key hkey) (.inl hnode.symm)
      · exact hnode
    · rcases hh.commits n hcommits with hcommits | hn
      · exact reach_table ho (hh.key hkey) (.inr hcommits)
      · exact hn
  · rcases hgives with rfl | hcommits
    · exact hnode
    · simp [Obj.commits, hnone] at hcommits

theorem HarmlessStep.ghost (h : HarmlessStep (Reach cfg s) s s') (hn : g.reaches s' n = true) :
    g.reaches s n = true ∨ Reach cfg s n := by
  rcases reaches_iff.1 hn with hn | ⟨i, hi, o', ho', rfl⟩ | ⟨i, hi, o', ho', hclosing, rfl⟩ | ⟨i, hi, o', ho', hcommits⟩
  · exact .inl (reaches_iff.2 (.inl hn))
  · rcases h i o' ho' with ⟨o, ho, hh⟩ | ⟨hnode, -⟩
    · rcases hh.node with hnode | hnode
      · exact .inl (reaches_iff.2 (.inr (.inl ⟨i, hi, o, ho, hnode.symm⟩)))
      · exact .inr hnode
    · exact .inr hnode
  · rcases h i o' ho' with ⟨o, ho, hh⟩ | ⟨hnode, -⟩
    · rcases hh.node with hnode | hnode
      · exact .inl (reaches_iff.2 (.inr (.inr (.inl ⟨i, hi, o, ho, hh.closing hclosing, hnode.symm⟩))))
      · exact .inr hnode
    · exact .inr hnode
  · rcases h i o' ho' with ⟨o, ho, hh⟩ | ⟨-, hnone⟩
    · rcases hh.commits n hcommits with hcommits | hn
      · exact .inl (reaches_iff.2 (.inr (.inr (.inr ⟨i, hi, o, ho, hcommits⟩))))
      · exact .inr hn
    · simp [Obj.commits, hnone] at hcommits

end Harmless

/-! ## Commands -/

section Commands

variable {cfg : Config ν} {s s' : State ν} {t : Nat} {th : Thread ν} {conn : Nat}

theorem commits_append (o : Obj ν) (data : Bytes) : (o.appendXattr data).2.commits n = o.commits n := by
  unfold Obj.appendXattr
  split
  · split
    · rfl
    · split
      · rfl
      · split
        · rfl
        · split
          · rfl
          · simp_all [Obj.commits]
  · rfl

/-- A command is on a fid state: the node that it binds, and the one that its clunk then calls, are nodes that its
handler has got hold of. -/
theorem edit_harmless {c : Cmd ν} {i : Nat} {o : Obj ν} (ht : s.threads[t]? = some th) (hbusy : th.op.ended = false)
    (hpre : (useRules cfg).pre c th.ghost) (htarget : c.target s conn = some i) (ho : s.objs[i]? = some o) :
    Harmless (Reach cfg s) o (c.edit o) := by
  cases c with
  | clunk => exact ⟨(fun h => by cases h), id, .inl rfl, fun _ => .inl⟩
  | update => exact ⟨id, id, .inr (reach_got ht hbusy hpre), fun _ => .inl⟩
  | markOpenedWithHandle =>
    simp only [Cmd.edit]
    split
    · exact .refl o
    · exact ⟨id, id, .inl rfl, fun _ h => by cases h⟩
  | updateAndOpen =>
    simp only [Cmd.edit]
    split
    · exact .refl o
    · exact ⟨id, id, .inr (reach_got ht hbusy hpre), fun _ h => by cases h⟩
  | setXattrWrite fs =>
    obtain rfl : fs = i := Option.some.inj htarget
    refine ⟨id, id, .inl rfl, fun n hn => .inr ?_⟩
    have hnode : o.node = n := by simpa [Obj.commits, Cmd.edit] using hn
    exact reach_ghost ht hbusy (reaches_iff.2 (.inr (.inl ⟨fs, hpre, o, ho, hnode⟩)))
  | takeXattr =>
    simp only [Cmd.edit, Obj.takeXattr]
    split
    · exact ⟨id, (fun h => by cases h), .inl rfl, fun _ => .inl⟩
    · exact .refl o
  | appendXattr fs data =>
    obtain ⟨x, hx⟩ := appendXattr_eq o data
    refine ⟨fun h => ?_, fun h => ?_, .inl ?_, fun n h => .inl (commits_append o data ▸ h)⟩
    all_goals simp only [Cmd.edit, hx] at *
    all_goals assumption
  | beginIo =>
    simp only [Cmd.edit, FidState.beginIo]
    split <;> exact ⟨id, id, .inl rfl, fun _ => .inl⟩
  | finishClunk => exact ⟨id, (fun h => by cases h), .inl rfl, fun _ => .inl⟩
  | dirStale =>
    simp only [Cmd.edit]
    split <;> exact ⟨id, id, .inl rfl, fun _ => .inl⟩
  | _ => exact ⟨id, id, .inl rfl, fun _ => .inl⟩

theorem Does.harmless {c : Cmd ν} {x : c.Res} (h : Does cfg s conn c x s') (ht : s.threads[t]? = some th)
    (hbusy : th.op.ended = false) (hpre : (useRules cfg).pre c th.ghost) : HarmlessStep (Reach cfg s) s s' := by
  cases h with
  | fail => exact harmlessStep_of_eq rfl
  | call v h => exact harmlessStep_of_eq (accept_sameFids h).objs
  | collect =>
    intro i o' ho'
    obtain ⟨o, ho, rfl⟩ := Option.map_eq_some_iff.1 (getElem?_map.symm.trans ho')
    refine .inl ⟨o, ho, ?_⟩
    split
    · exact ⟨(fun h => by cases h), id, .inl rfl, fun _ => .inl⟩
    · exact .refl o
  | exec h =>
    cases exec_edits h with
    | same hobjs => exact harmlessStep_of_eq hobjs
    | @add fid node state hc hobjs =>
      intro i o' ho'
      rw [hobjs, getElem?_append] at ho'
      split at ho'
      · exact .inl ⟨o', ho', .refl o'⟩
      · obtain rfl := mem_singleton.1 (mem_of_getElem? ho')
        rw [hc] at hpre
        exact .inr ⟨reach_got ht hbusy hpre, rfl⟩
    | edit htarget ho hobjs => exact harmlessStep_set hobjs ho (edit_harmless ht hbusy hpre htarget ho)

end Commands

/-! ## What a handler gets hold of -/

/-- The node that a call returned. -/
def Method.given : (m : Method ν) → m.Out → Option ν
  | .attach _, n | .lookup _, n | .mkdir _, n | .symlink _ _, n | .mknod _, n | .create _ _ _ _, (n, _) => some n
  | .parent _, p => p
  | _, _ => none

def Cmd.given : (c : Cmd ν) → c.Res → Option ν
  | .call _ m, .ok x => m.given x
  | _, _ => none

section Note

variable {cfg : Config ν} {s s' : State ν} {t : Nat} {th : Thread ν} {g : Ghost ν} {n : ν} {conn : Nat}

theorem reaches_node {m : ν} : Ghost.reaches { g with nodes := m :: g.nodes } s n = true ↔ n = m ∨ g.reaches s n = true := by
  simp only [reaches_iff, mem_cons, or_assoc]

theorem reaches_state {i : Nat} : Ghost.reaches { g with states := i :: g.states } s n = true ↔
    (∃ o, s.objs[i]? = some o ∧ o.node = n) ∨ g.reaches s n = true := by
  simp only [reaches_iff, mem_cons, exists_eq_or_imp]
  grind

theorem reaches_guarded {i : Nat} : Ghost.reaches { g with guarded := i :: g.guarded } s n = true ↔
    (∃ o, s.objs[i]? = some o ∧ o.closing = false ∧ o.node = n) ∨ g.reaches s n = true := by
  simp only [reaches_iff, mem_cons, exists_eq_or_imp]
  grind

theorem reaches_doomed {i : Nat} : Ghost.reaches { g with doomed := i :: g.doomed } s n = true ↔
    (∃ o, s.objs[i]? = some o ∧ o.commits n = true) ∨ g.reaches s n = true := by
  simp only [reaches_iff, mem_cons, exists_eq_or_imp]
  grind

theorem note_call {m : Method ν} {c : Option ν} (x : m.Out) (h : (g.note (.call c m) (.ok x)).reaches s n = true) :
    g.reaches s n = true ∨ m.given x = some n := by
  have hcons {n' : ν} (h : Ghost.reaches { g with nodes := n' :: g.nodes } s n = true) :
      g.reaches s n = true ∨ some n' = some n :=
    (reaches_node.1 h).symm.imp_right fun h => congrArg some h.symm
  cases m with
  | attach | lookup | mkdir | symlink | mknod | create => exact hcons h
  | parent =>
    cases x with
    | none => exact .inl h
    | some p => exact hcons h
  | _ => exact .inl h

theorem note_close (x : Unit) : (g.note (.close n) x).reaches s n = false := by
  simp [Ghost.note, Ghost.reaches]

/-- What a handler newly reaches after a command was reachable before it, or was returned to it. -/
theorem Does.note {c : Cmd ν} {x : c.Res} (h : Does cfg s conn c x s') (ht : s.threads[t]? = some th)
    (hbusy : th.op.ended = false) (hn : (th.ghost.note c x).reaches s' n = true) :
    th.ghost.reaches s' n = true ∨ Reach cfg s n ∨ c.given x = some n := by
  cases h with
  | @fail c m e => cases m <;> exact .inl hn
  | call v h => exact (note_call _ hn).imp_right .inr
  | collect => exact .inl hn
  | exec h =>
    cases c with
    | get fid =>
      cases h
      cases hfind : s.find (conn, fid) with
      | none =>
        rw [hfind] at hn
        exact .inl hn
      | some i =>
        obtain ⟨o, ho, hkey⟩ := find_some hfind
        have hnode (h : o.node = n) : Reach cfg s n := reach_table ho (by rw [hkey]; rfl) (.inl h)
        rw [hfind] at hn
        simp only [Ghost.note] at hn
        split at hn
        · rcases reaches_guarded.1 hn with ⟨o', ho', -, h⟩ | hn
          · obtain rfl := Option.mem_unique ho ho'
            exact .inr (.inl (hnode h))
          · exact .inl hn
        · rcases reaches_state.1 hn with ⟨o', ho', h⟩ | hn
          · obtain rfl := Option.mem_unique ho ho'
            exact .inr (.inl (hnode h))
          · exact .inl hn
    | clunk fid =>
      obtain ⟨-, rfl, rfl⟩ | ⟨i, o, -, ho, hkey, rfl, rfl⟩ := find_cases h
      · exact .inl hn
      · rcases reaches_doomed.1 hn with ⟨o', ho', h⟩ | hn
        · obtain rfl := (getElem?_set_cases ho').elim And.right fun h => absurd rfl h.1
          exact .inr (.inl (reach_table ho (by rw [hkey]; rfl) (.inr h)))
        · exact .inl hn
    | beginIo i =>
      obtain ⟨o, ho, rfl, rfl⟩ := onObj_some h
      cases hclosing : o.closing with
      | true =>
        rw [show o.beginIo.1 = false by simp [FidState.beginIo, hclosing]] at hn
        exact .inl hn
      | false =>
        rw [show o.beginIo.1 = true by simp [FidState.beginIo, hclosing]] at hn
        simp only [Ghost.note] at hn
        split at hn
        · rcases reaches_state.1 hn with ⟨o', ho', h⟩ | hn
          · obtain rfl := (getElem?_set_cases ho').elim And.right fun h => absurd rfl h.1
            have hnode : o.node = n := by simpa [FidState.beginIo, hclosing] using h
            refine .inr (.inl (reach_ghost ht hbusy (reaches_iff.2 (.inr (.inr (.inl ?_))))))
            exact ⟨i, ‹_›, o, ho, hclosing, hnode⟩
          · exact .inl hn
        · exact .inl hn
    | currentNode i =>
      obtain ⟨o, ho, rfl, rfl⟩ := onObj_some h
      simp only [Ghost.note] at hn
      split at hn
      · rcases reaches_node.1 hn with rfl | hn
        · exact .inr (.inl (reach_ghost ht hbusy (reaches_iff.2 (.inr (.inl ⟨i, ‹_›, o, ho, rfl⟩)))))
        · exact .inl hn
      · exact .inl hn
    | takeXattr i =>
      obtain ⟨o, ho, rfl, rfl⟩ := onObj_some h
      cases htake : o.takeXattr.1 with
      | none =>
        rw [htake] at hn
        exact .inl hn
      | some x =>
        have hcommits : o.commits x.node = true := by
          unfold Obj.takeXattr at htake
          split at htake
          · simp_all [Obj.commits]
          · cases htake
        rw [htake] at hn
        simp only [Ghost.note] at hn
        split at hn
        · rcases reaches_node.1 hn with rfl | hn
          · refine .inr (.inl (reach_ghost ht hbusy (reaches_iff.2 (.inr (.inr (.inr ?_))))))
            exact ⟨i, ‹_›, o, ho, hcommits⟩
          · exact .inl hn
        · exact .inl hn
    | close =>
      rcases reaches_iff.1 hn with hn | h
      · exact .inl (reaches_iff.2 (.inl (mem_of_mem_filter hn)))
      · simp [Ghost.note] at h
    | call | clunkAll => cases h
    | _ => exact .inl hn

/-- **Nothing closed comes back.**  A node that is reachable after a command was so before it, or was returned by it. -/
theorem Does.reach {c : Cmd ν} {x : c.Res} {k : c.Res → Op ν Answer} (h : Does cfg s conn c x s')
    (ht : s.threads[t]? = some th) (hop : th.op = .cmd c k) (hpre : (useRules cfg).pre c th.ghost)
    (hn : Reach cfg (s'.setThread t (th.next c k x)) n) : Reach cfg s n ∨ c.given x = some n := by
  have hbusy : th.op.ended = false := by rw [hop]; rfl
  have hstep := h.harmless ht hbusy hpre
  rcases hn with hroot | htable | ⟨th', hmem, hbusy', hreach⟩
  · exact .inl (.inl hroot)
  · exact .inl (hstep.table htable)
  · have hmem : th' ∈ s.threads.set t (th.next c k x) := h.threads ▸ hmem
    rcases mem_or_eq_of_mem_set hmem with hmem | rfl
    · exact .inl ((hstep.ghost hreach).elim (fun h => .inr (.inr ⟨th', hmem, hbusy', h⟩)) id)
    · rcases h.note ht hbusy hreach with hold | hreach | hgiven
      · exact .inl ((hstep.ghost hold).elim (reach_ghost ht hbusy) id)
      · exact .inl hreach
      · exact .inr hgiven

end Note

/-! ## The file system and the closes -/

def Val.given : Val ν → Option ν
  | .node n | .created n _ | .parent (some n) => some n
  | _ => none

/-- The calls whose nodes are taken to be fresh. -/
def Method.fresh : Method ν → Bool
  | .lookup _ | .create _ _ _ _ => true
  | _ => false

/-- The call `m` may return the node: `Lookup` and `Create` a fresh one, the inode tree a parent that a fid is bound to,
and the other calls none that was closed. -/
def givenOk (cfg : Config ν) (s : State ν) (m : Method ν) (n : ν) : Bool :=
  match m with
  | .lookup _ | .create _ _ _ _ => n ∉ s.made ∧ n ∉ s.closed ∧ cfg.isRoot n = false
  | .parent _ => n ∉ s.made ∨ s.tableReaches n = true
  | _ => n ∉ s.made ∨ n ∉ s.closed

/-- Thread `t` may close the node: no fid is bound to it, and no other handler has got hold of it. -/
def closeOk (s : State ν) (t : Nat) (n : ν) : Bool :=
  n ∉ s.made || !s.tableReaches n && (s.threads.eraseIdx t).all fun th => th.op.ended || !th.ghost.reaches s n

/-- The condition on a step. -/
def useOk (cfg : Config ν) (s : State ν) (l : Label ν) : Bool :=
  l.thread.all fun t =>
    match s.nextCmd t with
    | some (.close n) => closeOk s t n
    | some (.call _ m) =>
      match l with
      | .finish _ (.ok v) => v.given.all (givenOk cfg s m)
      | _ => true
    | _ => true

section Accept

variable {cfg : Config ν} {s s' : State ν} {m : Method ν} {v : Val ν}

omit [DecidableEq ν] in
theorem accept_given (h : s.accept c m v = some (x, s')) : m.given x = v.given := by
  unfold State.accept at h
  split at h
  case h_6 =>
    obtain ⟨n, -, h⟩ := Option.map_eq_some_iff.1 h
    rfl
  case h_9 p =>
    cases h
    cases p <;> rfl
  all_goals
    cases h
    try rfl

omit [DecidableEq ν] in
theorem accept_made (h : s.accept c m v = some (x, s')) (hn : n ∈ s'.made) :
    n ∈ s.made ∨ m.fresh = true ∧ m.given x = some n := by
  cases m with
  | lookup | create =>
    cases v <;> cases h
    rcases mem_cons.1 hn with rfl | hn
    · exact .inr ⟨rfl, rfl⟩
    · exact .inl hn
  | openNode flags =>
    cases v with
    | handle ifaces =>
      obtain ⟨n', -, h⟩ := Option.map_eq_some_iff.1 h
      cases h
      exact .inl hn
    | _ => cases h
  | _ =>
    cases v <;> cases h
    exact .inl hn

theorem fresh_of_ok (hok : givenOk cfg s m n = true) (hm : m.fresh = true) :
    n ∉ s.closed ∧ cfg.isRoot n = false := by
  cases m with
  | lookup | create => exact (of_decide_eq_true hok).2
  | _ => cases hm

theorem reach_of_ok (hok : givenOk cfg s m n = true) (hmade : n ∈ s.made) (hclosed : n ∈ s.closed) :
    Reach cfg s n := by
  cases m with
  | lookup | create => exact absurd hmade (of_decide_eq_true hok).1
  | parent => exact .inr (.inl ((of_decide_eq_true hok).resolve_left (not_not.2 hmade)))
  | _ => exact absurd hclosed ((of_decide_eq_true hok).resolve_left (not_not.2 hmade))

end Accept

/-! ## Runs -/

section Runs

variable {cfg : Config ν} {s s' : State ν} {t : Nat} {th : Thread ν} {n : ν} {conn : Nat}

/-- No node that `Lookup` or `Create` returned is reachable once it is closed. -/
structure NoUse (cfg : Config ν) (s : State ν) (gs : List (Ghost ν)) : Prop where
  ghosts : gs = s.threads.map (·.ghost)
  roots : ∀ n ∈ s.made, cfg.isRoot n = false
  dead : ∀ n ∈ s.closed, n ∈ s.made → ¬Reach cfg s n

variable {l : Label ν} {g : Ghost ν} {c : Cmd ν} {k : c.Res → Op ν Answer} {x : c.Res}

theorem Starts.uses (h : Starts cfg l conn op g) : Uses cfg op g := by
  cases h with
  | request _ req => exact uses_dispatch req
  | reVersion | cleanup => exact uses_clunkAll

theorem Starts.reaches (h : Starts cfg l conn op g) : g.reaches s n = false := by
  cases h <;> rfl

omit [DecidableEq ν] in
theorem nextCmd_some (ht : s.threads[t]? = some th) (hop : th.op = .cmd c k) : s.nextCmd t = some c := by
  simp [State.nextCmd, ht, hop]

theorem given_ok {callee : Option ν} {m : Method ν} {x : m.Out} {k : Except Errno m.Out → Op ν Answer}
    (hl : l.thread = some t) (ht : s.threads[t]? = some th) (hop : th.op = .cmd (.call callee m) k)
    (hret : l.Returns s (.call callee m) (.ok x)) (hok : useOk cfg s l = true) (hn : m.given x = some n) :
    givenOk cfg s m n = true := by
  obtain ⟨t', v, s₁, rfl, hacc⟩ := hret
  obtain rfl : t' = t := Option.some.inj hl
  rw [accept_given hacc] at hn
  simpa [useOk, Label.thread, nextCmd_some ht hop, hn] using hok

theorem close_ok {k : Unit → Op ν Answer} (hl : l.thread = some t) (ht : s.threads[t]? = some th)
    (hop : th.op = .cmd (.close n) k) (hok : useOk cfg s l = true) : closeOk s t n = true := by
  simpa [useOk, hl, nextCmd_some (c := .close n) ht hop] using hok

theorem not_reach_closed (h : Does cfg s conn c x s') (hc : c = .close n) (hroot : cfg.isRoot n = false)
    (hmade : n ∈ s.made) (hok : closeOk s t n = true) : ¬Reach cfg (s'.setThread t (th.next c k x)) n := by
  subst hc
  cases h with
  | exec h =>
    cases h
    have hnot : s.tableReaches n = false ∧ ∀ th ∈ s.threads.eraseIdx t, th.op.ended = true ∨ th.ghost.reaches s n = false := by
      simpa [closeOk, hmade] using hok
    rintro (hr | htable | ⟨th', hth', hbusy, hreach⟩)
    · rw [hroot] at hr
      cases hr
    · exact absurd (hnot.1.symm.trans htable) Bool.false_ne_true
    · obtain ⟨i, hi⟩ := mem_iff_getElem?.1 hth'
      rcases getElem?_set_cases hi with ⟨-, rfl⟩ | ⟨hne, hi⟩
      · exact absurd ((note_close ()).symm.trans hreach) Bool.false_ne_true
      · rcases hnot.2 th' (mem_eraseIdx_iff_getElem?.2 ⟨i, hne, hi⟩) with hended | hnone
        · exact absurd (hended.symm.trans hbusy) (by simp)
        · exact absurd (hnone.symm.trans hreach) Bool.false_ne_true

/-- A step that meets the condition closes only what nobody reaches, and opens no way to what is closed. -/
theorem NoUse.does {gs : List (Ghost ν)} (hinv : NoUse cfg s gs) (hok : useOk cfg s l = true) (hl : l.thread = some t)
    (ht : s.threads[t]? = some th) (hop : th.op = .cmd c k) (hpre : (useRules cfg).pre c th.ghost)
    (hdoes : Does cfg s th.conn c x s') (hret : l.Returns s c x) :
    NoUse cfg (s'.setThread t (th.next c k x)) (gs.set t (th.ghost.note c x)) := by
  have hnew (n : ν) (hn : n ∈ s'.made) : n ∈ s.made ∨ n ∉ s.closed ∧ cfg.isRoot n = false := by
    cases hdoes with
    | exec h => exact .inl ((exec_frame h).made ▸ hn)
    | fail | collect => exact .inl hn
    | call v h => exact (accept_made h hn).imp_right fun ⟨hm, hgiven⟩ => fresh_of_ok (given_ok hl ht hop hret hok hgiven) hm
  have hgiven (n : ν) (hn : c.given x = some n) (hmade : n ∈ s.made) (hclosed : n ∈ s.closed) : Reach cfg s n := by
    cases c with
    | call callee m =>
      cases x with
      | error => cases hn
      | ok x => exact reach_of_ok (given_ok hl ht hop hret hok hn) hmade hclosed
    | _ => cases hn
  have hold (n : ν) (hclosed : n ∈ s.closed) (hmade : n ∈ s'.made) : ¬Reach cfg (s'.setThread t (th.next c k x)) n := by
    intro hn
    have hmade : n ∈ s.made := (hnew n hmade).resolve_right fun h => h.1 hclosed
    rcases hdoes.reach ht hop hpre hn with hn | hn
    · exact hinv.dead n hclosed hmade hn
    · exact hinv.dead n hclosed hmade (hgiven n hn hmade hclosed)
  refine ⟨?_, fun n hn => (hnew n hn).elim (hinv.roots n) And.right, fun n (hclosed : n ∈ s'.closed) hmade => ?_⟩
  · simp [State.setThread, map_set, hdoes.threads, hinv.ghosts, Thread.next]
  · rcases hdoes.closed with hsame | ⟨n', rfl, hclose⟩
    · exact hold n (hsame ▸ hclosed) hmade
    · rw [hclose] at hclosed
      rcases mem_cons.1 hclosed with rfl | hclosed
      · have hmade : n ∈ s.made := by
          cases hdoes with
          | exec h => exact (exec_frame h).made ▸ hmade
        exact not_reach_closed hdoes rfl (hinv.roots n hmade) hmade (close_ok hl ht hop hok)
      · exact hold n hclosed hmade

theorem noUse_keeps (cfg : Config ν) :
    Keeps cfg (useRules cfg) (fun _ _ => True) (fun s l => useOk cfg s l = true) (NoUse cfg) where
  start {s gs l conn op g} hinv _ hstart := by
    refine ⟨g, hstart.uses, ?_, hinv.roots, fun n hclosed hmade hn => hinv.dead n hclosed hmade ?_⟩
    · simp [hinv.ghosts]
    · rcases hn with hroot | htable | ⟨th, hth, hbusy, hreach⟩
      · exact .inl hroot
      · exact .inr (.inl htable)
      · rcases mem_append.1 hth with hth | hth
        · exact .inr (.inr ⟨th, hth, hbusy, hreach⟩)
        · rw [mem_singleton.1 hth] at hreach
          exact absurd (hstart.reaches.symm.trans hreach) Bool.false_ne_true
  negotiated hinv := ⟨hinv.ghosts, hinv.roots, hinv.dead⟩
  enter {s gs t th n m k} hinv ht hop := by
    obtain ⟨hlt, hth⟩ := List.getElem?_eq_some_iff.1 ht
    refine ⟨?_, hinv.roots, fun n hclosed hmade hn => hinv.dead n hclosed hmade ?_⟩
    · have hlt' : t < (s.threads.map (·.ghost)).length := by rwa [length_map]
      have hself := (set_getElem_self hlt').symm
      rw [getElem_map, hth] at hself
      rw [hinv.ghosts, State.setThread, map_set]
      exact hself
    · rcases hn with hroot | htable | ⟨th', hth', hbusy, hreach⟩
      · exact .inl hroot
      · exact .inr (.inl htable)
      · rcases mem_or_eq_of_mem_set hth' with hth' | rfl
        · exact .inr (.inr ⟨th', hth', hbusy, hreach⟩)
        · exact reach_ghost ht hbusy hreach
  does {s gs l t th c k x s' g} hinv hok hl ht hop hg hpre hdoes hret := by
    obtain rfl : g = th.ghost := by simpa [hinv.ghosts, ht, eq_comm] using hg
    exact ⟨_, rfl, hinv.does hok hl ht hop hpre hdoes hret⟩

/-- Thread `t` is inside a call on the node. -/
def State.isCalling (s : State ν) (t : Nat) (n : ν) : Bool :=
  (s.threads[t]?).any fun th => th.calling &&
    match th.op with
    | .cmd (.call callee _) _ => callee = some n
    | _ => false

theorem isCalling_some (h : s.isCalling t n = true) :
    ∃ (th : Thread ν) (m : Method ν) (k : Except Errno m.Out → Op ν Answer),
      s.threads[t]? = some th ∧ th.op = .cmd (.call (some n) m) k := by
  obtain ⟨th, ht, h⟩ := (Option.any_eq_true _ _).1 h
  have h := (Bool.and_eq_true_iff.1 h).2
  split at h
  · next callee m k hop =>
    obtain rfl : callee = some n := of_decide_eq_true h
    exact ⟨th, m, k, ht, hop⟩
  · cases h

/-- **No use of a node after its `Close`.**  In every run in which a node that `Lookup` or `Create` returned is closed only
when no fid is bound to it and no other handler has got hold of it, no call on it starts or goes on once it was closed. -/
theorem no_use_after_close (cfg : Config ν) (ls : List (Label ν)) (s : State ν) (h : run (step cfg) init ls = some s)
    (huse : Meets (step cfg) (fun s l => useOk cfg s l = true) init ls) (t : Nat) (n : ν)
    (hcalling : s.isCalling t n = true) (hmade : n ∈ s.made) : n ∉ s.closed := by
  obtain ⟨gs, hpool, hinv⟩ := (noUse_keeps cfg).run ⟨rfl, by simp [init], by simp [init]⟩ huse h
  obtain ⟨th, m, k, ht, hop⟩ := isCalling_some hcalling
  -- the handler got hold of the node, so it reaches it
  obtain ⟨g, hg, hwp⟩ := hpool.get (by rw [getElem?_map, ht, Option.map_some, hop])
  obtain rfl : g = th.ghost := by simpa [hinv.ghosts, ht, eq_comm] using hg
  exact fun hclosed => hinv.dead n hclosed hmade (reach_got ht (by rw [hop]; rfl) hwp.1)

end Runs

/-! ## Two runs -/

/-- What handler `t` does for `Twalk` of fid 0 to a new fid and the node `child`. -/
def walkSteps (t child : Nat) : List (Label Nat) :=
  [.go t, .go t, .go t, .finish t (.ok (.qid ⟨qtDir, 0, 0⟩)), .go t, .finish t (.ok (.node child)), .go t,
    .finish t (.ok (.qid ⟨0, 0, 1⟩)), .go t, .go t]

/-- `Tattach`, then `Twalk` of fid 0 to fid 1 and the node 1. -/
def boundLabels : List (Label Nat) := attachLabels ++ .request 0 (.walk ⟨0, 1, [[97]]⟩) :: walkSteps 1 1

/-- `Tclunk` of fid 1, which closes the node; then `Twalk` again, to the node 2, and `Tgetattr` up to the call. -/
def freshLabels : List (Label Nat) :=
  boundLabels ++ .request 0 (.clunk ⟨1⟩) :: List.replicate 8 (.go 2) ++ .request 0 (.walk ⟨0, 1, [[97]]⟩) :: walkSteps 3 2 ++
    [.request 0 (.getattr ⟨1, 0⟩), .go 4, .go 4, .go 4]

def freshState : State Nat := (run (step plainConfig) init freshLabels).get (by decide +kernel)

theorem no_use_after_close_clunk : run (step plainConfig) init freshLabels = some freshState ∧
    freshState.isCalling 4 2 = true ∧ freshState.made = [2, 1] ∧ freshState.closed = [1] ∧ 2 ∉ freshState.closed :=
  have h : run (step plainConfig) init freshLabels = some freshState := (Option.some_get _).symm
  ⟨h, by decide, by decide, by decide,
    no_use_after_close plainConfig freshLabels freshState h (by decide) 4 2 (by decide) (by decide)⟩

/-- `Tgetattr` of fid 1 reads the node; `Tclunk` of the fid closes it; the call of `Getattr` starts. -/
def lateLabels : List (Label Nat) :=
  boundLabels ++ [.request 0 (.getattr ⟨1, 0⟩), .go 2, .go 2] ++ .request 0 (.clunk ⟨1⟩) :: List.replicate 8 (.go 3) ++ [.go 2]

def lateState : State Nat := (run (step plainConfig) init lateLabels).get (by decide +kernel)

theorem used_after_close : run (step plainConfig) init lateLabels = some lateState ∧ lateState.isCalling 2 1 = true ∧
    1 ∈ lateState.made ∧ 1 ∈ lateState.closed :=
  ⟨(Option.some_get _).symm, by decide, by decide, by decide⟩

end NineP.Server.Handlers
