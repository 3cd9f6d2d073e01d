import NineP.Server.HandleRules

/-!
# The node of an opened fid

A fid is opened with the handle that a call on its node returned, or that came with the node it is rebound to; but the
node is called without a lock, and `update` looks at no fid state.
-/

namespace NineP.Server.Handlers

open Codec Proto Program Transition List

variable {ν : Type}

/-! ## Opened fids -/

/-- The fid state stores a handle, and is bound to the node that was opened or created with it. -/
def OnNode (s : State ν) (o : Obj ν) : Prop := ∃ h, o.handle = some h ∧ s.opens[h.id]? = some (o.node, h.ifaces)

structure OnNodes (s : State ν) (rs : List (Holds ν)) : Prop where
  /-- What the handlers have opened. -/
  known : ∀ r ∈ rs, ∀ p ∈ r.opened, s.opens[p.2.id]? = some (p.1, p.2.ifaces)
  fids : ∀ o ∈ s.objs, o.state = .opened → OnNode s o

variable [DecidableEq ν]

/-- Of a command of connection `conn`: `update` finds the fid not open, or leaves its node; and `markOpenedWithHandle`
finds it bound to the node that the handle is for. -/
def nodeKept (s : State ν) (conn : Nat) : Cmd ν → Bool
  | .update fid node => ((s.find (conn, fid)).bind (s.objs[·]?)).all fun o => o.state ≠ .opened ∨ node = o.node
  | .markOpenedWithHandle fid h =>
    ((s.find (conn, fid)).bind (s.objs[·]?)).all fun o =>
      o.state ≠ .allocated ∨ (s.opens[h.id]?).any (·.1 = o.node)
  | _ => true

section Commands

variable {cfg : Config ν} {s s' : State ν} {rs : List (Holds ν)} {r : Holds ν} {t conn : Nat} {r' : Holds ν} {c : Cmd ν}
  {x : c.Res}

section

variable (hn : OnNodes s rs) (hr : rs[t]? = some r)
include hn hr

omit [DecidableEq ν] in
theorem OnNodes.exec (hopens : s'.opens = s.opens) (hopened : r'.opened = r.opened)
    (hobjs : ∀ o' ∈ s'.objs, o'.state = .opened → o' ∈ s.objs ∨ OnNode s o') :
    OnNodes s' (rs.set t r') where
  known q hq := by
    rw [hopens]
    rcases mem_or_eq_of_mem_set hq with hq | rfl
    · exact hn.known q hq
    · rw [hopened]
      exact hn.known r (mem_of_getElem? hr)
  fids o' ho' hstate := by
    have hon : OnNode s o' := (hobjs o' ho' hstate).elim (fun ho => hn.fids o' ho hstate) id
    simpa only [OnNode, hopens] using hon

theorem edit_onNode {i : Nat} {o : Obj ν} (hpre : handleRules.pre c r) (hkept : nodeKept s conn c = true)
    (htarget : c.target s conn = some i) (ho : s.objs[i]? = some o) (hopen : (c.edit o).state = .opened) :
    o.state = .opened ∧ (c.edit o).node = o.node ∧ (c.edit o).handle = o.handle ∨ OnNode s (c.edit o) := by
  have hmem := mem_of_getElem? hr
  cases c with
  | update fid node =>
    have hfind : s.find (conn, fid) = some i := htarget
    have hopen : o.state = .opened := hopen
    have hnode : node = o.node := by simpa [nodeKept, hfind, ho, hopen] using hkept
    exact .inl ⟨hopen, hnode, rfl⟩
  | markOpenedWithHandle fid handle =>
    have hfind : s.find (conn, fid) = some i := htarget
    simp only [Cmd.edit] at hopen ⊢
    rcases ne_or_eq o.state .allocated with hstate | hstate
    · rw [if_pos hstate] at hopen ⊢
      exact .inl ⟨hopen, rfl, rfl⟩
    · rw [if_neg (not_not.2 hstate)]
      obtain ⟨-, n, hopened⟩ := hpre
      have hcall := hn.known r hmem _ hopened
      have hnode : n = o.node := by simpa [nodeKept, hfind, ho, hstate, hcall] using hkept
      exact .inr ⟨handle, rfl, hnode ▸ hcall⟩
  | updateAndOpen fid node handle =>
    simp only [Cmd.edit] at hopen ⊢
    rcases ne_or_eq o.state .allocated with hstate | hstate
    · rw [if_pos hstate] at hopen ⊢
      exact .inl ⟨hopen, rfl, rfl⟩
    · rw [if_neg (not_not.2 hstate)]
      exact .inr ⟨handle, rfl, hn.known r hmem _ hpre.2⟩
  | appendXattr fs data =>
    obtain ⟨x, hx⟩ := appendXattr_eq o data
    rw [Cmd.edit, hx] at hopen ⊢
    exact .inl ⟨hopen, rfl, rfl⟩
  | takeXattr | dirStale =>
    simp only [Cmd.edit, Obj.takeXattr] at hopen ⊢
    split at hopen <;> exact .inl ⟨hopen, by simp_all⟩
  | beginIo fs =>
    simp only [Cmd.edit, FidState.beginIo] at hopen ⊢
    split at hopen <;> exact .inl ⟨hopen, by simp_all⟩
  | setXattrWrite => cases hopen
  | _ => exact .inl ⟨hopen, rfl, rfl⟩

theorem exec_onNode {o' : Obj ν} (hpre : handleRules.pre c r) (hkept : nodeKept s conn c = true)
    (h : s.exec cfg conn c = some (x, s')) (ho' : o' ∈ s'.objs) (hstate : o'.state = .opened) :
    o' ∈ s.objs ∨ OnNode s o' := by
  cases exec_edits h with
  | same hobjs => exact .inl (hobjs ▸ ho')
  | add hc hobjs =>
    rw [hobjs] at ho'
    rcases mem_append.1 ho' with ho' | ho'
    · exact .inl ho'
    · rw [mem_singleton.1 ho'] at hstate
      rw [hc] at hpre
      exact absurd hstate hpre
  | @edit i o htarget ho hobjs =>
    rw [hobjs] at ho'
    rcases mem_or_eq_of_mem_set ho' with ho' | rfl
    · exact .inl ho'
    · rcases edit_onNode hn hr hpre hkept htarget ho hstate with ⟨hopen, hnode, hhandle⟩ | hon
      · have := hn.fids o (mem_of_getElem? ho) hopen
        exact .inr (by simpa only [OnNode, hnode, hhandle] using this)
      · exact .inr hon

omit [DecidableEq ν] in
theorem OnNodes.open (hobjs : s'.objs = s.objs)
    (hopens : s'.opens = s.opens ++ [(n, ifaces)]) (hopened : r'.opened = (n, ⟨s.opens.length, ifaces⟩) :: r.opened) :
    OnNodes s' (rs.set t r') := by
  have hold {i : Nat} {p : ν × List FileIface} (h : s.opens[i]? = some p) : s'.opens[i]? = some p := by
    rwa [hopens, getElem?_append_left (getElem?_lt h)]
  refine ⟨fun q hq p hp => ?_, fun o ho hstate => ?_⟩
  · rcases mem_or_eq_of_mem_set hq with hq | rfl
    · exact hold (hn.known q hq p hp)
    · rw [hopened] at hp
      rcases mem_cons.1 hp with rfl | hp
      · simp [hopens]
      · exact hold (hn.known r (mem_of_getElem? hr) p hp)
  · obtain ⟨h, hh, hcall⟩ := hn.fids o (hobjs ▸ ho) hstate
    exact ⟨h, hh, hold hcall⟩

omit [DecidableEq ν] in
theorem call_onNode {m : Method ν} {x : m.Out} (h : s.accept n m v = some (x, s')) :
    OnNodes s' (rs.set t (r.after (.call n m) (.ok x))) := by
  rcases accept_cases h r with ⟨n', ifaces, hobjs, -, hopens, hafter⟩ | ⟨hopens, hafter⟩
  · exact hn.open hr hobjs hopens (by rw [hafter, take_opened])
  · refine hn.exec hr hopens (by rw [hafter]) fun o' ho' _ => .inl ?_
    rwa [← (accept_sameFids h).objs]

end

theorem Does.onNode (h : Does cfg s conn c x s') (hn : OnNodes s rs) (hr : rs[t]? = some r) (hpre : handleRules.pre c r)
    (hkept : nodeKept s conn c = true) : OnNodes s' (rs.set t (r.after c x)) := by
  cases h with
  | @fail n m e hm =>
    have hafter : r.after (.call n m) (.error e) = r := by cases n <;> cases m <;> rfl
    exact hn.exec hr rfl (by rw [hafter]) fun _ ho' _ => .inl ho'
  | call v h => exact call_onNode hn hr h
  | collect h =>
    refine hn.exec hr rfl rfl fun o' ho' hstate => ?_
    obtain ⟨o, ho, rfl⟩ := mem_map.1 ho'
    split at hstate
    · rw [if_pos ‹_›]
      exact .inr (hn.fids o ho hstate)
    · rw [if_neg ‹_›]
      exact .inl ho
  | exec h =>
    refine hn.exec hr (exec_frame h).opens (after_opened x ?_) fun o' => exec_onNode hn hr hpre hkept h
    rintro n m rfl
    cases h

end Commands

/-! ## Runs -/

section Runs

/-- `nodeKept` of the command that the step `l` does. -/
def nodeOk (s : State ν) (l : Label ν) : Bool :=
  (l.thread.bind (s.threads[·]?)).all fun th =>
    match th.op with
    | .pure _ => true
    | .cmd c _ => nodeKept s th.conn c

theorem nodeKept_of_ok {s : State ν} {l : Label ν} {t : Nat} {th : Thread ν} {c : Cmd ν} {k : c.Res → Op ν Answer}
    (h : nodeOk s l = true) (hl : l.thread = some t) (ht : s.threads[t]? = some th) (hop : th.op = .cmd c k) :
    nodeKept s th.conn c = true := by
  simpa [nodeOk, hl, ht, hop] using h

omit [DecidableEq ν] in
theorem OnNodes.congr {s s' : State ν} (hn : OnNodes s rs) (hobjs : s'.objs = s.objs)
    (hopens : s'.opens = s.opens) : OnNodes s' rs := by
  obtain ⟨hknown, hfids⟩ := hn
  constructor
  · rwa [hopens]
  · simpa only [OnNode, hobjs, hopens] using hfids

theorem nodes_keep (cfg : Config ν) : Keeps cfg handleRules (fun _ _ => True)
    (fun s l => nodeOk s l = true) OnNodes where
  start {s rs l conn op g} hn _ hstart := by
    refine ⟨{}, hstart.wp, fun q hq => ?_, hn.fids⟩
    rcases mem_append.1 hq with hq | hq
    · exact hn.known q hq
    · rw [mem_singleton.1 hq]
      simp
  negotiated hn := hn.congr rfl rfl
  enter hn _ _ := hn.congr rfl rfl
  does hn hC hthread ht hop hr hpre hdoes _ :=
    ⟨_, rfl, (hdoes.onNode hn hr hpre (nodeKept_of_ok hC hthread ht hop)).congr rfl rfl⟩

/-- **Opened fids stay on the node that was opened.**  In every run in which an opened fid is not walked to another node,
and a fid is still bound to the node when the call that opened the node has returned, every opened fid is bound to the
node that was opened, or created, with its handle. -/
theorem opened_on_node (cfg : Config ν) (ls : List (Label ν)) (s : State ν) (h : run (step cfg) init ls = some s)
    (hnode : Meets (step cfg) (fun s l => nodeOk s l = true) init ls) :
    ∀ o ∈ s.objs, o.state = .opened →
      ∃ handle, o.handle = some handle ∧ s.opens[handle.id]? = some (o.node, handle.ifaces) := by
  obtain ⟨rs, -, hn⟩ := (nodes_keep cfg).run ⟨by simp, by simp [init]⟩ hnode h
  exact hn.fids

end Runs

/-! ## Two runs -/

def openedLabels : List (Label Nat) := attachLabels ++ .request 0 (.lopen ⟨0, 0⟩) :: lopenSteps 1

def openedState : State Nat := (run (step plainConfig) init openedLabels).get (by decide +kernel)

theorem opened_on_node_lopen : run (step plainConfig) init openedLabels = some openedState ∧
    (openedState.objs.map (·.state)) = [.opened] ∧
    ∀ o ∈ openedState.objs, o.state = .opened →
      ∃ handle, o.handle = some handle ∧ openedState.opens[handle.id]? = some (o.node, handle.ifaces) :=
  have h : run (step plainConfig) init openedLabels = some openedState := (Option.some_get _).symm
  ⟨h, by decide, opened_on_node plainConfig openedLabels openedState h (by decide)⟩

/-- After `Tlopen`, `Twalk` of the same fid to `a`, in place. -/
def walkedLabels : List (Label Nat) :=
  openedLabels ++ [.request 0 (.walk ⟨0, 0, [[97]]⟩), .go 2, .go 2, .go 2, .finish 2 (.ok (.qid ⟨qtDir, 0, 0⟩)), .go 2,
    .finish 2 (.ok (.node 1)), .go 2, .finish 2 (.ok (.qid ⟨0, 0, 1⟩)), .go 2, .go 2, .go 2]

def walkedState : State Nat := (run (step plainConfig) init walkedLabels).get (by decide +kernel)

/-- The fid is open, with the handle of the root, and bound to `a`. -/
theorem walked_away : run (step plainConfig) init walkedLabels = some walkedState ∧ walkedState.Quiet ∧
    (walkedState.objs.map fun o => (o.key, o.state, o.node, o.handle)) =
      [(some (0, 0), .opened, 1, some ⟨0, [.fileReleaser]⟩)] ∧
    walkedState.opens = [(0, [.fileReleaser])] :=
  ⟨(Option.some_get _).symm, by decide, by decide, by decide⟩

end NineP.Server.Handlers
