import NineP.Lib.Linearize
import NineP.Server.Dispatch
import NineP.Server.Inode

/-!
# Concurrent requests on an in-memory file system

The requests that change the directories of `server/memfs`, over any number of connections, by their atomic steps: a
method of `Inode`, of `fidTable` or of `fidState` runs under its mutex, and `MemDir.Create`, `MemDir.Mkdir` and
`MemDir.Unlink` have one such method each.  The handlers then update the same map again.
-/

namespace NineP.Server.MemFs

open Codec Proto Dispatch Linearize

/-! ## Nodes -/

/-- A `MemDir`, or a node with the default methods of `Inode`. -/
inductive Kind
  | dir
  | file
  deriving DecidableEq

/-- `MemDir.Create` and `MemDir.Mkdir` -/
def create (t : Tree Kind) (p : Ptr) (kind : Kind) (name : Bytes) : Except Errno (Ptr × Tree Kind) :=
  match t.node p with
  | .file => .error ENOSYS
  | .dir =>
    match (t.alloc kind false).tryAddChild p name t.next with
    | none => .error EEXIST
    | some t' => .ok (t.next, t')

def removeDir : UInt32 := 0x200

/-- The check of `MemDir.Unlink`. -/
def mayUnlink (flags : UInt32) (kind : Kind) (childCount : Nat) : Except Errno Unit :=
  if flags = removeDir then
    if kind ≠ .dir then .error ENOTDIR
    else if childCount ≠ 0 then .error ENOTEMPTY
    else .ok ()
  else if kind = .dir then .error EISDIR
  else .ok ()

def unlink (t : Tree Kind) (p : Ptr) (name : Bytes) (flags : UInt32) : Except Errno (Tree Kind) :=
  match t.node p with
  | .file => .error ENOSYS
  | .dir => if flags ≠ 0 ∧ flags ≠ removeDir then .error EINVAL else t.removeChildIf p name (mayUnlink flags)

theorem create_ok (h : create t p kind name = .ok (j, t')) :
    t'.child p name = some j ∧ t'.parent j = some p := by
  unfold create at h
  split at h
  · cases h
  · split at h
    · cases h
    · rename_i hadd
      cases h
      rw [Tree.tryAddChild] at hadd
      split at hadd
      · cases hadd
      · cases hadd
        exact ⟨by rw [Tree.child_addChild, if_pos ⟨rfl, rfl⟩], Function.update_self _ _ _⟩

theorem unlink_ok (h : unlink t p name flags = .ok t') : t'.child p name = none := by
  unfold unlink at h
  split at h
  · cases h
  · split at h
    · cases h
    · rw [Tree.removeChildIf] at h
      split at h
      · cases h
      · split at h
        · cases h
        · rename_i i _ _
          obtain rfl := Except.ok.inj h
          show (t.removeChild p name).child p name = none
          rw [Tree.child_removeChild, if_pos ⟨rfl, rfl⟩]

/-! ## Fids -/

abbrev Key := Nat × Fid

/-- A `fidState`.  A request that has got it goes on with it when the fid is clunked. -/
structure FidObj where
  node : Ptr
  state : FidStatus
  /-- Whether the fid is in the table. -/
  bound : Bool

structure Shared where
  tree : Tree Kind
  fids : Key → FidObj

namespace Shared

variable (x : Shared)

def setFid (key : Key) (fs : FidObj) : Shared := { x with fids := Function.update x.fids key fs }

def clunk (key : Key) : Shared := x.setFid key { x.fids key with bound := false }

def updateAndOpen (key : Key) (i : Ptr) : Option Shared :=
  if (x.fids key).bound = true ∧ (x.fids key).state = .allocated then some (x.setFid key ⟨i, .opened, true⟩) else none

end Shared

/-! ## Requests -/

inductive Op
  | tlcreate (key : Key) (name : Bytes)
  | tmkdir (key : Key) (name : Bytes)
  | tunlinkat (key : Key) (name : Bytes) (flags : UInt32)
  | tremove (key : Key)
  deriving DecidableEq

/-- The fid of a request. -/
def Op.key : Op → Key
  | .tlcreate key _ | .tmkdir key _ | .tunlinkat key _ _ | .tremove key => key

abbrev Answer := Except Errno Unit

/-- The next atomic step of a handler. -/
inductive Pc
  -- `handleLcreate`
  | lcGet (key : Key) (name : Bytes)
  | lcState (key : Key) (name : Bytes)
  | lcNode (key : Key) (name : Bytes)
  | lcCreate (key : Key) (name : Bytes) (p : Ptr)
  | lcOpen (key : Key) (name : Bytes) (p i : Ptr)
  | lcRegister (name : Bytes) (p i : Ptr)
  -- `handleMkdir`, which reads the node of the fid twice
  | mkGet (key : Key) (name : Bytes)
  | mkNode (key : Key) (name : Bytes)
  | mkCreate (key : Key) (name : Bytes) (p : Ptr)
  | mkAgain (key : Key) (name : Bytes) (i : Ptr)
  | mkRegister (name : Bytes) (p i : Ptr)
  -- `handleUnlinkat`, which does so too
  | ulGet (key : Key) (name : Bytes) (flags : UInt32)
  | ulNode (key : Key) (name : Bytes) (flags : UInt32)
  | ulUnlink (key : Key) (name : Bytes) (flags : UInt32) (p : Ptr)
  | ulAgain (key : Key) (name : Bytes)
  | ulRemove (name : Bytes) (p : Ptr)
  -- `handleRemove` and `removeViaInodeTree`
  | rmClunk (key : Key)
  | rmNode (key : Key)
  | rmParent (key : Key) (i : Ptr)
  | rmChildren (key : Key) (i p : Ptr)
  | rmUnlink (key : Key) (i p : Ptr) (name : Bytes)
  | rmRemove (name : Bytes) (p : Ptr)
  | done (r : Answer)

def Pc.fail (e : Errno) : Pc := .done (.error e)

/-- One atomic step; `pick` is where a loop over a map of children starts. -/
def advance (pc : Pc) (pick : Nat) (x : Shared) : Pc × Shared :=
  match pc with
  | .lcGet key name => (if (x.fids key).bound then .lcState key name else .fail EBADF, x)
  | .lcState key name =>
    (if (x.fids key).state ≠ .allocated then .fail EBADF else if validName name then .lcNode key name else .fail EINVAL,
      x)
  | .lcNode key name => (.lcCreate key name (x.fids key).node, x)
  | .lcCreate key name p =>
    match create x.tree p .file name with
    | .error e => (.fail e, x)
    | .ok (i, tree) => (.lcOpen key name p i, { x with tree })
  | .lcOpen key name p i =>
    match x.updateAndOpen key i with
    | none => (.fail EBADF, x)
    | some x => (.lcRegister name p i, x)
  | .lcRegister name p i => (.done (.ok ()), { x with tree := x.tree.addChild p name i })
  | .mkGet key name =>
    (if (x.fids key).bound then if validName name then .mkNode key name else .fail EINVAL else .fail EBADF, x)
  | .mkNode key name => (.mkCreate key name (x.fids key).node, x)
  | .mkCreate key name p =>
    match create x.tree p .dir name with
    | .error e => (.fail e, x)
    | .ok (i, tree) => (.mkAgain key name i, { x with tree })
  | .mkAgain key name i => (.mkRegister name (x.fids key).node i, x)
  | .mkRegister name p i => (.done (.ok ()), { x with tree := x.tree.addChild p name i })
  | .ulGet key name flags =>
    (if (x.fids key).bound then if validName name then .ulNode key name flags else .fail EINVAL else .fail EBADF, x)
  | .ulNode key name flags => (.ulUnlink key name flags (x.fids key).node, x)
  | .ulUnlink key name flags p =>
    match unlink x.tree p name flags with
    | .error e => (.fail e, x)
    | .ok tree => (.ulAgain key name, { x with tree })
  | .ulAgain key name => (.ulRemove name (x.fids key).node, x)
  | .ulRemove name p => (.done (.ok ()), { x with tree := x.tree.removeChild p name })
  | .rmClunk key => if (x.fids key).bound then (.rmNode key, x.clunk key) else (.fail EBADF, x)
  | .rmNode key => (.rmParent key (x.fids key).node, x)
  | .rmParent key i =>
    match x.tree.parent i with
    | none => (.fail ENOSYS, x)
    | some p => (.rmChildren key i p, x)
  | .rmChildren key i p =>
    match x.tree.nameOf pick p i with
    | none => (.fail EINVAL, x)
    | some name => (if name = [] then .fail EINVAL else .rmUnlink key i p name, x)
  | .rmUnlink _ _ p name =>
    match unlink x.tree p name 0 with
    | .error e => (.fail e, x)
    | .ok tree => (.rmRemove name p, { x with tree })
  | .rmRemove name p => (.done (.ok ()), { x with tree := x.tree.removeChild p name })
  | .done r => (.done r, x)

def start : Op → Pc
  | .tlcreate key name => .lcGet key name
  | .tmkdir key name => .mkGet key name
  | .tunlinkat key name flags => .ulGet key name flags
  | .tremove key => .rmClunk key

def answer : Pc → Option Answer
  | .done r => some r
  | _ => none

def machine : Machine Shared Op Answer Pc Nat := ⟨start, advance, answer⟩

abbrev State := Linearize.State Shared Op Pc
abbrev Thread := Linearize.Thread Op Pc
abbrev Label := Linearize.Label Op Nat
abbrev Entry := Linearize.Entry Op Answer Nat

/-! ## One at a time -/

/-- A handler that runs alone from `pc`, for `fuel` steps at most. -/
def alone (pick : Nat) : Nat → Pc → Shared → Option (Answer × Shared)
  | _, .done r, x => some (r, x)
  | 0, _, _ => none
  | fuel + 1, pc, x => alone pick fuel (advance pc pick x).1 (advance pc pick x).2

/-- A request that nothing interrupts. -/
def exec (pick : Nat) (op : Op) (x : Shared) : Option (Answer × Shared) := alone pick 6 (start op) x

/-- What the threads did: some order of their requests that respects real time gives every one of them its answer, and
those that did not fail, one at a time in this order, give the children of every inode. -/
def Consistent (x₀ : Shared) (s : State) : Prop :=
  ∃ (h : List Entry) (a b : Shared), Orders machine s.threads h ∧
    Transition.run (serial exec) x₀ h = some a ∧
    Transition.run (serial exec) x₀ (h.filter fun e => e.answer.isOk) = some b ∧
    ∀ p name, s.shared.tree.child p name = b.tree.child p name

/-! ## What a request does alone -/

/-- `removeViaInodeTree` alone. -/
def removed (pick : Nat) (t : Tree Kind) (i : Ptr) : Except Errno (Tree Kind) :=
  match t.parent i with
  | none => .error ENOSYS
  | some p =>
    match t.nameOf pick p i with
    | none => .error EINVAL
    | some name => if name = [] then .error EINVAL else unlink t p name 0

def effect (pick : Nat) (t : Tree Kind) (fs : FidObj) : Op → Answer × Tree Kind × FidObj
  | .tlcreate _ name =>
    if fs.bound then
      if fs.state = .allocated then
        if validName name then
          match create t fs.node .file name with
          | .error e => (.error e, t, fs)
          | .ok (i, t') => (.ok (), t', ⟨i, .opened, true⟩)
        else (.error EINVAL, t, fs)
      else (.error EBADF, t, fs)
    else (.error EBADF, t, fs)
  | .tmkdir _ name =>
    if fs.bound then
      if validName name then
        match create t fs.node .dir name with
        | .error e => (.error e, t, fs)
        | .ok (_, t') => (.ok (), t', fs)
      else (.error EINVAL, t, fs)
    else (.error EBADF, t, fs)
  | .tunlinkat _ name flags =>
    if fs.bound then
      if validName name then
        match unlink t fs.node name flags with
        | .error e => (.error e, t, fs)
        | .ok t' => (.ok (), t', fs)
      else (.error EINVAL, t, fs)
    else (.error EBADF, t, fs)
  | .tremove _ =>
    if fs.bound then
      match removed pick t fs.node with
      | .error e => (.error e, t, { fs with bound := false })
      | .ok t' => (.ok (), t', { fs with bound := false })
    else (.error EBADF, t, fs)

/-- The state after a request that ran alone. -/
def Shared.after (x : Shared) (key : Key) (r : Answer × Tree Kind × FidObj) : Shared :=
  ⟨r.2.1, Function.update x.fids key r.2.2⟩

section Exec

variable (pick : Nat) (key : Key) (name : Bytes) (x : Shared)

@[simp] theorem after_self (r : Answer) : x.after key (r, x.tree, x.fids key) = x := by
  simp [Shared.after]

@[simp] theorem alone_done (fuel : Nat) (r : Answer) : alone pick fuel (.done r) x = some (r, x) := by
  cases fuel <;> rfl

@[simp] theorem alone_fail (fuel : Nat) (e : Errno) : alone pick fuel (.fail e) x = some (.error e, x) :=
  alone_done pick x fuel (.error e)

/-- Alone, the operation has its effect. -/
def Takes (op : Op) (x : Shared) : Prop :=
  exec pick op x = some ((effect pick x.tree (x.fids op.key) op).1, x.after op.key (effect pick x.tree (x.fids op.key) op))

theorem exec_tlcreate : Takes pick (.tlcreate key name) x := by
  simp only [Takes, Op.key, exec, start, alone, advance, effect]
  by_cases hbound : (x.fids key).bound = true
  · by_cases hstate : (x.fids key).state = .allocated
    · by_cases hname : validName name = true
      · simp only [hbound, hstate, hname, alone, advance, if_true, ne_eq, not_true, if_false]
        cases hcreate : create x.tree (x.fids key).node .file name with
        | error e => simp
        | ok r =>
          obtain ⟨hchild, hparent⟩ := create_ok hcreate
          simp [alone, advance, Shared.updateAndOpen, hbound, hstate, Shared.setFid, Shared.after,
            Tree.addChild_self hchild hparent]
      · simp [hbound, hstate, hname, alone, advance]
    · simp [hbound, hstate, alone, advance]
  · simp [hbound]

theorem exec_tmkdir : Takes pick (.tmkdir key name) x := by
  simp only [Takes, Op.key, exec, start, alone, advance, effect]
  by_cases hbound : (x.fids key).bound = true
  · by_cases hname : validName name = true
    · simp only [hbound, hname, alone, advance, if_true]
      cases hcreate : create x.tree (x.fids key).node .dir name with
      | error e => simp
      | ok r =>
        obtain ⟨hchild, hparent⟩ := create_ok hcreate
        simp [alone, advance, Shared.after, Tree.addChild_self hchild hparent]
    · simp [hbound, hname]
  · simp [hbound]

theorem exec_tunlinkat (flags : UInt32) : Takes pick (.tunlinkat key name flags) x := by
  simp only [Takes, Op.key, exec, start, alone, advance, effect]
  by_cases hbound : (x.fids key).bound = true
  · by_cases hname : validName name = true
    · simp only [hbound, hname, alone, advance, if_true]
      cases hunlink : unlink x.tree (x.fids key).node name flags with
      | error e => simp
      | ok tree => simp [alone, advance, Shared.after, Tree.removeChild_self (unlink_ok hunlink)]
    · simp [hbound, hname]
  · simp [hbound]

theorem exec_tremove : Takes pick (.tremove key) x := by
  simp only [Takes, Op.key, exec, start, alone, advance, effect]
  by_cases hbound : (x.fids key).bound = true
  · have hnode : ((x.clunk key).fids key).node = (x.fids key).node := by simp [Shared.clunk, Shared.setFid]
    have htree : (x.clunk key).tree = x.tree := rfl
    have hafter (r : Answer) (t : Tree Kind) :
        x.after key (r, t, { x.fids key with bound := false }) = { x.clunk key with tree := t } := rfl
    simp only [hbound, if_true, alone, advance, hnode, htree, removed]
    cases x.tree.parent (x.fids key).node with
    | none => simp [hafter, ← htree]
    | some p =>
      simp only [alone, advance, htree]
      cases x.tree.nameOf pick p (x.fids key).node with
      | none => simp [hafter, ← htree]
      | some name =>
        by_cases hname : name = []
        · simp [hname, hafter, ← htree]
        · simp only [hname, if_false, alone, advance, htree]
          cases hunlink : unlink x.tree p name 0 with
          | error e => simp [hafter, ← htree]
          | ok tree => simp [alone, advance, hafter, Tree.removeChild_self (unlink_ok hunlink)]
  · simp [hbound]

/-- **A request alone.**  It ends, and it changes nothing but the tree and its fid; the second update of the tree does
nothing. -/
theorem exec_eq (op : Op) : exec pick op x = some ((effect pick x.tree (x.fids op.key) op).1,
    x.after op.key (effect pick x.tree (x.fids op.key) op)) := by
  cases op with
  | tlcreate key name => exact exec_tlcreate pick key name x
  | tmkdir key name => exact exec_tmkdir pick key name x
  | tunlinkat key name flags => exact exec_tunlinkat pick key name x flags
  | tremove key => exact exec_tremove pick key x

end Exec

/-! ## Requests that fail -/

theorem effect_error (h : effect pick t fs op = (.error e, t', fs')) :
    t' = t ∧ (fs' = fs ∨ fs'.bound = false) := by
  have fails {r : Answer × Tree Kind × FidObj} (hr : r = (.error e, t', fs')) (ht : r.2.1 = t) (hfs : r.2.2 = fs) :
      t' = t ∧ (fs' = fs ∨ fs'.bound = false) := by
    subst hr
    exact ⟨ht, .inl hfs⟩
  cases op
  case tremove key =>
    simp only [effect] at h
    split_ifs at h
    · split at h
      · cases h
        exact ⟨rfl, .inr rfl⟩
      · cases h
    · exact fails h rfl rfl
  -- the other requests that fail leave their fid alone
  all_goals
    simp only [effect] at h
    split_ifs at h <;> first | exact fails h rfl rfl | split at h
    · exact fails h rfl rfl
    · cases h

theorem effect_unbound (op : Op) (h : fs.bound = false) : effect pick t fs op = (.error EBADF, t, fs) := by
  cases op <;> simp [effect, h]

/-- The tree is the same, and `a` may have lost fids of `b`. -/
structure Within (a b : Shared) : Prop where
  tree : a.tree = b.tree
  fids : ∀ key, a.fids key = b.fids key ∨ (a.fids key).bound = false

theorem within_error (hw : Within a b) (h : exec pick op a = some (.error e, a')) : Within a' b := by
  rw [exec_eq] at h
  obtain ⟨hr, rfl⟩ := Transition.some_pair h
  obtain ⟨htree, hfid⟩ := effect_error (Prod.ext hr rfl)
  refine ⟨htree.trans hw.tree, fun key => ?_⟩
  simp only [Shared.after, Function.update_apply]
  split
  · rename_i hkey
    subst hkey
    obtain hfid | hfid := hfid
    · rw [hfid]
      exact hw.fids op.key
    · exact .inr hfid
  · exact hw.fids key

theorem within_ok (hw : Within a b) (h : exec pick op a = some (.ok (), a')) :
    ∃ b', exec pick op b = some (.ok (), b') ∧ Within a' b' := by
  rw [exec_eq] at h
  obtain ⟨hr, rfl⟩ := Transition.some_pair h
  have hfid : a.fids op.key = b.fids op.key := by
    refine (hw.fids op.key).resolve_right fun hbound => ?_
    rw [effect_unbound op hbound] at hr
    cases hr
  rw [hw.tree, hfid] at hr
  refine ⟨b.after op.key (effect pick b.tree (b.fids op.key) op), by rw [exec_eq, hr], ?_, fun key => ?_⟩
  · simp only [Shared.after, hw.tree, hfid]
  · simp only [Shared.after, hw.tree, hfid, Function.update_apply]
    split
    · exact .inl rfl
    · exact hw.fids key

/-- **Requests that fail do not count.**  Without them the others do the same. -/
theorem run_successes {h : List Entry} (hw : Within a b) (hrun : Transition.run (serial exec) a h = some a') :
    ∃ b', Transition.run (serial exec) b (h.filter fun e => e.answer.isOk) = some b' ∧ Within a' b' := by
  induction h generalizing a b with
  | nil =>
    cases hrun
    exact ⟨b, rfl, hw⟩
  | cons e h ih =>
    obtain ⟨a₁, hstep, hrest⟩ := Transition.run_cons.1 hrun
    have hexec := serial_eq_some.1 hstep
    cases hans : e.answer with
    | error err =>
      rw [hans] at hexec
      rw [List.filter_cons_of_neg (by rw [hans]; exact Bool.false_ne_true)]
      exact ih (within_error hw hexec) hrest
    | ok u =>
      rw [hans] at hexec
      obtain ⟨b₁, hexec', hw'⟩ := within_ok hw hexec
      obtain ⟨b', hrun', hw''⟩ := ih hw' hrest
      rw [List.filter_cons_of_pos (by rw [hans]; rfl)]
      exact ⟨b', Transition.run_cons.2 ⟨b₁, serial_eq_some.2 (hans ▸ hexec'), hrun'⟩, hw''⟩

end NineP.Server.MemFs
