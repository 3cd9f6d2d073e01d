import NineP.Server.Handlers

/-!
# What handlers use

The commands that a handler, or a part of one, may come to, whatever the commands before returned.
-/

namespace NineP.Server.Handlers

open Codec Proto Program

variable {ν : Type} {cfg : Config ν} {n : ν} {c : Cmd ν}

/-! ## Looking -/

/-- The calls that return a file handle. -/
def Method.opens : Method ν → Bool
  | .openNode _ | .create _ _ _ _ => true
  | _ => false

def Cmd.looks : Cmd ν → Bool
  | .currentNode _ | .handle _ | .appendXattr _ _ | .dirStale _ _ | .dirStore _ | .msize => true
  | .call _ m => !m.opens
  | _ => false

/-- A program that only looks. -/
abbrev Looks {α : Type} (p : Op ν α) : Prop := p.All (·.looks = true)

section Looks

variable {fs : Nat} {m : Method ν}

theorem looks_call (hm : m.opens = false) : Looks (call n m) :=
  Prog.all_lift.2 (by simp [Cmd.looks, hm])

theorem looks_callOther (hm : m.opens = false) : Looks (callOther m) :=
  Prog.all_lift.2 (by simp [Cmd.looks, hm])

theorem looks_exec {c : Cmd ν} (h : c.looks = true) : Looks (exec c) := Prog.all_lift.2 h

theorem looks_onCurrentNode (hm : m.opens = false) : Looks (onCurrentNode cfg fs i m) := by
  refine .bind (looks_exec rfl) fun node => ?_
  split
  · exact .bind (looks_call hm) fun _ => trivial
  · trivial

theorem looks_preferHandle (hm : m.opens = false) : Looks (preferHandle cfg fs fi i m) := by
  refine .bind (looks_exec rfl) fun h => ?_
  cases h with
  | none => exact looks_onCurrentNode hm
  | some h =>
    simp only
    split
    · exact looks_callOther rfl
    · exact looks_onCurrentNode hm

theorem looks_currentQID : Looks (currentQID fs : Op ν Unit) :=
  .bind (looks_exec rfl) fun _ => .bind (looks_call rfl) fun _ => trivial

theorem looks_readdirSimple {fetch : Op ν Answer} (h : Looks fetch) :
    Looks (readdirSimple fs offset fetch) := by
  refine .bind (looks_exec rfl) fun stale => ?_
  split
  · refine .bind h fun a => ?_
    cases a with
    | error e => trivial
    | ok => exact .bind (looks_exec rfl) fun _ => trivial
  · trivial

theorem looks_readdirNode {m : P9l.Treaddir} : Looks (readdirNode cfg m fs) := by
  refine .bind (looks_exec rfl) fun node => ?_
  split
  · exact looks_call rfl
  · refine .bind (looks_exec rfl) fun node => ?_
    split
    · exact looks_readdirSimple (looks_call rfl)
    · trivial

theorem looks_commitXattr : Looks (commitXattr cfg x) := by
  unfold commitXattr
  split
  · exact looks_callOther rfl
  split
  · split
    · exact looks_call rfl
    · trivial
  split
  · trivial
  split
  · exact looks_call rfl
  · trivial

theorem looks_inodeEntry : Looks (inodeEntry cfg n) := by
  unfold inodeEntry
  split
  · refine .bind (looks_callOther rfl) fun x => ?_
    split
    · refine .bind (looks_callOther rfl) fun y => ?_
      split <;> trivial
    · trivial
  · trivial

theorem looks_removeViaInodeTree : Looks (removeViaInodeTree cfg n) := by
  refine .bind looks_inodeEntry fun x => ?_
  split
  · trivial
  · split
    · exact looks_call rfl
    · trivial

theorem looks_resolveRoot : Looks (resolveRoot cfg aname) := by
  unfold resolveRoot
  split
  · exact looks_callOther rfl
  split
  · split
    · trivial
    split <;> trivial
  · trivial

theorem looks_readdirBody {m : P9l.Treaddir} : Looks (do
    match ← exec (.handle fs) with
    | some h =>
      if h.implements .fileRawReaddirer then callOther (.onHandle h.id .fileRawReaddirer)
      else if h.implements .fileReaddirer then
        readdirSimple fs m.offset (callOther (.onHandle h.id .fileReaddirer))
      else readdirNode cfg m fs
    | none => readdirNode cfg m fs) := by
  refine .bind (looks_exec rfl) fun h => ?_
  cases h with
  | none => exact looks_readdirNode
  | some h =>
    simp only
    split
    · exact looks_callOther rfl
    split
    · exact looks_readdirSimple (looks_callOther rfl)
    · exact looks_readdirNode

end Looks

/-! ## Leaving the fid table -/

def Cmd.still : Cmd ν → Bool
  | .get _ | .currentState _ | .setXattrWrite _ _ _ _ _ => true
  | c => c.looks

/-- A program that leaves the fid table and the reference counts. -/
abbrev Still {α : Type} (p : Op ν α) : Prop := p.All (·.still = true)

section Still

variable {fid : Fid} {m : Method ν}

theorem still_of_looks (h : c.looks = true) : c.still = true := by
  cases c <;> first | exact h | rfl

theorem Looks.still {α : Type} {p : Op ν α} (h : Looks p) : Still p := h.mono fun _ => still_of_looks

theorem still_exec (h : c.still = true) : Still (exec c) := Prog.all_lift.2 h

theorem still_get {f : Option Nat → Op ν Answer} (hnone : Still (f none)) (hf : ∀ fs, Still (f (some fs))) :
    Still (exec (.get fid) >>= f) := by
  refine .bind (still_exec rfl) fun x => ?_
  cases x with
  | none => exact hnone
  | some fs => exact hf fs

theorem still_onNode (hm : m.opens = false) : Still (onNode cfg fid i m) :=
  still_get trivial fun _ => (looks_onCurrentNode hm).still

theorem still_getattr : Still (getattr cfg fid) := by
  refine still_get trivial fun fs => .bind (looks_onCurrentNode rfl).still fun a => ?_
  cases a with
  | error e => trivial
  | ok => exact .bind looks_currentQID.still fun _ => trivial

theorem still_onDir (hm : m.opens = false) : Still (onDir cfg fid name i m) := by
  refine still_get trivial fun fs => ?_
  simp only
  split
  · trivial
  · exact (looks_onCurrentNode hm).still

theorem still_makeChild {make : ν → Op ν (Except Errno ν)} (hmake : ∀ n, Still (make n)) :
    Still (makeChild cfg fid name i make) := by
  refine still_get trivial fun fs => ?_
  simp only
  split
  · trivial
  · refine .bind (still_exec rfl) fun node => ?_
    split
    · refine .bind (hmake node) fun x => ?_
      cases x with
      | error e => trivial
      | ok child => exact .bind (looks_call rfl).still fun _ => trivial
    · trivial

theorem still_handleLink {m : P9l.Tlink} : Still (handleLink cfg m) := by
  refine still_get trivial fun dirFS => ?_
  refine still_get trivial fun targetFS => ?_
  simp only
  split
  · trivial
  · refine .bind (still_exec rfl) fun dir => ?_
    split
    · exact .bind (still_exec rfl) fun target => (looks_call rfl).still
    · trivial

theorem still_handleRenameat {m : P9l.Trenameat} : Still (handleRenameat cfg m) := by
  refine still_get trivial fun oldDirFS => ?_
  refine still_get trivial fun newDirFS => ?_
  simp only
  split
  · trivial
  split
  · trivial
  · refine .bind (still_exec rfl) fun dir => ?_
    split
    · exact .bind (still_exec rfl) fun newDir => (looks_call rfl).still
    · trivial

theorem still_handleRename {m : P9l.Trename} : Still (handleRename cfg m) := by
  refine still_get trivial fun fs => ?_
  refine still_get trivial fun dirFS => ?_
  simp only
  split
  · trivial
  · refine .bind (still_exec rfl) fun node => .bind looks_inodeEntry.still fun x => ?_
    split
    · trivial
    · split
      · exact .bind (still_exec rfl) fun dir => (looks_call rfl).still
      · trivial

theorem still_handleXattrcreate {m : P9l.Txattrcreate} : Still (handleXattrcreate cfg m) := by
  refine still_get trivial fun fs => ?_
  refine .bind (still_exec rfl) fun state => ?_
  split
  · trivial
  refine .bind (still_exec rfl) fun msize => ?_
  split
  · trivial
  refine .bind (still_exec rfl) fun node => ?_
  split
  · refine .bind (looks_call rfl).still fun x => ?_
    cases x with
    | error e => trivial
    | ok => exact .bind (still_exec rfl) fun _ => trivial
  · refine .bind (still_exec rfl) fun node => ?_
    -- the condition has an `if` of its own
    by_cases hsup : cfg.implements node (if m.attrSize = 0 then .nodeXattrRemover else .nodeXattrSetter) = true
    · rw [if_pos hsup]
      exact .bind (still_exec rfl) fun _ => trivial
    · rw [if_neg hsup]
      trivial

end Still

/-! ## Binding -/

def Cmd.binds : Cmd ν → Bool
  | .add _ _ state => state ≠ .opened
  | .update _ _ | .incRef _ | .decRef _ | .refs _ | .close _ => true
  | c => c.still

/-- A program that opens, clunks and releases nothing. -/
abbrev Binds {α : Type} (p : Op ν α) : Prop := p.All (·.binds = true)

section Binds

variable {node walkStart current : ν} {m : Twalk}

theorem binds_of_still (h : c.still = true) : c.binds = true := by
  cases c <;> first | exact h | rfl | cases h

theorem Still.binds {α : Type} {p : Op ν α} (h : Still p) : Binds p := h.mono fun _ => binds_of_still

theorem binds_exec (h : c.binds = true) : Binds (exec c) := Prog.all_lift.2 h

theorem binds_incRefNode : Binds (incRefNode cfg n) := by
  unfold incRefNode
  split
  · exact binds_exec rfl
  · trivial

theorem binds_decRefNode : Binds (decRefNode cfg n) := by
  unfold decRefNode
  split
  · exact binds_exec rfl
  · trivial

theorem binds_closeOrphanNode : Binds (closeOrphanNode cfg n) := by
  unfold closeOrphanNode
  split
  · exact binds_exec rfl
  · trivial

theorem binds_closeUnboundNode : Binds (closeUnboundNode cfg n) := by
  unfold closeUnboundNode
  split
  · refine .bind (binds_exec rfl) fun refs => ?_
    split
    · trivial
    · exact binds_closeOrphanNode
  · exact binds_closeOrphanNode

theorem binds_addFid (hstate : state ≠ .opened) :
    Binds (addFid cfg fid node state) := by
  refine .bind (binds_exec (decide_eq_true hstate)) fun x => ?_
  split
  · trivial
  · trivial
  · exact .bind binds_incRefNode fun _ => trivial

theorem binds_rebound : Binds (rebound cfg node prev) :=
  .bind binds_incRefNode fun _ => .bind binds_decRefNode fun _ => trivial

theorem binds_handleAttach {m : Tattach} : Binds (handleAttach cfg m) := by
  unfold handleAttach
  split
  · trivial
  · refine .bind looks_resolveRoot.still.binds fun x => ?_
    cases x with
    | error e => trivial
    | ok node =>
      refine .bind (binds_addFid (by decide)) fun a => ?_
      cases a with
      | error e => trivial
      | ok => exact .bind (looks_call rfl).still.binds fun _ => trivial

theorem binds_addXattrReadFid : Binds (addXattrReadFid cfg newFid node a) := by
  cases a with
  | error e => trivial
  | ok => exact binds_addFid (by decide)

theorem binds_handleXattrwalk {m : P9l.Txattrwalk} : Binds (handleXattrwalk cfg m) := by
  refine .bind (binds_exec rfl) fun x => ?_
  cases x with
  | none => trivial
  | some fs =>
    refine .bind (binds_exec rfl) fun node => ?_
    split
    · exact .bind (looks_call rfl).still.binds fun _ => binds_addXattrReadFid
    split
    · split
      · exact .bind (looks_call rfl).still.binds fun _ => binds_addXattrReadFid
      · trivial
    split
    · exact .bind (looks_call rfl).still.binds fun _ => binds_addXattrReadFid
    · trivial

variable [DecidableEq ν]

theorem binds_walkNames {names : List Bytes} {count : Nat} : Binds (walkNames cfg walkStart names current count) := by
  induction names generalizing current count with
  | nil => trivial
  | cons name names ih =>
    refine .bind (.bind (looks_call rfl).still.binds fun q => ?_) fun dir => ?_
    · cases q <;> trivial
    split
    · refine .bind (looks_call rfl).still.binds fun x => ?_
      cases x with
      | error e => trivial
      | ok child =>
        refine .bind (looks_call rfl).still.binds fun _ => ?_
        split
        · exact .bind binds_closeUnboundNode fun _ => ih
        · exact ih
    · trivial

theorem binds_dropWalked : Binds (dropWalked cfg walkStart current) := by
  unfold dropWalked
  split
  · exact binds_closeUnboundNode
  · trivial

theorem binds_bindWalked : Binds (bindWalked cfg m walkStart current) := by
  unfold bindWalked
  split
  · refine .bind (binds_exec rfl) fun x => ?_
    cases x with
    | none => exact .bind binds_dropWalked fun _ => trivial
    | some prev => exact .bind binds_rebound fun _ => trivial
  · refine .bind (binds_addFid (by decide)) fun a => ?_
    cases a with
    | error e => exact .bind binds_dropWalked fun _ => trivial
    | ok => trivial

theorem binds_handleWalk : Binds (handleWalk cfg m) := by
  refine .bind (binds_exec rfl) fun x => ?_
  cases x with
  | none => trivial
  | some src =>
    simp only
    split
    · split
      · trivial
      · exact .bind (binds_exec rfl) fun _ => binds_addFid (by decide)
    split
    · trivial
    · refine .bind (binds_exec rfl) fun walkStart => .bind binds_walkNames fun w => ?_
      split
      · exact binds_bindWalked
      · split
        · trivial
        · exact .bind binds_dropWalked fun _ => trivial

end Binds

end NineP.Server.Handlers
