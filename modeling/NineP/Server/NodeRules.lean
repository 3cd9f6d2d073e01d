import NineP.Server.Footprint
import NineP.Server.Requests

/-!
# Which nodes handlers use

A handler calls a node, or binds it to a fid, after it has got hold of it: from a fid state, from a call, or as a root of
the server.
-/

namespace NineP.Server.Handlers

open Codec Proto Program Transition List
open Rules (wp_bind wp_cmd)

variable {ν : Type} [DecidableEq ν] {cfg : Config ν} {g : Ghost ν} {fs : Nat} {n : ν} {α : Type} {m : Method ν}

/-! ## Rules -/

/-- The nodes that `Tattach` may bind without a call. -/
def Config.isRoot (cfg : Config ν) (n : ν) : Bool := n = cfg.root || (cfg.anames.getD []).any (·.2 = n)

def Ghost.Got (cfg : Config ν) (g : Ghost ν) (n : ν) : Prop := n ∈ g.nodes ∨ cfg.isRoot n = true

def useRules (cfg : Config ν) : Rules (Cmd ν) Cmd.Res (Ghost ν) where
  pre
    | .call (some n) _, g | .add _ n _, g | .update _ n, g | .updateAndOpen _ n _, g => g.Got cfg n
    | .setXattrWrite fs _ _ _ _, g => fs ∈ g.states
    | _, _ => True
  post c g x g' := g' = g.note c x

/-- The program keeps to the rules. -/
abbrev Uses {α : Type} (cfg : Config ν) (p : Op ν α) (g : Ghost ν) : Prop := (useRules cfg).Wp p (fun _ _ => True) g

/-! ## Commands -/

section Commands

/-- The commands that use no node. -/
def Cmd.free {ν : Type} : Cmd ν → Bool
  | .call (some _) _ | .add _ _ _ | .update _ _ | .updateAndOpen _ _ _ | .setXattrWrite _ _ _ _ _ => false
  | _ => true

variable {c : Cmd ν}

theorem pre_of_free (h : c.free = true) : (useRules cfg).pre c g := by
  cases c with
  | call n m =>
    cases n with
    | none => trivial
    | some n => cases h
  | add | update | updateAndOpen | setXattrWrite => cases h
  | _ => trivial

/-- A program that uses no node. -/
abbrev Free {ν α : Type} (p : Op ν α) : Prop := p.All (·.free = true)

theorem Free.uses {p : Op ν α} (h : Free p) : Uses cfg p g :=
  .of_all (fun _ hc _ _ => ⟨pre_of_free hc, fun _ _ _ => trivial⟩) h trivial

theorem uses_free {f : c.Res → Op ν α} (hc : c.free = true) (h : ∀ x, Uses cfg (f x) (g.note c x)) :
    Uses cfg (exec c >>= f) g :=
  wp_cmd.2 ⟨pre_of_free hc, fun x _ hpost => hpost ▸ h x⟩

theorem uses_get {fid : Fid} {f : Option Nat → Op ν α} (hio : g.io = false) (hnone : Uses cfg (f none) g)
    (hsome : ∀ fs, Uses cfg (f (some fs)) { g with states := fs :: g.states }) :
    Uses cfg (exec (.get fid) >>= f) g := by
  refine uses_free rfl fun x => ?_
  cases x with
  | none => exact hnone
  | some fs =>
    have hnote : g.note (.get fid) (some fs) = { g with states := fs :: g.states } := if_neg (by simp [hio])
    rw [hnote]
    exact hsome fs

theorem uses_currentNode {f : ν → Op ν α} (hfs : fs ∈ g.states)
    (h : ∀ n, Uses cfg (f n) { g with nodes := n :: g.nodes }) : Uses cfg (exec (.currentNode fs) >>= f) g := by
  refine uses_free rfl fun n => ?_
  simp only [Ghost.note, hfs, if_true]
  exact h n

theorem uses_call {f : Except Errno m.Out → Op ν α} (hn : g.Got cfg n)
    (h : ∀ x, Uses cfg (f x) (g.note (.call (some n) m) x)) : Uses cfg (call n m >>= f) g :=
  wp_cmd.2 ⟨hn, fun x _ hpost => hpost ▸ h x⟩

theorem uses_call_last (hn : g.Got cfg n) : Uses cfg (call n m) g := ⟨hn, fun _ _ _ => trivial⟩

theorem note_call_nodes {c : Option ν} (x : Except Errno m.Out) :
    g.nodes ⊆ (g.note (.call c m) x).nodes ∧ (g.note (.call c m) x).states = g.states := by
  cases x with
  | error e => cases m <;> exact ⟨List.Subset.refl _, rfl⟩
  | ok x =>
    cases m with
    | attach | lookup | mkdir | symlink | mknod | create => exact ⟨subset_cons_self _ _, rfl⟩
    | parent =>
      cases x with
      | none => exact ⟨List.Subset.refl _, rfl⟩
      | some p => exact ⟨subset_cons_self _ _, rfl⟩
    | _ => exact ⟨List.Subset.refl _, rfl⟩

theorem got_cons {m : ν} : Ghost.Got cfg { g with nodes := n :: g.nodes } m ↔ m = n ∨ g.Got cfg m := by
  simp [Ghost.Got, or_assoc]

theorem got_self : Ghost.Got cfg { g with nodes := n :: g.nodes } n := .inl mem_cons_self

theorem Ghost.Got.call {c : Option ν} (h : g.Got cfg n) (x : Except Errno m.Out) :
    (g.note (.call c m) x).Got cfg n :=
  h.imp (fun hn => (note_call_nodes x).1 hn) id

end Commands

/-! ## Parts of handlers -/

section Parts

omit [DecidableEq ν] in
theorem free_exec {c : Cmd ν} (h : c.free = true) : Free (exec c) := Prog.all_lift.2 h

omit [DecidableEq ν] in
theorem free_incRefNode : Free (incRefNode cfg n) := by
  unfold incRefNode
  split
  · exact free_exec rfl
  · trivial

omit [DecidableEq ν] in
theorem free_decRefNode : Free (decRefNode cfg n) := by
  unfold decRefNode
  split
  · exact free_exec rfl
  · trivial

omit [DecidableEq ν] in
theorem free_rebound {prev : ν} : Free (rebound cfg node prev) :=
  .bind free_incRefNode fun _ => .bind free_decRefNode fun _ => trivial

omit [DecidableEq ν] in
theorem free_closeOrphanNode : Free (closeOrphanNode cfg n) := by
  unfold closeOrphanNode
  split
  · exact free_exec rfl
  · trivial

omit [DecidableEq ν] in
theorem free_closeUnboundNode : Free (closeUnboundNode cfg n) := by
  unfold closeUnboundNode
  split
  · refine .bind (free_exec rfl) fun refs => ?_
    split
    · trivial
    · exact free_closeOrphanNode
  · exact free_closeOrphanNode

omit [DecidableEq ν] in
theorem free_releaseFileHandle : Free (releaseFileHandle h : Op ν Unit) := by
  cases h with
  | none => trivial
  | some h =>
    rw [releaseFileHandle]
    split
    · exact free_exec rfl
    · trivial

variable {closeNode : Bool} {Q : Unit → Ghost ν → Prop}

omit [DecidableEq ν] in
theorem free_releaseNow : Free (releaseNow cfg fs closeNode) := by
  refine .bind (free_exec rfl) fun h => .bind free_releaseFileHandle fun _ => ?_
  split
  · exact .bind (free_exec rfl) fun _ => free_closeOrphanNode
  · trivial

omit [DecidableEq ν] in
theorem free_finishClunk : Free (finishClunk cfg fs closeNode) := by
  refine .bind (free_exec rfl) fun release => ?_
  split
  · exact free_releaseNow
  · trivial

omit [DecidableEq ν] in
theorem free_endIo : Free (endIo cfg fs) := by
  refine .bind (free_exec rfl) fun x => ?_
  obtain ⟨release, closeNode⟩ := x
  simp only
  split
  · exact free_releaseNow
  · trivial

theorem wp_incRefNode_note (hQ : Q () g) : (useRules cfg).Wp (incRefNode cfg n) Q g := by
  unfold incRefNode
  split
  · exact ⟨trivial, fun _ _ hpost => hpost ▸ hQ⟩
  · exact hQ

theorem wp_decRefNode_note {Q : Bool → Ghost ν → Prop} (hQ : ∀ last, Q last g) :
    (useRules cfg).Wp (decRefNode cfg n) Q g := by
  unfold decRefNode
  split
  · exact ⟨trivial, fun last _ hpost => hpost ▸ hQ last⟩
  · exact hQ true

theorem wp_closeUnboundNode_note (hQ : ∀ g' : Ghost ν, (∀ m, m ≠ n → g.Got cfg m → g'.Got cfg m) → Q () g') :
    (useRules cfg).Wp (closeUnboundNode cfg n) Q g := by
  have hclose : (useRules cfg).Wp (closeOrphanNode cfg n) Q g := by
    unfold closeOrphanNode
    split
    · refine ⟨trivial, fun _ g' hpost => ?_⟩
      obtain rfl := hpost
      exact hQ _ fun m hm hgot => hgot.imp (fun h => mem_filter.2 ⟨h, by simpa using hm⟩) id
    · exact hQ g fun _ _ => id
  unfold closeUnboundNode
  split
  · refine wp_cmd.2 ⟨trivial, fun refs g' hpost => ?_⟩
    obtain rfl : g' = g := hpost
    split
    · exact hQ g' fun _ _ => id
    · exact hclose
  · exact hclose

theorem uses_addFid {fid : Fid} {state : FidStatus} (hn : g.Got cfg n) : Uses cfg (addFid cfg fid n state) g := by
  refine wp_cmd.2 ⟨hn, fun x g' hpost => ?_⟩
  obtain rfl := hpost
  split
  · trivial
  · trivial
  · exact wp_bind.2 (wp_incRefNode_note trivial)

theorem uses_onCurrentNode {f : Answer → Op ν α} (hfs : fs ∈ g.states)
    (hf : ∀ a g', g'.states = g.states → Uses cfg (f a) g') : Uses cfg (onCurrentNode cfg fs i m >>= f) g := by
  refine wp_bind.2 (wp_cmd.2 ⟨trivial, fun node g' hpost => ?_⟩)
  obtain rfl : g' = { g with nodes := node :: g.nodes } := by simpa [useRules, Ghost.note, hfs] using hpost
  split
  · refine wp_bind.2 ⟨got_self, fun x g' hpost => hf _ _ ?_⟩
    rw [hpost]
    exact (note_call_nodes x).2
  · exact hf _ _ rfl

theorem uses_onCurrentNode_last (hfs : fs ∈ g.states) : Uses cfg (onCurrentNode cfg fs i m) g := by
  refine uses_currentNode hfs fun node => ?_
  split
  · exact uses_call got_self fun _ => trivial
  · trivial

theorem uses_currentQID {f : Unit → Op ν α} (hfs : fs ∈ g.states) (hf : ∀ g', Uses cfg (f ()) g') :
    Uses cfg (currentQID fs >>= f) g := by
  refine wp_bind.2 (wp_cmd.2 ⟨trivial, fun node g' hpost => ?_⟩)
  obtain rfl : g' = { g with nodes := node :: g.nodes } := by simpa [useRules, Ghost.note, hfs] using hpost
  exact wp_bind.2 ⟨got_self, fun x g' hpost => hf _⟩

end Parts

/-! ## Handlers -/

section Handlers

theorem wp_resolveRoot_note {aname : Bytes} {Q : Except Errno ν → Ghost ν → Prop} (herr : ∀ e, Q (.error e) g)
    (hok : ∀ n g', g'.Got cfg n → Q (.ok n) g') : (useRules cfg).Wp (resolveRoot cfg aname) Q g := by
  have hroot : g.Got cfg cfg.root := .inr (by simp [Config.isRoot])
  unfold resolveRoot
  split
  · refine ⟨trivial, fun x g' hpost => ?_⟩
    obtain rfl := hpost
    cases x with
    | error e => exact herr e
    | ok n => exact hok n _ got_self
  split
  · split
    · exact hok _ g hroot
    · split
      · rename_i anames hanames _ _ n hlookup
        refine hok _ g (.inr ?_)
        obtain ⟨l₁, l₂, hl, -⟩ := lookup_eq_some_iff.1 hlookup
        simp only [Config.isRoot, hanames, Option.getD_some, Bool.or_eq_true, List.any_eq_true, decide_eq_true_eq]
        exact .inr ⟨(aname, n), by simp [hl], rfl⟩
      · exact herr _
  · exact hok _ g hroot

theorem uses_handleAttach {m : Tattach} : Uses cfg (handleAttach cfg m) g := by
  unfold handleAttach
  split
  · trivial
  · refine wp_bind.2 (wp_resolveRoot_note (fun e => trivial) fun node g' hnode => wp_bind.2 ?_)
    refine wp_cmd.2 ⟨hnode, fun x g'' hpost => ?_⟩
    obtain rfl : g'' = g' := hpost
    split
    · trivial
    · trivial
    · refine wp_bind.2 (wp_incRefNode_note ?_)
      exact uses_call hnode fun _ => trivial

variable {walkStart current : ν}

theorem wp_walkNames_note {names : List Bytes} {count : Nat} (hn : g.Got cfg current) :
    (useRules cfg).Wp (walkNames cfg walkStart names current count) (fun w g => g.Got cfg w.current) g := by
  induction names generalizing current count g with
  | nil => exact hn
  | cons name names ih =>
    refine wp_bind.2 (wp_bind.2 ⟨hn, fun q g' hpost => ?_⟩)
    obtain rfl : g' = g := by
      rw [hpost]
      cases q <;> rfl
    cases q with
    | error e => exact hn
    | ok qid =>
      show (useRules cfg).Wp (if _ then _ else _) _ _
      split
      · refine wp_cmd.2 ⟨hn, fun x g'' hpost => ?_⟩
        obtain rfl := hpost
        cases x with
        | error e => exact hn
        | ok child =>
          refine wp_cmd.2 ⟨got_self, fun q g'' hpost => ?_⟩
          have hchild : g''.Got cfg child := hpost ▸ Ghost.Got.call got_self q
          split
          · rename_i hne
            refine wp_bind.2 (wp_closeUnboundNode_note fun g₃ hkeep => ih ?_)
            exact hkeep child (Ne.symm hne.2) hchild
          · exact ih hchild
      · exact hn

theorem free_dropWalked : Free (dropWalked cfg walkStart current) := by
  unfold dropWalked
  split
  · exact free_closeUnboundNode
  · trivial

theorem uses_bindWalked {m : Twalk} (hn : g.Got cfg current) : Uses cfg (bindWalked cfg m walkStart current) g := by
  unfold bindWalked
  split
  · refine wp_cmd.2 ⟨hn, fun x g' _ => ?_⟩
    cases x with
    | none => exact Free.uses (.bind free_dropWalked fun _ => trivial)
    | some prev => exact Free.uses (.bind free_rebound fun _ => trivial)
  · refine wp_bind.2 (uses_addFid hn |>.mono fun a g' _ => ?_)
    cases a with
    | error e => exact Free.uses (.bind free_dropWalked fun _ => trivial)
    | ok => trivial

theorem uses_handleWalk {m : Twalk} (hio : g.io = false) : Uses cfg (handleWalk cfg m) g := by
  refine uses_get hio trivial fun src => ?_
  simp only
  split
  · split
    · trivial
    · exact uses_currentNode mem_cons_self fun node => uses_addFid got_self
  split
  · trivial
  · refine uses_currentNode mem_cons_self fun walkStart => ?_
    refine wp_bind.2 ((wp_walkNames_note got_self).mono fun w g' hw => ?_)
    cases w.stop with
    | none => exact uses_bindWalked hw
    | some e =>
      simp only
      split
      · trivial
      · exact Free.uses (.bind free_dropWalked fun _ => trivial)

theorem uses_commitXattr {x : Xattr ν} (hx : g.Got cfg x.node) : Uses cfg (commitXattr cfg x) g := by
  unfold commitXattr
  split
  · exact Free.uses (Prog.all_lift.2 rfl)
  split
  · split
    · exact uses_call_last hx
    · trivial
  split
  · trivial
  split
  · exact uses_call_last hx
  · trivial

theorem uses_handleClunk {m : Tclunk} : Uses cfg (handleClunk cfg m) g := by
  refine uses_free rfl fun x => ?_
  cases x with
  | none => trivial
  | some fs =>
    -- what the handler has doomed stays doomed until it commits
    refine wp_cmd.2 ⟨trivial, fun node g' hpost => ?_⟩
    have hdoomed : fs ∈ g'.doomed := by
      rw [hpost]
      by_cases hfs : fs ∈ g.states <;> simp [Ghost.note, hfs]
    refine wp_bind.2 (wp_decRefNode_note fun lastRef => uses_free rfl fun x => ?_)
    cases x with
    | some x =>
      refine uses_commitXattr ?_
      simp only [Ghost.note, hdoomed, if_true]
      exact got_self
    | none => exact Free.uses (.bind free_finishClunk fun _ => trivial)

theorem wp_inodeEntry_note {Q : Except Errno (ν × Bytes) → Ghost ν → Prop} (herr : ∀ e g', g'.states = g.states →
    Q (.error e) g') (hok : ∀ p name g', g'.Got cfg p → g'.states = g.states → Q (.ok (p, name)) g') :
    (useRules cfg).Wp (inodeEntry cfg n) Q g := by
  unfold inodeEntry
  split
  · refine wp_cmd.2 ⟨trivial, fun x g' hpost => ?_⟩
    have hstates : g'.states = g.states := by
      rw [hpost]
      exact (note_call_nodes x).2
    split
    · rename_i parent
      have hparent : g'.Got cfg parent := hpost ▸ got_self
      refine wp_cmd.2 ⟨trivial, fun y g'' hpost => ?_⟩
      have hstates' : g''.states = g.states := by
        rw [hpost, (note_call_nodes y).2, hstates]
      split
      · exact hok _ _ _ (hpost ▸ hparent.call _) hstates'
      · exact herr _ _ hstates'
    · exact herr _ _ hstates
  · exact herr _ _ rfl

theorem uses_handleRemove {m : Tremove} : Uses cfg (handleRemove cfg m) g := by
  refine uses_free rfl fun x => ?_
  cases x with
  | none => trivial
  | some fs =>
    refine uses_free rfl fun node => wp_bind.2 (wp_bind.2 ?_)
    have hrest (a : Answer) (g' : Ghost ν) : Uses cfg (do
        let node ← exec (.currentNode fs)
        let lastRef ← decRefNode cfg node
        finishClunk cfg fs lastRef
        pure a) g' :=
      Free.uses (.bind (free_exec rfl) fun _ => .bind free_decRefNode fun _ => .bind free_finishClunk fun _ => trivial)
    refine wp_inodeEntry_note (fun e g' _ => hrest _ g') fun p name g' hp _ => ?_
    simp only
    split
    · exact ⟨hp, fun a g'' _ => hrest a g''⟩
    · exact hrest _ g'

theorem uses_openFid (hio : g.io = false) : Uses cfg (openFid cfg fid flags) g := by
  refine uses_get hio trivial fun fs => ?_
  refine uses_free rfl fun state => ?_
  split
  · trivial
  refine uses_currentNode mem_cons_self fun node => ?_
  split
  · refine uses_call got_self fun x => ?_
    cases x with
    | error e => trivial
    | ok h =>
      refine uses_currentQID mem_cons_self fun g' => ?_
      refine uses_free rfl fun marked => ?_
      split
      · trivial
      · exact Free.uses (.bind free_releaseFileHandle fun _ => trivial)
  · trivial

theorem uses_createFid {mode : FileMode} {gid : UInt32} (hio : g.io = false) :
    Uses cfg (createFid cfg fid name flags mode gid) g := by
  refine uses_get hio trivial fun fs => ?_
  refine uses_free rfl fun state => ?_
  split
  · trivial
  split
  · trivial
  refine uses_currentNode mem_cons_self fun node => ?_
  split
  · refine uses_call got_self fun x => ?_
    cases x with
    | error e => trivial
    | ok x =>
      obtain ⟨child, h⟩ := x
      refine wp_cmd.2 ⟨got_self, fun prev g' hpost => ?_⟩
      cases prev with
      | none =>
        exact Free.uses (.bind free_releaseFileHandle fun _ => .bind free_closeOrphanNode fun _ => trivial)
      | some prev =>
        obtain rfl := hpost
        refine wp_bind.2 (wp_bind.2 (wp_incRefNode_note (wp_bind.2 (wp_decRefNode_note fun _ => ?_))))
        exact uses_call got_self fun _ => trivial
  · trivial

theorem uses_withIo {body : Op ν Answer} (hfs : fs ∈ g.guarded)
    (hbody : ∀ g', fs ∈ g'.states → Uses cfg body g') : Uses cfg (withIo cfg fs body) g := by
  refine uses_free rfl fun began => ?_
  cases began with
  | true =>
    refine wp_bind.2 ((hbody _ ?_).mono fun a g' _ => Free.uses (.bind free_endIo fun _ => trivial))
    simp [Ghost.note, hfs]
  | false => trivial

theorem uses_get_io {fid : Fid} {f : Option Nat → Op ν Answer} (hio : g.io = true) (hnone : Uses cfg (f none) g)
    (hsome : ∀ fs, Uses cfg (f (some fs)) { g with guarded := fs :: g.guarded }) :
    Uses cfg (exec (.get fid) >>= f) g := by
  refine uses_free rfl fun x => ?_
  cases x with
  | none => exact hnone
  | some fs =>
    have hnote : g.note (.get fid) (some fs) = { g with guarded := fs :: g.guarded } := if_pos hio
    rw [hnote]
    exact hsome fs

theorem uses_preferHandle {fi : FileIface} (hfs : fs ∈ g.states) : Uses cfg (preferHandle cfg fs fi i m) g := by
  refine uses_free rfl fun h => ?_
  cases h with
  | none => exact uses_onCurrentNode_last hfs
  | some h =>
    simp only
    split
    · exact Free.uses (Prog.all_lift.2 rfl)
    · exact uses_onCurrentNode_last hfs

theorem uses_onOpened {body : Nat → Op ν Answer} (hio : g.io = true)
    (hbody : ∀ fs g', fs ∈ g'.states → Uses cfg (body fs) g') : Uses cfg (onOpened cfg fid body) g := by
  refine uses_get_io hio trivial fun fs => ?_
  refine uses_free rfl fun state => ?_
  split
  · trivial
  · exact uses_withIo mem_cons_self (hbody fs)

theorem uses_handleRead {m : Tread} (hio : g.io = true) : Uses cfg (handleRead cfg m) g := by
  refine uses_get_io hio trivial fun fs => ?_
  refine uses_free rfl fun state => ?_
  cases state with
  | opened => exact uses_withIo mem_cons_self fun _ => uses_preferHandle
  | allocated | xattrRead | xattrWrite => trivial

theorem uses_handleWrite {m : Twrite} (hio : g.io = true) : Uses cfg (handleWrite cfg m) g := by
  refine uses_get_io hio trivial fun fs => ?_
  refine uses_free rfl fun x => ?_
  cases x with
  | refused e | appended => trivial
  | writer => exact Free.uses (Prog.all_lift.2 rfl)
  | other state =>
    cases state with
    | opened => exact uses_withIo mem_cons_self fun _ => uses_preferHandle
    | allocated | xattrRead | xattrWrite => trivial

theorem uses_readdirSimple {offset : UInt64} {fetch : Op ν Answer} (h : ∀ g', g.nodes ⊆ g'.nodes → Uses cfg fetch g') :
    Uses cfg (readdirSimple fs offset fetch) g := by
  refine uses_free rfl fun stale => ?_
  split
  · refine wp_bind.2 ((h _ (List.Subset.refl _)).mono fun a g' _ => ?_)
    cases a with
    | error e => trivial
    | ok => exact Free.uses (.bind (free_exec rfl) fun _ => trivial)
  · trivial

theorem uses_readdirNode {m : P9l.Treaddir} (hfs : fs ∈ g.states) : Uses cfg (readdirNode cfg m fs) g := by
  refine uses_currentNode hfs fun node => ?_
  split
  · exact uses_call_last got_self
  · refine uses_currentNode hfs fun node => ?_
    split
    · exact uses_readdirSimple fun g' hg' => uses_call_last (.inl (hg' mem_cons_self))
    · trivial

theorem uses_handleReaddir {m : P9l.Treaddir} (hio : g.io = true) : Uses cfg (handleReaddir cfg m) g := by
  refine uses_onOpened hio fun fs g' hfs => uses_free rfl fun h => ?_
  have hother (h : Nat) (i : FileIface) (g' : Ghost ν) : Uses cfg (callOther (.onHandle h i)) g' :=
    Free.uses (Prog.all_lift.2 rfl)
  cases h with
  | none => exact uses_readdirNode hfs
  | some h =>
    simp only
    split
    · exact hother _ _ _
    split
    · exact uses_readdirSimple fun g' _ => hother _ _ _
    · exact uses_readdirNode hfs

section

variable (hio : g.io = false)
include hio

theorem uses_onNode : Uses cfg (onNode cfg fid i m) g :=
  uses_get hio trivial fun _ => uses_onCurrentNode_last mem_cons_self

theorem uses_getattr : Uses cfg (getattr cfg fid) g := by
  refine uses_get hio trivial fun fs => ?_
  refine uses_onCurrentNode mem_cons_self fun a g' hg' => ?_
  cases a with
  | error e => trivial
  | ok =>
    refine uses_currentQID ?_ fun _ => trivial
    rw [hg']
    exact mem_cons_self

theorem uses_onDir : Uses cfg (onDir cfg fid name i m) g := by
  refine uses_get hio trivial fun fs => ?_
  simp only
  split
  · trivial
  · exact uses_onCurrentNode_last mem_cons_self

theorem uses_makeChild {make : ν → Op ν (Except Errno ν)} (hmake : ∀ n g', g'.Got cfg n →
      (useRules cfg).Wp (make n) (fun x g => ∀ child, x = .ok child → g.Got cfg child) g') :
    Uses cfg (makeChild cfg fid name i make) g := by
  refine uses_get hio trivial fun fs => ?_
  simp only
  split
  · trivial
  · refine uses_currentNode mem_cons_self fun node => ?_
    split
    · refine wp_bind.2 ((hmake node _ got_self).mono fun x g' hx => ?_)
      cases x with
      | error e => trivial
      | ok child => exact uses_call (hx child rfl) fun _ => trivial
    · trivial

theorem uses_handleLink {m : P9l.Tlink} : Uses cfg (handleLink cfg m) g := by
  refine uses_get hio trivial fun dirFS => ?_
  refine uses_get hio trivial fun targetFS => ?_
  simp only
  split
  · trivial
  · refine uses_currentNode (by simp) fun dir => ?_
    split
    · exact uses_currentNode (by simp) fun target => uses_call_last (got_cons.2 (.inr got_self))
    · trivial

theorem uses_handleRenameat {m : P9l.Trenameat} : Uses cfg (handleRenameat cfg m) g := by
  refine uses_get hio trivial fun oldDirFS => ?_
  refine uses_get hio trivial fun newDirFS => ?_
  simp only
  split
  · trivial
  split
  · trivial
  · refine uses_currentNode (by simp) fun oldDir => ?_
    split
    · exact uses_currentNode (by simp) fun newDir => uses_call_last (got_cons.2 (.inr got_self))
    · trivial

theorem uses_handleRename {m : P9l.Trename} : Uses cfg (handleRename cfg m) g := by
  refine uses_get hio trivial fun fs => ?_
  refine uses_get hio trivial fun dirFS => ?_
  simp only
  split
  · trivial
  · refine uses_currentNode (by simp) fun node => ?_
    refine wp_bind.2 (wp_inodeEntry_note (fun e g' _ => trivial) fun p name g' hp hstates => ?_)
    simp only
    split
    · exact uses_currentNode (by simp [hstates]) fun dir => uses_call_last (got_cons.2 (.inr hp))
    · trivial

end

theorem uses_addXattrReadFid {newFid : Fid} {a : Answer} (hn : g.Got cfg n) :
    Uses cfg (addXattrReadFid cfg newFid n a) g := by
  cases a with
  | error e => trivial
  | ok => exact uses_addFid hn

theorem uses_handleXattrwalk {m : P9l.Txattrwalk} (hio : g.io = false) : Uses cfg (handleXattrwalk cfg m) g := by
  refine uses_get hio trivial fun fs => ?_
  refine uses_currentNode mem_cons_self fun node => ?_
  split
  · exact uses_call got_self fun x => uses_addXattrReadFid (Ghost.Got.call got_self x)
  split
  · split
    · exact uses_call got_self fun x => uses_addXattrReadFid (Ghost.Got.call got_self x)
    · trivial
  split
  · exact uses_call got_self fun x => uses_addXattrReadFid (Ghost.Got.call got_self x)
  · trivial

theorem uses_setXattrWrite {size : UInt64} {writer : Bool} (hfs : fs ∈ g.states) :
    Uses cfg (exec (.setXattrWrite fs name size flags writer) >>= fun _ => pure (Except.ok () : Answer)) g :=
  wp_cmd.2 ⟨hfs, fun _ _ _ => trivial⟩

theorem uses_handleXattrcreate {m : P9l.Txattrcreate} (hio : g.io = false) : Uses cfg (handleXattrcreate cfg m) g := by
  refine uses_get hio trivial fun fs => ?_
  refine uses_free rfl fun state => ?_
  split
  · trivial
  refine uses_free rfl fun msize => ?_
  split
  · trivial
  refine uses_currentNode mem_cons_self fun node => ?_
  split
  · refine uses_call got_self fun x => ?_
    cases x with
    | error e => trivial
    | ok => exact uses_setXattrWrite mem_cons_self
  · refine uses_currentNode mem_cons_self fun node => ?_
    by_cases hsup : cfg.implements node (if m.attrSize = 0 then .nodeXattrRemover else .nodeXattrSetter) = true
    · rw [if_pos hsup]
      exact uses_setXattrWrite mem_cons_self
    · rw [if_neg hsup]
      trivial

theorem uses_dispatch (req : Request) : Uses cfg (dispatch cfg req) { io := req.isIo } := by
  cases req with
  | attach m => exact uses_handleAttach
  | walk m => exact uses_handleWalk rfl
  | clunk m => exact uses_handleClunk
  | remove m => exact uses_handleRemove
  | lopen m => exact uses_openFid rfl
  | uOpen m =>
    show Uses cfg (handleUOpen cfg m) _
    unfold handleUOpen
    split
    · trivial
    · exact uses_openFid rfl
  | lcreate m => exact uses_createFid rfl
  | uCreate m =>
    show Uses cfg (handleUCreate cfg m) _
    unfold handleUCreate
    split
    · trivial
    · split
      · trivial
      · exact uses_createFid rfl
  | read m => exact uses_handleRead rfl
  | write m => exact uses_handleWrite rfl
  | readdir m => exact uses_handleReaddir rfl
  | fsync | lock | getlock => exact uses_onOpened rfl fun _ _ => uses_preferHandle
  | getattr | uStat => exact uses_getattr rfl
  | setattr | readlink | statfs => exact uses_onNode rfl
  | mkdir | symlink | mknod =>
    refine uses_makeChild rfl fun n g' hn => ⟨hn, fun x g'' hpost child hx => ?_⟩
    subst hx
    exact hpost ▸ got_self
  | link m => exact uses_handleLink rfl
  | unlinkat m => exact uses_onDir rfl
  | renameat m => exact uses_handleRenameat rfl
  | rename m => exact uses_handleRename rfl
  | xattrwalk m => exact uses_handleXattrwalk rfl
  | xattrcreate m => exact uses_handleXattrcreate rfl

theorem uses_clunkAll {drained : Bool} : Uses cfg (clunkAll cfg drained) g := by
  have hstates (states : List Nat) : Free (releaseStates cfg drained states) := by
    induction states with
    | nil => trivial
    | cons fs states ih =>
      refine .bind (free_exec rfl) fun node => .bind free_decRefNode fun lastRef => ?_
      split
      · exact .bind free_releaseNow fun _ => ih
      · exact ih
  exact Free.uses (.bind (free_exec rfl) fun states => .bind (hstates states) fun _ => trivial)

end Handlers

end NineP.Server.Handlers
