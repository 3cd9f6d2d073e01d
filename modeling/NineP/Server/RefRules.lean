import NineP.Server.Footprint
import NineP.Server.Requests

/-!
# What handlers owe the reference counts

A handler binds or unbinds a fid in one step and counts the reference in another one.  In between it owes the
difference.
-/

namespace NineP.Server.Handlers

open Codec Proto Program Transition List
open Rules (wp_bind wp_cmd)

variable {ν : Type}

/-! ## What handlers owe -/

/-- What a handler owes, and what it knows. -/
structure Owes (ν : Type) where
  /-- References that are counted and no longer bound, less those that are bound and not yet counted. -/
  owed : ν → Int := fun _ => 0
  /-- Fid states that it has removed from the table, and their nodes. -/
  gone : List (Nat × ν) := []
  /-- If it runs alone: nodes without references. -/
  unref : List ν := []
  /-- If it runs alone: what the table has. -/
  found : List (Fid × Nat) := []
  /-- If it runs alone: fid states that are allocated. -/
  fresh : List Nat := []

variable [DecidableEq ν] {r r' : Owes ν}

/-- `k` more references to `n` are owed; nodes without an inode are not counted. -/
def Owes.owe (cfg : Config ν) (r : Owes ν) (n : ν) (k : Int) : Owes ν :=
  { r with owed := fun m => r.owed m + if m = n ∧ cfg.implements n .inodeEmbedder then k else 0 }

/-- What the commands ask of a handler, and what they leave it; `alone` if no other handler runs. -/
def refRules (cfg : Config ν) (alone : Bool) : Rules (Cmd ν) Cmd.Res (Owes ν) where
  pre
    | .close n, r => alone = true → cfg.implements n .inodeEmbedder = true → n ∈ r.unref ∧ 0 ≤ r.owed n
    | .finishClunk fs _, r | .takeXattr fs, r => ∃ n, (fs, n) ∈ r.gone
    | _, _ => True
  post
    | .get fid, r, some fs, r' => r' = { r with found := (fid, fs) :: r.found }
    | .add _ node _, r, .ok _, r' => r' = r.owe cfg node (-1)
    | .clunk _, r, some fs, r' => ∃ n, r' = { r.owe cfg n 1 with gone := (fs, n) :: r.gone, found := [] }
    | .clunkAll, r, states, r' => ∃ nodes : List ν, nodes.length = states.length ∧
        r' = { nodes.foldr (fun n r => r.owe cfg n 1) r with gone := states.zip nodes ++ r.gone, found := [] }
    | .update _ node, r, some prev, r' => r' = (r.owe cfg node (-1)).owe cfg prev 1
    | .updateAndOpen _ node _, r, some prev, r' => r' = { (r.owe cfg node (-1)).owe cfg prev 1 with fresh := [] }
    | .updateAndOpen fid _ _, r, none, r' => (alone = true → ∀ fs ∈ r.fresh, (fid, fs) ∉ r.found) ∧ r' = r
    | .markOpenedWithHandle _ _, r, _, r' | .setXattrWrite _ _ _ _ _, r, _, r' => r' = { r with fresh := [] }
    | .currentState fs, r, state, r' => r' = if state = .allocated then { r with fresh := fs :: r.fresh } else r
    | .currentNode fs, r, node, r' => (∀ n, (fs, n) ∈ r.gone → node = n) ∧ r' = r
    | .endIo fs, r, x, r' => (alone = true → ∀ fid, (fid, fs) ∈ r.found → x.1 = false) ∧ r' = r
    | .incRef n, r, _, r' => r' = { r.owe cfg n 1 with unref := r.unref.filter (· ≠ n) }
    | .decRef n, r, last, r' =>
      r' = { r.owe cfg n (-1) with unref := if last then n :: r.unref else r.unref.filter (· ≠ n) }
    | .refs n, r, count, r' => r' = if count = 0 then { r with unref := n :: r.unref } else r
    | _, r, _, r' => r' = r

/-- All references are counted. -/
def Owes.Even (r : Owes ν) : Prop := ∀ n, r.owed n = 0

section Owe

variable {cfg : Config ν}

@[simp] theorem owe_gone : (r.owe cfg n k).gone = r.gone := rfl

@[simp] theorem owe_unref : (r.owe cfg n k).unref = r.unref := rfl

theorem owe_of_not (h : ¬ cfg.implements n .inodeEmbedder) : (r.owe cfg n k).owed = r.owed := by
  funext m
  simp [Owes.owe, h]

theorem owe_owed (h : cfg.implements n .inodeEmbedder = true) :
    (r.owe cfg m k).owed n = r.owed n + if n = m then k else 0 := by
  by_cases hm : n = m
  · subst hm
    simp [Owes.owe, h]
  · simp [Owes.owe, hm]

theorem owe_owed_of_not (h : ¬ cfg.implements n .inodeEmbedder = true) : (r.owe cfg m k).owed n = r.owed n := by
  by_cases hm : n = m
  · subst hm
    simp [Owes.owe, h]
  · simp [Owes.owe, hm]

theorem owe_owe_cancel : ((r.owe cfg n k).owe cfg n (-k)).owed = r.owed := by
  funext m
  simp only [Owes.owe]
  split <;> omega

end Owe

/-! ## Commands -/

section Commands

/-- The commands that leave what is owed and known. -/
def Cmd.plain : Cmd ν → Bool
  | .currentNode _ | .handle _ | .takeHandle _ | .beginIo _ | .appendXattr _ _ | .dirStale _ _ | .dirStore _ | .msize
  | .call _ _ | .release _ => true
  | _ => false

variable {c : Cmd ν} {Q : Unit → Owes ν → Prop}

theorem silent_of_plain (h : c.plain = true) : (refRules cfg alone).Silent c := by
  cases c with
  | currentNode => exact ⟨fun _ => trivial, fun _ _ _ hpost => hpost.2⟩
  | handle | takeHandle | beginIo | appendXattr | dirStale | dirStore | msize | call | release =>
    exact ⟨fun _ => trivial, fun _ _ _ hpost => hpost⟩
  | _ => cases h

theorem wp_plain {Q : c.Res → Owes ν → Prop} (h : c.plain = true) (hQ : ∀ x, Q x r) :
    (refRules cfg alone).Wp (exec c) Q r :=
  ⟨(silent_of_plain h).1 r, fun x r' hpost => (silent_of_plain h).2 r x r' hpost ▸ hQ x⟩

theorem wp_call {m : Method ν} {Q : Except Errno m.Out → Owes ν → Prop} (hQ : ∀ x, Q x r) :
    (refRules cfg alone).Wp (call n m) Q r := by
  refine ⟨trivial, fun x r' hpost => ?_⟩
  obtain rfl : r' = r := hpost
  exact hQ x

theorem wp_get {fid : Fid} {Q : Option Nat → Owes ν → Prop} (hnone : Q none r)
    (hsome : ∀ fs, Q (some fs) { r with found := (fid, fs) :: r.found }) :
    (refRules cfg alone).Wp (exec (.get fid)) Q r := by
  refine ⟨trivial, fun x r' hpost => ?_⟩
  cases x with
  | none =>
    obtain rfl : r' = r := hpost
    exact hnone
  | some fs =>
    obtain rfl := hpost
    exact hsome fs

theorem wp_currentState {fs : Nat} {Q : FidStatus → Owes ν → Prop}
    (hQ : ∀ state, Q state (if state = .allocated then { r with fresh := fs :: r.fresh } else r)) :
    (refRules cfg alone).Wp (exec (.currentState fs)) Q r := by
  refine ⟨trivial, fun x r' hpost => ?_⟩
  obtain rfl := hpost
  exact hQ x

theorem wp_currentNode {Q : ν → Owes ν → Prop} (hQ : ∀ node, (∀ n, (fs, n) ∈ r.gone → node = n) → Q node r) :
    (refRules cfg alone).Wp (exec (.currentNode fs)) Q r := by
  refine ⟨trivial, fun x r' hpost => ?_⟩
  obtain ⟨hnode, rfl⟩ := hpost
  exact hQ x hnode

theorem wp_clunk {fid : Fid} {Q : Option Nat → Owes ν → Prop} (hnone : Q none r)
    (hsome : ∀ fs n, Q (some fs) { r.owe cfg n 1 with gone := (fs, n) :: r.gone, found := [] }) :
    (refRules cfg alone).Wp (exec (.clunk fid)) Q r := by
  refine ⟨trivial, fun x r' hpost => ?_⟩
  cases x with
  | none =>
    obtain rfl : r' = r := hpost
    exact hnone
  | some fs =>
    obtain ⟨n, rfl⟩ := hpost
    exact hsome fs n

/-! ## Counting -/

theorem wp_incRefNode (hQ : ∀ r', r'.owed = (r.owe cfg n 1).owed → Q () r') :
    (refRules cfg alone).Wp (incRefNode cfg n) Q r := by
  unfold incRefNode
  split
  · refine ⟨trivial, fun x r' hpost => ?_⟩
    obtain rfl := hpost
    exact hQ _ rfl
  · exact hQ r (owe_of_not ‹_›).symm

theorem wp_decRefNode {Q : Bool → Owes ν → Prop} (hQ : ∀ last r', r'.owed = (r.owe cfg n (-1)).owed → r'.gone = r.gone →
      (last = true → cfg.implements n .inodeEmbedder = true → n ∈ r'.unref) → Q last r') :
    (refRules cfg alone).Wp (decRefNode cfg n) Q r := by
  unfold decRefNode
  split
  · refine ⟨trivial, fun last r' hpost => ?_⟩
    obtain rfl := hpost
    refine hQ last _ rfl rfl fun hlast _ => ?_
    simp [hlast]
  · exact hQ true r (owe_of_not ‹_›).symm rfl fun _ h => absurd h ‹_›

theorem wp_addFid {state : FidStatus} {Q : Answer → Owes ν → Prop} (hQ : ∀ a r', r'.owed = r.owed → Q a r') :
    (refRules cfg alone).Wp (addFid cfg fid node state) Q r := by
  refine wp_cmd.2 ⟨trivial, fun x r' hpost => ?_⟩
  cases x with
  | error e =>
    obtain rfl : r' = r := hpost
    cases e <;> exact hQ _ _ rfl
  | ok u =>
    obtain rfl := hpost
    refine wp_bind.2 (wp_incRefNode fun r' hr' => hQ _ _ ?_)
    rw [hr']
    exact owe_owe_cancel

theorem wp_rebound {prev : ν} {r₀ : Owes ν} (hr : r.owed = ((r₀.owe cfg node (-1)).owe cfg prev 1).owed)
    (hQ : ∀ r', r'.owed = r₀.owed → Q () r') :
    (refRules cfg alone).Wp (rebound cfg node prev) Q r := by
  refine wp_bind.2 (wp_incRefNode fun r₁ h₁ => ?_)
  refine wp_bind.2 (wp_decRefNode fun last r₂ h₂ _ _ => hQ _ ?_)
  funext m
  have e₁ := congrFun h₁ m
  have e₂ := congrFun h₂ m
  have e₀ := congrFun hr m
  simp only [Owes.owe] at e₀ e₁ e₂
  rw [e₂, e₁, e₀]
  split <;> split <;> omega

/-! ## Closing -/

theorem wp_closeOrphanNode (h : alone = true → cfg.implements n .inodeEmbedder = true → n ∈ r.unref ∧ 0 ≤ r.owed n)
    (hQ : Q () r) :
    (refRules cfg alone).Wp (closeOrphanNode cfg n) Q r := by
  unfold closeOrphanNode
  split
  · refine ⟨h, fun x r' hpost => ?_⟩
    obtain rfl : r' = r := hpost
    exact hQ
  · exact hQ

theorem wp_closeUnboundNode (h : 0 ≤ r.owed n) (hQ : ∀ r', r'.owed = r.owed → Q () r') :
    (refRules cfg alone).Wp (closeUnboundNode cfg n) Q r := by
  unfold closeUnboundNode
  split
  · refine wp_cmd.2 ⟨trivial, fun count r' hpost => ?_⟩
    split
    · obtain rfl := hpost
      refine hQ _ ?_
      simp [‹count ≠ 0›]
    · have hzero : count = 0 := not_not.1 ‹_›
      obtain rfl : r' = { r with unref := n :: r.unref } := by simpa [refRules, hzero] using hpost
      exact wp_closeOrphanNode (fun _ _ => ⟨mem_cons_self, h⟩) (hQ _ rfl)
  · exact wp_closeOrphanNode (fun _ h' => absurd h' ‹_›) (hQ r rfl)

theorem wp_releaseFileHandle {h : Option Handle} (hQ : Q () r) : (refRules cfg alone).Wp (releaseFileHandle h) Q r := by
  cases h with
  | none => exact hQ
  | some h =>
    rw [releaseFileHandle]
    split
    · exact wp_plain rfl fun _ => hQ
    · exact hQ

theorem wp_releaseNow (h : alone = true → closeNode = true → ∃ n, (fs, n) ∈ r.gone ∧
      (cfg.implements n .inodeEmbedder = true → n ∈ r.unref ∧ 0 ≤ r.owed n)) (hQ : Q () r) :
    (refRules cfg alone).Wp (releaseNow cfg fs closeNode) Q r := by
  refine wp_bind.2 (wp_plain rfl fun handle => ?_)
  refine wp_bind.2 (wp_releaseFileHandle ?_)
  split
  · refine wp_bind.2 (wp_currentNode fun node hnode => wp_closeOrphanNode (fun halone => ?_) hQ)
    obtain ⟨n, hgone, hn⟩ := h halone ‹_›
    rw [hnode n hgone]
    exact hn
  · exact hQ

theorem wp_finishClunk (hgone : (fs, n) ∈ r.gone)
    (h : closeNode = true → cfg.implements n .inodeEmbedder = true → n ∈ r.unref ∧ 0 ≤ r.owed n) (hQ : Q () r) :
    (refRules cfg alone).Wp (finishClunk cfg fs closeNode) Q r := by
  refine wp_cmd.2 ⟨⟨n, hgone⟩, fun release r' hpost => ?_⟩
  obtain rfl : r' = r := hpost
  split
  · exact wp_releaseNow (fun _ hclose => ⟨n, hgone, h hclose⟩) hQ
  · exact hQ

theorem wp_endIo (hfound : (fid, fs) ∈ r.found) (hQ : Q () r) : (refRules cfg alone).Wp (endIo cfg fs) Q r := by
  refine wp_cmd.2 ⟨trivial, fun x r' hpost => ?_⟩
  obtain ⟨hrelease, rfl⟩ := hpost
  obtain ⟨release, closeNode⟩ := x
  simp only
  split
  · exact wp_releaseNow (fun halone => absurd (hrelease halone fid hfound) (by simp [‹release = true›])) hQ
  · exact hQ

end Commands

/-! ## Programs that bind no fid -/

section Still

omit [DecidableEq ν] in
theorem plain_of_looks {c : Cmd ν} (h : c.looks = true) : c.plain = true := by
  cases c <;> first | rfl | cases h

theorem Looks.wp {α : Type} {p : Op ν α} {Q : α → Owes ν → Prop} (h : Looks p) (hQ : ∀ a, Q a r) :
    (refRules cfg alone).Wp p Q r :=
  .of_silent (h.mono fun _ hc => silent_of_plain (plain_of_looks hc)) hQ

theorem Still.wp {α : Type} {p : Op ν α} (h : Still p) (hr : r.Even) :
    (refRules cfg alone).Wp p (fun _ r => r.Even) r := by
  refine .of_all (fun c hc r hr => ?_) h hr
  have hlooks (hc : c.looks = true) :
      (refRules cfg alone).pre c r ∧ ∀ x r', (refRules cfg alone).post c r x r' → r'.Even :=
    have hsilent := silent_of_plain (plain_of_looks hc)
    ⟨hsilent.1 r, fun x r' hpost => hsilent.2 r x r' hpost ▸ hr⟩
  cases c with
  | get fid =>
    refine ⟨trivial, fun x r' hpost => ?_⟩
    cases x <;> (obtain rfl := hpost; exact hr)
  | currentState fs =>
    refine ⟨trivial, fun x r' hpost => ?_⟩
    obtain rfl := hpost
    split <;> exact hr
  | setXattrWrite fs name size flags writer =>
    refine ⟨trivial, fun x r' hpost => ?_⟩
    obtain rfl := hpost
    exact hr
  | _ => exact hlooks hc

end Still

/-! ## Handlers -/

section Handlers

variable (cfg : Config ν) (alone : Bool)

def Pays (p : Op ν Answer) : Prop := ∀ r : Owes ν, r.Even → (refRules cfg alone).Wp p (fun _ r => r.Even) r

variable {cfg alone}

omit [DecidableEq ν] in
theorem Owes.Even.congr (h : r.Even) (hr : r'.owed = r.owed) : r'.Even := fun n => by rw [hr, h n]

variable {nodes : List ν}

theorem pays_addFid {state : FidStatus} : Pays cfg alone (addFid cfg fid node state) :=
  fun _ hr => wp_addFid fun _ _ => hr.congr

theorem pays_still {p : Op ν Answer} (h : Still p) : Pays cfg alone p := fun _ hr => h.wp hr

theorem pays_handleAttach {m : Tattach} : Pays cfg alone (handleAttach cfg m) := by
  intro r hr
  unfold handleAttach
  split
  · exact hr
  · refine wp_bind.2 (looks_resolveRoot.wp fun x => ?_)
    cases x with
    | error e => exact hr
    | ok node =>
      refine wp_bind.2 (wp_addFid fun a r' hr' => ?_)
      cases a with
      | error e => exact hr.congr hr'
      | ok => exact wp_bind.2 (wp_call fun _ => hr.congr hr')

theorem wp_walkNames {names : List Bytes} {count : Nat} (hr : r.Even) :
    (refRules cfg alone).Wp (walkNames cfg walkStart names current count) (fun _ r => r.Even) r := by
  induction names generalizing current count r with
  | nil => exact hr
  | cons name names ih =>
    refine wp_bind.2 (wp_bind.2 (wp_call fun q => ?_))
    cases q with
    | error e => exact hr
    | ok qid =>
      simp only [Rules.wp_pure]
      split
      · refine wp_bind.2 (wp_call fun x => ?_)
        cases x with
        | error e => exact hr
        | ok child =>
          refine wp_bind.2 (wp_call fun _ => ?_)
          split
          · exact wp_bind.2 (wp_closeUnboundNode (Int.le_of_eq (hr current).symm) fun r' hr' => ih (hr.congr hr'))
          · exact ih hr
      · exact hr

theorem wp_dropWalked {Q : Unit → Owes ν → Prop} (hr : r.Even) (hQ : ∀ r' : Owes ν, r'.Even → Q () r') :
    (refRules cfg alone).Wp (dropWalked cfg walkStart current) Q r := by
  unfold dropWalked
  split
  · exact wp_closeUnboundNode (Int.le_of_eq (hr current).symm) fun r' hr' => hQ r' (hr.congr hr')
  · exact hQ r hr

theorem pays_bindWalked : Pays cfg alone (bindWalked cfg m walkStart current) := by
  intro r hr
  unfold bindWalked
  split
  · refine wp_cmd.2 ⟨trivial, fun x r' hpost => ?_⟩
    cases x with
    | none =>
      obtain rfl : r' = r := hpost
      exact wp_bind.2 (wp_dropWalked hr fun _ h => h)
    | some prev =>
      obtain rfl := hpost
      exact wp_bind.2 (wp_rebound rfl fun r' hr' => hr.congr hr')
  · refine wp_bind.2 (wp_addFid fun a r' hr' => ?_)
    cases a with
    | error e => exact wp_bind.2 (wp_dropWalked (hr.congr hr') fun _ h => h)
    | ok => exact hr.congr hr'

theorem pays_handleWalk : Pays cfg alone (handleWalk cfg m) := by
  intro r hr
  refine wp_bind.2 (wp_get hr fun src => ?_)
  have hr : Owes.Even { r with found := (m.fid, src) :: r.found } := hr
  simp only
  split
  · split
    · exact hr
    · exact wp_bind.2 (wp_plain rfl fun node => pays_addFid _ hr)
  split
  · exact hr
  · refine wp_bind.2 (wp_plain rfl fun walkStart => wp_bind.2 ?_)
    refine (wp_walkNames hr).mono fun w r' hr' => ?_
    cases w.stop with
    | none => exact pays_bindWalked r' hr'
    | some e =>
      simp only
      split
      · exact hr'
      · exact wp_bind.2 (wp_dropWalked hr' fun _ h => h)

/-- The end of `handleClunk` and `handleRemove`, and of every round of `releaseStates`. -/
theorem wp_decRef_gone {Q : Bool → Owes ν → Prop} (hgone : (fs, n) ∈ r.gone) (hnode : ∀ n, (fs, n) ∈ r.gone → node = n)
    (hn : cfg.implements n .inodeEmbedder = true → 1 ≤ r.owed n)
    (hQ : ∀ last r', r'.owed = (r.owe cfg n (-1)).owed → (fs, n) ∈ r'.gone → r'.gone = r.gone →
      (last = true → cfg.implements n .inodeEmbedder = true → n ∈ r'.unref ∧ 0 ≤ r'.owed n) → Q last r') :
    (refRules cfg alone).Wp (decRefNode cfg node) Q r := by
  rw [hnode n hgone]
  refine wp_decRefNode fun last r' hr' hg hunref => hQ last r' hr' (hg ▸ hgone) hg fun hlast hemb => ?_
  refine ⟨hunref hlast hemb, ?_⟩
  have := hn hemb
  rw [hr']
  simp only [Owes.owe, hemb, and_self, if_true]
  omega

theorem even_of_clunked (hr : r.Even) (hr' : r'.owed = ((r.owe cfg n 1).owe cfg n (-1)).owed) : r'.Even :=
  hr.congr (hr'.trans owe_owe_cancel)

theorem owed_clunked (hr : r.Even) (hemb : cfg.implements n .inodeEmbedder = true) : 1 ≤ (r.owe cfg n 1).owed n := by
  have := hr n
  simp only [Owes.owe, hemb, and_self, if_true]
  omega

theorem pays_handleClunk {m : Tclunk} : Pays cfg alone (handleClunk cfg m) := by
  intro r hr
  refine wp_bind.2 (wp_clunk hr fun fs n => ?_)
  refine wp_bind.2 (wp_currentNode fun node hnode => wp_bind.2 ?_)
  refine wp_decRef_gone mem_cons_self hnode (owed_clunked hr) fun last r' hr' hgone _ hclose => ?_
  have hr' : r'.Even := even_of_clunked hr hr'
  refine wp_cmd.2 ⟨⟨n, hgone⟩, fun x r'' hpost => ?_⟩
  obtain rfl : r'' = r' := hpost
  cases x with
  | some x => exact looks_commitXattr.wp fun _ => hr'
  | none => exact wp_bind.2 (wp_finishClunk hgone hclose hr')

theorem pays_handleRemove {m : Tremove} : Pays cfg alone (handleRemove cfg m) := by
  intro r hr
  refine wp_bind.2 (wp_clunk hr fun fs n => ?_)
  refine wp_bind.2 (wp_plain rfl fun node => wp_bind.2 (looks_removeViaInodeTree.wp fun removeErr => ?_))
  refine wp_bind.2 (wp_currentNode fun node hnode => wp_bind.2 ?_)
  refine wp_decRef_gone mem_cons_self hnode (owed_clunked hr) fun last r' hr' hgone _ hclose => ?_
  exact wp_bind.2 (wp_finishClunk hgone hclose (even_of_clunked hr hr'))

theorem pays_openFid : Pays cfg alone (openFid cfg fid flags) := by
  intro r hr
  refine wp_bind.2 (wp_get hr fun fs => wp_bind.2 (wp_currentState fun state => ?_))
  rcases ne_or_eq state .allocated with hstate | rfl
  · rw [if_pos hstate, if_neg hstate]
    exact hr
  · rw [if_neg (by simp), if_pos rfl]
    refine wp_bind.2 (wp_plain rfl fun node => ?_)
    split
    · refine wp_bind.2 (wp_call fun x => ?_)
      cases x with
      | error e => exact hr
      | ok h =>
        refine wp_bind.2 (looks_currentQID.wp fun _ => ?_)
        refine wp_cmd.2 ⟨trivial, fun marked r' hpost => ?_⟩
        obtain rfl := hpost
        split
        · exact hr
        · exact wp_bind.2 (wp_releaseFileHandle hr)
    · exact hr

theorem pays_createFid {name : Bytes} {mode : FileMode} {gid : UInt32} :
    Pays cfg alone (createFid cfg fid name flags mode gid) := by
  intro r hr
  refine wp_bind.2 (wp_get hr fun fs => wp_bind.2 (wp_currentState fun state => ?_))
  rcases ne_or_eq state .allocated with hstate | rfl
  · rw [if_pos hstate, if_neg hstate]
    exact hr
  · rw [if_neg (by simp), if_pos rfl]
    split
    · exact hr
    · refine wp_bind.2 (wp_plain rfl fun node => ?_)
      split
      · refine wp_bind.2 (wp_call fun x => ?_)
        cases x with
        | error e => exact hr
        | ok x =>
          obtain ⟨child, h⟩ := x
          refine wp_cmd.2 ⟨trivial, fun prev r' hpost => ?_⟩
          cases prev with
          | none =>
            obtain ⟨halone, rfl⟩ := hpost
            refine wp_bind.2 (wp_releaseFileHandle (wp_bind.2 (wp_closeOrphanNode ?_ hr)))
            exact fun h => absurd mem_cons_self (halone h fs mem_cons_self)
          | some prev =>
            obtain rfl := hpost
            refine wp_bind.2 (wp_rebound rfl fun r' hr' => ?_)
            exact wp_bind.2 (wp_call fun _ => hr.congr hr')
      · exact hr

theorem wp_withIo {body : Op ν Answer} (hbody : Looks body) (hfound : (fid, fs) ∈ r.found) (hr : r.Even) :
    (refRules cfg alone).Wp (withIo cfg fs body) (fun _ r => r.Even) r := by
  refine wp_bind.2 (wp_plain rfl fun began => ?_)
  split
  · exact wp_bind.2 (hbody.wp fun _ => wp_bind.2 (wp_endIo hfound hr))
  · exact hr

theorem pays_onOpened {body : Nat → Op ν Answer} (hbody : ∀ fs, Looks (body fs)) :
    Pays cfg alone (onOpened cfg fid body) := by
  intro r hr
  refine wp_bind.2 (wp_get hr fun fs => wp_bind.2 (wp_currentState fun state => ?_))
  rcases ne_or_eq state .opened with hstate | rfl
  · rw [if_pos hstate]
    split <;> exact hr
  · rw [if_neg (by simp), if_neg (by simp)]
    exact wp_withIo (hbody fs) mem_cons_self hr

theorem pays_handleRead {m : Tread} : Pays cfg alone (handleRead cfg m) := by
  intro r hr
  refine wp_bind.2 (wp_get hr fun fs => wp_bind.2 (wp_currentState fun state => ?_))
  cases state with
  | opened => exact wp_withIo (looks_preferHandle rfl) mem_cons_self hr
  | allocated | xattrRead | xattrWrite => exact hr

theorem pays_handleWrite {m : Twrite} : Pays cfg alone (handleWrite cfg m) := by
  intro r hr
  refine wp_bind.2 (wp_get hr fun fs => wp_bind.2 (wp_plain rfl fun x => ?_))
  cases x with
  | refused e | appended => exact hr
  | writer => exact (looks_callOther rfl).wp fun _ => hr
  | other state =>
    cases state with
    | opened => exact wp_withIo (looks_preferHandle rfl) mem_cons_self hr
    | allocated | xattrRead | xattrWrite => exact hr

theorem pays_addXattrReadFid {newFid : Fid} {a : Answer} : Pays cfg alone (addXattrReadFid cfg newFid node a) := by
  cases a with
  | error e => exact fun _ hr => hr
  | ok => exact pays_addFid

theorem pays_handleXattrwalk {m : P9l.Txattrwalk} : Pays cfg alone (handleXattrwalk cfg m) := by
  intro r hr
  refine wp_bind.2 (wp_get hr fun fs => wp_bind.2 (wp_plain rfl fun node => ?_))
  split
  · exact wp_bind.2 (wp_call fun a => pays_addXattrReadFid _ hr)
  split
  · split
    · exact wp_bind.2 (wp_call fun a => pays_addXattrReadFid _ hr)
    · exact hr
  split
  · exact wp_bind.2 (wp_call fun a => pays_addXattrReadFid _ hr)
  · exact hr

theorem pays_dispatch (req : Request) : Pays cfg alone (dispatch cfg req) := by
  cases req with
  | attach m => exact pays_handleAttach
  | walk m => exact pays_handleWalk
  | clunk m => exact pays_handleClunk
  | remove m => exact pays_handleRemove
  | lopen m => exact pays_openFid
  | uOpen m =>
    show Pays cfg alone (handleUOpen cfg m)
    unfold handleUOpen
    split
    · exact fun _ hr => hr
    · exact pays_openFid
  | lcreate m => exact pays_createFid
  | uCreate m =>
    show Pays cfg alone (handleUCreate cfg m)
    unfold handleUCreate
    split
    · exact fun _ hr => hr
    · split
      · exact fun _ hr => hr
      · exact pays_createFid
  | read m => exact pays_handleRead
  | write m => exact pays_handleWrite
  | readdir m => exact pays_onOpened fun _ => looks_readdirBody
  | fsync | lock | getlock => exact pays_onOpened fun _ => looks_preferHandle rfl
  | getattr | uStat => exact pays_still still_getattr
  | setattr | readlink | statfs => exact pays_still (still_onNode rfl)
  | mkdir | symlink | mknod => exact pays_still (still_makeChild fun _ => (looks_call rfl).still)
  | link m => exact pays_still still_handleLink
  | unlinkat m => exact pays_still (still_onDir rfl)
  | renameat m => exact pays_still still_handleRenameat
  | rename m => exact pays_still still_handleRename
  | xattrwalk m => exact pays_handleXattrwalk
  | xattrcreate m => exact pays_still still_handleXattrcreate

theorem owed_foldr (h : cfg.implements n .inodeEmbedder = true) :
    (nodes.foldr (fun n r => r.owe cfg n 1) r).owed n = r.owed n + nodes.count n := by
  induction nodes with
  | nil => simp
  | cons m nodes ih =>
    rw [foldr_cons, owe_owed h, ih, count_cons]
    by_cases hm : n = m
    · subst hm
      simp only [if_true, beq_self_eq_true]
      omega
    · simp [hm, Ne.symm hm]

theorem owed_foldr_of_not (h : ¬ cfg.implements n .inodeEmbedder = true) :
    (nodes.foldr (fun n r => r.owe cfg n 1) r).owed n = r.owed n := by
  induction nodes with
  | nil => rfl
  | cons m nodes ih => rw [foldr_cons, owe_owed_of_not h, ih]

theorem wp_releaseStates {drained : Bool} {states : List Nat} (hlen : nodes.length = states.length)
    (hgone : ∀ p ∈ states.zip nodes, p ∈ r.gone)
    (howed : ∀ n, r.owed n = if cfg.implements n .inodeEmbedder then (nodes.count n : Int) else 0) :
    (refRules cfg alone).Wp (releaseStates cfg drained states) (fun _ r => r.Even) r := by
  induction states generalizing nodes r with
  | nil =>
    obtain rfl := length_eq_zero_iff.1 hlen
    exact fun n => by simp [howed n]
  | cons fs states ih =>
    cases nodes with
    | nil => cases hlen
    | cons n nodes =>
      have hfs : (fs, n) ∈ r.gone := hgone _ mem_cons_self
      refine wp_bind.2 (wp_currentNode fun node hnode => wp_bind.2 ?_)
      refine wp_decRef_gone hfs hnode (fun hemb => ?_) fun last r' hr' hfs' hg hclose => ?_
      · rw [howed n, if_pos hemb, count_cons_self]
        omega
      · have hrest : (refRules cfg alone).Wp (releaseStates cfg drained states) (fun _ r => r.Even) r' := by
          have hlen' : nodes.length = states.length := by simpa using hlen
          refine ih hlen' (fun p hp => hg ▸ hgone p (mem_cons_of_mem _ hp)) ?_
          intro m
          rw [hr']
          by_cases hemb : cfg.implements m .inodeEmbedder = true
          · rw [owe_owed hemb, howed m, if_pos hemb, if_pos hemb, count_cons]
            by_cases hm : m = n
            · subst hm
              simp only [if_true, beq_self_eq_true]
              omega
            · simp [hm, Ne.symm hm]
          · rw [owe_owed_of_not hemb, howed m, if_neg hemb, if_neg hemb]
        split
        · exact wp_bind.2 (wp_releaseNow (fun _ hlast => ⟨n, hfs', hclose hlast⟩) hrest)
        · exact hrest

theorem pays_clunkAll (drained : Bool) : Pays cfg alone (clunkAll cfg drained) := by
  intro r hr
  refine wp_cmd.2 ⟨trivial, fun states r' hpost => ?_⟩
  obtain ⟨nodes, hlen, rfl⟩ := hpost
  refine wp_bind.2 (wp_releaseStates hlen (fun p hp => mem_append_left _ hp) fun n => ?_)
  split
  · exact (owed_foldr ‹_›).trans (by rw [hr n]; omega)
  · exact (owed_foldr_of_not ‹_›).trans (hr n)

end Handlers

end NineP.Server.Handlers
