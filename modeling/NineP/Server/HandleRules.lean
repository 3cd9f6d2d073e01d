import NineP.Server.Footprint
import NineP.Server.Requests

/-!
# What handlers do with file handles

A handler that opens a file has its handle in hand until it stores it in a fid state or releases it; one that removes a
fid state from the table, or that ends the last I/O on one that is being clunked, has the duty to release its handle.
-/

namespace NineP.Server.Handlers

open Codec Proto Program Transition
open Rules (wp_bind wp_cmd)

variable {ν : Type}

/-! ## What handlers hold -/

def Handle.releases (h : Handle) : Bool := h.implements .fileReleaser

/-- What a handler has in hand. -/
structure Holds (ν : Type) where
  /-- Handles that it has to store or to release. -/
  held : List Handle := []
  /-- Fid states whose handle it has to release. -/
  duty : List Nat := []
  /-- Fid states between its `beginIO` and its `endIO`. -/
  io : List Nat := []
  /-- Nodes that it has opened or created, and the handles that it got. -/
  opened : List (ν × Handle) := []

namespace Holds

def take (r : Holds ν) (h : Handle) : Holds ν := if h.releases then { r with held := h :: r.held } else r

def put (r : Holds ν) (h : Handle) : Holds ν := if h.releases then { r with held := r.held.erase h } else r

/-- What a command leaves in hand. -/
def after (r : Holds ν) : (c : Cmd ν) → c.Res → Holds ν
  | .call (some n) (.openNode _), .ok h
  | .call _ (.create _ _ _ _), .ok (n, h) => Holds.take { r with opened := (n, h) :: r.opened } h
  | .markOpenedWithHandle _ h, true | .updateAndOpen _ _ h, some _ | .release h, _ => r.put h
  | .clunk _, some fs => { r with duty := fs :: r.duty }
  | .clunkAll, states => { r with duty := states ++ r.duty }
  -- `handleClunk` answers for an xattr fid without a look at its handle
  | .takeXattr fs, some _ => { r with duty := r.duty.erase fs }
  -- the last I/O will release it
  | .finishClunk fs _, false | .takeHandle fs, none => { r with duty := r.duty.erase fs }
  | .takeHandle fs, some h => Holds.take { r with duty := r.duty.erase fs } h
  | .beginIo fs, true => { r with io := fs :: r.io }
  | .endIo fs, (true, _) => { r with io := r.io.erase fs, duty := fs :: r.duty }
  | .endIo fs, (false, _) => { r with io := r.io.erase fs }
  | _, _ => r

/-- Nothing is left to do. -/
structure Empty (r : Holds ν) : Prop where
  held : r.held = []
  duty : r.duty = []
  io : r.io = []

end Holds

/-- A handle can be stored or released if it is in hand; a duty ends, and so does I/O, if it has begun; and a new fid is
not open. -/
def handleRules : Rules (Cmd ν) Cmd.Res (Holds ν) where
  pre
    | .markOpenedWithHandle _ h, r => (h.releases = true → h ∈ r.held) ∧ ∃ n, (n, h) ∈ r.opened
    | .updateAndOpen _ n h, r => (h.releases = true → h ∈ r.held) ∧ (n, h) ∈ r.opened
    | .release h, r => h.releases = true ∧ h ∈ r.held
    | .takeXattr fs, r | .finishClunk fs _, r | .takeHandle fs, r => fs ∈ r.duty
    | .endIo fs, r => fs ∈ r.io
    | .add _ _ state, _ => state ≠ .opened
    | _, _ => True
  post c r x r' := r' = r.after c x

/-! ## Commands -/

section Commands

variable {s s' : State ν} {m : Method ν} {c : Cmd ν}

theorem accept_opens (h : s.accept n m v = some (x, s')) (hm : m.opens = false) : s'.opens = s.opens := by
  unfold State.accept at h
  split at h
  case h_6 | h_7 => cases hm
  all_goals
    cases h
    try rfl

variable {r : Holds ν} {h : Handle}

theorem put_take : (r.take h).put h = r := by
  unfold Holds.take Holds.put
  split <;> simp

theorem mem_take (hrel : h.releases = true) : h ∈ (r.take h).held := by
  simp [Holds.take, hrel]

theorem take_opened (r : Holds ν) (h : Handle) : (r.take h).opened = r.opened := by
  unfold Holds.take
  split <;> rfl

theorem put_opened (r : Holds ν) (h : Handle) : (r.put h).opened = r.opened := by
  unfold Holds.put
  split <;> rfl

theorem after_opened (x : c.Res) (hc : ∀ n m, c ≠ .call n m) : (r.after c x).opened = r.opened := by
  cases c with
  | call n m => exact absurd rfl (hc n m)
  | takeHandle fs => cases x <;> first | rfl | exact take_opened _ _
  | release h => exact put_opened r h
  | markOpenedWithHandle fid h | updateAndOpen fid node h => cases x <;> first | rfl | exact put_opened r h
  | clunk | takeXattr | finishClunk | beginIo => cases x <;> rfl
  | endIo fs => obtain ⟨release, closeNode⟩ := x; cases release <;> rfl
  | _ => rfl

theorem silent_of_binds (hc : c.binds = true) : (handleRules : Rules _ _ (Holds ν)).Silent c := by
  cases c with
  | call n m =>
    refine ⟨fun _ => trivial, fun r x r' hpost => hpost.trans ?_⟩
    cases n <;> cases m <;> first | rfl | cases hc
  | add fid node state =>
    have hstate : state ≠ .opened := of_decide_eq_true hc
    exact ⟨fun _ => hstate, fun _ _ _ hpost => hpost⟩
  | get | update | currentState | currentNode | handle | setXattrWrite | appendXattr | dirStale | dirStore | msize
  | incRef | decRef | refs | close => exact ⟨fun _ => trivial, fun _ _ _ hpost => hpost⟩
  | _ => cases hc

theorem Binds.wp {α : Type} {p : Op ν α} {Q : α → Holds ν → Prop} (h : Binds p) (hQ : ∀ a, Q a r) :
    handleRules.Wp p Q r :=
  .of_silent (h.mono fun _ => silent_of_binds) hQ

/-- A call returns a new handle, or leaves the handles alone. -/
theorem accept_cases (h : s.accept n m v = some (x, s')) (r : Holds ν) :
    (∃ n' ifaces, s'.objs = s.objs ∧ s'.released = s.released ∧ s'.opens = s.opens ++ [(n', ifaces)] ∧
      r.after (.call n m) (.ok x) = .take { r with opened := (n', ⟨s.opens.length, ifaces⟩) :: r.opened }
        ⟨s.opens.length, ifaces⟩) ∨
    s'.opens = s.opens ∧ r.after (.call n m) (.ok x) = r := by
  by_cases hm : m.opens = true
  · left
    cases m with
    | openNode flags =>
      cases v with
      | handle ifaces =>
        obtain ⟨n', rfl, h'⟩ := Option.map_eq_some_iff.1 h
        cases h'
        exact ⟨_, _, rfl, rfl, rfl, rfl⟩
      | _ => cases h
    | create name flags mode gid =>
      cases v with
      | created child ifaces =>
        cases h
        cases n <;> exact ⟨_, _, rfl, rfl, rfl, rfl⟩
      | _ => cases h
    | _ => cases hm
  · refine .inr ⟨accept_opens h (by simpa using hm), ?_⟩
    exact (silent_of_binds (c := .call n m) (by simp [Cmd.binds, Cmd.still, Cmd.looks, hm])).2 r (.ok x) _ rfl

section

variable {α : Type} {f : c.Res → Op ν α} {Q : α → Holds ν → Prop}

theorem wp_binds (hc : c.binds = true) (hf : ∀ x, handleRules.Wp (f x) Q r) : handleRules.Wp (exec c >>= f) Q r :=
  wp_bind.2 ((binds_exec hc).wp hf)

theorem wp_after (hpre : handleRules.pre c r) (hf : ∀ x, handleRules.Wp (f x) Q (r.after c x)) :
    handleRules.Wp (exec c >>= f) Q r :=
  wp_cmd.2 ⟨hpre, fun x _ hpost => hpost ▸ hf x⟩

end

theorem wp_releaseFileHandle_take {Q : Unit → Holds ν → Prop} (hQ : Q () r) :
    handleRules.Wp (releaseFileHandle (some h)) Q (r.take h) := by
  rw [releaseFileHandle]
  split
  · refine ⟨⟨‹_›, mem_take ‹_›⟩, fun x r' hpost => ?_⟩
    obtain rfl : r' = r := hpost.trans put_take
    exact hQ
  · have hrel : ¬ h.releases = true := ‹_›
    rw [Holds.take, if_neg hrel]
    exact hQ

theorem wp_releaseNow_duty {Q : Unit → Holds ν → Prop} (hfs : fs ∈ r.duty)
    (hQ : Q () { r with duty := r.duty.erase fs }) : handleRules.Wp (releaseNow cfg fs closeNode) Q r := by
  -- what follows the release leaves everything in hand
  have hclose : handleRules.Wp (if closeNode then do
      let node ← exec (.currentNode fs)
      closeOrphanNode cfg node
      else pure ()) Q { r with duty := r.duty.erase fs } := by
    split
    · exact Binds.wp (.bind (binds_exec rfl) fun _ => binds_closeOrphanNode) fun _ => hQ
    · exact hQ
  refine wp_after hfs fun x => ?_
  cases x with
  | none => exact hclose
  | some h => exact wp_bind.2 (wp_releaseFileHandle_take hclose)

theorem wp_finishClunk_duty {Q : Unit → Holds ν → Prop} (hfs : fs ∈ r.duty)
    (hQ : Q () { r with duty := r.duty.erase fs }) : handleRules.Wp (finishClunk cfg fs closeNode) Q r := by
  refine wp_after hfs fun release => ?_
  cases release with
  | true => exact wp_releaseNow_duty hfs hQ
  | false => exact hQ

theorem wp_endIo_io {Q : Unit → Holds ν → Prop} (hfs : fs ∈ r.io)
    (hQ : Q () { r with io := r.io.erase fs }) : handleRules.Wp (endIo cfg fs) Q r := by
  refine wp_after hfs fun x => ?_
  obtain ⟨release, closeNode⟩ := x
  cases release with
  | true =>
    refine wp_releaseNow_duty List.mem_cons_self ?_
    simpa [Holds.after] using hQ
  | false => exact hQ

end Commands

/-! ## Handlers -/

section Handlers

/-- The program leaves nothing in hand. -/
def Settles (p : Op ν Answer) : Prop := ∀ r : Holds ν, r.Empty → handleRules.Wp p (fun _ r => r.Empty) r

variable {cfg : Config ν} {r : Holds ν}

theorem settles_binds {p : Op ν Answer} (h : Binds p) : Settles p := fun _ hr => h.wp fun _ => hr

theorem settles_get {f : Option Nat → Op ν Answer} (hnone : f none = pure (.error EBADF))
    (hsome : ∀ fs, Settles (f (some fs))) : Settles (exec (.get fid) >>= f) := by
  intro r hr
  refine wp_binds rfl fun x => ?_
  cases x with
  | none =>
    rw [hnone]
    exact hr
  | some fs => exact hsome fs r hr

theorem settles_handleClunk : Settles (handleClunk cfg m) := by
  intro r hr
  refine wp_after trivial fun x => ?_
  cases x with
  | none => exact hr
  | some fs =>
    refine wp_binds rfl fun node => wp_bind.2 (binds_decRefNode.wp fun lastRef => ?_)
    have hend : Holds.Empty { r with duty := (fs :: r.duty).erase fs } := ⟨hr.held, by simp [hr.duty], hr.io⟩
    refine wp_after List.mem_cons_self fun x => ?_
    cases x with
    | some x => exact looks_commitXattr.still.binds.wp fun _ => hend
    | none => exact wp_bind.2 (wp_finishClunk_duty List.mem_cons_self hend)

theorem settles_handleRemove : Settles (handleRemove cfg m) := by
  intro r hr
  refine wp_after trivial fun x => ?_
  cases x with
  | none => exact hr
  | some fs =>
    refine wp_binds rfl fun node => wp_bind.2 ?_
    refine looks_removeViaInodeTree.still.binds.wp fun removeErr => ?_
    refine wp_binds rfl fun node => wp_bind.2 (binds_decRefNode.wp fun lastRef => ?_)
    exact wp_bind.2 (wp_finishClunk_duty List.mem_cons_self ⟨hr.held, by simp [Holds.after, hr.duty], hr.io⟩)

variable {fid : Fid} {flags : UInt32}

theorem settles_openFid : Settles (openFid cfg fid flags) := by
  refine settles_get rfl fun fs r hr => ?_
  refine wp_binds rfl fun state => ?_
  split
  · exact hr
  refine wp_binds rfl fun node => ?_
  split
  · refine wp_after trivial fun x => ?_
    cases x with
    | error e => exact hr
    | ok h =>
      refine wp_bind.2 (looks_currentQID.still.binds.wp fun _ => ?_)
      have hr' : Holds.Empty { r with opened := (node, h) :: r.opened } := ⟨hr.held, hr.duty, hr.io⟩
      have hopened : (node, h) ∈ (Holds.take { r with opened := (node, h) :: r.opened } h).opened := by
        simp [take_opened]
      refine wp_after ⟨fun hrel => mem_take hrel, node, hopened⟩ fun marked => ?_
      cases marked with
      | true =>
        show Holds.Empty ((Holds.take { r with opened := (node, h) :: r.opened } h).put h)
        rw [put_take]
        exact hr'
      | false => exact wp_bind.2 (wp_releaseFileHandle_take hr')
  · exact hr

theorem settles_createFid :
    Settles (createFid cfg fid name flags mode gid) := by
  refine settles_get rfl fun fs r hr => ?_
  refine wp_binds rfl fun state => ?_
  split
  · exact hr
  split
  · exact hr
  refine wp_binds rfl fun node => ?_
  split
  · refine wp_after trivial fun x => ?_
    cases x with
    | error e => exact hr
    | ok x =>
      obtain ⟨child, h⟩ := x
      have hr' : Holds.Empty { r with opened := (child, h) :: r.opened } := ⟨hr.held, hr.duty, hr.io⟩
      have hopened : (child, h) ∈ (Holds.take { r with opened := (child, h) :: r.opened } h).opened := by
        simp [take_opened]
      refine wp_after ⟨fun hrel => mem_take hrel, hopened⟩ fun prev => ?_
      cases prev with
      | none =>
        refine wp_bind.2 (wp_releaseFileHandle_take (wp_bind.2 ?_))
        exact binds_closeOrphanNode.wp fun _ => hr'
      | some prev =>
        refine wp_bind.2 (binds_rebound.wp fun _ => wp_bind.2 ?_)
        refine (looks_call rfl).still.binds.wp fun _ => ?_
        show Holds.Empty ((Holds.take { r with opened := (child, h) :: r.opened } h).put h)
        rw [put_take]
        exact hr'
  · exact hr

theorem wp_withIo_io (hbody : Looks body) (hr : r.Empty) :
    handleRules.Wp (withIo cfg fs body) (fun _ r => r.Empty) r := by
  refine wp_after trivial fun began => ?_
  cases began with
  | true =>
    refine wp_bind.2 (hbody.still.binds.wp fun _ => wp_bind.2 (wp_endIo_io List.mem_cons_self ?_))
    exact ⟨hr.held, hr.duty, by simp [Holds.after, hr.io]⟩
  | false => exact hr

theorem settles_onOpened {body : Nat → Op ν Answer} (hbody : ∀ fs, Looks (body fs)) :
    Settles (onOpened cfg fid body) := by
  refine settles_get rfl fun fs r hr => ?_
  refine wp_binds rfl fun state => ?_
  split
  · exact hr
  · exact wp_withIo_io (hbody fs) hr

theorem settles_handleRead : Settles (handleRead cfg m) := by
  refine settles_get rfl fun fs r hr => ?_
  refine wp_binds rfl fun state => ?_
  cases state with
  | opened => exact wp_withIo_io (looks_preferHandle rfl) hr
  | allocated | xattrRead | xattrWrite => exact hr

theorem settles_handleWrite : Settles (handleWrite cfg m) := by
  refine settles_get rfl fun fs r hr => ?_
  refine wp_binds rfl fun x => ?_
  cases x with
  | refused e | appended => exact hr
  | writer => exact (looks_callOther rfl).still.binds.wp fun _ => hr
  | other state =>
    cases state with
    | opened => exact wp_withIo_io (looks_preferHandle rfl) hr
    | allocated | xattrRead | xattrWrite => exact hr

variable [DecidableEq ν]

/-- **Every handler stores or releases what it opens, and releases what it clunks.** -/
theorem settles_dispatch (req : Request) : Settles (dispatch cfg req) := by
  cases req with
  | attach m => exact settles_binds binds_handleAttach
  | walk m => exact settles_binds binds_handleWalk
  | clunk m => exact settles_handleClunk
  | remove m => exact settles_handleRemove
  | lopen m => exact settles_openFid
  | uOpen m =>
    show Settles (handleUOpen cfg m)
    unfold handleUOpen
    split
    · exact fun _ hr => hr
    · exact settles_openFid
  | lcreate m => exact settles_createFid
  | uCreate m =>
    show Settles (handleUCreate cfg m)
    unfold handleUCreate
    split
    · exact fun _ hr => hr
    · split
      · exact fun _ hr => hr
      · exact settles_createFid
  | read m => exact settles_handleRead
  | write m => exact settles_handleWrite
  | readdir m => exact settles_onOpened fun _ => looks_readdirBody
  | fsync | lock | getlock => exact settles_onOpened fun _ => looks_preferHandle rfl
  | getattr | uStat => exact settles_binds still_getattr.binds
  | setattr | readlink | statfs => exact settles_binds (still_onNode rfl).binds
  | mkdir | symlink | mknod => exact settles_binds (still_makeChild fun _ => (looks_call rfl).still).binds
  | link m => exact settles_binds still_handleLink.binds
  | unlinkat m => exact settles_binds (still_onDir rfl).binds
  | renameat m => exact settles_binds still_handleRenameat.binds
  | rename m => exact settles_binds still_handleRename.binds
  | xattrwalk m => exact settles_binds binds_handleXattrwalk
  | xattrcreate m => exact settles_binds still_handleXattrcreate.binds

omit [DecidableEq ν] in
theorem wp_releaseStates_duty {Q : Unit → Holds ν → Prop} (hduty : r.duty = states ++ rest)
    (hQ : Q () { r with duty := rest }) : handleRules.Wp (releaseStates cfg true states) Q r := by
  induction states generalizing r with
  | nil =>
    obtain rfl : r.duty = rest := hduty
    exact hQ
  | cons fs states ih =>
    refine wp_binds rfl fun node => wp_bind.2 (binds_decRefNode.wp fun lastRef => ?_)
    rw [if_pos rfl]
    refine wp_bind.2 (wp_releaseNow_duty (by simp [hduty]) (ih ?_ hQ))
    simp [hduty]

omit [DecidableEq ν] in
theorem settles_clunkAll : Settles (clunkAll cfg true) := by
  intro r hr
  refine wp_after trivial fun states => ?_
  refine wp_bind.2 (wp_releaseStates_duty rfl ?_)
  exact ⟨hr.held, hr.duty, hr.io⟩

omit [DecidableEq ν] in
theorem binds_releaseStates : Binds (releaseStates cfg false states) := by
  induction states with
  | nil => trivial
  | cons fs states ih => exact .bind (binds_exec rfl) fun _ => .bind binds_decRefNode fun _ => ih

theorem Starts.wp_io (h : Starts cfg l conn op g) : handleRules.Wp op (fun _ r => r.io = []) ({} : Holds ν) := by
  have hsettles {p : Op ν Answer} (hp : Settles p) : handleRules.Wp p (fun _ r => r.io = []) ({} : Holds ν) :=
    (hp {} ⟨rfl, rfl, rfl⟩).mono fun _ _ hr => hr.io
  cases h with
  | request _ req => exact hsettles (settles_dispatch req)
  | reVersion => exact hsettles settles_clunkAll
  | cleanup conn drained =>
    cases drained with
    | true => exact hsettles settles_clunkAll
    | false =>
      refine wp_cmd.2 ⟨trivial, fun states r' hpost => wp_bind.2 ?_⟩
      obtain rfl := hpost
      exact binds_releaseStates.wp fun _ => rfl

theorem Starts.wp (h : Starts cfg l conn op g) : handleRules.Wp op (fun _ _ => True) ({} : Holds ν) :=
  h.wp_io.mono fun _ _ _ => trivial

end Handlers

end NineP.Server.Handlers
