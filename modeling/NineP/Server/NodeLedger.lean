import NineP.Server.Dispatch

/-!
# What requests do to nodes

The fid table seen as a `RefCount.Ledger`: a node is held by the fids bound to it.
-/

namespace NineP.Server.Dispatch

open Proto RefCount List

variable {ν η : Type} [DecidableEq ν] {s s' : State ν η} {fs : FidState ν η} {fss : List (FidState ν η)}
  {cfg : Config ν} {fid : Fid}

/-! ## The ledger -/

/-- The fid states `fss` as holders of their nodes. -/
def ledgerOf (fss : List (FidState ν η)) (log : List (Event ν)) : Ledger ν where
  held n := fss.countP fun fs => fs.node = n
  log := log

def ledger (s : State ν η) : Ledger ν := ledgerOf s.fids.states s.log

def Counts (refs : ν → Int) (fss : List (FidState ν η)) : Prop :=
  ∀ n, refs n = (fss.countP fun fs => fs.node = n : Nat)

/-- The reference counts count the bound fids, and no fid is in I/O. -/
structure Good (s : State ν η) : Prop where
  refs : Counts s.refs s.fids.states
  idle : ∀ fs ∈ s.fids.states, fs.ioRefs = 0

section Ledger

variable {fss' : List (FidState ν η)} {log : List (Event ν)}

theorem ledgerOf_perm (h : fss.Perm fss') : ledgerOf fss log = ledgerOf fss' log := by
  ext n : 2
  · exact h.countP_eq _
  · rfl

theorem Counts.perm {refs : ν → Int} (h : fss.Perm fss') (hc : Counts refs fss) : Counts refs fss' := fun n => by
  rw [hc n, h.countP_eq]

theorem ledgerOf_hold : ledgerOf (fs :: fss) (.bind fs.node :: log) = (ledgerOf fss log).hold fs.node := by
  ext n : 2
  · by_cases h : n = fs.node
    · subst h
      simp [ledgerOf]
    · simp [ledgerOf, h, Ne.symm h]
  · rfl

theorem ledgerOf_drop : (ledgerOf (fs :: fss) log).drop fs.node = ledgerOf fss log := by
  ext n : 2
  · by_cases h : n = fs.node
    · subst h
      simp [ledgerOf]
    · simp [ledgerOf, h, Ne.symm h]
  · rfl

theorem ledgerOf_held_pos (h : fs ∈ fss) : 0 < (ledgerOf fss log).held fs.node :=
  countP_pos_iff.2 ⟨fs, h, by simp⟩

theorem Counts.inc {refs : ν → Int} (hc : Counts refs fss) :
    Counts (Function.update refs fs.node (refs fs.node + 1)) (fs :: fss) := by
  intro n
  have hn := hc n
  by_cases h : n = fs.node
  · subst h
    simp [hn]
  · simpa [h, Ne.symm h] using hn

theorem Counts.dec {refs : ν → Int} (hc : Counts refs (fs :: fss)) :
    Counts (Function.update refs fs.node (refs fs.node - 1)) fss := by
  intro n
  have hn := hc n
  by_cases h : n = fs.node
  · subst h
    simp [hn]
  · simpa [h, Ne.symm h] using hn

end Ledger

/-! ## The primitives -/

section Primitives

variable {n : ν}

theorem incRefNode_eq (hcfg : cfg.EmbedsInode) (s : State ν η) (n : ν) :
    s.incRefNode cfg n = { s with refs := Function.update s.refs n (s.refs n + 1) } :=
  if_pos (hcfg n _ (by simp))

theorem decRefNode_eq (hcfg : cfg.EmbedsInode) (s : State ν η) (n : ν) :
    s.decRefNode cfg n = (s.refs n - 1 == 0, { s with refs := Function.update s.refs n (s.refs n - 1) }) :=
  if_pos (hcfg n _ (by simp))

omit [DecidableEq ν] in
theorem closeOrphanNode_eq (hcfg : cfg.EmbedsInode) (s : State ν η) (n : ν) :
    s.closeOrphanNode cfg n = s.record (.close n) :=
  if_pos (hcfg n _ (by simp))

theorem closeUnboundNode_ledger (hcfg : cfg.EmbedsInode) (hs : Good s) (n : ν) :
    Good (s.closeUnboundNode cfg n) ∧ (s.closeUnboundNode cfg n).fids = s.fids ∧
      ledger (s.closeUnboundNode cfg n) = (ledger s).closeUnheld n := by
  have hn := hs.refs n
  by_cases hz : s.refs n = 0
  · have hclose : s.closeUnboundNode cfg n = s.record (.close n) := by
      rw [State.closeUnboundNode, if_neg (by simp [hz]), closeOrphanNode_eq hcfg]
    have hheld : (ledger s).held n = 0 := by
      rw [hz] at hn
      exact_mod_cast hn.symm
    rw [hclose, Ledger.closeUnheld, if_pos hheld]
    exact ⟨⟨hs.refs, hs.idle⟩, rfl, rfl⟩
  · have hkeep : s.closeUnboundNode cfg n = s := if_pos ⟨hcfg n _ (by simp), hz⟩
    have hheld : (ledger s).held n ≠ 0 := fun h => hz (by rw [hn]; exact_mod_cast h)
    rw [hkeep, Ledger.closeUnheld, if_neg hheld]
    exact ⟨hs, rfl, rfl⟩

variable {prev : FidState ν η}

theorem releaseNow_ledger (hcfg : cfg.EmbedsInode) (hc : Counts s.refs (fs :: fss)) {lastRef : Bool}
    (hd : s.decRefNode cfg fs.node = (lastRef, s')) :
    Counts (s'.releaseNow cfg fs lastRef).refs fss ∧ (s'.releaseNow cfg fs lastRef).fids = s.fids ∧
      ledgerOf fss (s'.releaseNow cfg fs lastRef).log = (ledgerOf (fs :: fss) s.log).release fs.node := by
  have hdec := hc.dec
  have hlast := hdec fs.node
  rw [Function.update_self] at hlast
  rw [decRefNode_eq hcfg] at hd
  cases hd
  rw [Ledger.release, ledgerOf_drop, Ledger.closeUnheld]
  by_cases hz : (ledgerOf fss s.log).held fs.node = 0
  · have hzero : (s.refs fs.node - 1 == 0) = true := beq_iff_eq.2 (by rw [hlast]; exact_mod_cast hz)
    rw [State.releaseNow, if_pos hzero, if_pos hz, closeOrphanNode_eq hcfg]
    exact ⟨hdec, rfl, rfl⟩
  · have hpos : ¬(s.refs fs.node - 1 == 0) = true := fun h =>
      hz (by have := beq_iff_eq.1 h; rw [hlast] at this; exact_mod_cast this)
    rw [State.releaseNow, if_neg hpos, if_neg hz]
    exact ⟨hdec, rfl, rfl⟩

/-- **Teardown** releases the nodes of all fids, one after another. -/
theorem releaseStates_ledger (hcfg : cfg.EmbedsInode) (hc : Counts s.refs fss) :
    Counts (releaseStates cfg true s fss).refs ([] : List (FidState ν η)) ∧
      (releaseStates cfg true s fss).fids = s.fids ∧
      ledgerOf ([] : List (FidState ν η)) (releaseStates cfg true s fss).log =
        (ledgerOf fss s.log).releaseAll (fss.map (·.node)) := by
  induction fss generalizing s with
  | nil => exact ⟨hc, rfl, rfl⟩
  | cons fs fss ih =>
    obtain ⟨hc', hfids, hl⟩ := releaseNow_ledger hcfg hc rfl
    obtain ⟨h1, h2, h3⟩ := ih hc'
    refine ⟨h1, h2.trans hfids, h3.trans ?_⟩
    rw [hl]
    rfl

theorem releaseStates_undrained (hcfg : cfg.EmbedsInode) (hc : Counts s.refs fss) :
    Counts (releaseStates cfg false s fss).refs ([] : List (FidState ν η)) ∧
      (releaseStates cfg false s fss).fids = s.fids ∧ (releaseStates cfg false s fss).log = s.log := by
  induction fss generalizing s with
  | nil => exact ⟨hc, rfl, rfl⟩
  | cons fs fss ih =>
    simp only [releaseStates, decRefNode_eq hcfg, Bool.false_eq_true, if_false]
    exact ih hc.dec

theorem addFid_ledger (hcfg : cfg.EmbedsInode) (hs : Good s) (hfs : fs.ioRefs = 0) (h : s.addFid cfg fid fs = .ok s') :
    Good s' ∧ ledger s' = (ledger s).hold fs.node := by
  unfold State.addFid FidTable.add at h
  split at h
  · exact absurd h (by simp)
  · exact absurd h (by simp)
  · rename_i fids hadd
    split at hadd
    · exact absurd hadd (by simp)
    · split at hadd
      · exact absurd hadd (by simp)
      · rename_i hnone
        obtain rfl := Except.ok.inj hadd
        obtain rfl := Except.ok.inj h
        have hget : s.fids.get fid = none := by simpa using hnone
        have hstates := FidTable.states_insert_of_get_none hget fs
        rw [incRefNode_eq hcfg]
        refine ⟨⟨?_, ?_⟩, ?_⟩
        · show Counts _ (FidTable.states (s.fids.insert fid fs))
          rw [hstates]
          exact hs.refs.inc
        · show ∀ fs' ∈ FidTable.states (s.fids.insert fid fs), fs'.ioRefs = 0
          rw [hstates]
          simpa [hfs] using hs.idle
        · show ledgerOf (FidTable.states (s.fids.insert fid fs)) (.bind fs.node :: s.log) = _
          rw [hstates, ledgerOf_hold]
          rfl

theorem rebind_ledger (hcfg : cfg.EmbedsInode) (hs : Good s) (hget : s.fids.get fid = some prev) (fs : FidState ν η)
    (hfs : fs.ioRefs = 0) :
    let s' := ((({ s with fids := s.fids.insert fid fs }.record (.bind fs.node)).incRefNode cfg fs.node).decRefNode
      cfg prev.node).2
    Good s' ∧ ledger s' = ((ledger s).hold fs.node).drop prev.node := by
  have hperm := FidTable.states_perm hget
  have hrest : ∀ fs' ∈ FidTable.states (s.fids.erase fid), fs'.ioRefs = 0 := fun fs' h =>
    hs.idle fs' (hperm.symm.subset (mem_cons_of_mem _ h))
  -- the fid is counted for both nodes in between
  have hboth : Counts (Function.update s.refs fs.node (s.refs fs.node + 1))
      (prev :: fs :: FidTable.states (s.fids.erase fid)) :=
    Counts.perm (.swap ..) (hs.refs.perm hperm).inc
  simp only [incRefNode_eq hcfg, decRefNode_eq hcfg]
  refine ⟨⟨hboth.dec, fun fs' h => ?_⟩, ?_⟩
  · rcases mem_cons.1 h with rfl | h
    · exact hfs
    · exact hrest fs' h
  · have hledger : (ledger s).hold fs.node =
        ledgerOf (prev :: fs :: FidTable.states (s.fids.erase fid)) (.bind fs.node :: s.log) := by
      rw [ledgerOf_perm (.swap ..), ledgerOf_hold, ← ledgerOf_perm hperm]
      rfl
    rw [hledger, ledgerOf_drop]
    rfl

theorem reopen_ledger (hs : Good s) (hget : s.fids.get fid = some prev) (fs : FidState ν η)
    (hnode : fs.node = prev.node) (hfs : fs.ioRefs = prev.ioRefs) :
    Good { s with fids := s.fids.insert fid fs } ∧ ledger { s with fids := s.fids.insert fid fs } = ledger s := by
  have hperm := FidTable.states_perm hget
  have hsame : ∀ n, (fs :: FidTable.states (s.fids.erase fid)).countP (fun fs => fs.node = n) =
      s.fids.states.countP fun fs => fs.node = n := by
    intro n
    rw [hperm.countP_eq]
    simp only [countP_cons, hnode]
  refine ⟨⟨fun n => ?_, fun fs' h => ?_⟩, ?_⟩
  · rw [FidTable.states_insert, hsame]
    exact hs.refs n
  · rcases mem_cons.1 h with rfl | h
    · rw [hfs]
      exact hs.idle prev (hperm.symm.subset mem_cons_self)
    · exact hs.idle fs' (hperm.symm.subset (mem_cons_of_mem _ h))
  · ext n : 2
    · exact hsame n
    · rfl

end Primitives

/-! ## Losses -/

def Reply.failed : Reply → Bool
  | .error _ => true
  | _ => false

/-- The node that an in-place walk displaces without closing it: the old one, when every name resolved. -/
def walkLoss (s : State ν η) (m : Twalk) : Reply → Option (Loss ν)
  | .rwalk qids =>
    if m.fid = m.newFid ∧ m.names ≠ [] ∧ qids.length = m.names.length then
      (s.fids.get m.fid).map fun fs => .dropped fs.node
    else none
  | _ => none

/-- The node that a create displaces without closing it. -/
def createLoss (s : State ν η) (fid : Fid) (reply : Reply) : Option (Loss ν) :=
  if reply.failed then none else (s.fids.get fid).map fun fs => .dropped fs.node

/-- The node that a mkdir, symlink or mknod leaves to nobody. -/
def makeLoss (result : Except Errno ν) (reply : Reply) : Option (Loss ν) :=
  if reply.failed then none else match result with
    | .ok child => some (.orphaned child)
    | .error _ => none

/-- The node that the clunk of an xattr-write fid does not close. -/
def clunkLoss (s : State ν η) (fid : Fid) : Option (Loss ν) :=
  match s.fids.get fid with
  | some fs => if fs.state = .xattrWrite then some (.dropped fs.node) else none
  | none => none

/-- The node that a request drops or leaves without closing it. -/
def loss (cfg : Config ν) (s : State ν η) (r : Request ν η) : Option (Loss ν) :=
  let reply := (dispatch cfg s r).1
  match r with
  | .walk m _ => walkLoss s m reply
  | .clunk m _ => clunkLoss s m.fid
  | .lcreate m _ | .uCreate m _ => createLoss s m.fid reply
  | .mkdir _ result | .symlink _ result | .mknod _ result => makeLoss result reply
  | _ => none

/-! ## The handlers -/

section Handlers

/-- What a handler does: it keeps `Good` and does one transaction. -/
def Does (s : State ν η) (loss : Reply → Option (Loss ν)) (r : Reply × State ν η) : Prop :=
  Good r.2 ∧ Txn (ledger s) (loss r.1) (ledger r.2)

variable {reply : Reply} {lookup : Nat → Except Errno ν} {walkStart current : ν} {names : List Codec.Bytes}
  {qids : List QID} {w : Walked ν}

theorem Does.skip (hs : Good s) {loss : Reply → Option (Loss ν)} (h : loss reply = none) :
    Does s loss (reply, s) := ⟨hs, by rw [h]; exact .skip⟩

theorem held_of_get (h : s.fids.get fid = some fs) : 0 < (ledger s).held fs.node :=
  ledgerOf_held_pos ((FidTable.states_perm h).symm.subset mem_cons_self)

theorem Good.idle_of_get (hs : Good s) (h : s.fids.get fid = some fs) : fs.ioRefs = 0 :=
  hs.idle fs ((FidTable.states_perm h).symm.subset mem_cons_self)

theorem handleAttach_does (hcfg : cfg.EmbedsInode) (hs : Good s) (m : Tattach) :
    Does s (fun _ => none) (handleAttach cfg s m) := by
  unfold handleAttach
  split
  · exact .skip hs rfl
  · split
    · exact .skip hs rfl
    · rename_i node _
      have hrec : Good (s.record (.lent node)) := ⟨hs.refs, hs.idle⟩
      dsimp only
      split
      · exact ⟨hrec, .refuse node⟩
      · rename_i s' hadd
        obtain ⟨hgood, hl⟩ := addFid_ledger hcfg hrec rfl hadd
        refine ⟨hgood, ?_⟩
        rw [hl]
        exact .attach node

theorem addXattrReadFid_does (hcfg : cfg.EmbedsInode) (hs : Good s) (hget : s.fids.get fid = some fs) (newFid : Fid)
    (size : UInt64) :
    Does s (fun _ => none) (addXattrReadFid cfg s newFid fs.node size) := by
  unfold addXattrReadFid
  split
  · exact .skip hs rfl
  · rename_i s' hadd
    obtain ⟨hgood, hl⟩ := addFid_ledger hcfg hs rfl hadd
    refine ⟨hgood, ?_⟩
    rw [hl]
    exact .share (n := fs.node) (held_of_get hget)

theorem handleXattrwalk_does (hcfg : cfg.EmbedsInode) (hs : Good s) (m : P9l.Txattrwalk)
    (result : Except Errno UInt64) : Does s (fun _ => none) (handleXattrwalk cfg s m result) := by
  unfold handleXattrwalk
  split
  · exact .skip hs rfl
  · rename_i fs hget
    split
    · exact .skip hs rfl
    · split
      · exact .skip hs rfl
      · split
        · exact .skip hs rfl
        · exact addXattrReadFid_does hcfg hs hget _ _

theorem handleXattrcreate_does (hs : Good s) (m : P9l.Txattrcreate) (result : Except Errno Unit) :
    Does s (fun _ => none) (handleXattrcreate cfg s m result) := by
  unfold handleXattrcreate
  split
  · exact .skip hs rfl
  · rename_i fs hget
    have haccept : Does s (fun _ => none)
        (Reply.rxattrcreate, { s with fids := s.fids.insert m.fid { fs with state := .xattrWrite } }) := by
      obtain ⟨hgood, hl⟩ := reopen_ledger hs hget { fs with state := .xattrWrite } rfl rfl
      exact ⟨hgood, by rw [hl]; exact .skip⟩
    dsimp only
    split
    · exact .skip hs rfl
    · split
      · exact .skip hs rfl
      · split
        · split
          · exact .skip hs rfl
          · exact haccept
        · -- the interface asked for depends on the size
          split <;> split
          · exact .skip hs rfl
          · exact haccept
          · exact .skip hs rfl
          · exact haccept

theorem openFid_does (hs : Good s) (fid : Fid) (result : Except Errno (Option η × UInt32))
    (reply : QID → UInt32 → Reply) : Does s (fun _ => none) (openFid cfg s fid result reply) := by
  unfold openFid
  split
  · exact .skip hs rfl
  · rename_i fs hget
    split
    · exact .skip hs rfl
    · rename_i hstate
      split
      · exact .skip hs rfl
      · split
        · exact .skip hs rfl
        · rename_i handle hint
          simp only [FidTable.markOpenedWithHandle, hget, if_neg hstate]
          obtain ⟨hgood, hl⟩ := reopen_ledger hs hget { fs with state := .opened, handle := handle } rfl rfl
          exact ⟨hgood, by rw [hl]; exact .skip⟩

theorem makeChild_does (hs : Good s) (capability : Capability) (dirFid : Fid) (name : Codec.Bytes)
    (result : Except Errno ν) {reply : QID → Reply} (hreply : ∀ q, (reply q).failed = false) :
    Does s (makeLoss result) (makeChild cfg s capability dirFid name result reply) := by
  unfold makeChild
  split
  · exact .skip hs rfl
  · split
    · exact .skip hs rfl
    · split
      · exact .skip hs rfl
      · split
        · exact .skip hs rfl
        · rename_i child
          refine ⟨⟨hs.refs, hs.idle⟩, ?_⟩
          simp only [makeLoss, hreply, Bool.false_eq_true, if_false]
          exact .make child

theorem createFid_does (hcfg : cfg.EmbedsInode) (hs : Good s) (fid : Fid) (name : Codec.Bytes)
    (result : Except Errno (ν × Option η × UInt32)) {reply : QID → UInt32 → Reply}
    (hreply : ∀ q u, (reply q u).failed = false) :
    Does s (createLoss s fid) (createFid cfg s fid name result reply) := by
  unfold createFid
  split
  · exact .skip hs rfl
  · rename_i fs hget
    split
    · exact .skip hs rfl
    · rename_i hstate
      split
      · exact .skip hs rfl
      · split
        · exact .skip hs rfl
        · split
          · exact .skip hs rfl
          · rename_i child handle hint
            have hrec : Good (s.record (.given child)) := ⟨hs.refs, hs.idle⟩
            have hget' : (s.record (.given child)).fids.get fid = some fs := hget
            obtain ⟨hgood, hl⟩ := rebind_ledger hcfg hrec hget'
              { fs with node := child, state := .opened, handle := handle } (hs.idle_of_get hget :)
            simp only [FidTable.updateAndOpen, hget', if_neg hstate]
            refine ⟨hgood, ?_⟩
            simp only [createLoss, hreply, hget, Bool.false_eq_true, if_false, Option.map_some]
            rw [hl]
            exact .create child (held_of_get hget)

omit [DecidableEq ν] in
theorem clunk_eq {fids : FidTable ν η} (h : s.fids.clunk fid = some (fs, fids)) :
    s.fids.get fid = some fs ∧ fids = s.fids.erase fid := by
  unfold FidTable.clunk at h
  obtain ⟨fs', hget, heq⟩ := Option.map_eq_some_iff.1 h
  cases heq
  exact ⟨hget, rfl⟩

theorem finishClunk_ledger (hcfg : cfg.EmbedsInode) (hs : Good s) {fid : Fid} {fs : FidState ν η}
    (hget : s.fids.get fid = some fs) {lastRef : Bool} {s' : State ν η}
    (hd : { s with fids := s.fids.erase fid }.decRefNode cfg fs.node = (lastRef, s')) :
    Good (s'.finishClunk cfg fs lastRef) ∧ ledger (s'.finishClunk cfg fs lastRef) = (ledger s).release fs.node := by
  have hperm := FidTable.states_perm hget
  have hnow : s'.finishClunk cfg fs lastRef = s'.releaseNow cfg fs lastRef := by
    simp only [State.finishClunk, FidState.finishClunk, hs.idle_of_get hget, BEq.rfl, if_true, State.releaseNow]
  have hbefore : Counts { s with fids := s.fids.erase fid }.refs (fs :: FidTable.states (s.fids.erase fid)) :=
    hs.refs.perm hperm
  obtain ⟨hc, hfids, hl⟩ := releaseNow_ledger hcfg hbefore hd
  rw [hnow]
  refine ⟨⟨?_, fun fs' h => ?_⟩, ?_⟩
  · rw [hfids]
    exact hc
  · rw [hfids] at h
    exact hs.idle fs' (hperm.symm.subset (mem_cons_of_mem _ h))
  · have hsame : ledger s = ledgerOf (fs :: FidTable.states (s.fids.erase fid)) s.log := ledgerOf_perm hperm
    rw [ledger, hfids, hsame]
    exact hl

theorem handleRemove_does (hcfg : cfg.EmbedsInode) (hs : Good s) (m : Tremove) (unlink : Except Errno Unit) :
    Does s (fun _ => none) (handleRemove cfg s m unlink) := by
  unfold handleRemove
  split
  · exact .skip hs rfl
  · rename_i fs fids hclunk
    obtain ⟨hget, rfl⟩ := clunk_eq hclunk
    rcases hd : { s with fids := s.fids.erase m.fid }.decRefNode cfg fs.node with ⟨lastRef, s'⟩
    obtain ⟨hgood, hl⟩ := finishClunk_ledger hcfg hs hget hd
    have htxn : Txn (ledger s) none ((ledger s).release fs.node) := .release (held_of_get hget)
    rw [← hl] at htxn
    simp only [hd]
    split
    · exact ⟨hgood, htxn⟩
    · exact ⟨hgood, htxn⟩

theorem handleClunk_does (hcfg : cfg.EmbedsInode) (hs : Good s) (m : Tclunk) (commit : Except Errno Unit) :
    Does s (fun _ => clunkLoss s m.fid) (handleClunk cfg s m commit) := by
  unfold handleClunk
  split
  · rename_i hclunk
    have hget : s.fids.get m.fid = none := by simpa [FidTable.clunk] using hclunk
    exact .skip hs (by simp only [clunkLoss, hget])
  · rename_i fs fids hclunk
    obtain ⟨hget, rfl⟩ := clunk_eq hclunk
    have hperm := FidTable.states_perm hget
    rcases hd : { s with fids := s.fids.erase m.fid }.decRefNode cfg fs.node with ⟨lastRef, s'⟩
    simp only [hd]
    by_cases hx : fs.state = .xattrWrite
    · have hloss : clunkLoss s m.fid = some (.dropped fs.node) := by simp only [clunkLoss, hget, if_pos hx]
      have htxn : Txn (ledger s) (some (.dropped fs.node)) ((ledger s).drop fs.node) := .forget (held_of_get hget)
      rw [decRefNode_eq hcfg] at hd
      cases hd
      have hdoes : ∀ reply, Does s (fun _ => clunkLoss s m.fid) (reply, { s with
          fids := s.fids.erase m.fid, refs := Function.update s.refs fs.node (s.refs fs.node - 1) }) := by
        refine fun reply => ⟨⟨(hs.refs.perm hperm).dec, fun fs' h => ?_⟩, ?_⟩
        · exact hs.idle fs' (hperm.symm.subset (mem_cons_of_mem _ h))
        · rw [ledger, ledgerOf_perm hperm, ledgerOf_drop, ← ledgerOf_perm hperm, ← hloss] at htxn
          exact htxn
      simp only [if_pos hx]
      cases commit with
      | error e | ok u => exact hdoes _
    · have hloss : clunkLoss s m.fid = none := by simp only [clunkLoss, hget, if_neg hx]
      obtain ⟨hgood, hl⟩ := finishClunk_ledger hcfg hs hget hd
      have htxn : Txn (ledger s) none ((ledger s).release fs.node) := .release (held_of_get hget)
      rw [← hl, ← hloss] at htxn
      simp only [if_neg hx]
      exact ⟨hgood, htxn⟩

theorem walkNames_visit (hcfg : cfg.EmbedsInode) {s₀ : State ν η} (hs : Good s) (hfids : s.fids = s₀.fids)
    (hv : Visit walkStart (ledger s₀) (ledger s) current)
    (h : walkNames cfg lookup walkStart names current qids s = (w, s')) :
    Good s' ∧ s'.fids = s₀.fids ∧ Visit walkStart (ledger s₀) (ledger s') w.current := by
  induction names generalizing current qids s with
  | nil =>
    cases h
    exact ⟨hs, hfids, hv⟩
  | cons name names ih =>
    unfold walkNames at h
    split at h
    · cases h
      exact ⟨hs, hfids, hv⟩
    · split at h
      · cases h
        exact ⟨hs, hfids, hv⟩
      · split at h
        · cases h
          exact ⟨hs, hfids, hv⟩
        · rename_i child _
          have hrec : Good (s.record (.given child)) := ⟨hs.refs, hs.idle⟩
          have hnext := Visit.next child hv
          by_cases hc : current ≠ walkStart ∧ current ≠ child
          · obtain ⟨hgood, hf, hl⟩ := closeUnboundNode_ledger hcfg hrec current
            rw [Ledger.stepPast, if_pos hc] at hnext
            simp only [if_pos hc] at h
            exact ih hgood (hf.trans hfids) (by rw [hl]; exact hnext) h
          · rw [Ledger.stepPast, if_neg hc] at hnext
            simp only [if_neg hc] at h
            exact ih hrec hfids hnext h

theorem walkNames_stuck (h : walkNames cfg lookup walkStart names current qids s = (w, s')) :
    qids.length ≤ w.qids.length ∧ (w.qids.length = qids.length → s' = s) := by
  induction names generalizing current qids s with
  | nil =>
    cases h
    exact ⟨Nat.le_refl _, fun _ => rfl⟩
  | cons name names ih =>
    unfold walkNames at h
    split at h
    · cases h
      exact ⟨Nat.le_refl _, fun _ => rfl⟩
    · split at h
      · cases h
        exact ⟨Nat.le_refl _, fun _ => rfl⟩
      · split at h
        · cases h
          exact ⟨Nat.le_refl _, fun _ => rfl⟩
        · have hlen := (ih h).1
          rw [length_append, length_singleton] at hlen
          exact ⟨by omega, fun heq => by omega⟩

theorem visit_does (hcfg : cfg.EmbedsInode) (hs' : Good s') (hheld : 0 < (ledger s).held walkStart)
    (hv : Visit walkStart (ledger s) (ledger s') current) {loss : Reply → Option (Loss ν)} (hloss : loss reply = none) :
    Does s loss (reply, if current ≠ walkStart then s'.closeUnboundNode cfg current else s') := by
  have htxn := Txn.visit hheld hv
  by_cases hc : current ≠ walkStart
  · obtain ⟨hgood, -, hl⟩ := closeUnboundNode_ledger hcfg hs' current
    rw [if_pos hc, ← hl] at htxn
    rw [if_pos hc]
    exact ⟨hgood, by rw [hloss]; exact htxn⟩
  · rw [if_neg hc] at htxn ⊢
    exact ⟨hs', by rw [hloss]; exact htxn⟩

theorem handleWalk_does (hcfg : cfg.EmbedsInode) (hs : Good s) (m : Twalk) (lookup : Nat → Except Errno ν) :
    Does s (walkLoss s m) (handleWalk cfg s m lookup) := by
  unfold handleWalk
  split
  · exact .skip hs rfl
  · rename_i src hget
    have hheld := held_of_get hget
    split
    · rename_i hnames
      have hnone : walkLoss s m (.rwalk []) = none := if_neg fun h => h.2.1 hnames
      split
      · exact .skip hs hnone
      · split
        · exact .skip hs rfl
        · rename_i s' hadd
          obtain ⟨hgood, hl⟩ := addFid_ledger hcfg hs rfl hadd
          refine ⟨hgood, ?_⟩
          rw [hnone, hl]
          exact .share (n := src.node) hheld
    · rename_i hnames
      split
      · exact .skip hs rfl
      · rcases hw : walkNames cfg lookup src.node m.names src.node [] s with ⟨w, s'⟩
        obtain ⟨hs', hfids, hv⟩ := walkNames_visit hcfg hs rfl .here hw
        simp only [hw]
        split
        · rename_i hqids _
          obtain rfl := (walkNames_stuck hw).2 (by rw [hqids])
          exact .skip hs rfl
        · have hnone : ∀ {reply}, (m.fid ≠ m.newFid ∨ ∀ qids, reply = .rwalk qids → qids.length ≠ m.names.length) →
              walkLoss s m reply = none := by
            intro reply h
            unfold walkLoss
            split
            · rename_i qids
              exact if_neg fun hall => h.elim (fun h => h hall.1) fun h => h qids rfl hall.2.2
            · rfl
          split
          · rename_i hlen
            have hget' : s'.fids.get m.fid = some src := hfids ▸ hget
            split
            · rename_i hfid
              have hloss : walkLoss s m (.rwalk w.qids) = some (.dropped src.node) := by
                simp only [walkLoss, hget, Option.map_some]
                exact if_pos ⟨hfid, hnames, hlen⟩
              obtain ⟨hgood, hl⟩ := rebind_ledger hcfg hs' hget' { src with node := w.current } (hs.idle_of_get hget :)
              simp only [FidTable.update, hget', Option.map_some]
              refine ⟨hgood, ?_⟩
              rw [hloss, hl]
              exact .move hheld hv
            · rename_i hfid
              split
              · exact visit_does hcfg hs' hheld hv (hnone (.inl hfid))
              · rename_i s'' hadd
                obtain ⟨hgood, hl⟩ := addFid_ledger hcfg hs' rfl hadd
                refine ⟨hgood, ?_⟩
                rw [hnone (.inl hfid), hl]
                exact .walk hheld hv
          · rename_i hlen
            refine visit_does hcfg hs' hheld hv (hnone (.inr fun qids h => ?_))
            obtain rfl := Reply.rwalk.inj h
            exact hlen

/-- **Every request does one transaction.** -/
theorem dispatch_does (hcfg : cfg.EmbedsInode) (hs : Good s) (r : Request ν η) :
    Good (dispatch cfg s r).2 ∧ Txn (ledger s) (loss cfg s r) (ledger (dispatch cfg s r).2) := by
  cases r with
  | attach m => exact handleAttach_does hcfg hs m
  | walk m lookup => exact handleWalk_does hcfg hs m lookup
  | clunk m commit => exact handleClunk_does hcfg hs m commit
  | remove m unlink => exact handleRemove_does hcfg hs m unlink
  | lopen m result => exact openFid_does hs m.fid result .rlopen
  | uOpen m result =>
    show Does s (fun _ => none) (handleUOpen cfg s m result)
    unfold handleUOpen
    split
    · exact .skip hs rfl
    · exact openFid_does hs m.fid result .ropen
  | lcreate m result => exact createFid_does hcfg hs m.fid m.name result fun _ _ => rfl
  | uCreate m result =>
    show Does s (createLoss s m.fid) (handleUCreate cfg s m result)
    unfold handleUCreate
    split
    · exact .skip hs rfl
    · split
      · exact .skip hs rfl
      · exact createFid_does hcfg hs m.fid m.name result fun _ _ => rfl
  | mkdir m result => exact makeChild_does hs .nodeMkdirer m.dirFid m.name result fun _ => rfl
  | symlink m result => exact makeChild_does hs .nodeSymlinker m.dirFid m.name result fun _ => rfl
  | mknod m result => exact makeChild_does hs .nodeMknoder m.dirFid m.name result fun _ => rfl
  | xattrwalk m result => exact handleXattrwalk_does hcfg hs m result
  | xattrcreate m result => exact handleXattrcreate_does hs m result
  | other reply => exact ⟨hs, .skip⟩

end Handlers

end NineP.Server.Dispatch
