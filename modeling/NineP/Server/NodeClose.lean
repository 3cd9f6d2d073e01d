import NineP.Server.NodeLedger

/-!
# When nodes are closed

Over every sequential run of requests, on any number of connections one after another.
-/

namespace NineP.Server.Dispatch

open Proto RefCount Transition List

variable {ν η : Type} [DecidableEq ν] {cfg : Config ν} {s s' : State ν η} {l : Label ν η}

inductive StepLedger (cfg : Config ν) (s : State ν η) : Label ν η → Ledger ν → Prop
  | request {r : Request ν η} {l' : Ledger ν} (t : Txn (ledger s) (loss cfg s r) l') : StepLedger cfg s (.request r) l'
  | releaseAll {l : Label ν η} {ns : List ν} (hns : ∀ n, ns.count n = (ledger s).held n) :
      StepLedger cfg s l ((ledger s).releaseAll ns)
  | abandon {order : List (FidState ν η)} {msize : UInt32} :
      StepLedger cfg s (.cleanup false order msize) (ledger s).abandon

theorem init_good (msize : UInt32) : Good (init msize : State ν η) := ⟨fun _ => rfl, fun _ h => by cases h⟩

variable {l' : Ledger ν} {ls : List (Label ν η)} {msize : UInt32}

theorem StepLedger.log_suffix (h : StepLedger cfg s l l') : s.log <:+ l'.log := by
  cases h with
  | request t => exact t.log_suffix
  | releaseAll hns => exact (ledger s).releaseAll_log_suffix _
  | abandon => exact suffix_refl _

theorem StepLedger.safe (h : StepLedger cfg s l l') (hs : Safe (ledger s)) (ho : OffersOpen l'.log) : Safe l' := by
  cases h with
  | request t => exact t.safe hs ho
  | releaseAll hns => exact hs.releaseAll _
  | abandon => exact hs.abandon

variable [DecidableEq η]

theorem teardown_ledger (hcfg : cfg.EmbedsInode) (hs : Good s) {order : List (FidState ν η)}
    (horder : order.isPerm s.fids.states) (msize : UInt32) :
    let s' := { releaseStates cfg true s.clunkAll order with msize := msize }
    Good s' ∧ ledger s' = (ledger s).releaseAll (order.map (·.node)) := by
  have hperm := isPerm_iff.1 horder
  have hc : Counts s.clunkAll.refs order := hs.refs.perm hperm.symm
  obtain ⟨h1, h2, h3⟩ := releaseStates_ledger hcfg hc
  have hfids : FidTable.states (releaseStates cfg true s.clunkAll order).fids = [] := by
    rw [h2]
    rfl
  refine ⟨⟨?_, ?_⟩, ?_⟩
  · rw [hfids]
    exact h1
  · rw [hfids]
    simp
  · rw [ledger, hfids, ledger, ← ledgerOf_perm hperm]
    exact h3

theorem step_ledger (hcfg : cfg.EmbedsInode) (hs : Good s) (h : step cfg s l = some s') :
    Good s' ∧ StepLedger cfg s l (ledger s') := by
  have hheld : ∀ {order : List (FidState ν η)}, order.isPerm s.fids.states →
      ∀ n, (order.map (·.node)).count n = (ledger s).held n := by
    intro order horder n
    rw [ledger, ← ledgerOf_perm (isPerm_iff.1 horder), List.count, countP_map]
    exact countP_congr fun fs _ => by simp
  cases l with
  | request r =>
    cases h
    obtain ⟨hgood, htxn⟩ := dispatch_does hcfg hs r
    exact ⟨hgood, .request htxn⟩
  | version order msize =>
    simp only [step] at h
    split at h
    · rename_i horder
      cases h
      obtain ⟨hgood, hl⟩ := teardown_ledger hcfg hs horder msize
      exact ⟨hgood, by rw [hl]; exact .releaseAll (hheld horder)⟩
    · cases h
  | cleanup drained order msize =>
    simp only [step] at h
    split at h
    · rename_i horder
      cases h
      cases drained with
      | true =>
        obtain ⟨hgood, hl⟩ := teardown_ledger hcfg hs horder msize
        exact ⟨hgood, by rw [hl]; exact .releaseAll (hheld horder)⟩
      | false =>
        have hc : Counts s.clunkAll.refs order := hs.refs.perm (isPerm_iff.1 horder).symm
        obtain ⟨h1, h2, h3⟩ := releaseStates_undrained hcfg hc
        have hfids : FidTable.states (releaseStates cfg false s.clunkAll order).fids = [] := by
          rw [h2]
          rfl
        refine ⟨⟨by rw [hfids]; exact h1, by rw [hfids]; simp⟩, ?_⟩
        rw [ledger, hfids]
        simp only [h3]
        exact .abandon
    · cases h

/-! ## No closed node is bound -/

/-- The state of every run: reference counts are right, and unless a closed node was handed out, no closed node is
bound. -/
theorem run_safe (hcfg : cfg.EmbedsInode) (h : run (step cfg) (init msize) ls = some s) :
    Good s ∧ (OffersOpen s.log → Safe (ledger s)) := by
  refine run_inv (P := fun s => Good s ∧ (OffersOpen s.log → Safe (ledger s))) ?_ ⟨init_good msize, fun _ => ?_⟩ h
  · rintro s l s' ⟨hs, hsafe⟩ hstep
    obtain ⟨hs', hl⟩ := step_ledger hcfg hs hstep
    exact ⟨hs', fun ho => hl.safe (hsafe (ho.of_suffix hl.log_suffix)) ho⟩
  · exact Safe.empty

/-- A server whose nodes are numbers and all directories. -/
def sampleConfig : Config Nat where
  root := 0
  anames := none
  maxFids := 0
  qid n := ⟨qtDir, 0, n.toUInt64⟩
  implements _ c := c != .rawXattrer

theorem sampleConfig_embedsInode : sampleConfig.EmbedsInode := fun _ c hc => by
  cases c <;> first | rfl | exact absurd rfl hc

def sampleAttach : Label Nat Unit := .request (.attach ⟨0, noFid, [], [], 0⟩)

/-- Attach, walk fid 0 to fid 1 through two new nodes, and clunk fid 1. -/
def sampleWalk : List (Label Nat Unit) :=
  [sampleAttach, .request (.walk ⟨0, 1, [[0x61], [0x62]]⟩ fun i => .ok (i + 1)), .request (.clunk ⟨1⟩ (.ok ()))]

/-- The step loses no node that has to be closed: what it drops is not a node that a file system call returned, or
is bound to another fid as well; and the handlers have drained at the end of a connection. -/
def KeepsNodes (cfg : Config ν) (s : State ν η) : Label ν η → Prop
  | .request r => Harmless (ledger s) (loss cfg s r)
  | .version _ _ => True
  | .cleanup drained _ _ => drained = true

instance (cfg : Config ν) (s : State ν η) (l : Label ν η) : Decidable (KeepsNodes cfg s l) :=
  match l with
  | .request r => inferInstanceAs (Decidable (Harmless (ledger s) (loss cfg s r)))
  | .version _ _ => .isTrue trivial
  | .cleanup drained _ _ => inferInstanceAs (Decidable (drained = true))

omit [DecidableEq η] in
theorem StepLedger.settled (h : StepLedger cfg s l l') (hk : KeepsNodes cfg s l) (hs : Settled [] (ledger s))
    (hf : Fresh l'.log) : Settled [] l' := by
  cases h with
  | request t => exact t.settled hs hk hf
  | releaseAll hns => exact hs.releaseAll fun n => Nat.le_of_eq (hns n)
  | abandon => exact absurd hk (by simp [KeepsNodes])

theorem run_settled (hcfg : cfg.EmbedsInode) (hk : Meets (step cfg) (KeepsNodes cfg) (init msize) ls)
    (h : run (step cfg) (init msize) ls = some s) :
    Good s ∧ (Fresh s.log → Settled [] (ledger s)) := by
  refine run_inv_of_meets (P := fun s => Good s ∧ (Fresh s.log → Settled [] (ledger s))) ?_
    ⟨init_good msize, fun _ => Settled.empty⟩ hk h
  rintro s l s' ⟨hs, hsettled⟩ hk hstep
  obtain ⟨hs', hl⟩ := step_ledger hcfg hs hstep
  exact ⟨hs', fun hf => hl.settled hk (hsettled (hf.of_suffix hl.log_suffix)) hf⟩

end NineP.Server.Dispatch
