import NineP.Server.HandleLedger

/-!
# Every handle is released once
-/

namespace NineP.Server.Handlers

open Codec Proto Program Transition List Option

variable {ν : Type}

/-! ## Runs -/

section Runs

variable [DecidableEq ν] {cfg : Config ν} {s s' : State ν} {conn : Nat}

/-- At the step `l`, `handleClunk` does not find a handle to be released in an xattr-write fid. -/
def xattrOk (s : State ν) (l : Label ν) : Bool := (l.thread.bind s.nextCmd).all (xattrFree s)

variable {l : Label ν} {t : Nat} {th : Thread ν} {c : Cmd ν} {k : c.Res → Op ν Answer} {n : ν} {x : c.Res}

omit [DecidableEq ν] in
theorem xattrFree_of_ok (h : xattrOk s l = true) (hl : l.thread = some t) (ht : s.threads[t]? = some th)
    (hop : th.op = .cmd c k) :
    xattrFree s c = true := by
  have hnext : s.nextCmd t = some c := by simp [State.nextCmd, ht, hop]
  simpa [xattrOk, hl, hnext] using h

theorem handles_keeps (cfg : Config ν) : Keeps cfg handleRules (fun _ r => r.Empty)
    (fun s l => xattrOk s l = true ∧ ∀ conn, l ≠ .cleanup conn false) Ledger where
  start {s rs l conn op g} hl hC hstart := by
    have hsettles : Settles op := by
      cases hstart with
      | request _ req => exact settles_dispatch req
      | reVersion => exact settles_clunkAll
      | cleanup conn drained =>
        cases drained with
        | true => exact settles_clunkAll
        | false => exact absurd rfl (hC.2 conn)
    exact ⟨{}, hsettles {} ⟨rfl, rfl, rfl⟩, hl.add.congr rfl rfl rfl⟩
  negotiated hl := hl.congr rfl rfl rfl
  enter hl _ _ := hl.congr rfl rfl rfl
  does hl hC hthread ht hop hr hpre hdoes _ :=
    ⟨_, rfl, (hdoes.ledger hl hr hpre (xattrFree_of_ok hC.1 hthread ht hop)).congr rfl rfl rfl⟩

omit [DecidableEq ν] in
theorem init_ledger : Ledger (init : State ν) [] where
  io := by simp [init]
  begun := by simp
  duty := by simp
  opened := by simp
  held := by simp
  table := by simp [init]
  fresh := by simp [init]
  stored := by simp [init]
  out := by simp [init]
  released := by simp [init]
  place := by simp [init]

omit [DecidableEq ν] in
/-- When all requests have been answered, a handle has been released or is stored in a fid of the table. -/
theorem Ledger.quiet (hl : Ledger s rs) (hempty : ∀ r ∈ rs, r.Empty)
    (hi : s.opens[i]? = some (n, ifaces)) (hrel : .fileReleaser ∈ ifaces) (hfids : ∀ o ∈ s.objs, o.key = none) :
    s.released.count i = 1 := by
  have hplace := hl.place i n ifaces hi hrel
  have hheld : tally (fun r => r.held.countP (·.id == i)) rs = 0 :=
    tally_eq_zero fun r hr => by simp [(hempty r hr).held]
  have hstores : s.objs.countP (·.stores i) = 0 := by
    refine countP_eq_zero.2 fun o ho hstores => ?_
    obtain ⟨htaken, hhandle⟩ : o.taken = false ∧ o.handle.any (·.id == i) = true := by simpa [Obj.stores] using hstores
    obtain ⟨h, hh, hid⟩ := (Option.any_eq_true _ _).1 hhandle
    obtain rfl : h.id = i := by simpa using hid
    -- the handle has to be released, so it has been taken
    obtain ⟨n', hn'⟩ := hl.stored o ho h hh
    obtain ⟨-, rfl⟩ := Prod.mk.inj (mem_unique hi hn')
    obtain ⟨j, hj⟩ := mem_iff_getElem?.1 ho
    have hout := hl.out j o hj (hfids o ho) (by simp [Obj.releases, hh, Handle.releases, Handle.implements, hrel])
    have hduty : tally (·.duty.count j) rs = 0 := tally_eq_zero fun r hr => by simp [(hempty r hr).duty]
    have hio : o.ioRefs = 0 := by
      rw [hl.io j o hj]
      exact tally_eq_zero fun r hr => by simp [(hempty r hr).io]
    simp [Obj.settled, htaken, hio, hduty] at hout
  omega

/-! ## The end of a connection -/

/-- The labels of a connection that is served: its requests and what its handlers do. -/
def Label.serves (conn : Nat) : Label ν → Bool
  | .request c _ | .reVersion c | .negotiated c _ => c == conn
  | .cleanup _ _ => false
  | .go _ | .finish _ _ | .collect _ _ => true

/-- All fids and handlers belong to the connection. -/
structure OnlyConn (conn : Nat) (s : State ν) : Prop where
  fids : ∀ o ∈ s.objs, ∀ key, o.key = some key → key.1 = conn
  threads : ∀ th ∈ s.threads, th.conn = conn

theorem onlyConn_does (h : OnlyConn conn s) (ht : s.threads[t]? = some th) (hdoes : Does cfg s th.conn c x s') :
    OnlyConn conn (s'.setThread t (th.next c k x)) where
  fids o' ho' key hkey := by
    rcases hdoes.keys ho' hkey with ⟨o, ho, hkey⟩ | ⟨-, hconn⟩
    · exact h.fids o ho key hkey
    · exact hconn.trans (h.threads th (mem_of_getElem? ht))
  threads th' hth' := by
    rw [State.setThread, hdoes.threads] at hth'
    refine forall_mem_set h.threads ?_ th' hth'
    exact h.threads th (mem_of_getElem? ht)

theorem onlyConn_step (h : OnlyConn conn s) (hl : l.serves conn = true) (hstep : step cfg s l = some s') :
    OnlyConn conn s' := by
  cases step_steps hstep with
  | @start _ conn' op g hstart =>
    refine ⟨h.fids, fun th hth => ?_⟩
    rcases mem_append.1 hth with hth | hth
    · exact h.threads th hth
    · rw [mem_singleton.1 hth]
      cases hstart with
      | request | reVersion => simpa [Label.serves] using hl
      | cleanup => cases hl
  | negotiated => exact ⟨h.fids, h.threads⟩
  | @enter t th n m k ht hop =>
    refine ⟨h.fids, forall_mem_set h.threads ?_⟩
    exact h.threads th (mem_of_getElem? ht)
  | does hl ht hop hdoes => exact onlyConn_does h ht hdoes

/-- A program that binds no fid. -/
abbrev AddsNone {α : Type} (p : Op ν α) : Prop := p.All (·.adds = false)

omit [DecidableEq ν] in
theorem addsNone_decRefNode : AddsNone (decRefNode cfg n) := by
  unfold decRefNode
  split
  · exact Prog.all_lift.2 rfl
  · trivial

omit [DecidableEq ν] in
theorem addsNone_releaseNow : AddsNone (releaseNow cfg fs closeNode) := by
  refine .bind (Prog.all_lift.2 rfl) fun h => .bind ?_ fun _ => ?_
  · unfold releaseFileHandle
    split
    · trivial
    · split
      · exact Prog.all_lift.2 rfl
      · trivial
  · split
    · refine .bind (Prog.all_lift.2 rfl) fun node => ?_
      unfold closeOrphanNode
      split
      · exact Prog.all_lift.2 rfl
      · trivial
    · trivial

omit [DecidableEq ν] in
theorem addsNone_releaseStates : AddsNone (releaseStates cfg drained states) := by
  induction states with
  | nil => trivial
  | cons fs states ih =>
    refine .bind (Prog.all_lift.2 rfl) fun node => .bind addsNone_decRefNode fun lastRef => ?_
    split
    · exact .bind addsNone_releaseNow fun _ => ih
    · exact ih

/-- A connection that is torn down: `clunkAll` is still to come, or no fid is left and none will be bound. -/
def TornDown (cfg : Config ν) (conn : Nat) (s : State ν) : Prop :=
  OnlyConn conn s ∧ (∃ ths th, s.threads = ths ++ [th] ∧ th.op = clunkAll cfg true ∧ ∀ th ∈ ths, ∃ a, th.op = .pure a) ∨
    (∀ o ∈ s.objs, o.key = none) ∧ ∀ th ∈ s.threads, AddsNone th.op

omit [DecidableEq ν] in
theorem addsNone_pure (h : ∃ a, th.op = .pure a) : AddsNone th.op := by
  obtain ⟨a, ha⟩ := h
  rw [ha]
  trivial

theorem tornDown_collect {ths : List (Thread ν)} {th' : Thread ν} (h : OnlyConn conn s) (hths : s.threads = ths ++ [th])
    (hop : th.op = clunkAll cfg true) (hpure : ∀ th ∈ ths, ∃ a, th.op = .pure a) (ht : s.threads[t]? = some th')
    (hop' : th'.op = .cmd c k) (hdoes : Does cfg s th'.conn c x s') :
    TornDown cfg conn (s'.setThread t (th'.next c k x)) := by
  have hmem := mem_of_getElem? ht
  have hconn := h.threads th' hmem
  obtain rfl : th' = th := by
    rw [hths] at hmem
    rcases mem_append.1 hmem with hmem | hmem
    · obtain ⟨a, ha⟩ := hpure th' hmem
      rw [hop'] at ha
      cases ha
    · exact mem_singleton.1 hmem
  obtain ⟨rfl, hk⟩ : c = .clunkAll ∧ ∀ x, AddsNone (k x) := by
    rw [hop'] at hop
    cases hop
    have hrest (states : List Nat) : AddsNone (releaseStates cfg true states >>= fun _ => pure (Except.ok () : Answer)) :=
      .bind addsNone_releaseStates fun _ => trivial
    exact ⟨rfl, hrest⟩
  cases hdoes with
  | exec h => cases h
  | collect =>
    refine .inr ⟨fun o' ho' => ?_, fun th hth => ?_⟩
    · obtain ⟨o, ho, rfl⟩ := mem_map.1 ho'
      split
      · rfl
      · rename_i hof
        by_contra hkey
        obtain ⟨key, hkey⟩ := ne_none_iff_exists'.1 hkey
        simp [Obj.isOf, hkey, h.fids o ho key hkey, hconn] at hof
    · rcases mem_or_eq_of_mem_set hth with hth | rfl
      · have hth : th ∈ s.threads := hth
        rw [hths] at hth
        rcases mem_append.1 hth with hth | hth
        · exact addsNone_pure (hpure th hth)
        · rw [mem_singleton.1 hth, hop']
          exact ⟨rfl, hk⟩
      · exact hk _

theorem tornDown_step (h : TornDown cfg conn s) (hl : l.thread.isSome = true) (hstep : step cfg s l = some s') :
    TornDown cfg conn s' := by
  cases step_steps hstep with
  | start hstart =>
    rw [hstart.thread] at hl
    cases hl
  | negotiated => cases hl
  | @enter t th n m k ht hop =>
    have hmem := mem_of_getElem? ht
    rcases h with ⟨-, ths, th', hths, hop', hpure⟩ | ⟨hfids, hadds⟩
    · rw [hths] at hmem
      rcases mem_append.1 hmem with hmem | hmem
      · obtain ⟨a, ha⟩ := hpure th hmem
        rw [hop] at ha
        cases ha
      · rw [mem_singleton.1 hmem, hop'] at hop
        cases hop
    · refine .inr ⟨hfids, forall_mem_set hadds ?_⟩
      exact hadds th hmem
  | @does _ t th c k x s₁ hthread ht hop hdoes =>
    rcases h with ⟨honly, ths, th', hths, hop', hpure⟩ | ⟨hfids, hadds⟩
    · exact tornDown_collect honly hths hop' hpure ht hop hdoes
    · have hall : AddsNone (.cmd c k) := hop ▸ hadds th (mem_of_getElem? ht)
      refine .inr ⟨fun o' ho' => ?_, fun th' hth' => ?_⟩
      · by_contra hkey
        obtain ⟨key, hkey⟩ := ne_none_iff_exists'.1 hkey
        rcases hdoes.keys ho' hkey with ⟨o, ho, hkey⟩ | ⟨hadd, -⟩
        · rw [hfids o ho] at hkey
          cases hkey
        · rw [hall.1] at hadd
          cases hadd
      · rw [State.setThread, hdoes.threads] at hth'
        refine forall_mem_set hadds ?_ th' hth'
        exact hall.2 x

end Runs

/-! ## Two runs -/

def openLabels : List (Label Nat) := attachLabels ++ .request 0 (.lopen ⟨0, 0⟩) :: lopenSteps 1

/-- The cleanup releases the fid that was left open. -/
def openCleanup : List (Label Nat) := [.collect 2 [0], .go 2, .go 2, .go 2, .go 2, .go 2, .go 2]

def openState : State Nat := (run (step plainConfig) init openLabels).get (by decide +kernel)

def cleanState : State Nat :=
  (run (step plainConfig) openState (.cleanup 0 true :: openCleanup)).get (by decide +kernel)

/-- `Txattrcreate` finds the fid allocated; `Tlopen` opens it; `Txattrcreate` makes it an xattr-write fid all the same;
`Tclunk` commits the attribute and answers. -/
def lostLabels : List (Label Nat) :=
  attachLabels ++ [.request 0 (.xattrcreate ⟨0, [97], 1, 0⟩), .go 1, .go 1] ++
    .request 0 (.lopen ⟨0, 0⟩) :: lopenSteps 2 ++ [.go 1, .go 1, .go 1, .finish 1 (.ok .unit), .go 1] ++
    [.request 0 (.clunk ⟨0⟩), .go 3, .go 3, .go 3, .go 3, .go 3, .finish 3 (.ok .unit)]

def lostState : State Nat := (run (step plainConfig) init lostLabels).get (by decide +kernel)

def lostEnd : State Nat := (run (step plainConfig) lostState [.cleanup 0 true, .collect 4 []]).get (by decide +kernel)

end NineP.Server.Handlers
