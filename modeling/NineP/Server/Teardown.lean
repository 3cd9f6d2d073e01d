import NineP.Server.Serve
import NineP.Server.HandleRules

/-!
# Teardown against I/O

`handleReVersion` and `cleanup` release the handles of all fids once the in-flight map has drained.  But a request that
was read and not started is not in it, and `cleanup` does not wait longer for the workers than for the drain.
-/

namespace NineP.Server.Serve.Teardown

open Proto Codec Program Transition Option List
open Conn (Req Pc Choice)
open Handlers (Config Cmd Op Request Answer Holds handleRules)

variable {ν : Type}

instance (s : Conn.State) : Decidable s.Quiet :=
  inferInstanceAs (Decidable (∀ pc ∈ s.workers, pc.versionReq = none → pc.pending = none))

/-! ## The condition -/

/-- Every drain of a Tversion ends with all unanswered requests in the map, and `cleanup` stops waiting for the workers
only when they have answered what they read. -/
def teardownOk (s : State ν) (l : Label ν) : Bool :=
  (l.connLabel s).all (fun cl => Conn.DrainOk s.conn cl) &&
    match l with
    | .cleanup true => s.cleanup ≠ .joining || s.conn.Quiet
    | _ => true

/-- The program releases handles: it belongs to a re-negotiation, or to a `cleanup` whose handlers have drained. -/
def releases : Role → Bool
  | .reVersion _ | .cleanup true => true
  | _ => false

/-- Program `t` tears the connection down, with leave to release handles, and has not ended. -/
def tearing (s : State ν) (t : Nat) : Bool :=
  (s.roles[t]?).any releases && (s.reqs.threads[t]?).any (!·.op.ended)

/-! ## Workers -/

theorem move_ncClosed {choice : Choice}
    (h : Conn.move maxInflight c w pc choice = some e) (hc : c.ncClosed = true) : e.shared.ncClosed = true := by
  cases Conn.move_moves h with
  | unknown _ hsend | rflush hsend | reply hsend | panicLate hsend | panicEarly hsend =>
    obtain ⟨_, -, rfl⟩ | ⟨-, rfl⟩ := Conn.send_eq hsend <;> exact hc
  | closeNc | timeoutFlush | timeoutDrain | reject => rfl
  | _ => exact hc

theorem step_ncClosed (h : Conn.step maxInflight s cl = some s') (hc : s.shared.ncClosed = true) :
    s'.shared.ncClosed = true := by
  cases cl with
  | worker w choice =>
    obtain ⟨pc, e, -, hmove, rfl⟩ := Conn.step_worker.1 h
    exact move_ncClosed hmove hc
  | close =>
    cases h
    rfl
  | cleanupClunk =>
    cases h
    exact hc
  | cleanupWait =>
    simp only [Conn.step] at h
    split at h <;> cases h <;> exact hc

theorem step_quiet (h : Conn.step maxInflight s cl = some s') (hc : s.shared.ncClosed = true)
    (hq : s.Quiet) : s'.Quiet := by
  cases cl with
  | worker w choice =>
    obtain ⟨pc, e, hw, hmove, rfl⟩ := Conn.step_worker.1 h
    by_cases hpc : pc = .locked
    · subst hpc
      -- the read fails
      cases choice with
      | fail =>
        obtain rfl := Option.some.inj hmove
        intro x hx hv
        rcases Conn.mem_workers hmove hx with rfl | rfl | ⟨j, -, hj⟩
        · rfl
        · rfl
        · exact hq x (mem_of_getElem? hj) hv
      | frame => simp [Conn.move, hc] at hmove
      | _ => cases hmove
    · exact Conn.quiet_move hw hmove hq hpc
  | close | cleanupClunk =>
    cases h
    exact hq
  | cleanupWait =>
    simp only [Conn.step] at h
    split at h <;> cases h <;> exact hq

theorem step_other {choice : Choice} (h : Conn.step maxInflight s (.worker w choice) = some s') (hne : j ≠ w) (hj : s.workers[j]? = some x) : s'.workers[j]? = some x := by
  obtain ⟨pc, e, -, -, rfl⟩ := Conn.step_worker.1 h
  have hlt : j < (s.workers.set w e.pc).length := by
    rw [length_set]
    exact getElem?_lt hj
  rw [getElem?_append_left hlt, getElem?_set_ne hne.symm, hj]

/-! ## Programs -/

section Programs

variable [DecidableEq ν] {s s' : Handlers.State ν} {l : Handlers.Label ν}

theorem handler_threads (hl : l.thread = some t) (h : Handlers.step cfg s l = some s') :
    ∃ th th', s.threads[t]? = some th ∧ th.op.ended = false ∧ s'.threads = s.threads.set t th' := by
  cases Handlers.step_steps h with
  | start hstart =>
    rw [hstart.thread] at hl
    cases hl
  | negotiated => cases hl
  | @enter t' th n m k ht hop =>
    cases hl
    exact ⟨th, _, ht, by rw [hop]; rfl, rfl⟩
  | @does _ t' th c k x s₁ hl' ht hop hdoes =>
    obtain rfl := mem_unique hl hl'
    exact ⟨th, _, ht, by rw [hop]; rfl, by rw [Handlers.State.setThread, hdoes.threads]⟩

omit [DecidableEq ν] in
theorem take_io (r : Holds ν) (h : Handlers.Handle) : (r.take h).io = r.io := by
  unfold Holds.take
  split <;> rfl

omit [DecidableEq ν] in
theorem put_io (r : Holds ν) (h : Handlers.Handle) : (r.put h).io = r.io := by
  unfold Holds.put
  split <;> rfl

theorem does_ioNext {conn : Nat} {c : Cmd ν} {x : c.Res} (hnext : s.nextCmd t = some c) (r : Holds ν)
    (h : Handlers.Does cfg s conn c x s') : ioNext s t r.io = (r.after c x).io := by
  simp only [ioNext, hnext]
  cases c with
  | beginIo fs =>
    cases h with
    | exec h =>
      obtain ⟨o, ho, rfl, -⟩ := Handlers.onObj_some h
      simp only [ho, any_some]
      cases o.beginIo.1 <;> rfl
  | endIo fs =>
    obtain ⟨release, closeNode⟩ := x
    cases release <;> rfl
  | call n m =>
    cases x with
    | error e => cases n <;> cases m <;> rfl
    | ok x => cases n <;> cases m <;> first | rfl | simp only [Holds.after, take_io]
  | markOpenedWithHandle | updateAndOpen => cases x <;> first | rfl | exact (put_io _ _).symm
  | release => exact (put_io _ _).symm
  | takeHandle => cases x <;> simp only [Holds.after, take_io]
  | clunk | takeXattr | finishClunk => cases x <;> rfl
  | _ => rfl

omit [DecidableEq ν] in
theorem map_set_io {rs : List (Holds ν)} {f : List Nat → List Nat} (hr : rs[t]? = some r)
    (hf : f r.io = r'.io) : (rs.set t r').map (·.io) = (rs.map (·.io)).modify t f := by
  rw [map_set, modify_eq_set_getElem?]
  simp [hr, hf]

theorem handler_pool {Q : Answer → Holds ν → Prop} {rs : List (Holds ν)}
    (hpool : handleRules.Pool Q (s.threads.map (·.op)) rs) (hl : l.thread = some t)
    (h : Handlers.step cfg s l = some s') :
    ∃ rs', handleRules.Pool Q (s'.threads.map (·.op)) rs' ∧
      rs'.map (·.io) = (rs.map (·.io)).modify t (ioNext s t) := by
  cases Handlers.step_steps h with
  | start hstart =>
    rw [hstart.thread] at hl
    cases hl
  | negotiated => cases hl
  | @enter t' th n m k ht hop =>
    cases hl
    obtain ⟨r, hr, hwp⟩ := hpool.get (by rw [getElem?_map, ht, map_some])
    refine ⟨rs.set t r, ?_, map_set_io hr ?_⟩
    · rw [Handlers.setThread_ops]
      exact hpool.set hwp
    · simp [ioNext, Handlers.State.nextCmd, ht, hop]
  | @does _ t' th c k x s₁ hl' ht hop hdoes =>
    obtain rfl := mem_unique hl hl'
    obtain ⟨r, hr, hwp⟩ := hpool.get (by rw [getElem?_map, ht, map_some, hop])
    refine ⟨rs.set t (r.after c x), ?_, map_set_io hr (does_ioNext ?_ r hdoes)⟩
    · rw [Handlers.setThread_ops, hdoes.threads]
      exact hpool.set (hwp.2 x _ rfl)
    · simp [Handlers.State.nextCmd, ht, hop]

end Programs

/-! ## The invariant -/

/-- Whoever runs a program that has not ended is where it started it. -/
def Placed (workers : List Pc) (cleanup : Cleanup) : Role → Prop
  | .handler w => ∃ r, workers[w]? = some (.handling r)
  | .reVersion w => ∃ v, workers[w]? = some (.clunking v)
  | .cleanup drained => cleanup = .clunked drained

def closedNc : Cleanup → Bool
  | .joining | .clunking _ | .clunked _ => true
  | _ => false

structure Inv (s : State ν) (rs : List (Holds ν)) : Prop where
  version : Conn.VersionInv s.conn
  pool : handleRules.Pool (fun _ r => r.io = []) (s.reqs.threads.map (·.op)) rs
  io : s.io = rs.map (·.io)
  roles : s.roles.length = s.reqs.threads.length
  placed : ∀ (t : Nat) (role : Role) (th : Handlers.Thread ν), s.roles[t]? = some role → s.reqs.threads[t]? = some th →
    th.op.ended = false → Placed s.conn.workers s.cleanup role
  closed : closedNc s.cleanup = true → s.conn.shared.ncClosed = true
  quiet : s.cleanup = .clunking true ∨ s.cleanup = .clunked true → s.conn.Quiet

section Parts

variable {s : State ν}

variable {w t : Nat} {role : Role}

theorem ended_of_not_busy (h : s.busy w = false) (hrole : s.roles[t]? = some role)
    (hw : role.worker = some w) (hth : s.reqs.threads[t]? = some th) :
    th.op.ended = true := by
  have hmem : (role, th) ∈ s.roles.zip s.reqs.threads :=
    mem_of_getElem? (getElem?_zip_eq_some.2 ⟨hrole, hth⟩)
  have := any_eq_false.1 h _ hmem
  simpa [hw] using this

theorem Inv.conn {conn : Conn.State} (hs : Inv s rs) (hconn : Conn.step maxInflight s.conn cl = some conn)
    (hdrain : Conn.DrainOk s.conn cl)
    (hplaced : ∀ (t : Nat) (role : Role) (th : Handlers.Thread ν), s.roles[t]? = some role →
      s.reqs.threads[t]? = some th → th.op.ended = false → Placed s.conn.workers s.cleanup role →
      Placed conn.workers s.cleanup role) (ctxs : Req → RequestCtx) :
    Inv { s with conn := conn, ctxs := ctxs } rs where
  version := Conn.step_versionInv hs.version hdrain hconn
  pool := hs.pool
  io := hs.io
  roles := hs.roles
  placed t role th hrole hth hbusy := hplaced t role th hrole hth hbusy (hs.placed t role th hrole hth hbusy)
  closed h := step_ncClosed hconn (hs.closed h)
  quiet h := by
    refine step_quiet hconn (hs.closed ?_) (hs.quiet h)
    rcases h with h | h <;> rw [h] <;> rfl

theorem Inv.work {choice : Choice} {conn : Conn.State} (hs : Inv s rs) (hbusy : s.busy w = false)
    (hconn : Conn.step maxInflight s.conn (.worker w choice) = some conn)
    (hdrain : Conn.DrainOk s.conn (.worker w choice)) {ctxs : Req → RequestCtx} :
    Inv { s with conn := conn, ctxs := ctxs } rs := by
  refine hs.conn hconn hdrain (fun t role th hrole hth hended hplaced => ?_) ctxs
  have hne {j : Nat} (hj : role.worker = some j) : j ≠ w := by
    rintro rfl
    exact absurd ((ended_of_not_busy hbusy hrole hj hth).symm.trans hended) (by simp)
  cases role with
  | handler j => exact hplaced.imp fun r hr => step_other hconn (hne rfl) hr
  | reVersion j => exact hplaced.imp fun v hv => step_other hconn (hne rfl) hv
  | cleanup drained => exact hplaced

theorem Inv.serve {conn : Conn.State} (hs : Inv s rs) (hcl : ∀ w choice, cl ≠ .worker w choice)
    (hconn : Conn.step maxInflight s.conn cl = some conn) (hdrain : Conn.DrainOk s.conn cl) :
    Inv { s with conn := conn } rs :=
  hs.conn hconn hdrain (fun _ _ _ _ _ _ h => conn_workers hcl hconn ▸ h) s.ctxs

theorem Inv.clean (hs : Inv s rs) (hold : ∀ drained, s.cleanup ≠ .clunked drained)
    (hclosed : closedNc c = true → s.conn.shared.ncClosed = true)
    (hquiet : c = .clunking true ∨ c = .clunked true → s.conn.Quiet) : Inv { s with cleanup := c } rs where
  version := hs.version
  pool := hs.pool
  io := hs.io
  roles := hs.roles
  placed t role th hrole hth hbusy := by
    have hplaced := hs.placed t role th hrole hth hbusy
    cases role with
    | handler | reVersion => exact hplaced
    | cleanup drained => exact absurd hplaced (hold drained)
  closed := hclosed
  quiet := hquiet

variable [DecidableEq ν]

theorem Inv.started {op : Op ν Answer} {g : Handlers.Ghost ν} (hs : Inv s rs) (hstart : Handlers.Starts cfg l 0 op g)
    (hplaced : Placed s.conn.workers s.cleanup role) :
    Inv (s.started role op g) (rs ++ [({} : Holds ν)]) where
  version := hs.version
  pool := by
    rw [State.started, map_append]
    exact hs.pool.add hstart.wp_io
  io := by simp [State.started, hs.io]
  roles := by simp [State.started, hs.roles]
  placed t role' th hrole hth hbusy := by
    simp only [State.started, getElem?_append, hs.roles] at hrole hth
    split at hth
    · rw [if_pos ‹_›] at hrole
      exact hs.placed t role' th hrole hth hbusy
    · rw [if_neg ‹_›] at hrole
      obtain rfl := mem_singleton.1 (mem_of_getElem? hrole)
      exact hplaced
  closed := hs.closed
  quiet := hs.quiet

theorem Inv.handler {reqs : Handlers.State ν} (hs : Inv s rs) (hl : l.thread = some t)
    (hstep : Handlers.step cfg s.reqs l = some reqs) :
    ∃ rs', Inv { s with reqs := reqs, io := s.io.modify t (ioNext s.reqs t) } rs' := by
  obtain ⟨rs', hpool, hio⟩ := handler_pool hs.pool hl hstep
  obtain ⟨th, th', hth, hbusy, hthreads⟩ := handler_threads hl hstep
  refine ⟨rs', hs.version, hpool, by rw [hs.io, hio], by simp [hthreads, hs.roles], ?_, hs.closed, hs.quiet⟩
  intro j role x hrole hx hbusy'
  rw [hthreads] at hx
  rcases getElem?_set_cases hx with ⟨rfl, rfl⟩ | ⟨-, hx⟩
  · exact hs.placed j role th hrole hth hbusy
  · exact hs.placed j role x hrole hx hbusy'

end Parts

/-! ## Steps and runs -/

section Runs

variable [DecidableEq ν] {s : State ν}

omit [DecidableEq ν] in
theorem drain_of_ok (hok : teardownOk s l = true) (hl : l.connLabel s = some cl) :
    Conn.DrainOk s.conn cl := by
  have := (Bool.and_eq_true_iff.1 hok).1
  simpa [hl] using this

omit [DecidableEq ν] in
theorem enters_placed {l : Handlers.Label ν} (h : enters w msg pc pc' = some (role, l)) (hw : workers[w]? = some pc') :
    Placed workers cleanup role := by
  unfold enters at h
  split at h
  · obtain ⟨rfl, -⟩ := some_pair h
    exact ⟨_, hw⟩
  · obtain ⟨rfl, -⟩ := some_pair h
    exact ⟨_, hw⟩
  · obtain ⟨rfl, -⟩ := some_pair h
    exact ⟨_, hw⟩
  · cases h

omit [DecidableEq ν] in
theorem quiet_of_ok (hok : teardownOk s (.cleanup true) = true) (hpc : s.cleanup = .joining) : s.conn.Quiet := by
  have := (Bool.and_eq_true_iff.1 hok).2
  simpa [hpc] using this

/-- **Every step that meets the condition keeps the invariant.** -/
theorem step_inv {l : Label ν} (hs : Inv s rs) (hok : teardownOk s l = true) (h : step cfg maxInflight s l = some s') :
    ∃ rs', Inv s' rs' := by
  cases step_moves h with
  | work _ hbusy hconn => exact ⟨rs, hs.work hbusy hconn (drain_of_ok hok rfl)⟩
  | enter _ hbusy hconn hw' henters hstart =>
    exact ⟨_, (hs.work hbusy hconn (drain_of_ok hok rfl)).started hstart (enters_placed henters hw')⟩
  | handler hl hstep => exact hs.handler hl hstep
  | askDone | cancel => exact ⟨rs, hs.version, hs.pool, hs.io, hs.roles, hs.placed, hs.closed, hs.quiet⟩
  | negotiated hstep =>
    cases hstep
    exact ⟨rs, hs.version, hs.pool, hs.io, hs.roles, hs.placed, hs.closed, hs.quiet⟩
  | close hconn => exact ⟨rs, hs.serve (by simp) hconn (drain_of_ok hok rfl)⟩
  | shutdown hpc | waited hpc => exact ⟨rs, hs.clean (by simp [hpc]) (by simp [closedNc]) (by simp)⟩
  | cancelAll hpc =>
    have hs' := hs.clean (c := .draining) (by simp [hpc]) (by simp [closedNc]) (by simp)
    exact ⟨rs, hs'.version, hs'.pool, hs'.io, hs'.roles, hs'.placed, hs'.closed, hs'.quiet⟩
  | drained hpc hconn | drain hpc hconn =>
    have hs' := hs.serve (by simp) hconn (drain_of_ok hok (by simp only [Label.connLabel, hpc]))
    exact ⟨rs, hs'.clean (by simp [hpc]) (by simp [closedNc]) (by simp)⟩
  | @closeNc conn drained hpc hconn =>
    have hs' := hs.serve (by simp) hconn (drain_of_ok hok (by simp only [Label.connLabel, hpc]))
    cases hconn
    refine ⟨rs, hs'.clean (by simp [hpc]) (fun _ => rfl) ?_⟩
    cases drained <;> simp
  | joined hpc hgone =>
    refine ⟨rs, hs.clean (by simp [hpc]) (fun _ => hs.closed (by rw [hpc]; rfl)) fun _ pc hmem _ => ?_⟩
    rw [hgone pc hmem]
    rfl
  | joinTimeout hpc =>
    exact ⟨rs, hs.clean (by simp [hpc]) (fun _ => hs.closed (by rw [hpc]; rfl)) fun _ => quiet_of_ok hok hpc⟩
  | @clunkAll conn drained op g hpc hconn hstart =>
    have hs' := hs.serve (by simp) hconn (drain_of_ok hok (by simp only [Label.connLabel, hpc]))
    have hclean := hs'.clean (c := .clunked drained) (by simp [hpc]) (fun _ => hs'.closed (by simp [hpc, closedNc]))
      fun hc => hs'.quiet (.inl (by simpa [hpc] using hc))
    exact ⟨_, hclean.started hstart rfl⟩

/-- **Teardown releases no handle in use.**  In every run in which every drain ends with all unanswered requests in the
map, and `cleanup` stops waiting only for workers that have answered what they read, no handler is between `beginIO` and
`endIO` while the handles of the fids are released. -/
theorem teardown_after_io (cfg : Config ν) (maxInflight : Int) (ls : List (Label ν)) (s : State ν)
    (h : run (step cfg maxInflight) init ls = some s)
    (hok : Meets (step cfg maxInflight) (fun s l => teardownOk s l = true) init ls) (t : Nat)
    (htearing : tearing s t = true) (t' w : Nat) (io : List Nat) (hrole : s.roles[t']? = some (.handler w))
    (hio : s.io[t']? = some io) : io = [] := by
  obtain ⟨rs, hs⟩ : ∃ rs, Inv s rs := by
    refine run_inv_of_meets (P := fun s => ∃ rs, Inv s rs) ?_ ?_ hok h
    · rintro s l s' ⟨rs, hs⟩ hok hstep
      exact step_inv hs hok hstep
    · exact ⟨[], Conn.init_versionInv, .nil, rfl, rfl, by simp [init], (nomatch ·), by simp [init]⟩
  have hquiet : s.conn.Quiet := by
    obtain ⟨hrel, hbusy⟩ := Bool.and_eq_true_iff.1 htearing
    obtain ⟨role, hrole, hrel⟩ := (Option.any_eq_true _ _).1 hrel
    obtain ⟨th, hth, hbusy⟩ := (Option.any_eq_true _ _).1 hbusy
    have hplaced := hs.placed t role th hrole hth (by simpa using hbusy)
    cases role with
    | handler => cases hrel
    | reVersion j =>
      obtain ⟨v, hv⟩ := hplaced
      exact hs.version.quiet v (.inl (mem_of_getElem? hv))
    | cleanup drained =>
      cases drained with
      | false => cases hrel
      | true => exact hs.quiet (.inr hplaced)
  rw [hs.io, getElem?_map] at hio
  obtain ⟨r, hr, rfl⟩ := map_eq_some_iff.1 hio
  obtain ⟨th, hth⟩ : ∃ th, s.reqs.threads[t']? = some th := by
    have hlt := getElem?_lt hrole
    exact ⟨_, getElem?_eq_getElem (hs.roles ▸ hlt)⟩
  obtain ⟨r', hr', hwp⟩ := hs.pool.get (by rw [getElem?_map, hth, map_some])
  obtain rfl := mem_unique hr hr'
  cases hended : th.op.ended with
  | true =>
    obtain ⟨a, ha⟩ := Prog.ended_iff.1 hended
    rw [ha] at hwp
    exact hwp
  | false =>
    -- its request is unanswered
    obtain ⟨req, hreq⟩ := hs.placed t' _ th hrole hth hended
    exact absurd (hquiet _ (mem_of_getElem? hreq) rfl) (by simp [Pc.pending])

end Runs

/-! ## Two runs -/

/-- Worker 0 reads a request, starts it, and runs its handler to the end of `steps`. -/
def serveLabels (msg : Request) (steps : List (Handlers.Label Nat)) : List (Label Nat) :=
  ([.go, .go, .frame 1 .other, .go] : List Choice).map (.worker 0 · msg) ++ steps.map .handler

def answerLabels (msg : Request) : List (Label Nat) :=
  ([.respond, .go, .write .ok, .go] : List Choice).map (.worker 0 · msg)

/-- `Tattach` and `Tlopen` of fid 0. -/
def openedLabels : List (Label Nat) :=
  .negotiated 8192 :: serveLabels (.attach ⟨0, noFid, [], [], 0⟩)
      [.go 0, .go 0, .go 0, .finish 0 (.ok (.qid ⟨qtDir, 0, 0⟩))] ++ answerLabels (.clunk ⟨0⟩) ++
    serveLabels (.lopen ⟨0, 0⟩) (Handlers.lopenSteps 1) ++ answerLabels (.clunk ⟨0⟩)

/-- `Tread` of fid 0 up to its call. -/
def readSteps (t : Nat) : List (Handlers.Label Nat) := [.go t, .go t, .go t, .go t, .go t, .go t]

/-- A Tversion that worker `w` reads, up to the end of its drain. -/
def versionLabels (w : Nat) : List (Label Nat) :=
  ([.go, .go, .frame 65535 .version, .go, .go] : List Choice).map (.worker w · (.clunk ⟨0⟩))

/-- What the re-negotiation does in program `t`, up to `releaseNow` of the fid. -/
def clunkSteps (t : Nat) : List (Label Nat) := [.handler (.collect t [0]), .handler (.go t), .handler (.go t)]

/-- One worker: `Tread` has ended when the Tversion is read. -/
def waitedLabels : List (Label Nat) :=
  openedLabels ++ serveLabels (.read ⟨0, 0, 10⟩) (readSteps 2 ++ [.finish 2 (.ok .unit), .go 2]) ++
    answerLabels (.clunk ⟨0⟩) ++ versionLabels 0 ++ clunkSteps 3

def waitedState : State Nat := (run (step Handlers.plainConfig 1) init waitedLabels).get (by decide +kernel)

theorem teardown_after_io_read : run (step Handlers.plainConfig 1) init waitedLabels = some waitedState ∧
    tearing waitedState 3 = true ∧ waitedState.roles = [.handler 0, .handler 0, .handler 0, .reVersion 0] ∧
    ∀ io, waitedState.io[2]? = some io → io = [] :=
  have h : run (step Handlers.plainConfig 1) init waitedLabels = some waitedState := (some_get _).symm
  ⟨h, by decide, by decide, fun io hio => teardown_after_io Handlers.plainConfig 1 waitedLabels waitedState h
    (by decide) 3 (by decide) 2 0 io (by decide) hio⟩

/-- Two workers: worker 0 has read `Tread` and not started it when worker 1 reads a Tversion and finds the map empty. -/
def inUseLabels : List (Label Nat) :=
  openedLabels ++ ([.go, .go, .frame 1 .other] : List Choice).map (.worker 0 · (.clunk ⟨0⟩)) ++ versionLabels 1 ++
    .worker 0 .go (.read ⟨0, 0, 10⟩) :: (readSteps 3).map .handler ++ clunkSteps 2

def inUseState : State Nat := (run (step Handlers.plainConfig 2) init inUseLabels).get (by decide +kernel)

/-- The re-negotiation calls `releaseNow` for the fid while the handler of `Tread` is inside its call, between `beginIO`
and `endIO`. -/
theorem released_in_use : run (step Handlers.plainConfig 2) init inUseLabels = some inUseState ∧
    inUseState.roles = [.handler 0, .handler 0, .reVersion 1, .handler 0] ∧
    (inUseState.reqs.nextCmd 2).any (fun c => match c with | .takeHandle fs => fs = 0 | _ => false) = true ∧
    (inUseState.reqs.threads[3]?).any (·.calling) = true ∧ inUseState.io[3]? = some [0] :=
  ⟨(some_get _).symm, by decide, by decide, by decide, by decide⟩

end NineP.Server.Serve.Teardown
