import NineP.Server.Conn

/-!
# One response per request
-/

namespace NineP.Server.Conn

open Proto Transition List

variable {w : Nat} {pc : Pc} {e : Effect} {s : State}

/-! ## Steps and the log -/

/-- What a step means for the log: nothing, the end of the worker's request, or a new request. -/
inductive LogMove (c : Shared) (pc : Pc) (e : Effect) : Prop
  | quiet (hpending : e.pc.pending = pc.pending) (hreq : e.pc.req = pc.req ∨ e.pc.req = none) (hevents : e.events = [])
      (hrest : e.spawned = [] ∧ e.shared.nextId = c.nextId)
  | wrote {r : Req} {body : Body} (hpending : pc.pending = some r) (hnext : e.pc.pending = none)
      (hreq : e.pc.req = some r ∨ e.pc.req = none) (hevents : e.events = [.wrote r ⟨r.tag, body⟩])
      (hrest : e.spawned = [] ∧ e.shared.nextId = c.nextId)
  | ended {r : Req} {why : Why} (hpending : pc.pending = some r) (hnext : e.pc.pending = none)
      (hreq : e.pc.req = some r ∨ e.pc.req = none) (hevents : e.events = [.ended r why])
      (hrest : e.spawned = [] ∧ e.shared.nextId = c.nextId)
  | read {r : Req} (hpc : pc = .locked) (hnext : e.pc = .got r ∨ e.pc = .version r ∧ r.kind = .version)
      (hevents : e.events = [.read r]) (hr : r.id = c.nextId)
      (hrest : (∀ pc ∈ e.spawned, pc = .loop) ∧ e.shared.nextId = c.nextId + 1)

theorem send_log {next : Pc} (hpc : pc.pending = some r)
    (hnext : next.pending = none) (hreq : next.req = some r ∨ next.req = none)
    (h : send c r body next o = some e) : LogMove c pc e := by
  obtain ⟨_, -, rfl⟩ | ⟨-, rfl⟩ := send_eq h
  · exact .wrote hpc hnext hreq rfl ⟨rfl, rfl⟩
  · exact .ended hpc hnext hreq rfl ⟨rfl, rfl⟩

theorem release_log (hpc : pc.pending = none) :
    LogMove c pc (release c x) := by
  obtain ⟨done, drained, im⟩ := x
  cases done <;> exact .quiet hpc.symm (.inr rfl) rfl ⟨rfl, rfl⟩

theorem receive_log (tag : Tag) (kind : Kind) : LogMove c .locked (receive maxInflight c tag kind) := by
  refine .read rfl ?_ rfl rfl ⟨fun pc hpc => ?_, rfl⟩
  · by_cases hk : kind = .version
    · exact .inr ⟨by simp [receive, hk], hk⟩
    · exact .inl (by simp [receive, hk])
  · simp only [receive] at hpc
    split at hpc
    · exact mem_singleton.1 hpc
    · cases hpc

/-- **Every step of a worker moves the log in one of four ways.** -/
theorem move_log (h : move maxInflight c w pc choice = some e) : LogMove c pc e := by
  cases move_moves h with
  | read tag kind => exact receive_log tag kind
  | unknown _ hsend | rflush hsend | panicLate hsend => exact send_log rfl rfl (.inr rfl) hsend
  | reply hsend | panicEarly hsend => exact send_log rfl rfl (.inl rfl) hsend
  | complete | finish => exact release_log rfl
  | rversion accepted => exact .wrote rfl rfl (.inr rfl) rfl ⟨rfl, rfl⟩
  | silent => exact .ended rfl rfl (.inl rfl) rfl ⟨rfl, rfl⟩
  | undecodable | duplicate | cancelFlush | timeoutFlush | limited | timeoutDrain | reject =>
    exact .ended rfl rfl (.inr rfl) rfl ⟨rfl, rfl⟩
  | _ => exact .quiet rfl (.inl rfl) rfl ⟨rfl, rfl⟩

/-! ## The fate of a request -/

def Event.settles (r : Req) : Event → Bool
  | .wrote r' _ | .ended r' _ => r' = r
  | .read _ => false

/-- Where the requests that were read are. -/
structure LogInv (s : State) : Prop where
  ids : ∀ r, .read r ∈ s.log → r.id < s.shared.nextId
  once : ∀ r, s.log.count (.read r) ≤ 1
  /-- A request is with the worker that has to answer it, or it is settled. -/
  balance : ∀ r, s.log.count (.read r) = s.workers.countP (·.pending = some r) + s.log.countP (·.settles r)
  held : ∀ r, s.workers.countP (·.req = some r) ≤ s.log.count (.read r)

theorem init_logInv : LogInv init := ⟨by simp [init], by simp [init], fun r => rfl, fun r => Nat.le_refl 0⟩

section Step

theorem step_worker : step maxInflight s (.worker w choice) = some s' ↔
    ∃ pc e, s.workers[w]? = some pc ∧ move maxInflight s.shared w pc choice = some e ∧
      s.after w e = s' := by
  simp [step, Option.bind_eq_some_iff]

variable {r : Req}

/-- A worker moves, or the goroutine that serves the connection does something that neither workers nor log see. -/
theorem step_cases (h : step maxInflight s l = some s') :
    (∃ w choice pc e, l = .worker w choice ∧ s.workers[w]? = some pc ∧ move maxInflight s.shared w pc choice = some e ∧
        s' = s.after w e) ∨
      s'.workers = s.workers ∧ s'.log = s.log ∧ s'.shared.nextId = s.shared.nextId := by
  cases l with
  | worker w choice =>
    obtain ⟨pc, e, hw, hmove, rfl⟩ := step_worker.1 h
    exact .inl ⟨w, choice, pc, e, rfl, hw, hmove, rfl⟩
  | close | cleanupClunk =>
    cases h
    exact .inr ⟨rfl, rfl, rfl⟩
  | cleanupWait =>
    simp only [step] at h
    split at h <;> cases h <;> exact .inr ⟨rfl, rfl, rfl⟩

theorem getElem?_workers (h : move maxInflight s.shared w pc choice = some e)
    (hx : (s.workers.set w e.pc ++ e.spawned)[j]? = some x) :
    j = w ∧ x = e.pc ∨ x = .loop ∨ j ≠ w ∧ s.workers[j]? = some x := by
  rw [getElem?_append] at hx
  split at hx
  · exact (getElem?_set_cases hx).imp_right .inr
  · right; left
    cases move_log h with
    | read _ _ _ _ hrest => exact hrest.1 x (mem_of_getElem? hx)
    | quiet _ _ _ hrest | wrote _ _ _ _ hrest | ended _ _ _ _ hrest =>
      rw [hrest.1] at hx
      cases hx

theorem mem_workers (h : move maxInflight s.shared w pc choice = some e) (hx : x ∈ s.workers.set w e.pc ++ e.spawned) :
    x = e.pc ∨ x = .loop ∨ ∃ j, j ≠ w ∧ s.workers[j]? = some x := by
  obtain ⟨j, hj⟩ := mem_iff_getElem?.1 hx
  exact (getElem?_workers h hj).imp (·.2) (.imp_right fun hj => ⟨j, hj⟩)

theorem countP_workers (p : Pc → Bool) (hp : p .loop = false) (hw : s.workers[w]? = some pc)
    (hspawned : ∀ x ∈ e.spawned, x = .loop) :
    (s.workers.set w e.pc ++ e.spawned).countP p + (if p pc then 1 else 0) =
      s.workers.countP p + if p e.pc then 1 else 0 := by
  have hzero : e.spawned.countP p = 0 := countP_eq_zero.2 fun x hx => by simp [hspawned x hx, hp]
  rw [countP_append, hzero, Nat.add_zero]
  exact countP_set_add p e.pc hw

theorem LogInv.read_of_pending (hs : LogInv s) (hw : s.workers[w]? = some pc) (hr : pc.pending = some r) :
    .read r ∈ s.log := by
  have hpos : 0 < s.workers.countP (·.pending = some r) :=
    countP_pos_iff.2 ⟨pc, mem_of_getElem? hw, by simp [hr]⟩
  have := hs.balance r
  exact count_pos_iff.1 (by omega)

theorem Pc.req_of_pending (h : pc.pending = some r) : pc.req = some r := by
  cases pc <;> first | exact h | cases h

theorem held_le (hs : LogInv s) (hw : s.workers[w]? = some pc) (hreq : e.pc.req = pc.req ∨ e.pc.req = none)
    (hspawned : ∀ x ∈ e.spawned, x = .loop) (r : Req) :
    (s.workers.set w e.pc ++ e.spawned).countP (·.req = some r) ≤ s.log.count (.read r) := by
  have hcount := countP_workers (fun pc => pc.req = some r) rfl hw hspawned
  have hheld := hs.held r
  rcases hreq with hreq | hreq
  · simp only [hreq] at hcount
    omega
  · simp only [hreq, reduceCtorEq, decide_false, Bool.false_eq_true, if_false] at hcount
    omega

theorem settle_logInv (hs : LogInv s) (hw : s.workers[w]? = some pc) (hpending : pc.pending = some r)
    (hnext : e.pc.pending = none) (hreq : e.pc.req = some r ∨ e.pc.req = none) (hevents : e.events = [ev])
    (hev : ∀ r', ev.settles r' = decide (r = r')) (hread : ∀ r', ev ≠ .read r')
    (hrest : e.spawned = [] ∧ e.shared.nextId = s.shared.nextId) :
    LogInv ⟨e.shared, s.workers.set w e.pc ++ e.spawned, e.events ++ s.log⟩ := by
  have hspawned : ∀ x ∈ e.spawned, x = .loop := by simp [hrest.1]
  have hreads : ∀ r', (e.events ++ s.log).count (.read r') = s.log.count (.read r') := by
    intro r'
    rw [hevents, singleton_append, count_cons_of_ne (hread r')]
  refine ⟨fun r' hr' => ?_, fun r' => ?_, fun r' => ?_, fun r' => ?_⟩
  · simp only [hrest.2]
    exact hs.ids r' (count_pos_iff.1 (by rw [← hreads]; exact count_pos_iff.2 hr'))
  · rw [hreads]
    exact hs.once r'
  · have hbal := hs.balance r'
    have hcount := countP_workers (fun pc => pc.pending = some r') rfl hw hspawned
    rw [hreads]
    simp only [hevents, singleton_append, countP_cons, hev]
    simp only [hpending, hnext, Option.some.injEq, reduceCtorEq, decide_false, Bool.false_eq_true,
      if_false] at hcount
    omega
  · rw [hreads]
    rw [← Pc.req_of_pending hpending] at hreq
    exact held_le hs hw hreq hspawned r'

theorem read_logInv (hs : LogInv s) (hw : s.workers[w]? = some .locked) (hnext : e.pc.pending = some r)
    (hevents : e.events = [.read r]) (hr : r.id = s.shared.nextId)
    (hrest : (∀ x ∈ e.spawned, x = .loop) ∧ e.shared.nextId = s.shared.nextId + 1) :
    LogInv ⟨e.shared, s.workers.set w e.pc ++ e.spawned, e.events ++ s.log⟩ := by
  have hlocked : Pc.locked.pending = none ∧ Pc.locked.req = none := ⟨rfl, rfl⟩
  have hnew : s.log.count (.read r) = 0 := count_eq_zero.2 fun h => by
    have := hs.ids r h
    omega
  have hreads : ∀ r', (e.events ++ s.log).count (.read r') = s.log.count (.read r') + if r = r' then 1 else 0 := by
    intro r'
    rw [hevents, singleton_append, count_cons]
    by_cases h : r = r' <;> simp [h]
  refine ⟨fun r' hr' => ?_, fun r' => ?_, fun r' => ?_, fun r' => ?_⟩
  · simp only [hrest.2]
    rw [hevents, singleton_append, mem_cons] at hr'
    rcases hr' with h | h
    · obtain rfl := Event.read.inj h
      omega
    · have := hs.ids r' h
      omega
  · rw [hreads]
    have := hs.once r'
    by_cases h : r = r'
    · subst h
      simp [hnew]
    · simpa [h] using this
  · have hbal := hs.balance r'
    have hcount := countP_workers (fun pc => pc.pending = some r') rfl hw hrest.1
    rw [hreads]
    have hnone : (Event.read r).settles r' = false := rfl
    simp only [hevents, singleton_append, countP_cons, hnone, Bool.false_eq_true, if_false]
    simp only [hnext, hlocked.1, Option.some.injEq, reduceCtorEq, decide_false, Bool.false_eq_true, if_false,
      decide_eq_true_eq] at hcount
    omega
  · have hheld := hs.held r'
    have hcount := countP_workers (fun pc => pc.req = some r') rfl hw hrest.1
    rw [hreads]
    simp only [Pc.req_of_pending hnext, hlocked.2, Option.some.injEq, reduceCtorEq, decide_false,
      Bool.false_eq_true, if_false, decide_eq_true_eq] at hcount
    simp only
    omega

theorem worker_logInv (hs : LogInv s) (hw : s.workers[w]? = some pc)
    (h : move maxInflight s.shared w pc choice = some e) :
    LogInv ⟨e.shared, s.workers.set w e.pc ++ e.spawned, e.events ++ s.log⟩ := by
  cases move_log h with
  | quiet hpending hreq hevents hrest =>
    have hspawned : ∀ x ∈ e.spawned, x = .loop := by simp [hrest.1]
    rw [hevents, nil_append]
    refine ⟨by simpa only [hrest.2] using hs.ids, hs.once, fun r => ?_, held_le hs hw hreq hspawned⟩
    have hcount := countP_workers (fun pc => pc.pending = some r) rfl hw hspawned
    have := hs.balance r
    simp only [hpending] at hcount
    simp only
    omega
  | wrote hpending hnext hreq hevents hrest =>
    exact settle_logInv hs hw hpending hnext hreq hevents (fun _ => rfl) (by simp) hrest
  | ended hpending hnext hreq hevents hrest =>
    exact settle_logInv hs hw hpending hnext hreq hevents (fun _ => rfl) (by simp) hrest
  | read hpc hnext hevents hr hrest =>
    subst hpc
    refine read_logInv hs hw ?_ hevents hr hrest
    rcases hnext with hnext | ⟨hnext, -⟩ <;> rw [hnext] <;> rfl

theorem step_logInv (hs : LogInv s) (h : step maxInflight s l = some s') : LogInv s' := by
  cases l with
  | worker w choice =>
    obtain ⟨pc, e, hw, hmove, rfl⟩ := step_worker.1 h
    exact worker_logInv hs hw hmove
  | close =>
    cases h
    exact ⟨hs.ids, hs.once, hs.balance, hs.held⟩
  | cleanupWait =>
    simp only [step] at h
    split at h <;> cases h
    · exact hs
    · exact ⟨hs.ids, hs.once, hs.balance, hs.held⟩
  | cleanupClunk =>
    cases h
    exact ⟨hs.ids, hs.once, hs.balance, hs.held⟩

end Step

/-! ## Healthy connections -/

/-- The version request of a worker in `handleReVersion`. -/
def Pc.versionReq : Pc → Option Req
  | .version r | .draining r | .drainWait r _ | .clunking r | .replying r => some r
  | _ => none

/-- The request of a worker is of the kind that comes to this point. -/
def Pc.KindOk : Pc → Prop
  | .waiting r _ | .flushed r => ∃ oldTag, r.kind = .flush oldTag
  | .handling r | .responding r | .committed r | .answered r | .panicked r _ | .finishing r => r.kind = .other
  | .version r | .draining r | .drainWait r _ | .clunking r | .replying r => r.kind = .version
  | _ => True

/-- No write or deadline call fails, no flush is cut short by a timer or a shutdown, no middleware returns nil. -/
def Choice.healthy : Choice → Bool
  | .write .failed | .cancel | .timeout | .silent => false
  | _ => true

def Label.Healthy : Label → Prop
  | .worker _ choice => choice.healthy = true
  | _ => True

theorem Pc.KindOk.version (hpc : pc.KindOk) (hr : pc.versionReq = some r) : r.kind = .version := by
  cases pc <;> cases hr <;> exact hpc

/-- **Every request is on the path of its kind.** -/
theorem move_kindOk (h : move maxInflight c w pc choice = some e) (hpc : pc.KindOk) : e.pc.KindOk := by
  cases move_moves h with
  | read tag kind =>
    rw [receive_pc]
    split
    · assumption
    · trivial
  | unknown _ hsend | rflush hsend | reply hsend | panicLate hsend | panicEarly hsend =>
    rw [send_pc hsend]
    first | exact hpc | trivial
  | complete | finish => obtain hr | ⟨ch, hr⟩ := release_pc _ <;> rw [hr] <;> trivial
  | flushNone hkind | flushOld hkind | flushNew hkind => exact ⟨_, hkind⟩
  | start hkind => exact hkind
  | _ => first | exact hpc | trivial

theorem move_ended (h : move maxInflight c w pc choice = some e) (hc : choice.healthy)
    (hev : .ended r why ∈ e.events) : why = .duplicate ∨ r.kind = .undecodable ∨ pc.versionReq = some r := by
  cases move_moves h with
  | unknown _ hsend | rflush hsend | reply hsend | panicLate hsend | panicEarly hsend =>
    obtain ⟨_, -, rfl⟩ | ⟨rfl, rfl⟩ := send_eq hsend
    · simp at hev
    · cases hc
  | undecodable hkind =>
    obtain ⟨rfl, -⟩ := Event.ended.inj (mem_singleton.1 hev)
    exact .inr (.inl hkind)
  | duplicate =>
    obtain ⟨-, rfl⟩ := Event.ended.inj (mem_singleton.1 hev)
    exact .inl rfl
  | limited | reject =>
    obtain ⟨rfl, -⟩ := Event.ended.inj (mem_singleton.1 hev)
    exact .inr (.inr rfl)
  | silent | cancelFlush | timeoutFlush | timeoutDrain => cases hc
  | read | rversion => simp [receive] at hev
  | _ => cases hev

/-- What a healthy connection adds to `LogInv`. -/
structure HealthyInv (s : State) : Prop where
  log : LogInv s
  tags : ∀ r f, .wrote r f ∈ s.log → f.tag = r.tag
  fates : ∀ r why, .ended r why ∈ s.log → why = .duplicate ∨ r.kind = .undecodable ∨ r.kind = .version
  kinds : ∀ pc ∈ s.workers, pc.KindOk

theorem init_healthyInv : HealthyInv init :=
  ⟨init_logInv, by simp [init], by simp [init], by simp [init, Pc.KindOk]⟩

theorem worker_healthyInv (hs : HealthyInv s) (hw : s.workers[w]? = some pc) (hc : choice.healthy)
    (h : move maxInflight s.shared w pc choice = some e) :
    HealthyInv ⟨e.shared, s.workers.set w e.pc ++ e.spawned, e.events ++ s.log⟩ := by
  have hmem := mem_of_getElem? hw
  refine ⟨worker_logInv hs.log hw h, fun r f hr => ?_, fun r why hr => ?_, fun x hx => ?_⟩
  · rcases mem_append.1 hr with hr | hr
    · cases move_log h with
      | wrote _ _ _ hevents _ =>
        rw [hevents] at hr
        obtain ⟨rfl, rfl⟩ := Event.wrote.inj (mem_singleton.1 hr)
        rfl
      | quiet _ _ hevents _ | ended _ _ _ hevents _ | read _ _ hevents _ _ => simp [hevents] at hr
    · exact hs.tags r f hr
  · rcases mem_append.1 hr with hr | hr
    · exact (move_ended h hc hr).imp_right (·.imp_right ((hs.kinds pc hmem).version))
    · exact hs.fates r why hr
  · rcases mem_workers h hx with rfl | rfl | ⟨j, -, hj⟩
    · exact move_kindOk h (hs.kinds pc hmem)
    · trivial
    · exact hs.kinds x (mem_of_getElem? hj)

theorem step_healthyInv (hs : HealthyInv s) (hl : l.Healthy) (h : step maxInflight s l = some s') :
    HealthyInv s' := by
  cases l with
  | worker w choice =>
    obtain ⟨pc, e, hw, hmove, rfl⟩ := step_worker.1 h
    exact worker_healthyInv hs hw hl hmove
  | close =>
    have hlog := step_logInv hs.log h
    cases h
    exact ⟨hlog, hs.tags, hs.fates, hs.kinds⟩
  | cleanupWait =>
    have hlog := step_logInv hs.log h
    simp only [step] at h
    split at h <;> cases h <;> exact ⟨hlog, hs.tags, hs.fates, hs.kinds⟩
  | cleanupClunk =>
    have hlog := step_logInv hs.log h
    cases h
    exact ⟨hlog, hs.tags, hs.fates, hs.kinds⟩

/-! ## Exactly one response -/

/-- A response frame to `r` with its tag. -/
def Event.answers (r : Req) : Event → Bool
  | .wrote r' f => r' = r && f.tag = r.tag
  | _ => false

theorem HealthyInv.answers_eq (hs : HealthyInv s) (hk : r.kind ≠ .version)
    (hd : r.kind ≠ .undecodable) (hdup : .ended r .duplicate ∉ s.log) :
    s.log.countP (·.answers r) = s.log.countP (·.settles r) := by
  refine countP_congr fun ev hev => ?_
  cases ev with
  | read r' => rfl
  | wrote r' f =>
    have htag := hs.tags r' f hev
    simp only [Event.answers, Event.settles, Bool.and_eq_true, decide_eq_true_eq, and_iff_left_iff_imp]
    rintro rfl
    exact htag
  | ended r' why =>
    simp only [Event.answers, Event.settles, Bool.false_eq_true, decide_eq_true_eq, false_iff]
    rintro rfl
    rcases hs.fates r' why hev with rfl | h | h
    · exact hdup hev
    · exact hd h
    · exact hk h

/-- **Exactly one response per request.**  In every run without write failures, shutdown or middleware, a request that
was read, is no Tversion, decodes and is no duplicate has at most one response, and one once its worker has gone on. -/
theorem one_response (maxInflight : Int) (ls : List Label) (s : State) (hl : ∀ l ∈ ls, l.Healthy)
    (h : run (step maxInflight) init ls = some s) (r : Req) (hr : .read r ∈ s.log) (hk : r.kind ≠ .version)
    (hd : r.kind ≠ .undecodable) (hdup : .ended r .duplicate ∉ s.log) :
    s.log.countP (·.answers r) ≤ 1 ∧
      ((∀ pc ∈ s.workers, pc.req ≠ some r) → s.log.countP (·.answers r) = 1) := by
  have hs : HealthyInv s :=
    run_inv_of_meets (C := fun _ l => l.Healthy) step_healthyInv init_healthyInv (meets_of_forall hl) h
  have hanswers := hs.answers_eq hk hd hdup
  have hbal := hs.log.balance r
  have honce := hs.log.once r
  have hread := count_pos_iff.2 hr
  refine ⟨by omega, fun hgone => ?_⟩
  have hnone : s.workers.countP (·.pending = some r) = 0 := countP_eq_zero.2 fun pc hpc hp =>
    hgone pc hpc (Pc.req_of_pending (by simpa using hp))
  omega

/-- A request whose handler panics. -/
def panicRun : List Label :=
  [.worker 0 .go, .worker 0 .go, .worker 0 (.frame 7 .other), .worker 0 .go, .worker 0 .panic,
    .worker 0 (.write .ok), .worker 0 .go]

theorem one_response_panic :
    ∃ s, run (step 1) init panicRun = some s ∧
      s.log = [.wrote ⟨0, 7, .other⟩ ⟨7, .error EIO⟩, .read ⟨0, 7, .other⟩] ∧
      s.log.countP (·.answers ⟨0, 7, .other⟩) = 1 := by
  refine ⟨_, rfl, rfl, (one_response 1 panicRun _ ?_ rfl ⟨0, 7, .other⟩ ?_ ?_ ?_ ?_).2 ?_⟩
  · simp [panicRun, Label.Healthy, Choice.healthy]
  · decide
  · decide
  · decide
  · decide
  · decide

end NineP.Server.Conn
