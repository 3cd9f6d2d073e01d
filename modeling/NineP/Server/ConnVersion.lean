import NineP.Server.ConnMap

/-!
# Re-negotiation

`handleReVersion` holds `recvMu`, waits until the in-flight map is empty, clunks every fid and answers.  A request that
another worker has read and not yet started, a Tflush, or a request of unknown type is not waited for.
-/

namespace NineP.Server.Conn

open Proto Transition List Option

variable {maxInflight : Int} {c : Shared} {w : Nat} {pc : Pc} {choice : Choice} {e : Effect} {s : State}

/-! ## The lock -/

/-- The worker holds `recvMu`. -/
def Pc.holds : Pc → Bool
  | .locked | .version _ | .draining _ | .drainWait _ _ | .clunking _ | .replying _ | .unlocking => true
  | _ => false

def LockInv (s : State) : Prop := ∀ w pc, s.workers[w]? = some pc → pc.holds → s.shared.recvMu = some w

theorem Pc.holds_of_versionReq (h : pc.versionReq = some v) : pc.holds := by
  cases pc <;> first | rfl | cases h

theorem Pc.answered_or_finishing (hreq : pc.req = some r) (hpending : pc.pending = none) :
    pc = .answered r ∨ pc = .finishing r := by
  cases pc <;> simp_all [Pc.req, Pc.pending]

theorem move_holds (h : move maxInflight c w pc choice = some e) (hpc : pc.holds → c.recvMu = some w) :
    e.pc.holds → e.shared.recvMu = some w := by
  intro hnext
  cases move_moves h with
  | read tag kind =>
    rw [receive_pc] at hnext
    split at hnext
    · rename_i hk
      simpa [receive, hk] using hpc rfl
    · cases hnext
  | lock => rfl
  | unknown _ hsend | rflush hsend | reply hsend | panicLate hsend | panicEarly hsend =>
    rw [send_pc hsend] at hnext
    cases hnext
  | complete | finish => obtain hr | ⟨ch, hr⟩ := release_pc _ <;> rw [hr] at hnext <;> cases hnext
  | limited | cancelAll | drained | drain | wakeDrain | timeoutDrain | clunkAll | rversion | reject => exact hpc rfl
  | _ => cases hnext

theorem move_holds_other (h : move maxInflight c w pc choice = some e) (hpc : pc.holds → c.recvMu = some w) (hne : j ≠ w) (hj : c.recvMu = some j) : e.shared.recvMu = some j := by
  have habsurd (hh : pc.holds) : e.shared.recvMu = some j :=
    absurd (Option.some.inj (hj.symm.trans (hpc hh))) hne
  cases move_moves h with
  | exit hmu | shut hmu => exact hj
  | lock hmu => rw [hmu] at hj; cases hj
  | read | readFail | unlock => exact habsurd rfl
  | unknown _ hsend | rflush hsend | reply hsend | panicLate hsend | panicEarly hsend =>
    obtain ⟨_, -, rfl⟩ | ⟨-, rfl⟩ := send_eq hsend <;> exact hj
  | _ => exact hj

theorem LockInv.eq (hs : LockInv s) {i j : Nat} (hi : s.workers[i]? = some x)
    (hj : s.workers[j]? = some y) (hx : x.holds) (hy : y.holds) : i = j :=
  Option.some.inj ((hs i x hi hx).symm.trans (hs j y hj hy))

theorem worker_lockInv (hs : LockInv s) (hw : s.workers[w]? = some pc)
    (h : move maxInflight s.shared w pc choice = some e) :
    LockInv (s.after w e) := by
  intro i x hi hx
  rcases getElem?_workers h hi with ⟨rfl, rfl⟩ | rfl | ⟨hne, hi⟩
  · exact move_holds h (hs i pc hw) hx
  · cases hx
  · exact move_holds_other h (hs w pc hw) hne (hs i x hi hx)

/-! ## The end of a drain -/

/-- Every request that was read and not answered is in the map, but for the Tversion. -/
def State.AllRegistered (s : State) : Prop :=
  ∀ pc ∈ s.workers, pc.versionReq = none → ∀ r ∈ pc.pending, s.shared.Registered r
  deriving Decidable

/-- No request that was read is unanswered, but for the Tversion. -/
def State.Quiet (s : State) : Prop := ∀ pc ∈ s.workers, pc.versionReq = none → pc.pending = none

def Pc.drainChan : Pc → Option Chan
  | .drainWait _ ch => some ch
  | _ => none

/-- The step ends a drain: it finds the map empty, or removes the last entry while another worker waits for that. -/
def endsDrain (s : State) : Label → Bool
  | .worker w .go =>
    match s.workers[w]? with
    | some (.draining _) => s.shared.inflight.count = 0
    | some (.answered _) | some (.finishing _) =>
      s.shared.inflight.count = 1 &&
        s.workers.any fun pc => pc.drainChan.isSome && pc.drainChan = s.shared.inflight.drained
    | _ => false
  | _ => false

/-- When a drain ends, no request is missing from the map. -/
def DrainOk (s : State) (l : Label) : Prop := endsDrain s l → s.AllRegistered
  deriving Decidable

/-! ## Steps and the barrier -/

section Moves

/-- How a worker comes to a point of `handleReVersion`. -/
inductive VersionMove (c : Shared) (v : Req) : Pc → Choice → Effect → Prop
  | enter {choice : Choice} {e : Effect} (hpc : e.pc = .version v) (hkind : v.kind = .version) :
      VersionMove c v .locked choice e
  | cancelAll : VersionMove c v (.version v) .go { pc := .draining v, shared := c }
  | drained (hcount : c.inflight.count = 0) : VersionMove c v (.draining v) .go { pc := .clunking v, shared := c }
  | drain {ch : Chan} {im : InflightMap Req} (hdrain : c.inflight.drainChan c.chans.length = (some ch, im)) :
      VersionMove c v (.draining v) .go
        { pc := .drainWait v ch, shared := { c with inflight := im, chans := register c.chans ch none } }
  | wake {ch : Chan} (hclosed : ch ∈ c.closed) :
      VersionMove c v (.drainWait v ch) .wake { pc := .clunking v, shared := c }
  | clunkAll : VersionMove c v (.clunking v) .go { pc := .replying v, shared := { c with fids := fun _ => none } }

section

variable (h : move maxInflight c w pc choice = some e)
include h

theorem move_version (hv : e.pc.versionReq = some v) : VersionMove c v pc choice e := by
  cases move_moves h with
  | read tag kind =>
    rw [receive_pc] at hv
    split at hv
    · rename_i hk
      cases hv
      exact .enter (by rw [receive_pc, if_pos hk]) hk
    · cases hv
  | unknown _ hsend | rflush hsend | reply hsend | panicLate hsend | panicEarly hsend =>
    rw [send_pc hsend] at hv
    cases hv
  | complete | finish => obtain hpc | ⟨ch, hpc⟩ := release_pc _ <;> rw [hpc] at hv <;> cases hv
  | cancelAll => cases hv; exact .cancelAll
  | drained hcount => cases hv; exact .drained hcount
  | drain hdrain => cases hv; exact .drain hdrain
  | wakeDrain hclosed => cases hv; exact .wake hclosed
  | clunkAll => cases hv; exact .clunkAll
  | _ => cases hv

/-- A worker outside `handleReVersion` with a request had it before, or has just read it. -/
theorem move_unversioned (hnext : e.pc.versionReq = none) (hr : e.pc.pending = some r) :
    pc = .locked ∨ pc.versionReq = none ∧ pc.pending = some r := by
  cases move_moves h with
  | read => exact .inl rfl
  | unknown _ hsend | rflush hsend | reply hsend | panicLate hsend | panicEarly hsend =>
    rw [send_pc hsend] at hr
    cases hr
  | complete | finish => obtain hpc | ⟨ch, hpc⟩ := release_pc _ <;> rw [hpc] at hr <;> cases hr
  | flushNone | flushOld | flushNew | start | wakeFlush | bind | unbind | respond | panic | commit | encodePanic =>
    exact .inr ⟨rfl, hr⟩
  | cancelAll | drained | drain | wakeDrain | clunkAll => cases hnext
  | _ => cases hr

theorem move_fids (hb : e.shared.fids fid = some b) : c.fids fid = some b ∨ pc = .handling b := by
  cases move_moves h with
  | unknown _ hsend | rflush hsend | reply hsend | panicLate hsend | panicEarly hsend =>
    obtain ⟨_, -, rfl⟩ | ⟨-, rfl⟩ := send_eq hsend <;> exact .inl hb
  | bind fid' =>
    simp only [Function.update_apply] at hb
    split at hb
    · cases hb
      exact .inr rfl
    · exact .inl hb
  | unbind fid' =>
    simp only [Function.update_apply] at hb
    split at hb
    · cases hb
    · exact .inl hb
  | clunkAll => cases hb
  | _ => exact .inl hb

theorem move_rversion (hv : .wrote v ⟨tag, .rversion true⟩ ∈ e.events) :
    pc = .replying v ∧ e.pc = .unlocking ∧ e.shared = c := by
  cases move_moves h with
  | unknown _ hsend | rflush hsend | reply hsend | panicLate hsend | panicEarly hsend =>
    obtain ⟨_, rfl | rfl, rfl⟩ | ⟨-, rfl⟩ := send_eq hsend <;> simp at hv
  | rversion accepted =>
    obtain ⟨rfl, -⟩ := Event.wrote.inj (mem_singleton.1 hv)
    exact ⟨rfl, rfl, rfl⟩
  | read | undecodable | duplicate | cancelFlush | timeoutFlush | silent | limited | timeoutDrain | reject =>
    simp [receive] at hv
  | _ => cases hv

end

/-- The drain channel stays while the map has an entry; its last entry is removed by the worker that had it. -/
theorem MapMove.drained_after (h : MapMove c pc e) (hch : c.inflight.drained = some ch) :
    e.shared.inflight.drained = some ch ∨
      ∃ r entry, pc.req = some r ∧ pc.pending = none ∧ c.inflight.get r.tag = some entry ∧ entry.rctx = some r ∧
        c.inflight.count = 1 := by
  cases h with
  | keep hmap => exact .inl (hmap ▸ hch)
  | closeDone | flush | commit => exact .inl hch
  | start _ hstart => exact .inl ((InflightMap.start_eq hstart).2.1 ▸ hch)
  | @delete r entry hreq hpending hget hrctx =>
    obtain ⟨-, ⟨hcount, -, -⟩ | ⟨-, -, hsame⟩⟩ := InflightMap.delete_eq c.inflight r.tag
    · exact .inr ⟨r, entry, hreq, hpending, hget, hrctx, by omega⟩
    · exact .inl (hsame.trans hch)
  | drain _ hnone => exact absurd (hnone.symm.trans hch) (by simp)

end Moves

/-! ## The barrier -/

/-- A response after an Rversion that accepts is to a later request. -/
def Barrier (newer older : Event) : Prop :=
  ∀ v tag r f, older = .wrote v ⟨tag, .rversion true⟩ → newer = .wrote r f → v.id < r.id

structure VersionInv (s : State) : Prop where
  map : MapInv s
  lock : LockInv s
  wait : ∀ v ch, .drainWait v ch ∈ s.workers → s.shared.inflight.drained = some ch ∨ s.Quiet
  quiet : ∀ v, .clunking v ∈ s.workers ∨ .replying v ∈ s.workers → s.Quiet
  unbound : ∀ v, .replying v ∈ s.workers → ∀ fid, s.shared.fids fid = none
  pending : ∀ v tag, .wrote v ⟨tag, .rversion true⟩ ∈ s.log → ∀ r, s.Pending r → v.id < r.id
  bound : ∀ v tag, .wrote v ⟨tag, .rversion true⟩ ∈ s.log → ∀ fid b, s.shared.fids fid = some b → v.id < b.id
  ordered : s.log.Pairwise Barrier

theorem init_versionInv : VersionInv init where
  map := init_mapInv
  lock := by
    intro w pc hw hpc
    obtain rfl : pc = .loop := by simpa [init] using mem_of_getElem? hw
    cases hpc
  wait := by simp [init]
  quiet := by simp [init]
  unbound := by simp [init]
  pending := by simp [init]
  bound := by simp [init]
  ordered := .nil

theorem LogInv.read_of_wrote (hs : LogInv s) (h : .wrote r f ∈ s.log) :
    .read r ∈ s.log := by
  have hpos : 0 < s.log.countP (·.settles r) := countP_pos_iff.2 ⟨_, h, by simp [Event.settles]⟩
  have := hs.balance r
  exact count_pos_iff.1 (by omega)

section Step

variable (hs : VersionInv s) (hw : s.workers[w]? = some pc) (h : move maxInflight s.shared w pc choice = some e)
include hw h

theorem quiet_move (hq : s.Quiet) (hpc : pc ≠ .locked) :
    (s.after w e).Quiet := by
  intro x hx hv
  rcases mem_workers h hx with rfl | rfl | ⟨j, -, hj⟩
  · refine eq_none_iff_forall_ne_some.2 fun r hr => ?_
    rcases move_unversioned h hv hr with hl | ⟨hv', hr'⟩
    · exact hpc hl
    · exact absurd ((hq pc (mem_of_getElem? hw) hv').symm.trans hr') (by simp)
  · rfl
  · exact hq x (mem_of_getElem? hj) hv

include hs

variable {v r : Req} {ch : Chan} {tag : Tag}

theorem VersionInv.not_locked {j : Nat} (hj : s.workers[j]? = some x) (hx : x.versionReq = some v) :
    pc ≠ .locked := by
  rintro rfl
  obtain rfl := hs.lock.eq hj hw (Pc.holds_of_versionReq hx) rfl
  obtain rfl := mem_unique hj hw
  cases hx

/-- **The end of a drain**: with every request in the map, removing the last entry leaves none unanswered. -/
theorem VersionInv.quiet_of_last (hd : DrainOk s (.worker w choice)) (hwait : .drainWait v ch ∈ s.workers)
    (hch : s.shared.inflight.drained = some ch) (hreq : pc.req = some r)
    (hpending : pc.pending = none) (hget : s.shared.inflight.get r.tag = some entry) (hrctx : entry.rctx = some r)
    (hcount : s.shared.inflight.count = 1) : s.Quiet := by
  have hends : endsDrain s (.worker w choice) := by
    have hany : (s.workers.any fun pc => pc.drainChan.isSome && pc.drainChan = s.shared.inflight.drained) = true :=
      List.any_eq_true.2 ⟨_, hwait, by simp [Pc.drainChan, hch]⟩
    obtain rfl | rfl := Pc.answered_or_finishing hreq hpending
    all_goals
      cases move_moves h
      simp only [endsDrain, hw, hcount, hany, decide_true, Bool.and_self]
  intro x hx hv
  refine eq_none_iff_forall_ne_some.2 fun r' hr' => ?_
  -- its entry would be the last one, which is the one of the worker that moves
  obtain ⟨entry', hget', hrctx'⟩ := bind_eq_some_iff.1 (hd hends x hx hv r' hr')
  have htag := hs.map.counted.tag_eq hcount hget hget'
  rw [← htag, hget] at hget'
  cases hget'
  obtain rfl := mem_unique hrctx hrctx'
  obtain ⟨j, hj⟩ := mem_iff_getElem?.1 hx
  obtain rfl := hs.map.log.unique hj hw (Pc.req_of_pending hr') hreq
  obtain rfl := mem_unique hj hw
  exact absurd (hpending.symm.trans hr') (by simp)

theorem VersionInv.move_wait (hd : DrainOk s (.worker w choice))
    (hx : .drainWait v ch ∈ s.workers.set w e.pc ++ e.spawned) :
    e.shared.inflight.drained = some ch ∨
      (s.after w e).Quiet := by
  rcases mem_workers h hx with heq | heq | ⟨j, -, hj⟩
  · cases move_version h (v := v) (by rw [← heq]; rfl) with
    | drain hdrain =>
      obtain ⟨-, rfl⟩ := Pc.drainWait.inj heq
      exact .inl (InflightMap.drainChan_eq hdrain).2.2.1
    | enter hpc => rw [hpc] at heq; cases heq
    | cancelAll | drained | wake | clunkAll => cases heq
  · cases heq
  · have hmem := mem_of_getElem? hj
    have hl := hs.not_locked hw h hj (v := v) rfl
    rcases hs.wait v ch hmem with hch | hq
    · obtain hch' | ⟨r, entry, hreq, hpending, hget, hrctx, hcount⟩ := (hs.map.move_map hw h).drained_after hch
      · exact .inl hch'
      · exact .inr (quiet_move hw h (hs.quiet_of_last hw h hd hmem hch hreq hpending hget hrctx hcount) hl)
    · exact .inr (quiet_move hw h hq hl)

theorem VersionInv.quiet_of_empty (hd : DrainOk s (.worker w .go)) (hpc : pc = .draining v)
    (hcount : s.shared.inflight.count = 0) : s.Quiet := by
  subst hpc
  have hends : endsDrain s (.worker w .go) := by simp [endsDrain, hw, hcount]
  intro x hx hv
  refine eq_none_iff_forall_ne_some.2 fun r hr => ?_
  have := hd hends x hx hv r hr
  simp [Shared.Registered, hs.map.counted.get_eq_none hcount] at this

theorem VersionInv.move_quiet (hd : DrainOk s (.worker w choice))
    (hx : .clunking v ∈ s.workers.set w e.pc ++ e.spawned ∨ .replying v ∈ s.workers.set w e.pc ++ e.spawned) :
    (s.after w e).Quiet := by
  obtain ⟨x, hx, hxv⟩ : ∃ x ∈ s.workers.set w e.pc ++ e.spawned, x = .clunking v ∨ x = .replying v := by
    rcases hx with hx | hx
    · exact ⟨_, hx, .inl rfl⟩
    · exact ⟨_, hx, .inr rfl⟩
  have hreq : x.versionReq = some v := by rcases hxv with rfl | rfl <;> rfl
  rcases mem_workers h hx with rfl | rfl | ⟨j, -, hj⟩
  · have hmem := mem_of_getElem? hw
    cases move_version h hreq with
    | drained hcount => exact quiet_move hw h (hs.quiet_of_empty hw h hd rfl hcount) (by simp)
    | wake hclosed =>
      rcases hs.wait v _ hmem with hch | hq
      · exact absurd hclosed (hs.map.drainedOpen _ hch)
      · exact quiet_move hw h hq (by simp)
    | clunkAll => exact quiet_move hw h (hs.quiet v (.inl hmem)) (by simp)
    | enter hpc => simp [hpc] at hxv
    | cancelAll | drain => simp at hxv
  · cases hreq
  · have hmem := mem_of_getElem? hj
    refine quiet_move hw h (hs.quiet v ?_) (hs.not_locked hw h hj hreq)
    rcases hxv with rfl | rfl
    · exact .inl hmem
    · exact .inr hmem

theorem VersionInv.move_unbound (hx : .replying v ∈ s.workers.set w e.pc ++ e.spawned) (fid : Fid) :
    e.shared.fids fid = none := by
  rcases mem_workers h hx with heq | heq | ⟨j, -, hj⟩
  · cases move_version h (v := v) (by rw [← heq]; rfl) with
    | clunkAll => rfl
    | enter hpc => rw [hpc] at heq; cases heq
    | cancelAll | drained | drain | wake => cases heq
  · cases heq
  · have hmem := mem_of_getElem? hj
    refine eq_none_iff_forall_ne_some.2 fun b hb => ?_
    rcases move_fids h hb with hb | rfl
    · exact absurd ((hs.unbound v hmem fid).symm.trans hb) (by simp)
    · exact absurd (hs.quiet v (.inr hmem) _ (mem_of_getElem? hw) rfl) (by simp [Pc.pending])

theorem VersionInv.move_after (hv : .wrote v ⟨tag, .rversion true⟩ ∈ e.events ++ s.log) (hr : (s.after w e).Pending r) :
    v.id < r.id := by
  obtain ⟨x, hx, hp⟩ := hr
  rcases mem_append.1 hv with hv | hv
  · obtain ⟨rfl, hnext, -⟩ := move_rversion h hv
    rcases mem_workers h hx with rfl | rfl | ⟨j, hne, hj⟩
    · rw [hnext] at hp
      cases hp
    · cases hp
    · -- another worker's request: there is none, and no other Tversion
      cases hxv : x.versionReq with
      | none =>
        have := hs.quiet v (.inr (mem_of_getElem? hw)) x (mem_of_getElem? hj) hxv
        exact absurd (this.symm.trans hp) (by simp)
      | some v' => exact absurd (hs.lock.eq hj hw (Pc.holds_of_versionReq hxv) rfl) hne
  · rcases mem_workers h hx with rfl | rfl | ⟨j, -, hj⟩
    · rcases move_pending h hp with hp | ⟨_, _, -, -, rfl⟩
      · exact hs.pending v tag hv r ⟨pc, mem_of_getElem? hw, hp⟩
      · exact hs.map.log.ids v (hs.map.log.read_of_wrote hv)
    · cases hp
    · exact hs.pending v tag hv r ⟨x, mem_of_getElem? hj, hp⟩

theorem VersionInv.move_bound (hv : .wrote v ⟨tag, .rversion true⟩ ∈ e.events ++ s.log)
    (hb : e.shared.fids fid = some b) : v.id < b.id := by
  have hmem := mem_of_getElem? hw
  rcases mem_append.1 hv with hv | hv
  · obtain ⟨rfl, -, hshared⟩ := move_rversion h hv
    rw [hshared, hs.unbound v hmem fid] at hb
    cases hb
  · rcases move_fids h hb with hb | rfl
    · exact hs.bound v tag hv fid b hb
    · exact hs.pending v tag hv b ⟨_, hmem, rfl⟩

theorem VersionInv.move_ordered : (e.events ++ s.log).Pairwise Barrier := by
  cases move_log h with
  | quiet _ _ hevents =>
    rw [hevents]
    exact hs.ordered
  | wrote hpending _ _ hevents =>
    rw [hevents]
    refine hs.ordered.cons fun old hold v tag r f hv hr => ?_
    obtain ⟨rfl, -⟩ := Event.wrote.inj hr
    subst hv
    exact hs.pending v tag hold _ ⟨pc, mem_of_getElem? hw, hpending⟩
  | ended _ _ _ hevents | read _ _ hevents =>
    rw [hevents]
    refine hs.ordered.cons fun old hold v tag r f hv hr => ?_
    cases hr

theorem worker_versionInv (hd : DrainOk s (.worker w choice)) :
    VersionInv (s.after w e) where
  map := worker_mapInv hs.map hw h
  lock := worker_lockInv hs.lock hw h
  wait := fun _ _ => hs.move_wait hw h hd
  quiet := fun _ => hs.move_quiet hw h hd
  unbound := fun _ => hs.move_unbound hw h
  pending := fun _ _ hv _ => hs.move_after hw h hv
  bound := fun _ _ hv _ _ => hs.move_bound hw h hv
  ordered := hs.move_ordered hw h

omit hs hw h in
theorem step_versionInv (hs : VersionInv s) (hd : DrainOk s l) (h : step maxInflight s l = some s') : VersionInv s' := by
  cases l with
  | worker w choice =>
    obtain ⟨pc, e, hw, hmove, rfl⟩ := step_worker.1 h
    exact worker_versionInv hs hw hmove hd
  | close =>
    have hmap := step_mapInv hs.map h
    cases h
    exact { hs with map := hmap }
  | cleanupWait =>
    have hmap := step_mapInv hs.map h
    simp only [step] at h
    split at h <;> cases h
    · exact hs
    · rename_i ch im hdrain
      refine { hs with map := hmap, wait := fun v ch' hch' => ?_ }
      obtain ⟨-, -, hdrained, hold⟩ := InflightMap.drainChan_eq hdrain
      refine (hs.wait v ch' hch').imp (fun hd' => ?_) id
      obtain hold | ⟨hold, -⟩ := hold
      · rw [hdrained, ← hold, hd']
      · rw [hold] at hd'
        cases hd'
  | cleanupClunk =>
    have hmap := step_mapInv hs.map h
    cases h
    exact { hs with map := hmap, unbound := fun _ _ _ => rfl, bound := fun _ _ _ _ _ hb => by cases hb }

end Step

/-- **The Tversion barrier.**  In every run in which every drain ends with all unanswered requests in the map: after the
Rversion of an accepted Tversion `v`, every response is to a request that was read after `v`, and so was every request
that bound a fid of the table. -/
theorem version_barrier (maxInflight : Int) (ls : List Label) (s : State)
    (hd : Meets (step maxInflight) DrainOk init ls) (h : run (step maxInflight) init ls = some s)
    (post pre : List Event) (v : Req) (tag : Tag) (hlog : s.log = post ++ .wrote v ⟨tag, .rversion true⟩ :: pre) :
    (∀ r f, .wrote r f ∈ post → v.id < r.id) ∧ ∀ fid b, s.shared.fids fid = some b → v.id < b.id := by
  have hs : VersionInv s := run_inv_of_meets step_versionInv init_versionInv hd h
  refine ⟨fun r f hr => ?_, hs.bound v tag (by simp [hlog])⟩
  have hordered := hs.ordered
  rw [hlog, pairwise_append] at hordered
  exact hordered.2.2 _ hr _ mem_cons_self v tag r f rfl rfl

/-- One worker: a request that binds fid 5, a Tversion, a request that binds fid 6. -/
def sequentialRun : List Label :=
  ([.go, .go, .frame 1 .other, .go, .bind 5, .respond, .go, .write .ok, .go,
    .go, .go, .frame 65535 .version, .go, .go, .go, .reply true, .go,
    .go, .go, .frame 1 .other, .go, .bind 6, .respond, .go, .write .ok, .go] : List Choice).map (.worker 0)

theorem version_barrier_sequential :
    ∃ s, run (step 1) init sequentialRun = some s ∧ s.shared.fids 6 = some ⟨2, 1, .other⟩ ∧
      ∀ fid b, s.shared.fids fid = some b → 1 < b.id :=
  ⟨_, rfl, rfl, (version_barrier 1 sequentialRun _ (by decide) rfl
    [.wrote ⟨2, 1, .other⟩ ⟨1, .reply⟩, .read ⟨2, 1, .other⟩] _ ⟨1, 65535, .version⟩ 65535 rfl).2⟩

/-- Worker 0 has read a request and not started it when worker 1 reads a Tversion, finds the map empty and answers. -/
def overtakenRun : List Label :=
  [.worker 0 .go, .worker 0 .go, .worker 0 (.frame 1 .other),
    .worker 1 .go, .worker 1 .go, .worker 1 (.frame 65535 .version), .worker 1 .go, .worker 1 .go, .worker 1 .go,
    .worker 1 (.reply true),
    .worker 0 .go, .worker 0 (.bind 5), .worker 0 .respond, .worker 0 .go, .worker 0 (.write .ok)]

theorem version_overtaken :
    ∃ s, run (step 2) init overtakenRun = some s ∧ s.shared.fids 5 = some ⟨0, 1, .other⟩ ∧
      s.log = [.wrote ⟨0, 1, .other⟩ ⟨1, .reply⟩, .wrote ⟨1, 65535, .version⟩ ⟨65535, .rversion true⟩,
        .read ⟨1, 65535, .version⟩, .read ⟨0, 1, .other⟩] :=
  ⟨_, rfl, rfl, rfl⟩

end NineP.Server.Conn
