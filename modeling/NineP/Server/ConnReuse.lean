import NineP.Server.ConnFlush

/-!
# Tags that are used again

A client may use a tag again when it has the response to the last request with that tag, or the Rflush for it.  The
server commits the entry of a request before it writes the response; not so after a panic, where `finish` comes later.
-/

namespace NineP.Server.Conn

open Proto Transition List

variable {e : Effect} {s : State}

/-! ## The client and the condition -/

/-- The response to `r`, or the Rflush of a Tflush for it. -/
def Event.releases (r : Req) : Event → Bool
  | .wrote q _ => q = r || Flushes q r
  | _ => false

/-- The client uses a tag again only when it can have seen the answers to all requests with that tag. -/
def tagOk (s : State) : Label → Bool
  | .worker _ (.frame tag _) => s.requests.all fun r => r.tag ≠ tag || s.log.any (·.releases r)
  | _ => true

/-- The request is answered and `finish` is next: the last step of a handler that has panicked. -/
def Pc.finishes : Pc → Option Req
  | .finishing r => some r
  | _ => none

/-- When a request is started, no worker is about to finish one with its tag. -/
def FinishOk (s : State) (l : Label) : Prop :=
  ∀ r ∈ s.accepting l, ∀ pc ∈ s.workers, ∀ q ∈ pc.finishes, q.tag ≠ r.tag
  deriving Decidable

theorem FlushCore.tag_ne {s : State} (hs : FlushCore s)
    (hclient : tagOk s (.worker w (.frame tag kind))) {r : Req} (hr : s.Pending r) : r.tag ≠ tag := by
  intro htag
  have hmem : r ∈ s.requests := mem_filterMap.2 ⟨.read r, hs.map.log.read_of_isPending hr, rfl⟩
  have hfree := List.all_eq_true.1 hclient r hmem
  simp only [htag, ne_eq, not_true, decide_false, Bool.false_or, List.any_eq_true] at hfree
  obtain ⟨ev, hev, hreleases⟩ := hfree
  cases ev with
  | read | ended => cases hreleases
  | wrote q f =>
    simp only [Event.releases, Bool.or_eq_true, decide_eq_true_eq] at hreleases
    rcases hreleases with rfl | hfl
    · exact hs.map.log.not_wrote hr f hev
    · exact hs.wrote q f hev r hfl hr

/-! ## Uncommitted entries -/

theorem move_owner (h : move maxInflight c w pc choice = some e) {r : Req} (hpc : pc.owner = some r) :
    e.pc.owner = some r ∨ e.shared.inflight = c.inflight.commit r.tag ∨
      e.shared.inflight = (c.inflight.remove r.tag).2.2 := by
  cases move_moves h with
  | bind | unbind | respond | silent | panic => exact .inl hpc
  | panicEarly hsend =>
    rw [send_pc hsend]
    exact .inl hpc
  | commit =>
    cases hpc
    exact .inr (.inl rfl)
  | finish =>
    cases hpc
    exact .inr (.inr rfl)
  | _ => cases hpc

theorem commit_committed (im : InflightMap Req) (tag : Tag) {entry : InflightEntry Req}
    (h : (im.commit tag).get tag = some entry) : entry.committed = true := by
  rw [InflightMap.commit, InflightMap.get_set, if_pos rfl] at h
  cases h
  rfl

theorem remove_get_self (im : InflightMap Req) (tag : Tag) : ((im.remove tag).2.2).get tag = none := by
  rw [InflightMap.remove, InflightMap.delete_get, if_pos rfl]

/-- An uncommitted entry after a step was there before and uncommitted, or it is the new one of `start`. -/
theorem MapMove.uncommitted (h : MapMove c pc e) {entry : InflightEntry Req}
    (hget : e.shared.inflight.get t = some entry) (hcommitted : entry.committed = false) :
    (∃ old, c.inflight.get t = some old ∧ old.rctx = entry.rctx ∧ old.committed = false) ∨
      ∃ r, e.pc = .handling r ∧ entry.rctx = some r := by
  obtain ⟨old, hold, hrctx, hkept, -⟩ | ⟨r, -, hpc, -, rfl⟩ := h.entry hget
  · refine .inl ⟨old, hold, hrctx.symm, Bool.eq_false_iff.2 fun hold' => ?_⟩
    rw [hkept hold'] at hcommitted
    cases hcommitted
  · exact .inr ⟨r, hpc, rfl⟩

/-- An uncommitted entry is that of a request which a worker handles. -/
def OwnerInv (s : State) : Prop :=
  ∀ t entry, s.shared.inflight.get t = some entry → entry.committed = false →
    ∃ pc ∈ s.workers, pc.owner = entry.rctx ∧ entry.rctx.isSome

theorem worker_ownerInv (hmap : MapInv s) (hs : OwnerInv s) (hw : s.workers[w]? = some pc)
    (h : move maxInflight s.shared w pc choice = some e) :
    OwnerInv (s.after w e) := by
  intro t entry hget hcommitted
  have hself : e.pc ∈ s.workers.set w e.pc ++ e.spawned :=
    mem_append_left _ (mem_set (getElem?_lt hw) _)
  obtain ⟨old, hold, hrctx, huncommitted⟩ | ⟨r, hpc, hr⟩ := (hmap.move_map hw h).uncommitted hget hcommitted
  · obtain ⟨x, hx, howner, hsome⟩ := hs t old hold huncommitted
    rw [hrctx] at howner hsome
    obtain ⟨r, hr⟩ := Option.isSome_iff_exists.1 hsome
    obtain ⟨r', hr', htag, -⟩ := hmap.entry t old hold
    obtain rfl : r' = r := Option.some.inj (hr'.symm.trans (hrctx.trans hr))
    obtain ⟨j, hj⟩ := mem_iff_getElem?.1 hx
    by_cases hjw : j = w
    · -- the worker of the entry moved: had it let go of the entry, the entry would not be there uncommitted
      subst hjw
      obtain rfl := Option.mem_unique hw hj
      rcases move_owner h (howner.trans hr) with hkeep | hcommit | hremove
      · exact ⟨e.pc, hself, hkeep.trans hr.symm, hsome⟩
      · simp only [hcommit, ← htag] at hget
        rw [commit_committed _ _ hget] at hcommitted
        cases hcommitted
      · simp only [hremove, ← htag, remove_get_self] at hget
        cases hget
    · refine ⟨x, mem_append_left _ (mem_of_getElem? (i := j) ?_), howner, hsome⟩
      rw [getElem?_set_ne (Ne.symm hjw)]
      exact hj
  · exact ⟨e.pc, hself, by rw [hpc, hr]; rfl, by simp [hr]⟩

theorem step_ownerInv (hmap : MapInv s) (hs : OwnerInv s) (h : step maxInflight s l = some s') :
    OwnerInv s' := by
  cases l with
  | worker w choice =>
    obtain ⟨pc, e, hw, hmove, rfl⟩ := step_worker.1 h
    exact worker_ownerInv hmap hs hw hmove
  | close | cleanupClunk =>
    cases h
    exact hs
  | cleanupWait =>
    simp only [step] at h
    split at h <;> cases h
    · exact hs
    · rename_i hdrain
      have hentries := (InflightMap.drainChan_eq hdrain).1
      intro t entry hget
      exact hs t entry (by rw [← hget, InflightMap.get, InflightMap.get, hentries])

/-! ## Duplicates -/

structure ReuseInv (s : State) : Prop where
  core : FlushCore s
  owner : OwnerInv s
  noDup : ∀ r, .ended r .duplicate ∉ s.log

theorem init_reuseInv : ReuseInv init where
  core := init_flushCore
  owner := fun _ _ h => by cases h
  noDup := by simp [init]

theorem start_eq_none {im : InflightMap Req} (h : im.start tag r = none) :
    ∃ entry, im.get tag = some entry ∧ entry.committed = false := by
  unfold InflightMap.start at h
  split at h
  · rename_i entry hget
    refine ⟨entry, hget, ?_⟩
    cases hc : entry.committed with
    | false => rfl
    | true => simp [hc] at h
  · cases h

/-- **A request is not taken for a duplicate**: a worker that handles another one with its tag would have answered it,
or would be about to finish it. -/
theorem ReuseInv.start_ne_none (hs : ReuseInv s) {r : Req} (hr : .got r ∈ s.workers)
    (hok : ∀ pc ∈ s.workers, ∀ q ∈ pc.finishes, q.tag ≠ r.tag) : s.shared.inflight.start r.tag r ≠ none := by
  intro hstart
  obtain ⟨entry, hget, hcommitted⟩ := start_eq_none hstart
  obtain ⟨pc, hpc, howner, -⟩ := hs.owner _ entry hget hcommitted
  obtain ⟨q, hq, htag, -, hgot⟩ := hs.core.map.entry _ entry hget
  rw [hq] at howner
  have hpending (hp : pc.pending = some q) : False := by
    obtain rfl := hs.core.distinct q r ⟨pc, hpc, hp⟩ ⟨_, hr, rfl⟩ htag
    exact hgot hr
  cases pc with
  | handling | responding => exact hpending howner
  | panicked r' finished =>
    cases finished
    · exact hpending howner
    · cases howner
  | finishing => exact hok _ hpc q howner htag
  | _ => cases howner

theorem move_duplicate (h : move maxInflight s.shared w pc choice = some e) {r : Req}
    (hev : .ended r .duplicate ∈ e.events) :
    pc = .got r ∧ choice = .go ∧ s.shared.inflight.start r.tag r = none := by
  cases move_moves h with
  | duplicate _ hstart =>
    obtain ⟨rfl, -⟩ := Event.ended.inj (mem_singleton.1 hev)
    exact ⟨rfl, rfl, hstart⟩
  | unknown _ hsend | rflush hsend | reply hsend | panicLate hsend | panicEarly hsend =>
    obtain ⟨_, -, rfl⟩ | ⟨-, rfl⟩ := send_eq hsend <;> simp at hev
  | read | undecodable | cancelFlush | timeoutFlush | silent | limited | timeoutDrain | reject | rversion =>
    simp [receive] at hev
  | complete | finish => cases hev
  | _ => cases hev

theorem step_reuseInv (hs : ReuseInv s) (hok : tagOk s l ∧ FlushOk s l ∧ FinishOk s l)
    (h : step maxInflight s l = some s') : ReuseInv s' := by
  obtain ⟨hclient, hflush, hfinish⟩ := hok
  refine ⟨step_flushCore hs.core (fun w tag kind hl r hr => ?_) hflush h, step_ownerInv hs.core.map hs.owner h, ?_⟩
  · subst hl
    exact hs.core.tag_ne hclient hr
  · intro r hev
    obtain ⟨w, choice, pc, e, rfl, hw, hmove, rfl⟩ | ⟨-, hlog, -⟩ := step_cases h
    · rcases mem_append.1 hev with hev | hev
      · obtain ⟨rfl, rfl, hstart⟩ := move_duplicate hmove hev
        exact hs.start_ne_none (mem_of_getElem? hw) (hfinish r (by simp [State.accepting, hw])) hstart
      · exact hs.noDup r hev
    · exact hs.noDup r (hlog ▸ hev)

/-- **Tags may be used again.**  In every run whose client uses a tag again only after the response or the Rflush for it,
in which the map knows the requests that each Tflush is for and no request is started while a panicked one with its tag is
left to be finished, no request is taken for a duplicate. -/
theorem no_duplicate (maxInflight : Int) (ls : List Label) (s : State)
    (hclient : Meets (step maxInflight) (fun s l => tagOk s l) init ls)
    (hok : Meets (step maxInflight) (fun s l => FlushOk s l ∧ FinishOk s l) init ls)
    (h : run (step maxInflight) init ls = some s) (r : Req) : .ended r .duplicate ∉ s.log :=
  have hs : ReuseInv s := run_inv_of_meets step_reuseInv init_reuseInv (hclient.and hok) h
  hs.noDup r

/-- Worker 0 answers a request and is not done with it when worker 1 starts the next one with its tag. -/
def reuseRun : List Label :=
  [.worker 0 .go, .worker 0 .go, .worker 0 (.frame 1 .other), .worker 0 .go, .worker 0 .respond, .worker 0 .go,
    .worker 0 (.write .ok),
    .worker 1 .go, .worker 1 .go, .worker 1 (.frame 1 .other), .worker 1 .go, .worker 0 .go]

theorem no_duplicate_reuse :
    ∃ s, run (step 2) init reuseRun = some s ∧ s.workers = [.loop, .handling ⟨1, 1, .other⟩] ∧
      .ended ⟨1, 1, .other⟩ .duplicate ∉ s.log :=
  ⟨_, rfl, rfl, no_duplicate 2 reuseRun _ (by decide) (by decide) rfl _⟩

/-- The same after a panic: worker 0 has written EIO, and `finish` is next. -/
def panicReuseRun : List Label :=
  [.worker 0 .go, .worker 0 .go, .worker 0 (.frame 1 .other), .worker 0 .go, .worker 0 .panic, .worker 0 (.write .ok),
    .worker 1 .go, .worker 1 .go, .worker 1 (.frame 1 .other), .worker 1 .go]

theorem duplicate_after_panic :
    Meets (step 2) (fun s l => tagOk s l) init panicReuseRun ∧
      ∃ s, run (step 2) init panicReuseRun = some s ∧
        s.log = [.ended ⟨1, 1, .other⟩ .duplicate, .read ⟨1, 1, .other⟩, .wrote ⟨0, 1, .other⟩ ⟨1, .error EIO⟩,
          .read ⟨0, 1, .other⟩] ∧
        s.workers[1]? = some .shutting :=
  ⟨by decide, _, rfl, rfl, rfl⟩

end NineP.Server.Conn
