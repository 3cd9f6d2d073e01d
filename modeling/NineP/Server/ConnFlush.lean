import NineP.Server.ConnVersion

/-!
# The order of Rflush

A Tflush waits on the channel of the entry of its old tag, and is answered at once if there is none.  So it misses a
request that another worker has read and not yet started.
-/

namespace NineP.Server.Conn

open Proto Transition List

/-! ## Flushes -/

/-- The Tflush `fl` was read after `r` and names its tag. -/
def Flushes (fl r : Req) : Prop := fl.kind = .flush r.tag ∧ r.id < fl.id
  deriving Decidable

/-- The event after which the client may use the tag of `r` again: the response, the Rflush of a Tflush for `r`, or a
new session. -/
def Event.frees (r : Req) : Event → Bool
  | .wrote q f => q = r || Flushes q r || f.body = .rversion true && r.id < q.id
  | _ => false

/-- The requests read so far. -/
def State.requests (s : State) : List Req :=
  s.log.filterMap fun
    | .read r => some r
    | _ => none

/-- The client sends no request whose tag is outstanding. -/
def clientOk (s : State) : Label → Bool
  | .worker _ (.frame tag _) => s.requests.all fun r => r.tag ≠ tag || s.log.any (·.frees r)
  | _ => true

/-- The request that `handleRequest` goes on with in this step. -/
def State.accepting (s : State) : Label → Option Req
  | .worker w .go => (s.workers[w]?).bind fun
    | .got r => some r
    | _ => none
  | _ => none

variable {s : State}

theorem got_of_accepting (h : s.accepting l = some r) :
    ∃ w, l = .worker w .go ∧ s.workers[w]? = some (.got r) := by
  unfold State.accepting at h
  split at h
  · rename_i w
    obtain ⟨pc, hw, hr⟩ := Option.bind_eq_some_iff.1 h
    split at hr
    · cases hr
      exact ⟨w, rfl, hw⟩
    · cases hr
  · cases h

/-- When a Tflush asks the map for its old tag, the unanswered requests it is for are in the map. -/
def FlushOk (s : State) (l : Label) : Prop :=
  ∀ fl ∈ s.accepting l, ∀ pc ∈ s.workers, ∀ r ∈ pc.pending, Flushes fl r → s.shared.Registered r
  deriving Decidable

/-! ## Steps and flushes -/

/-- How a worker comes to the Rflush or to wait for it. -/
inductive FlushMove (c : Shared) (fl : Req) : Pc → Choice → Effect → Prop
  | none {oldTag : Tag} (hkind : fl.kind = .flush oldTag) (hget : c.inflight.get oldTag = none) :
      FlushMove c fl (.got fl) .go { pc := .flushed fl, shared := c }
  | wait {oldTag : Tag} {entry entry' : InflightEntry Req} {ch : Chan} {e : Effect}
      (hkind : fl.kind = .flush oldTag) (hget : c.inflight.get oldTag = some entry)
      (hget' : e.shared.inflight.get oldTag = some entry') (hrctx : entry'.rctx = entry.rctx)
      (hdone : entry'.done = some ch) (hpc : e.pc = .waiting fl ch) : FlushMove c fl (.got fl) .go e
  | wake {ch : Chan} (hclosed : ch ∈ c.closed) :
      FlushMove c fl (.waiting fl ch) .wake { pc := .flushed fl, shared := c }

theorem move_flush (h : move maxInflight c w pc choice = some e)
    (hfl : e.pc = .flushed fl ∨ ∃ ch, e.pc = .waiting fl ch) : FlushMove c fl pc choice e := by
  cases move_moves h with
  | read tag kind =>
    rw [receive_pc] at hfl
    split at hfl <;> simp at hfl
  | unknown _ hsend | rflush hsend | reply hsend | panicLate hsend | panicEarly hsend =>
    rw [send_pc hsend] at hfl
    simp at hfl
  | complete | finish => obtain hpc | ⟨ch, hpc⟩ := release_pc _ <;> rw [hpc] at hfl <;> simp at hfl
  | flushNone hkind hget =>
    obtain rfl : _ = fl := by simpa using hfl
    exact .none hkind hget
  | flushOld hkind hget hdone =>
    obtain rfl : _ = fl := by simpa using hfl
    exact .wait hkind hget hget rfl hdone rfl
  | flushNew hkind hget =>
    obtain rfl : _ = fl := by simpa using hfl
    exact .wait hkind hget ((InflightMap.get_set _ _ _ _).trans (if_pos rfl)) rfl rfl rfl
  | wakeFlush hclosed =>
    obtain rfl : _ = fl := by simpa using hfl
    exact .wake hclosed
  | _ => simp at hfl

theorem send_wrote {next : Pc} (h : send c r body next o = some e) (hev : .wrote q f ∈ e.events) : q = r := by
  obtain ⟨_, -, rfl⟩ | ⟨-, rfl⟩ := send_eq h
  · exact (Event.wrote.inj (mem_singleton.1 hev)).1
  · simp at hev

theorem move_rflush (h : move maxInflight c w pc choice = some e) (hpc : pc.KindOk) (hkind : fl.kind = .flush oldTag) (hev : .wrote fl f ∈ e.events) : pc = .flushed fl := by
  cases move_moves h with
  | unknown hk hsend =>
    obtain rfl := send_wrote hsend hev
    exact absurd (hk.symm.trans hkind) (by simp)
  | rflush hsend =>
    obtain rfl := send_wrote hsend hev
    rfl
  | reply hsend | panicLate hsend | panicEarly hsend =>
    obtain rfl := send_wrote hsend hev
    exact absurd (Eq.trans (Eq.symm hpc) hkind) (by simp)
  | rversion accepted =>
    obtain ⟨rfl, -⟩ := Event.wrote.inj (mem_singleton.1 hev)
    exact absurd (Eq.trans (Eq.symm hpc) hkind) (by simp)
  | read | undecodable | duplicate | cancelFlush | timeoutFlush | silent | limited | timeoutDrain | reject =>
    simp [receive] at hev
  | _ => cases hev

/-! ## The invariant -/

/-- A response after the response to a Tflush is not to a request that the Tflush was for. -/
def FlushOrder (newer older : Event) : Prop :=
  ∀ fl g r f, older = .wrote fl g → newer = .wrote r f → ¬Flushes fl r

/-- What keeps Rflush behind the response, whatever the client may do after a new session. -/
structure FlushCore (s : State) : Prop where
  map : MapInv s
  kinds : ∀ pc ∈ s.workers, pc.KindOk
  distinct : ∀ r r', s.Pending r → s.Pending r' → r.tag = r'.tag → r = r'
  closed : ∀ ch ∈ s.shared.closed, ∀ r, s.shared.chans[ch]? = some (some r) → ¬s.Pending r
  waiting : ∀ fl ch, .waiting fl ch ∈ s.workers → ∀ r, Flushes fl r → s.Pending r →
    s.shared.chans[ch]? = some (some r)
  flushed : ∀ fl, .flushed fl ∈ s.workers → ∀ r, Flushes fl r → ¬s.Pending r
  wrote : ∀ fl f, .wrote fl f ∈ s.log → ∀ r, Flushes fl r → ¬s.Pending r
  ordered : s.log.Pairwise FlushOrder

structure FlushInv (s : State) : Prop where
  version : VersionInv s
  kinds : ∀ pc ∈ s.workers, pc.KindOk
  distinct : ∀ r r', s.Pending r → s.Pending r' → r.tag = r'.tag → r = r'
  closed : ∀ ch ∈ s.shared.closed, ∀ r, s.shared.chans[ch]? = some (some r) → ¬s.Pending r
  waiting : ∀ fl ch, .waiting fl ch ∈ s.workers → ∀ r, Flushes fl r → s.Pending r →
    s.shared.chans[ch]? = some (some r)
  flushed : ∀ fl, .flushed fl ∈ s.workers → ∀ r, Flushes fl r → ¬s.Pending r
  wrote : ∀ fl f, .wrote fl f ∈ s.log → ∀ r, Flushes fl r → ¬s.Pending r
  ordered : s.log.Pairwise FlushOrder

theorem FlushInv.core (hs : FlushInv s) : FlushCore s where
  map := hs.version.map
  kinds := hs.kinds
  distinct := hs.distinct
  closed := hs.closed
  waiting := hs.waiting
  flushed := hs.flushed
  wrote := hs.wrote
  ordered := hs.ordered

theorem FlushCore.flushInv (hs : FlushCore s) (hversion : VersionInv s) : FlushInv s where
  version := hversion
  kinds := hs.kinds
  distinct := hs.distinct
  closed := hs.closed
  waiting := hs.waiting
  flushed := hs.flushed
  wrote := hs.wrote
  ordered := hs.ordered

theorem init_flushCore : FlushCore init where
  map := init_mapInv
  kinds := by simp [init, Pc.KindOk]
  distinct := by simp [init, State.Pending, Pc.pending]
  closed := by simp [init]
  waiting := by simp [init]
  flushed := by simp [init]
  wrote := by simp [init]
  ordered := .nil

theorem LogInv.not_wrote (hs : LogInv s) (hr : s.Pending r) (f : RFrame) : .wrote r f ∉ s.log := by
  intro hf
  obtain ⟨pc, hpc, hp⟩ := hr
  have hpos : 0 < s.log.countP (·.settles r) := countP_pos_iff.2 ⟨_, hf, by simp [Event.settles]⟩
  have hpos' : 0 < s.workers.countP (·.pending = some r) := countP_pos_iff.2 ⟨pc, hpc, by simp [hp]⟩
  have := hs.balance r
  have := hs.once r
  omega

theorem LogInv.read_of_isPending (hs : LogInv s) (hr : s.Pending r) : .read r ∈ s.log := by
  obtain ⟨pc, hpc, hp⟩ := hr
  exact hs.read_of_req hpc (Pc.req_of_pending hp)

theorem FlushInv.tag_ne (hs : FlushInv s)
    (hclient : clientOk s (.worker w (.frame tag kind))) (hr : s.Pending r) : r.tag ≠ tag := by
  intro htag
  have hlog := hs.version.map.log
  have hmem : r ∈ s.requests := mem_filterMap.2 ⟨.read r, hlog.read_of_isPending hr, rfl⟩
  have hfree := List.all_eq_true.1 hclient r hmem
  simp only [htag, ne_eq, not_true, decide_false, Bool.false_or, List.any_eq_true] at hfree
  obtain ⟨ev, hev, hfrees⟩ := hfree
  cases ev with
  | read | ended => cases hfrees
  | wrote q f =>
    simp only [Event.frees, Bool.or_eq_true, Bool.and_eq_true, decide_eq_true_eq] at hfrees
    rcases hfrees with (rfl | hfl) | ⟨hbody, hid⟩
    · exact hlog.not_wrote hr f hev
    · exact hs.wrote q f hev r hfl hr
    · obtain ⟨tag', body⟩ := f
      subst hbody
      have := hs.version.pending q tag' hev r hr
      omega

section Step

variable (hs : FlushCore s) (hw : s.workers[w]? = some pc) (h : move maxInflight s.shared w pc choice = some e)
include hs hw h

theorem FlushCore.move_distinct (hclient : ∀ tag kind, choice = .frame tag kind → ∀ r, s.Pending r → r.tag ≠ tag) (hr : (s.after w e).Pending r) (hr' : (s.after w e).Pending r') (htag : r.tag = r'.tag) : r = r' := by
  rcases pending_cases hw h hr with hr | ⟨tag, kind, rfl, rfl⟩ <;>
    rcases pending_cases hw h hr' with hr' | ⟨tag', kind', hchoice', rfl⟩
  · exact hs.distinct r r' hr hr' htag
  · subst hchoice'
    exact absurd htag (hclient _ _ rfl r hr)
  · exact absurd htag.symm (hclient _ _ rfl r' hr')
  · obtain ⟨rfl, rfl⟩ := Choice.frame.inj hchoice'
    rfl

theorem FlushCore.move_closed (hch : ch ∈ e.shared.closed) (hr : e.shared.chans[ch]? = some (some r)) :
    ¬(s.after w e).Pending r := by
  have hmap := hs.map
  have hm := hmap.move_map hw h
  -- the channel was there before the step
  have hr : s.shared.chans[ch]? = some (some r) := by
    have hlt := hmap.closed_lt hw h hch
    rw [← hr, getElem?_eq_getElem hlt]
    exact (hm.chans_get (getElem?_eq_getElem hlt)).symm
  suffices hp : ¬s.Pending r from fun hp' =>
    hp (pending_before hmap.log hw h (hmap.chanRead r (mem_of_getElem? hr)) hp')
  obtain hold | rfl | ⟨q, entry, rfl, -, hget, -, hdone⟩ | ⟨hd, -⟩ := hm.closed_cases hch
  · exact hs.closed ch hold r hr
  · obtain ⟨q, hq, hp⟩ := hmap.closing ch (mem_of_getElem? hw)
    obtain rfl : q = r := by simpa [hq] using hr
    exact hp
  · -- a committed entry whose tag is used again: its request was answered, or the client would reuse the tag
    obtain ⟨x, hx, htag, -, hgot⟩ := hmap.entry q.tag entry hget
    have hchan := hmap.chansOk.done _ entry ch hget hdone
    obtain rfl : x = r := by simpa [hx, hr] using hchan.symm
    intro hp
    obtain rfl := hs.distinct x q hp ⟨_, mem_of_getElem? hw, rfl⟩ htag
    exact hgot (mem_of_getElem? hw)
  · exact absurd ((hmap.chansOk.drained ch hd).symm.trans hr) (by simp)

theorem FlushCore.pending_old (hread : .read fl ∈ s.log) (hfl : Flushes fl r) (hr : (s.after w e).Pending r) :
    s.Pending r := by
  rcases pending_cases hw h hr with hr | ⟨tag, kind, -, rfl⟩
  · exact hr
  · exact absurd (Nat.lt_trans hfl.2 (hs.map.log.ids fl hread)) (Nat.lt_irrefl _)

theorem FlushCore.move_waiting (hok : FlushOk s (.worker w choice))
    (hx : .waiting fl ch ∈ s.workers.set w e.pc ++ e.spawned) (hfl : Flushes fl r) (hr : (s.after w e).Pending r) :
    e.shared.chans[ch]? = some (some r) := by
  have hmap := hs.map
  rcases mem_workers h hx with heq | heq | ⟨j, -, hj⟩
  · cases move_flush h (.inr ⟨ch, heq.symm⟩) with
    | none | wake => cases heq
    | wait hkind hget hget' hrctx hdone hpc =>
      obtain ⟨-, rfl⟩ := Pc.waiting.inj (heq.trans hpc)
      obtain ⟨x, hx, hp⟩ := hs.pending_old hw h (hmap.log.read_of_req (mem_of_getElem? hw) rfl) hfl hr
      obtain ⟨entry, hentry, hr⟩ :=
        Option.bind_eq_some_iff.1 (hok fl (by simp [State.accepting, hw]) x hx r hp hfl)
      obtain rfl := Kind.flush.inj (hkind.symm.trans hfl.1)
      obtain rfl := Option.mem_unique hget hentry
      rw [← hr, ← hrctx]
      exact (hmap.move_chansOk hw h).done _ _ _ hget' hdone
  · cases heq
  · have hmem := mem_of_getElem? hj
    exact (hmap.move_map hw h).chans_get
      (hs.waiting fl ch hmem r hfl (hs.pending_old hw h (hmap.log.read_of_req hmem rfl) hfl hr))

theorem FlushCore.move_flushed (hok : FlushOk s (.worker w choice))
    (hx : .flushed fl ∈ s.workers.set w e.pc ++ e.spawned) (hfl : Flushes fl r) :
    ¬(s.after w e).Pending r := by
  intro hr
  have hlog := hs.map.log
  have hmemw := mem_of_getElem? hw
  rcases mem_workers h hx with heq | heq | ⟨j, -, hj⟩
  · cases move_flush h (.inl heq.symm) with
    | none hkind hget =>
      obtain ⟨x, hx, hp⟩ := hs.pending_old hw h (hlog.read_of_req hmemw rfl) hfl hr
      have hreg := hok fl (by simp [State.accepting, hw]) x hx r hp hfl
      obtain rfl := Kind.flush.inj (hkind.symm.trans hfl.1)
      simp [Shared.Registered, hget] at hreg
    | wait _ _ _ _ _ hpc =>
      rw [hpc] at heq
      cases heq
    | wake hclosed =>
      have hp := hs.pending_old hw h (hlog.read_of_req hmemw rfl) hfl hr
      exact hs.closed _ hclosed r (hs.waiting fl _ hmemw r hfl hp) hp
  · cases heq
  · have hmem := mem_of_getElem? hj
    exact hs.flushed fl hmem r hfl (hs.pending_old hw h (hlog.read_of_req hmem rfl) hfl hr)

theorem FlushCore.move_wrote (hev : .wrote fl f ∈ e.events ++ s.log) (hfl : Flushes fl r) :
    ¬(s.after w e).Pending r := by
  intro hr
  have hlog := hs.map.log
  have hmem := mem_of_getElem? hw
  rcases mem_append.1 hev with hev | hev
  · obtain rfl := move_rflush h (hs.kinds pc hmem) hfl.1 hev
    exact hs.flushed fl hmem r hfl (hs.pending_old hw h (hlog.read_of_req hmem rfl) hfl hr)
  · exact hs.wrote fl f hev r hfl (hs.pending_old hw h (hlog.read_of_wrote hev) hfl hr)

theorem FlushCore.move_ordered : (e.events ++ s.log).Pairwise FlushOrder := by
  cases move_log h with
  | quiet _ _ hevents =>
    rw [hevents]
    exact hs.ordered
  | wrote hpending _ _ hevents =>
    rw [hevents]
    refine hs.ordered.cons fun old hold fl g r f hfl hr hflushes => ?_
    obtain ⟨rfl, -⟩ := Event.wrote.inj hr
    subst hfl
    exact hs.wrote fl g hold _ hflushes ⟨pc, mem_of_getElem? hw, hpending⟩
  | ended _ _ _ hevents | read _ _ hevents =>
    rw [hevents]
    refine hs.ordered.cons fun old hold fl g r f _ hr => ?_
    cases hr

/-- **A step keeps the core** if the client does not use the tag of an unanswered request. -/
theorem worker_flushCore (hclient : ∀ tag kind, choice = .frame tag kind → ∀ r, s.Pending r → r.tag ≠ tag)
    (hok : FlushOk s (.worker w choice)) :
    FlushCore (s.after w e) where
  map := worker_mapInv hs.map hw h
  kinds := by
    intro x hx
    rcases mem_workers h hx with rfl | rfl | ⟨j, -, hj⟩
    · exact move_kindOk h (hs.kinds pc (mem_of_getElem? hw))
    · trivial
    · exact hs.kinds x (mem_of_getElem? hj)
  distinct := fun _ _ => hs.move_distinct hw h hclient
  closed := fun _ hch _ => hs.move_closed hw h hch
  waiting := fun _ _ hx _ => hs.move_waiting hw h hok hx
  flushed := fun _ hx _ => hs.move_flushed hw h hok hx
  wrote := fun _ _ hev _ => hs.move_wrote hw h hev
  ordered := hs.move_ordered hw h

omit hs hw h in
theorem step_flushCore (hs : FlushCore s)
    (hclient : ∀ w tag kind, l = .worker w (.frame tag kind) → ∀ r, s.Pending r → r.tag ≠ tag) (hok : FlushOk s l)
    (h : step maxInflight s l = some s') : FlushCore s' := by
  have hmap := step_mapInv hs.map h
  cases l with
  | worker w choice =>
    obtain ⟨pc, e, hw, hmove, rfl⟩ := step_worker.1 h
    exact worker_flushCore hs hw hmove (fun tag kind hc => hclient w tag kind (hc ▸ rfl)) hok
  | close | cleanupClunk =>
    cases h
    exact { hs with map := hmap }
  | cleanupWait =>
    simp only [step] at h
    split at h <;> cases h
    · exact hs
    · refine { hs with
        map := hmap
        closed := fun ch hch r hr => hs.closed ch hch r ?_
        waiting := fun fl ch hx r hfl hr => register_get (hs.waiting fl ch hx r hfl hr) }
      have hlt := getElem?_eq_getElem (hs.map.closedOld ch hch)
      rw [hlt, ← hr]
      exact (register_get hlt).symm

omit hs hw h in
theorem step_flushInv (hs : FlushInv s) (hok : clientOk s l ∧ FlushOk s l ∧ DrainOk s l)
    (h : step maxInflight s l = some s') : FlushInv s' := by
  obtain ⟨hclient, hflush, hd⟩ := hok
  refine (step_flushCore hs.core (fun w tag kind hl r hr => ?_) hflush h).flushInv (step_versionInv hs.version hd h)
  subst hl
  exact hs.tag_ne hclient hr

end Step

/-- **Rflush comes after the response.**  In every run whose client never uses an outstanding tag, in which the map
knows the requests that each Tflush is for and, when a drain ends, all unanswered ones: if `fl` was read after `r` and
names its tag, the response to `fl` is not written before the response to `r`. -/
theorem rflush_after_response (maxInflight : Int) (ls : List Label) (s : State)
    (hclient : Meets (step maxInflight) (fun s l => clientOk s l) init ls)
    (hok : Meets (step maxInflight) (fun s l => FlushOk s l ∧ DrainOk s l) init ls)
    (h : run (step maxInflight) init ls = some s) (post pre : List Event) (r : Req) (f : RFrame)
    (hlog : s.log = post ++ .wrote r f :: pre) (fl : Req) (g : RFrame) (hkind : fl.kind = .flush r.tag)
    (hid : r.id < fl.id) : .wrote fl g ∉ pre := by
  have hs : FlushInv s := run_inv_of_meets step_flushInv
    (init_flushCore.flushInv init_versionInv) (hclient.and hok) h
  intro hfl
  have hordered := hs.ordered
  rw [hlog, pairwise_append] at hordered
  exact rel_of_pairwise_cons hordered.2.1 hfl fl g r f rfl rfl ⟨hkind, hid⟩

/-- Worker 0 handles a request; worker 1 reads a Tflush for it and waits. -/
def waitingRun : List Label :=
  [.worker 0 .go, .worker 0 .go, .worker 0 (.frame 1 .other), .worker 0 .go,
    .worker 1 .go, .worker 1 .go, .worker 1 (.frame 2 (.flush 1)), .worker 1 .go,
    .worker 0 .respond, .worker 0 .go, .worker 0 (.write .ok), .worker 0 .go, .worker 0 .go,
    .worker 1 .wake, .worker 1 (.write .ok)]

theorem rflush_after_response_waiting :
    ∃ s, run (step 2) init waitingRun = some s ∧
      s.log = [.wrote ⟨1, 2, .flush 1⟩ ⟨2, .rflush⟩, .wrote ⟨0, 1, .other⟩ ⟨1, .reply⟩, .read ⟨1, 2, .flush 1⟩,
        .read ⟨0, 1, .other⟩] ∧
      .wrote ⟨1, 2, .flush 1⟩ ⟨2, .rflush⟩ ∉ [Event.read ⟨1, 2, .flush 1⟩, .read ⟨0, 1, .other⟩] :=
  ⟨_, rfl, rfl, rflush_after_response 2 waitingRun _ (by decide) (by decide) rfl
    [.wrote ⟨1, 2, .flush 1⟩ ⟨2, .rflush⟩] _ ⟨0, 1, .other⟩ ⟨1, .reply⟩ rfl ⟨1, 2, .flush 1⟩ ⟨2, .rflush⟩ rfl
    (by decide)⟩

/-- Worker 0 has read a request and not started it when worker 1 reads a Tflush for it and answers that. -/
def earlyFlushRun : List Label :=
  [.worker 0 .go, .worker 0 .go, .worker 0 (.frame 1 .other),
    .worker 1 .go, .worker 1 .go, .worker 1 (.frame 2 (.flush 1)), .worker 1 .go, .worker 1 (.write .ok),
    .worker 0 .go, .worker 0 .respond, .worker 0 .go, .worker 0 (.write .ok)]

theorem rflush_overtakes :
    Meets (step 2) (fun s l => clientOk s l) init earlyFlushRun ∧
      ∃ s, run (step 2) init earlyFlushRun = some s ∧
        s.log = [.wrote ⟨0, 1, .other⟩ ⟨1, .reply⟩, .wrote ⟨1, 2, .flush 1⟩ ⟨2, .rflush⟩, .read ⟨1, 2, .flush 1⟩,
          .read ⟨0, 1, .other⟩] :=
  ⟨by decide, _, rfl, rfl⟩

end NineP.Server.Conn
