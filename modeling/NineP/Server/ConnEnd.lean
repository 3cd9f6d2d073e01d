import NineP.Server.ConnMap

/-!
# What a request leaves behind

`dispatchInline` ends after a response, without one, after a panic in the handler, or after a panic while the response
is encoded.  The last happens when `finished` is already set and `completeCommit` is not called.
-/

namespace NineP.Server.Conn

open Proto Transition Option List

variable {maxInflight : Int} {w : Nat} {pc : Pc} {choice : Choice} {e : Effect} {r : Req} {ch : Chan} {s : State}

/-! ## Dispatching -/

/-- The request of a worker in `dispatchInline`, up to the close of its channel. -/
def Pc.dispatches : Pc → Option Req
  | .handling r | .responding r | .committed r | .answered r | .panicked r _ | .finishing r => some r
  | _ => none

/-- Worker `w` is in `dispatchInline` for `r`. -/
def State.Dispatching (s : State) (w : Nat) (r : Req) : Prop :=
  ∃ pc, s.workers[w]? = some pc ∧
    (pc.dispatches = some r ∨ ∃ ch, pc = .closing ch ∧ s.shared.chans[ch]? = some (some r))

/-- The map has no entry of `r`, it counts its entries, and the channels that announce the end of `r` are closed. -/
structure NoResidue (s : State) (r : Req) : Prop where
  entry : ∀ t entry, s.shared.inflight.get t = some entry → entry.rctx ≠ some r
  counted : s.shared.inflight.Counted
  released : ∀ ch, s.shared.chans[ch]? = some (some r) → ch ∈ s.shared.closed

theorem Pc.req_of_dispatches (h : pc.dispatches = some r) : pc.req = some r := by
  cases pc <;> first | exact h | cases h

/-! ## The channel of a request -/

def Shared.Announces (c : Shared) (r : Req) (ch : Chan) : Prop :=
  ∃ entry, c.inflight.get r.tag = some entry ∧ entry.rctx = some r ∧ entry.done = some ch

section Moves

variable {c : Shared}

theorem release_closing (ch : Chan) (x : Option Chan × InflightMap Req) :
    (release c (some ch, x)).pc = .closing ch := rfl

theorem Shared.Announces.of_get {c' : Shared} (h : c.Announces r ch)
    (hget : c'.inflight.get r.tag = c.inflight.get r.tag) : c'.Announces r ch := by
  obtain ⟨entry, hentry, hrest⟩ := h
  exact ⟨entry, hget.trans hentry, hrest⟩

/-- The channel of an entry stays there until it is closed, or until it is handed to the worker that closes it. -/
theorem move_announces (howner : ∀ r, pc.owner = some r → c.Owned r) (h : move maxInflight c w pc choice = some e)
    (hr : c.Announces r ch) :
    e.shared.Announces r ch ∨ ch ∈ e.shared.closed ∨ e.pc = .closing ch := by
  obtain ⟨entry, hget, hrctx, hdone⟩ := id hr
  cases move_moves h with
  | @flushNew _ oldTag old _ hold hnone =>
    refine .inl (hr.of_get ((InflightMap.get_set _ _ _ _).trans (if_neg fun ht => ?_)))
    subst ht
    obtain rfl := mem_unique hget hold
    exact absurd (hnone.symm.trans hdone) (by simp)
  | @start q done _ _ hstart =>
    obtain ⟨hnew, -, hold⟩ := InflightMap.start_eq hstart
    by_cases ht : r.tag = q.tag
    · rw [← ht, hget] at hold
      obtain ⟨hold, -⟩ | ⟨old, hold, -, rfl⟩ := hold
      · cases hold
      · cases hold
        exact .inr (.inl (by simp [hdone]))
    · exact .inl (hr.of_get ((hnew _).trans (if_neg ht)))
  | @commit q =>
    by_cases ht : r.tag = q.tag
    · refine .inl ⟨{ entry with committed := true }, ?_, hrctx, hdone⟩
      simp [InflightMap.commit, InflightMap.get_set, ← ht, hget]
    · exact .inl (hr.of_get ((InflightMap.get_set _ _ _ _).trans (if_neg ht)))
  | @complete q =>
    obtain heq | ⟨old, hold, -, heq⟩ := completeCommit_cases c.inflight q
    · rw [heq]
      exact .inl hr
    · rw [heq]
      by_cases ht : r.tag = q.tag
      · rw [← ht] at hold
        obtain rfl := mem_unique hget hold
        rw [hdone]
        exact .inr (.inr (release_closing ch _))
      · exact .inl (hr.of_get ((InflightMap.delete_get _ _ _).trans (if_neg ht)))
  | @finish q =>
    obtain ⟨old, hold, -, -⟩ := howner q rfl
    rw [remove_eq hold]
    by_cases ht : r.tag = q.tag
    · rw [← ht] at hold
      obtain rfl := mem_unique hget hold
      rw [hdone]
      exact .inr (.inr (release_closing ch _))
    · exact .inl (hr.of_get ((InflightMap.delete_get _ _ _).trans (if_neg ht)))
  | drain hdrain =>
    have hentries := (InflightMap.drainChan_eq hdrain).1
    exact .inl (hr.of_get (by simp only [InflightMap.get, hentries]))
  | unknown _ hsend | rflush hsend | reply hsend | panicLate hsend | panicEarly hsend =>
    obtain ⟨_, -, rfl⟩ | ⟨-, rfl⟩ := send_eq hsend <;> exact .inl hr
  | _ => exact .inl hr

theorem MapMove.closed_mono (h : MapMove c pc e) (hch : ch ∈ c.closed) : ch ∈ e.shared.closed := by
  cases h with
  | keep _ _ hclosed => exact hclosed ▸ hch
  | closeDone => exact mem_cons_of_mem _ hch
  | flush | commit | drain => exact hch
  | start | delete => exact mem_append_right _ hch

theorem MapMove.announces_new (h : MapMove c pc e)
    (hentry : ∀ t entry, c.inflight.get t = some entry → ∃ r, entry.rctx = some r ∧ r.tag = t)
    (hch : e.shared.chans[ch]? = some (some r)) (hnew : c.chans.length ≤ ch) : e.shared.Announces r ch := by
  have hlast {x : Option Req} (hx : (c.chans ++ [x])[ch]? = some (some r)) : ch = c.chans.length ∧ x = some r := by
    rw [getElem?_append_right hnew, getElem?_singleton] at hx
    obtain ⟨h0, hx⟩ : ch - c.chans.length = 0 ∧ x = some r := by simpa using hx
    exact ⟨Nat.le_antisymm (Nat.sub_eq_zero_iff_le.1 h0) hnew, hx⟩
  have hold (hx : c.chans[ch]? = some (some r)) : False := by
    have := getElem?_lt hx
    omega
  cases h with
  | keep _ hchans => exact (hold (hchans ▸ hch)).elim
  | @flush _ oldTag entry hget =>
    obtain ⟨rfl, hr⟩ := hlast hch
    obtain ⟨q, hq, htag⟩ := hentry _ _ hget
    obtain rfl := mem_unique hq hr
    exact ⟨_, (InflightMap.get_set _ _ _ _).trans (if_pos htag), hr, rfl⟩
  | drain =>
    obtain ⟨-, hr⟩ := hlast hch
    cases hr
  | closeDone | start | commit | delete => exact (hold hch).elim

end Moves

/-! ## The invariant -/

structure EndInv (s : State) : Prop where
  map : MapInv s
  /-- A channel is closed, or a worker is about to close it, or it is in its request's entry. -/
  chans : ∀ ch r, s.shared.chans[ch]? = some (some r) →
    ch ∈ s.shared.closed ∨ Pc.closing ch ∈ s.workers ∨ s.shared.Announces r ch
  /-- A worker closes the channel of `r`: the entry of `r` is gone. -/
  gone : ∀ (w : Nat) (ch : Chan) (r : Req), s.workers[w]? = some (.closing ch) → s.shared.chans[ch]? = some (some r) →
    ∀ t entry, s.shared.inflight.get t = some entry → entry.rctx ≠ some r
  /-- And no other worker has to do with `r`. -/
  alone : ∀ (w : Nat) (ch : Chan) (r : Req), s.workers[w]? = some (.closing ch) → s.shared.chans[ch]? = some (some r) →
    ∀ (j : Nat) (pc : Pc), j ≠ w → s.workers[j]? = some pc →
      pc.req ≠ some r ∧ ∀ ch', pc = .closing ch' → s.shared.chans[ch']? ≠ some (some r)

theorem init_endInv : EndInv init where
  map := init_mapInv
  chans := by simp [init]
  gone := by simp [init]
  alone := by simp [init]

section Step

theorem move_req (h : move maxInflight s.shared w pc choice = some e) (hr : e.pc.req = some r) :
    pc.req = some r ∨ r.id = s.shared.nextId := by
  cases move_log h with
  | quiet _ hreq =>
    rcases hreq with hreq | hreq
    · exact .inl (hreq.symm.trans hr)
    · rw [hreq] at hr
      cases hr
  | wrote hpending _ hreq | ended hpending _ hreq =>
    rcases hreq with hreq | hreq
    · exact .inl ((Pc.req_of_pending hpending).trans (hreq.symm.trans hr))
    · rw [hreq] at hr
      cases hr
  | read _ hnext _ hid =>
    rcases hnext with hnext | ⟨hnext, -⟩ <;> rw [hnext] at hr <;> cases hr <;> exact .inr hid

theorem register_none {ch x : Chan}
    (h : (register chans ch none)[x]? = some (some r)) : chans[x]? = some (some r) := by
  unfold register at h
  split at h
  · rw [getElem?_append] at h
    split at h
    · exact h
    · rw [getElem?_singleton] at h
      split at h <;> simp at h
  · exact h

section Worker

variable (hs : EndInv s) (hw : s.workers[w]? = some pc) (h : move maxInflight s.shared w pc choice = some e)
include hs hw h

variable {j : Nat}

theorem EndInv.closing_new (hpc : e.pc = .closing ch) (hr : e.shared.chans[ch]? = some (some r)) :
    pc.req = some r ∧ s.shared.Announces r ch := by
  have hm := hs.map.move_map hw h
  obtain ⟨q, entry, hreq, -, hget, hrctx, hdone⟩ := hm.closing_cases hpc
  have hq := hm.chans_get (hs.map.chansOk.done _ entry ch hget hdone)
  rw [hrctx] at hq
  obtain rfl : q = r := by simpa [hq] using hr
  exact ⟨hreq, entry, hget, hrctx, hdone⟩

theorem EndInv.closing_old (hj : s.workers[j]? = some (.closing ch)) (hr : e.shared.chans[ch]? = some (some r)) :
    s.shared.chans[ch]? = some (some r) := by
  obtain ⟨q, hq, -⟩ := hs.map.closing ch (mem_of_getElem? hj)
  have := (hs.map.move_map hw h).chans_get hq
  rw [hq]
  exact this.symm.trans hr

theorem EndInv.move_chans (hr : e.shared.chans[ch]? = some (some r)) :
    ch ∈ e.shared.closed ∨ Pc.closing ch ∈ s.workers.set w e.pc ++ e.spawned ∨ e.shared.Announces r ch := by
  have hm := hs.map.move_map hw h
  have hself : e.pc ∈ s.workers.set w e.pc ++ e.spawned :=
    mem_append_left _ (mem_set (getElem?_lt hw) _)
  by_cases hnew : s.shared.chans.length ≤ ch
  · refine .inr (.inr (hm.announces_new (fun t entry hget => ?_) hr hnew))
    obtain ⟨q, hq, htag, -⟩ := hs.map.entry t entry hget
    exact ⟨q, hq, htag⟩
  · have hlt : ch < s.shared.chans.length := Nat.lt_of_not_le hnew
    have hold : s.shared.chans[ch]? = some (some r) := by
      have := hm.chans_get (getElem?_eq_getElem hlt)
      rw [getElem?_eq_getElem hlt, ← this, hr]
    rcases hs.chans ch r hold with hclosed | hclosing | hann
    · exact .inl (hm.closed_mono hclosed)
    · obtain ⟨j, hj⟩ := mem_iff_getElem?.1 hclosing
      by_cases hjw : j = w
      · subst hjw
        obtain rfl := mem_unique hw hj
        cases move_moves h with
        | closeDone => exact .inl mem_cons_self
      · refine .inr (.inl (mem_append_left _ (mem_of_getElem? (i := j) ?_)))
        rw [getElem?_set_ne (Ne.symm hjw), hj]
    · rcases move_announces (hs.map.owned pc (mem_of_getElem? hw)) h hann with h | h | h
      · exact .inr (.inr h)
      · exact .inl h
      · exact .inr (.inl (h ▸ hself))

theorem EndInv.move_gone (hj : (s.workers.set w e.pc ++ e.spawned)[j]? = some (.closing ch))
    (hr : e.shared.chans[ch]? = some (some r))
    (hget : e.shared.inflight.get t = some entry) : entry.rctx ≠ some r := by
  have hm := hs.map.move_map hw h
  intro hrctx
  rcases getElem?_workers h hj with ⟨rfl, hpc⟩ | hpc | ⟨hne, hold⟩
  · -- the worker has just deleted the entry
    obtain ⟨q, old, -, -, -, hq, -⟩ := hm.closing_cases hpc.symm
    obtain ⟨hreq, -⟩ := hs.closing_new hw h hpc.symm hr
    cases hm with
    | keep _ _ _ _ hclosing => exact hclosing ch hpc.symm
    | @delete x old hx _ hold hxr =>
      obtain rfl := mem_unique hx hreq
      simp only [release, InflightMap.delete_get] at hget
      split at hget
      · cases hget
      · rename_i ht
        obtain ⟨y, hy, htag, -⟩ := hs.map.entry t entry hget
        obtain rfl := mem_unique hy hrctx
        exact ht htag.symm
    | closeDone | flush | start | commit | drain => cases hpc
  · cases hpc
  · have hr' := hs.closing_old hw h hold hr
    obtain ⟨old, hget', hrctx', -⟩ | ⟨q, hpc, -, -, rfl⟩ := hm.entry hget
    · exact hs.gone j ch r hold hr' t old hget' (hrctx'.symm.trans hrctx)
    · cases hrctx
      exact (hs.alone j ch r hold hr' w pc (Ne.symm hne) hw).1 (hpc ▸ rfl)

theorem EndInv.move_alone (hj : (s.workers.set w e.pc ++ e.spawned)[j]? = some (.closing ch))
    (hr : e.shared.chans[ch]? = some (some r)) (hkj : k ≠ j)
    (hk : (s.workers.set w e.pc ++ e.spawned)[k]? = some x) :
    x.req ≠ some r ∧ ∀ ch', x = .closing ch' → e.shared.chans[ch']? ≠ some (some r) := by
  rcases getElem?_workers h hj with ⟨rfl, hpc⟩ | hpc | ⟨hne, hold⟩
  · -- the worker that closes the channel had the request, so the others do not
    obtain ⟨hreq, -⟩ := hs.closing_new hw h hpc.symm hr
    rcases getElem?_workers h hk with ⟨rfl, -⟩ | rfl | ⟨-, hk⟩
    · exact absurd rfl hkj
    · exact ⟨nofun, nofun⟩
    · refine ⟨fun hx => hkj (hs.map.log.unique hk hw hx hreq), fun ch' hx hr' => ?_⟩
      subst hx
      exact (hs.alone k ch' r hk (hs.closing_old hw h hk hr') j pc (Ne.symm hkj) hw).1 hreq
  · cases hpc
  · have hr' := hs.closing_old hw h hold hr
    rcases getElem?_workers h hk with ⟨rfl, rfl⟩ | rfl | ⟨hkw, hk⟩
    · have halone := hs.alone j ch r hold hr' k pc hkj hw
      refine ⟨fun hx => ?_, fun ch' hx hr'' => ?_⟩
      · rcases move_req h hx with hreq | hid
        · exact halone.1 hreq
        · have := hs.map.log.ids r (hs.map.chanRead r (mem_of_getElem? hr'))
          omega
      · exact halone.1 (hs.closing_new hw h hx hr'').1
    · exact ⟨nofun, nofun⟩
    · have halone := hs.alone j ch r hold hr' k x hkj hk
      refine ⟨halone.1, fun ch' hx hr'' => ?_⟩
      subst hx
      exact halone.2 ch' rfl (hs.closing_old hw h hk hr'')

theorem worker_endInv : EndInv (s.after w e) where
  map := worker_mapInv hs.map hw h
  chans := fun _ _ => hs.move_chans hw h
  gone := fun _ _ _ hj hr _ _ => hs.move_gone hw h hj hr
  alone := fun _ _ _ hj hr _ _ => hs.move_alone hw h hj hr

end Worker

theorem step_endInv (hs : EndInv s) (h : step maxInflight s l = some s') : EndInv s' := by
  have hmap := step_mapInv hs.map h
  cases l with
  | worker w choice =>
    obtain ⟨pc, e, hw, hmove, rfl⟩ := step_worker.1 h
    exact worker_endInv hs hw hmove
  | close | cleanupClunk =>
    cases h
    exact { hs with map := hmap }
  | cleanupWait =>
    simp only [step] at h
    split at h <;> cases h
    · exact hs
    · rename_i ch im hdrain
      have hget (t : Tag) : im.get t = s.shared.inflight.get t := by
        simp only [InflightMap.get, (InflightMap.drainChan_eq hdrain).1]
      refine ⟨hmap, fun x r hx => ?_, fun w x r hw hx t entry hentry => ?_, fun w x r hw hx j pc hj hpc => ?_⟩
      · exact (hs.chans x r (register_none hx)).imp_right (.imp_right (·.of_get (hget _)))
      · exact hs.gone w x r hw (register_none hx) t entry (hget t ▸ hentry)
      · obtain ⟨hreq, hclosing⟩ := hs.alone w x r hw (register_none hx) j pc hj hpc
        exact ⟨hreq, fun y hy hr => hclosing y hy (register_none hr)⟩

end Step

/-! ## The end of `dispatchInline` -/

theorem MapInv.delete_gone (hs : MapInv s) {t : Tag} {entry : InflightEntry Req}
    (hget : ((s.shared.inflight.delete r.tag).2).get t = some entry) : entry.rctx ≠ some r := by
  intro hrctx
  rw [InflightMap.delete_get] at hget
  split at hget
  · cases hget
  · rename_i ht
    obtain ⟨q, hq, htag, -⟩ := hs.entry t entry hget
    obtain rfl := mem_unique hq hrctx
    exact ht htag.symm

/-- A worker that returns from `dispatchInline` has taken the entry of its request out of the map, unless the encoding
panicked. -/
theorem EndInv.return_gone (hs : EndInv s) (hw : s.workers[w]? = some pc)
    (h : move maxInflight s.shared w pc choice = some e)
    (hr : pc.dispatches = some r ∨ ∃ ch, pc = .closing ch ∧ s.shared.chans[ch]? = some (some r)) (hend : e.pc = .loop)
    (hpanic : pc ≠ .panicked r true)
    (hget : e.shared.inflight.get t = some entry) : entry.rctx ≠ some r := by
  cases move_moves h with
  | @complete q =>
    obtain rfl : q = r := by simpa [Pc.dispatches] using hr
    obtain heq | ⟨old, -, -, heq⟩ := completeCommit_cases s.shared.inflight q
    · -- nothing was deleted, so the entry under the tag is not that of the request
      intro hrctx
      rw [heq] at hget
      obtain ⟨x, hx, htag, -⟩ := hs.map.entry t entry hget
      obtain rfl := mem_unique hx hrctx
      have hget : s.shared.inflight.get x.tag = some entry := htag ▸ hget
      have hdelete : s.shared.inflight.completeCommit x.tag x = (entry.done, s.shared.inflight.delete x.tag) := by
        simp [InflightMap.completeCommit, hget, hrctx]
      have hnone := InflightMap.delete_get s.shared.inflight x.tag x.tag
      rw [← (Prod.mk.inj (heq.symm.trans hdelete)).2, if_pos rfl] at hnone
      exact absurd (hget.symm.trans hnone) (by simp)
    · rw [heq] at hget
      exact hs.map.delete_gone hget
  | @finish q =>
    obtain rfl : q = r := by simpa [Pc.dispatches] using hr
    exact hs.map.delete_gone hget
  | @closeDone ch =>
    obtain ⟨ch', hpc, hch⟩ := hr.resolve_left (by simp [Pc.dispatches])
    obtain rfl := Pc.closing.inj hpc
    exact hs.gone w ch r hw hch t entry hget
  | @panicLate q =>
    obtain rfl : q = r := by simpa [Pc.dispatches] using hr
    exact absurd rfl hpanic
  | panicEarly hsend | reply hsend =>
    rw [send_pc hsend] at hend
    cases hend
  | bind | unbind | respond | silent | panic | commit | encodePanic => cases hend
  | _ => simp [Pc.dispatches] at hr

theorem EndInv.not_closing (hs : EndInv s) (hw : s.workers[w]? = some pc)
    (hr : pc.dispatches = some r ∨ ∃ ch, pc = .closing ch ∧ s.shared.chans[ch]? = some (some r))
    (hjw : j ≠ w) (hj : s.workers[j]? = some (.closing ch)) : s.shared.chans[ch]? ≠ some (some r) := by
  intro hch
  obtain ⟨hreq, hclosing⟩ := hs.alone j ch r hj hch w pc (Ne.symm hjw) hw
  rcases hr with hr | ⟨ch', rfl, hch'⟩
  · exact hreq (Pc.req_of_dispatches hr)
  · exact hclosing ch' rfl hch'

/-- **A request leaves nothing behind.**  Whenever a worker returns from `dispatchInline`, other than after a panic of
the encoding, its request has no entry in the map and is not counted there, and whoever waits for it is released. -/
theorem dispatch_no_residue (maxInflight : Int) (ls : List Label) (s s' : State) (w : Nat) (choice : Choice) (r : Req)
    (h : run (step maxInflight) init ls = some s) (hstep : step maxInflight s (.worker w choice) = some s')
    (hr : s.Dispatching w r) (hend : s'.workers[w]? = some .loop)
    (hpanic : s.workers[w]? ≠ some (.panicked r true)) : NoResidue s' r := by
  have hs : EndInv s := run_inv step_endInv init_endInv h
  have hs' : EndInv s' := step_endInv hs hstep
  obtain ⟨pc, hpc, hr⟩ := hr
  obtain ⟨pc', e, hw, hmove, rfl⟩ := step_worker.1 hstep
  obtain rfl := mem_unique hpc hw
  have hlen := getElem?_lt hw
  have hend : e.pc = .loop := by
    rw [getElem?_append_left (by simpa using hlen), getElem?_set_self hlen] at hend
    exact Option.some.inj hend
  have hgone : ∀ t entry, e.shared.inflight.get t = some entry → entry.rctx ≠ some r := fun t entry =>
    hs.return_gone hw hmove hr hend fun hp => hpanic (hp ▸ hw)
  refine ⟨hgone, hs'.map.counted, fun ch hch => ?_⟩
  rcases hs'.chans ch r hch with hclosed | hclosing | ⟨entry, hget, hrctx, -⟩
  · exact hclosed
  · obtain ⟨j, hj⟩ := mem_iff_getElem?.1 hclosing
    rcases getElem?_workers hmove hj with ⟨-, hj⟩ | hj | ⟨hjw, hj⟩
    · rw [hend] at hj
      cases hj
    · cases hj
    · exact absurd (hs.closing_old hw hmove hj hch) (hs.not_closing hw hr hjw hj)
  · exact absurd hrctx (hgone _ entry hget)

/-- Worker 0 handles a request for which worker 1 has a Tflush, and has closed the channel. -/
def flushedEnd : List Label :=
  [.worker 0 .go, .worker 0 .go, .worker 0 (.frame 1 .other), .worker 0 .go,
    .worker 1 .go, .worker 1 .go, .worker 1 (.frame 2 (.flush 1)), .worker 1 .go,
    .worker 0 .panic, .worker 0 (.write .ok), .worker 0 .go]

theorem dispatch_no_residue_panic :
    ∃ s s', run (step 2) init flushedEnd = some s ∧ step 2 s (.worker 0 .go) = some s' ∧
      s'.workers[0]? = some .loop ∧ NoResidue s' ⟨0, 1, .other⟩ :=
  ⟨_, _, rfl, rfl, rfl, dispatch_no_residue 2 flushedEnd _ _ 0 .go ⟨0, 1, .other⟩ rfl rfl
    ⟨.closing 0, rfl, .inr ⟨0, rfl, rfl⟩⟩ rfl (by decide)⟩

/-- The response of worker 0 panics when it is encoded, while worker 1 waits with a Tflush for the request. -/
def encodePanicRun : List Label :=
  [.worker 0 .go, .worker 0 .go, .worker 0 (.frame 1 .other), .worker 0 .go,
    .worker 1 .go, .worker 1 .go, .worker 1 (.frame 2 (.flush 1)), .worker 1 .go,
    .worker 0 .respond, .worker 0 .go, .worker 0 .panic]

theorem encode_panic_residue :
    ∃ s s', run (step 2) init encodePanicRun = some s ∧ s.workers[0]? = some (.panicked ⟨0, 1, .other⟩ true) ∧
      step 2 s (.worker 0 (.write .ok)) = some s' ∧ s'.workers = [.loop, .waiting ⟨1, 2, .flush 1⟩ 0] ∧
      s'.shared.inflight.get 1 = some { rctx := some ⟨0, 1, .other⟩, done := some 0, committed := true } ∧
      s'.shared.inflight.count = 1 ∧ s'.shared.closed = [] ∧ ¬NoResidue s' ⟨0, 1, .other⟩ :=
  ⟨_, _, rfl, rfl, rfl, rfl, by decide, rfl, rfl, fun h =>
    h.entry 1 { rctx := some ⟨0, 1, .other⟩, done := some 0, committed := true } (by decide) rfl⟩

end NineP.Server.Conn
