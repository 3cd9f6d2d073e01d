import NineP.Server.ConnLog

/-!
# The workers and the in-flight map

Every request that is being handled has its entry, every entry's channel announces the end of the entry's request, and
a channel is closed by the worker of that request after it has answered.
-/

namespace NineP.Server.Conn

open Proto Transition List Option

variable {maxInflight : Int} {w : Nat} {pc : Pc} {choice : Choice} {e : Effect} {r : Req}

/-! ## What one step does -/

/-- The request whose entry in the map is the worker's own and uncommitted. -/
def Pc.owner : Pc → Option Req
  | .handling r | .responding r | .panicked r false | .finishing r => some r
  | _ => none

/-- The entry of `r`'s tag is there and belongs to `r`. -/
def Shared.Registered (c : Shared) (r : Req) : Prop := (c.inflight.get r.tag).bind (·.rctx) = some r
  deriving Decidable

/-- The uncommitted entry of `r`. -/
def Shared.Owned (c : Shared) (r : Req) : Prop :=
  ∃ e, c.inflight.get r.tag = some e ∧ e.rctx = some r ∧ e.committed = false

section Moves

variable {c : Shared} {im : InflightMap Req} {chans : List (Option Req)} {ch : Chan} {x y : Option Req}

theorem Pc.req_of_owner (h : pc.owner = some r) : pc.req = some r := by
  cases pc with
  | panicked r' finished => cases finished <;> first | exact h | cases h
  | _ => first | exact h | cases h

theorem completeCommit_cases (im : InflightMap Req) (r : Req) :
    im.completeCommit r.tag r = (none, none, im) ∨
      ∃ entry, im.get r.tag = some entry ∧ entry.rctx = some r ∧
        im.completeCommit r.tag r = (entry.done, im.delete r.tag) := by
  unfold InflightMap.completeCommit
  cases hget : im.get r.tag with
  | none => exact .inl rfl
  | some entry =>
    by_cases h : entry.rctx = some r
    · exact .inr ⟨entry, rfl, h, by simp [h]⟩
    · exact .inl (by simp [h])

theorem remove_eq (h : im.get tag = some entry) :
    im.remove tag = (entry.done, im.delete tag) := by
  simp [InflightMap.remove, h]

theorem release_closed (done : Option Chan) (x : Option Chan × InflightMap Req) :
    (release c (done, x)).shared.closed = x.1.toList ++ c.closed := rfl

/-- What a step means for the map and the channels. -/
inductive MapMove (c : Shared) (pc : Pc) : Effect → Prop
  | keep {e : Effect} (hmap : e.shared.inflight = c.inflight) (hchans : e.shared.chans = c.chans)
      (hclosed : e.shared.closed = c.closed) (howner : e.pc.owner = pc.owner ∨ e.pc.owner = none)
      (hclosing : ∀ ch, e.pc ≠ .closing ch) : MapMove c pc e
  | closeDone {ch : Chan} (hpc : pc = .closing ch) :
      MapMove c pc { pc := .loop, shared := { c with closed := ch :: c.closed } }
  | flush {r : Req} {oldTag : Tag} {entry : InflightEntry Req} (hget : c.inflight.get oldTag = some entry) :
      MapMove c pc
        { pc := .waiting r c.chans.length
          shared := { c with
            inflight := c.inflight.set oldTag { entry with done := some c.chans.length }
            chans := c.chans ++ [entry.rctx] } }
  | start {r : Req} {done : Option Chan} {im : InflightMap Req} (hpc : pc = .got r)
      (hstart : c.inflight.start r.tag r = some (done, im)) : MapMove c pc
      { pc := .handling r, shared := { c with inflight := im, closed := done.toList ++ c.closed } }
  | commit {r : Req} {entry : InflightEntry Req} (hpc : pc = .responding r)
      (hget : c.inflight.get r.tag = some entry) (hrctx : entry.rctx = some r) : MapMove c pc
      { pc := .committed r
        shared := { c with inflight := c.inflight.set r.tag { entry with committed := true } } }
  | delete {r : Req} {entry : InflightEntry Req} (hreq : pc.req = some r) (hpending : pc.pending = none)
      (hget : c.inflight.get r.tag = some entry) (hrctx : entry.rctx = some r) :
      MapMove c pc (release c (entry.done, c.inflight.delete r.tag))
  | drain {r : Req} (hpc : pc = .draining r) (hdrained : c.inflight.drained = none) : MapMove c pc
      { pc := .drainWait r c.chans.length
        shared := { c with
          inflight := { c.inflight with drained := some c.chans.length }, chans := c.chans ++ [none] } }

/-- The channels of the entries and the drain channel exist. -/
structure Shared.ChansOk (c : Shared) : Prop where
  done : ∀ t entry ch, c.inflight.get t = some entry → entry.done = some ch → c.chans[ch]? = some entry.rctx
  drained : ∀ ch, c.inflight.drained = some ch → c.chans[ch]? = some none

theorem register_of_lt {r : Option Req} (h : chans[ch]? = some x) : register chans ch r = chans := by
  have : ch < chans.length := getElem?_lt h
  exact if_neg (Nat.ne_of_lt this)

theorem drain_map (hc : c.ChansOk) (h : c.inflight.drainChan c.chans.length = (some ch, im)) : MapMove c (.draining r)
      { pc := .drainWait r ch, shared := { c with inflight := im, chans := register c.chans ch none } } := by
  unfold InflightMap.drainChan at h
  split at h
  · cases h
  · split at h <;> rename_i hd <;> obtain ⟨h1, rfl⟩ := Prod.mk.inj h <;> cases h1
    · exact .keep rfl (register_of_lt (hc.drained _ hd)) rfl (.inr rfl) (by simp)
    · rw [register, if_pos rfl]
      exact .drain rfl hd

/-- **Every step moves the map in one of seven ways.** -/
theorem move_map (hc : c.ChansOk) (howner : ∀ r, pc.owner = some r → c.Owned r)
    (h : move maxInflight c w pc choice = some e) : MapMove c pc e := by
  cases move_moves h with
  | read tag kind =>
    by_cases hk : kind = .version
    · exact .keep rfl rfl rfl (.inr (by simp [receive, hk, Pc.owner])) (by simp [receive, hk])
    · exact .keep rfl rfl rfl (.inr (by simp [receive, hk, Pc.owner])) (by simp [receive, hk])
  | unknown _ hsend | rflush hsend | reply hsend | panicLate hsend =>
    obtain ⟨_, -, rfl⟩ | ⟨-, rfl⟩ := send_eq hsend <;> exact .keep rfl rfl rfl (.inr rfl) (by simp)
  | panicEarly hsend =>
    obtain ⟨_, -, rfl⟩ | ⟨-, rfl⟩ := send_eq hsend <;> exact .keep rfl rfl rfl (.inl rfl) (by simp)
  | flushOld _ hget hdone =>
    exact .keep rfl (register_of_lt (hc.done _ _ _ hget hdone)) rfl (.inr rfl) (by simp)
  | flushNew _ hget => exact .flush hget
  | start _ hstart => exact .start rfl hstart
  | @commit r =>
    obtain ⟨entry, hget, hrctx, -⟩ := howner r rfl
    have := MapMove.commit rfl hget hrctx
    simpa [InflightMap.commit, hget] using this
  | @complete r =>
    obtain heq | ⟨entry, hget, hrctx, heq⟩ := completeCommit_cases c.inflight r
    · rw [heq]
      exact .keep rfl rfl rfl (.inr rfl) (by simp [release])
    · rw [heq]
      exact .delete rfl rfl hget hrctx
  | @finish r =>
    obtain ⟨entry, hget, hrctx, -⟩ := howner r rfl
    rw [remove_eq hget]
    exact .delete rfl rfl hget hrctx
  | closeDone => exact .closeDone rfl
  | drain hdrain => exact drain_map hc hdrain
  | bind | unbind | respond | silent | panic => exact .keep rfl rfl rfl (.inl rfl) (by simp)
  | _ => exact .keep rfl rfl rfl (.inr rfl) (by simp)

/-- An entry after a step was there before, up to its channel and the commit, or it is the new one of `start`. -/
theorem MapMove.entry (h : MapMove c pc e) {entry : InflightEntry Req}
    (hget : e.shared.inflight.get t = some entry) :
    (∃ old, c.inflight.get t = some old ∧ entry.rctx = old.rctx ∧ (old.committed = true → entry.committed = true) ∧
      (entry.done = old.done ∨ entry.done = some c.chans.length ∧ e.shared.chans = c.chans ++ [old.rctx])) ∨
    ∃ r, pc = .got r ∧ e.pc = .handling r ∧ t = r.tag ∧ entry = { rctx := some r } := by
  cases h with
  | keep hmap =>
    rw [hmap] at hget
    exact .inl ⟨entry, hget, rfl, id, .inl rfl⟩
  | closeDone | drain => exact .inl ⟨entry, hget, rfl, id, .inl rfl⟩
  | @flush _ oldTag old hold =>
    rw [InflightMap.get_set] at hget
    split at hget
    · subst t
      cases hget
      exact .inl ⟨old, hold, rfl, id, .inr ⟨rfl, rfl⟩⟩
    · exact .inl ⟨entry, hget, rfl, id, .inl rfl⟩
  | @start r _ _ hpc hstart =>
    rw [(InflightMap.start_eq hstart).1] at hget
    split at hget
    · cases hget
      exact .inr ⟨r, hpc, rfl, ‹_›, rfl⟩
    · exact .inl ⟨entry, hget, rfl, id, .inl rfl⟩
  | @commit r old hpc hold =>
    rw [InflightMap.get_set] at hget
    split at hget
    · subst t
      cases hget
      exact .inl ⟨old, hold, rfl, fun _ => rfl, .inl rfl⟩
    · exact .inl ⟨entry, hget, rfl, id, .inl rfl⟩
  | delete =>
    simp only [release, InflightMap.delete_get] at hget
    split at hget
    · cases hget
    · exact .inl ⟨entry, hget, rfl, id, .inl rfl⟩

theorem MapMove.owned_other (h : MapMove c pc e) {x : Req} (hx : c.Owned x) (hne : pc.req ≠ some x) :
    e.shared.Owned x := by
  obtain ⟨old, hold, hrctx, hcommitted⟩ := hx
  cases h with
  | keep hmap => exact ⟨old, hmap ▸ hold, hrctx, hcommitted⟩
  | closeDone | drain => exact ⟨old, hold, hrctx, hcommitted⟩
  | @flush _ oldTag entry hget =>
    by_cases ht : x.tag = oldTag
    · subst ht
      obtain rfl := mem_unique hold hget
      refine ⟨{ old with done := some c.chans.length }, ?_, hrctx, hcommitted⟩
      rw [InflightMap.get_set, if_pos rfl]
    · exact ⟨old, by rw [InflightMap.get_set, if_neg ht, hold], hrctx, hcommitted⟩
  | @start r done _ _ hstart =>
    obtain ⟨hget, -, hold'⟩ := InflightMap.start_eq hstart
    have ht : x.tag ≠ r.tag := by
      intro ht
      rw [← ht, hold] at hold'
      obtain ⟨hnone, -⟩ | ⟨entry, hentry, hc', -⟩ := hold'
      · cases hnone
      · cases hentry
        exact absurd (hcommitted.symm.trans hc') (by decide)
    exact ⟨old, by rw [hget, if_neg ht, hold], hrctx, hcommitted⟩
  | @commit r entry hpc hget hr =>
    have ht : x.tag ≠ r.tag := by
      intro ht
      rw [← ht, hold] at hget
      cases hget
      exact hne (by rw [hpc, ← hrctx, hr]; rfl)
    exact ⟨old, by rw [InflightMap.get_set, if_neg ht, hold], hrctx, hcommitted⟩
  | @delete r entry hreq _ hget hr =>
    have ht : x.tag ≠ r.tag := by
      intro ht
      rw [← ht, hold] at hget
      cases hget
      exact hne (by rw [hreq, ← hrctx, hr])
    exact ⟨old, by simp only [release]; rw [InflightMap.delete_get, if_neg ht, hold], hrctx, hcommitted⟩

theorem MapMove.owned_self (h : MapMove c pc e) (howner : ∀ r, pc.owner = some r → c.Owned r) {x : Req}
    (hx : e.pc.owner = some x) : e.shared.Owned x := by
  cases h with
  | keep hmap _ _ ho =>
    rcases ho with ho | ho
    · obtain ⟨old, hold, hrest⟩ := howner x (ho ▸ hx)
      exact ⟨old, hmap ▸ hold, hrest⟩
    · rw [ho] at hx
      cases hx
  | @start r _ _ _ hstart =>
    cases hx
    exact ⟨_, by rw [(InflightMap.start_eq hstart).1, if_pos rfl], rfl, rfl⟩
  | @delete r entry =>
    simp only [release] at hx
    split at hx <;> cases hx
  | closeDone | flush | commit | drain => cases hx

theorem MapMove.chans_cases (h : MapMove c pc e) :
    e.shared.chans = c.chans ∨
      ∃ x, e.shared.chans = c.chans ++ [x] ∧ (x = none ∨ ∃ t entry, c.inflight.get t = some entry ∧ entry.rctx = x) := by
  cases h with
  | keep _ hchans => exact .inl hchans
  | flush hget => exact .inr ⟨_, rfl, .inr ⟨_, _, hget, rfl⟩⟩
  | drain => exact .inr ⟨none, rfl, .inl rfl⟩
  | closeDone | start | commit | delete => exact .inl rfl

theorem getElem?_concat_of_some (hx : chans[ch]? = some x) : (chans ++ [y])[ch]? = some x := by
  rw [getElem?_append_left (getElem?_lt hx), hx]

theorem register_get (hx : chans[ch]? = some x) : (register chans ch' y)[ch]? = some x := by
  unfold register
  split
  · exact getElem?_concat_of_some hx
  · exact hx

section

variable (h : MapMove c pc e)
include h

theorem MapMove.chans_get (hx : c.chans[ch]? = some x) : e.shared.chans[ch]? = some x := by
  obtain hchans | ⟨y, hchans, -⟩ := h.chans_cases
  · rw [hchans, hx]
  · rw [hchans, getElem?_concat_of_some hx]

/-- Who closes a channel: the worker that has to, `start` for a committed entry, or the end of a drain. -/
theorem MapMove.closed_cases (hch : ch ∈ e.shared.closed) :
    ch ∈ c.closed ∨ pc = .closing ch ∨
      (∃ r entry, pc = .got r ∧ e.pc = .handling r ∧ c.inflight.get r.tag = some entry ∧ entry.committed = true ∧
        entry.done = some ch) ∨
      c.inflight.drained = some ch ∧ e.shared.inflight.drained = none := by
  cases h with
  | keep _ _ hclosed => exact .inl (hclosed ▸ hch)
  | closeDone hpc =>
    rcases mem_cons.1 hch with rfl | hch
    · exact .inr (.inl hpc)
    · exact .inl hch
  | flush | commit | drain => exact .inl hch
  | @start r done _ hpc hstart =>
    rcases mem_append.1 hch with hch | hch
    · obtain ⟨-, -, hold⟩ := InflightMap.start_eq hstart
      obtain ⟨-, rfl⟩ | ⟨entry, hget, hcommitted, rfl⟩ := hold
      · cases hch
      · exact .inr (.inr (.inl ⟨r, entry, hpc, rfl, hget, hcommitted, mem_toList.1 hch⟩))
    · exact .inl hch
  | @delete r entry =>
    obtain ⟨-, ⟨-, hd, hnone⟩ | ⟨-, hd, -⟩⟩ := InflightMap.delete_eq c.inflight r.tag
    · rw [release_closed, hd, mem_append, mem_toList] at hch
      exact hch.elim (fun hch => .inr (.inr (.inr ⟨hch, hnone⟩))) .inl
    · rw [release_closed, hd] at hch
      exact .inl hch

theorem MapMove.closing_cases (hch : e.pc = .closing ch) :
    ∃ r entry, pc.req = some r ∧ pc.pending = none ∧ c.inflight.get r.tag = some entry ∧ entry.rctx = some r ∧
      entry.done = some ch := by
  cases h with
  | keep _ _ _ _ hclosing => exact absurd hch (hclosing ch)
  | @delete r entry hreq hpending hget hrctx =>
    simp only [release] at hch
    split at hch
    · rename_i hdone
      obtain rfl := Pc.closing.inj hch
      exact ⟨r, entry, hreq, hpending, hget, hrctx, hdone⟩
    · cases hch
  | closeDone | flush | start | commit | drain => cases hch

theorem MapMove.drained_cases (hch : e.shared.inflight.drained = some ch) :
    c.inflight.drained = some ch ∨ ch = c.chans.length ∧ e.shared.chans = c.chans ++ [none] := by
  cases h with
  | keep hmap => exact .inl (hmap ▸ hch)
  | closeDone | flush | commit => exact .inl hch
  | start _ hstart => exact .inl ((InflightMap.start_eq hstart).2.1 ▸ hch)
  | @delete r =>
    obtain ⟨-, ⟨-, -, hnone⟩ | ⟨-, -, hsame⟩⟩ := InflightMap.delete_eq c.inflight r.tag
    · exact absurd (hnone.symm.trans hch) (by simp)
    · exact .inl (hsame ▸ hch)
  | drain => exact .inr ⟨(Option.some.inj hch).symm, rfl⟩

theorem MapMove.counted (hc : c.inflight.Counted) : e.shared.inflight.Counted := by
  cases h with
  | keep hmap => exact hmap ▸ hc
  | closeDone | drain => exact hc
  | flush hget | commit _ hget => exact hc.set hget _
  | start _ hstart => exact hc.start hstart
  | delete _ _ hget => exact hc.delete hget

end

end Moves

/-! ## The invariant -/

/-- Some worker has yet to answer `r`. -/
def State.Pending (s : State) (r : Req) : Prop := ∃ pc ∈ s.workers, pc.pending = some r

structure MapInv (s : State) : Prop where
  log : LogInv s
  chansOk : s.shared.ChansOk
  owned : ∀ pc ∈ s.workers, ∀ r, pc.owner = some r → s.shared.Owned r
  entry : ∀ t entry, s.shared.inflight.get t = some entry →
    ∃ r, entry.rctx = some r ∧ r.tag = t ∧ .read r ∈ s.log ∧ .got r ∉ s.workers
  chanRead : ∀ r, some r ∈ s.shared.chans → .read r ∈ s.log
  /-- A channel is about to be closed: its request has been answered. -/
  closing : ∀ ch, .closing ch ∈ s.workers → ∃ r, s.shared.chans[ch]? = some (some r) ∧ ¬s.Pending r
  closedOld : ∀ ch ∈ s.shared.closed, ch < s.shared.chans.length
  drainedOpen : ∀ ch, s.shared.inflight.drained = some ch → ch ∉ s.shared.closed
  counted : s.shared.inflight.Counted

theorem init_mapInv : MapInv init where
  log := init_logInv
  chansOk := ⟨fun _ _ _ h => (by cases h), fun _ h => (by cases h)⟩
  owned := by simp [init, Pc.owner]
  entry := fun t entry h => by cases h
  chanRead := by simp [init]
  closing := by simp [init]
  closedOld := by simp [init]
  drainedOpen := by simp [init]
  counted := rfl

section Step

variable {s : State}

theorem LogInv.unique (hs : LogInv s) {i j : Nat} (hi : s.workers[i]? = some x) (hj : s.workers[j]? = some y)
    (hx : x.req = some r) (hy : y.req = some r) : i = j :=
  eq_of_countP_le_one (p := fun pc : Pc => pc.req = some r) (Nat.le_trans (hs.held r) (hs.once r)) hi hj
    (by simp [hx]) (by simp [hy])

theorem LogInv.read_of_req (hs : LogInv s) (hx : x ∈ s.workers) (hr : x.req = some r) : .read r ∈ s.log := by
  have hpos : 0 < s.workers.countP (·.req = some r) := countP_pos_iff.2 ⟨x, hx, by simp [hr]⟩
  exact count_pos_iff.1 (Nat.lt_of_lt_of_le hpos (hs.held r))

theorem move_pending (h : move maxInflight s.shared w pc choice = some e) (hr : e.pc.pending = some r) :
    pc.pending = some r ∨
      ∃ tag kind, pc = .locked ∧ choice = .frame tag kind ∧ r = ⟨s.shared.nextId, tag, kind⟩ := by
  cases move_moves h with
  | read tag kind =>
    refine .inr ⟨tag, kind, rfl, rfl, ?_⟩
    rw [receive_pc] at hr
    split at hr <;> exact (Option.some.inj hr).symm
  | unknown _ hsend | rflush hsend | reply hsend | panicLate hsend | panicEarly hsend =>
    rw [send_pc hsend] at hr
    cases hr
  | complete | finish => obtain hpc | ⟨ch, hpc⟩ := release_pc _ <;> rw [hpc] at hr <;> cases hr
  | undecodable | duplicate | cancelFlush | timeoutFlush | silent | limited | timeoutDrain | rversion | reject =>
    cases hr
  | _ => exact .inl hr

theorem move_got (h : move maxInflight s.shared w pc choice = some e) (hr : e.pc = .got r) :
    r.id = s.shared.nextId := by
  cases move_moves h with
  | read tag kind =>
    rw [receive_pc] at hr
    split at hr
    · cases hr
    · obtain rfl := Pc.got.inj hr
      rfl
  | unknown _ hsend | rflush hsend | reply hsend | panicLate hsend | panicEarly hsend =>
    rw [send_pc hsend] at hr
    cases hr
  | complete | finish => obtain hpc | ⟨ch, hpc⟩ := release_pc _ <;> rw [hpc] at hr <;> cases hr
  | _ => cases hr

theorem step_reads (h : step maxInflight s l = some s') :
    (s'.shared.nextId = s.shared.nextId ∧ ∀ r, .read r ∈ s'.log → .read r ∈ s.log) ∨
      ∃ w tag kind, l = .worker w (.frame tag kind) ∧ s'.shared.nextId = s.shared.nextId + 1 ∧
        ∀ r, .read r ∈ s'.log → r = ⟨s.shared.nextId, tag, kind⟩ ∨ .read r ∈ s.log := by
  obtain ⟨w, choice, pc, e, rfl, -, hmove, rfl⟩ | ⟨-, hlog, hnext⟩ := step_cases h
  · cases move_log hmove with
    | quiet _ _ hevents hrest => exact .inl ⟨hrest.2, fun r hr => by simpa [hevents] using hr⟩
    | wrote _ _ _ hevents hrest | ended _ _ _ hevents hrest =>
      exact .inl ⟨hrest.2, fun r hr => by simpa [hevents] using hr⟩
    | @read q hpc hnext hevents hr hrest =>
      have hpending : e.pc.pending = some q := by
        rcases hnext with hnext | ⟨hnext, -⟩ <;> rw [hnext] <;> rfl
      rcases move_pending hmove hpending with hold | ⟨tag, kind, -, rfl, rfl⟩
      · rw [hpc] at hold
        cases hold
      · exact .inr ⟨w, tag, kind, rfl, hrest.2, fun r hr => by simpa [hevents] using hr⟩
  · exact .inl ⟨hnext, fun r hr => hlog ▸ hr⟩

theorem step_kinds (hs : ∀ pc ∈ s.workers, pc.KindOk) (h : step maxInflight s l = some s') :
    ∀ pc ∈ s'.workers, pc.KindOk := by
  obtain ⟨w, choice, pc, e, rfl, hw, hmove, rfl⟩ | ⟨hworkers, -, -⟩ := step_cases h
  · intro x hx
    rcases mem_workers hmove hx with rfl | rfl | ⟨j, -, hj⟩
    · exact move_kindOk hmove (hs pc (mem_of_getElem? hw))
    · trivial
    · exact hs x (mem_of_getElem? hj)
  · rwa [hworkers]

theorem step_log_mono (h : step maxInflight s l = some s') (hev : ev ∈ s.log) : ev ∈ s'.log := by
  obtain ⟨w, choice, pc, e, rfl, -, -, rfl⟩ | ⟨-, hlog, -⟩ := step_cases h
  · exact mem_append_right _ hev
  · rwa [hlog]

theorem pending_cases (hw : s.workers[w]? = some pc) (h : move maxInflight s.shared w pc choice = some e)
    (hr : (s.after w e).Pending r) :
    s.Pending r ∨ ∃ tag kind, choice = .frame tag kind ∧ r = ⟨s.shared.nextId, tag, kind⟩ := by
  obtain ⟨x, hx, hpending⟩ := hr
  rcases mem_workers h hx with rfl | rfl | ⟨j, -, hj⟩
  · rcases move_pending h hpending with hp | ⟨tag, kind, -, hnew⟩
    · exact .inl ⟨pc, mem_of_getElem? hw, hp⟩
    · exact .inr ⟨tag, kind, hnew⟩
  · cases hpending
  · exact .inl ⟨x, mem_of_getElem? hj, hpending⟩

theorem pending_before (hs : LogInv s) (hw : s.workers[w]? = some pc)
    (h : move maxInflight s.shared w pc choice = some e) (hread : .read r ∈ s.log) (hr : (s.after w e).Pending r) :
    s.Pending r := by
  rcases pending_cases hw h hr with hp | ⟨tag, kind, -, rfl⟩
  · exact hp
  · exact absurd (hs.ids _ hread) (Nat.lt_irrefl _)

section Map

variable (hs : MapInv s) (hw : s.workers[w]? = some pc) (h : move maxInflight s.shared w pc choice = some e)
include hs hw h

theorem MapInv.move_map : MapMove s.shared pc e :=
  Conn.move_map hs.chansOk (hs.owned pc (mem_of_getElem? hw)) h

theorem MapInv.closed_lt (hch : ch ∈ e.shared.closed) : ch < s.shared.chans.length := by
  have hlt {x : Option Req} (hx : s.shared.chans[ch]? = some x) : ch < s.shared.chans.length :=
    (getElem?_lt hx)
  obtain hold | hpc | ⟨r, entry, -, -, hget, -, hdone⟩ | ⟨hd, -⟩ := (hs.move_map hw h).closed_cases hch
  · exact hs.closedOld ch hold
  · subst hpc
    obtain ⟨r, hr, -⟩ := hs.closing ch (mem_of_getElem? hw)
    exact hlt hr
  · exact hlt (hs.chansOk.done _ _ _ hget hdone)
  · exact hlt (hs.chansOk.drained ch hd)

theorem MapInv.move_chansOk : e.shared.ChansOk := by
  have hm := hs.move_map hw h
  refine ⟨fun t entry ch hget hdone => ?_, fun ch hch => ?_⟩
  · obtain ⟨old, hold, hrctx, -, hdone' | ⟨hdone', hchans⟩⟩ | ⟨r, -, -, -, rfl⟩ := hm.entry hget
    · rw [hrctx]
      exact hm.chans_get (hs.chansOk.done t old ch hold (hdone' ▸ hdone))
    · obtain rfl := mem_unique hdone' hdone
      rw [hchans, hrctx, getElem?_concat_length]
    · cases hdone
  · obtain hold | ⟨rfl, hchans⟩ := hm.drained_cases hch
    · exact hm.chans_get (hs.chansOk.drained ch hold)
    · rw [hchans, getElem?_concat_length]

theorem MapInv.move_entry {entry : InflightEntry Req} (hget : e.shared.inflight.get t = some entry) :
    ∃ r, entry.rctx = some r ∧ r.tag = t ∧ .read r ∈ s.log ∧ .got r ∉ s.workers.set w e.pc ++ e.spawned := by
  have hmem := mem_of_getElem? hw
  obtain ⟨old, hold, hrctx, -⟩ | ⟨r, rfl, hnext, rfl, rfl⟩ := (hs.move_map hw h).entry hget
  · obtain ⟨r, hr, htag, hread, hgot⟩ := hs.entry t old hold
    refine ⟨r, hrctx.trans hr, htag, hread, fun hx => ?_⟩
    rcases mem_workers h hx with heq | heq | ⟨j, -, hj⟩
    · have := move_got h heq.symm
      have := hs.log.ids r hread
      omega
    · cases heq
    · exact hgot (mem_of_getElem? hj)
  · refine ⟨r, rfl, rfl, hs.log.read_of_req hmem rfl, fun hx => ?_⟩
    rcases mem_workers h hx with heq | heq | ⟨j, hne, hj⟩
    · rw [hnext] at heq
      cases heq
    · cases heq
    · exact hne (hs.log.unique hj hw rfl rfl)

theorem MapInv.move_closing (hch : .closing ch ∈ s.workers.set w e.pc ++ e.spawned) :
    ∃ r, e.shared.chans[ch]? = some (some r) ∧
      ¬(s.after w e).Pending r := by
  have hm := hs.move_map hw h
  rcases mem_workers h hch with heq | heq | ⟨j, -, hj⟩
  · obtain ⟨r, entry, hreq, hpending, hget, hrctx, hdone⟩ := hm.closing_cases heq.symm
    refine ⟨r, hm.chans_get (hrctx ▸ hs.chansOk.done _ entry ch hget hdone), fun hp => ?_⟩
    -- the request is with the worker that moved, and that one has answered it
    obtain ⟨x, hx, hxp⟩ := pending_before hs.log hw h (hs.log.read_of_req (mem_of_getElem? hw) hreq) hp
    obtain ⟨j, hj⟩ := mem_iff_getElem?.1 hx
    obtain rfl := hs.log.unique hj hw (Pc.req_of_pending hxp) hreq
    obtain rfl := mem_unique hj hw
    exact absurd (hpending.symm.trans hxp) (by simp)
  · cases heq
  · obtain ⟨r, hr, hp⟩ := hs.closing ch (mem_of_getElem? hj)
    exact ⟨r, hm.chans_get hr, fun hp' =>
      hp (pending_before hs.log hw h (hs.chanRead r (mem_of_getElem? hr)) hp')⟩

theorem MapInv.move_drainedOpen (hch : e.shared.inflight.drained = some ch) : ch ∉ e.shared.closed := by
  intro hclosed
  have hm := hs.move_map hw h
  obtain hold | ⟨rfl, -⟩ := hm.drained_cases hch
  · have hnone := hs.chansOk.drained ch hold
    obtain hc | hpc | ⟨r, entry, -, -, hget, -, hdone⟩ | ⟨-, hd⟩ := hm.closed_cases hclosed
    · exact hs.drainedOpen ch hold hc
    · subst hpc
      obtain ⟨r, hr, -⟩ := hs.closing ch (mem_of_getElem? hw)
      exact absurd (hnone.symm.trans hr) (by simp)
    · obtain ⟨x, hx, -⟩ := hs.entry _ entry hget
      have hsome := hs.chansOk.done _ entry ch hget hdone
      exact absurd (hnone.symm.trans (hx ▸ hsome)) (by simp)
    · exact absurd (hd.symm.trans hch) (by simp)
  · exact absurd (hs.closed_lt hw h hclosed) (Nat.lt_irrefl _)

theorem worker_mapInv : MapInv (s.after w e) where
  log := worker_logInv hs.log hw h
  chansOk := hs.move_chansOk hw h
  owned := by
    intro x hx r hr
    rcases mem_workers h hx with rfl | rfl | ⟨j, hne, hj⟩
    · exact (hs.move_map hw h).owned_self (hs.owned pc (mem_of_getElem? hw)) hr
    · cases hr
    · exact (hs.move_map hw h).owned_other (hs.owned x (mem_of_getElem? hj) r hr) fun hreq =>
        hne (hs.log.unique hj hw (Pc.req_of_owner hr) hreq)
  entry := by
    intro t entry hget
    obtain ⟨r, hr, htag, hread, hgot⟩ := hs.move_entry hw h hget
    exact ⟨r, hr, htag, mem_append_right _ hread, hgot⟩
  chanRead := by
    intro r hr
    refine mem_append_right _ ?_
    obtain hchans | ⟨x, hchans, hx⟩ := (hs.move_map hw h).chans_cases
    · exact hs.chanRead r (hchans ▸ hr)
    · simp only [hchans, mem_append, mem_singleton] at hr
      rcases hr with hr | rfl
      · exact hs.chanRead r hr
      · obtain hx | ⟨t, entry, hget, hrctx⟩ := hx
        · cases hx
        · obtain ⟨x, hx, -, hread, -⟩ := hs.entry t entry hget
          obtain rfl := mem_unique hx hrctx
          exact hread
  closing := fun _ => hs.move_closing hw h
  closedOld := by
    intro ch hch
    have := hs.closed_lt hw h hch
    obtain hchans | ⟨x, hchans, -⟩ := (hs.move_map hw h).chans_cases
    · simp only [hchans]
      exact this
    · simp only [hchans, length_append]
      exact Nat.lt_add_right _ this
  drainedOpen := fun _ => hs.move_drainedOpen hw h
  counted := (hs.move_map hw h).counted hs.counted

end Map

theorem cleanupWait_mapInv (hs : MapInv s)
    (h : s.shared.inflight.drainChan s.shared.chans.length = (some ch, im)) :
    MapInv { s with shared := { s.shared with inflight := im, chans := register s.shared.chans ch none } } := by
  unfold InflightMap.drainChan at h
  split at h
  · cases h
  · split at h <;> rename_i hd <;> obtain ⟨h1, rfl⟩ := Prod.mk.inj h <;> cases h1
    · rw [register_of_lt (hs.chansOk.drained _ hd)]
      exact hs
    · rw [register, if_pos rfl]
      exact
        { log := ⟨hs.log.ids, hs.log.once, hs.log.balance, hs.log.held⟩
          chansOk := ⟨fun t entry ch hget hdone => getElem?_concat_of_some (hs.chansOk.done t entry ch hget hdone),
            fun ch hch => by
              cases hch
              exact getElem?_concat_length⟩
          owned := hs.owned
          entry := hs.entry
          chanRead := by simpa using hs.chanRead
          closing := fun ch hch => (hs.closing ch hch).imp fun r hr => ⟨getElem?_concat_of_some hr.1, hr.2⟩
          closedOld := fun ch hch => by
            rw [length_append]
            exact Nat.lt_add_right _ (hs.closedOld ch hch)
          drainedOpen := fun ch hch hclosed => by
            cases hch
            exact absurd (hs.closedOld _ hclosed) (Nat.lt_irrefl _)
          counted := hs.counted }

theorem step_mapInv (hs : MapInv s) (h : step maxInflight s l = some s') : MapInv s' := by
  cases l with
  | worker w choice =>
    obtain ⟨pc, e, hw, hmove, rfl⟩ := step_worker.1 h
    exact worker_mapInv hs hw hmove
  | close | cleanupClunk =>
    cases h
    exact { hs with
      log := ⟨hs.log.ids, hs.log.once, hs.log.balance, hs.log.held⟩
      chansOk := ⟨hs.chansOk.done, hs.chansOk.drained⟩ }
  | cleanupWait =>
    simp only [step] at h
    split at h <;> cases h
    · exact hs
    · exact cleanupWait_mapInv hs ‹_›

end Step

end NineP.Server.Conn
