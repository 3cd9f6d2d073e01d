import Mathlib.Data.List.Perm.Subperm
import NineP.Server.ConnFlush

/-!
# Flushes behind a full pool

A connection and the wire to it.  Some handlers return only when their own request is cancelled.  When all `maxInflight`
workers are in such handlers nobody reads, and a Tflush for one of their requests stays on the wire.
-/

namespace NineP.Server.Backpressure

open Proto Transition Conn List

/-! ## The connection and the wire -/

structure State where
  conn : Conn.State
  /-- The frames that the client has sent, in order; the first `nextId` of them were read. -/
  sent : List (Tag × Kind)
  /-- The requests whose context is cancelled. -/
  cancelled : List Req

inductive Label
  | send (tag : Tag) (kind : Kind)
  | serve (l : Conn.Label)
  deriving DecidableEq

def handled : Pc → Option Req
  | .handling r => some r
  | _ => none

def returns : Choice → Bool
  | .respond | .silent | .panic => true
  | _ => false

def contexts (im : InflightMap Req) : List Req := im.entries.entries.filterMap (·.2.rctx)

/-- The requests that a step cancels: `flushWait`, and `cancelAll` in `handleReVersion` and in `cleanup`. -/
def cancels (c : Conn.State) : Conn.Label → List Req
  | .worker w .go =>
    match c.workers[w]? with
    | some (.got ⟨_, _, .flush oldTag⟩) => ((c.shared.inflight.get oldTag).bind (·.rctx)).toList
    | some (.version _) => contexts c.shared.inflight
    | _ => []
  | .cleanupWait => contexts c.shared.inflight
  | _ => []

section Machine

variable (blocking : Req → Bool) (maxInflight : Nat)

/-- The worker is in a handler that returns only when its request is cancelled, and it is not. -/
def State.blocked (s : State) (pc : Pc) : Bool := (handled pc).any fun r => blocking r && !s.cancelled.contains r

/-- A worker reads the next frame, and no blocked handler returns. -/
def State.allows (s : State) : Conn.Label → Bool
  | .worker _ (.frame tag kind) => s.sent[s.conn.shared.nextId]? = some (tag, kind)
  | .worker w choice => !(returns choice && (s.conn.workers[w]?).any (s.blocked blocking))
  | _ => true

def step (s : State) : Label → Option State
  | .send tag kind => some { s with sent := s.sent ++ [(tag, kind)] }
  | .serve l =>
    if s.allows blocking l then
      (Conn.step maxInflight s.conn l).map fun c => { s with conn := c, cancelled := cancels s.conn l ++ s.cancelled }
    else none

end Machine

def init : State := ⟨Conn.init, [], []⟩

/-! ## The client -/

/-- A request, and not a Tflush. -/
def ordinary : Kind → Bool
  | .flush _ => false
  | _ => true

/-- Frame `i` is an ordinary request that has no response yet. -/
def State.outstanding (s : State) (i : Nat) : Bool :=
  (s.sent[i]?).any (ordinary ·.2) && !s.conn.log.any fun
    | .wrote r _ => r.id = i
    | _ => false

/-- The client sends an ordinary request only when fewer than `n` are outstanding. -/
def Keeps (n : Nat) (s : State) : Label → Prop
  | .send _ kind => ordinary kind → (List.range s.sent.length).countP s.outstanding < n
  | _ => True

instance (n : Nat) (s : State) : DecidablePred (Keeps n s)
  | .send _ kind => inferInstanceAs (Decidable (ordinary kind → _))
  | .serve _ => .isTrue trivial

/-- A Tflush for an outstanding request is unread, and all workers there can be are blocked. -/
def State.Starved (blocking : Req → Bool) (maxInflight : Nat) (s : State) : Prop :=
  (∃ f ∈ s.sent.drop s.conn.shared.nextId, ∃ i ∈ List.range s.sent.length,
      s.outstanding i ∧ (s.sent[i]?).any fun g => f.2 = .flush g.1) ∧
    s.conn.workers.countP (s.blocked blocking) = maxInflight ∧
    ∀ pc ∈ s.conn.workers, pc ≠ .gone → s.blocked blocking pc
  deriving Decidable

/-! ## What was read was sent -/

structure WireInv (n : Nat) (s : State) : Prop where
  log : LogInv s.conn
  kinds : ∀ pc ∈ s.conn.workers, pc.KindOk
  next : s.conn.shared.nextId ≤ s.sent.length
  sent : ∀ r, .read r ∈ s.conn.log → s.sent[r.id]? = some (r.tag, r.kind)
  bound : (List.range s.sent.length).countP s.outstanding ≤ n

theorem init_wireInv (n : Nat) : WireInv n init where
  log := init_logInv
  kinds := by simp [init, Conn.init, Pc.KindOk]
  next := Nat.le_refl 0
  sent := by simp [init, Conn.init]
  bound := Nat.zero_le n

section Step

variable {blocking : Req → Bool} {maxInflight n : Nat} {s : State} {l : Label}

theorem send_wireInv (hs : WireInv n s) (hkeeps : Keeps n s (.send tag kind)) :
    WireInv n { s with sent := s.sent ++ [(tag, kind)] } := by
  refine ⟨hs.log, hs.kinds, ?_, fun r hr => getElem?_concat_left (hs.sent r hr) _, ?_⟩
  · exact Nat.le_trans hs.next (by simp)
  · have hold : (List.range s.sent.length).countP (State.outstanding { s with sent := s.sent ++ [(tag, kind)] }) =
        (List.range s.sent.length).countP s.outstanding := by
      refine countP_congr fun i hi => ?_
      simp only [State.outstanding, getElem?_append_left (mem_range.1 hi)]
    have hbound := hs.bound
    rw [length_append, length_singleton, range_succ, countP_append, hold]
    cases hord : ordinary kind with
    | true =>
      have := hkeeps hord
      have : [s.sent.length].countP (State.outstanding { s with sent := s.sent ++ [(tag, kind)] }) ≤ 1 :=
        countP_le_length
      omega
    | false => simpa [State.outstanding, hord] using hbound

theorem serve_wireInv (hs : WireInv n s) {l : Conn.Label} (hallows : s.allows blocking l)
    (h : Conn.step maxInflight s.conn l = some c) (cancelled : List Req) : WireInv n ⟨c, s.sent, cancelled⟩ := by
  have hnext : c.shared.nextId ≤ s.sent.length ∧ ∀ r, .read r ∈ c.log → s.sent[r.id]? = some (r.tag, r.kind) := by
    obtain ⟨hid, hread⟩ | ⟨w, tag, kind, rfl, hid, hread⟩ := step_reads h
    · exact ⟨hid ▸ hs.next, fun r hr => hs.sent r (hread r hr)⟩
    · have hframe : s.sent[s.conn.shared.nextId]? = some (tag, kind) := by simpa [State.allows] using hallows
      refine ⟨hid ▸ (getElem?_lt hframe), fun r hr => ?_⟩
      rcases hread r hr with rfl | hr
      · exact hframe
      · exact hs.sent r hr
  refine ⟨step_logInv hs.log h, step_kinds hs.kinds h, hnext.1, hnext.2, Nat.le_trans ?_ hs.bound⟩
  refine countP_mono_left fun i _ hi => ?_
  simp only [State.outstanding, Bool.and_eq_true, Bool.not_eq_true', any_eq_false] at hi ⊢
  exact ⟨hi.1, fun ev hev => hi.2 ev (step_log_mono h hev)⟩

theorem step_wireInv (hs : WireInv n s) (hkeeps : Keeps n s l) (h : step blocking maxInflight s l = some s') :
    WireInv n s' := by
  cases l with
  | send tag kind =>
    cases h
    exact send_wireInv hs hkeeps
  | serve l =>
    simp only [step, Option.ite_none_right_eq_some] at h
    obtain ⟨hallows, h⟩ := h
    obtain ⟨c, hstep, rfl⟩ := Option.map_eq_some_iff.1 h
    exact serve_wireInv hs hallows hstep _

/-! ## Handlers and outstanding requests -/

theorem WireInv.req_eq (hs : WireInv n s) {q r : Req} (hq : .read q ∈ s.conn.log) (hr : .read r ∈ s.conn.log)
    (hid : q.id = r.id) : q = r := by
  have heq := (hs.sent q hq).symm.trans (hid ▸ hs.sent r hr)
  obtain ⟨qi, qt, qk⟩ := q
  simp_all

theorem req_of_handled {pc : Pc} (h : handled pc = some r) : pc.req = some r := by
  cases pc <;> first | exact h | cases h

theorem WireInv.outstanding_of_handled (hs : WireInv n s) {r : Req} (hpc : pc ∈ s.conn.workers)
    (hr : handled pc = some r) : s.outstanding r.id := by
  obtain rfl : pc = .handling r := by
    cases pc <;> first | cases hr; rfl | cases hr
  have hread := hs.log.read_of_req hpc rfl
  have hkind : r.kind = .other := hs.kinds _ hpc
  simp only [State.outstanding, hs.sent r hread, hkind, ordinary, Option.any_some, Bool.true_and, Bool.not_eq_true',
    any_eq_false]
  intro ev hev
  cases ev with
  | read | ended => simp
  | wrote q f =>
    intro hid
    obtain rfl := hs.req_eq (hs.log.read_of_wrote hev) hread (by simpa using hid)
    exact hs.log.not_wrote ⟨_, hpc, rfl⟩ f hev

theorem WireInv.handled_le (hs : WireInv n s) : (s.conn.workers.filterMap handled).length ≤ n := by
  have hmem {r : Req} (hr : r ∈ s.conn.workers.filterMap handled) :
      .read r ∈ s.conn.log ∧ s.outstanding r.id := by
    obtain ⟨pc, hpc, hr⟩ := mem_filterMap.1 hr
    exact ⟨hs.log.read_of_req hpc (req_of_handled hr), hs.outstanding_of_handled hpc hr⟩
  have hnodup : (s.conn.workers.filterMap handled).Nodup := by
    refine nodup_iff_count_le_one.2 fun r => ?_
    rw [count_filterMap]
    refine Nat.le_trans (countP_mono_left fun pc _ hpc => ?_) (Nat.le_trans (hs.log.held r) (hs.log.once r))
    simpa using req_of_handled (by simpa using hpc)
  have hids : ((s.conn.workers.filterMap handled).map (·.id)).Nodup :=
    hnodup.map_on fun q hq r hr hid => hs.req_eq (hmem hq).1 (hmem hr).1 hid
  have hsub : (s.conn.workers.filterMap handled).map (·.id) ⊆ (List.range s.sent.length).filter s.outstanding := by
    intro i hi
    obtain ⟨r, hr, rfl⟩ := mem_map.1 hi
    have hlt := getElem?_lt (hs.sent r (hmem hr).1)
    exact mem_filter.2 ⟨mem_range.2 hlt, (hmem hr).2⟩
  calc (s.conn.workers.filterMap handled).length
      = ((s.conn.workers.filterMap handled).map (·.id)).length := (length_map ..).symm
    _ ≤ ((List.range s.sent.length).filter s.outstanding).length := (subperm_of_subset hids hsub).length_le
    _ = (List.range s.sent.length).countP s.outstanding := countP_eq_length_filter.symm
    _ ≤ n := hs.bound

end Step

/-- **No starvation below the cap.**  If the client keeps fewer ordinary requests outstanding than there can be workers,
then in no reachable state is a Tflush unread while all workers are in handlers that wait to be cancelled. -/
theorem flush_not_starved (blocking : Req → Bool) {n maxInflight : Nat} (hn : n < maxInflight) {ls : List Label}
    {s : State} (hclient : Meets (step blocking maxInflight) (Keeps n) init ls)
    (h : run (step blocking maxInflight) init ls = some s) : ¬s.Starved blocking maxInflight := by
  rintro ⟨-, hcount, -⟩
  have hs : WireInv n s := run_inv_of_meets (fun hs hk h => step_wireInv hs hk h) (init_wireInv n) hclient h
  have hle : s.conn.workers.countP (s.blocked blocking) ≤ (s.conn.workers.filterMap handled).length := by
    rw [length_filterMap_eq_countP]
    refine countP_mono_left fun pc _ hpc => ?_
    obtain ⟨r, hr, -⟩ := (Option.any_eq_true ..).1 hpc
    simp [hr]
  have := hs.handled_le
  omega

/-- The steps of worker `i` that lead it into the handler of request `i`. -/
def serveRequest (i : Nat) (tag : Tag) : List Label :=
  [.send tag .other, .serve (.worker i .go), .serve (.worker i .go), .serve (.worker i (.frame tag .other)),
    .serve (.worker i .go)]

/-- The client sends `m` requests, each of which gets a worker, and then a Tflush for the first. -/
def saturate (m : Nat) : List Label :=
  (List.range m).flatMap (fun i => serveRequest i (UInt16.ofNat (i + 1))) ++ [.send 0x8001 (.flush 1)]

theorem flush_not_starved_two : ∃ s, run (step (fun _ => true) 2) init (saturate 1) = some s ∧
    ¬s.Starved (fun _ => true) 2 :=
  ⟨_, rfl, flush_not_starved (fun _ => true) (n := 1) (by decide) (show Meets _ _ _ (saturate 1) by decide) rfl⟩

/-- Four requests outstanding and four workers: the handlers wait to be cancelled, and nobody reads the Tflush. -/
theorem flush_starved : ∃ s, run (step (fun _ => true) 4) init (saturate 4) = some s ∧
    Meets (step (fun _ => true) 4) (Keeps 4) init (saturate 4) ∧ s.Starved (fun _ => true) 4 := by
  refine ⟨(run (step (fun _ => true) 4) init (saturate 4)).get (by decide), (Option.some_get _).symm, ?_, ?_⟩
  · decide
  · decide

end NineP.Server.Backpressure
