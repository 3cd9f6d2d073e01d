import NineP.Server.Serve

/-!
# Cancellation at shutdown

`cancelAll` flushes the contexts of the requests in the in-flight map, once; a context does not follow the serve context
that it was made from.
-/

namespace NineP.Server.Serve

open Proto Codec Program Transition
open Conn (Req Pc Choice)
open Handlers (Config)

variable {ν : Type}

/-! ## The condition -/

def Cleanup.cancelled : Cleanup → Bool
  | .serving | .cancelling => false
  | _ => true

def State.cancelled (s : State ν) : Bool := s.serveDone || s.cleanup.cancelled

/-- The handler of a request runs with a context that was flushed. -/
def flushedPc (ctxs : Req → RequestCtx) : Pc → Bool
  | .handling r => (ctxs r).flushed
  | _ => true

/-- No request is started after the cancellation, and the serve context is cancelled when every handler that runs was
flushed. -/
def cancelOk (s : State ν) : Label ν → Bool
  | .worker w .go _ =>
    match s.conn.workers[w]? with
    | some (.got r) => r.kind ≠ .other || !s.cancelled
    | _ => true
  | .cancel => s.conn.workers.all (flushedPc s.ctxs)
  | _ => true

/-! ## Contexts -/

def RequestCtx.Closed (r : RequestCtx) : Prop := r.flushed = true → r.done = some true

section Contexts

variable {s : State ν} {c : RequestCtx}

theorem flush_flushed : c.flush.flushed = true := by
  unfold RequestCtx.flush
  split
  · assumption
  · rfl

theorem RequestCtx.Closed.flush (h : c.Closed) : c.flush.Closed := by
  unfold RequestCtx.flush
  split
  · exact h
  · exact fun _ => rfl

theorem closed_doneChan : c.doneChan.2.Closed := by
  intro hflushed
  have hflushed : c.flushed = true := hflushed
  simp [RequestCtx.doneChan, hflushed]

theorem RequestCtx.Closed.err (h : c.Closed) (hflushed : c.flushed = true) :
    c.err = some .canceled ∧ c.done = some true ∧ c.doneChan.1 = true := by
  simp [RequestCtx.err, RequestCtx.doneChan, hflushed, h hflushed]

theorem State.flush_closed (h : ∀ r, (s.ctxs r).Closed) (p : Req → Bool) (r : Req) : (s.flush p r).Closed := by
  unfold State.flush
  split
  · exact (h r).flush
  · exact h r

theorem State.flush_of_flushed (p : Req → Bool) (h : (s.ctxs r).flushed = true) : (s.flush p r).flushed = true := by
  unfold State.flush
  split
  · exact flush_flushed
  · exact h

theorem State.inFlight_of_owned (h : s.conn.shared.Owned r) : s.inFlight r = true := by
  obtain ⟨entry, hget, hrctx, -⟩ := h
  exact List.any_eq_true.2 ⟨⟨r.tag, entry⟩, List.of_mem_dlookup hget, by simpa using hrctx⟩

end Contexts

/-! ## The invariant -/

structure CancelInv (s : State ν) : Prop where
  map : Conn.MapInv s.conn
  closed : ∀ r, (s.ctxs r).Closed
  flushed : s.cancelled = true → ∀ r, .handling r ∈ s.conn.workers → (s.ctxs r).flushed = true

section Step

variable {s s' : State ν}

theorem move_handling {e : Conn.Effect} (h : Conn.move maxInflight c w pc choice = some e)
    (hr : e.pc = .handling r) :
    pc = .handling r ∨ pc = .got r ∧ choice = .go ∧ r.kind = .other := by
  cases Conn.move_moves h with
  | read tag kind =>
    rw [Conn.receive_pc] at hr
    split at hr <;> cases hr
  | unknown _ hsend | rflush hsend | reply hsend | panicLate hsend | panicEarly hsend =>
    rw [Conn.send_pc hsend] at hr
    cases hr
  | complete | finish => obtain hpc | ⟨ch, hpc⟩ := Conn.release_pc _ <;> rw [hpc] at hr <;> cases hr
  | start hkind =>
    obtain rfl := Pc.handling.inj hr
    exact .inr ⟨rfl, rfl, hkind⟩
  | bind | unbind => exact .inl hr
  | _ => cases hr

theorem handling_before {conn : Conn.State}
    (hconn : Conn.step maxInflight s.conn (.worker w choice) = some conn)
    (hok : cancelOk s (.worker w choice msg) = true) (hcancel : s.cancelled = true) (hr : .handling r ∈ conn.workers) :
    .handling r ∈ s.conn.workers := by
  obtain ⟨pc, e, hw, hmove, rfl⟩ := Conn.step_worker.1 hconn
  rcases Conn.mem_workers hmove hr with heq | heq | ⟨j, -, hj⟩
  · rcases move_handling hmove heq.symm with rfl | ⟨rfl, rfl, hkind⟩
    · exact List.mem_of_getElem? hw
    · simp [cancelOk, hw, hkind, hcancel] at hok
  · cases heq
  · exact List.mem_of_getElem? hj

variable [DecidableEq ν]

theorem Moves.mapInv (h : Moves cfg maxInflight s l s') (hmap : Conn.MapInv s.conn) : Conn.MapInv s'.conn := by
  rcases h.conn with ⟨cl, -, hconn⟩ | hconn
  · exact Conn.step_mapInv hmap hconn
  · rwa [hconn]

theorem step_cancelInv (hs : CancelInv s) (hok : cancelOk s l = true) (h : step cfg maxInflight s l = some s') :
    CancelInv s' := by
  have hmoves := step_moves h
  refine ⟨hmoves.mapInv hs.map, ?_, ?_⟩
  · cases hmoves with
    | work | enter | cancelAll => exact State.flush_closed hs.closed _
    | @askDone w r =>
      intro r'
      simp only [Function.update_apply]
      split
      · exact closed_doneChan
      · exact hs.closed r'
    | _ => exact hs.closed
  · cases hmoves with
    | work _ _ hconn | enter _ _ hconn =>
      intro hcancel r hr
      exact State.flush_of_flushed _ (hs.flushed hcancel r (handling_before hconn hok hcancel hr))
    | @askDone w r =>
      intro hcancel r' hr'
      simp only [Function.update_apply]
      split
      · subst r'
        exact hs.flushed hcancel r hr'
      · exact hs.flushed hcancel r' hr'
    | cancel =>
      intro _ r hr
      simpa [flushedPc] using List.all_eq_true.1 hok _ hr
    | cancelAll =>
      intro _ r hr
      have hin := State.inFlight_of_owned (s := s) (hs.map.owned _ hr r rfl)
      simp only [State.flush, hin, if_true]
      exact flush_flushed
    | handler | negotiated => exact hs.flushed
    | shutdown hpc => exact fun hcancel => hs.flushed (by simpa [State.cancelled, hpc, Cleanup.cancelled] using hcancel)
    | close hconn =>
      intro hcancel r hr
      exact hs.flushed hcancel r (conn_workers (by simp) hconn ▸ hr)
    | drained hpc hconn | drain hpc hconn | closeNc hpc hconn | clunkAll hpc hconn =>
      intro _ r hr
      exact hs.flushed (by simp [State.cancelled, hpc, Cleanup.cancelled]) r (conn_workers (by simp) hconn ▸ hr)
    | waited hpc | joined hpc | joinTimeout hpc =>
      exact fun _ => hs.flushed (by simp [State.cancelled, hpc, Cleanup.cancelled])

end Step

/-! ## Two runs -/

/-- Worker 0 reads a request, and starts worker 1, which parks and gets the lock. -/
def readLabels : List (Label Nat) :=
  ([(0, .go), (0, .go), (0, .frame 1 .other), (1, .go), (1, .go)] : List (Nat × Choice)).map fun (w, choice) =>
    .worker w choice (.clunk ⟨7⟩)

/-- The handler runs when the client goes away: worker 1's read fails, and `cleanup` calls `cancelAll`. -/
def runningLabels : List (Label Nat) :=
  readLabels ++ [.worker 0 .go (.clunk ⟨7⟩), .askDone 0, .worker 1 .fail (.clunk ⟨7⟩), .cleanup false, .cleanup false]

def runningState : State Nat := (run (step Handlers.plainConfig 2) init runningLabels).get (by decide +kernel)

/-- The client goes away before worker 0 has started the request that it has read. -/
def lateStartLabels : List (Label Nat) :=
  readLabels ++ [.worker 1 .fail (.clunk ⟨7⟩), .cleanup false, .cleanup false, .worker 0 .go (.clunk ⟨7⟩)]

def lateStartState : State Nat := (run (step Handlers.plainConfig 2) init lateStartLabels).get (by decide +kernel)

end NineP.Server.Serve
