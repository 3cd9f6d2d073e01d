import NineP.Server.ConnVersion
import NineP.Server.Requests

/-!
# Serving a connection

`serve` of `server/conn.go` and `cleanup` of `server/cleanup.go`: the workers of a connection, each with the handler
that it runs, the goroutine that shuts the connection down, and the contexts of the requests (`server/requestctx.go`).
The first part of `cleanup` is a program counter, and the rest, from `clunkAll` on, a program.

The record of fids in `Conn.State` is not used here.  Middlewares are taken to call the handler.
-/

namespace NineP.Server.Serve

open Proto Codec Program Transition Option
open Conn (Req Pc Choice)
open Handlers (Config Cmd Op Request Answer)

/-! ## Request contexts -/

inductive CtxErr
  | canceled
  deriving DecidableEq

/-- `requestCtx`: whether it was flushed, and, once its channel was made, whether that is closed.  What the parent context
does has no effect on it. -/
structure RequestCtx where
  flushed : Bool := false
  done : Option Bool := none
  deriving DecidableEq

namespace RequestCtx

def err (r : RequestCtx) : Option CtxErr := if r.flushed then some .canceled else none

/-- `Done`: whether the channel that it returns is closed. -/
def doneChan (r : RequestCtx) : Bool × RequestCtx :=
  let closed := r.flushed || r.done.getD false
  (closed, { r with done := some closed })

def flush (r : RequestCtx) : RequestCtx := if r.flushed then r else { flushed := true, done := some true }

end RequestCtx

/-! ## The state -/

/-- Who runs a program: a worker for its request or in `handleReVersion`, or `cleanup`. -/
inductive Role
  | handler (w : Nat)
  | reVersion (w : Nat)
  | cleanup (drained : Bool)
  deriving DecidableEq

def Role.worker : Role → Option Nat
  | .handler w | .reVersion w => some w
  | .cleanup _ => none

/-- Where the goroutine of `serve` is. -/
inductive Cleanup
  | serving  -- waits for the end of the receive side or of the serve context
  | cancelling  -- `cancelAll` is next
  | draining
  | waiting (ch : Chan)
  | closing (drained : Bool) -- the connection is closed next
  | joining  -- waits for the workers to exit
  | clunking (drained : Bool)
  | clunked (drained : Bool)
  deriving DecidableEq

structure State (ν : Type) where
  conn : Conn.State := Conn.init
  reqs : Handlers.State ν := {}
  /-- Who runs each of the programs. -/
  roles : List Role := []
  cleanup : Cleanup := .serving
  /-- The serve context is cancelled. -/
  serveDone : Bool := false
  ctxs : Req → RequestCtx := fun _ => {}
  /-- For the record: the fid states between `beginIO` and `endIO` of each program. -/
  io : List (List Nat) := []

variable {ν : Type}

namespace State

/-- The worker runs a program that has not ended. -/
def busy (s : State ν) (w : Nat) : Bool :=
  (s.roles.zip s.reqs.threads).any fun (role, th) => role.worker = some w && !th.op.ended

def flush (s : State ν) (p : Req → Bool) : Req → RequestCtx := fun r => if p r then (s.ctxs r).flush else s.ctxs r

/-- The request is in the in-flight map, where `cancelAll` finds it. -/
def inFlight (s : State ν) (r : Req) : Bool := s.conn.shared.inflight.entries.entries.any (·.2.rctx = some r)

/-- The contexts that a worker's step flushes. -/
def flushedBy (s : State ν) : Pc → Choice → Req → Bool
  | .got ⟨_, _, .flush oldTag⟩, .go => fun r => (s.conn.shared.inflight.get oldTag).bind (·.rctx) = some r
  | .version _, .go => s.inFlight
  | _, _ => fun _ => false

end State

/-- The program that a worker starts when it gets to a new place. -/
def enters (w : Nat) (msg : Request) : Pc → Pc → Option (Role × Handlers.Label ν)
  | .got _, .handling _ => some (.handler w, .request 0 msg)
  | .draining _, .clunking _ | .drainWait _ _, .clunking _ => some (.reVersion w, .reVersion 0)
  | _, _ => none

/-! ## Steps -/

section Steps

variable [DecidableEq ν] (cfg : Config ν) (maxInflight : Int)

/-- A program starts. -/
def State.spawn (s : State ν) (role : Role) (l : Handlers.Label ν) : Option (State ν) :=
  (Handlers.step cfg s.reqs l).map fun reqs => { s with reqs := reqs, roles := s.roles ++ [role], io := s.io ++ [[]] }

/-- Worker `w` takes a step outside its program; `msg` is the message of the request that it has read. -/
def State.work (s : State ν) (w : Nat) (choice : Choice) (msg : Request) : Option (State ν) :=
  (s.conn.workers[w]?).bind fun pc =>
    if s.busy w then none
    else (Conn.step maxInflight s.conn (.worker w choice)).bind fun conn =>
      let s' := { s with conn := conn, ctxs := s.flush (s.flushedBy pc choice) }
      match (conn.workers[w]?).bind (enters w msg pc) with
      | none => some s'
      | some (role, l) => s'.spawn cfg role l

/-- For the record: the I/O of a thread after its next command. -/
def ioNext (s : Handlers.State ν) (t : Nat) (io : List Nat) : List Nat :=
  match s.nextCmd t with
  | some (.beginIo fs) => if (s.objs[fs]?).any (·.beginIo.1) then fs :: io else io
  | some (.endIo fs) => io.erase fs
  | _ => io

/-- A program goes on. -/
def State.handle (s : State ν) (l : Handlers.Label ν) : Option (State ν) :=
  l.thread.bind fun t => (Handlers.step cfg s.reqs l).map fun reqs =>
    { s with reqs := reqs, io := s.io.modify t (ioNext s.reqs t) }

/-- A step of `serve` or `cleanup`; a timeout ends the waits. -/
def State.clean (s : State ν) (timeout : Bool) : Option (State ν) :=
  match s.cleanup, timeout with
  | .serving, false => if s.conn.shared.recvShutdown || s.serveDone then some { s with cleanup := .cancelling } else none
  | .cancelling, false => some { s with ctxs := s.flush s.inFlight, cleanup := .draining }
  | .draining, false =>
    (Conn.step maxInflight s.conn .cleanupWait).map fun conn =>
      match (s.conn.shared.inflight.drainChan s.conn.shared.chans.length).1 with
      | none => { s with conn := conn, cleanup := .closing true }
      | some ch => { s with conn := conn, cleanup := .waiting ch }
  | .waiting ch, false => if ch ∈ s.conn.shared.closed then some { s with cleanup := .closing true } else none
  | .waiting _, true => some { s with cleanup := .closing false }
  | .closing drained, false =>
    (Conn.step maxInflight s.conn .close).map fun conn =>
      { s with conn := conn, cleanup := if drained then .joining else .clunking false }
  | .joining, false => if s.conn.workers.all (· = .gone) then some { s with cleanup := .clunking true } else none
  | .joining, true => some { s with cleanup := .clunking true }
  | .clunking drained, false =>
    (Conn.step maxInflight s.conn .cleanupClunk).bind fun conn =>
      State.spawn cfg { s with conn := conn, cleanup := .clunked drained } (.cleanup drained) (.cleanup 0 drained)
  | _, _ => none

inductive Label (ν : Type)
  | worker (w : Nat) (choice : Choice) (msg : Request)
  | handler (l : Handlers.Label ν)
  | askDone (w : Nat)  -- the handler that worker `w` runs calls `Done`
  | negotiated (msize : UInt32)
  | cancel  -- the serve context is cancelled
  | close  -- the watcher of the serve context closes the connection
  | cleanup (timeout : Bool)

def step (s : State ν) : Label ν → Option (State ν)
  | .worker w choice msg => s.work cfg maxInflight w choice msg
  | .handler l => s.handle cfg l
  | .askDone w =>
    match s.conn.workers[w]? with
    | some (.handling r) => some { s with ctxs := Function.update s.ctxs r (s.ctxs r).doneChan.2 }
    | _ => none
  -- before the first request, and by the worker that has answered a Tversion
  | .negotiated msize =>
    if s.roles = [] ∨ .unlocking ∈ s.conn.workers then
      (Handlers.step cfg s.reqs (.negotiated 0 msize)).map fun reqs => { s with reqs := reqs }
    else none
  | .cancel => some { s with serveDone := true }
  | .close => if s.serveDone then (Conn.step maxInflight s.conn .close).map fun conn => { s with conn := conn } else none
  | .cleanup timeout => s.clean cfg maxInflight timeout

/-- A connection after version negotiation. -/
def init : State ν := {}

end Steps

/-! ## The steps, one by one -/

/-- The steps that `serve` and `cleanup` take on the connection move no worker. -/
theorem conn_workers {s : State ν} {conn : Conn.State} (hcl : ∀ w choice, cl ≠ .worker w choice)
    (h : Conn.step maxInflight s.conn cl = some conn) : conn.workers = s.conn.workers := by
  cases cl with
  | worker w choice => exact absurd rfl (hcl w choice)
  | close | cleanupClunk =>
    cases h
    rfl
  | cleanupWait =>
    simp only [Conn.step] at h
    split at h <;> cases h <;> rfl

section Inversion

variable [DecidableEq ν] (cfg : Config ν) (maxInflight : Int)

def State.started (s : State ν) (role : Role) (op : Op ν Answer) (g : Handlers.Ghost ν) : State ν :=
  { s with
    reqs := { s.reqs with threads := s.reqs.threads ++ [{ conn := 0, op, ghost := g }] }
    roles := s.roles ++ [role]
    io := s.io ++ [[]] }

/-- `step` as a relation. -/
inductive Moves (s : State ν) : Label ν → State ν → Prop
  | work {w : Nat} {choice : Choice} {msg : Request} {pc : Pc} {conn : Conn.State} (hw : s.conn.workers[w]? = some pc)
      (hbusy : s.busy w = false) (hconn : Conn.step maxInflight s.conn (.worker w choice) = some conn) :
      Moves s (.worker w choice msg) { s with conn := conn, ctxs := s.flush (s.flushedBy pc choice) }
  | enter {w : Nat} {choice : Choice} {msg : Request} {pc pc' : Pc} {conn : Conn.State} {role : Role}
      {l : Handlers.Label ν} {op : Op ν Answer} {g : Handlers.Ghost ν} (hw : s.conn.workers[w]? = some pc)
      (hbusy : s.busy w = false) (hconn : Conn.step maxInflight s.conn (.worker w choice) = some conn)
      (hw' : conn.workers[w]? = some pc') (henters : enters w msg pc pc' = some (role, l))
      (hstart : Handlers.Starts cfg l 0 op g) :
      Moves s (.worker w choice msg)
        (State.started { s with conn := conn, ctxs := s.flush (s.flushedBy pc choice) } role op g)
  | handler {l : Handlers.Label ν} {t : Nat} {reqs : Handlers.State ν} (hl : l.thread = some t)
      (hstep : Handlers.step cfg s.reqs l = some reqs) :
      Moves s (.handler l) { s with reqs := reqs, io := s.io.modify t (ioNext s.reqs t) }
  | askDone {w : Nat} {r : Req} (hw : s.conn.workers[w]? = some (.handling r)) :
      Moves s (.askDone w) { s with ctxs := Function.update s.ctxs r (s.ctxs r).doneChan.2 }
  | negotiated {msize : UInt32} {reqs : Handlers.State ν} (hstep : Handlers.step cfg s.reqs (.negotiated 0 msize) = some reqs) :
      Moves s (.negotiated msize) { s with reqs := reqs }
  | cancel : Moves s .cancel { s with serveDone := true }
  | close {conn : Conn.State} (hconn : Conn.step maxInflight s.conn .close = some conn) :
      Moves s .close { s with conn := conn }
  | shutdown (hpc : s.cleanup = .serving) : Moves s (.cleanup false) { s with cleanup := .cancelling }
  | cancelAll (hpc : s.cleanup = .cancelling) :
      Moves s (.cleanup false) { s with ctxs := s.flush s.inFlight, cleanup := .draining }
  | drained {conn : Conn.State} (hpc : s.cleanup = .draining) (hconn : Conn.step maxInflight s.conn .cleanupWait = some conn) :
      Moves s (.cleanup false) { s with conn := conn, cleanup := .closing true }
  | drain {conn : Conn.State} {ch : Chan} (hpc : s.cleanup = .draining)
      (hconn : Conn.step maxInflight s.conn .cleanupWait = some conn) :
      Moves s (.cleanup false) { s with conn := conn, cleanup := .waiting ch }
  | waited {ch : Chan} {timeout : Bool} (hpc : s.cleanup = .waiting ch) :
      Moves s (.cleanup timeout) { s with cleanup := .closing !timeout }
  | closeNc {conn : Conn.State} {drained : Bool} (hpc : s.cleanup = .closing drained)
      (hconn : Conn.step maxInflight s.conn .close = some conn) :
      Moves s (.cleanup false) { s with conn := conn, cleanup := if drained then .joining else .clunking false }
  | joined (hpc : s.cleanup = .joining) (hgone : ∀ pc ∈ s.conn.workers, pc = .gone) :
      Moves s (.cleanup false) { s with cleanup := .clunking true }
  | joinTimeout (hpc : s.cleanup = .joining) : Moves s (.cleanup true) { s with cleanup := .clunking true }
  | clunkAll {conn : Conn.State} {drained : Bool} {op : Op ν Answer} {g : Handlers.Ghost ν}
      (hpc : s.cleanup = .clunking drained) (hconn : Conn.step maxInflight s.conn .cleanupClunk = some conn)
      (hstart : Handlers.Starts cfg (.cleanup 0 drained) 0 op g) :
      Moves s (.cleanup false)
        (State.started { s with conn := conn, cleanup := .clunked drained } (.cleanup drained) op g)

variable {cfg maxInflight}

theorem enters_starts (cfg : Config ν) {w : Nat} {msg : Request} {pc pc' : Pc} {role : Role} {l : Handlers.Label ν}
    (h : enters w msg pc pc' = some (role, l)) :
    ∃ op g, Handlers.Starts cfg l 0 op g ∧ ∀ s : State ν, s.spawn cfg role l = some (s.started role op g) := by
  unfold enters at h
  split at h
  · cases h
    exact ⟨_, _, .request 0 msg, fun _ => rfl⟩
  · cases h
    exact ⟨_, _, .reVersion 0, fun _ => rfl⟩
  · cases h
    exact ⟨_, _, .reVersion 0, fun _ => rfl⟩
  · cases h

theorem work_moves {w : Nat} {choice : Choice} {msg : Request} (h : s.work cfg maxInflight w choice msg = some s') :
    Moves cfg maxInflight s (.worker w choice msg) s' := by
  obtain ⟨pc, hw, h⟩ := bind_eq_some_iff.1 h
  simp only [ite_none_left_eq_some, Bool.not_eq_true] at h
  obtain ⟨hbusy, h⟩ := h
  obtain ⟨conn, hconn, h⟩ := bind_eq_some_iff.1 h
  split at h
  · cases h
    exact .work hw hbusy hconn
  · rename_i role l henters
    obtain ⟨pc', hw', henters⟩ := bind_eq_some_iff.1 henters
    obtain ⟨op, g, hstart, hspawn⟩ := enters_starts cfg henters
    rw [hspawn] at h
    cases h
    exact .enter hw hbusy hconn hw' henters hstart

theorem clean_moves {timeout : Bool} (h : s.clean cfg maxInflight timeout = some s') :
    Moves cfg maxInflight s (.cleanup timeout) s' := by
  unfold State.clean at h
  split at h
  · rename_i hpc
    simp only [ite_none_right_eq_some, Option.some.injEq] at h
    obtain ⟨-, rfl⟩ := h
    exact .shutdown hpc
  · cases h
    exact .cancelAll ‹_›
  · obtain ⟨conn, hconn, h⟩ := map_eq_some_iff.1 h
    split at h <;> subst h
    · exact .drained ‹_› hconn
    · exact .drain ‹_› hconn
  · simp only [ite_none_right_eq_some, Option.some.injEq] at h
    obtain ⟨-, rfl⟩ := h
    exact (.waited ‹_› : Moves cfg maxInflight s (.cleanup false) _)
  · cases h
    exact (.waited ‹_› : Moves cfg maxInflight s (.cleanup true) _)
  · obtain ⟨conn, hconn, rfl⟩ := map_eq_some_iff.1 h
    exact .closeNc ‹_› hconn
  · simp only [ite_none_right_eq_some, Option.some.injEq, List.all_eq_true, decide_eq_true_eq] at h
    obtain ⟨hgone, rfl⟩ := h
    exact .joined ‹_› hgone
  · cases h
    exact .joinTimeout ‹_›
  · rename_i drained hpc
    obtain ⟨conn, hconn, h⟩ := bind_eq_some_iff.1 h
    cases h
    exact .clunkAll hpc hconn (.cleanup 0 drained)
  · cases h

/-- **Inversion**: what a step can be. -/
theorem step_moves {l : Label ν} (h : step cfg maxInflight s l = some s') : Moves cfg maxInflight s l s' := by
  cases l with
  | worker w choice msg => exact work_moves h
  | handler l =>
    obtain ⟨t, ht, h⟩ := bind_eq_some_iff.1 h
    obtain ⟨reqs, hstep, rfl⟩ := map_eq_some_iff.1 h
    exact .handler ht hstep
  | askDone w =>
    simp only [step] at h
    split at h
    · cases h
      exact .askDone ‹_›
    · cases h
  | negotiated msize =>
    simp only [step, ite_none_right_eq_some] at h
    obtain ⟨-, h⟩ := h
    obtain ⟨reqs, hstep, rfl⟩ := map_eq_some_iff.1 h
    exact .negotiated hstep
  | cancel =>
    cases h
    exact .cancel
  | close =>
    simp only [step, ite_none_right_eq_some] at h
    obtain ⟨-, h⟩ := h
    obtain ⟨conn, hconn, rfl⟩ := map_eq_some_iff.1 h
    exact .close hconn
  | cleanup timeout => exact clean_moves h

/-- What the workers do in a step. -/
def Label.connLabel (s : State ν) : Label ν → Option Conn.Label
  | .worker w choice _ => some (.worker w choice)
  | .close => some .close
  | .cleanup false =>
    match s.cleanup with
    | .draining => some .cleanupWait
    | .closing _ => some .close
    | .clunking _ => some .cleanupClunk
    | _ => none
  | _ => none

theorem Moves.conn {l : Label ν} (h : Moves cfg maxInflight s l s') :
    (∃ cl, l.connLabel s = some cl ∧ Conn.step maxInflight s.conn cl = some s'.conn) ∨ s'.conn = s.conn := by
  cases h with
  | work _ _ hconn | enter _ _ hconn | close hconn => exact .inl ⟨_, rfl, hconn⟩
  | drained hpc hconn | drain hpc hconn | closeNc hpc hconn | clunkAll hpc hconn =>
    exact .inl ⟨_, by simp only [Label.connLabel, hpc], hconn⟩
  | _ => exact .inr rfl

end Inversion

end NineP.Server.Serve
