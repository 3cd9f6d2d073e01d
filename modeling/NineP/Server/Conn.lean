import NineP.Lib.Transition
import NineP.Server.Inflight

/-!
# The workers of a connection

The `handleRequest` goroutines of `server/conn.go` with their shared state, as threads whose steps are the sections
under `recvMu`, `writeMu` and the in-flight map's mutex and the handler calls between them.  The state keeps a log:
every request that was read, and how each one ended.

Left out: the pooled buffers and the request contexts, whose cancellation only tells handlers to hurry.
-/

namespace NineP.Server.Conn

open Proto Option

/-! ## Requests and frames -/

/-- What `readFrameLocked` and `handleRequest` tell apart. -/
inductive Kind
  | version
  | unknown  -- no message of that type
  | undecodable
  | flush (oldTag : Tag)
  | other
  deriving DecidableEq

/-- A request frame; `id` numbers the frames of the connection. -/
structure Req where
  id : Nat
  tag : Tag
  kind : Kind
  deriving DecidableEq

/-- The bodies of response frames, as far as they differ here. -/
inductive Body
  | reply  -- what the handler returned
  | error (e : Errno)
  | rflush
  | rversion (accepted : Bool)
  deriving DecidableEq

structure RFrame where
  tag : Tag
  body : Body
  deriving DecidableEq

/-- Why a request gets no response. -/
inductive Why
  | duplicate  -- its tag is in flight
  | undecodable
  | unsent  -- the write or its deadline failed
  | abandoned  -- a flush whose wait was cut short
  | silent  -- a middleware returned nil
  | refused  -- a re-negotiation that failed or came too soon
  deriving DecidableEq

inductive Event
  | read (r : Req)
  | wrote (r : Req) (f : RFrame)
  | ended (r : Req) (why : Why)
  deriving DecidableEq

/-! ## The state -/

/-- Where a worker is. -/
inductive Pc
  | loop
  | parked  -- counted in `recvIdle`, waits for `recvMu`
  | locked  -- holds `recvMu`, reads a frame
  | got (r : Req)  -- has the frame and no lock
  | shutting  -- `shutdownRecv` is next
  | closeNc  -- the end of `shutdownRecv`
  | gone
  | waiting (r : Req) (ch : Chan)
  | flushed (r : Req)  -- the Rflush is next
  | handling (r : Req)
  | responding (r : Req)  -- `commit` is next
  | committed (r : Req)  -- the write is next
  | answered (r : Req)  -- `completeCommit` is next
  | panicked (r : Req) (finished : Bool)
  | finishing (r : Req)  -- `finish` is next
  | closing (ch : Chan)
  | version (r : Req)  -- in `handleReVersion`, with `recvMu` held
  | draining (r : Req)
  | drainWait (r : Req) (ch : Chan)
  | clunking (r : Req)
  | replying (r : Req)
  | unlocking
  deriving DecidableEq

/-- What the workers of a connection share. -/
structure Shared where
  recvMu : Option Nat
  recvShutdown : Bool
  recvIdle : Int
  workerCount : Int
  nextId : Nat
  inflight : InflightMap Req
  /-- The channels made so far: the request whose end a channel announces, `none` for a drain channel. -/
  chans : List (Option Req)
  closed : List Chan
  ncClosed : Bool
  /-- The request that bound each fid. -/
  fids : Fid → Option Req

structure State where
  shared : Shared
  workers : List Pc
  /-- Newest first. -/
  log : List Event

/-- How a call of `sendResponseInline` ends. -/
inductive Sent
  | ok
  | eio  -- the message did not encode
  | failed
  deriving DecidableEq

/-- What the environment decides for a worker's step. -/
inductive Choice
  | go
  | frame (tag : Tag) (kind : Kind)
  | fail  -- the read fails
  | bind (fid : Fid)
  | unbind (fid : Fid)
  | respond
  | silent
  | panic
  | write (o : Sent)
  | wake
  | cancel
  | timeout
  | limited
  | reject
  | reply (accepted : Bool)
  deriving DecidableEq

/-- What a step does: to the worker, to the shared state, to the log, and the workers it starts. -/
structure Effect where
  pc : Pc
  shared : Shared
  events : List Event := []
  spawned : List Pc := []

/-! ## Steps -/

/-- `sendResponseInline` and `sendError`: a message that does not encode is replaced by EIO. -/
def send (c : Shared) (r : Req) (body : Body) (next : Pc) : Sent → Option Effect
  | .ok => if c.ncClosed then none else some { pc := next, shared := c, events := [.wrote r ⟨r.tag, body⟩] }
  | .eio => if c.ncClosed then none else some { pc := next, shared := c, events := [.wrote r ⟨r.tag, .error EIO⟩] }
  | .failed => some { pc := next, shared := c, events := [.ended r .unsent] }

/-- `readFrameLocked` on a frame, the start of a replacement worker, and the unlock unless it is a Tversion. -/
def receive (maxInflight : Int) (c : Shared) (tag : Tag) (kind : Kind) : Effect :=
  let r : Req := ⟨c.nextId, tag, kind⟩
  let spawn := kind ≠ .version ∧ c.recvIdle = 0 ∧ c.workerCount < maxInflight
  { pc := if kind = .version then .version r else .got r
    shared := { c with
      nextId := c.nextId + 1
      workerCount := if spawn then c.workerCount + 1 else c.workerCount
      recvMu := if kind = .version then c.recvMu else none }
    events := [.read r]
    spawned := if spawn then [.loop] else [] }

/-- The channel `ch` announces the end of `r`; it is new if it is the next one. -/
def register (chans : List (Option Req)) (ch : Chan) (r : Option Req) : List (Option Req) :=
  if ch = chans.length then chans ++ [r] else chans

/-- `handleRequest` after `recvMu` is released. -/
def accept (c : Shared) (r : Req) : Choice → Option Effect
  | .write o => if r.kind = .unknown then send c r (.error ENOSYS) .loop o else none
  | .go =>
    match r.kind with
    | .undecodable => some { pc := .shutting, shared := c, events := [.ended r .undecodable] }
    | .flush oldTag =>
      match c.inflight.flushWait oldTag c.chans.length with
      | (none, _) => some { pc := .flushed r, shared := c }
      | (some ch, im) =>
        let target := (c.inflight.get oldTag).bind (·.rctx)
        some { pc := .waiting r ch, shared := { c with inflight := im, chans := register c.chans ch target } }
    | .other =>
      match c.inflight.start r.tag r with
      | none => some { pc := .shutting, shared := c, events := [.ended r .duplicate] }
      | some (done, im) =>
        some { pc := .handling r, shared := { c with inflight := im, closed := done.toList ++ c.closed } }
    | _ => none
  | _ => none

/-- The end of `dispatchInline`, after `completeCommit` or `remove`. -/
def release (c : Shared) : Option Chan × Option Chan × InflightMap Req → Effect
  | (done, drained, im) =>
    { pc := match done with
        | some ch => .closing ch
        | none => .loop
      shared := { c with inflight := im, closed := drained.toList ++ c.closed } }

/-- One step of worker `w`. -/
def move (maxInflight : Int) (c : Shared) (w : Nat) : Pc → Choice → Option Effect
  | .loop, .go => some { pc := .parked, shared := { c with recvIdle := c.recvIdle + 1 } }
  | .parked, .go =>
    if c.recvMu.isSome then none
    else if c.recvShutdown then
      some { pc := .gone, shared := { c with recvIdle := c.recvIdle - 1, workerCount := c.workerCount - 1 } }
    else some { pc := .locked, shared := { c with recvIdle := c.recvIdle - 1, recvMu := some w } }
  | .locked, .fail =>
    some { pc := .gone, shared := { c with recvShutdown := true, recvMu := none, workerCount := c.workerCount - 1 } }
  | .locked, .frame tag kind => if c.ncClosed then none else some (receive maxInflight c tag kind)
  | .got r, choice => accept c r choice
  | .shutting, .go =>
    if c.recvMu.isSome then none else some { pc := .closeNc, shared := { c with recvShutdown := true } }
  | .closeNc, .go =>
    some { pc := .gone, shared := { c with ncClosed := true, workerCount := c.workerCount - 1 } }
  | .waiting r ch, .wake => if ch ∈ c.closed then some { pc := .flushed r, shared := c } else none
  | .waiting r _, .cancel => some { pc := .loop, shared := c, events := [.ended r .abandoned] }
  | .waiting r _, .timeout =>
    some { pc := .loop, shared := { c with ncClosed := true }, events := [.ended r .abandoned] }
  | .flushed r, .write o => send c r .rflush .loop o
  | .handling r, .bind fid =>
    some { pc := .handling r, shared := { c with fids := Function.update c.fids fid (some r) } }
  | .handling r, .unbind fid =>
    some { pc := .handling r, shared := { c with fids := Function.update c.fids fid none } }
  | .handling r, .respond => some { pc := .responding r, shared := c }
  | .handling r, .silent => some { pc := .finishing r, shared := c, events := [.ended r .silent] }
  | .handling r, .panic => some { pc := .panicked r false, shared := c }
  | .responding r, .go => some { pc := .committed r, shared := { c with inflight := c.inflight.commit r.tag } }
  | .committed r, .write o => send c r .reply (.answered r) o
  -- `finished` is set before the write: the deferred `finish` will do nothing
  | .committed r, .panic => some { pc := .panicked r true, shared := c }
  | .answered r, .go => some (release c (c.inflight.completeCommit r.tag r))
  | .panicked r finished, .write o => send c r (.error EIO) (if finished then .loop else .finishing r) o
  | .finishing r, .go => some (release c (c.inflight.remove r.tag))
  | .closing ch, .go => some { pc := .loop, shared := { c with closed := ch :: c.closed } }
  | .version r, .limited => some { pc := .unlocking, shared := c, events := [.ended r .refused] }
  | .version r, .go => some { pc := .draining r, shared := c }
  | .draining r, .go =>
    match c.inflight.drainChan c.chans.length with
    | (none, _) => some { pc := .clunking r, shared := c }
    | (some ch, im) =>
      some { pc := .drainWait r ch, shared := { c with inflight := im, chans := register c.chans ch none } }
  | .drainWait r ch, .wake => if ch ∈ c.closed then some { pc := .clunking r, shared := c } else none
  | .drainWait r _, .timeout =>
    some { pc := .unlocking, shared := { c with ncClosed := true }, events := [.ended r .refused] }
  | .clunking r, .go => some { pc := .replying r, shared := { c with fids := fun _ => none } }
  | .replying r, .reply accepted =>
    if c.ncClosed then none
    else some { pc := .unlocking, shared := c, events := [.wrote r ⟨r.tag, .rversion accepted⟩] }
  -- a body that does not decode, an msize that is too small, or a failed write
  | .replying r, .reject =>
    some { pc := .unlocking, shared := { c with ncClosed := true }, events := [.ended r .refused] }
  | .unlocking, .go => some { pc := .loop, shared := { c with recvMu := none } }
  | _, _ => none

/-- A step of worker `w`, or something done by the goroutine that serves the connection: it closes the connection,
or waits for a drain or clunks all fids in `cleanup`. -/
inductive Label
  | worker (w : Nat) (choice : Choice)
  | close
  | cleanupWait
  | cleanupClunk
  deriving DecidableEq

/-- The state after a step of worker `w`. -/
abbrev State.after (s : State) (w : Nat) (e : Effect) : State :=
  ⟨e.shared, s.workers.set w e.pc ++ e.spawned, e.events ++ s.log⟩

def step (maxInflight : Int) (s : State) : Label → Option State
  | .worker w choice =>
    (s.workers[w]?).bind fun pc => (move maxInflight s.shared w pc choice).map fun e =>
      { shared := e.shared, workers := s.workers.set w e.pc ++ e.spawned, log := e.events ++ s.log }
  | .close => some { s with shared := { s.shared with ncClosed := true } }
  | .cleanupWait =>
    let c := s.shared
    match c.inflight.drainChan c.chans.length with
    | (none, _) => some s
    | (some ch, im) => some { s with shared := { c with inflight := im, chans := register c.chans ch none } }
  | .cleanupClunk => some { s with shared := { s.shared with fids := fun _ => none } }

/-- A connection after version negotiation, with its first worker. -/
def init : State where
  shared :=
    { recvMu := none, recvShutdown := false, recvIdle := 0, workerCount := 1, nextId := 0, inflight := .empty,
      chans := [], closed := [], ncClosed := false, fids := fun _ => none }
  workers := [.loop]
  log := []

/-! ## What a worker holds -/

/-- The request of a worker that it has not answered yet. -/
def Pc.pending : Pc → Option Req
  | .got r | .waiting r _ | .flushed r | .handling r | .responding r | .committed r | .panicked r _ | .version r
  | .draining r | .drainWait r _ | .clunking r | .replying r => some r
  | _ => none

def Pc.req : Pc → Option Req
  | .answered r | .finishing r => some r
  | pc => pc.pending

/-! ## The steps of a worker, one by one -/

/-- `move` as a relation: one case for every branch. -/
inductive Moves (maxInflight : Int) (c : Shared) (w : Nat) : Pc → Choice → Effect → Prop
  | park : Moves maxInflight c w .loop .go { pc := .parked, shared := { c with recvIdle := c.recvIdle + 1 } }
  | exit (hmu : c.recvMu = none) : Moves maxInflight c w .parked .go
      { pc := .gone, shared := { c with recvIdle := c.recvIdle - 1, workerCount := c.workerCount - 1 } }
  | lock (hmu : c.recvMu = none) : Moves maxInflight c w .parked .go
      { pc := .locked, shared := { c with recvIdle := c.recvIdle - 1, recvMu := some w } }
  | readFail : Moves maxInflight c w .locked .fail
      { pc := .gone, shared := { c with recvShutdown := true, recvMu := none, workerCount := c.workerCount - 1 } }
  | read (tag : Tag) (kind : Kind) :
      Moves maxInflight c w .locked (.frame tag kind) (receive maxInflight c tag kind)
  | unknown {r : Req} {o : Sent} {e : Effect} (hkind : r.kind = .unknown)
      (hsend : send c r (.error ENOSYS) .loop o = some e) : Moves maxInflight c w (.got r) (.write o) e
  | undecodable {r : Req} (hkind : r.kind = .undecodable) : Moves maxInflight c w (.got r) .go
      { pc := .shutting, shared := c, events := [.ended r .undecodable] }
  | flushNone {r : Req} {oldTag : Tag} (hkind : r.kind = .flush oldTag) (hget : c.inflight.get oldTag = none) :
      Moves maxInflight c w (.got r) .go { pc := .flushed r, shared := c }
  | flushOld {r : Req} {oldTag : Tag} {entry : InflightEntry Req} {ch : Chan} (hkind : r.kind = .flush oldTag)
      (hget : c.inflight.get oldTag = some entry) (hdone : entry.done = some ch) :
      Moves maxInflight c w (.got r) .go
        { pc := .waiting r ch, shared := { c with chans := register c.chans ch entry.rctx } }
  | flushNew {r : Req} {oldTag : Tag} {entry : InflightEntry Req} (hkind : r.kind = .flush oldTag)
      (hget : c.inflight.get oldTag = some entry) (hdone : entry.done = none) :
      Moves maxInflight c w (.got r) .go
        { pc := .waiting r c.chans.length
          shared := { c with
            inflight := c.inflight.set oldTag { entry with done := some c.chans.length }
            chans := c.chans ++ [entry.rctx] } }
  | duplicate {r : Req} (hkind : r.kind = .other) (hstart : c.inflight.start r.tag r = none) :
      Moves maxInflight c w (.got r) .go { pc := .shutting, shared := c, events := [.ended r .duplicate] }
  | start {r : Req} {done : Option Chan} {im : InflightMap Req} (hkind : r.kind = .other)
      (hstart : c.inflight.start r.tag r = some (done, im)) : Moves maxInflight c w (.got r) .go
      { pc := .handling r, shared := { c with inflight := im, closed := done.toList ++ c.closed } }
  | shut (hmu : c.recvMu = none) : Moves maxInflight c w .shutting .go
      { pc := .closeNc, shared := { c with recvShutdown := true } }
  | closeNc : Moves maxInflight c w .closeNc .go
      { pc := .gone, shared := { c with ncClosed := true, workerCount := c.workerCount - 1 } }
  | wakeFlush {r : Req} {ch : Chan} (hclosed : ch ∈ c.closed) :
      Moves maxInflight c w (.waiting r ch) .wake { pc := .flushed r, shared := c }
  | cancelFlush {r : Req} {ch : Chan} : Moves maxInflight c w (.waiting r ch) .cancel
      { pc := .loop, shared := c, events := [.ended r .abandoned] }
  | timeoutFlush {r : Req} {ch : Chan} : Moves maxInflight c w (.waiting r ch) .timeout
      { pc := .loop, shared := { c with ncClosed := true }, events := [.ended r .abandoned] }
  | rflush {r : Req} {o : Sent} {e : Effect} (hsend : send c r .rflush .loop o = some e) :
      Moves maxInflight c w (.flushed r) (.write o) e
  | bind {r : Req} (fid : Fid) : Moves maxInflight c w (.handling r) (.bind fid)
      { pc := .handling r, shared := { c with fids := Function.update c.fids fid (some r) } }
  | unbind {r : Req} (fid : Fid) : Moves maxInflight c w (.handling r) (.unbind fid)
      { pc := .handling r, shared := { c with fids := Function.update c.fids fid none } }
  | respond {r : Req} : Moves maxInflight c w (.handling r) .respond { pc := .responding r, shared := c }
  | silent {r : Req} : Moves maxInflight c w (.handling r) .silent
      { pc := .finishing r, shared := c, events := [.ended r .silent] }
  | panic {r : Req} : Moves maxInflight c w (.handling r) .panic { pc := .panicked r false, shared := c }
  | commit {r : Req} : Moves maxInflight c w (.responding r) .go
      { pc := .committed r, shared := { c with inflight := c.inflight.commit r.tag } }
  | reply {r : Req} {o : Sent} {e : Effect} (hsend : send c r .reply (.answered r) o = some e) :
      Moves maxInflight c w (.committed r) (.write o) e
  | encodePanic {r : Req} : Moves maxInflight c w (.committed r) .panic { pc := .panicked r true, shared := c }
  | complete {r : Req} : Moves maxInflight c w (.answered r) .go
      (release c (c.inflight.completeCommit r.tag r))
  | panicLate {r : Req} {o : Sent} {e : Effect} (hsend : send c r (.error EIO) .loop o = some e) :
      Moves maxInflight c w (.panicked r true) (.write o) e
  | panicEarly {r : Req} {o : Sent} {e : Effect} (hsend : send c r (.error EIO) (.finishing r) o = some e) :
      Moves maxInflight c w (.panicked r false) (.write o) e
  | finish {r : Req} : Moves maxInflight c w (.finishing r) .go (release c (c.inflight.remove r.tag))
  | closeDone {ch : Chan} : Moves maxInflight c w (.closing ch) .go
      { pc := .loop, shared := { c with closed := ch :: c.closed } }
  | limited {r : Req} : Moves maxInflight c w (.version r) .limited
      { pc := .unlocking, shared := c, events := [.ended r .refused] }
  | cancelAll {r : Req} : Moves maxInflight c w (.version r) .go { pc := .draining r, shared := c }
  | drained {r : Req} (hcount : c.inflight.count = 0) :
      Moves maxInflight c w (.draining r) .go { pc := .clunking r, shared := c }
  | drain {r : Req} {ch : Chan} {im : InflightMap Req}
      (hdrain : c.inflight.drainChan c.chans.length = (some ch, im)) : Moves maxInflight c w (.draining r) .go
      { pc := .drainWait r ch, shared := { c with inflight := im, chans := register c.chans ch none } }
  | wakeDrain {r : Req} {ch : Chan} (hclosed : ch ∈ c.closed) :
      Moves maxInflight c w (.drainWait r ch) .wake { pc := .clunking r, shared := c }
  | timeoutDrain {r : Req} {ch : Chan} : Moves maxInflight c w (.drainWait r ch) .timeout
      { pc := .unlocking, shared := { c with ncClosed := true }, events := [.ended r .refused] }
  | clunkAll {r : Req} : Moves maxInflight c w (.clunking r) .go
      { pc := .replying r, shared := { c with fids := fun _ => none } }
  | rversion {r : Req} (accepted : Bool) : Moves maxInflight c w (.replying r) (.reply accepted)
      { pc := .unlocking, shared := c, events := [.wrote r ⟨r.tag, .rversion accepted⟩] }
  | reject {r : Req} : Moves maxInflight c w (.replying r) .reject
      { pc := .unlocking, shared := { c with ncClosed := true }, events := [.ended r .refused] }
  | unlock : Moves maxInflight c w .unlocking .go { pc := .loop, shared := { c with recvMu := none } }

section Inversion

variable {maxInflight : Int} {c : Shared} {w : Nat} {pc : Pc} {choice : Choice} {e : Effect} {r : Req}

theorem accept_moves (h : accept c r choice = some e) : Moves maxInflight c w (.got r) choice e := by
  cases choice with
  | write o =>
    simp only [accept, ite_none_right_eq_some] at h
    exact .unknown h.1 h.2
  | go =>
    cases hkind : r.kind with
    | undecodable =>
      simp only [accept, hkind, Option.some.injEq] at h
      subst h
      exact .undecodable hkind
    | flush oldTag =>
      simp only [accept, hkind, InflightMap.flushWait] at h
      cases hget : c.inflight.get oldTag with
      | none =>
        simp only [hget, Option.some.injEq] at h
        subst h
        exact .flushNone hkind hget
      | some entry =>
        cases hdone : entry.done with
        | none =>
          simp only [hget, hdone, register, if_true, Option.some.injEq] at h
          subst h
          exact .flushNew hkind hget hdone
        | some ch =>
          simp only [hget, hdone, Option.some.injEq] at h
          subst h
          exact .flushOld hkind hget hdone
    | other =>
      cases hstart : c.inflight.start r.tag r with
      | none =>
        simp only [accept, hkind, hstart, Option.some.injEq] at h
        subst h
        exact .duplicate hkind hstart
      | some started =>
        simp only [accept, hkind, hstart, Option.some.injEq] at h
        subst h
        exact .start hkind hstart
    | version | unknown => simp [accept, hkind] at h
  | _ => cases h

/-- **Inversion**: what a step of a worker can be. -/
theorem move_moves (h : move maxInflight c w pc choice = some e) : Moves maxInflight c w pc choice e := by
  unfold move at h
  split at h
  -- the steps with one outcome
  all_goals try (simp only [Option.some.injEq] at h; subst h; constructor)
  · split at h
    · cases h
    · rename_i hmu
      have hmu : c.recvMu = none := by simpa using hmu
      split at h <;> cases h
      · exact .exit hmu
      · exact .lock hmu
  · simp only [ite_none_left_eq_some, Option.some.injEq] at h
    obtain ⟨-, rfl⟩ := h
    exact .read _ _
  · exact accept_moves h
  · simp only [ite_none_left_eq_some, Option.some.injEq] at h
    obtain ⟨hmu, rfl⟩ := h
    exact .shut (by simpa using hmu)
  · simp only [ite_none_right_eq_some, Option.some.injEq] at h
    obtain ⟨hclosed, rfl⟩ := h
    exact .wakeFlush hclosed
  · exact .rflush h
  · exact .reply h
  · rename_i finished _
    cases finished
    · exact .panicEarly h
    · exact .panicLate h
  · split at h <;> rename_i hdrain <;> cases h
    · refine .drained ?_
      unfold InflightMap.drainChan at hdrain
      split at hdrain
      · assumption
      · split at hdrain <;> cases hdrain
    · exact .drain hdrain
  · simp only [ite_none_right_eq_some, Option.some.injEq] at h
    obtain ⟨hclosed, rfl⟩ := h
    exact .wakeDrain hclosed
  · simp only [ite_none_left_eq_some, Option.some.injEq] at h
    obtain ⟨-, rfl⟩ := h
    exact .rversion _
  · cases h

theorem send_eq (h : send c r body next o = some e) :
    (∃ body', (body' = body ∨ body' = .error EIO) ∧
        e = { pc := next, shared := c, events := [.wrote r ⟨r.tag, body'⟩] }) ∨
      o = .failed ∧ e = { pc := next, shared := c, events := [.ended r .unsent] } := by
  cases o with
  | ok =>
    simp only [send, ite_none_left_eq_some, Option.some.injEq] at h
    exact .inl ⟨body, .inl rfl, h.2.symm⟩
  | eio =>
    simp only [send, ite_none_left_eq_some, Option.some.injEq] at h
    exact .inl ⟨.error EIO, .inr rfl, h.2.symm⟩
  | failed =>
    cases h
    exact .inr ⟨rfl, rfl⟩

theorem send_pc (h : send c r body next o = some e) : e.pc = next := by
  obtain ⟨_, -, rfl⟩ | ⟨-, rfl⟩ := send_eq h <;> rfl

theorem receive_pc (tag : Tag) (kind : Kind) :
    (receive maxInflight c tag kind).pc =
      if kind = .version then .version ⟨c.nextId, tag, kind⟩ else .got ⟨c.nextId, tag, kind⟩ := rfl

theorem release_pc (x : Option Chan × Option Chan × InflightMap Req) :
    (release c x).pc = .loop ∨ ∃ ch, (release c x).pc = .closing ch := by
  obtain ⟨_ | ch, drained, im⟩ := x
  · exact .inl rfl
  · exact .inr ⟨ch, rfl⟩

end Inversion

end NineP.Server.Conn
