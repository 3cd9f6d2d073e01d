import NineP.Lib.Transition
import NineP.Server.Fid

/-!
# Handle I/O against clunk

Any number of `Tread`, `Twrite`, `Treaddir`, `Tfsync`, `Tlock` and `Tgetlock` handlers on one fid, and one
`Tclunk` or `Tremove` of it, as threads.  The state keeps a log of what the server did to the handle.
-/

namespace NineP.Server.HandleIo

open Transition List

/-! ## The threads -/

/-- The requests that use an open handle. -/
inductive Op
  | tread
  | twrite
  | treaddir
  | tfsync
  | tlock
  | tgetlock
  deriving DecidableEq

inductive HandlerPc
  | start  -- before `c.fids.get`
  | resolved  -- holds the fid state
  | opened  -- has seen state `fidOpened`
  | begun  -- `beginIO` returned true
  | calling  -- inside a method of the handle
  | returned  -- the deferred `endIO` is next
  | releasing (closeNode : Bool)
  | done
  deriving DecidableEq

/-- The requests that clunk the fid. -/
inductive ClunkOp
  | tclunk
  | tremove
  deriving DecidableEq

/-- Where the `Tclunk` or `Tremove` handler is. -/
inductive ClunkPc
  | start  -- before `c.fids.clunk`
  | unbound  -- the fid is out of the table
  | finishing  -- `finishClunk` is next
  | releasing (closeNode : Bool)
  | done
  deriving DecidableEq

/-- What happened to the handle. -/
inductive Event
  | begin (i : Nat)  -- handler `i`'s `beginIO` returned true
  | call (i : Nat)  -- handler `i` called a method of the handle
  | finish (i : Nat)  -- handler `i`'s `endIO`
  | release  -- `FileReleaser.Release`
  | closeNode  -- `NodeCloser.Close`
  deriving DecidableEq

variable {ν η : Type}

/-- One fid, its handlers and its clunk. -/
structure State (ν η : Type) where
  fs : FidState ν η
  /-- The fid is still in the table. -/
  inTable : Bool
  handlers : List (Op × HandlerPc)
  clunkOp : ClunkOp
  clunk : ClunkPc
  /-- Newest first. -/
  log : List Event

/-- Who moves: handler `i`, or the clunk; `lastRef` is what `decRefNode` reports to it. -/
inductive Label
  | handler (i : Nat)
  | clunk (lastRef : Bool)
  deriving DecidableEq

def releaseNow (closeNode : Bool) (log : List Event) : List Event :=
  if closeNode then .closeNode :: .release :: log else .release :: log

/-- One step of handler `i`, which serves `op`; `implements` says whether the handle has the method for a
request, otherwise the handler falls back to the node. -/
def handlerStep (implements : Op → Bool) (s : State ν η) (i : Nat) (op : Op) : HandlerPc → Option (State ν η)
  | .start => some { s with handlers := s.handlers.set i (op, if s.inTable then .resolved else .done) }
  | .resolved =>
    -- Tread and Twrite serve xattr fids from their buffer here; every other state but opened is EBADF
    some { s with handlers := s.handlers.set i (op, if s.fs.state = .opened then .opened else .done) }
  | .opened =>
    let (ok, fs) := s.fs.beginIo
    if ok then some { s with fs := fs, handlers := s.handlers.set i (op, .begun), log := .begin i :: s.log }
    else some { s with handlers := s.handlers.set i (op, .done) }
  | .begun =>
    if s.fs.handle.isSome && implements op then
      some { s with handlers := s.handlers.set i (op, .calling), log := .call i :: s.log }
    else some { s with handlers := s.handlers.set i (op, .returned) }
  -- the method returned or panicked: the deferred `endIO` runs either way
  | .calling => some { s with handlers := s.handlers.set i (op, .returned) }
  | .returned =>
    let ((release, closeNode), fs) := s.fs.endIo
    some { s with
      fs := fs
      handlers := s.handlers.set i (op, if release then .releasing closeNode else .done)
      log := .finish i :: s.log }
  | .releasing closeNode =>
    some { s with handlers := s.handlers.set i (op, .done), log := releaseNow closeNode s.log }
  | .done => none

/-- One step of the `Tclunk` or `Tremove` handler. -/
def clunkStep (lastRef : Bool) (s : State ν η) : Option (State ν η) :=
  match s.clunk with
  | .start => some { s with inTable := false, clunk := .unbound }
  | .unbound =>
    -- Tclunk commits an xattr-write fid instead; Tremove has no such branch, and its Unlink is taken to return
    if s.clunkOp = .tclunk ∧ s.fs.state = .xattrWrite then
      some { s with fs := { s.fs with closing := true }, clunk := .done }
    else some { s with clunk := .finishing }
  | .finishing =>
    let (release, fs) := s.fs.finishClunk lastRef
    some { s with fs := fs, clunk := if release then .releasing lastRef else .done }
  | .releasing closeNode => some { s with clunk := .done, log := releaseNow closeNode s.log }
  | .done => none

def step (implements : Op → Bool) (s : State ν η) : Label → Option (State ν η)
  | .handler i => (s.handlers[i]?).bind fun t => handlerStep implements s i t.1 t.2
  | .clunk lastRef => clunkStep lastRef s

/-- An opened fid with an open handle, and handlers for the requests `ops` that have not looked it up yet. -/
def init (node : ν) (handle : η) (ops : List Op) (clunkOp : ClunkOp) : State ν η where
  fs := { node, state := .opened, handle := some handle, ioRefs := 0, closing := false, closeNode := false }
  inTable := true
  handlers := ops.map (·, .start)
  clunkOp := clunkOp
  clunk := .start
  log := []

/-! ## The invariant -/

/-- Between a successful `beginIo` and its `endIo`. -/
def HandlerPc.inIo : HandlerPc → Bool
  | .begun | .calling | .returned => true
  | _ => false

/-- About to run `releaseNow`. -/
def HandlerPc.owes : HandlerPc → Bool
  | .releasing _ => true
  | _ => false

/-- About to run `releaseNow`. -/
def ClunkPc.owes : ClunkPc → Bool
  | .releasing _ => true
  | _ => false

def ClunkPc.finished : ClunkPc → Bool
  | .releasing _ | .done => true
  | _ => false

/-- At every release no handler was between `beginIo` and `endIo`, and no method was called after one. -/
def Ordered : List Event → Prop
  | [] => True
  | .release :: pre => (∀ i, pre.count (.begin i) = pre.count (.finish i)) ∧ Ordered pre
  | .call _ :: pre => .release ∉ pre ∧ Ordered pre
  | _ :: pre => Ordered pre

/-- What holds in every reachable state. -/
structure Inv (s : State ν η) : Prop where
  opened : s.fs.state = .opened
  refs : s.fs.ioRefs = (s.handlers.countP (·.2.inIo) : Int)
  closing : s.fs.closing = s.clunk.finished
  /-- One release, done or owed, exactly when the fid is closing and nobody is in I/O. -/
  owed : s.log.count .release + s.handlers.countP (·.2.owes) + (if s.clunk.owes then 1 else 0) =
    if s.fs.closing ∧ s.fs.ioRefs = 0 then 1 else 0
  balance : ∀ i, s.log.count (.begin i) =
    s.log.count (.finish i) + if (s.handlers[i]?).any (·.2.inIo) then 1 else 0
  ordered : Ordered s.log

theorem init_inv (node : ν) (handle : η) (ops : List Op) (clunkOp : ClunkOp) :
    Inv (init node handle ops clunkOp) := by
  have hcount : ∀ p : Op × HandlerPc → Bool, (∀ op, p (op, .start) = false) →
      (init node handle ops clunkOp).handlers.countP p = 0 := by
    intro p hp
    rw [countP_eq_zero]
    rintro t ht
    obtain ⟨op, -, rfl⟩ := mem_map.1 ht
    simp [hp]
  refine ⟨rfl, ?_, rfl, ?_, fun i => ?_, trivial⟩
  · rw [hcount _ fun _ => rfl]
    rfl
  · rw [hcount _ fun _ => rfl]
    rfl
  · have hany : ((init node handle ops clunkOp).handlers[i]?).any (·.2.inIo) = false := by
      simp only [init, getElem?_map]
      cases ops[i]? <;> rfl
    rw [hany]
    rfl

section Step

variable {s : State ν η} {i : Nat} {op : Op} {pc pc' : HandlerPc}

theorem any_inIo_set (ht : s.handlers[i]? = some (op, pc)) (pc' : HandlerPc) (j : Nat) :
    ((s.handlers.set i (op, pc'))[j]?).any (·.2.inIo) =
      if j = i then pc'.inIo else (s.handlers[j]?).any (·.2.inIo) := by
  have hi : i < s.handlers.length := getElem?_lt ht
  by_cases hj : j = i
  · subst hj
    simp [getElem?_set_self hi]
  · simp [getElem?_set_ne (Ne.symm hj), hj]

theorem Inv.refs_pos (hs : Inv s) (ht : s.handlers[i]? = some (op, pc)) (hpc : pc.inIo) : 0 < s.fs.ioRefs := by
  have : 0 < s.handlers.countP (·.2.inIo) := countP_pos_iff.2 ⟨_, mem_of_getElem? ht, hpc⟩
  have := hs.refs
  omega

theorem Inv.quiet (hs : Inv s) (ht : s.handlers[i]? = some (op, pc)) (hio : pc'.inIo = pc.inIo)
    (hpc : pc.owes = false) (hpc' : pc'.owes = false) : Inv { s with handlers := s.handlers.set i (op, pc') } := by
  have hcount := countP_set_add (fun t : Op × HandlerPc => t.2.inIo) (op, pc') ht
  have howed := countP_set_add (fun t : Op × HandlerPc => t.2.owes) (op, pc') ht
  simp only [hio, hpc, hpc'] at hcount howed
  refine ⟨hs.opened, ?_, hs.closing, ?_, fun j => ?_, hs.ordered⟩
  · have := hs.refs
    simp only
    omega
  · have := hs.owed
    simp only [Bool.false_eq_true, if_false, Nat.add_zero] at howed ⊢
    rw [howed]
    exact this
  · have := hs.balance j
    simp only [any_inIo_set ht]
    by_cases hj : j = i
    · subst hj
      simpa [ht, hio] using this
    · simpa [hj] using this

theorem Inv.not_released (hs : Inv s) (ht : s.handlers[i]? = some (op, pc)) (hpc : pc.inIo) :
    s.log.count .release = 0 ∧ s.handlers.countP (·.2.owes) = 0 ∧ s.clunk.owes = false := by
  have hpos := hs.refs_pos ht hpc
  have hno : ¬(s.fs.closing = true ∧ s.fs.ioRefs = 0) := fun h => absurd h.2 (by omega)
  have hold := hs.owed
  rw [if_neg hno] at hold
  refine ⟨by omega, by omega, ?_⟩
  cases hc : s.clunk.owes with
  | false => rfl
  | true => simp [hc] at hold

theorem begin_inv (hs : Inv s) (ht : s.handlers[i]? = some (op, .opened)) (hc : s.fs.closing = false) :
    Inv { s with
      fs := { s.fs with ioRefs := s.fs.ioRefs + 1 }
      handlers := s.handlers.set i (op, .begun)
      log := .begin i :: s.log } := by
  have hin : (s.handlers.set i (op, .begun)).countP (·.2.inIo) = s.handlers.countP (·.2.inIo) + 1 :=
    countP_set_add (fun t : Op × HandlerPc => t.2.inIo) _ ht
  have how : (s.handlers.set i (op, .begun)).countP (·.2.owes) = s.handlers.countP (·.2.owes) :=
    countP_set_add (fun t : Op × HandlerPc => t.2.owes) _ ht
  have hrefs := hs.refs
  have hold := hs.owed
  refine ⟨hs.opened, by simp only [hin]; omega, hs.closing, ?_, fun j => ?_, hs.ordered⟩
  · simp only [hc, Bool.false_eq_true, false_and, if_false] at hold ⊢
    rw [count_cons_of_ne (by simp), how]
    exact hold
  · have hj := hs.balance j
    simp only [any_inIo_set ht, count_cons]
    by_cases hji : j = i
    · subst hji
      simpa [ht, HandlerPc.inIo] using hj
    · simpa [hji, Ne.symm hji] using hj

theorem call_inv (hs : Inv s) (ht : s.handlers[i]? = some (op, .begun)) :
    Inv { s with handlers := s.handlers.set i (op, .calling), log := .call i :: s.log } := by
  have hq : Inv { s with handlers := s.handlers.set i (op, .calling) } := hs.quiet ht rfl rfl rfl
  refine ⟨hq.opened, hq.refs, hq.closing, ?_, fun j => ?_, ?_, hq.ordered⟩
  · rw [count_cons_of_ne (by simp)]
    exact hq.owed
  · rw [count_cons_of_ne (by simp), count_cons_of_ne (by simp)]
    exact hq.balance j
  · exact count_eq_zero.1 (hs.not_released ht rfl).1

theorem end_inv (hs : Inv s) (ht : s.handlers[i]? = some (op, .returned))
    (hr : release = (s.fs.closing && s.fs.ioRefs - 1 == 0))
    (hin' : pc'.inIo = false) (how' : pc'.owes = release) :
    Inv { s with
      fs := { s.fs with ioRefs := s.fs.ioRefs - 1 }
      handlers := s.handlers.set i (op, pc')
      log := .finish i :: s.log } := by
  have hin := countP_set_add (fun t : Op × HandlerPc => t.2.inIo) (op, pc') ht
  have how := countP_set_add (fun t : Op × HandlerPc => t.2.owes) (op, pc') ht
  simp only [hin', how'] at hin how
  have hone : HandlerPc.returned.inIo = true ∧ HandlerPc.returned.owes = false := ⟨rfl, rfl⟩
  simp only [hone, Bool.false_eq_true, if_true, if_false, Nat.add_zero] at hin how
  have hrefs := hs.refs
  obtain ⟨hrel, howes, hclunk⟩ := hs.not_released ht rfl
  refine ⟨hs.opened, by simp only; omega, hs.closing, ?_, fun j => ?_, hs.ordered⟩
  · rw [count_cons_of_ne (by simp), how, hrel, howes, hclunk, hr]
    by_cases h : s.fs.closing = true ∧ s.fs.ioRefs - 1 = 0
    · simp [h.1, h.2]
    · rw [if_neg h]
      simpa using h
  · have hj := hs.balance j
    simp only [any_inIo_set ht, count_cons]
    by_cases hji : j = i
    · subst hji
      simp only [ht, Option.any_some, hone, if_true] at hj
      simp [hin']
      omega
    · simpa [hji, Ne.symm hji] using hj

theorem Inv.owing (hs : Inv s) (howes : 0 < s.handlers.countP (·.2.owes) + if s.clunk.owes then 1 else 0) :
    (s.log.count .release + s.handlers.countP (·.2.owes) + (if s.clunk.owes then 1 else 0) = 1) ∧
      s.fs.closing = true ∧ s.fs.ioRefs = 0 ∧ ∀ j, s.log.count (.begin j) = s.log.count (.finish j) := by
  have hold := hs.owed
  by_cases h : s.fs.closing = true ∧ s.fs.ioRefs = 0
  · rw [if_pos h] at hold
    refine ⟨hold, h.1, h.2, fun j => ?_⟩
    have hj := hs.balance j
    cases hany : (s.handlers[j]?).any (·.2.inIo) with
    | false => simpa [hany] using hj
    | true =>
      obtain ⟨⟨op, pc⟩, hget, hpc⟩ := (Option.any_eq_true _ _).1 hany
      have := hs.refs_pos hget hpc
      omega
  · rw [if_neg h] at hold
    omega

theorem count_releaseNow (closeNode : Bool) (log : List Event) (e : Event) (he : e ≠ .closeNode) :
    (releaseNow closeNode log).count e = log.count e + if e = .release then 1 else 0 := by
  have hcons : ∀ l : List Event, (Event.closeNode :: l).count e = l.count e := fun l =>
    count_cons_of_ne (Ne.symm he)
  have hrel : (Event.release :: log).count e = log.count e + if e = .release then 1 else 0 := by
    rw [count_cons]
    by_cases h : e = .release
    · simp [h]
    · simp [h, Ne.symm h]
  cases closeNode with
  | false => exact hrel
  | true => exact (hcons _).trans hrel

theorem ordered_releaseNow (h : Ordered log)
    (hb : ∀ j, log.count (.begin j) = log.count (.finish j)) : Ordered (releaseNow closeNode log) := by
  cases closeNode
  · exact ⟨hb, h⟩
  · exact ⟨hb, h⟩

theorem handler_release_inv (hs : Inv s) (ht : s.handlers[i]? = some (op, .releasing closeNode)) :
    Inv { s with handlers := s.handlers.set i (op, .done), log := releaseNow closeNode s.log } := by
  have hin : (s.handlers.set i (op, .done)).countP (·.2.inIo) = s.handlers.countP (·.2.inIo) :=
    countP_set_add (fun t : Op × HandlerPc => t.2.inIo) _ ht
  have how : (s.handlers.set i (op, .done)).countP (·.2.owes) + 1 = s.handlers.countP (·.2.owes) :=
    countP_set_add (fun t : Op × HandlerPc => t.2.owes) _ ht
  obtain ⟨hone, hclosing, hzero, hbal⟩ := hs.owing (by omega)
  have hrefs := hs.refs
  rw [← hin] at hrefs
  refine ⟨hs.opened, hrefs, hs.closing, ?_, fun j => ?_, ordered_releaseNow hs.ordered hbal⟩
  · simp only [count_releaseNow _ _ Event.release (by simp), if_true, hclosing, hzero, and_self]
    omega
  · have hj := hs.balance j
    rw [count_releaseNow _ _ _ (by simp), count_releaseNow _ _ _ (by simp), if_neg (by simp), if_neg (by simp)]
    simp only [any_inIo_set ht]
    by_cases hji : j = i
    · subst hji
      simpa [ht, HandlerPc.inIo] using hj
    · simpa [hji] using hj

theorem handler_inv {implements : Op → Bool} (hs : Inv s) (ht : s.handlers[i]? = some (op, pc))
    (h : handlerStep implements s i op pc = some s') : Inv s' := by
  cases pc with
  | start =>
    cases h
    have hpc : ∀ b : Bool, (if b then HandlerPc.resolved else .done).inIo = false ∧
        (if b then HandlerPc.resolved else .done).owes = false := by decide
    exact hs.quiet ht (hpc _).1 rfl (hpc _).2
  | resolved =>
    cases h
    rw [if_pos hs.opened]
    exact hs.quiet ht rfl rfl rfl
  | opened =>
    cases hc : s.fs.closing with
    | true =>
      have hb : s.fs.beginIo = (false, s.fs) := if_pos hc
      simp only [handlerStep, hb] at h
      cases h
      exact hs.quiet ht rfl rfl rfl
    | false =>
      have hb : s.fs.beginIo = (true, { s.fs with ioRefs := s.fs.ioRefs + 1 }) := by
        simp only [FidState.beginIo, hc, Bool.false_eq_true, if_false]
      simp only [handlerStep, hb] at h
      cases h
      exact begin_inv hs ht hc
  | begun =>
    simp only [handlerStep] at h
    split at h
    · cases h
      exact call_inv hs ht
    · cases h
      exact hs.quiet ht rfl rfl rfl
  | calling =>
    cases h
    exact hs.quiet ht rfl rfl rfl
  | returned =>
    cases h
    refine end_inv hs ht rfl ?_ ?_
    · cases s.fs.closing && s.fs.ioRefs - 1 == 0 <;> rfl
    · cases s.fs.closing && s.fs.ioRefs - 1 == 0 <;> rfl
  | releasing closeNode =>
    cases h
    exact handler_release_inv hs ht
  | done => cases h

theorem clunk_inv (hs : Inv s) (h : clunkStep lastRef s = some s') : Inv s' := by
  have hold := hs.owed
  have hclosing := hs.closing
  cases hpc : s.clunk with
  | start =>
    simp only [clunkStep, hpc] at h
    cases h
    rw [hpc] at hold hclosing
    exact ⟨hs.opened, hs.refs, hclosing, hold, hs.balance, hs.ordered⟩
  | unbound =>
    simp only [clunkStep, hpc, hs.opened, reduceCtorEq, and_false, if_false] at h
    cases h
    rw [hpc] at hold hclosing
    exact ⟨hs.opened, hs.refs, hclosing, hold, hs.balance, hs.ordered⟩
  | finishing =>
    simp only [clunkStep, hpc, FidState.finishClunk] at h
    cases h
    rw [hpc] at hold hclosing
    have hfalse : s.fs.closing = false := hclosing
    simp only [hfalse, ClunkPc.owes, Bool.false_eq_true, false_and, if_false] at hold
    refine ⟨hs.opened, hs.refs, ?_, ?_, hs.balance, hs.ordered⟩
    · by_cases hz : s.fs.ioRefs = 0 <;> simp [hz, ClunkPc.finished]
    · by_cases hz : s.fs.ioRefs = 0
      · simp only [hz, BEq.rfl, if_true, ClunkPc.owes, and_self]
        omega
      · simp only [beq_iff_eq, hz, if_false, ClunkPc.owes, Bool.false_eq_true, and_false]
        omega
  | releasing closeNode =>
    simp only [clunkStep, hpc] at h
    cases h
    obtain ⟨hone, hc, hzero, hbal⟩ := hs.owing (by rw [hpc]; simp [ClunkPc.owes])
    refine ⟨hs.opened, hs.refs, hc, ?_, fun j => ?_, ordered_releaseNow hs.ordered hbal⟩
    · rw [hpc] at hone
      simp only [count_releaseNow _ _ Event.release (by simp), if_true, ClunkPc.owes, Bool.false_eq_true, if_false,
        hc, hzero, and_self] at hone ⊢
      omega
    · rw [count_releaseNow _ _ _ (by simp), count_releaseNow _ _ _ (by simp), if_neg (by simp), if_neg (by simp)]
      exact hs.balance j
  | done => simp [clunkStep, hpc] at h

end Step

variable {implements : Op → Bool} {s : State ν η}

theorem step_inv (hs : Inv s) (h : step implements s l = some s') : Inv s' := by
  cases l with
  | handler i =>
    obtain ⟨⟨op, pc⟩, ht, h⟩ := Option.bind_eq_some_iff.1 h
    exact handler_inv hs ht h
  | clunk lastRef => exact clunk_inv hs h

theorem run_invariant
    (h : run (step implements) (init node handle ops clunkOp) ls = some s) :
    Inv s :=
  run_inv step_inv (init_inv node handle ops clunkOp) h

/-! ## The release -/

theorem Ordered.at_release (h : Ordered (post ++ .release :: pre)) :
    (∀ i, pre.count (.begin i) = pre.count (.finish i)) ∧ ∀ i, .call i ∉ post := by
  induction post with
  | nil => exact ⟨h.1, by simp⟩
  | cons e post ih =>
    cases e with
    | call j => exact absurd (mem_append_right post mem_cons_self) h.1
    | release =>
      obtain ⟨hpre, hpost⟩ := ih h.2
      exact ⟨hpre, fun i => by simpa using hpost i⟩
    | _ =>
      obtain ⟨hpre, hpost⟩ := ih h
      exact ⟨hpre, fun i => by simpa using hpost i⟩

theorem Inv.released (hs : Inv s) (hh : ∀ t ∈ s.handlers, t.2 = .done) (hc : s.clunk = .done) :
    s.log.count .release = 1 := by
  have hzero : ∀ p : HandlerPc → Bool, p .done = false → s.handlers.countP (fun t => p t.2) = 0 := by
    intro p hp
    rw [countP_eq_zero]
    intro t ht
    rw [hh t ht, hp]
    exact Bool.false_ne_true
  have hrefs := hs.refs
  rw [hzero HandlerPc.inIo rfl] at hrefs
  have hclosing := hs.closing
  have howed := hs.owed
  rw [hc] at hclosing howed
  have hboth : s.fs.closing = true ∧ s.fs.ioRefs = 0 := ⟨hclosing, hrefs⟩
  rw [hzero HandlerPc.owes rfl, if_pos hboth] at howed
  exact howed

end NineP.Server.HandleIo
