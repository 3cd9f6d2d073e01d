import NineP.Client.Ops
import NineP.Client.Responses

/-!
# A client at work

Any number of operations on one connection, each a thread that runs its program; the exchanges are those of
`Exchange`.
-/

namespace NineP.Client

open Proto Program Transition

/-! ## The state -/

/-- A file that an operation has returned. -/
structure File where
  fid : Fid
  /-- The threads that hold `lifecycleMu` for reading. -/
  readers : List Nat := []
  /-- `Close` holds `lifecycleMu`. -/
  writer : Bool := false
  closed : Bool := false
  deriving DecidableEq

/-- A running operation, and the exchange that it waits for. -/
structure Thread where
  op : Op (Except Error Unit)
  call : Option Nat := none

structure Session where
  net : State Request Reply
  fids : FidAllocator := {}
  files : List File := []
  root : Option Nat := none
  /-- Admission is closed: new exchanges fail. -/
  closing : Bool := false
  threads : List Thread := []

inductive Event
  | start (call : ApiCall)
  | run (t : Nat)
  | net (l : Label Request Reply)
  | closeAdmission
  deriving DecidableEq

/-! ## Steps -/

/-- What the operation sees of an exchange. -/
def Outcome.result : Outcome Reply → Except Err Reply
  | .ok _ f => .ok f.body
  | .failed _ err => .error err
  | .abandoned _ => .error .ctx

namespace Session

def setFile (s : Session) (f : Nat) (file : File) : Session := { s with files := s.files.set f file }

@[simp] theorem setFile_fids (s : Session) (f : Nat) (file : File) : (s.setFile f file).fids = s.fids := rfl

def setThread (s : Session) (t : Nat) (th : Thread) : Session := { s with threads := s.threads.set t th }

@[simp] theorem setThread_fids (s : Session) (t : Nat) (th : Thread) : (s.setThread t th).fids = s.fids := rfl

@[simp] theorem setThread_files (s : Session) (t : Nat) (th : Thread) : (s.setThread t th).files = s.files := rfl

/-- Commands other than exchanges, for thread `t`. -/
def exec (s : Session) (t : Nat) : (c : Cmd) → Option (c.Res × Session)
  | .acquire => some (s.fids.acquire.1, { s with fids := s.fids.acquire.2 })
  | .release fid => some ((), { s with fids := s.fids.release fid })
  | .exchange _ _ _ => none
  | .signalShutdown =>
    some ((), { s with net := { s.net with shared := s.net.shared.shutdown }, closing := true })
  | .root => some (s.root, s)
  | .setRoot f => some ((), { s with root := some f })
  | .newFile fid => some (s.files.length, { s with files := s.files ++ [{ fid }] })
  | .beginOp f =>
    (s.files[f]?).bind fun file =>
      if file.writer then none
      else if file.closed then some (none, s)
      else some (some file.fid, s.setFile f { file with readers := t :: file.readers })
  | .endOp f => (s.files[f]?).map fun file => ((), s.setFile f { file with readers := file.readers.erase t })
  | .beginClose f =>
    (s.files[f]?).bind fun file =>
      if file.writer || file.readers ≠ [] then none
      else if file.closed then some (none, s)
      else some (some file.fid, s.setFile f { file with writer := true, closed := true })
  | .endClose f => (s.files[f]?).map fun file => ((), s.setFile f { file with writer := false })

/-- `exchangeWithFlush` is called, or refuses the call. -/
def send (cfg : Config) (s : Session) (req : Request) (zeroCopy flushOnCancel : Bool) : Option (State Request Reply) :=
  if s.closing then none else Client.step cfg.maxInflight s.net (.call (.other req) zeroCopy flushOnCancel)

/-- The next command of thread `t`. -/
def run (cfg : Config) (s : Session) (t : Nat) : Option Session :=
  (s.threads[t]?).bind fun th =>
    match th.op with
    | .pure _ => none
    | .cmd (.exchange req zeroCopy flushOnCancel) k =>
      match th.call with
      | none =>
        match s.send cfg req zeroCopy flushOnCancel with
        | none => some (s.setThread t { op := k (.error .closed) })
        | some net => some (({ s with net } : Session).setThread t { op := th.op, call := some s.net.calls.length })
      | some j =>
        (s.net.calls[j]?).bind fun call =>
          match call.pc with
          | .done o => some (s.setThread t { op := k o.result })
          | _ => none
    | .cmd c k => (s.exec t c).map fun (x, s') => s'.setThread t { op := k x }

def step (cfg : Config) (s : Session) : Event → Option Session
  | .start call => some { s with threads := s.threads ++ [{ op := call.op cfg }] }
  | .run t => s.run cfg t
  | .net (.call _ _ _) => none
  | .net l => (Client.step cfg.maxInflight s.net l).map fun net => { s with net }
  | .closeAdmission => some { s with closing := true }

def init (cfg : Config) : Session where
  net := Client.init cfg.maxInflight

/-- The connection is live. -/
def Alive (s : Session) : Prop := s.closing = false ∧ s.net.shared.closed = false

/-! ## The steps of a thread, one by one -/

/-- `run` as a relation. -/
inductive Runs (cfg : Config) (s : Session) (t : Nat) : Session → Prop
  | refuse {req : Request} {zeroCopy flushOnCancel : Bool} {k : Except Err Reply → Op (Except Error Unit)}
      (ht : s.threads[t]? = some { op := .cmd (.exchange req zeroCopy flushOnCancel) k })
      (hclosed : ¬s.Alive) : Runs cfg s t (s.setThread t { op := k (.error .closed) })
  | send {req : Request} {zeroCopy flushOnCancel : Bool} {k : Except Err Reply → Op (Except Error Unit)}
      {net : State Request Reply} (ht : s.threads[t]? = some { op := .cmd (.exchange req zeroCopy flushOnCancel) k })
      (hnet : Client.step cfg.maxInflight s.net (.call (.other req) zeroCopy flushOnCancel) = some net) :
      Runs cfg s t (({ s with net } : Session).setThread t
        { op := .cmd (.exchange req zeroCopy flushOnCancel) k, call := some s.net.calls.length })
  | collect {req : Request} {zeroCopy flushOnCancel : Bool} {k : Except Err Reply → Op (Except Error Unit)}
      {j : Nat} {call : Call Request Reply} {o : Outcome Reply}
      (ht : s.threads[t]? = some { op := .cmd (.exchange req zeroCopy flushOnCancel) k, call := some j })
      (hcall : s.net.calls[j]? = some call) (hpc : call.pc = .done o) :
      Runs cfg s t (s.setThread t { op := k o.result })
  | exec {c : Cmd} {k : c.Res → Op (Except Error Unit)} {j : Option Nat} {x : c.Res} {s' : Session}
      (ht : s.threads[t]? = some { op := .cmd c k, call := j }) (hexec : s.exec t c = some (x, s')) :
      Runs cfg s t (s'.setThread t { op := k x })

theorem send_eq_none {s : Session}
    (h : s.send cfg req zeroCopy flushOnCancel = none) : ¬s.Alive := by
  rintro ⟨hclosing, hclosed⟩
  simp [send, hclosing, Client.step, hclosed] at h

theorem run_runs {s : Session} (h : s.run cfg t = some s') : Runs cfg s t s' := by
  obtain ⟨⟨op, j⟩, ht, h⟩ := Option.bind_eq_some_iff.1 h
  cases op with
  | pure a => cases h
  | cmd c k =>
    cases c with
    | exchange req zeroCopy flushOnCancel =>
      cases j with
      | none =>
        simp only at h
        cases hsend : s.send cfg req zeroCopy flushOnCancel with
        | none =>
          simp only [hsend] at h
          cases h
          exact .refuse ht (send_eq_none hsend)
        | some net =>
          simp only [hsend] at h
          cases h
          refine .send ht ?_
          unfold send at hsend
          split at hsend
          · cases hsend
          · exact hsend
      | some j =>
        obtain ⟨call, hcall, h⟩ := Option.bind_eq_some_iff.1 h
        cases hpc : call.pc with
        | done o =>
          simp only [hpc] at h
          cases h
          exact .collect ht hcall hpc
        | _ => simp [hpc] at h
    | _ =>
      obtain ⟨⟨x, s''⟩, hexec, rfl⟩ := Option.map_eq_some_iff.1 h
      exact .exec ht hexec

end Session

end NineP.Client
