import NineP.Server.Handlers

/-!
# Requests at work

Any number of requests on any number of connections to one server, each a thread that runs the program of its handler.
The labels say which request is read, which thread goes on, and what the file system, the inode tree and the iteration
over a map return.  The state also has records that the server does not have.
-/

namespace NineP.Server.Handlers

open Codec Proto Program Transition Option List

/-! ## The state -/

structure Obj (ν : Type) extends FidState ν Handle where
  key : Option (Nat × Fid)
  xattr : Option (Xattr ν) := none
  dirCached : Bool := false
  /-- For the record: `releaseNow` has read the handle. -/
  taken : Bool := false

def Obj.new {ν : Type} (key : Nat × Fid) (node : ν) (state : FidStatus) : Obj ν :=
  { FidState.bound node state with key := some key }

def Obj.isOf {ν : Type} (conn : Nat) (o : Obj ν) : Bool := o.key.any (·.1 == conn)

/-- For the record: what a handler has got hold of. -/
structure Ghost (ν : Type) where
  /-- Whether its request calls `beginIO`. -/
  io : Bool
  nodes : List ν := []
  /-- Fid states whose node it may read and use. -/
  states : List Nat := []
  /-- Fid states that wait for `beginIO`. -/
  guarded : List Nat := []
  /-- Fid states that it has removed from the table. -/
  doomed : List Nat := []

structure Thread (ν : Type) where
  conn : Nat
  op : Op ν Answer
  /-- It is inside the call that is its next command. -/
  calling : Bool := false
  ghost : Ghost ν

structure State (ν : Type) where
  objs : List (Obj ν) := []
  /-- `Inode.refs` -/
  refs : ν → Int := fun _ => 0
  msize : Nat → UInt32 := fun _ => 0
  threads : List (Thread ν) := []
  /-- For the record: the node that call number `i` opened or created, and what its handle implements. -/
  opens : List (ν × List FileIface) := []
  /-- For the record: the handles whose `Release` was called. -/
  released : List Nat := []
  /-- For the record: the nodes whose `Close` was called. -/
  closed : List ν := []
  /-- For the record: the nodes that `Lookup` and `Create` returned. -/
  made : List ν := []

variable {ν : Type} {s s' : State ν} {α : Type} {f : Obj ν → α × Obj ν}

namespace State

def find (s : State ν) (key : Nat × Fid) : Option Nat := s.objs.findIdx? (·.key == some key)

def fidsOf (s : State ν) (conn : Nat) : List Nat :=
  (List.range s.objs.length).filter fun r => (s.objs[r]?).any (·.isOf conn)

def onObj {α : Type} (s : State ν) (r : Nat) (f : Obj ν → α × Obj ν) : Option (α × State ν) :=
  (s.objs[r]?).map fun o => ((f o).1, { s with objs := s.objs.set r (f o).2 })

def setThread (s : State ν) (t : Nat) (th : Thread ν) : State ν := { s with threads := s.threads.set t th }

/-- `clunkAll`: the table of the connection is empty afterwards. -/
def removeAll (s : State ν) (conn : Nat) : State ν :=
  { s with objs := s.objs.map fun o => if o.isOf conn then { o with key := none } else o }

end State

/-! ## Commands -/

section Commands

/-- The critical section of `handleWrite`. -/
def Obj.appendXattr (o : Obj ν) (data : Bytes) : XattrWrite × Obj ν :=
  if o.state = .xattrWrite then
    if o.closing then (.refused EBADF, o)
    else match o.xattr with
      | none => (.refused ENOSPC, o)
      | some x =>
        if x.writer then (.writer, o)
        else if x.data.length + data.length > x.size.toNat then (.refused ENOSPC, o)
        else (.appended, { o with xattr := some { x with data := x.data ++ data } })
  else (.other o.state, o)

/-- The critical section of `handleClunk`. -/
def Obj.takeXattr (o : Obj ν) : Option (Xattr ν) × Obj ν :=
  if o.state = .xattrWrite then (o.xattr, { o with closing := true }) else (none, o)

variable [DecidableEq ν]

/-- A command other than a call and `clunkAll`, for a request of connection `conn`. -/
def State.exec (cfg : Config ν) (s : State ν) (conn : Nat) : (c : Cmd ν) → Option (c.Res × State ν)
  | .get fid => some (s.find (conn, fid), s)
  | .add fid node state =>
    if 0 < cfg.maxFids ∧ cfg.maxFids ≤ s.objs.countP (·.isOf conn) then some (.error .fidLimitExceeded, s)
    else if (s.find (conn, fid)).isSome then some (.error .fidInUse, s)
    else some (.ok (), { s with objs := s.objs ++ [.new (conn, fid) node state] })
  | .clunk fid =>
    match s.find (conn, fid) with
    | none => some (none, s)
    | some r => s.onObj r fun o => (some r, { o with key := none })
  | .clunkAll => none
  | .update fid node =>
    match s.find (conn, fid) with
    | none => some (none, s)
    | some r => s.onObj r fun o => (some o.node, { o with node := node })
  | .markOpenedWithHandle fid h =>
    match s.find (conn, fid) with
    | none => some (false, s)
    | some r => s.onObj r fun o =>
      if o.state ≠ .allocated then (false, o) else (true, { o with state := .opened, handle := some h })
  | .updateAndOpen fid node h =>
    match s.find (conn, fid) with
    | none => some (none, s)
    | some r => s.onObj r fun o =>
      if o.state ≠ .allocated then (none, o)
      else (some o.node, { o with node := node, state := .opened, handle := some h })
  | .currentState fs => s.onObj fs fun o => (o.state, o)
  | .currentNode fs => s.onObj fs fun o => (o.node, o)
  | .handle fs => s.onObj fs fun o => (o.handle, o)
  | .takeHandle fs => s.onObj fs fun o => (o.handle, { o with taken := true })
  | .beginIo fs => s.onObj fs fun o => (o.beginIo.1, { o with toFidState := o.beginIo.2 })
  | .endIo fs => s.onObj fs fun o => (o.endIo.1, { o with toFidState := o.endIo.2 })
  | .finishClunk fs closeNode =>
    s.onObj fs fun o => ((o.finishClunk closeNode).1, { o with toFidState := (o.finishClunk closeNode).2 })
  | .setXattrWrite fs name size flags writer => s.onObj fs fun o =>
    ((), { o with state := .xattrWrite, xattr := some ⟨o.node, name, size, flags, [], writer⟩ })
  | .takeXattr fs => s.onObj fs Obj.takeXattr
  | .appendXattr fs data => s.onObj fs fun o => o.appendXattr data
  | .dirStale fs offset => s.onObj fs fun o =>
    if offset = 0 ∨ !o.dirCached then (true, { o with dirCached := false }) else (false, o)
  | .dirStore fs => s.onObj fs fun o => ((), { o with dirCached := true })
  | .msize => some (s.msize conn, s)
  | .incRef n => some ((), { s with refs := Function.update s.refs n (s.refs n + 1) })
  | .decRef n => some (s.refs n - 1 == 0, { s with refs := Function.update s.refs n (s.refs n - 1) })
  | .refs n => some (s.refs n, s)
  | .call _ _ => none
  | .release h => some ((), { s with released := h.id :: s.released })
  | .close n => some ((), { s with closed := n :: s.closed })

end Commands

/-! ## Calls -/

/-- What a call may return. -/
inductive Val (ν : Type)
  | unit
  | node (n : ν)
  | handle (ifaces : List FileIface)
  | created (n : ν) (ifaces : List FileIface)
  | qid (q : QID)
  | parent (p : Option ν)
  | name (b : Option Bytes)

/-- The calls that return an error value. -/
def Method.mayFail : Method ν → Bool
  | .qid | .parent _ | .childName _ _ => false
  | _ => true

/-- The call of `m` on `n` returns `v`. -/
def State.accept (s : State ν) (n : Option ν) : (m : Method ν) → Val ν → Option (m.Out × State ν)
  | .attach _, .node child | .mkdir _, .node child | .symlink _ _, .node child | .mknod _, .node child => some (child, s)
  | .lookup _, .node child => some (child, { s with made := child :: s.made })
  | .openNode _, .handle ifaces =>
    n.map fun n => (⟨s.opens.length, ifaces⟩, { s with opens := s.opens ++ [(n, ifaces)] })
  | .create _ _ _ _, .created child ifaces =>
    some ((child, ⟨s.opens.length, ifaces⟩),
      { s with opens := s.opens ++ [(child, ifaces)], made := child :: s.made })
  | .qid, .qid q => some (q, s)
  | .parent _, .parent p => some (p, s)
  | .childName _ _, .name b => some (b, s)
  | .link _ _, .unit | .unlink _ _, .unit | .rename _ _ _, .unit | .getattr, .unit | .setattr, .unit | .readlink, .unit
  | .statFS, .unit | .read _ _, .unit | .write _ _, .unit | .readdir, .unit | .rawReaddir _ _, .unit | .fsync, .unit
  | .lock, .unit | .getLock, .unit | .listXattrs, .unit | .getXattr _, .unit | .setXattr _ _ _, .unit
  | .removeXattr _, .unit | .handleXattrwalk _, .unit | .handleXattrcreate _ _ _, .unit | .onHandle _ _, .unit
  | .writeXattr _, .unit | .commitXattr, .unit => some ((), s)
  | _, _ => none

/-! ## Steps -/

section Steps

variable [DecidableEq ν]

/-- For the record: what a handler has got hold of after a command. -/
def Ghost.note (g : Ghost ν) : (c : Cmd ν) → c.Res → Ghost ν
  | .get _, some r => if g.io then { g with guarded := r :: g.guarded } else { g with states := r :: g.states }
  | .clunk _, some r => { g with doomed := r :: g.doomed }
  | .beginIo r, true => if r ∈ g.guarded then { g with states := r :: g.states } else g
  | .currentNode r, n => if r ∈ g.states then { g with nodes := n :: g.nodes } else g
  | .takeXattr r, some x => if r ∈ g.doomed then { g with nodes := x.node :: g.nodes } else g
  | .call _ (.attach _), .ok n | .call _ (.lookup _), .ok n | .call _ (.mkdir _), .ok n
  | .call _ (.symlink _ _), .ok n | .call _ (.mknod _), .ok n
  | .call _ (.create _ _ _ _), .ok (n, _) => { g with nodes := n :: g.nodes }
  | .call _ (.parent _), .ok (some p) => { g with nodes := p :: g.nodes }
  -- the node, and the fid states that may still be bound to it, are given up
  | .close n, _ => { g with nodes := g.nodes.filter (· ≠ n), states := [], guarded := [], doomed := [] }
  | _, _ => g

def Thread.next (th : Thread ν) (c : Cmd ν) (k : c.Res → Op ν Answer) (x : c.Res) : Thread ν :=
  { th with op := k x, calling := false, ghost := th.ghost.note c x }

inductive Label (ν : Type)
  | request (conn : Nat) (req : Request)
  | reVersion (conn : Nat)  -- `handleReVersion` after its drain
  | negotiated (conn : Nat) (msize : UInt32)
  | cleanup (conn : Nat) (drained : Bool)  -- `cleanup` from `clunkAll` on
  | go (t : Nat)
  | finish (t : Nat) (r : Except Errno (Val ν))
  | collect (t : Nat) (order : List Nat)

/-- The next command of thread `t`, or the start of its call. -/
def State.go (cfg : Config ν) (s : State ν) (t : Nat) : Option (State ν) :=
  (s.threads[t]?).bind fun th =>
    match th.op with
    | .pure _ => none
    | .cmd (.call _ _) _ => if th.calling then none else some (s.setThread t { th with calling := true })
    | .cmd c k => (s.exec cfg th.conn c).map fun (x, s') => s'.setThread t (th.next c k x)

/-- The call of thread `t` returns. -/
def State.finish (s : State ν) (t : Nat) (r : Except Errno (Val ν)) : Option (State ν) :=
  (s.threads[t]?).bind fun th =>
    match th.op with
    | .cmd (.call n m) k =>
      if !th.calling then none
      else match r with
        | .error e => if m.mayFail then some (s.setThread t (th.next (.call n m) k (.error e))) else none
        | .ok v => (s.accept n m v).map fun (x, s') => s'.setThread t (th.next (.call n m) k (.ok x))
    | _ => none

/-- Thread `t` calls `clunkAll`, which returns the states in any order. -/
def State.collect (s : State ν) (t : Nat) (order : List Nat) : Option (State ν) :=
  (s.threads[t]?).bind fun th =>
    match th.op with
    | .cmd .clunkAll k =>
      if order.isPerm (s.fidsOf th.conn) then some ((s.removeAll th.conn).setThread t (th.next .clunkAll k order))
      else none
    | _ => none

def step (cfg : Config ν) (s : State ν) : Label ν → Option (State ν)
  | .request conn req =>
    some { s with threads := s.threads ++ [{ conn, op := dispatch cfg req, ghost := { io := req.isIo } }] }
  | .reVersion conn => some { s with threads := s.threads ++ [{ conn, op := clunkAll cfg true, ghost := { io := false } }] }
  | .negotiated conn msize => some { s with msize := Function.update s.msize conn msize }
  | .cleanup conn drained =>
    some { s with threads := s.threads ++ [{ conn, op := clunkAll cfg drained, ghost := { io := false } }] }
  | .go t => s.go cfg t
  | .finish t r => s.finish t r
  | .collect t order => s.collect t order

/-- A server before its first connection. -/
def init : State ν := {}

/-- The thread that a step belongs to. -/
def Label.thread : Label ν → Option Nat
  | .go t | .finish t _ | .collect t _ => some t
  | _ => none

/-- The command that a thread is at. -/
def State.nextCmd (s : State ν) (t : Nat) : Option (Cmd ν) :=
  (s.threads[t]?).bind fun th =>
    match th.op with
    | .pure _ => none
    | .cmd c _ => some c

/-- Every request has been answered. -/
def State.Quiet (s : State ν) : Prop := ∀ th ∈ s.threads, ∃ a, th.op = .pure a

instance (s : State ν) : Decidable s.Quiet :=
  decidable_of_iff (∀ th ∈ s.threads, th.op.ended = true) (by simp only [State.Quiet, Prog.ended_iff])

end Steps

/-! ## The steps, one by one -/

section Inversion

variable [DecidableEq ν]

/-- A command is done with a result. -/
inductive Does (cfg : Config ν) (s : State ν) (conn : Nat) : (c : Cmd ν) → c.Res → State ν → Prop
  | exec {c : Cmd ν} {x : c.Res} {s' : State ν} (h : s.exec cfg conn c = some (x, s')) : Does cfg s conn c x s'
  | fail {n : Option ν} {m : Method ν} (e : Errno) (hm : m.mayFail = true) : Does cfg s conn (.call n m) (.error e) s
  | call {n : Option ν} {m : Method ν} {x : m.Out} {s' : State ν} (v : Val ν) (h : s.accept n m v = some (x, s')) :
      Does cfg s conn (.call n m) (.ok x) s'
  | collect {order : List Nat} (h : order.Perm (s.fidsOf conn)) : Does cfg s conn .clunkAll order (s.removeAll conn)

/-- The label starts a thread for a connection with this program. -/
inductive Starts (cfg : Config ν) : Label ν → Nat → Op ν Answer → Ghost ν → Prop
  | request (conn : Nat) (req : Request) : Starts cfg (.request conn req) conn (dispatch cfg req) { io := req.isIo }
  | reVersion (conn : Nat) : Starts cfg (.reVersion conn) conn (clunkAll cfg true) { io := false }
  | cleanup (conn : Nat) (drained : Bool) :
      Starts cfg (.cleanup conn drained) conn (clunkAll cfg drained) { io := false }

def Label.Returns (l : Label ν) (s : State ν) : (c : Cmd ν) → c.Res → Prop
  | .call n m, .ok x => ∃ t v s', l = .finish t (.ok v) ∧ s.accept n m v = some (x, s')
  | _, _ => True

/-- `step` as a relation. -/
inductive Steps (cfg : Config ν) (s : State ν) : Label ν → State ν → Prop
  | start {l : Label ν} {conn : Nat} {op : Op ν Answer} {g : Ghost ν} (hstart : Starts cfg l conn op g) :
      Steps cfg s l { s with threads := s.threads ++ [{ conn, op, ghost := g }] }
  | negotiated {conn : Nat} {msize : UInt32} :
      Steps cfg s (.negotiated conn msize) { s with msize := Function.update s.msize conn msize }
  | enter {t : Nat} {th : Thread ν} {n : Option ν} {m : Method ν} {k : Except Errno m.Out → Op ν Answer}
      (ht : s.threads[t]? = some th) (hop : th.op = .cmd (.call n m) k) :
      Steps cfg s (.go t) (s.setThread t { th with calling := true })
  | does {l : Label ν} {t : Nat} {th : Thread ν} {c : Cmd ν} {k : c.Res → Op ν Answer} {x : c.Res} {s' : State ν}
      (hl : l.thread = some t) (ht : s.threads[t]? = some th) (hop : th.op = .cmd c k)
      (hdoes : Does cfg s th.conn c x s') (hret : l.Returns s c x) : Steps cfg s l (s'.setThread t (th.next c k x))

theorem Starts.thread {l : Label ν} {conn : Nat} {op : Op ν Answer} {g : Ghost ν} (h : Starts cfg l conn op g) :
    l.thread = none := by
  cases h <;> rfl

theorem go_steps (h : s.go cfg t = some s') : Steps cfg s (.go t) s' := by
  obtain ⟨th, ht, h⟩ := bind_eq_some_iff.1 h
  cases hop : th.op with
  | pure a =>
    rw [hop] at h
    cases h
  | cmd c k =>
    rw [hop] at h
    have hdoes {x : c.Res} {s₁ : State ν} (hexec : s.exec cfg th.conn c = some (x, s₁)) :
        Steps cfg s (.go t) (s₁.setThread t (th.next c k x)) := by
      refine .does rfl ht hop (.exec hexec) ?_
      cases c with
      | call => cases hexec
      | _ => trivial
    cases c with
    | call n m =>
      simp only at h
      split at h
      · cases h
      · cases h
        rw [← hop]
        exact .enter ht hop
    | _ =>
      obtain ⟨⟨x, s₁⟩, hexec, rfl⟩ := map_eq_some_iff.1 h
      exact hdoes hexec

theorem finish_steps {r : Except Errno (Val ν)} (h : s.finish t r = some s') : Steps cfg s (.finish t r) s' := by
  obtain ⟨th, ht, h⟩ := bind_eq_some_iff.1 h
  cases hop : th.op with
  | pure a =>
    rw [hop] at h
    cases h
  | cmd c k =>
    rw [hop] at h
    cases c with
    | call n m =>
      simp only at h
      split at h
      · cases h
      · cases r with
        | error e =>
          simp only at h
          split at h
          · cases h
            exact .does rfl ht hop (.fail e ‹_›) trivial
          · cases h
        | ok v =>
          obtain ⟨⟨x, s₁⟩, hacc, rfl⟩ := map_eq_some_iff.1 h
          exact .does rfl ht hop (.call v hacc) ⟨t, v, s₁, rfl, hacc⟩
    | _ => cases h

theorem collect_steps {order : List Nat} (h : s.collect t order = some s') : Steps cfg s (.collect t order) s' := by
  obtain ⟨th, ht, h⟩ := bind_eq_some_iff.1 h
  cases hop : th.op with
  | pure a =>
    rw [hop] at h
    cases h
  | cmd c k =>
    rw [hop] at h
    cases c with
    | clunkAll =>
      simp only at h
      split at h
      · cases h
        exact .does rfl ht hop (.collect (isPerm_iff.1 ‹_›)) trivial
      · cases h
    | _ => cases h

theorem step_steps {l : Label ν} (h : step cfg s l = some s') : Steps cfg s l s' := by
  cases l with
  | request conn req =>
    cases h
    exact .start (.request conn req)
  | reVersion conn =>
    cases h
    exact .start (.reVersion conn)
  | negotiated conn msize =>
    cases h
    exact .negotiated
  | cleanup conn drained =>
    cases h
    exact .start (.cleanup conn drained)
  | go t => exact go_steps h
  | finish t r => exact finish_steps h
  | collect t order => exact collect_steps h

end Inversion

/-! ## The table -/

section Table

variable {o : Obj ν}

theorem find_some (h : s.find key = some r) : ∃ o, s.objs[r]? = some o ∧ o.key = some key := by
  obtain ⟨hlt, hkey, -⟩ := findIdx?_eq_some_iff_getElem.1 h
  exact ⟨_, getElem?_eq_getElem hlt, by simpa using hkey⟩

theorem mem_fidsOf : r ∈ s.fidsOf conn ↔ ∃ o, s.objs[r]? = some o ∧ o.isOf conn = true := by
  simp only [State.fidsOf, mem_filter, mem_range, Option.any_eq_true]
  constructor
  · rintro ⟨-, o, ho, hof⟩
    exact ⟨o, ho, hof⟩
  · rintro ⟨o, ho, hof⟩
    exact ⟨getElem?_lt ho, o, ho, hof⟩

theorem findIdx?_set {p : α → Bool} {l : List α} (h : l[i]? = some x) (hp : p y = p x) :
    (l.set i y).findIdx? p = l.findIdx? p := by
  induction l generalizing i with
  | nil => rfl
  | cons a l ih =>
    cases i with
    | zero =>
      obtain rfl : a = x := by simpa using h
      simp [findIdx?_cons, hp]
    | succ i => simp [findIdx?_cons, ih (i := i) (by simpa using h)]

theorem find_set (ho : s.objs[r]? = some o) (hkey : o'.key = o.key) :
    State.find { s with objs := s.objs.set r o' } key = s.find key :=
  findIdx?_set ho (by rw [hkey])

theorem onObj_some (h : s.onObj r f = some (x, s')) :
    ∃ o, s.objs[r]? = some o ∧ x = (f o).1 ∧ s' = { s with objs := s.objs.set r (f o).2 } := by
  obtain ⟨o, ho, h⟩ := map_eq_some_iff.1 h
  cases h
  exact ⟨o, ho, rfl, rfl⟩

theorem appendXattr_eq (o : Obj ν) (data : Bytes) : ∃ x, (o.appendXattr data).2 = { o with xattr := x } := by
  unfold Obj.appendXattr
  split
  · split
    · exact ⟨_, rfl⟩
    · split
      · exact ⟨_, rfl⟩
      · split
        · exact ⟨_, rfl⟩
        · split <;> exact ⟨_, rfl⟩
  · exact ⟨_, rfl⟩

theorem find_onObj (hfind : s.find key = some r) (h : s.onObj r f = some (x, s')) :
    ∃ o, s.objs[r]? = some o ∧ o.key = some key ∧ x = (f o).1 ∧ s' = { s with objs := s.objs.set r (f o).2 } := by
  obtain ⟨o, ho, hx, hs'⟩ := onObj_some h
  obtain ⟨o₁, ho₁, hkey⟩ := find_some hfind
  obtain rfl := mem_unique ho ho₁
  exact ⟨o, ho, hkey, hx, hs'⟩

/-- A command that looks for a fid, and works on its state. -/
theorem find_cases {f : Nat → Obj ν → α × Obj ν} {d : α}
    (h : (match s.find key with | none => some (d, s) | some i => s.onObj i (f i)) = some (x, s')) :
    (s.find key = none ∧ x = d ∧ s' = s) ∨ ∃ i o, s.find key = some i ∧ s.objs[i]? = some o ∧ o.key = some key ∧
      x = (f i o).1 ∧ s' = { s with objs := s.objs.set i (f i o).2 } := by
  cases hfind : s.find key with
  | none =>
    rw [hfind] at h
    cases h
    exact .inl ⟨rfl, rfl, rfl⟩
  | some i =>
    rw [hfind] at h
    obtain ⟨o, ho, hkey, hx, hs'⟩ := find_onObj hfind h
    exact .inr ⟨i, o, rfl, ho, hkey, hx, hs'⟩

end Table

/-! ## Calls -/

/-- What a call leaves as it was. -/
structure SameFids (s s' : State ν) : Prop where
  objs : s'.objs = s.objs
  refs : s'.refs = s.refs
  msize : s'.msize = s.msize
  threads : s'.threads = s.threads
  released : s'.released = s.released
  closed : s'.closed = s.closed

theorem accept_sameFids (h : s.accept n m v = some (x, s')) :
    SameFids s s' := by
  unfold State.accept at h
  split at h
  case h_6 =>
    obtain ⟨n, -, h⟩ := map_eq_some_iff.1 h
    cases h
    exact ⟨rfl, rfl, rfl, rfl, rfl, rfl⟩
  all_goals
    cases h
    try exact ⟨rfl, rfl, rfl, rfl, rfl, rfl⟩

/-! ## What no command changes -/

section Frame

variable [DecidableEq ν]

/-- What a command other than a call leaves as it was, the records of `release` and `close` apart. -/
structure Frame (s s' : State ν) (c : Cmd ν) : Prop where
  threads : s'.threads = s.threads
  opens : s'.opens = s.opens
  made : s'.made = s.made
  released : s'.released = s.released ∨ ∃ h, c = .release h ∧ s'.released = h.id :: s.released
  closed : s'.closed = s.closed ∨ ∃ n, c = .close n ∧ s'.closed = n :: s.closed

omit [DecidableEq ν] in
theorem onObj_frame {x : α} (h : s.onObj i f = some (x, s')) : Frame s s' c := by
  obtain ⟨o, -, -, rfl⟩ := onObj_some h
  exact ⟨rfl, rfl, rfl, .inl rfl, .inl rfl⟩

omit [DecidableEq ν] in
theorem find_frame {f : Nat → Obj ν → α × Obj ν} {x : α}
    (h : (match s.find key with | none => some (d, s) | some i => s.onObj i (f i)) = some (x, s')) : Frame s s' c := by
  split at h
  · cases h
    exact ⟨rfl, rfl, rfl, .inl rfl, .inl rfl⟩
  · exact onObj_frame h

theorem exec_frame (h : s.exec cfg conn c = some (x, s')) : Frame s s' c := by
  cases c with
  | get | msize | refs | incRef | decRef =>
    cases h
    exact ⟨rfl, rfl, rfl, .inl rfl, .inl rfl⟩
  | release handle =>
    cases h
    exact ⟨rfl, rfl, rfl, .inr ⟨handle, rfl, rfl⟩, .inl rfl⟩
  | close n =>
    cases h
    exact ⟨rfl, rfl, rfl, .inl rfl, .inr ⟨n, rfl, rfl⟩⟩
  | add =>
    simp only [State.exec] at h
    repeat' split at h
    all_goals
      cases h
      exact ⟨rfl, rfl, rfl, .inl rfl, .inl rfl⟩
  | clunk => exact find_frame (f := fun i o => (some i, { o with key := none })) h
  | update | markOpenedWithHandle | updateAndOpen => exact find_frame (f := fun _ => _) h
  | clunkAll | call => cases h
  | _ => exact onObj_frame h

theorem Does.threads (h : Does cfg s conn c x s') : s'.threads = s.threads := by
  cases h with
  | exec h => exact (exec_frame h).threads
  | fail => rfl
  | call v h => exact (accept_sameFids h).threads
  | collect => rfl

theorem Does.closed (h : Does cfg s conn c x s') :
    s'.closed = s.closed ∨ ∃ n, c = .close n ∧ s'.closed = n :: s.closed := by
  cases h with
  | exec h => exact (exec_frame h).closed
  | fail | collect => exact .inl rfl
  | call v h => exact .inl (accept_sameFids h).closed

/-- The command that puts a fid into the table. -/
def Cmd.adds : Cmd ν → Bool
  | .add _ _ _ => true
  | _ => false

/-- The fid state that a command is on. -/
def Cmd.target (s : State ν) (conn : Nat) : Cmd ν → Option Nat
  | .clunk fid | .update fid _ | .markOpenedWithHandle fid _ | .updateAndOpen fid _ _ => s.find (conn, fid)
  | .currentState fs | .currentNode fs | .handle fs | .takeHandle fs | .beginIo fs | .endIo fs | .finishClunk fs _
  | .setXattrWrite fs _ _ _ _ | .takeXattr fs | .appendXattr fs _ | .dirStale fs _ | .dirStore fs => some fs
  | _ => none

/-- What the command makes of it. -/
def Cmd.edit (o : Obj ν) : Cmd ν → Obj ν
  | .clunk _ => { o with key := none }
  | .update _ node => { o with node := node }
  | .markOpenedWithHandle _ h => if o.state ≠ .allocated then o else { o with state := .opened, handle := some h }
  | .updateAndOpen _ node h =>
    if o.state ≠ .allocated then o else { o with node := node, state := .opened, handle := some h }
  | .takeHandle _ => { o with taken := true }
  | .beginIo _ => { o with toFidState := o.beginIo.2 }
  | .endIo _ => { o with toFidState := o.endIo.2 }
  | .finishClunk _ closeNode => { o with toFidState := (o.finishClunk closeNode).2 }
  | .setXattrWrite _ name size flags writer =>
    { o with state := .xattrWrite, xattr := some ⟨o.node, name, size, flags, [], writer⟩ }
  | .takeXattr _ => o.takeXattr.2
  | .appendXattr _ data => (o.appendXattr data).2
  | .dirStale _ offset => if offset = 0 ∨ !o.dirCached then { o with dirCached := false } else o
  | .dirStore _ => { o with dirCached := true }
  | _ => o

/-- What a command other than a call and `clunkAll` does to the fid states. -/
inductive Edits (s s' : State ν) (conn : Nat) (c : Cmd ν) : Prop
  | same (hobjs : s'.objs = s.objs)
  | add {fid : Fid} {node : ν} {state : FidStatus} (hc : c = .add fid node state)
      (hobjs : s'.objs = s.objs ++ [.new (conn, fid) node state])
  | edit {i : Nat} {o : Obj ν} (htarget : c.target s conn = some i) (ho : s.objs[i]? = some o)
      (hobjs : s'.objs = s.objs.set i (c.edit o))

omit [DecidableEq ν] in
theorem onObj_edits {x : α} (h : s.onObj i f = some (x, s')) (htarget : c.target s conn = some i)
    (hf : ∀ o, (f o).2 = c.edit o) : Edits s s' conn c := by
  obtain ⟨o, ho, -, rfl⟩ := onObj_some h
  exact .edit htarget ho (by rw [hf])

omit [DecidableEq ν] in
theorem find_edits {fid : Fid} {f : Nat → Obj ν → α × Obj ν} {x : α}
    (h : (match s.find (conn, fid) with | none => some (d, s) | some i => s.onObj i (f i)) = some (x, s'))
    (htarget : c.target s conn = s.find (conn, fid)) (hf : ∀ i o, (f i o).2 = c.edit o) : Edits s s' conn c := by
  cases hfind : s.find (conn, fid) with
  | none =>
    rw [hfind] at h
    cases h
    exact .same rfl
  | some i =>
    rw [hfind] at h
    exact onObj_edits h (htarget.trans hfind) (hf i)

theorem exec_edits (h : s.exec cfg conn c = some (x, s')) : Edits s s' conn c := by
  cases c with
  | get | msize | incRef | decRef | refs | release | close =>
    cases h
    exact .same rfl
  | add fid node state =>
    simp only [State.exec] at h
    repeat' split at h
    all_goals cases h
    · exact .same rfl
    · exact .same rfl
    · exact .add rfl rfl
  | clunk => exact find_edits (f := fun i o => (some i, { o with key := none })) h rfl fun _ _ => rfl
  | update => exact find_edits (f := fun _ => _) h rfl fun _ _ => rfl
  | markOpenedWithHandle | updateAndOpen =>
    refine find_edits (f := fun _ => _) h rfl fun _ o => ?_
    simp only [Cmd.edit]
    split <;> rfl
  | dirStale =>
    refine onObj_edits h rfl fun o => ?_
    simp only [Cmd.edit]
    split <;> rfl
  | clunkAll | call => cases h
  | _ => exact onObj_edits h rfl fun _ => rfl

omit [DecidableEq ν] in
theorem edit_key (c : Cmd ν) (o : Obj ν) : (c.edit o).key = o.key ∨ (c.edit o).key = none := by
  cases c with
  | clunk => exact .inr rfl
  | markOpenedWithHandle | updateAndOpen | dirStale =>
    simp only [Cmd.edit]
    split <;> exact .inl rfl
  | takeXattr =>
    simp only [Cmd.edit, Obj.takeXattr]
    split <;> exact .inl rfl
  | appendXattr fs data =>
    obtain ⟨x, hx⟩ := appendXattr_eq o data
    simp only [Cmd.edit, hx, true_or]
  | _ => exact .inl rfl

/-- The table of a connection gets a fid from `add` only, and the other commands leave each fid state where it is or
remove it. -/
theorem Does.keys (h : Does cfg s conn c x s') {o' : Obj ν} (ho' : o' ∈ s'.objs) (hkey : o'.key = some key) :
    (∃ o ∈ s.objs, o.key = some key) ∨ c.adds = true ∧ key.1 = conn := by
  cases h with
  | fail => exact .inl ⟨o', ho', hkey⟩
  | call v h =>
    rw [(accept_sameFids h).objs] at ho'
    exact .inl ⟨o', ho', hkey⟩
  | collect =>
    obtain ⟨o, ho, rfl⟩ := mem_map.1 ho'
    split at hkey
    · cases hkey
    · exact .inl ⟨o, ho, hkey⟩
  | exec h =>
    cases exec_edits h with
    | same hobjs => exact .inl ⟨o', hobjs ▸ ho', hkey⟩
    | add hc hobjs =>
      rw [hobjs] at ho'
      rcases mem_append.1 ho' with ho' | ho'
      · exact .inl ⟨o', ho', hkey⟩
      · rw [mem_singleton.1 ho'] at hkey
        cases hkey
        exact .inr ⟨by rw [hc]; rfl, rfl⟩
    | @edit i o htarget ho hobjs =>
      rw [hobjs] at ho'
      rcases mem_or_eq_of_mem_set ho' with ho' | rfl
      · exact .inl ⟨o', ho', hkey⟩
      · rcases edit_key c o with hsame | hnone
        · exact .inl ⟨o, mem_of_getElem? ho, hsame ▸ hkey⟩
        · rw [hnone] at hkey
          cases hkey

end Frame

/-! ## Threads that keep to rules -/

section Keeps

variable [DecidableEq ν] {ρ : Type}

/-- `Inv` relates the state to the resources of the threads, and every step that meets `C` keeps it: a thread that
starts gets resources that its program runs with, and a command changes them as the rules say. -/
structure Keeps (cfg : Config ν) (S : Rules (Cmd ν) Cmd.Res ρ) (Q : Answer → ρ → Prop) (C : State ν → Label ν → Prop)
    (Inv : State ν → List ρ → Prop) : Prop where
  start : ∀ {s rs l conn op g}, Inv s rs → C s l → Starts cfg l conn op g →
    ∃ r, S.Wp op Q r ∧ Inv { s with threads := s.threads ++ [{ conn, op, ghost := g }] } (rs ++ [r])
  negotiated : ∀ {s rs conn msize}, Inv s rs → Inv { s with msize := Function.update s.msize conn msize } rs
  enter : ∀ {s rs t th n m k}, Inv s rs → s.threads[t]? = some th → th.op = .cmd (.call n m) k →
    Inv (s.setThread t { th with calling := true }) rs
  does : ∀ {s rs l t th c k x s' r}, Inv s rs → C s l → l.thread = some t → s.threads[t]? = some th →
    th.op = .cmd c k → rs[t]? = some r → S.pre c r → Does cfg s th.conn c x s' → l.Returns s c x →
    ∃ r', S.post c r x r' ∧ Inv (s'.setThread t (th.next c k x)) (rs.set t r')

variable {Q : Answer → ρ → Prop} {C : State ν → Label ν → Prop}
  {Inv : State ν → List ρ → Prop}

omit [DecidableEq ν] in
theorem setThread_ops :
    (s.setThread t th).threads.map (·.op) = (s.threads.map (·.op)).set t th.op := map_set

theorem Keeps.step (hkeeps : Keeps cfg S Q C Inv) {l : Label ν} {rs : List ρ} (hpool : S.Pool Q (s.threads.map (·.op)) rs)
    (hinv : Inv s rs) (hC : C s l) (h : step cfg s l = some s') :
    ∃ rs', S.Pool Q (s'.threads.map (·.op)) rs' ∧ Inv s' rs' := by
  cases step_steps h with
  | start hstart =>
    obtain ⟨r, hwp, hinv'⟩ := hkeeps.start hinv hC hstart
    refine ⟨_, ?_, hinv'⟩
    rw [map_append]
    exact hpool.add hwp
  | negotiated => exact ⟨rs, hpool, hkeeps.negotiated hinv⟩
  | @enter t th n m k ht hop =>
    refine ⟨rs, ?_, hkeeps.enter hinv ht hop⟩
    -- the program is the same, so its resources are
    obtain ⟨r, hr, hwp⟩ := hpool.get (by rw [getElem?_map, ht, map_some])
    have hset : rs.set t r = rs := by
      obtain ⟨hlt, rfl⟩ := List.getElem?_eq_some_iff.1 hr
      exact set_getElem_self hlt
    rw [setThread_ops, ← hset]
    exact hpool.set hwp
  | does hl ht hop hdoes hret =>
    obtain ⟨r, hr, hwp⟩ := hpool.get (by rw [getElem?_map, ht, map_some, hop])
    obtain ⟨r', hpost, hinv'⟩ := hkeeps.does hinv hC hl ht hop hr hwp.1 hdoes hret
    refine ⟨_, ?_, hinv'⟩
    rw [setThread_ops, hdoes.threads]
    exact hpool.set (hwp.2 _ r' hpost)

/-- **The invariant after a whole run**, with the threads on their way through their programs. -/
theorem Keeps.run (hkeeps : Keeps cfg S Q C Inv) (hinit : Inv init []) {ls : List (Label ν)}
    (hC : Meets (Handlers.step cfg) C init ls) (h : Transition.run (Handlers.step cfg) init ls = some s) :
    ∃ rs, S.Pool Q (s.threads.map (·.op)) rs ∧ Inv s rs := by
  refine run_inv_of_meets (P := fun s => ∃ rs, S.Pool Q (s.threads.map (·.op)) rs ∧ Inv s rs) ?_ ?_ hC h
  · rintro s l s' ⟨rs, hpool, hinv⟩ hC hstep
    exact hkeeps.step hpool hinv hC hstep
  · exact ⟨[], .nil, hinit⟩

end Keeps

/-! ## A plain server, and how its runs begin -/

/-- A server for nodes that implement everything. -/
def plainConfig : Config Nat where
  attacher := false
  root := 0
  anames := none
  maxFids := 0
  implements _ _ := true

/-- `Tattach`. -/
def attachLabels : List (Label Nat) :=
  [.negotiated 0 8192, .request 0 (.attach ⟨0, noFid, [], [], 0⟩), .go 0, .go 0, .go 0,
    .finish 0 (.ok (.qid ⟨qtDir, 0, 0⟩))]

/-- What handler `t` does for `Tlopen` of a fid: it finds the fid allocated, opens its node, and stores the handle. -/
def lopenSteps (t : Nat) : List (Label Nat) :=
  [.go t, .go t, .go t, .go t, .finish t (.ok (.handle [.fileReleaser])), .go t, .go t,
    .finish t (.ok (.qid ⟨0, 0, 0⟩)), .go t]

/-! ## The fid tables -/

section Tables

variable {cfg : Config ν}

/-- The tables of all connections. -/
def State.keys (s : State ν) : List (Nat × Fid) := s.objs.filterMap (·.key)

/-- **The fid tables are maps, of at most `maxFids` fids each.** -/
structure State.Tables (cfg : Config ν) (s : State ν) : Prop where
  unique : s.keys.Nodup
  limit : 0 < cfg.maxFids → ∀ conn, s.keys.countP (·.1 == conn) ≤ cfg.maxFids

theorem keys_sublist {objs objs' : List (Obj ν)} (h : Forall₂ (fun o o' => o'.key = o.key ∨ o'.key = none) objs objs') :
    objs'.filterMap (·.key) <+ objs.filterMap (·.key) := by
  induction h with
  | nil => exact .slnil
  | @cons o o' _ _ ho _ ih =>
    rw [filterMap_cons, filterMap_cons]
    rcases ho with ho | ho <;> rw [ho] <;> cases o.key
    exacts [ih, ih.cons_cons _, ih, ih.cons _]

theorem State.Tables.sublist (hs : s.Tables cfg) (h : s'.keys <+ s.keys) : s'.Tables cfg :=
  ⟨hs.unique.sublist h, fun hpos conn => Int.le_trans (Int.ofNat_le.2 h.countP_le) (hs.limit hpos conn)⟩

theorem State.Tables.add (hs : s.Tables cfg) (hkeys : s'.keys = s.keys ++ [(conn, fid)]) (hnew : (conn, fid) ∉ s.keys)
    (hroom : ¬(0 < cfg.maxFids ∧ cfg.maxFids ≤ s.keys.countP (·.1 == conn))) : s'.Tables cfg := by
  refine ⟨?_, fun hpos conn' => ?_⟩
  · rw [hkeys, nodup_append]
    exact ⟨hs.unique, by simp, by grind⟩
  · rw [hkeys, countP_append]
    have := hs.limit hpos conn'
    by_cases hc : conn = conn' <;> simp [hc] <;> grind

variable [DecidableEq ν]

theorem Does.tables (h : Does cfg s conn c x s') (hs : s.Tables cfg) : s'.Tables cfg := by
  have hsame (h : s'.objs = s.objs) : s'.Tables cfg := hs.sublist (by rw [State.keys, h]; exact .refl _)
  cases h with
  | fail => exact hs
  | call v h => exact hsame (accept_sameFids h).objs
  | collect =>
    refine hs.sublist (keys_sublist (forall₂_map_right_iff.2 (forall₂_same.2 fun o _ => ?_)))
    split <;> simp
  | exec h =>
    cases exec_edits h with
    | same hobjs => exact hsame hobjs
    | edit _ ho hobjs =>
      refine hs.sublist (keys_sublist (forall₂_iff_get.2 ⟨by simp [hobjs], ?_⟩))
      have := edit_key c
      simp only [get_eq_getElem]
      grind
    | @add fid node state hc hobjs =>
      subst hc
      have hkeys : s'.keys = s.keys ++ [(conn, fid)] := by simp [State.keys, hobjs, Obj.new]
      have hcount : s.objs.countP (·.isOf conn) = s.keys.countP (·.1 == conn) := by
        simp only [State.keys, countP_filterMap]
        refine countP_congr fun o _ => ?_
        cases h : o.key <;> simp [Obj.isOf, h]
      -- `add` has made both checks
      obtain ⟨hroom, hfind⟩ : ¬(0 < cfg.maxFids ∧ cfg.maxFids ≤ s.objs.countP (·.isOf conn)) ∧
          ¬(s.find (conn, fid)).isSome = true := by
        simp only [State.exec] at h
        constructor <;> intro hno <;> simp only [hno, if_true, and_self] at h <;> grind
      exact hs.add hkeys (by simpa [State.find, State.keys] using hfind) (hcount ▸ hroom)

theorem fid_tables {ls : List (Label ν)} (h : run (step cfg) init ls = some s) : s.Tables cfg := by
  have hinit : State.Tables cfg init := ⟨nodup_nil, fun hpos _ => Int.le_of_lt hpos⟩
  refine run_inv (fun hs hstep => ?_) hinit h
  cases step_steps hstep with
  | start | negotiated | enter => exact ⟨hs.unique, hs.limit⟩
  | does _ _ _ hdoes => exact ⟨(hdoes.tables hs).unique, (hdoes.tables hs).limit⟩

end Tables

/-- The second `Tattach` finds the table full. -/
def fullLabels : List (Label Nat) :=
  attachLabels ++ [.request 0 (.attach ⟨1, noFid, [], [], 0⟩), .go 1]

theorem fid_tables_full : ∃ s, run (step { plainConfig with maxFids := 1 }) init fullLabels = some s ∧
    s.keys = [(0, 0)] ∧ s.Tables { plainConfig with maxFids := 1 } :=
  ⟨_, rfl, rfl, fid_tables (show run _ init fullLabels = _ from rfl)⟩

end NineP.Server.Handlers
