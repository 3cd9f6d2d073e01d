import NineP.Server.Requests

/-!
# Writers of an extended attribute against its clunk

Any number of `Twrite` handlers and one `Tclunk` handler on a fid that a `Txattrcreate` has put into the xattr-write
state.  The buffer is made of the payloads of the writes that were answered, in this order.
-/

namespace NineP.Server.Handlers

open Codec Proto Program Transition List Option

variable {ν : Type}

/-! ## What happened in a run -/

structure Trace (ν : Type) where
  /-- Request number `t` is served by thread `t`. -/
  reqs : List Request := []
  /-- The calls into the file system that have begun, and the threads that made them. -/
  calls : List (Nat × Option ν × Method ν) := []
  /-- The threads that have answered without an error, in this order. -/
  granted : List Nat := []

/-- The thread has answered without an error. -/
def Thread.granted (th : Thread ν) : Bool :=
  match th.op with
  | .pure (.ok ()) => true
  | _ => false

/-- The call that thread `t` begins with the command. -/
def Cmd.begins (t : Nat) : Cmd ν → List (Nat × Option ν × Method ν)
  | .call n m => [(t, n, m)]
  | _ => []

/-- The call that thread `t` begins when it goes on. -/
def State.begins (s : State ν) (t : Nat) : List (Nat × Option ν × Method ν) := (s.nextCmd t).toList.flatMap (Cmd.begins t)

/-- Thread `t` has come to its end without an error. -/
def State.grants (s : State ν) (t : Nat) : List Nat := if s.threads[t]?.any Thread.granted then [t] else []

/-- The step `l` from `s` to `s'`. -/
def Trace.note (tr : Trace ν) (s s' : State ν) : Label ν → Trace ν
  | .request _ req => { tr with reqs := tr.reqs ++ [req] }
  | .go t => { tr with calls := tr.calls ++ s.begins t, granted := tr.granted ++ s'.grants t }
  | .finish t _ => { tr with granted := tr.granted ++ s'.grants t }
  | _ => tr

/-- The steps of the server, with the records of the run. -/
def traced [DecidableEq ν] (cfg : Config ν) (x : State ν × Trace ν) (l : Label ν) : Option (State ν × Trace ν) :=
  (step cfg x.1 l).map fun s' => (s', x.2.note x.1 s' l)

/-- What a `Twrite` has to write. -/
def Request.payload : Request → Option Bytes
  | .write m => some m.data
  | _ => none

def Request.isClunk : Request → Bool
  | .clunk _ => true
  | _ => false

/-- The payloads of the writes that were answered without an error, one after another. -/
def Trace.written (tr : Trace ν) : Bytes := (tr.granted.filterMap fun t => tr.reqs[t]?.bind Request.payload).flatten

/-- The thread is about to call the xattr writer, or in the call. -/
def Thread.writing (th : Thread ν) : Bool :=
  match th.op with
  | .cmd (.call _ (.writeXattr _)) _ => true
  | _ => false

/-- The calls that commit an attribute. -/
def Method.commits : Method ν → Bool
  | .setXattr _ _ _ | .commitXattr => true
  | _ => false

/-- The calls that hand data to an xattr writer. -/
def Method.writes : Method ν → Bool
  | .writeXattr _ => true
  | _ => false

def Trace.commits (tr : Trace ν) : List (Nat × Option ν × Method ν) := tr.calls.filter fun c => c.2.2.commits

/-! ## The runs -/

/-- Fid `fid` of connection `conn` is the fid state `r`, which `Txattrcreate` has made an xattr-write fid.  No handler is
at work. -/
structure Created (s : State ν) (conn : Nat) (fid : Fid) (r : Nat) (x : Xattr ν) : Prop where
  threads : s.threads = []
  obj : ∃ o, s.objs[r]? = some o ∧ o.key = some (conn, fid) ∧ o.state = .xattrWrite ∧ o.closing = false ∧ o.xattr = some x
  empty : x.data = []
  unique : ∀ i o, s.objs[i]? = some o → o.key = some (conn, fid) → i = r

/-- `Twrite`s of the fid, and one `Tclunk` of it. -/
def onFid (conn : Nat) (fid : Fid) (y : State ν × Trace ν) : Label ν → Bool
  | .request c (.write m) => c = conn ∧ m.fid = fid
  | .request c (.clunk m) => c = conn ∧ m.fid = fid ∧ y.2.reqs.any Request.isClunk = false
  | .go _ | .finish _ _ => true
  | _ => false

/-- When the handler of the clunk marks the fid as closing, no handler of a write is on its way to the xattr writer or in
a call of it. -/
def settled (y : State ν × Trace ν) : Label ν → Bool
  | .go t =>
    match y.1.nextCmd t with
    | some (.takeXattr _) => !y.1.threads.any Thread.writing
    | _ => true
  | _ => true

/-! ## Where the handlers are -/

section Points

variable (cfg : Config ν) (r : Nat)

/-- `handleWrite` from its critical section on. -/
def writeBody (m : Twrite) : Op ν Answer := do
  match ← exec (.appendXattr r m.data) with
  | .refused e => pure (.error e)
  | .writer => callOther (.writeXattr m.data)
  | .appended => pure (.ok ())
  | .other .opened => withIo cfg r (preferHandle cfg r .fileWriter .nodeWriter (.write m.offset m.data))
  | .other _ => pure (.error EBADF)

inductive WritePt
  | get
  | append
  | call
  | answered (a : Answer)

def WritePt.op (m : Twrite) : WritePt → Op ν Answer
  | .get => handleWrite cfg m
  | .append => writeBody cfg r m
  | .call => callOther (.writeXattr m.data)
  | .answered a => pure a

/-- `handleClunk` from its critical section on. -/
def clunkTake (lastRef : Bool) : Op ν Answer := do
  match ← exec (.takeXattr r) with
  | some x => commitXattr cfg x
  | none => do
    finishClunk cfg r lastRef
    pure (.ok ())

/-- `handleClunk` once the fid is out of the table. -/
def clunkNode : Op ν Answer := do
  let node ← exec (.currentNode r)
  let lastRef ← decRefNode cfg node
  clunkTake cfg r lastRef

/-- The fid is in the table, out of it, or its buffer has been taken. -/
inductive Phase
  | bound
  | clunked
  | taken
  deriving DecidableEq

inductive ClunkPt (ν : Type)
  | get
  | node
  | ref (n : ν)
  | take (lastRef : Bool)
  | commit
  | answered (a : Answer)

def ClunkPt.phase : ClunkPt ν → Phase
  | .get => .bound
  | .node | .ref _ | .take _ => .clunked
  | .commit | .answered _ => .taken

def ClunkPt.op (m : Tclunk) (x : Xattr ν) : ClunkPt ν → Op ν Answer
  | .get => handleClunk cfg m
  | .node => clunkNode cfg r
  | .ref n => do
    let lastRef ← exec (.decRef n)
    clunkTake cfg r lastRef
  | .take lastRef => clunkTake cfg r lastRef
  | .commit => commitXattr cfg x
  | .answered a => pure a

end Points

theorem handleWrite_eq (cfg : Config ν) (m : Twrite) : handleWrite cfg m = .cmd (.get m.fid) fun
    | none => pure (.error EBADF)
    | some fs => writeBody cfg fs m := by
  show Prog.cmd _ _ = _
  congr 1
  funext x
  cases x with
  | none => rfl
  | some fs =>
    show (Prog.cmd _ _ : Op ν Answer) = Prog.cmd _ _
    congr 1
    funext y
    cases y with
    | other state => cases state <;> rfl
    | _ => rfl

/-! ## The invariant -/

def commitCall (x : Xattr ν) : Option ν × Method ν :=
  if x.writer then (none, .commitXattr) else (some x.node, .setXattr x.name x.data x.flags)

section Inv

variable (cfg : Config ν) (conn : Nat) (fid : Fid) (r : Nat) (x₀ : Xattr ν)

def writeCall (t : Nat) (m : Twrite) : Nat × Option ν × Method ν := (t, none, .writeXattr m.data)

/-- What is known of a handler of a `Twrite`. -/
def WriteOk (ph : Phase) (tr : Trace ν) (t : Nat) (m : Twrite) (calling : Bool) : WritePt → Prop
  | .get | .append => t ∉ tr.granted
  | .call => t ∉ tr.granted ∧ x₀.writer = true ∧ ph ≠ .taken ∧ (calling = true → writeCall t m ∈ tr.calls)
  | .answered a => (a = .ok () ↔ t ∈ tr.granted) ∧ (x₀.writer = true → a = .ok () → writeCall t m ∈ tr.calls)

def AtWrite (ph : Phase) (tr : Trace ν) (t : Nat) (th : Thread ν) (m : Twrite) : Prop :=
  m.fid = fid ∧ ∃ p : WritePt, th.op = p.op cfg r m ∧ WriteOk x₀ ph tr t m th.calling p

def AtClunk (ph : Phase) (data : Bytes) (tr : Trace ν) (th : Thread ν) (m : Tclunk) : Prop :=
  m.fid = fid ∧ ∃ p : ClunkPt ν, th.op = p.op cfg r m { x₀ with data } ∧ p.phase = ph ∧
    (p = .commit → th.calling = false → tr.commits = [])

/-- The fid state has `data` in its buffer. -/
structure Buffer (ph : Phase) (data : Bytes) (o : Obj ν) : Prop where
  state : o.state = .xattrWrite
  xattr : o.xattr = some { x₀ with data }
  closing : o.closing = true ↔ ph = .taken
  key : o.key = if ph = .bound then some (conn, fid) else none

structure WriteInv (ph : Phase) (data : Bytes) (s : State ν) (tr : Trace ν) : Prop where
  len : tr.reqs.length = s.threads.length
  conns : ∀ th ∈ s.threads, th.conn = conn
  obj : ∃ o, s.objs[r]? = some o ∧ Buffer conn fid x₀ ph data o
  unique : ∀ i o, s.objs[i]? = some o → o.key = some (conn, fid) → i = r
  fits : data.length ≤ x₀.size.toNat
  payload : data = if x₀.writer then [] else tr.written
  granted : ∀ t ∈ tr.granted, t < tr.reqs.length
  only : ∀ req ∈ tr.reqs, (∃ m, req = .write m) ∨ ∃ m, req = .clunk m
  writes : ∀ (t : Nat) th (m : Twrite), s.threads[t]? = some th → tr.reqs[t]? = some (.write m) → AtWrite cfg fid r x₀ ph tr t th m
  clunks : ∀ (t : Nat) th (m : Tclunk), s.threads[t]? = some th → tr.reqs[t]? = some (.clunk m) → AtClunk cfg fid r x₀ ph data tr th m
  one : ∀ (i j : Nat) (m m' : Tclunk), tr.reqs[i]? = some (.clunk m) → tr.reqs[j]? = some (.clunk m') → i = j
  begun : ph ≠ .bound → tr.reqs.any Request.isClunk = true
  early : ph ≠ .taken → tr.commits = []
  committed : ∀ c ∈ tr.commits, c.2 = commitCall { x₀ with data } ∧ (x₀.writer = false → data.length = x₀.size.toNat)
  once : tr.commits.length ≤ 1
  ordered : tr.calls.Pairwise fun c d => c.2.2.commits = true → d.2.2.writes = false

end Inv

section Steps

variable {x₀ : Xattr ν}
  {s s' : State ν} {tr : Trace ν} {t : Nat} {th th' : Thread ν}

theorem WriteInv.find (h : WriteInv cfg conn fid r x₀ ph data s tr) :
    s.find (conn, fid) = if ph = .bound then some r else none := by
  obtain ⟨o, ho, hbuf⟩ := h.obj
  cases hfind : s.find (conn, fid) with
  | none =>
    split
    · rename_i hph
      have hkey : o.key = some (conn, fid) := by rw [hbuf.key, if_pos hph]
      have := findIdx?_eq_none_iff.1 hfind o (mem_of_getElem? ho)
      simp [hkey] at this
    · rfl
  | some i =>
    obtain ⟨o', ho', hkey'⟩ := find_some hfind
    obtain rfl := h.unique i o' ho' hkey'
    obtain rfl := mem_unique ho ho'
    rw [hbuf.key] at hkey'
    split at hkey'
    · rw [if_pos ‹_›]
    · cases hkey'

theorem Trace.commits_append (tr : Trace ν) (cs : List (Nat × Option ν × Method ν)) (gs : List Nat) :
    Trace.commits { tr with calls := tr.calls ++ cs, granted := tr.granted ++ gs } =
      tr.commits ++ cs.filter fun c => c.2.2.commits := filter_append _ _

theorem written_append (tr : Trace ν) (hgranted : ∀ t ∈ tr.granted, t < tr.reqs.length) (req : Request) :
    Trace.written { tr with reqs := tr.reqs ++ [req] } = tr.written := by
  unfold Trace.written
  congr 1
  refine filterMap_congr fun t ht => ?_
  rw [getElem?_append_left (hgranted t ht)]

/-! ### A handler of a write goes on -/

variable {m : Twrite} {c : Cmd ν} {k : c.Res → Op ν Answer} {o : Obj ν}

theorem AtWrite.other (h : AtWrite cfg fid r x₀ ph tr u th m)
    (hph : ph' = .taken → ph = .taken ∨ th.writing = false) (hgranted : u ∈ tr'.granted ↔ u ∈ tr.granted)
    (hcalls : ∀ c ∈ tr.calls, c ∈ tr'.calls) :
    AtWrite cfg fid r x₀ ph' tr' u th m := by
  obtain ⟨hfid, p, hop, hok⟩ := h
  refine ⟨hfid, p, hop, ?_⟩
  cases p with
  | get | append => exact fun hmem => hok (hgranted.1 hmem)
  | call =>
    obtain ⟨hnot, hw, hopen, hcall⟩ := hok
    refine ⟨fun hmem => hnot (hgranted.1 hmem), hw, fun htaken => ?_, fun hc => hcalls _ (hcall hc)⟩
    refine (hph htaken).elim hopen fun hidle => ?_
    rw [Thread.writing, hop] at hidle
    cases hidle
  | answered a => exact ⟨hok.1.trans hgranted.symm, fun hw ha => hcalls _ (hok.2 hw ha)⟩

/-- A handler of a write goes on: it may append to the buffer as long as that is not taken, call the writer, and answer. -/
theorem WriteInv.write (h : WriteInv cfg conn fid r x₀ ph data s tr) {m : Twrite} (ht : s.threads[t]? = some th)
    (hreq : tr.reqs[t]? = some (.write m)) {cs : List (Nat × Option ν × Method ν)} {gs : List Nat}
    (hthreads : s'.threads = s.threads.set t th') (hconn : th'.conn = th.conn)
    (hobj : ∃ o, s'.objs[r]? = some o ∧ Buffer conn fid x₀ ph data' o)
    (hunique : ∀ i o, s'.objs[i]? = some o → o.key = some (conn, fid) → i = r) (hdata : ph = .taken → data' = data)
    (hfits : data'.length ≤ x₀.size.toNat) (hgs : gs = [] ∨ gs = [t]) (hcs : ∀ c ∈ cs, c.2.2.commits = false)
    (hcs' : cs ≠ [] → ph ≠ .taken)
    (hpayload : data' = if x₀.writer then [] else
      Trace.written { tr with calls := tr.calls ++ cs, granted := tr.granted ++ gs })
    (hat : AtWrite cfg fid r x₀ ph { tr with calls := tr.calls ++ cs, granted := tr.granted ++ gs } t th' m) :
    WriteInv cfg conn fid r x₀ ph data' s' { tr with calls := tr.calls ++ cs, granted := tr.granted ++ gs } := by
  have hlt : t < tr.reqs.length := getElem?_lt hreq
  have hcommits : Trace.commits { tr with calls := tr.calls ++ cs, granted := tr.granted ++ gs } = tr.commits := by
    rw [Trace.commits_append, filter_eq_nil_iff.2 fun c hc => by simp [hcs c hc], append_nil]
  have hmem {u : Nat} (hu : u ≠ t) : u ∈ tr.granted ++ gs ↔ u ∈ tr.granted := by
    obtain rfl | rfl := hgs <;> simp [hu]
  refine ⟨?_, ?_, hobj, hunique, hfits, hpayload, ?_, h.only, ?_, ?_, h.one, h.begun, ?_, ?_, ?_, ?_⟩
  · rw [hthreads, length_set]
    exact h.len
  · rw [hthreads]
    exact forall_mem_set h.conns (hconn.trans (h.conns th (mem_of_getElem? ht)))
  · intro u hu
    obtain hu | hu := mem_append.1 hu
    · exact h.granted u hu
    · obtain rfl | rfl := hgs
      · cases hu
      · rw [mem_singleton.1 hu]
        exact hlt
  · intro u thu mu hu hrequ
    rw [hthreads] at hu
    obtain ⟨rfl, rfl⟩ | ⟨hne, hu⟩ := getElem?_set_cases hu
    · obtain rfl : m = mu := by simpa using hreq.symm.trans hrequ
      exact hat
    · exact (h.writes u thu mu hu hrequ).other .inl (hmem hne) fun c hc => mem_append_left _ hc
  · intro u thu mu hu hrequ
    rw [hthreads] at hu
    obtain ⟨rfl, rfl⟩ | ⟨hne, hu⟩ := getElem?_set_cases hu
    · rw [hreq] at hrequ
      cases hrequ
    · obtain ⟨hfid, p, hop, hphase, hcom⟩ := h.clunks u thu mu hu hrequ
      refine ⟨hfid, p, ?_, hphase, fun hp hcalling => by rw [hcommits]; exact hcom hp hcalling⟩
      rw [hop]
      cases p with
      | commit => rw [hdata hphase.symm]
      | _ => rfl
  · intro hph
    rw [hcommits]
    exact h.early hph
  · intro c hc
    rw [hcommits] at hc
    have htaken : ph = .taken := by
      by_contra hph
      rw [h.early hph] at hc
      cases hc
    rw [hdata htaken]
    exact h.committed c hc
  · rw [hcommits]
    exact h.once
  · refine pairwise_append.2 ⟨h.ordered, ?_, ?_⟩
    · exact pairwise_of_forall_mem_list fun c hc d _ hcom => absurd hcom (by simp [hcs c hc])
    · intro c hc d hd hcom
      have hnil := h.early (hcs' (ne_nil_of_mem hd))
      have hmem : c ∈ tr.commits := mem_filter.2 ⟨hc, hcom⟩
      rw [hnil] at hmem
      cases hmem

/-! ### The handler of the clunk goes on -/

theorem written_clunk {m : Tclunk} (hreq : tr.reqs[t]? = some (.clunk m)) (hgs : gs = [] ∨ gs = [t]) :
    Trace.written { tr with calls := tr.calls ++ cs, granted := tr.granted ++ gs } = tr.written := by
  obtain rfl | rfl := hgs
  · simp [Trace.written]
  · simp [Trace.written, filterMap_append, hreq, Request.payload]

/-- The handler of the clunk goes on: it may remove the fid, take the buffer, commit, and answer. -/
theorem WriteInv.clunk (h : WriteInv cfg conn fid r x₀ ph data s tr) {m : Tclunk} (ht : s.threads[t]? = some th)
    (hreq : tr.reqs[t]? = some (.clunk m)) {cs : List (Nat × Option ν × Method ν)} {gs : List Nat}
    (hthreads : s'.threads = s.threads.set t th') (hconn : th'.conn = th.conn)
    (hobj : ∃ o, s'.objs[r]? = some o ∧ Buffer conn fid x₀ ph' data o)
    (hunique : ∀ i o, s'.objs[i]? = some o → o.key = some (conn, fid) → i = r) (hgs : gs = [] ∨ gs = [t])
    (hcs : ∀ c ∈ cs, c.2.2.writes = false) (hlen : cs.length ≤ 1)
    (hcommit : ∀ c ∈ cs, c.2.2.commits = true → tr.commits = [] ∧ ph' = .taken ∧ c.2 = commitCall { x₀ with data } ∧
      (x₀.writer = false → data.length = x₀.size.toNat))
    (hback : ph' ≠ .taken → ph ≠ .taken)
    (hph : ph' = .taken → ph = .taken ∨ s.threads.any Thread.writing = false)
    (hat : AtClunk cfg fid r x₀ ph' data { tr with calls := tr.calls ++ cs, granted := tr.granted ++ gs } th' m) :
    WriteInv cfg conn fid r x₀ ph' data s' { tr with calls := tr.calls ++ cs, granted := tr.granted ++ gs } := by
  have hlt : t < tr.reqs.length := getElem?_lt hreq
  have hmem {u : Nat} (hu : u ≠ t) : u ∈ tr.granted ++ gs ↔ u ∈ tr.granted := by
    obtain rfl | rfl := hgs <;> simp [hu]
  refine ⟨?_, ?_, hobj, hunique, h.fits, ?_, ?_, h.only, ?_, ?_, h.one, ?_, ?_, ?_, ?_, ?_⟩
  · rw [hthreads, length_set]
    exact h.len
  · rw [hthreads]
    exact forall_mem_set h.conns (hconn.trans (h.conns th (mem_of_getElem? ht)))
  · rw [written_clunk hreq hgs]
    exact h.payload
  · intro u hu
    obtain hu | hu := mem_append.1 hu
    · exact h.granted u hu
    · obtain rfl | rfl := hgs
      · cases hu
      · rw [mem_singleton.1 hu]
        exact hlt
  · intro u thu mu hu hrequ
    rw [hthreads] at hu
    obtain ⟨rfl, rfl⟩ | ⟨hne, hu⟩ := getElem?_set_cases hu
    · rw [hreq] at hrequ
      cases hrequ
    · refine (h.writes u thu mu hu hrequ).other (fun htaken => ?_) (hmem hne) fun c hc => mem_append_left _ hc
      exact (hph htaken).imp id fun hidle => by simpa using any_eq_false.1 hidle thu (mem_of_getElem? hu)
  · intro u thu mu hu hrequ
    obtain rfl : t = u := h.one t u m mu hreq hrequ
    obtain rfl : m = mu := by simpa using hreq.symm.trans hrequ
    rw [hthreads] at hu
    obtain ⟨-, rfl⟩ | ⟨hne, -⟩ := getElem?_set_cases hu
    · exact hat
    · exact absurd rfl hne
  · exact fun _ => List.any_eq_true.2 ⟨_, mem_of_getElem? hreq, rfl⟩
  · intro hne
    rw [Trace.commits_append, h.early (hback hne), nil_append, filter_eq_nil_iff]
    exact fun c hc hcom => hne (hcommit c hc hcom).2.1
  · intro c hc
    rw [Trace.commits_append] at hc
    obtain hc | hc := mem_append.1 hc
    · exact h.committed c hc
    · obtain ⟨hc, hcom⟩ := mem_filter.1 hc
      exact (hcommit c hc hcom).2.2
  · rw [Trace.commits_append, length_append]
    cases hfilter : cs.filter fun c => c.2.2.commits with
    | nil => exact h.once
    | cons c rest =>
      obtain ⟨hc, hcom⟩ := mem_filter.1 (hfilter ▸ mem_cons_self : c ∈ cs.filter _)
      rw [(hcommit c hc hcom).1, ← hfilter, length_nil, Nat.zero_add]
      exact Nat.le_trans (length_filter_le _ _) hlen
  · refine pairwise_append.2 ⟨h.ordered, ?_, fun c _ d hd _ => hcs d hd⟩
    exact pairwise_of_forall_mem_list fun c _ d hd _ => hcs d hd

/-! ### Steps -/

theorem grants_cases (s : State ν) (t : Nat) : s.grants t = [] ∨ s.grants t = [t] := by
  unfold State.grants
  split
  · exact .inr rfl
  · exact .inl rfl

section

variable (ht : s.threads[t]? = some th)
include ht

theorem grants_of_op : s.grants t = if th.granted then [t] else [] := by
  simp [State.grants, ht]

theorem granted_iff (hop : th.op = .pure a) (hnot : t ∉ tr.granted) :
    a = .ok () ↔ t ∈ tr.granted ++ s.grants t := by
  have hgr : th.granted = true ↔ a = .ok () := by
    simp only [Thread.granted, hop]
    cases a with
    | error e | ok u => simp
  rw [grants_of_op ht, ← hgr]
  split <;> simp_all

theorem not_granted (hop : th.op = .cmd c k) : s.grants t = [] := by
  rw [grants_of_op ht, Thread.granted, hop]
  rfl

theorem begins_cmd (hop : th.op = .cmd c k) : s.begins t = c.begins t := by
  have hnext : s.nextCmd t = some c := by simp [State.nextCmd, ht, hop]
  simp [State.begins, hnext]

end

variable [DecidableEq ν]

theorem go_cases (hgo : s.go cfg t = some s') : ∃ th c k, s.threads[t]? = some th ∧ th.op = .cmd c k ∧
    ((∃ n m, c = .call n m ∧ th.calling = false ∧ s' = s.setThread t { th with calling := true }) ∨
      ∃ x s₁, s.exec cfg th.conn c = some (x, s₁) ∧ s₁.threads = s.threads ∧ s' = s₁.setThread t (th.next c k x)) := by
  obtain ⟨th, ht, hgo⟩ := bind_eq_some_iff.1 hgo
  cases hop : th.op with
  | pure a =>
    rw [hop] at hgo
    cases hgo
  | cmd c k =>
    refine ⟨th, c, k, ht, hop, ?_⟩
    rw [hop] at hgo
    cases c with
    | call n m =>
      simp only at hgo
      split at hgo
      · cases hgo
      · rename_i hcalling
        cases hgo
        exact .inl ⟨n, m, rfl, by simpa using hcalling, by rw [← hop]⟩
    | _ =>
      obtain ⟨⟨x, s₁⟩, hexec, rfl⟩ := map_eq_some_iff.1 hgo
      exact .inr ⟨x, s₁, hexec, (exec_frame hexec).threads, rfl⟩

omit [DecidableEq ν] in
/-- A handler of a write comes to the point `p`, and leaves the buffer as it is. -/
theorem WriteInv.write_to (h : WriteInv cfg conn fid r x₀ ph data s tr) (ht : s.threads[t]? = some th)
    (hreq : tr.reqs[t]? = some (.write m)) (hnot : t ∉ tr.granted) {p : WritePt} (hobjs : s'.objs = s.objs)
    (hthreads : s'.threads = s.threads.set t th') (hconn : th'.conn = th.conn) (hop : th'.op = p.op cfg r m)
    (hcs : cs = [] ∨ cs = [writeCall t m] ∧ ph ≠ .taken)
    (hcall : p = .call → x₀.writer = true ∧ ph ≠ .taken ∧ (th'.calling = true → writeCall t m ∈ tr.calls ++ cs))
    (hans : p = .answered (.ok ()) → x₀.writer = true ∧ writeCall t m ∈ tr.calls ++ cs) :
    WriteInv cfg conn fid r x₀ ph data s'
      { tr with calls := tr.calls ++ cs, granted := tr.granted ++ s'.grants t } := by
  have hget : s'.threads[t]? = some th' := by
    rw [hthreads, set_same ht _]
  have hobj := hobjs ▸ h.obj
  have hunique := hobjs ▸ h.unique
  have hfid := (h.writes t th m ht hreq).1
  have hcom : ∀ c ∈ cs, c.2.2.commits = false := by
    obtain rfl | ⟨rfl, -⟩ := hcs
    · simp
    · simp [writeCall, Method.commits]
  have hopen : cs ≠ [] → ph ≠ .taken := by
    obtain rfl | ⟨-, hph⟩ := hcs
    · simp
    · exact fun _ => hph
  have hpayload {gs : List Nat} (hgs : x₀.writer = true ∨ gs = []) : data = if x₀.writer then [] else
      Trace.written { tr with calls := tr.calls ++ cs, granted := tr.granted ++ gs } := by
    have := h.payload
    obtain hw | rfl := hgs
    · rw [hw] at this ⊢
      exact this
    · rw [append_nil]
      exact this
  -- the handler has not answered
  have goes (hgr : s'.grants t = [])
      (hok : WriteOk x₀ ph { tr with calls := tr.calls ++ cs, granted := tr.granted ++ [] } t m th'.calling p) :
      WriteInv cfg conn fid r x₀ ph data s'
        { tr with calls := tr.calls ++ cs, granted := tr.granted ++ s'.grants t } := by
    rw [hgr]
    exact h.write ht hreq hthreads hconn hobj hunique (fun _ => rfl) h.fits (.inl rfl) hcom hopen (hpayload (.inr rfl))
      ⟨hfid, p, hop, hok⟩
  cases p with
  | get => exact goes (not_granted hget (hop.trans (handleWrite_eq cfg m))) (by simpa [WriteOk] using hnot)
  | append => exact goes (not_granted hget hop) (by simpa [WriteOk] using hnot)
  | call =>
    obtain ⟨hw, hph, hmem⟩ := hcall rfl
    exact goes (not_granted hget hop) ⟨by simpa using hnot, hw, hph, hmem⟩
  | answered a =>
    refine h.write ht hreq hthreads hconn hobj hunique (fun _ => rfl) h.fits (grants_cases _ t) hcom hopen (hpayload ?_)
      ⟨hfid, .answered a, hop, granted_iff hget hop hnot, fun _ ha => (hans (by rw [ha])).2⟩
    by_cases ha : a = .ok ()
    · exact .inl (hans (by rw [ha])).1
    · refine .inr ?_
      have hiff := granted_iff hget hop hnot
      obtain hnil | hone := grants_cases s' t
      · exact hnil
      · rw [hone] at hiff
        exact absurd (hiff.2 (mem_append_right _ (mem_singleton_self t))) ha

omit [DecidableEq ν] in
theorem Buffer.append (hbuf : Buffer conn fid x₀ ph data o) (bytes : Bytes) :
    (∃ e, o.appendXattr bytes = (.refused e, o)) ∨
      (x₀.writer = true ∧ ph ≠ .taken ∧ o.appendXattr bytes = (.writer, o)) ∨
      x₀.writer = false ∧ ph ≠ .taken ∧ (data ++ bytes).length ≤ x₀.size.toNat ∧
        ∃ o', o.appendXattr bytes = (.appended, o') ∧ Buffer conn fid x₀ ph (data ++ bytes) o' := by
  unfold Obj.appendXattr
  rw [if_pos hbuf.state, hbuf.xattr]
  by_cases hclosing : o.closing = true
  · rw [if_pos hclosing]
    exact .inl ⟨_, rfl⟩
  · have hopen : ph ≠ .taken := fun htaken => hclosing (hbuf.closing.2 htaken)
    rw [if_neg hclosing]
    cases hw : x₀.writer with
    | true => exact .inr (.inl ⟨rfl, hopen, rfl⟩)
    | false =>
      by_cases hsize : data.length + bytes.length > x₀.size.toNat
      · exact .inl ⟨ENOSPC, by simp [hsize]⟩
      · refine .inr (.inr ⟨rfl, hopen, ?_, { o with xattr := some { x₀ with data := data ++ bytes } }, ?_, ?_⟩)
        · rw [length_append]
          omega
        · simp [hsize, hw]
        · exact ⟨hbuf.state, rfl, hbuf.closing, hbuf.key⟩

omit [DecidableEq ν] in
theorem WriteInv.unique_set (h : WriteInv cfg conn fid r x₀ ph data s tr)
    (hi : (s.objs.set r o')[i]? = some o₁) (hkey₁ : o₁.key = some (conn, fid)) : i = r := by
  obtain ⟨rfl, rfl⟩ | ⟨-, hi⟩ := getElem?_set_cases hi
  · rfl
  · exact h.unique i o₁ hi hkey₁

omit [DecidableEq ν] in
theorem WriteInv.write_appended (h : WriteInv cfg conn fid r x₀ ph data s tr) (ht : s.threads[t]? = some th)
    (hreq : tr.reqs[t]? = some (.write m)) (hobjs : s'.objs = s.objs.set r o')
    (hthreads : s'.threads = s.threads.set t th') (hconn : th'.conn = th.conn) (hop : th'.op = pure (.ok ()))
    (ho : s.objs[r]? = some o) (hw : x₀.writer = false) (hph : ph ≠ .taken)
    (hfits : (data ++ m.data).length ≤ x₀.size.toNat) (hbuf : Buffer conn fid x₀ ph (data ++ m.data) o') :
    WriteInv cfg conn fid r x₀ ph (data ++ m.data) s'
      { tr with calls := tr.calls ++ [], granted := tr.granted ++ s'.grants t } := by
  have hget : s'.threads[t]? = some th' := by
    rw [hthreads, set_same ht _]
  have hgr : s'.grants t = [t] := by
    rw [grants_of_op hget, Thread.granted, hop]
    rfl
  rw [hgr]
  refine h.write ht hreq hthreads hconn ⟨o', ?_, hbuf⟩ (fun i o₁ hi => h.unique_set (hobjs ▸ hi))
    (fun htaken => absurd htaken hph) hfits (.inr rfl) (by simp) (by simp) ?_
    ⟨(h.writes t th m ht hreq).1, .answered (.ok ()), hop, by simp, fun hw' => absurd hw' (by simp [hw])⟩
  · rw [hobjs, set_same ho _]
  · have hpayload := h.payload
    rw [hw] at hpayload ⊢
    rw [if_neg Bool.false_ne_true] at hpayload ⊢
    rw [hpayload]
    simp [Trace.written, filterMap_append, hreq, Request.payload]

theorem WriteInv.write_go (h : WriteInv cfg conn fid r x₀ ph data s tr) (ht : s.threads[t]? = some th)
    (hreq : tr.reqs[t]? = some (.write m)) (hgo : s.go cfg t = some s') :
    ∃ data', WriteInv cfg conn fid r x₀ ph data' s' (tr.note s s' (.go t)) := by
  obtain ⟨th₁, c, k, ht₁, hop₁, hcase⟩ := go_cases hgo
  obtain rfl := mem_unique ht ht₁
  have hconn : th.conn = conn := h.conns th (mem_of_getElem? ht)
  obtain ⟨hfid, p, hop, hok⟩ := h.writes t th m ht hreq
  rw [Trace.note, begins_cmd ht hop₁]
  rw [hop₁] at hop
  cases p with
  | answered a => cases hop
  | get =>
    rw [WritePt.op, handleWrite_eq] at hop
    cases hop
    obtain ⟨n, m, hc, -⟩ | ⟨x, s₁, hexec, -, rfl⟩ := hcase
    · cases hc
    cases hexec
    have hfind := h.find
    rw [← hconn, ← hfid] at hfind
    rw [hfind]
    refine ⟨data, ?_⟩
    split
    · exact h.write_to ht hreq hok (p := .append) rfl rfl rfl rfl (.inl rfl) nofun nofun
    · exact h.write_to ht hreq hok (p := .answered (.error EBADF)) rfl rfl rfl rfl (.inl rfl) nofun nofun
  | append =>
    cases hop
    obtain ⟨n, m, hc, -⟩ | ⟨x, s₁, hexec, -, rfl⟩ := hcase
    · cases hc
    obtain ⟨o, ho, hbuf⟩ := h.obj
    obtain ⟨o₁, ho₁, rfl, rfl⟩ := onObj_some hexec
    obtain rfl := mem_unique ho ho₁
    have hself : s.objs.set r o = s.objs := by
      obtain ⟨hlt, rfl⟩ := List.getElem?_eq_some_iff.1 ho
      exact set_getElem_self hlt
    obtain ⟨e, happ⟩ | ⟨hw, hph, happ⟩ | ⟨hw, hph, hfits, o', happ, hbuf'⟩ := hbuf.append m.data
    · rw [happ]
      simp only [hself]
      exact ⟨data, h.write_to ht hreq hok (p := .answered (.error e)) rfl rfl rfl rfl (.inl rfl) nofun nofun⟩
    · rw [happ]
      simp only [hself]
      refine ⟨data, h.write_to ht hreq hok (p := .call) rfl rfl rfl rfl (.inl rfl) (fun _ => ⟨hw, hph, nofun⟩) nofun⟩
    · rw [happ]
      exact ⟨data ++ m.data, h.write_appended ht hreq rfl rfl rfl rfl ho hw hph hfits hbuf'⟩
  | call =>
    cases hop
    obtain ⟨n, m', hc, -, rfl⟩ | ⟨x, s₁, hexec, -, rfl⟩ := hcase
    · obtain ⟨hnot, hw, hph, -⟩ := hok
      refine ⟨data, h.write_to ht hreq hnot (p := .call) rfl rfl rfl hop₁ (.inr ⟨rfl, hph⟩) (fun _ => ⟨hw, hph, fun _ => ?_⟩) nofun⟩
      exact mem_append_right _ (mem_singleton_self _)
    · cases hexec

theorem finish_cases (hfin : s.finish t v = some s') :
    ∃ th n m k x, s.threads[t]? = some th ∧ th.op = .cmd (.call n m) k ∧ th.calling = true ∧ s'.objs = s.objs ∧
       s'.threads = s.threads.set t (th.next (.call n m) k x) := by
  obtain ⟨th, ht, hfin⟩ := bind_eq_some_iff.1 hfin
  cases hop : th.op with
  | pure a =>
    rw [hop] at hfin
    cases hfin
  | cmd c k =>
    rw [hop] at hfin
    cases c with
    | call n m =>
      simp only at hfin
      split at hfin
      · cases hfin
      · rename_i hcalling
        have hcalling : th.calling = true := by simpa using hcalling
        cases v with
        | error e =>
          simp only at hfin
          split at hfin
          · cases hfin
            exact ⟨th, n, m, k, .error e, ht, hop, hcalling, rfl, rfl⟩
          · cases hfin
        | ok v =>
          obtain ⟨⟨x, s₁⟩, hacc, rfl⟩ := map_eq_some_iff.1 hfin
          have hsame := accept_sameFids hacc
          refine ⟨th, n, m, k, .ok x, ht, hop, hcalling, hsame.objs, ?_⟩
          show s₁.threads.set t _ = s.threads.set t _
          rw [hsame.threads]
    | _ => cases hfin

theorem WriteInv.write_finish (h : WriteInv cfg conn fid r x₀ ph data s tr) (ht : s.threads[t]? = some th)
    (hreq : tr.reqs[t]? = some (.write m)) (hfin : s.finish t v = some s') :
    WriteInv cfg conn fid r x₀ ph data s' (tr.note s s' (.finish t v)) := by
  obtain ⟨th₁, n, m', k, x, ht₁, hop₁, hcalling, hobjs, hthreads⟩ := finish_cases hfin
  obtain rfl := mem_unique ht ht₁
  obtain ⟨hfid, p, hop, hok⟩ := h.writes t th m ht hreq
  rw [hop₁] at hop
  cases p with
  | answered a | append => cases hop
  | get =>
    rw [WritePt.op, handleWrite_eq] at hop
    cases hop
  | call =>
    cases hop
    obtain ⟨hnot, hw, hph, hcall⟩ := hok
    have hinv := h.write_to ht hreq hnot (p := .answered x) (hobjs) hthreads rfl rfl (.inl rfl) nofun
      fun _ => ⟨hw, mem_append_left _ (hcall hcalling)⟩
    rwa [append_nil] at hinv

/-! ### The handler of the clunk -/

omit [DecidableEq ν] in
theorem commitXattr_cases (h : commitXattr cfg x = .cmd c k) :
    (∀ y, ∃ a, k y = pure a) ∧ ∃ n m, c = .call n m ∧ m.writes = false ∧
      (m.commits = true → (n, m) = commitCall x ∧ (x.writer = false → x.data.length = x.size.toNat)) := by
  unfold commitXattr at h
  split at h
  · rename_i hw
    cases h
    exact ⟨fun y => ⟨y, rfl⟩, none, .commitXattr, rfl, rfl, fun _ => ⟨by rw [commitCall, if_pos hw], by simp [hw]⟩⟩
  · rename_i hw
    split at h
    · split at h
      · cases h
        exact ⟨fun y => ⟨y, rfl⟩, some x.node, .removeXattr x.name, rfl, rfl, nofun⟩
      · cases h
    · split at h
      · cases h
      · rename_i hlen
        split at h
        · cases h
          exact ⟨fun y => ⟨y, rfl⟩, some x.node, .setXattr x.name x.data x.flags, rfl, rfl,
            fun _ => ⟨by rw [commitCall, if_neg hw], fun _ => not_not.1 hlen⟩⟩
        · cases h

attribute [local simp] Cmd.begins ClunkPt.phase in
/-- **The handler of the clunk goes on.**  When it takes the buffer no writer may be in use. -/
theorem WriteInv.clunk_go (h : WriteInv cfg conn fid r x₀ ph data s tr) {m : Tclunk} (ht : s.threads[t]? = some th)
    (hreq : tr.reqs[t]? = some (.clunk m)) (hgo : s.go cfg t = some s')
    (hidle : s.nextCmd t = some (.takeXattr r) → s.threads.any Thread.writing = false) :
    ∃ ph', WriteInv cfg conn fid r x₀ ph' data s' (tr.note s s' (.go t)) := by
  obtain ⟨th₁, c, k, ht₁, hop₁, hcase⟩ := go_cases hgo
  obtain rfl := mem_unique ht ht₁
  have hconn : th.conn = conn := h.conns th (mem_of_getElem? ht)
  obtain ⟨hfid, p, hop, rfl, hcom⟩ := h.clunks t th m ht hreq
  obtain ⟨o, ho, hbuf⟩ := h.obj
  have hnext : s.nextCmd t = some c := by simp [State.nextCmd, ht, hop₁]
  have hself : s.objs.set r o = s.objs := by
    obtain ⟨hlt, rfl⟩ := List.getElem?_eq_some_iff.1 ho
    exact set_getElem_self hlt
  have hget (o' : Obj ν) : (s.objs.set r o')[r]? = some o' :=
    set_same ho _
  rw [Trace.note, begins_cmd ht hop₁]
  rw [hop₁] at hop
  cases p with
  | answered a => cases hop
  | get =>
    cases hop
    obtain ⟨n, m, hc, -⟩ | ⟨x, s₁, hexec, -, rfl⟩ := hcase
    · cases hc
    have hfind : s.find (conn, fid) = some r := h.find
    rw [← hconn, ← hfid] at hfind
    simp only [State.exec, hfind] at hexec
    obtain ⟨o₁, ho₁, rfl, rfl⟩ := onObj_some hexec
    obtain rfl := mem_unique ho ho₁
    refine ⟨.clunked, h.clunk ht hreq rfl rfl ⟨_, hget _, ⟨hbuf.state, hbuf.xattr, ?_, rfl⟩⟩
      (fun i o₁ => h.unique_set) (grants_cases _ t) (by simp) (Nat.zero_le 1) (by simp) (by simp) (by simp)
      ⟨hfid, .node, rfl, rfl, (by simp)⟩⟩
    exact hbuf.closing.trans ⟨(by simp), (by simp)⟩
  | node =>
    cases hop
    obtain ⟨n, m, hc, -⟩ | ⟨x, s₁, hexec, -, rfl⟩ := hcase
    · cases hc
    obtain ⟨o₁, ho₁, rfl, rfl⟩ := onObj_some hexec
    obtain rfl := mem_unique ho ho₁
    simp only [hself]
    refine ⟨.clunked, h.clunk ht hreq rfl rfl h.obj h.unique (grants_cases _ t) (by simp) (Nat.zero_le 1) (by simp)
      (fun _ => (by simp)) (by simp) ?_⟩
    cases himp : cfg.implements o.node .inodeEmbedder with
    | true =>
      refine ⟨hfid, .ref o.node, ?_, rfl, (by simp)⟩
      show (decRefNode cfg o.node >>= clunkTake cfg r) = _
      rw [decRefNode, if_pos himp]
      rfl
    | false =>
      refine ⟨hfid, .take true, ?_, rfl, (by simp)⟩
      show (decRefNode cfg o.node >>= clunkTake cfg r) = _
      rw [decRefNode, if_neg (by simp [himp])]
      rfl
  | ref n =>
    cases hop
    obtain ⟨n, m, hc, -⟩ | ⟨x, s₁, hexec, -, rfl⟩ := hcase
    · cases hc
    cases hexec
    exact ⟨.clunked, h.clunk ht hreq rfl rfl h.obj h.unique (grants_cases _ t) (by simp) (Nat.zero_le 1) (by simp)
      (fun _ => (by simp)) (by simp) ⟨hfid, .take _, rfl, rfl, (by simp)⟩⟩
  | take lastRef =>
    cases hop
    obtain ⟨n, m, hc, -⟩ | ⟨x, s₁, hexec, -, rfl⟩ := hcase
    · cases hc
    obtain ⟨o₁, ho₁, rfl, rfl⟩ := onObj_some hexec
    obtain rfl := mem_unique ho ho₁
    have htake : o.takeXattr = (some { x₀ with data }, { o with closing := true }) := by
      rw [Obj.takeXattr, if_pos hbuf.state, hbuf.xattr]
    rw [htake]
    refine ⟨.taken, h.clunk ht hreq rfl rfl ⟨_, hget _, ⟨hbuf.state, hbuf.xattr, ?_, hbuf.key⟩⟩
      (fun i o₁ => h.unique_set) (grants_cases _ t) (by simp) (Nat.zero_le 1) (by simp) (fun hne => absurd rfl hne)
      (fun _ => .inr (hidle hnext)) ⟨hfid, .commit, rfl, rfl, fun _ _ => ?_⟩⟩
    · exact ⟨fun _ => rfl, fun _ => rfl⟩
    · rw [Trace.commits_append, h.early (by simp)]
      rfl
  | commit =>
    obtain ⟨-, n, m', rfl, hwrites, hcommit⟩ := commitXattr_cases hop.symm
    obtain ⟨n, m', hc, hcalling, rfl⟩ | ⟨x, s₁, hexec, -, -⟩ := hcase
    · cases hc
      refine ⟨.taken, h.clunk ht hreq rfl rfl h.obj h.unique (grants_cases _ t) ?_ (Nat.le_refl 1) ?_ id
        (fun _ => .inl rfl) ⟨hfid, .commit, hop₁.trans hop, rfl, (by simp)⟩⟩
      · exact fun c hc => by rw [mem_singleton.1 hc]; exact hwrites
      · intro c hc hcommits
        obtain rfl := mem_singleton.1 hc
        exact ⟨hcom rfl hcalling, rfl, hcommit hcommits⟩
    · cases hexec

theorem WriteInv.clunk_finish (h : WriteInv cfg conn fid r x₀ ph data s tr) {m : Tclunk} (ht : s.threads[t]? = some th)
    (hreq : tr.reqs[t]? = some (.clunk m)) (hfin : s.finish t v = some s') :
    WriteInv cfg conn fid r x₀ ph data s' (tr.note s s' (.finish t v)) := by
  obtain ⟨th₁, n, m', k, x, ht₁, hop₁, -, hobjs, hthreads⟩ := finish_cases hfin
  obtain rfl := mem_unique ht ht₁
  obtain ⟨hfid, p, hop, rfl, -⟩ := h.clunks t th m ht hreq
  rw [hop₁] at hop
  cases p with
  | commit =>
    obtain ⟨hk, -⟩ := commitXattr_cases hop.symm
    obtain ⟨a, ha⟩ := hk x
    have hinv : WriteInv cfg conn fid r x₀ .taken data s'
        { tr with calls := tr.calls ++ [], granted := tr.granted ++ s'.grants t } :=
      h.clunk ht hreq hthreads rfl (hobjs ▸ h.obj) (hobjs ▸ h.unique) (grants_cases s' t) nofun (Nat.zero_le 1) nofun id
        .inl ⟨hfid, .answered a, ha, rfl, nofun⟩
    rwa [append_nil] at hinv
  | _ => cases hop

/-! ### A request comes in -/

omit [DecidableEq ν] in
/-- **A request comes in**, with a handler that is at its beginning. -/
theorem WriteInv.request (h : WriteInv cfg conn fid r x₀ ph data s tr) (hconn : th.conn = conn)
    (hreq : (∃ m, req = .write m ∧ m.fid = fid ∧ th.op = handleWrite cfg m) ∨
      ∃ m, req = .clunk m ∧ m.fid = fid ∧ th.op = handleClunk cfg m ∧ tr.reqs.any Request.isClunk = false) :
    WriteInv cfg conn fid r x₀ ph data { s with threads := s.threads ++ [th] } { tr with reqs := tr.reqs ++ [req] } := by
  have hold {t : Nat} {req' : Request} (ht : t < s.threads.length) (hreq' : (tr.reqs ++ [req])[t]? = some req') :
      tr.reqs[t]? = some req' := by
    rwa [getElem?_append_left (h.len ▸ ht)] at hreq'
  have hnew {req' : Request} (hreq' : (tr.reqs ++ [req])[s.threads.length]? = some req') : req = req' := by
    rw [← h.len, getElem?_concat_length] at hreq'
    exact Option.some.inj hreq'
  refine ⟨?_, ?_, h.obj, h.unique, h.fits, ?_, ?_, ?_, ?_, ?_, ?_, ?_, h.early, h.committed, h.once, h.ordered⟩
  · simp [h.len]
  · intro u hu
    obtain hu | hu := mem_append.1 hu
    · exact h.conns u hu
    · rw [mem_singleton.1 hu]
      exact hconn
  · rw [written_append tr h.granted]
    exact h.payload
  · intro u hu
    rw [length_append]
    exact Nat.lt_add_right 1 (h.granted u hu)
  · intro req' hmem
    obtain hmem | hmem := mem_append.1 hmem
    · exact h.only req' hmem
    · rw [mem_singleton.1 hmem]
      exact hreq.imp (fun ⟨m, hm, _⟩ => ⟨m, hm⟩) fun ⟨m, hm, _⟩ => ⟨m, hm⟩
  · intro u thu mu hu hrequ
    obtain hu | ⟨rfl, rfl⟩ := getElem?_concat_cases hu
    · exact h.writes u thu mu hu (hold (getElem?_lt hu) hrequ)
    · obtain rfl := hnew hrequ
      obtain ⟨m, hm, hfid, hop⟩ | ⟨m, hm, -⟩ := hreq
      · cases hm
        exact ⟨hfid, .get, hop, fun hmem => Nat.lt_irrefl _ (h.len ▸ h.granted _ hmem)⟩
      · cases hm
  · intro u thu mu hu hrequ
    obtain hu | ⟨rfl, rfl⟩ := getElem?_concat_cases hu
    · exact h.clunks u thu mu hu (hold (getElem?_lt hu) hrequ)
    · obtain rfl := hnew hrequ
      obtain ⟨m, hm, -⟩ | ⟨m, hm, hfid, hop, hnone⟩ := hreq
      · cases hm
      · cases hm
        refine ⟨hfid, .get, hop, ?_, nofun⟩
        by_contra hph
        rw [h.begun (Ne.symm hph)] at hnone
        cases hnone
  · intro i j m m' hi hj
    have hfirst {i : Nat} {m m' : Tclunk} (hi : tr.reqs[i]? = some (.clunk m)) (hnew : .clunk m' = req) : False := by
      obtain ⟨m, rfl, -⟩ | ⟨m, -, -, -, hnone⟩ := hreq
      · cases hnew
      · exact any_eq_false.1 hnone _ (mem_of_getElem? hi) rfl
    obtain hi | ⟨rfl, hi'⟩ := getElem?_concat_cases hi
    · obtain hj | ⟨rfl, hj'⟩ := getElem?_concat_cases hj
      · exact h.one i j m m' hi hj
      · exact (hfirst hi hj').elim
    · obtain hj | ⟨rfl, -⟩ := getElem?_concat_cases hj
      · exact (hfirst hj hi').elim
      · rfl
  · intro hph
    rw [any_append, h.begun hph, Bool.true_or]

/-! ### Runs -/

omit [DecidableEq ν] in
theorem WriteInv.idle (h : WriteInv cfg conn fid r x₀ ph data s tr) (hw : x₀.writer = false ∨ ph = .taken) :
    s.threads.any Thread.writing = false := by
  refine any_eq_false.2 fun th hth => ?_
  obtain ⟨t, hlt, rfl⟩ := getElem_of_mem hth
  have ht : s.threads[t]? = some s.threads[t] := getElem?_eq_getElem hlt
  have hlt' : t < tr.reqs.length := h.len ▸ hlt
  obtain ⟨m, hm⟩ | ⟨m, hm⟩ := h.only tr.reqs[t] (getElem_mem hlt')
  · obtain ⟨-, p, hop, hok⟩ := h.writes t _ m ht (by rw [getElem?_eq_getElem hlt', hm])
    cases p with
    | get =>
      rw [Thread.writing, hop, WritePt.op, handleWrite_eq]
      exact Bool.false_ne_true
    | call => exact hw.elim (fun hw => absurd hok.2.1 (by simp [hw])) fun htaken => absurd htaken hok.2.2.1
    | _ =>
      rw [Thread.writing, hop]
      exact Bool.false_ne_true
  · obtain ⟨-, p, hop, -⟩ := h.clunks t _ m ht (by rw [getElem?_eq_getElem hlt', hm])
    intro hwriting
    unfold Thread.writing at hwriting
    split at hwriting
    · rename_i n d k hop'
      rw [hop] at hop'
      cases p with
      | commit =>
        obtain ⟨-, n, m', hc, hwrites, -⟩ := commitXattr_cases hop'
        cases hc
        cases hwrites
      | _ => cases hop'
    · cases hwriting

theorem writeInv_step {y' : State ν × Trace ν} {l : Label ν} (h : ∃ ph data, WriteInv cfg conn fid r x₀ ph data y.1 y.2)
    (hon : onFid conn fid y l = true) (hsettled : x₀.writer = true → settled y l = true)
    (hstep : traced cfg y l = some y') : ∃ ph data, WriteInv cfg conn fid r x₀ ph data y'.1 y'.2 := by
  obtain ⟨s, tr⟩ := y
  obtain ⟨ph, data, h⟩ := h
  obtain ⟨s', hs, rfl⟩ := map_eq_some_iff.1 hstep
  -- the request of a thread that takes a step
  have hreqs {t : Nat} {th : Thread ν} (ht : s.threads[t]? = some th) :
      (∃ m, tr.reqs[t]? = some (.write m)) ∨ ∃ m, tr.reqs[t]? = some (.clunk m) := by
    have hlt : t < tr.reqs.length := h.len ▸ (getElem?_lt ht)
    rw [getElem?_eq_getElem hlt]
    simpa using h.only tr.reqs[t] (getElem_mem hlt)
  cases l with
  | request c req =>
    cases hs
    refine ⟨ph, data, ?_⟩
    cases req with
    | write m =>
      obtain ⟨hc, hfid⟩ : c = conn ∧ m.fid = fid := by simpa [onFid] using hon
      exact h.request hc (.inl ⟨m, rfl, hfid, rfl⟩)
    | clunk m =>
      obtain ⟨hc, hfid, hnone⟩ : c = conn ∧ m.fid = fid ∧ tr.reqs.any Request.isClunk = false := by
        simpa [onFid] using hon
      exact h.request hc (.inr ⟨m, rfl, hfid, rfl, hnone⟩)
    | _ => cases hon
  | go t =>
    obtain ⟨th, -, -, ht, -⟩ := go_cases hs
    obtain ⟨m, hreq⟩ | ⟨m, hreq⟩ := hreqs ht
    · exact ⟨ph, h.write_go ht hreq hs⟩
    · have hidle : s.nextCmd t = some (.takeXattr r) → s.threads.any Thread.writing = false := by
        intro hnext
        cases hw : x₀.writer with
        | false => exact h.idle (.inl hw)
        | true => simpa [settled, hnext] using hsettled hw
      obtain ⟨ph', h'⟩ := h.clunk_go ht hreq hs hidle
      exact ⟨ph', data, h'⟩
  | finish t v =>
    obtain ⟨th, -, -, -, -, ht, -⟩ := finish_cases hs
    obtain ⟨m, hreq⟩ | ⟨m, hreq⟩ := hreqs ht
    · exact ⟨ph, data, h.write_finish ht hreq hs⟩
    · exact ⟨ph, data, h.clunk_finish ht hreq hs⟩
  | _ => cases hon

omit [DecidableEq ν] in
theorem Created.inv (h : Created s conn fid r x₀) : WriteInv cfg conn fid r x₀ .bound [] s {} := by
  obtain ⟨o, ho, hkey, hstate, hclosing, hx⟩ := h.obj
  refine ⟨by simp [h.threads], by simp [h.threads], ⟨o, ho, hstate, ?_, by simp [hclosing], by simpa using hkey⟩,
    h.unique, Nat.zero_le _, ?_, nofun, nofun, by simp, by simp, by simp, nofun, fun _ => rfl, nofun, Nat.zero_le 1,
    List.Pairwise.nil⟩
  · rw [hx, ← h.empty]
  · split <;> rfl

theorem writeInv_run {ls : List (Label ν)} (hcreated : Created s conn fid r x₀)
    (hon : Meets (traced cfg) (fun y l => onFid conn fid y l = true) (s, {}) ls)
    (hsettled : x₀.writer = true → Meets (traced cfg) (fun y l => settled y l = true) (s, {}) ls)
    (hrun : run (traced cfg) (s, {}) ls = some y) : ∃ ph data, WriteInv cfg conn fid r x₀ ph data y.1 y.2 := by
  have h0 : ∃ ph data, WriteInv cfg conn fid r x₀ ph data s {} := ⟨.bound, [], hcreated.inv⟩
  let P (y : State ν × Trace ν) := ∃ ph data, WriteInv cfg conn fid r x₀ ph data y.1 y.2
  cases hw : x₀.writer with
  | false =>
    exact run_inv_of_meets (P := P) (fun h hl hstep => writeInv_step h hl (by simp [hw]) hstep) h0 hon hrun
  | true =>
    exact run_inv_of_meets (P := P) (fun h hl hstep => writeInv_step h hl.1 (fun _ => hl.2) hstep) h0 (hon.and (hsettled hw)) hrun

end Steps

end NineP.Server.Handlers
