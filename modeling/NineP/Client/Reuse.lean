import NineP.Client.Agreement

/-!
# Fids for reuse
-/

namespace NineP.Client

open Proto Program Transition List

/-! ## The condition -/

/-- The T-message of the round trip whose failure thread `t` is about to see. -/
def Session.failedId (s : Session) (t : Nat) : Option Nat :=
  (s.threads[t]?).bind fun th => th.call.bind fun j => (s.net.calls[j]?).bind fun call =>
    match call.pc with
    | .done (.failed id _) => id
    | _ => none

/-- The T-message of a round trip that failed has bound no fid. -/
def BindOk (s : Session) (t : Nat) : Prop :=
  ∀ i ∈ s.failedId t, ∀ f ∈ s.net.shared.answered, f.id = i → s.net.shared.binds f = none

instance (s : Session) (t : Nat) : Decidable (BindOk s t) := inferInstanceAs (Decidable (∀ i ∈ s.failedId t, _))

def ReuseOk (s : Session) : Event → Prop
  | .net l => FlushTagOk s.net l
  | .run t => BindOk s t
  | _ => True

instance (s : Session) : (e : Event) → Decidable (ReuseOk s e)
  | .net l => inferInstanceAs (Decidable (FlushTagOk s.net l))
  | .run t => inferInstanceAs (Decidable (BindOk s t))
  | .start _ | .closeAdmission => .isTrue trivial

/-! ## The invariant -/

/-- The invariant of a client at work. -/
structure SessionInv (s : Session) : Prop where
  net : MatchInv s.net
  fids : s.Alive → ∃ g, FidInv s g

theorem init_sessionInv {cfg : Config} (hn : cfg.maxInflight ≤ maxMaxInflight) : SessionInv (Session.init cfg) where
  net := init_matchInv hn
  fids := fun _ => by
    refine ⟨{ owner := fun x => if 1 ≤ x then .future else .lost, lock := fun _ => none }, ?_⟩
    have hstatus (x : Fid) (t : Nat) : (if 1 ≤ x then Owner.future else Owner.lost).status t = none := by split <;> rfl
    constructor
    · intro t th h
      cases h
    · intro t _
      exact congrArg (Res.mk · none) (funext fun x => hstatus x t)
    · intro x
      by_cases hx : 1 ≤ x <;> simp [Session.init, hx]
    · intro x hx
      cases hx
    · exact nodup_nil
    · intro f file h
      cases h
    · intro t f fid h
      cases h
    · intro t th j h
      cases h
    · intro j call h
      cases h
    · constructor
      · intro x hx
        cases hx
      · rintro t i tag x ⟨th, j, call, hth, -⟩
        cases hth
      · rintro i tag req ⟨hlt, -⟩
        exact absurd hlt (Nat.not_lt_zero i)

section Step

variable {cfg : Config} {s s' : Session}

theorem start_fidInv (call : ApiCall) (hs : FidInv s g) :
    FidInv { s with threads := s.threads ++ [{ op := call.op cfg }] } g := by
  have hcases {t : Nat} {th : Thread} (h : (s.threads ++ [{ op := call.op cfg }])[t]? = some th) :
      s.threads[t]? = some th ∨ t = s.threads.length ∧ th = { op := call.op cfg } := by
    by_cases hlt : t < s.threads.length
    · rw [getElem?_append_left hlt] at h
      exact .inl h
    · have := getElem?_lt h
      simp only [length_append, length_singleton] at this
      obtain rfl : t = s.threads.length := by omega
      rw [getElem?_concat_length, Option.some.injEq] at h
      exact .inr ⟨rfl, h.symm⟩
  have hold {t : Nat} {th : Thread} (h : s.threads[t]? = some th) :
      (s.threads ++ [{ op := call.op cfg }])[t]? = some th :=
    (getElem?_append_left (getElem?_lt h)).trans h
  have hwaits : Session.Waits { s with threads := s.threads ++ [{ op := call.op cfg }] } = s.Waits := by
    funext t i
    apply propext
    constructor
    · rintro ⟨th, j, call', hth, hj, hrest⟩
      rcases hcases hth with hth | ⟨rfl, rfl⟩
      · exact ⟨th, j, call', hth, hj, hrest⟩
      · cases hj
    · rintro ⟨th, j, call', hth, hrest⟩
      exact ⟨th, j, call', hold hth, hrest⟩
  refine { hs with ops := ?_, idle := ?_, calls := ?_, waited := ?_, served := hwaits ▸ hs.served }
  · intro t th h
    rcases hcases h with h | ⟨rfl, rfl⟩
    · exact hs.ops t th h
    · exact wp_call call (by rw [hs.idle _ (Nat.le_refl _)])
  · intro t h
    simp only [length_append, length_singleton] at h
    exact hs.idle t (by omega)
  · intro t th j h hj
    rcases hcases h with h | ⟨rfl, rfl⟩
    · exact hs.calls t th j h hj
    · cases hj
  · intro j call' h
    exact (hs.waited j call' h).imp_left fun ⟨t, th, hth, hj⟩ => ⟨t, th, hold hth, hj⟩

theorem net_fidInv {n : State Request Reply} (hs : FidInv s g) (hnet : MatchInv s.net)
    (hl : ∀ msg zeroCopy flushOnCancel, l ≠ .call msg zeroCopy flushOnCancel)
    (h : Client.step cfg.maxInflight s.net l = some n) (hopen : n.shared.closed = false) :
    FidInv { s with net := n } g := by
  cases step_steps h with
  | call => exact absurd rfl (hl _ _ _)
  | move hk hmove => exact (move_keeps hnet.net hk hmove).fidInv hnet.net hs
  | answer htag hmay =>
    refine answer_fidInv hs hnet ?_ hmay
    obtain ⟨t, ht, -⟩ := Option.map_eq_some_iff.1 htag
    exact getElem?_lt ht
  | @read f wire hwire hhand =>
    have hsame : SameNet s.net.shared { s.net.shared with wire, hand := some f } :=
      ⟨rfl, rfl, by simp [Shared.queue, hwire, hhand]⟩
    exact (Keeps.of_calls hsame.answered hsame.sent fun i => (hsame.live_iff i).1).fidInv hnet.net hs
  | @deliver f hhand =>
    have hsame : SameNet { s.net.shared with hand := none } (s.net.shared.handOver f) := handOver_sameNet
    exact (Keeps.of_calls hsame.answered hsame.sent fun i hi => (handOver_live hnet.net hhand hi).1).fidInv hnet.net hs
  | readFail | shutdown => cases hopen
  | closeNc hclosed => exact absurd hopen (by simp [hclosed])
  | cancelAll hnc => exact absurd hopen (by simp [Shared.cancelAll, hnet.closed hnc])

theorem step_open {n n' : State Request Reply} (hnet : MatchInv n)
    (h : Client.step cfg.maxInflight n l = some n') (hopen : n'.shared.closed = false) : n.shared.closed = false := by
  cases step_steps h with
  | move hk hmove =>
    cases hclosed : n.shared.closed with
    | false => rfl
    | true => exact absurd ((hmove.grows hnet.net).closed hclosed) (Bool.eq_false_iff.1 hopen)
  | deliver => exact handOver_closed.symm.trans hopen
  | readFail | shutdown => cases hopen
  | _ => exact hopen

theorem exec_net {c : Cmd} {x : c.Res} (h : s.exec t c = some (x, s')) :
    s'.net = s.net ∧ s'.closing = s.closing ∨
      s'.net = { s.net with shared := s.net.shared.shutdown } ∧ s'.closing = true := by
  cases c with
  | exchange => cases h
  | signalShutdown =>
    cases h
    exact .inr ⟨rfl, rfl⟩
  | beginOp f | beginClose f =>
    obtain ⟨file, -, h⟩ := Option.bind_eq_some_iff.1 h
    split at h
    · cases h
    · split at h <;> cases h <;> exact .inl ⟨rfl, rfl⟩
  | endOp f | endClose f =>
    obtain ⟨file, -, h⟩ := Option.map_eq_some_iff.1 h
    cases h
    exact .inl ⟨rfl, rfl⟩
  | _ =>
    cases h
    exact .inl ⟨rfl, rfl⟩

theorem run_sessionInv (hs : SessionInv s) (hok : BindOk s t) (h : s.run cfg t = some s') : SessionInv s' := by
  cases Session.run_runs h with
  | refuse ht hclosed => exact ⟨hs.net, fun halive => absurd halive hclosed⟩
  | send ht hnet =>
    refine ⟨step_matchInv hs.net (fun tag htag => by cases htag) hnet, fun halive => ?_⟩
    obtain ⟨g, hg⟩ := hs.fids ⟨halive.1, step_open hs.net hnet halive.2⟩
    exact ⟨g, send_fidInv hg ht hnet⟩
  | @collect req zeroCopy flushOnCancel k j call o ht hcall hpc =>
    refine ⟨hs.net, fun halive => ?_⟩
    obtain ⟨g, hg⟩ := hs.fids halive
    refine collect_fidInv hg ht hcall hpc hs.net halive.2 fun i err f ho hf hid => hok i ?_ f hf hid
    simp [Session.failedId, ht, hcall, hpc, ho]
  | @exec c k j x s₁ ht hexec =>
    rcases exec_net hexec with ⟨hnet, hclosing⟩ | ⟨hnet, hclosing⟩
    · refine ⟨by rw [Session.setThread, hnet]; exact hs.net, fun halive => ?_⟩
      obtain ⟨g, hg⟩ := hs.fids ⟨hclosing ▸ halive.1, hnet ▸ halive.2⟩
      -- A thread that waits is at an exchange.
      cases j with
      | none => exact exec_fidInv hg ht hexec halive
      | some j =>
        obtain ⟨req, zeroCopy, flushOnCancel, k', call, hop, -⟩ := hg.calls t _ j ht rfl
        obtain ⟨rfl, -⟩ := Prog.cmd.inj hop
        cases hexec
    · have hdown : Client.step cfg.maxInflight s.net .shutdown = some s₁.net := congrArg some hnet.symm
      exact ⟨step_matchInv hs.net (fun tag htag => by cases htag) hdown, fun halive => by cases hclosing.symm.trans halive.1⟩

/-- **The invariant is kept by every event** that meets the condition. -/
theorem step_sessionInv (hs : SessionInv s) (hok : ReuseOk s e) (h : s.step cfg e = some s') :
    SessionInv s' := by
  cases e with
  | start call =>
    cases h
    exact ⟨hs.net, fun halive => (hs.fids halive).imp fun _ => start_fidInv call⟩
  | run t => exact run_sessionInv hs hok h
  | closeAdmission =>
    cases h
    exact ⟨hs.net, fun halive => by cases halive.1⟩
  | net l =>
    cases l with
    | call => cases h
    | _ =>
      simp only [Session.step] at h
      obtain ⟨n, hn, rfl⟩ := Option.map_eq_some_iff.1 h
      refine ⟨step_matchInv hs.net hok hn, fun halive => ?_⟩
      obtain ⟨g, hg⟩ := hs.fids ⟨halive.1, step_open hs.net hn halive.2⟩
      exact ⟨g, net_fidInv hg hs.net (fun _ _ _ => by simp) hn halive.2⟩

end Step

/-- **The fids for reuse.**  In every run in which no Tflush reuses a tag too early, and no round trip fails although its
answer has bound a fid: as long as the connection is live, a fid for reuse is not bound on the server, and no request
under way names it. -/
theorem reuse_unbound (cfg : Config) (hn : cfg.maxInflight ≤ maxMaxInflight) (es : List Event) (s : Session)
    (hok : Meets (Session.step cfg) ReuseOk (Session.init cfg) es)
    (h : run (Session.step cfg) (Session.init cfg) es = some s) (halive : s.Alive) (fid : Fid) (hfid : fid ∈ s.fids.reuse) :
    fid ∉ s.net.shared.bound ∧
      ∀ i tag req, s.net.shared.Live i → s.net.shared.sent[i]? = some ⟨tag, .other req⟩ → fid ∉ req.fids := by
  have hs : SessionInv s := run_inv_of_meets step_sessionInv (init_sessionInv hn) hok h
  obtain ⟨g, hg⟩ := hs.fids halive
  exact hg.reuse hs.net hfid

def oneTag : Config where
  maxInflight := 1
  dialect := .l
  msize := 8192

/-- Call `k` goes on. -/
def goEvents (k n : Nat) : List Event := List.replicate n (.net (.move k .go))

/-- Thread `t` makes call `k`, which writes its T-message. -/
def sendEvents (t k : Nat) : List Event := .run t :: goEvents k 4

def replyEvents (i : Nat) (reply : Reply) : List Event := [.net (.answer i false reply), .net .read, .net .deliver]

/-- Call `k` is cancelled, writes a Tflush, takes what its `select` offers once the server has answered, and returns. -/
def cancelEvents (k i : Nat) (reply : Reply) (choice : Choice) : List Event :=
  .net (.move k .ctxDone) :: goEvents k 3 ++ replyEvents i reply ++ .net (.move k choice) :: goEvents k 4

/-- The root is attached; a walk from it is cancelled and gets its Rflush. -/
def cancelledWalkRun : List Event :=
  [.start .attach, .run 0] ++ sendEvents 0 0 ++ replyEvents 0 .rattach ++ .net (.move 0 .recv) :: goEvents 0 3 ++
    [.run 0, .run 0, .run 0, .start (.walk 0 ["a"]), .run 1, .run 1] ++ sendEvents 1 1 ++
    cancelEvents 1 2 (.other typeRflush) .recvFlush ++ [.run 1, .run 1]

theorem reuse_unbound_cancelled :
    ∃ s, run (Session.step oneTag) (Session.init oneTag) cancelledWalkRun = some s ∧ s.fids.reuse = [2] ∧
      s.net.shared.bound = [1] ∧ 2 ∉ s.net.shared.bound :=
  ⟨_, rfl, rfl, rfl, (reuse_unbound oneTag (by decide) cancelledWalkRun _ (by decide) rfl ⟨rfl, rfl⟩ 2
    mem_cons_self).1⟩

/-- An attach is cancelled, and gets its answer before the Rflush. -/
def cancelledAttachRun : List Event :=
  [.start .attach, .run 0] ++ sendEvents 0 0 ++ cancelEvents 0 0 .rattach .recv ++ [.run 0, .run 0]

theorem cancelled_attach :
    ∃ s, run (Session.step oneTag) (Session.init oneTag) cancelledAttachRun = some s ∧ s.Alive ∧
      s.fids.reuse = [1] ∧ s.net.shared.bound = [1] :=
  ⟨_, rfl, ⟨rfl, rfl⟩, rfl, rfl⟩

end NineP.Client
