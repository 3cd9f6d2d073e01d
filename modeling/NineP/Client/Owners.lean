import NineP.Client.Holding
import NineP.Client.Session

/-!
# Who has which fid

`Owner` and `FidInv` say who has each fid and what the server may have bound; the steps of the connection keep it.
-/

namespace NineP.Client

open Proto Program Transition List Option

/-! ## The T-message of a caller -/

section Ids

variable {μ ρ : Type}

/-- The T-message that a caller has written. -/
def Pc.id : Pc ρ → Option Nat
  | .waiting _ _ i | .received _ _ i _ | .returning _ _ i _ | .reading _ i _ | .abandoning _ _ i | .flushing _ _ i
  | .flushRegistered _ _ i _ | .flushWriting _ _ i _ | .flushWaiting _ _ i _ _ | .flushUnregistering _ i _
  | .done (.ok i _) | .done (.abandoned i) => some i
  | .unregistering _ id _ | .releasing _ id _ | .failing id _ | .done (.failed id _) => id
  | _ => none

/-- What a caller's step writes. -/
inductive SentMove (c : Shared μ ρ) (msg : TMsg μ) (pc pc' : Pc ρ) (c' : Shared μ ρ) : Prop
  | same (hid : pc'.id = pc.id) (hsent : c'.sent = c.sent)
  | flush {tag oldTag : Tag} (hid : pc'.id = pc.id) (hsent : c'.sent = c.sent ++ [⟨tag, .flush oldTag⟩])
  | write {tag : Tag} (hid : pc.id = none) (hid' : pc'.id = some c.sent.length) (hsent : c'.sent = c.sent ++ [⟨tag, msg⟩])

variable {c c' : Shared μ ρ} {call : Call μ ρ} {pc pc' : Pc ρ}

section

variable (h : Moves maxInflight c call pc pc' c')
include h

theorem Moves.sent : SentMove c call.msg pc pc' c' := by
  cases h with
  | write => exact .write rfl rfl rfl
  | flushWrite => exact .flush rfl rfl
  | releaseOk | release => exact .same rfl (release_sameNet _).sent
  | _ => exact .same rfl rfl

theorem Moves.answered : c'.answered = c.answered := by
  obtain hsame | ⟨_, _, _, -, -, rfl⟩ := h.net
  · exact hsame.answered
  · rfl

theorem Moves.not_done (o : Outcome ρ) : pc ≠ .done o := by
  rintro rfl
  cases h

end

theorem PcOk.sent (h : PcOk c msg pc) (hid : pc.id = some i) : ∃ tag, c.sent[i]? = some ⟨tag, msg⟩ := by
  cases pc with
  | waiting | flushing => exact Option.some.inj hid ▸ ⟨_, h.sent⟩
  | flushRegistered | flushWriting | flushWaiting => exact Option.some.inj hid ▸ ⟨_, h.1.sent⟩
  | received | returning | flushUnregistering => exact Option.some.inj hid ▸ ⟨_, h.1⟩
  | abandoning => exact Option.some.inj hid ▸ ⟨_, h⟩
  | reading => exact Option.some.inj hid ▸ h.1
  | unregistering | releasing => exact ⟨_, h.1 i hid⟩
  | failing => exact (h.1 i hid).1
  | done o =>
    cases o with
    | ok => exact Option.some.inj hid ▸ h.2.1
    | failed => exact (h.1 i hid).1
    | abandoned => exact Option.some.inj hid ▸ h
  | acquiring | acquired | registered | writing => cases hid

end Ids

/-! ## Owners -/

/-- Who has a fid. -/
inductive Owner
  | future  -- it was never handed out
  | free  -- it is in the reuse list
  | thread (t : Nat) (st : Status)
  | file (f : Nat)
  | lost  -- nobody will use it again
  deriving DecidableEq

/-- What thread `t` has. -/
def Owner.status (t : Nat) : Owner → Option Status
  | .thread t' st => if t' = t then some st else none
  | _ => none

/-- Who has the fids, and which lock a thread holds. -/
structure Ghost where
  owner : Fid → Owner
  lock : Nat → Option (Nat × Fid)

namespace Ghost

def res (g : Ghost) (t : Nat) : Res := { fids := fun x => (g.owner x).status t, lock := g.lock t }

def give (g : Ghost) (x : Fid) (o : Owner) : Ghost := { g with owner := Function.update g.owner x o }

def setLock (g : Ghost) (t : Nat) (l : Option (Nat × Fid)) : Ghost := { g with lock := Function.update g.lock t l }

variable {g : Ghost} {o : Owner}

theorem give_res : (g.give x o).res t = (g.res t).set x (o.status t) := by
  simp only [give, res, Res.set, Res.mk.injEq, and_true]
  funext y
  by_cases h : y = x <;> simp [h]

theorem give_res_of_none (h : (g.owner x).status t = none) (ho : o.status t = none) : (g.give x o).res t = g.res t := by
  rw [give_res, ho, Res.set_eq_self h]

@[simp] theorem give_self : (g.give x o).owner x = o := by simp [give]

theorem give_of_ne (h : y ≠ x) : (g.give x o).owner y = g.owner y := by simp [give, h]

theorem setLock_res : (g.setLock t l).res t = { g.res t with lock := l } := by simp [setLock, res]

theorem setLock_res_of_ne (h : t' ≠ t) : (g.setLock t l).res t' = g.res t' := by simp [setLock, res, h]

theorem res_some : (g.res t).fids x = some st ↔ g.owner x = .thread t st := by
  simp only [res, Owner.status]
  split <;> simp_all

end Ghost

/-! ## The invariant -/

/-- Thread `t` waits for the exchange of T-message `i`. -/
def Session.Waits (s : Session) (t i : Nat) : Prop :=
  ∃ (th : Thread) (j : Nat) (call : Call Request Reply), s.threads[t]? = some th ∧ th.call = some j ∧ s.net.calls[j]? = some call ∧ call.pc.id = some i

/-- A thread that waits may have a fid that the server has just bound. -/
def OwnerOk (c : Shared Request Reply) (W : Nat → Nat → Prop) (x : Fid) : Owner → Prop
  | .future | .free => False
  | .thread t .fresh => ∃ f ∈ c.answered, W t f.id ∧ c.binds f = some x
  | _ => True

/-- The server's fids and the requests under way, with `W` for the threads that wait. -/
structure Served (c : Shared Request Reply) (W : Nat → Nat → Prop) (owner : Fid → Owner) : Prop where
  bound : ∀ x ∈ c.bound, OwnerOk c W x (owner x)
  clunked : ∀ t i tag x, W t i → c.sent[i]? = some ⟨tag, .other (.clunk x)⟩ → c.Answered i → x ∉ c.bound
  live : ∀ i tag req, c.Live i → c.sent[i]? = some ⟨tag, .other req⟩ →
    (∃ t, W t i) ∨ ∀ x ∈ req.fids, owner x = .lost

structure FidInv (s : Session) (g : Ghost) : Prop where
  ops : ∀ (t : Nat) (th : Thread), s.threads[t]? = some th → rules.Wp th.op (fun _ _ => True) (g.res t)
  idle : ∀ t, s.threads.length ≤ t → g.res t = {}
  future : ∀ x, g.owner x = .future ↔ s.fids.next ≤ x
  free : ∀ x ∈ s.fids.reuse, g.owner x = .free
  nodup : s.fids.reuse.Nodup
  files : ∀ (f : Nat) (file : File), s.files[f]? = some file → file.closed = false → g.owner file.fid = .file f
  locks : ∀ t f fid, g.lock t = some (f, fid) →
    ∃ file : File, s.files[f]? = some file ∧ file.fid = fid ∧ file.closed = false ∧ t ∈ file.readers
  calls : ∀ (t : Nat) (th : Thread) (j : Nat), s.threads[t]? = some th → th.call = some j →
    ∃ req zeroCopy flushOnCancel k, ∃ call : Call Request Reply,
    th.op = .cmd (.exchange req zeroCopy flushOnCancel) k ∧ s.net.calls[j]? = some call ∧ call.msg = .other req ∧
      call.flushOnCancel = flushOnCancel
  waited : ∀ (j : Nat) (call : Call Request Reply), s.net.calls[j]? = some call →
    (∃ (t : Nat) (th : Thread), s.threads[t]? = some th ∧ th.call = some j) ∨ ∃ o, call.pc = .done o
  served : Served s.net.shared s.Waits g.owner

theorem Res.MayUse.mem {r : Res} (h : r.MayUse req) (hx : x ∈ req.fids) : r.fids x = some .fresh ∨ r.Holds x := by
  cases req with
  | attach fid =>
    obtain rfl := mem_singleton.1 hx
    exact .inl h
  | clunk fid =>
    obtain rfl := mem_singleton.1 hx
    exact .inr (.inl h)
  | walk fid newFid | xattrwalk fid newFid =>
    simp only [Request.fids, mem_cons, not_mem_nil, or_false] at hx
    rcases hx with rfl | rfl
    · exact .inr h.1
    · exact .inl h.2
  | on type fids => exact .inr (h x hx)

theorem Res.MayUse.binds {r : Res} (h : r.MayUse req) (hx : req.binds reply = some x) :
    r.fids x = some .fresh := by
  unfold Request.binds at hx
  split at hx
  · cases hx
    exact h
  · simp only [ite_none_right_eq_some, Option.some.injEq] at hx
    exact hx.2 ▸ h.2
  · cases hx
    exact h.2
  · cases hx

theorem FidInv.held (hs : FidInv s g) (h : (g.res t).Holds x) : g.owner x = .thread t .own ∨ ∃ f, g.owner x = .file f := by
  rcases h with h | ⟨f, h⟩
  · exact .inl (Ghost.res_some.1 h)
  · obtain ⟨file, hfile, rfl, hclosed, -⟩ := hs.locks t f x h
    exact .inr ⟨f, hs.files f file hfile hclosed⟩

theorem FidInv.mayUse (hs : FidInv s g) (hnet : MatchInv s.net) (hw : s.Waits t i)
    (hsent : s.net.shared.sent[i]? = some ⟨tag, .other req⟩) : (g.res t).MayUse req := by
  obtain ⟨th, j, call, ht, hj, hcall, hid⟩ := hw
  obtain ⟨req', zeroCopy, flushOnCancel, k, call', hop, hcall', hmsg, -⟩ := hs.calls t th j ht hj
  obtain rfl := mem_unique hcall hcall'
  obtain ⟨tag', hsent'⟩ := (hnet.calls call (mem_of_getElem? hcall)).sent hid
  have heq := mem_unique hsent hsent'
  rw [hmsg, TFrame.mk.injEq, TMsg.other.injEq] at heq
  have hwp := hs.ops t th ht
  rw [hop] at hwp
  exact heq.2 ▸ hwp.1.1

/-- **The fids for reuse** are not bound, and no request under way names them. -/
theorem FidInv.reuse (hs : FidInv s g) (hnet : MatchInv s.net) (hx : x ∈ s.fids.reuse) :
    x ∉ s.net.shared.bound ∧
      ∀ i tag req, s.net.shared.Live i → s.net.shared.sent[i]? = some ⟨tag, .other req⟩ → x ∉ req.fids := by
  have hfree := hs.free x hx
  refine ⟨fun hbound => ?_, fun i tag req hlive hsent hmem => ?_⟩
  · have := hs.served.bound x hbound
    rw [hfree] at this
    exact this
  · rcases hs.served.live i tag req hlive hsent with ⟨t, hw⟩ | hlost
    · rcases (hs.mayUse hnet hw hsent).mem hmem with h | h
      · rw [Ghost.res_some.1 h] at hfree
        cases hfree
      · rcases hs.held h with h | ⟨f, h⟩ <;> rw [h] at hfree <;> cases hfree
    · rw [hlost x hmem] at hfree
      cases hfree

/-! ## Steps of the connection -/

/-- A step of the connection in which the server answers nothing. -/
structure Keeps (n n' : State Request Reply) : Prop where
  answered : n'.shared.answered = n.shared.answered
  sent : n.shared.sent <+: n'.shared.sent
  live : ∀ i, i < n.shared.sent.length → n'.shared.Live i → n.shared.Live i
  calls : ∀ (j : Nat) (call : Call Request Reply), n.calls[j]? = some call →
    ∃ call' : Call Request Reply, n'.calls[j]? = some call' ∧ call'.msg = call.msg ∧
      call'.flushOnCancel = call.flushOnCancel ∧ (∀ i, call.pc.id = some i → call'.pc.id = some i) ∧
      ∀ i, call'.pc.id = some i → call.pc.id = some i ∨ n.shared.sent.length ≤ i
  undone : ∀ (j : Nat) (call' : Call Request Reply), n'.calls[j]? = some call' →
    ∃ call : Call Request Reply, n.calls[j]? = some call ∧ ((∃ o, call.pc = .done o) → ∃ o, call'.pc = .done o)
  written : ∀ i tag req, n.shared.sent.length ≤ i → n'.shared.sent[i]? = some ⟨tag, .other req⟩ →
    ∃ (j : Nat) (call call' : Call Request Reply), n.calls[j]? = some call ∧ (∀ o, call.pc ≠ .done o) ∧
      n'.calls[j]? = some call' ∧ call'.pc.id = some i

theorem Keeps.of_calls
    (hanswered : c.answered = n.shared.answered) (hsent : c.sent = n.shared.sent)
    (hlive : ∀ i, c.Live i → n.shared.Live i) : Keeps n { n with shared := c } where
  answered := hanswered
  sent := hsent ▸ prefix_refl _
  live := fun i _ => hlive i
  calls := fun _ call h => ⟨call, h, rfl, rfl, fun _ => id, fun _ => .inl⟩
  undone := fun _ call h => ⟨call, h, id⟩
  written := by
    intro i tag req hi h
    have := getElem?_lt (hsent ▸ h)
    omega

section Net

variable {c : Shared Request Reply}
  {f : RFrame Reply}

theorem move_keeps (hn : NetInv n.shared)
    (hk : n.calls[k]? = some call) (h : Moves maxInflight n.shared call call.pc pc c) :
    Keeps n { shared := c, calls := n.calls.set k { call with pc } } := by
  have hnew : (n.calls.set k { call with pc })[k]? = some { call with pc } := by
    rw [set_same hk _]
  have hids : (∀ i, call.pc.id = some i → pc.id = some i) ∧
      ∀ i, pc.id = some i → call.pc.id = some i ∨ n.shared.sent.length ≤ i := by
    cases h.sent with
    | same hid | flush hid =>
      rw [hid]
      exact ⟨fun _ => id, fun _ => .inl⟩
    | write hid hid' =>
      simp only [hid, hid', reduceCtorEq, false_implies, implies_true, true_and, Option.some.injEq, false_or]
      omega
  have g := h.grows hn
  refine ⟨h.answered, g.sent, g.live, fun j x hj => ?_, fun j x hj => ?_, fun i tag req hi hsent => ?_⟩
  · by_cases hjk : j = k
    · subst hjk
      obtain rfl := mem_unique hk hj
      exact ⟨_, hnew, rfl, rfl, hids.1, hids.2⟩
    · refine ⟨x, ?_, rfl, rfl, fun _ => id, fun _ => .inl⟩
      rw [getElem?_set_ne (Ne.symm hjk)]
      exact hj
  · rcases getElem?_set_cases hj with ⟨rfl, rfl⟩ | ⟨-, hj⟩
    · exact ⟨call, hk, fun ⟨o, ho⟩ => absurd ho (h.not_done o)⟩
    · exact ⟨x, hj, id⟩
  · have hlen {t : TFrame Request} (hs : c.sent = n.shared.sent ++ [t]) : t = ⟨tag, .other req⟩ ∧ i = n.shared.sent.length := by
      rw [hs] at hsent
      have hlt := getElem?_lt hsent
      simp only [length_append, length_singleton] at hlt
      obtain rfl : i = n.shared.sent.length := by omega
      simpa using hsent
    cases h.sent with
    | same _ hs =>
      have := getElem?_lt (hs ▸ hsent)
      omega
    | flush _ hs => cases (hlen hs).1
    | write _ hid' hs => exact ⟨k, call, _, hk, h.not_done, hnew, (hlen hs).2 ▸ hid'⟩

/-- **A step of the connection** in which the server answers nothing. -/
theorem Keeps.fidInv (h : Keeps s.net n') (hnet : NetInv s.net.shared) (hs : FidInv s g) :
    FidInv { s with net := n' } g := by
  have hget {i : Nat} (hi : i < s.net.shared.sent.length) : n'.shared.sent[i]? = s.net.shared.sent[i]? := by
    obtain ⟨l, hl⟩ := h.sent
    rw [← hl, getElem?_append_left hi]
  have hwaits {t i : Nat} (hw : s.Waits t i) : Session.Waits { s with net := n' } t i := by
    obtain ⟨th, j, call, ht, hj, hcall, hid⟩ := hw
    obtain ⟨call', hcall', -, -, hids, -⟩ := h.calls j call hcall
    exact ⟨th, j, call', ht, hj, hcall', hids i hid⟩
  have hbinds (f : RFrame Reply) (hf : f ∈ s.net.shared.answered) : n'.shared.binds f = s.net.shared.binds f := by
    unfold Shared.binds
    rw [hget (hnet.written f hf)]
  have hbound : n'.shared.bound = s.net.shared.bound :=
    Shared.bound_congr h.answered fun f hf => hget (hnet.written f hf)
  refine { hs with calls := ?_, waited := ?_, served := ⟨?_, ?_, ?_⟩ }
  · intro t th j ht hj
    obtain ⟨req, zeroCopy, flushOnCancel, k, call, hop, hcall, hmsg, hflush⟩ := hs.calls t th j ht hj
    obtain ⟨call', hcall', hmsg', hflush', -⟩ := h.calls j call hcall
    exact ⟨req, zeroCopy, flushOnCancel, k, call', hop, hcall', hmsg'.trans hmsg, hflush'.trans hflush⟩
  · intro j call' hcall'
    obtain ⟨call, hcall, hdone⟩ := h.undone j call' hcall'
    exact (hs.waited j call hcall).imp_right hdone
  · intro x hx
    have hok := hs.served.bound x (hbound ▸ hx)
    unfold OwnerOk at hok ⊢
    split at hok
    · exact hok
    · exact hok
    · obtain ⟨f, hf, hw, hb⟩ := hok
      exact ⟨f, h.answered ▸ hf, hwaits hw, (hbinds f hf).trans hb⟩
    · trivial
  · intro t i tag x hw hsent ⟨f, hf, hid⟩
    rw [h.answered] at hf
    have hlt : i < s.net.shared.sent.length := hid ▸ hnet.written f hf
    obtain ⟨th, j, call', ht, hj, hcall', hid'⟩ := hw
    obtain ⟨-, -, -, -, call, -, hcall, -⟩ := hs.calls t th j ht hj
    obtain ⟨call'', hcall'', -, -, -, hids⟩ := h.calls j call hcall
    obtain rfl := mem_unique hcall' hcall''
    have hid := (hids i hid').resolve_right (by omega)
    rw [hbound]
    exact hs.served.clunked t i tag x ⟨th, j, call, ht, hj, hcall, hid⟩ ((hget hlt).symm.trans hsent) ⟨f, hf, ‹_›⟩
  · intro i tag req hlive hsent
    by_cases hlt : i < s.net.shared.sent.length
    · exact (hs.served.live i tag req (h.live i hlt hlive) ((hget hlt).symm.trans hsent)).imp_left fun ⟨t, hw⟩ =>
        ⟨t, hwaits hw⟩
    · obtain ⟨j, call, call', hcall, hdone, hcall', hid⟩ := h.written i tag req (by omega) hsent
      obtain ⟨t, th, ht, hj⟩ := (hs.waited j call hcall).resolve_right fun ⟨o, ho⟩ => hdone o ho
      exact .inl ⟨t, th, j, call', ht, hj, hcall', hid⟩

theorem FidInv.binds_owner (hs : FidInv s g) (hnet : MatchInv s.net) (hlive : s.net.shared.Live f.id)
    (h : s.net.shared.binds f = some x) :
    (∃ t, s.Waits t f.id ∧ g.owner x = .thread t .fresh) ∨ g.owner x = .lost := by
  unfold Shared.binds at h
  split at h
  · rename_i tag req hsent
    rcases hs.served.live f.id tag req hlive hsent with ⟨t, hw⟩ | hlost
    · exact .inl ⟨t, hw, Ghost.res_some.1 ((hs.mayUse hnet hw hsent).binds h)⟩
    · exact .inr (hlost x (Request.mem_fids_of_binds h))
  · cases h

theorem Shared.mem_applied (h : x ∈ c.applied f b) :
    c.binds f = some x ∨ x ∈ b ∧ ∀ tag, c.sent[f.id]? ≠ some ⟨tag, .other (.clunk x)⟩ := by
  unfold Shared.applied at h
  unfold Shared.binds
  split at h
  · rename_i tag req hsent
    rcases Request.mem_apply h with h | ⟨h, hne⟩
    · exact .inl h
    · refine .inr ⟨h, fun tag' heq => hne ?_⟩
      simpa using (TFrame.mk.inj (mem_unique hsent heq)).2
  · rename_i hsent
    exact .inr ⟨h, fun tag => hsent tag _⟩

theorem answer_fidInv (hs : FidInv s g) (hnet : MatchInv s.net) (hlt : f.id < s.net.shared.sent.length)
    (hmay : s.net.shared.mayAnswer f.id) :
    FidInv { s with net := { s.net with shared := s.net.shared.answer f } } g := by
  have hlive : s.net.shared.Live f.id := ⟨hlt, .inl (Shared.mayAnswer_iff.1 hmay)⟩
  refine { hs with served := ⟨fun x hx => ?_, fun t i tag x hw hsent hans hx => ?_, fun i tag req hl hsent => ?_⟩ }
  · rcases Shared.mem_applied hx with hbinds | ⟨hx, -⟩
    · rcases hs.binds_owner hnet hlive hbinds with ⟨t, hw, howner⟩ | hlost
      · rw [howner]
        exact ⟨f, mem_cons_self, hw, hbinds⟩
      · rw [hlost]
        trivial
    · have hok := hs.served.bound x hx
      unfold OwnerOk at hok ⊢
      split at hok
      · exact hok
      · exact hok
      · obtain ⟨f', hf', hw, hb⟩ := hok
        exact ⟨f', mem_cons_of_mem _ hf', hw, hb⟩
      · trivial
  · have howner : g.owner x = .thread t .own := Ghost.res_some.1 (hs.mayUse hnet hw hsent)
    rcases Shared.mem_applied hx with hbinds | ⟨hx, hne⟩
    · rcases hs.binds_owner hnet hlive hbinds with ⟨t', -, h⟩ | h <;> rw [h] at howner <;> cases howner
    · obtain ⟨f', hf', rfl⟩ := hans
      rcases mem_cons.1 hf' with rfl | hf'
      · exact hne tag hsent
      · exact hs.served.clunked t f'.id tag x hw hsent ⟨f', hf', rfl⟩ hx
  · exact hs.served.live i tag req (answer_live hmay hl) hsent

end Net

end NineP.Client
