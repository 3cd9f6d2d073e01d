import NineP.Client.Responses
import NineP.Server.ConnFlush

/-!
# A client and its server

The callers of one connection and the workers at its other end, with the frames between them in order.  The state keeps
who sent each T-message, which callers were cancelled and which requests a Tflush has flushed.
-/

namespace NineP.EndToEnd

open Proto Transition Client Option List
open Server (Conn.Kind Conn.Req)

variable {μ ρ : Type} {c : Shared μ ρ} {call : Call μ ρ} {choice : Choice} {pc : Pc ρ}

/-! ## The two machines -/

structure State (μ ρ : Type) where
  client : Client.State μ ρ
  server : Server.Conn.State
  /-- The caller of each T-message. -/
  senders : List Nat
  /-- The callers whose context has ended. -/
  cancelled : List Nat
  /-- The requests whose context a Tflush has flushed. -/
  flushed : List Conn.Req

inductive Label (μ ρ : Type)
  | client (l : Client.Label μ ρ)
  | server (l : Server.Conn.Label) (rread : Bool) (body : ρ)
  deriving DecidableEq

/-- What the server makes of a T-message; it knows the types of some messages only. -/
def kindOf (known : μ → Bool) : TMsg μ → Conn.Kind
  | .flush oldTag => .flush oldTag
  | .other m => if known m then .other else .unknown

/-- A worker reads the next T-message. -/
def State.reads (known : μ → Bool) (s : State μ ρ) : Server.Conn.Label → Bool
  | .worker _ (.frame tag kind) =>
    (s.client.shared.sent[s.server.shared.nextId]?).any fun t => t.tag = tag && kindOf known t.msg = kind
  | _ => true

def written (c c' : Server.Conn.State) : List (Conn.Req × Server.Conn.RFrame) :=
  (c'.log.take (c'.log.length - c.log.length)).filterMap fun
    | .wrote r f => some (r, f)
    | _ => none

/-- The responses go to the client. -/
def answers (rread : Bool) (body : ρ) (c : Client.Shared μ ρ) (fs : List (Conn.Req × Server.Conn.RFrame)) :
    Client.Shared μ ρ :=
  fs.foldl (fun c f => c.answer ⟨f.2.tag, f.1.id, rread, body⟩) c

/-- The request that a Tflush flushes in this step. -/
def target (c : Server.Conn.State) (l : Server.Conn.Label) : Option Conn.Req :=
  (c.accepting l).bind fun fl =>
    match fl.kind with
    | .flush oldTag => (c.shared.inflight.get oldTag).bind (·.rctx)
    | _ => none

/-- The state after a step of caller `k`. -/
def State.moved (s : State μ ρ) (k : Nat) (choice : Choice) (c : Client.State μ ρ) : State μ ρ :=
  { s with
    client := c
    senders := s.senders ++ List.replicate (c.shared.sent.length - s.client.shared.sent.length) k
    cancelled := if choice = .ctxDone then k :: s.cancelled else s.cancelled }

/-- One step, for a client with `n` tags and a server with `m` workers. -/
def step (known : μ → Bool) (n m : Nat) (s : State μ ρ) : Label μ ρ → Option (State μ ρ)
  | .client (.answer _ _ _) => none
  | .client (.move k choice) => (Client.step n s.client (.move k choice)).map (s.moved k choice)
  | .client l => (Client.step n s.client l).map fun c => { s with client := c }
  | .server l rread body =>
    if s.reads known l then
      (Server.Conn.step m s.server l).map fun c =>
        { s with
          client := { s.client with shared := answers rread body s.client.shared (written s.server c) }
          server := c
          flushed := (target s.server l).toList ++ s.flushed }
    else none

def init (n : Nat) : State μ ρ := ⟨Client.init n, Server.Conn.init, [], [], []⟩

/-- No caller sends a Tflush of its own, and the entry that a Tflush finds is that of the last T-message with its old
tag before it. -/
def FlushesOwn (s : State μ ρ) : Label μ ρ → Prop
  | .client (.call (.flush _) _ _) => False
  | .server l _ _ =>
    ∀ fl ∈ s.server.accepting l, ∀ r ∈ target s.server l, flushes s.client.shared.sent fl.id r.id
  | _ => True

instance (s : State μ ρ) : DecidablePred (FlushesOwn s)
  | .client (.call (.flush _) _ _) => inferInstanceAs (Decidable False)
  | .server l _ _ => inferInstanceAs (Decidable (∀ fl ∈ s.server.accepting l, ∀ r ∈ target s.server l, _))
  | .client (.call (.other _) _ _) | .client (.move _ _) | .client (.answer _ _ _) | .client .read
  | .client .deliver | .client .readFail | .client .shutdown | .client .closeNc | .client .cancelAll => .isTrue trivial

/-! ## Callers that may send a Tflush -/

section Callers

/-- The tag and the T-message of a caller that waits for its answer and may send a Tflush for it. -/
def asked : Pc ρ → Option (Tag × Nat)
  | .waiting tag _ i | .flushing tag _ i | .flushRegistered tag _ i _ | .flushWriting tag _ i _ => some (tag, i)
  | _ => none

/-- The caller was cancelled and has not sent its Tflush yet. -/
def ended : Pc ρ → Bool
  | .flushing _ _ _ | .flushRegistered _ _ _ _ | .flushWriting _ _ _ _ => true
  | _ => false

variable {maxInflight : Nat} {c' : Shared μ ρ} {pc' : Pc ρ}

theorem tag_of_asked (h : asked pc = some (tag, i)) : pc.tag = some tag := by
  cases pc <;> cases h <;> rfl

/-- What a caller's step writes, and what it may flush then. -/
inductive AskMove (c : Shared μ ρ) (msg : TMsg μ) (pc pc' : Pc ρ) (c' : Shared μ ρ) : Prop
  | quiet (hsent : c'.sent = c.sent) (hasked : asked pc' = none ∨ asked pc' = asked pc)
  | write {tag : Tag} (htag : pc.tag = some tag) (hsent : c'.sent = c.sent ++ [⟨tag, msg⟩])
      (hasked : asked pc' = some (tag, c.sent.length)) (hended : ended pc' = false)
  | flush {tag : Tag} {i : Nat} (hasked : asked pc = some (tag, i)) (hended : ended pc = true)
      (hsent : c'.sent = c.sent ++ [⟨flushTagFor tag, .flush tag⟩]) (hasked' : asked pc' = none)

theorem moves_ask (h : Moves maxInflight c call pc pc' c') : AskMove c call.msg pc pc' c' := by
  cases h with
  | write => exact .write rfl rfl rfl rfl
  | flushWrite => exact .flush rfl rfl rfl rfl
  | releaseOk | release => exact .quiet (release_sameNet _).sent (.inl rfl)
  | flush | flushRegister | flushCheck => exact .quiet rfl (.inr rfl)
  | _ => exact .quiet rfl (.inl rfl)

theorem move_ended (h : Client.move maxInflight c call choice = some (pc', c')) (hended : ended pc' = true) :
    ended call.pc = true ∨ choice = .ctxDone := by
  have hm := move_moves h
  generalize hpc : call.pc = pc at hm
  cases hm with
  | flushRegister | flushCheck => exact .inl rfl
  | @flush tag e i =>
    cases choice with
    | ctxDone => exact .inr rfl
    | recv =>
      simp only [Client.move, hpc] at h
      obtain ⟨m | m, -, heq⟩ := map_eq_some_iff.1 h <;> cases heq
    | closeCh | go | refuse | fail | recvFlush | grace => simp [Client.move, hpc] at h
  | _ => cases hended

end Callers

/-! ## The invariant -/

/-- Call `k` may send a Tflush for its T-message `i`: no later one has its tag. -/
structure Asks (c : Shared μ ρ) (senders cancelled : List Nat) (k : Nat) (pc : Pc ρ) (tag : Tag) (i : Nat) : Prop where
  sent : c.tagAt i = some tag
  last : ∀ j, i < j → c.tagAt j ≠ some tag
  sender : senders[i]? = some k
  ended : ended pc = true → k ∈ cancelled

/-- The caller of T-message `i` was cancelled. -/
def State.Cancelled (s : State μ ρ) (i : Nat) : Prop := ∃ k ∈ s.cancelled, s.senders[i]? = some k

structure Inv (known : μ → Bool) (s : State μ ρ) : Prop where
  tags : TagInv s.client
  calls : ∀ call ∈ s.client.calls, ∀ oldTag, call.msg ≠ .flush oldTag
  senders : s.senders.length = s.client.shared.sent.length
  asked : ∀ (k : Nat) (call : Call μ ρ) (tag : Tag) (i : Nat), s.client.calls[k]? = some call →
    asked call.pc = some (tag, i) → Asks s.client.shared s.senders s.cancelled k call.pc tag i
  /-- The T-message that a Tflush is for is that of a cancelled caller. -/
  flush : ∀ (j : Nat) (tag oldTag : Tag), s.client.shared.sent[j]? = some ⟨tag, .flush oldTag⟩ →
    ∃ i, flushes s.client.shared.sent j i ∧ s.Cancelled i
  log : Server.Conn.LogInv s.server
  reads : ∀ r, .read r ∈ s.server.log →
    ∃ t, s.client.shared.sent[r.id]? = some t ∧ t.tag = r.tag ∧ kindOf known t.msg = r.kind
  flushed : ∀ r ∈ s.flushed, s.Cancelled r.id

theorem init_inv (known : μ → Bool) (hn : n ≤ maxMaxInflight) : Inv known (init n : State μ ρ) where
  tags := init_tagInv hn
  calls := by simp [init, Client.init]
  senders := rfl
  asked := by simp [init, Client.init]
  flush := by simp [init, Client.init]
  log := Server.Conn.init_logInv
  reads := by simp [init, Server.Conn.init]
  flushed := by simp [init]

theorem flushes_unique {sent : List (TFrame μ)} (h : flushes sent j i) (h' : flushes sent j i') :
    i = i' := by
  obtain ⟨tag, oldTag, hj, hi, htag, hlast⟩ := flushes_iff.1 h
  obtain ⟨tag', oldTag', hj', hi', htag', hlast'⟩ := flushes_iff.1 h'
  obtain ⟨rfl, rfl⟩ : tag = tag' ∧ oldTag = oldTag' := by simpa using hj.symm.trans hj'
  rcases Nat.lt_trichotomy i i' with hlt | heq | hgt
  · exact absurd htag' (hlast i' hlt hi')
  · exact heq
  · exact absurd htag (hlast' i hgt hi)

section Step

variable {known : μ → Bool} {n m : Nat} {s : State μ ρ}

/-! ## Steps that write nothing -/

variable {l : Server.Conn.Label}

theorem Inv.of_sent (hs : Inv known s) (htags : TagInv ⟨c, s.client.calls⟩) (hsent : c.sent = s.client.shared.sent) :
    Inv known { s with client := { s.client with shared := c } } := by
  have htagAt (i : Nat) : c.tagAt i = s.client.shared.tagAt i := by rw [Shared.tagAt, hsent, Shared.tagAt]
  refine ⟨htags, hs.calls, hs.senders.trans (by rw [hsent]), ?_, ?_, hs.log, ?_, hs.flushed⟩
  · intro k call tag i hk hasked
    obtain ⟨htag, hlast, hsender, hcancelled⟩ := hs.asked k call tag i hk hasked
    exact ⟨(htagAt i).trans htag, fun j hj => by rw [htagAt]; exact hlast j hj, hsender, hcancelled⟩
  · intro j tag oldTag hj
    obtain ⟨i, hi, hcancelled⟩ := hs.flush j tag oldTag (by simpa only [hsent] using hj)
    exact ⟨i, by simpa only [hsent] using hi, hcancelled⟩
  · simpa only [hsent] using hs.reads

theorem call_inv (hs : Inv known s) (hmsg : ∀ oldTag, call.msg ≠ .flush oldTag)
    (hasked : asked call.pc = none) (htags : TagInv ⟨s.client.shared, s.client.calls ++ [call]⟩) :
    Inv known { s with client := { s.client with calls := s.client.calls ++ [call] } } := by
  refine { hs with tags := htags, calls := ?_, asked := ?_ }
  · intro x hx
    rcases mem_append.1 hx with hx | hx
    · exact hs.calls x hx
    · rw [mem_singleton.1 hx]
      exact hmsg
  · intro k x tag i hk hx
    rcases getElem?_concat_cases hk with hk | ⟨-, rfl⟩
    · exact hs.asked k x tag i hk hx
    · rw [hasked] at hx
      cases hx

/-! ## Steps of the server -/

theorem answers_sent (rread : Bool) (body : ρ) (c : Shared μ ρ) (fs : List (Conn.Req × Server.Conn.RFrame)) :
    (answers rread body c fs).sent = c.sent ∧ (answers rread body c fs).free = c.free := by
  unfold answers
  induction fs generalizing c with
  | nil => exact ⟨rfl, rfl⟩
  | cons f fs ih => exact ih _

theorem server_reads (hs : Inv known s) {c : Server.Conn.State} (hreads : s.reads known l)
    (h : Server.Conn.step m s.server l = some c) (r : Conn.Req) (hr : .read r ∈ c.log) :
    ∃ t, s.client.shared.sent[r.id]? = some t ∧ t.tag = r.tag ∧ kindOf known t.msg = r.kind := by
  obtain ⟨-, hold⟩ | ⟨w, tag, kind, rfl, -, hold⟩ := Server.Conn.step_reads h
  · exact hs.reads r (hold r hr)
  · rcases hold r hr with rfl | hr
    · simp only [State.reads, Option.any_eq_true, Bool.and_eq_true, decide_eq_true_eq] at hreads
      exact hreads
    · exact hs.reads r hr

theorem flush_of_kindOf (h : kindOf known msg = .flush oldTag) : msg = .flush oldTag := by
  cases msg with
  | flush => exact congrArg _ (Conn.Kind.flush.inj h)
  | other m =>
    simp only [kindOf] at h
    split at h <;> cases h

theorem Inv.target (hs : Inv known s) (hr : target s.server l = some r)
    (hok : ∀ fl ∈ s.server.accepting l, ∀ r ∈ target s.server l, flushes s.client.shared.sent fl.id r.id) :
    s.Cancelled r.id := by
  obtain ⟨fl, hfl, hkind⟩ := bind_eq_some_iff.1 hr
  obtain ⟨w, -, hw⟩ := Server.Conn.got_of_accepting hfl
  obtain ⟨t, ht, -, hmsg⟩ := hs.reads fl (hs.log.read_of_req (mem_of_getElem? hw) rfl)
  split at hkind
  · rename_i oldTag hflush
    rw [hflush] at hmsg
    obtain ⟨tag, msg⟩ := t
    obtain rfl := flush_of_kindOf hmsg
    obtain ⟨i, hi, hcancelled⟩ := hs.flush fl.id tag oldTag ht
    obtain rfl := flushes_unique hi (hok fl hfl r hr)
    exact hcancelled
  · cases hkind

theorem server_inv (hs : Inv known s) {c : Server.Conn.State} (rread : Bool) (body : ρ)
    (hok : FlushesOwn s (.server l rread body)) (hreads : s.reads known l)
    (h : Server.Conn.step m s.server l = some c) :
    Inv known { s with
      client := { s.client with shared := answers rread body s.client.shared (written s.server c) }
      server := c
      flushed := (target s.server l).toList ++ s.flushed } := by
  obtain ⟨hsent, hfree⟩ := answers_sent rread body s.client.shared (written s.server c)
  have hinv := hs.of_sent (c := answers rread body s.client.shared (written s.server c))
    ⟨by simpa only [hfree] using hs.tags.unique, by simpa only [hfree] using hs.tags.free, hs.tags.held⟩ hsent
  refine { hinv with log := Server.Conn.step_logInv hs.log h, reads := ?_, flushed := ?_ }
  · simpa only [hsent] using server_reads hs hreads h
  · intro r hr
    rcases mem_append.1 hr with hr | hr
    · exact hs.target (mem_toList.1 hr) hok
    · exact hs.flushed r hr

/-! ## Steps of a caller -/

theorem Asks.flushes_send
    (h : Asks c senders cancelled k pc tag i) :
    flushes (c.sent ++ [⟨flushTagFor tag, .flush tag⟩]) c.sent.length i := by
  have hlt := Shared.tagAt_lt h.sent
  refine flushes_iff.2 ⟨flushTagFor tag, tag, by simp, hlt, ?_, fun j hj hj' => ?_⟩
  · rw [getElem?_append_left hlt]
    exact h.sent
  · rw [getElem?_append_left hj']
    exact h.last j hj

section Move

variable {k : Nat}

theorem moved_cancelled (c : Client.State μ ρ) (h : j ∈ s.cancelled) : j ∈ (s.moved k choice c).cancelled := by
  unfold State.moved
  dsimp only
  split
  · exact mem_cons_of_mem _ h
  · exact h

theorem moved_senders {i j : Nat} (c : Client.State μ ρ) (h : s.senders[i]? = some j) :
    (s.moved k choice c).senders[i]? = some j := by
  rw [State.moved, getElem?_append_left (getElem?_lt h), h]

theorem moved_isCancelled (c : Client.State μ ρ) (h : s.Cancelled i) : (s.moved k choice c).Cancelled i := by
  obtain ⟨j, hj, hi⟩ := h
  exact ⟨j, moved_cancelled c hj, moved_senders c hi⟩

theorem Asks.moved
    (h : Asks s.client.shared s.senders s.cancelled j x tag i)
    (hsent : c.sent = s.client.shared.sent ++ new) (hspares : Spares s.client.shared c tag) (calls : List (Call μ ρ))
    (hended : EndToEnd.ended x' = true → EndToEnd.ended x = true ∨ j = k ∧ choice = .ctxDone) :
    Asks c (s.moved k choice ⟨c, calls⟩).senders (s.moved k choice ⟨c, calls⟩).cancelled j x' tag i := by
  have hold {i : Nat} (hi : i < s.client.shared.sent.length) : c.tagAt i = s.client.shared.tagAt i := by
    rw [Shared.tagAt, hsent, getElem?_append_left hi, Shared.tagAt]
  refine ⟨(hold (Shared.tagAt_lt h.sent)).trans h.sent, fun i' hi' => ?_, moved_senders _ h.sender, fun hx => ?_⟩
  · by_cases hlt : i' < s.client.shared.sent.length
    · exact (hold hlt).trans_ne (h.last i' hi')
    · exact hspares i' (by omega)
  · rcases hended hx with hx | ⟨rfl, rfl⟩
    · exact moved_cancelled _ (h.ended hx)
    · exact mem_cons_self

theorem move_inv (hs : Inv known s) (hk : s.client.calls[k]? = some call)
    (h : Client.move n s.client.shared call choice = some (pc, c)) :
    Inv known (s.moved k choice ⟨c, s.client.calls.set k { call with pc }⟩) := by
  have hmoves := move_moves h
  have hmem := mem_of_getElem? hk
  have hsmall := hs.tags.held call hmem
  obtain ⟨new, hsent, hnew⟩ : ∃ new, c.sent = s.client.shared.sent ++ new ∧ new.length ≤ 1 := by
    cases moves_ask hmoves with
    | quiet hsent => exact ⟨[], by simpa using hsent, by simp⟩
    | write _ hsent | flush _ _ hsent => exact ⟨_, hsent, by simp⟩
  have hother {j i : Nat} {x : Call μ ρ} {tag : Tag} (hjk : j ≠ k) (hj : s.client.calls[j]? = some x)
      (hx : asked x.pc = some (tag, i)) :
      Asks c (s.moved k choice ⟨c, s.client.calls.set k { call with pc }⟩).senders
        (s.moved k choice ⟨c, s.client.calls.set k { call with pc }⟩).cancelled j x.pc tag i := by
    have htag := tag_of_asked hx
    have hne : call.pc.tag ≠ some tag := fun heq => hjk (hs.tags.eq hj hk htag heq)
    exact (hs.asked j x tag i hj hx).moved hsent
      (hmoves.spares hsmall (hs.tags.held x (mem_of_getElem? hj) tag htag) hne).1 _ .inl
  constructor
  · exact move_tagInv hs.tags hk hmoves
  · intro x hx
    rcases mem_or_eq_of_mem_set hx with hx | rfl
    · exact hs.calls x hx
    · exact hs.calls call hmem
  · simp [State.moved, hsent, hs.senders]
  · intro j x tag i hj hx
    rcases getElem?_set_cases hj with ⟨rfl, rfl⟩ | ⟨hjk, hj⟩
    · cases moves_ask hmoves with
      | quiet hsent' hasked =>
        rcases hasked with hasked | hasked
        · exact absurd (hasked.symm.trans hx) (by simp)
        · exact (hs.asked j call tag i hk (hasked.symm.trans hx)).moved hsent (spares_of_sent hsent' tag) _ fun hend =>
            (move_ended h hend).imp_right fun hc => ⟨rfl, hc⟩
      | @write tag' htag hsent' hasked hended =>
        obtain ⟨rfl, rfl⟩ : tag' = tag ∧ s.client.shared.sent.length = i := by simpa using hasked.symm.trans hx
        refine ⟨?_, ?_, ?_, fun hend => absurd (hended.symm.trans hend) (by simp)⟩
        · simp [State.moved, Shared.tagAt, hsent']
        · intro i hi
          rw [State.moved, Shared.tagAt, hsent', getElem?_eq_none (by simpa using Nat.succ_le_of_lt hi)]
          simp
        · simp [State.moved, hsent', ← hs.senders]
      | flush _ _ _ hasked => exact absurd (hasked.symm.trans hx) (by simp)
    · exact hother hjk hj hx
  · intro j tag oldTag hj
    have hold (hlt : j < s.client.shared.sent.length) : ∃ i, flushes c.sent j i ∧
        (s.moved k choice ⟨c, s.client.calls.set k { call with pc }⟩).Cancelled i := by
      have hj : c.sent[j]? = some ⟨tag, .flush oldTag⟩ := hj
      rw [hsent, getElem?_append_left hlt] at hj
      obtain ⟨i, hi, hcancelled⟩ := hs.flush j tag oldTag hj
      exact ⟨i, by rwa [hsent, flushes_append new hlt], moved_isCancelled _ hcancelled⟩
    cases moves_ask hmoves with
    | quiet hsent' => exact hold (hsent' ▸ (getElem?_lt hj))
    | write _ hsent' =>
      have hj : c.sent[j]? = some ⟨tag, .flush oldTag⟩ := hj
      rw [hsent'] at hj
      rcases getElem?_concat_cases hj with hj | ⟨-, hj⟩
      · exact hold (getElem?_lt hj)
      · exact absurd (TFrame.mk.inj hj).2.symm (hs.calls call hmem oldTag)
    | @flush tag' i hasked hended hsent' =>
      have hj : c.sent[j]? = some ⟨tag, .flush oldTag⟩ := hj
      rw [hsent'] at hj
      rcases getElem?_concat_cases hj with hj | ⟨rfl, -⟩
      · exact hold (getElem?_lt hj)
      · have hasks := hs.asked k call tag' i hk hasked
        refine ⟨i, ?_, moved_isCancelled _ ⟨k, hasks.ended hended, hasks.sender⟩⟩
        have hflushes := hasks.flushes_send
        rwa [← hsent'] at hflushes
  · exact hs.log
  · intro r hr
    obtain ⟨t, ht, hrest⟩ := hs.reads r hr
    refine ⟨t, ?_, hrest⟩
    rw [State.moved, hsent, getElem?_append_left (getElem?_lt ht), ht]
  · intro r hr
    exact moved_isCancelled _ (hs.flushed r hr)

end Move

theorem client_inv (hs : Inv known s) {l : Client.Label μ ρ} (hok : FlushesOwn s (.client l))
    (h : step known n m s (.client l) = some s') : Inv known s' := by
  have hkeep {c : Client.State μ ρ} (hl : Client.step n s.client l = some c) (hcalls : c.calls = s.client.calls)
      (hsent : c.shared.sent = s.client.shared.sent) : Inv known { s with client := c } := by
    have htags := step_tagInv hs.tags (step_steps hl)
    obtain ⟨shared, calls⟩ := c
    obtain rfl : calls = s.client.calls := hcalls
    exact hs.of_sent htags hsent
  cases l with
  | answer => cases h
  | move k choice =>
    obtain ⟨c, hc, rfl⟩ := map_eq_some_iff.1 h
    obtain ⟨call, hk, hc⟩ := bind_eq_some_iff.1 hc
    obtain ⟨⟨pc, shared⟩, hmove, rfl⟩ := map_eq_some_iff.1 hc
    exact move_inv hs hk hmove
  | call msg zeroCopy flushOnCancel =>
    obtain ⟨c, hc, rfl⟩ := map_eq_some_iff.1 h
    have htags := step_tagInv hs.tags (step_steps hc)
    cases step_steps hc with
    | call =>
      refine call_inv hs (fun oldTag hmsg => ?_) rfl htags
      obtain rfl : msg = .flush oldTag := hmsg
      exact hok
  | read | deliver | readFail | shutdown | closeNc | cancelAll =>
    simp only [step] at h
    obtain ⟨c, hc, rfl⟩ := map_eq_some_iff.1 h
    refine hkeep hc ?_ ?_ <;> cases step_steps hc <;> first | rfl | exact handOver_sent

theorem step_inv {l : Label μ ρ} (hs : Inv known s) (hok : FlushesOwn s l) (h : step known n m s l = some s') :
    Inv known s' := by
  cases l with
  | client l => exact client_inv hs hok h
  | server l rread body =>
    simp only [step, ite_none_right_eq_some] at h
    obtain ⟨hreads, h⟩ := h
    obtain ⟨c, hc, rfl⟩ := map_eq_some_iff.1 h
    exact server_inv hs rread body hok hreads hc

end Step

/-! ## The result -/

/-- **No spurious cancellation.**  In every run in which no caller sends a Tflush of its own and every Tflush finds the
entry of the request it was sent for, or none, each request whose context a Tflush has flushed is that of a caller whose
context has ended. -/
theorem flushed_only_cancelled (known : μ → Bool) {n : Nat} (m : Nat) (hn : n ≤ maxMaxInflight) {ls : List (Label μ ρ)}
    {s : State μ ρ} (hok : Meets (step known n m) FlushesOwn (init n) ls)
    (h : run (step known n m) (init n) ls = some s) :
    ∀ r ∈ s.flushed, ∃ k ∈ s.cancelled, s.senders[r.id]? = some k :=
  have hs : Inv known s := run_inv_of_meets step_inv (init_inv known hn) hok h
  hs.flushed

def clientSteps (ls : List (Client.Label Unit Unit)) : List (Label Unit Unit) := ls.map .client

def workerSteps (w : Nat) (cs : List Server.Conn.Choice) : List (Label Unit Unit) :=
  cs.map fun c => .server (.worker w c) false ()

/-- The first caller sends a request, which worker 0 handles; it is cancelled and sends a Tflush, which worker 1 reads. -/
def cancelSteps : List (Label Unit Unit) :=
  clientSteps (.call (.other ()) false true :: sendSteps 0) ++ workerSteps 0 [.go, .go, .frame 1 .other, .go] ++
    clientSteps (flushSteps 0) ++ workerSteps 1 [.go, .go, .frame 0x8001 (.flush 1)]

theorem flushed_only_cancelled_first :
    ∃ s, run (step (fun _ => true) 1 3) (init 1) (cancelSteps ++ workerSteps 1 [.go]) = some s ∧
      s.flushed = [⟨0, 1, .other⟩] ∧ ∀ r ∈ s.flushed, ∃ k ∈ s.cancelled, s.senders[r.id]? = some k :=
  ⟨_, rfl, rfl, flushed_only_cancelled (fun _ => true) 3 (n := 1) (by decide)
    (show Meets _ _ _ (cancelSteps ++ workerSteps 1 [.go]) by decide) rfl⟩

/-- The response comes before worker 1 goes on; the first caller gives back its tag, the second takes it, and its request
is in the map when worker 1 asks for the tag. -/
def spuriousRun : List (Label Unit Unit) :=
  cancelSteps ++ workerSteps 0 [.respond, .go, .write .ok, .go] ++
    clientSteps ([.read, .deliver] ++ failSteps 0 .recv ++ .call (.other ()) false true :: sendSteps 1) ++
    workerSteps 2 [.go, .go, .frame 1 .other, .go] ++ workerSteps 1 [.go]

theorem flushed_spuriously :
    ∃ s, run (step (fun _ => true) 1 3) (init 1) spuriousRun = some s ∧ s.flushed = [⟨2, 1, .other⟩] ∧
      s.senders = [0, 0, 1] ∧ s.cancelled = [0] :=
  ⟨_, rfl, rfl, rfl, rfl⟩

end NineP.EndToEnd
