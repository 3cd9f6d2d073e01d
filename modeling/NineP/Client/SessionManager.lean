import NineP.Lib.Transition

/-!
# A session that reconnects

`Session` of `client/session_manager.go`: any number of calls of `Conn` and `Close`, as threads.  What runs under
`s.mu` is one step; the dialer, `Dial`, `onReconnect` and the closing of a connection run between such steps.
-/

namespace NineP.Client.SessionManager

open Transition List Option

/-! ## The state -/

/-- Where a call is: `ch` is the `done` channel of a dialer, `c` a connection that `Dial` has established. -/
inductive Pc
  | check  -- the head of the loop in `Conn`
  | wait (ch : Nat)
  | dial (ch : Nat)  -- `dialOnce`
  | reconnect (ch c : Nat)  -- `onReconnect`
  | abort (ch c : Nat)  -- it has failed, and the connection is to be closed
  | backoff (ch : Nat)  -- `dialOnce` has failed
  | publish (ch : Nat) (c : Option Nat)  -- `dialWithBackoff` has returned
  | discard (c : Nat)  -- the session was closed in the meantime
  | returned (c : Option Nat)  -- `Conn` has returned
  | close  -- `Close`
  | closeConn (c : Nat)
  | closed  -- `Close` has returned
  deriving DecidableEq

/-- The channel of a dial sequence in progress. -/
def Pc.dialer : Pc → Option Nat
  | .dial ch | .reconnect ch _ | .abort ch _ | .backoff ch | .publish ch _ => some ch
  | _ => none

/-- The connection that a call alone knows. -/
def Pc.holds : Pc → Option Nat
  | .reconnect _ c | .abort _ c | .publish _ (some c) | .discard c => some c
  | _ => none

/-- `Close` is past its critical section. -/
def Pc.closing : Pc → Bool
  | .closeConn _ | .closed => true
  | _ => false

/-- The call has returned. -/
def Pc.finished : Pc → Bool
  | .returned _ | .closed => true
  | _ => false

variable {pc : Pc} {s : State}

theorem Pc.holds_of_finished (h : pc.finished) : pc.holds = none := by
  cases pc with
  | returned c | closed => rfl
  | _ => exact nomatch h

structure Thread where
  pc : Pc
  /-- A call of `Close` had returned when this one began. -/
  late : Bool
  deriving DecidableEq

/-- A `*Conn`. -/
structure Link where
  /-- `isClosed` -/
  dead : Bool := false
  /-- The session has called its `Close`. -/
  closed : Bool := false
  deriving DecidableEq

structure State where
  closed : Bool := false
  conn : Option Nat := none
  dialing : Option Nat := none
  /-- The `done` channels: closed or not. -/
  chans : List Bool := []
  /-- The connections that `Dial` has established. -/
  conns : List Link := []
  threads : List Thread := []
  deriving DecidableEq

inductive Event
  | go
  | cancelled  -- `ctx.Done`
  | stopped  -- `closeCh`
  | dialFails
  | dialed
  | reconnectFails
  deriving DecidableEq

inductive Label
  | callConn
  | callClose
  | thread (t : Nat) (e : Event)
  | die (c : Nat)
  deriving DecidableEq

/-! ## Steps -/

def State.closeConn (s : State) (c : Nat) : State := { s with conns := s.conns.set c ⟨true, true⟩ }

/-- `s.conn` if it is alive. -/
def State.live (s : State) : Option Nat := s.conn.filter fun c => (s.conns[c]?).any fun l => !l.dead

/-- A step of a call: what it does to the session, and where it is then. -/
def State.advance (s : State) : Event → Pc → Option (State × Pc)
  | .go, .check =>
    if s.closed then some (s, .returned none)
    else
      match s.live, s.dialing with
      | some c, _ => some (s, .returned (some c))
      | none, some ch => some (s, .wait ch)
      | none, none =>
        some ({ s with dialing := some s.chans.length, chans := s.chans ++ [false] }, .dial s.chans.length)
  | .go, .wait ch => if s.chans[ch]? = some true then some (s, .check) else none
  | .cancelled, .wait _ => some (s, .returned none)
  | .dialFails, .dial ch => some (s, .backoff ch)
  | .dialed, .dial ch => some ({ s with conns := s.conns ++ [{}] }, .reconnect ch s.conns.length)
  | .go, .reconnect ch c => some (s, .publish ch (some c))
  | .reconnectFails, .reconnect ch c => some (s, .abort ch c)
  | .go, .abort ch c => some (s.closeConn c, .backoff ch)
  | .go, .backoff ch => some (s, .dial ch)
  | .cancelled, .backoff ch => some (s, .publish ch none)
  | .stopped, .backoff ch => if s.closed then some (s, .publish ch none) else none
  | .go, .publish ch c =>
    let s := { s with dialing := none, chans := s.chans.set ch true }
    match s.closed, c with
    | true, some c => some (s, .discard c)
    | false, some c => some ({ s with conn := some c }, .returned (some c))
    | _, none => some (s, .returned none)
  | .go, .discard c => some (s.closeConn c, .returned none)
  | .go, .close =>
    if s.closed then some (s, .closed)
    else
      match s.conn with
      | some c => some ({ s with closed := true, conn := none }, .closeConn c)
      | none => some ({ s with closed := true, conn := none }, .closed)
  | .go, .closeConn c => some (s.closeConn c, .closed)
  | _, _ => none

def step (s : State) : Label → Option State
  | .callConn => some { s with threads := s.threads ++ [⟨.check, s.threads.any fun th => th.pc = .closed⟩] }
  | .callClose => some { s with threads := s.threads ++ [⟨.close, false⟩] }
  | .thread t e => do
    let th ← s.threads[t]?
    let r ← s.advance e th.pc
    return { r.1 with threads := s.threads.set t { th with pc := r.2 } }
  | .die c => do
    let l ← s.conns[c]?
    return { s with conns := s.conns.set c { l with dead := true } }

/-! ## What a step of a call can do -/

/-- Connections that are closed stay closed, and there are no fewer of them. -/
def Kept (ls ls' : List Link) : Prop :=
  ∀ (c : Nat) (l : Link), ls[c]? = some l → ∃ l' : Link, ls'[c]? = some l' ∧ (l.closed → l'.closed)

theorem Kept.refl (ls : List Link) : Kept ls ls := fun _ l h => ⟨l, h, id⟩

theorem Kept.set (h : ∀ l, ls[c]? = some l → l.closed → l'.closed) :
    Kept ls (ls.set c l') := by
  intro c' l hl
  by_cases hc : c = c'
  · subst hc
    refine ⟨l', ?_, h l hl⟩
    rw [set_same hl _]
  · exact ⟨l, by rw [getElem?_set_ne hc, hl], id⟩

theorem Kept.append (ls : List Link) (l' : Link) : Kept ls (ls ++ [l']) := fun _ l h =>
  ⟨l, getElem?_concat_left h l', id⟩

theorem Kept.closeConn (s : State) (c : Nat) : Kept s.conns (s.closeConn c).conns := .set fun _ _ _ => rfl

def IsClosed (ls : List Link) (c : Nat) : Prop := ∃ l : Link, ls[c]? = some l ∧ l.closed

/-- The call at `pc` goes on to `pc'`, and the session from `s` to `s'`. -/
structure Advances (s : State) (pc : Pc) (s' : State) (pc' : Pc) : Prop where
  threads : s'.threads = s.threads
  unfinished : ∀ c, pc ≠ .returned c
  /-- A dialer goes on under the same channel, begins when there is none, or ends. -/
  dialing : s'.dialing = s.dialing ∧ pc'.dialer = pc.dialer ∨
    s.dialing = none ∧ pc.dialer = none ∧ s'.dialing = pc'.dialer ∨ pc.dialer.isSome ∧ pc'.dialer = none
  closed : s.closed → s'.closed
  conn : s'.conn = s.conn ∧ s'.closed = s.closed ∨ s'.conn = none ∨
    ∃ c, s'.conn = some c ∧ pc' = .returned (some c) ∧ s'.closed = false
  closing : pc'.closing → pc.closing ∨ s'.closed
  /-- In a closed session a call that has just begun fails. -/
  fails : s.closed → pc = .check → pc' = .returned none
  kept : Kept s.conns s'.conns
  /-- A new connection is in the hands of the call. -/
  new : ∀ c, c < s'.conns.length → c < s.conns.length ∨ pc'.holds = some c
  /-- A connection leaves the hands of the call when it is returned or closed. -/
  holds : ∀ c, pc.holds = some c → c < s.conns.length →
    pc'.holds = some c ∨ pc' = .returned (some c) ∨ IsClosed s'.conns c

theorem isClosed_closeConn (h : c < s.conns.length) : IsClosed (s.closeConn c).conns c :=
  ⟨⟨true, true⟩, getElem?_set_self h, rfl⟩

theorem Advances.idle (hpc : ∀ c, pc ≠ .returned c) (hdialer : pc'.dialer = pc.dialer)
    (hclosing : pc'.closing → pc.closing ∨ s.closed) (hfails : s.closed → pc = .check → pc' = .returned none)
    (hholds : ∀ c, pc.holds = some c → pc'.holds = some c) : Advances s pc s pc' where
  threads := rfl
  unfinished := hpc
  dialing := .inl ⟨rfl, hdialer⟩
  closed := id
  conn := .inl ⟨rfl, rfl⟩
  closing := hclosing
  fails := hfails
  kept := .refl _
  new _ h := .inl h
  holds c h _ := .inl (hholds c h)

theorem Advances.closes (hpc : ∀ c, pc ≠ .returned c) (hdialer : pc'.dialer = pc.dialer)
    (hclosing : pc'.closing → pc.closing ∨ s.closed) (hcheck : pc ≠ .check) (hholds : ∀ c', pc.holds = some c' → c' = c) :
    Advances s pc (s.closeConn c) pc' where
  threads := rfl
  unfinished := hpc
  dialing := .inl ⟨rfl, hdialer⟩
  closed := id
  conn := .inl ⟨rfl, rfl⟩
  closing := hclosing
  fails _ h := absurd h hcheck
  kept := .closeConn s c
  new c' h := .inl (by simpa [State.closeConn] using h)
  holds c' h hlt := .inr (.inr (hholds c' h ▸ isClosed_closeConn (hholds c' h ▸ hlt)))

theorem advance_advances (h : s.advance e pc = some (s', pc')) : Advances s pc s' pc' := by
  unfold State.advance at h
  split at h
  · -- `Conn` looks at the session
    split at h
    · cases h
      exact .idle nofun rfl nofun (fun _ _ => rfl) nofun
    · rename_i hopen
      have hfails : s.closed → Pc.check = .check → pc' = .returned none := fun hclosed => absurd hclosed hopen
      split at h
      · cases h
        exact .idle nofun rfl nofun hfails nofun
      · cases h
        exact .idle nofun rfl nofun hfails nofun
      · rename_i hdialing
        cases h
        exact ⟨rfl, nofun, .inr (.inl ⟨hdialing, rfl, rfl⟩), id, .inl ⟨rfl, rfl⟩, nofun, hfails, .refl _,
          fun _ h => .inl h, nofun⟩
  · split at h
    · cases h
      exact .idle nofun rfl nofun nofun nofun
    · exact nomatch h
  · cases h
    exact .idle nofun rfl nofun nofun nofun
  · cases h
    exact .idle nofun rfl nofun nofun nofun
  · -- a connection is established
    cases h
    refine ⟨rfl, nofun, .inl ⟨rfl, rfl⟩, id, .inl ⟨rfl, rfl⟩, nofun, nofun, .append _ _, fun c hc => ?_, nofun⟩
    rw [length_append, length_singleton] at hc
    rcases Nat.lt_or_eq_of_le (Nat.le_of_lt_succ hc) with hlt | rfl
    · exact .inl hlt
    · exact .inr rfl
  · cases h
    exact .idle nofun rfl nofun nofun fun _ h => h
  · cases h
    exact .idle nofun rfl nofun nofun fun _ h => h
  · cases h
    exact .closes nofun rfl nofun nofun fun _ h => (Option.some.inj h).symm
  · cases h
    exact .idle nofun rfl nofun nofun nofun
  · cases h
    exact .idle nofun rfl nofun nofun nofun
  · split at h
    · cases h
      exact .idle nofun rfl nofun nofun nofun
    · exact nomatch h
  · -- the dialer ends
    simp only at h
    split at h
    · cases h
      exact ⟨rfl, nofun, .inr (.inr ⟨rfl, rfl⟩), id, .inl ⟨rfl, rfl⟩, nofun, nofun, .refl _, fun _ h => .inl h,
        fun _ h _ => .inl h⟩
    · rename_i hopen
      cases h
      exact ⟨rfl, nofun, .inr (.inr ⟨rfl, rfl⟩), id, .inr (.inr ⟨_, rfl, rfl, hopen⟩), nofun, nofun, .refl _,
        fun _ h => .inl h, fun _ h _ => .inr (.inl (congrArg (Pc.returned ∘ some) (Option.some.inj h)))⟩
    · cases h
      exact ⟨rfl, nofun, .inr (.inr ⟨rfl, rfl⟩), id, .inl ⟨rfl, rfl⟩, nofun, nofun, .refl _, fun _ h => .inl h, nofun⟩
  · cases h
    exact .closes nofun rfl nofun nofun fun _ h => (Option.some.inj h).symm
  · -- `Close`
    split at h
    · rename_i hclosed
      cases h
      exact .idle nofun rfl (fun _ => .inr hclosed) nofun nofun
    · split at h
      · cases h
        exact ⟨rfl, nofun, .inl ⟨rfl, rfl⟩, fun _ => rfl, .inr (.inl rfl), fun _ => .inr rfl, nofun, .refl _,
          fun _ h => .inl h, nofun⟩
      · cases h
        exact ⟨rfl, nofun, .inl ⟨rfl, rfl⟩, fun _ => rfl, .inr (.inl rfl), fun _ => .inr rfl, nofun, .refl _,
          fun _ h => .inl h, nofun⟩
  · cases h
    exact .closes nofun rfl (fun _ => .inl rfl) nofun nofun
  · exact nomatch h

/-! ## The invariant -/

/-- A connection was returned, or it is closed, or a call has it in hand. -/
def State.Owned (s : State) (c : Nat) : Prop :=
  (∃ th ∈ s.threads, th.pc = .returned (some c)) ∨ IsClosed s.conns c ∨ ∃ th ∈ s.threads, th.pc.holds = some c

structure Inv (s : State) : Prop where
  dialing : ∀ (t : Nat) (th : Thread) ch, s.threads[t]? = some th → th.pc.dialer = some ch → s.dialing = some ch
  one : ∀ (t t' : Nat) (th th' : Thread), s.threads[t]? = some th → s.threads[t']? = some th' →
    th.pc.dialer.isSome → th'.pc.dialer.isSome → t = t'
  closed : s.closed → s.conn = none
  closing : ∀ th ∈ s.threads, th.pc.closing → s.closed
  late : ∀ th ∈ s.threads, th.late → s.closed ∧ (th.pc = .check ∨ th.pc = .returned none)
  stored : ∀ c, s.conn = some c → ∃ th ∈ s.threads, th.pc = .returned (some c)
  owned : ∀ c, c < s.conns.length → s.Owned c

theorem inv_init : Inv {} where
  dialing _ _ _ h := nomatch h
  one _ _ _ _ h := nomatch h
  closed _ := rfl
  closing _ h := nomatch h
  late _ h := nomatch h
  stored _ h := nomatch h
  owned _ h := nomatch h

theorem Inv.call (h : Inv s) {late : Bool} (hdialer : pc.dialer = none) (hclosing : pc.closing = false)
    (hlate : late → pc = .check ∧ ∃ th ∈ s.threads, th.pc = .closed) :
    Inv { s with threads := s.threads ++ [⟨pc, late⟩] } := by
  have hold {P : Thread → Prop} : (∃ th ∈ s.threads, P th) → ∃ th ∈ s.threads ++ [⟨pc, late⟩], P th :=
    fun ⟨th, hth, hP⟩ => ⟨th, mem_append_left _ hth, hP⟩
  refine ⟨fun t th ch ht hch => ?_, fun t t' th th' ht ht' hd hd' => ?_, h.closed, fun th hth hc => ?_,
    fun th hth hl => ?_, fun c hc => hold (h.stored c hc), fun c hc => ?_⟩
  · rcases getElem?_concat_cases ht with ht | ⟨-, rfl⟩
    · exact h.dialing t th ch ht hch
    · exact nomatch hdialer.symm.trans hch
  · rcases getElem?_concat_cases ht with ht | ⟨-, rfl⟩
    · rcases getElem?_concat_cases ht' with ht' | ⟨-, rfl⟩
      · exact h.one t t' th th' ht ht' hd hd'
      · rw [hdialer] at hd'
        exact nomatch hd'
    · rw [hdialer] at hd
      exact nomatch hd
  · rcases mem_append.1 hth with hth | hth
    · exact h.closing th hth hc
    · obtain rfl := mem_singleton.1 hth
      exact nomatch hclosing.symm.trans hc
  · rcases mem_append.1 hth with hth | hth
    · exact h.late th hth hl
    · obtain rfl := mem_singleton.1 hth
      obtain ⟨hpc, th, hth, hclosed⟩ := hlate hl
      exact ⟨h.closing th hth (by rw [hclosed]; rfl), .inl hpc⟩
  · rcases h.owned c hc with hr | hcl | hh
    · exact .inl (hold hr)
    · exact .inr (.inl hcl)
    · exact .inr (.inr (hold hh))

theorem Inv.die (h : Inv s) (hl : s.conns[c]? = some l) :
    Inv { s with conns := s.conns.set c { l with dead := true } } := by
  have hkept : Kept s.conns (s.conns.set c { l with dead := true }) := .set fun l' hl' => by
    obtain rfl := mem_unique hl hl'
    exact id
  refine ⟨h.dialing, h.one, h.closed, h.closing, h.late, h.stored, fun c' hc' => ?_⟩
  rcases h.owned c' (by simpa using hc') with hr | ⟨l', hl', hcl⟩ | hh
  · exact .inl hr
  · obtain ⟨l'', hl'', himp⟩ := hkept c' l' hl'
    exact .inr (.inl ⟨l'', hl'', himp hcl⟩)
  · exact .inr (.inr hh)

theorem Inv.advance (h : Inv s) (ht : s.threads[t]? = some th)
    (ha : Advances s th.pc s' pc') : Inv { s' with threads := s.threads.set t { th with pc := pc' } } := by
  have hmem : th ∈ s.threads := mem_of_getElem? ht
  have hnew : { th with pc := pc' } ∈ s.threads.set t { th with pc := pc' } :=
    mem_set (getElem?_lt ht) _
  -- what others have, they keep; what this call had, it has given on
  have hkeep {P : Thread → Prop} (hP : ∃ th ∈ s.threads, P th) (hth : P th → P { th with pc := pc' }) :
      ∃ th' ∈ s.threads.set t { th with pc := pc' }, P th' := by
    obtain ⟨th', hth', hP⟩ := hP
    obtain ⟨t', ht'⟩ := mem_iff_getElem?.1 hth'
    by_cases heq : t = t'
    · subst heq
      obtain rfl := mem_unique ht ht'
      exact ⟨_, hnew, hth hP⟩
    · exact ⟨th', mem_of_getElem? (by rw [getElem?_set_ne heq, ht']), hP⟩
  have hreturned {c : Nat} : (∃ th ∈ s.threads, th.pc = .returned (some c)) →
      ∃ th' ∈ s.threads.set t { th with pc := pc' }, th'.pc = .returned (some c) := fun hr =>
    hkeep hr fun hpc => absurd hpc (ha.unfinished _)
  refine ⟨fun t₁ th₁ ch h₁ hch => ?_, fun t₁ t₂ th₁ th₂ h₁ h₂ hd₁ hd₂ => ?_, fun hclosed => ?_, fun th₁ hth₁ hcl => ?_,
    fun th₁ hth₁ hl => ?_, fun c hc => ?_, fun c hc => ?_⟩
  · rcases getElem?_set_cases h₁ with ⟨rfl, rfl⟩ | ⟨hne, h₁⟩
    · rcases ha.dialing with ⟨hd, hpc⟩ | ⟨-, -, hd⟩ | ⟨-, hpc⟩
      · exact hd.trans (h.dialing t₁ th ch ht (hpc ▸ hch))
      · exact hd.trans hch
      · exact nomatch hpc.symm.trans hch
    · have hdialing := h.dialing t₁ th₁ ch h₁ hch
      rcases ha.dialing with ⟨hd, -⟩ | ⟨hnone, -, -⟩ | ⟨hpc, -⟩
      · exact hd.trans hdialing
      · exact nomatch hnone.symm.trans hdialing
      · exact absurd (h.one t₁ t th₁ th h₁ ht (by rw [hch]; rfl) hpc) hne
  · -- a new dialer begins when there is no other
    have hother (t' : Nat) (th' : Thread) (hne : t' ≠ t) (h' : s.threads[t']? = some th') (hd' : th'.pc.dialer.isSome)
        (hd : pc'.dialer.isSome) : False := by
      rcases ha.dialing with ⟨-, hpc⟩ | ⟨hnone, -, -⟩ | ⟨-, hpc⟩
      · exact hne (h.one t' t th' th h' ht hd' (hpc ▸ hd))
      · obtain ⟨ch, hch⟩ := isSome_iff_exists.1 hd'
        exact nomatch hnone.symm.trans (h.dialing t' th' ch h' hch)
      · rw [hpc] at hd
        exact nomatch hd
    rcases getElem?_set_cases h₁ with ⟨rfl, rfl⟩ | ⟨hne₁, hold₁⟩
    · rcases getElem?_set_cases h₂ with ⟨rfl, rfl⟩ | ⟨hne₂, hold₂⟩
      · rfl
      · exact (hother t₂ th₂ hne₂ hold₂ hd₂ hd₁).elim
    · rcases getElem?_set_cases h₂ with ⟨rfl, rfl⟩ | ⟨hne₂, hold₂⟩
      · exact (hother t₁ th₁ hne₁ hold₁ hd₁ hd₂).elim
      · exact h.one t₁ t₂ th₁ th₂ hold₁ hold₂ hd₁ hd₂
  · rcases ha.conn with ⟨hconn, hcl⟩ | hconn | ⟨c, -, -, hopen⟩
    · exact hconn.trans (h.closed (hcl ▸ hclosed))
    · exact hconn
    · exact nomatch hopen.symm.trans hclosed
  · rcases mem_or_eq_of_mem_set hth₁ with hth₁ | rfl
    · exact ha.closed (h.closing th₁ hth₁ hcl)
    · rcases ha.closing hcl with hold | hnow
      · exact ha.closed (h.closing th hmem hold)
      · exact hnow
  · rcases mem_or_eq_of_mem_set hth₁ with hth₁ | rfl
    · obtain ⟨hclosed, hpc⟩ := h.late th₁ hth₁ hl
      exact ⟨ha.closed hclosed, hpc⟩
    · obtain ⟨hclosed, hpc⟩ := h.late th hmem hl
      refine ⟨ha.closed hclosed, .inr ?_⟩
      rcases hpc with hpc | hpc
      · exact ha.fails hclosed hpc
      · exact absurd hpc (ha.unfinished _)
  · rcases ha.conn with ⟨hconn, -⟩ | hconn | ⟨c', hconn, hpc, -⟩
    · exact hreturned (h.stored c (hconn ▸ hc))
    · exact nomatch hconn.symm.trans hc
    · obtain rfl := mem_unique hconn hc
      exact ⟨_, hnew, hpc⟩
  · rcases ha.new c hc with hlt | hholds
    · rcases h.owned c hlt with hr | ⟨l, hl, hcl⟩ | ⟨th₁, hth₁, hh⟩
      · exact .inl (hreturned hr)
      · obtain ⟨l', hl', himp⟩ := ha.kept c l hl
        exact .inr (.inl ⟨l', hl', himp hcl⟩)
      · by_cases hmine : th.pc.holds = some c
        · rcases ha.holds c hmine hlt with hh' | hr | hcl
          · exact .inr (.inr ⟨_, hnew, hh'⟩)
          · exact .inl ⟨_, hnew, hr⟩
          · exact .inr (.inl hcl)
        · exact .inr (.inr (hkeep ⟨th₁, hth₁, hh⟩ fun hc => absurd hc hmine))
    · exact .inr (.inr ⟨_, hnew, hholds⟩)

theorem step_inv (h : Inv s) (hs : step s l = some s') : Inv s' := by
  cases l with
  | callConn =>
    cases hs
    refine h.call rfl rfl fun hlate => ⟨rfl, ?_⟩
    obtain ⟨th, hth, hpc⟩ := List.any_eq_true.1 hlate
    exact ⟨th, hth, of_decide_eq_true hpc⟩
  | callClose =>
    cases hs
    exact h.call rfl rfl nofun
  | thread t e =>
    obtain ⟨th, hth, hs⟩ := bind_eq_some_iff.1 hs
    obtain ⟨⟨s₁, pc'⟩, ha, hs⟩ := bind_eq_some_iff.1 hs
    cases hs
    exact h.advance hth (advance_advances ha)
  | die c =>
    obtain ⟨l, hl, hs⟩ := bind_eq_some_iff.1 hs
    cases hs
    exact h.die hl

/-- **The life of a session.**  At most one dial sequence is in progress; a call of `Conn` that began after a `Close` had
returned has not returned a connection, and then none is stored; and every connection that `Dial` established was
returned, is stored, is closed, or is in the hands of a call. -/
theorem session_lifecycle (ls : List Label) (s : State) (h : run step {} ls = some s) :
    (∀ (t t' : Nat) (th th' : Thread), s.threads[t]? = some th → s.threads[t']? = some th' → th.pc.dialer.isSome → th'.pc.dialer.isSome →
      t = t') ∧
    (∀ th ∈ s.threads, th.late → ∀ c, th.pc ≠ .returned (some c)) ∧
    ((∃ th ∈ s.threads, th.pc = .closed) → s.conn = none) ∧
    (∀ c, c < s.conns.length → s.conn = some c ∨ s.Owned c) ∧
    ((∀ th ∈ s.threads, th.pc.finished) → ∀ c, c < s.conns.length →
      (∃ th ∈ s.threads, th.pc = .returned (some c)) ∨ s.conn = some c ∨ IsClosed s.conns c) := by
  have hinv : Inv s := run_inv (fun hi hs => step_inv hi hs) inv_init h
  refine ⟨hinv.one, fun th hth hl c hpc => ?_, fun ⟨th, hth, hpc⟩ => ?_, fun c hc => .inr (hinv.owned c hc),
    fun hdone c hc => ?_⟩
  · rcases (hinv.late th hth hl).2 with hcheck | hnone
    · exact nomatch hcheck.symm.trans hpc
    · exact nomatch hnone.symm.trans hpc
  · exact hinv.closed (hinv.closing th hth (by rw [hpc]; rfl))
  · rcases hinv.owned c hc with hr | hcl | ⟨th, hth, hh⟩
    · exact .inl hr
    · exact .inr (.inr hcl)
    · exact nomatch (Pc.holds_of_finished (hdone th hth)).symm.trans hh

/-- A session is closed while a call dials: the new connection is closed, and a later call fails. -/
def closedWhileDialing : List Label :=
  [.callConn, .thread 0 .go, .callClose, .thread 1 .go, .thread 0 .dialed, .thread 0 .go, .thread 0 .go, .thread 0 .go,
    .callConn, .thread 2 .go]

theorem session_lifecycle_late : ∃ s, run step {} closedWhileDialing = some s ∧ IsClosed s.conns 0 ∧
    ∀ th ∈ s.threads, th.late → ∀ c, th.pc ≠ .returned (some c) := by
  have hrun : (run step {} closedWhileDialing).isSome := by decide
  obtain ⟨s, hs⟩ := isSome_iff_exists.1 hrun
  have hlife := session_lifecycle closedWhileDialing s hs
  have hconn : (run step {} closedWhileDialing).map (·.conns) = some [⟨true, true⟩] := by decide
  rw [hs] at hconn
  refine ⟨s, hs, ⟨⟨true, true⟩, ?_, rfl⟩, hlife.2.1⟩
  have hlink : s.conns = [⟨true, true⟩] := Option.some.inj hconn
  rw [hlink]
  rfl

end NineP.Client.SessionManager
