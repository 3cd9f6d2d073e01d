import Mathlib.Data.Fintype.Defs
import NineP.Lib.Mutex
import NineP.Server.Conn

/-!
# The pool of workers

The `handleRequest` goroutines of a connection once more, now by single operations: every `Add` and `Load` of
`recvIdle` and `workerCount`, every lock and unlock of `recvMu` and every access to `recvShutdown` is a step of its own.
What a worker does for a request, with no lock held, is one long step.
-/

namespace NineP.Server.Workers

open Transition Mutex Conn List Option

-- no search through all tags
attribute [-instance] Fintype.decidableForallFintype

def int32 (n : Int) : Int := n.bmod (2 ^ 32)

theorem int32_eq (h0 : 0 ≤ n) (h : n < 2 ^ 31) : int32 n = n :=
  Int.bmod_eq_of_le (by omega) (by omega)

/-! ## The state -/

/-- Where a worker is: what it does next. -/
inductive Pc
  | top  -- `recvIdle.Add(1)`
  | parked  -- `recvMu.Lock()`
  | acquired  -- `recvIdle.Add(-1)`
  | checking  -- the test of `recvShutdown`
  | reading  -- the read of a frame
  | loadIdle (kind : Kind)  -- `recvIdle.Load()`
  | loadCount (kind : Kind)  -- `workerCount.Load()`
  | addCount (kind : Kind)  -- `workerCount.Add(1)`
  | decoded (kind : Kind) (spawn : Bool)  -- the end of `readFrameLocked`, and `go c.handleRequest(ctx)`
  | unlocking (kind : Kind)  -- `recvMu.Unlock()`
  | version  -- `handleReVersion` and `recvMu.Unlock()`
  | failing  -- `shutdownRecvLocked`
  | failed  -- its `recvMu.Unlock()`
  | got (kind : Kind)
  | flushing  -- in `handleFlush`
  | handling  -- in `dispatchInline`
  | shutting  -- `shutdownRecv`
  | shutLocked
  | shutDone  -- its `recvMu.Unlock()`
  | returning  -- the deferred `workerCount.Add(-1)`
  | gone
  deriving DecidableEq

/-- The counters stay far inside their `int32`: they count workers, of which there are at most `maxInflight`. -/
structure Shared where
  recvMu : Option Nat
  recvShutdown : Bool
  recvIdle : Int
  workerCount : Int
  deriving DecidableEq

structure State where
  shared : Shared
  workers : List Pc
  deriving DecidableEq

/-- What the environment decides for a worker's step. -/
inductive Choice
  | go
  | frame (kind : Kind)
  | fail  -- the read fails, or the frame is larger than `msize`
  | duplicate  -- the tag is in flight
  deriving DecidableEq

/-! ## Steps -/

/-- One step of worker `w`: where it is then, the shared state, and the workers it starts. -/
def move (maxInflight : Int) (c : Shared) (w : Nat) : Pc → Choice → Option (Pc × Shared × List Pc)
  | .top, .go => some (.parked, { c with recvIdle := c.recvIdle + 1 }, [])
  | .parked, .go => if c.recvMu.isSome then none else some (.acquired, { c with recvMu := some w }, [])
  | .acquired, .go => some (.checking, { c with recvIdle := c.recvIdle - 1 }, [])
  | .checking, .go => if c.recvShutdown then some (.returning, { c with recvMu := none }, []) else some (.reading, c, [])
  | .reading, .fail => some (.failing, c, [])
  | .reading, .frame kind => some (if kind = .version then .decoded kind false else .loadIdle kind, c, [])
  | .loadIdle kind, .go => some (if c.recvIdle = 0 then .loadCount kind else .decoded kind false, c, [])
  | .loadCount kind, .go =>
    some (if c.workerCount < int32 maxInflight then .addCount kind else .decoded kind false, c, [])
  | .addCount kind, .go => some (.decoded kind true, { c with workerCount := c.workerCount + 1 }, [])
  | .decoded kind spawn, .go =>
    some (if kind = .version then .version else .unlocking kind, c, if spawn then [.top] else [])
  | .unlocking kind, .go => some (.got kind, { c with recvMu := none }, [])
  | .version, .go => some (.top, { c with recvMu := none }, [])
  | .failing, .go => some (.failed, { c with recvShutdown := true }, [])
  | .failed, .go => some (.returning, { c with recvMu := none }, [])
  | .got .unknown, .go => some (.top, c, [])
  | .got .undecodable, .go => some (.shutting, c, [])
  | .got (.flush _), .go => some (.flushing, c, [])
  | .got .other, .go => some (.handling, c, [])
  | .got .other, .duplicate => some (.shutting, c, [])
  | .flushing, .go | .handling, .go => some (.top, c, [])
  | .shutting, .go => if c.recvMu.isSome then none else some (.shutLocked, { c with recvMu := some w }, [])
  | .shutLocked, .go => some (.shutDone, { c with recvShutdown := true }, [])
  | .shutDone, .go => some (.returning, { c with recvMu := none }, [])
  | .returning, .go => some (.gone, { c with workerCount := c.workerCount - 1 }, [])
  | _, _ => none

def step (maxInflight : Int) (s : State) : Nat × Choice → Option State
  | (w, choice) => (s.workers[w]?).bind fun pc => (move maxInflight s.shared w pc choice).map fun (pc, shared, spawned) =>
      { shared, workers := s.workers.set w pc ++ spawned }

/-- `serve` starts the first worker. -/
def init : State where
  shared := { recvMu := none, recvShutdown := false, recvIdle := 0, workerCount := 1 }
  workers := [.top]

/-! ## What the points have in common -/

namespace Pc

/-- `recvMu` is held. -/
def Holds : Pc → Prop
  | .acquired | .checking | .reading | .loadIdle _ | .loadCount _ | .addCount _ | .decoded _ _ | .unlocking _ | .version
  | .failing | .failed | .shutLocked | .shutDone => True
  | _ => False

/-- Counted in `recvIdle`. -/
def idle : Pc → Bool
  | .parked | .acquired => true
  | _ => false

/-- The goroutine exists. -/
def live : Pc → Bool
  | .gone => false
  | _ => true

/-- The worker has counted one that it is about to start. -/
def starts : Pc → Bool
  | .decoded _ true => true
  | _ => false

/-- `recvShutdown` was true when the worker came here. -/
def down : Pc → Bool
  | .failed | .shutDone | .returning | .gone => true
  | _ => false

/-- The worker holds `recvMu`, waits for it, or will come to it without calling a handler. -/
def near : Pc → Bool
  | .got (.flush _) | .got .other | .flushing | .handling | .returning | .gone => false
  | _ => true

/-- The worker has a request and is outside the receive path. -/
def handles : Pc → Bool
  | .got (.flush _) | .got .other | .flushing | .handling => true
  | _ => false

instance : DecidablePred Holds := fun pc => by
  cases pc <;> first | exact .isTrue trivial | exact .isFalse id

end Pc

/-! ## The steps of a worker, one by one -/

/-- `move` as a relation: one case for every branch. -/
inductive Moves (maxInflight : Int) (c : Shared) (w : Nat) : Pc → Pc → Shared → List Pc → Prop
  | park : Moves maxInflight c w .top .parked { c with recvIdle := c.recvIdle + 1 } []
  | lock (hmu : c.recvMu = none) : Moves maxInflight c w .parked .acquired { c with recvMu := some w } []
  | unpark : Moves maxInflight c w .acquired .checking { c with recvIdle := c.recvIdle - 1 } []
  | exit (hdown : c.recvShutdown = true) : Moves maxInflight c w .checking .returning { c with recvMu := none } []
  | check : Moves maxInflight c w .checking .reading c []
  | readFail : Moves maxInflight c w .reading .failing c []
  | readVersion : Moves maxInflight c w .reading (.decoded .version false) c []
  | read (kind : Kind) : Moves maxInflight c w .reading (.loadIdle kind) c []
  | nobody {kind : Kind} : Moves maxInflight c w (.loadIdle kind) (.loadCount kind) c []
  | somebody {kind : Kind} (hidle : c.recvIdle ≠ 0) : Moves maxInflight c w (.loadIdle kind) (.decoded kind false) c []
  | room {kind : Kind} (hcount : c.workerCount < int32 maxInflight) :
      Moves maxInflight c w (.loadCount kind) (.addCount kind) c []
  | full {kind : Kind} (hcount : ¬c.workerCount < int32 maxInflight) :
      Moves maxInflight c w (.loadCount kind) (.decoded kind false) c []
  | add {kind : Kind} : Moves maxInflight c w (.addCount kind) (.decoded kind true)
      { c with workerCount := c.workerCount + 1 } []
  | versionStart {spawn : Bool} : Moves maxInflight c w (.decoded .version spawn) .version c (if spawn then [.top] else [])
  | spawn {kind : Kind} : Moves maxInflight c w (.decoded kind true) (.unlocking kind) c [.top]
  | keep {kind : Kind} (hkind : kind ≠ .version) : Moves maxInflight c w (.decoded kind false) (.unlocking kind) c []
  | unlock {kind : Kind} : Moves maxInflight c w (.unlocking kind) (.got kind) { c with recvMu := none } []
  | versionEnd : Moves maxInflight c w .version .top { c with recvMu := none } []
  | failSet : Moves maxInflight c w .failing .failed { c with recvShutdown := true } []
  | failUnlock : Moves maxInflight c w .failed .returning { c with recvMu := none } []
  | unknown : Moves maxInflight c w (.got .unknown) .top c []
  | undecodable : Moves maxInflight c w (.got .undecodable) .shutting c []
  | flush {oldTag : Proto.Tag} : Moves maxInflight c w (.got (.flush oldTag)) .flushing c []
  | handle : Moves maxInflight c w (.got .other) .handling c []
  | duplicate : Moves maxInflight c w (.got .other) .shutting c []
  | flushed : Moves maxInflight c w .flushing .top c []
  | handled : Moves maxInflight c w .handling .top c []
  | shutLock (hmu : c.recvMu = none) : Moves maxInflight c w .shutting .shutLocked { c with recvMu := some w } []
  | shutSet : Moves maxInflight c w .shutLocked .shutDone { c with recvShutdown := true } []
  | shutUnlock : Moves maxInflight c w .shutDone .returning { c with recvMu := none } []
  | leave : Moves maxInflight c w .returning .gone { c with workerCount := c.workerCount - 1 } []

section Moves

variable {maxInflight : Int} {c c' : Shared} {w : Nat} {pc pc' : Pc} {choice : Choice} {spawned : List Pc}

/-- **Inversion**: what a step of a worker can be. -/
theorem move_moves (h : move maxInflight c w pc choice = some (pc', c', spawned)) :
    Moves maxInflight c w pc pc' c' spawned := by
  unfold move at h
  split at h
  -- the steps with one outcome
  all_goals try (
    simp only [Option.some.injEq, Prod.mk.injEq] at h
    obtain ⟨rfl, rfl, rfl⟩ := h
    constructor)
  · simp only [ite_none_left_eq_some, Option.some.injEq, Prod.mk.injEq] at h
    obtain ⟨hmu, rfl, rfl, rfl⟩ := h
    exact .lock (by simpa using hmu)
  · split at h <;> obtain ⟨rfl, rfl, rfl⟩ : _ ∧ _ ∧ _ := by simpa using h
    · exact .exit ‹_›
    · exact .check
  · obtain ⟨rfl, rfl, rfl⟩ : _ ∧ _ ∧ _ := by simpa using h
    split
    · subst_vars
      exact .readVersion
    · exact .read _
  · obtain ⟨rfl, rfl, rfl⟩ : _ ∧ _ ∧ _ := by simpa using h
    split
    · exact .nobody
    · exact .somebody ‹_›
  · obtain ⟨rfl, rfl, rfl⟩ : _ ∧ _ ∧ _ := by simpa using h
    split
    · exact .room ‹_›
    · exact .full ‹_›
  · rename_i kind spawn
    obtain ⟨rfl, rfl, rfl⟩ : _ ∧ _ ∧ _ := by simpa using h
    split
    · subst_vars
      exact .versionStart
    · cases spawn
      · exact .keep ‹_›
      · exact .spawn
  · simp only [ite_none_left_eq_some, Option.some.injEq, Prod.mk.injEq] at h
    obtain ⟨hmu, rfl, rfl, rfl⟩ := h
    exact .shutLock (by simpa using hmu)
  · cases h

section

variable (h : Moves maxInflight c w pc pc' c' spawned)
include h

theorem Moves.spawned_cases : spawned = [] ∨ spawned = [.top] := by
  cases h with
  | @versionStart spawn => cases spawn <;> simp
  | _ => simp

/-- A worker goes away from `recvMu` only after it has unlocked it, or to end. -/
theorem Moves.near (hpc : pc.near = true) : pc'.near = true ∨ pc'.down = true ∨ ∃ kind, pc = .unlocking kind := by
  cases h with
  | unlock => exact .inr (.inr ⟨_, rfl⟩)
  | exit | failUnlock | shutUnlock => exact .inr (.inl rfl)
  | flush | handle | flushed | handled | leave => cases hpc
  | _ => exact .inl rfl

theorem Moves.shutdown (hc : c.recvShutdown = true) : c'.recvShutdown = true := by
  cases h <;> first | exact hc | rfl

theorem Moves.down (hpc : pc.down = true → c.recvShutdown = true) (hpc' : pc'.down = true) :
    c'.recvShutdown = true := by
  cases h with
  | exit hdown => exact hdown
  | failUnlock | shutUnlock | leave => exact hpc rfl
  | failSet | shutSet => rfl
  | _ => cases hpc'

theorem Moves.idle : c'.recvIdle + pc.idle.toNat = c.recvIdle + pc'.idle.toNat := by
  cases h <;> simp [Pc.idle]

/-- `workerCount` counts the workers and the one that is about to be started. -/
theorem Moves.count :
    c'.workerCount + pc.live.toNat + pc.starts.toNat =
      c.workerCount + pc'.live.toNat + pc'.starts.toNat + spawned.length := by
  cases h with
  | @versionStart spawn => cases spawn <;> simp [Pc.live, Pc.starts]
  | _ => simp [Pc.live, Pc.starts]

end

end Moves

/-! ## The invariant -/

/-- Before the shutdown there are `n` workers near `recvMu`, or the pool is full. -/
def Covered (maxInflight : Int) (c : Shared) (workers : List Pc) (n : Nat) : Prop :=
  c.recvShutdown = false → n ≤ workers.countP Pc.near ∨ int32 maxInflight ≤ workers.countP Pc.live

/-- What the holder of `recvMu` knows: there is room for a worker, or it may go away. -/
def Knows (maxInflight : Int) (c : Shared) (workers : List Pc) : Pc → Prop
  | .addCount _ => c.workerCount < int32 maxInflight
  | .decoded kind false => kind ≠ .version → Covered maxInflight c workers 2
  | .unlocking _ => Covered maxInflight c workers 2
  | _ => True

structure PoolInv (maxInflight : Int) (s : State) : Prop where
  guards : Guards Pc.Holds True (Knows maxInflight s.shared s.workers) s.workers s.shared.recvMu
  idle : s.shared.recvIdle = s.workers.countP Pc.idle
  count : s.shared.workerCount = s.workers.countP Pc.live + s.workers.countP Pc.starts
  bound : s.shared.workerCount ≤ max 1 (int32 maxInflight)
  down : ∀ pc ∈ s.workers, pc.down = true → s.shared.recvShutdown = true
  covered : Covered maxInflight s.shared s.workers 1

theorem init_poolInv (maxInflight : Int) : PoolInv maxInflight init where
  guards := by
    have h : Guards Pc.Holds True (Knows maxInflight init.shared init.workers) [] none := guards_nil trivial
    exact h.add id
  idle := rfl
  count := rfl
  bound := Int.le_max_left 1 _
  down := by simp [init, Pc.down]
  covered := fun _ => .inl (by decide)

section Step

variable {maxInflight : Int} {s : State} {c' : Shared} {w : Nat} {pc pc' : Pc} {workers spawned : List Pc}

theorem countP_moved (p : Pc → Bool) (hw : workers[w]? = some pc) (pc' : Pc) (spawned : List Pc) :
    (workers.set w pc' ++ spawned).countP p + (p pc).toNat = workers.countP p + (p pc').toNat + spawned.countP p := by
  have := countP_set_add p pc' hw
  rw [countP_append]
  cases hp : p pc <;> cases hp' : p pc' <;>
    simp only [hp, hp', if_true, Bool.false_eq_true, if_false, Bool.toNat_true, Bool.toNat_false] at this ⊢ <;> omega

/-- The steps of a worker that does not give up `recvMu` keep what is covered. -/
theorem Covered.keep (hw : workers[w]? = some pc) (h : Moves maxInflight c w pc pc' c' spawned)
    (hdown : pc.down = true → c.recvShutdown = true) (hpc : ∀ kind, pc ≠ .unlocking kind)
    (hc : Covered maxInflight c workers n) : Covered maxInflight c' (workers.set w pc' ++ spawned) n := by
  intro hs'
  have hs : c.recvShutdown = false := by
    refine Bool.eq_false_iff.2 fun hs => ?_
    rw [h.shutdown hs] at hs'
    cases hs'
  have hpc' : pc'.down = false := by
    refine Bool.eq_false_iff.2 fun hpc' => ?_
    rw [h.down hdown hpc'] at hs'
    cases hs'
  have hnear := countP_moved Pc.near hw pc' spawned
  have hlive := countP_moved Pc.live hw pc' spawned
  refine (hc hs).imp (fun hn => ?_) fun hl => ?_
  · by_cases hp : pc.near = true
    · rcases h.near hp with hp' | hp' | ⟨kind, rfl⟩
      · rw [hp, hp'] at hnear
        omega
      · rw [hp'] at hpc'
        cases hpc'
      · exact absurd rfl (hpc kind)
    · rw [Bool.not_eq_true] at hp
      rw [hp, Bool.toNat_false] at hnear
      omega
  · have hp' : pc'.live = true := by
      cases pc' <;> first | rfl | cases hpc'
    have := Bool.toNat_le pc.live
    rw [hp', Bool.toNat_true] at hlive
    omega

variable (hs : PoolInv maxInflight s) (hw : s.workers[w]? = some pc)
include hs hw

theorem PoolInv.covered_of_idle (hnear : pc.near = true) (hpc : pc.idle = false) (hidle : s.shared.recvIdle ≠ 0) :
    Covered maxInflight s.shared s.workers 2 := by
  refine fun _ => .inl (Nat.lt_of_not_le fun hle => ?_)
  have hpos : 0 < s.workers.countP Pc.idle := by
    have := hs.idle
    omega
  obtain ⟨x, hx, hxidle⟩ := countP_pos_iff.1 hpos
  obtain ⟨j, hj⟩ := mem_iff_getElem?.1 hx
  have hxnear : x.near = true := by
    cases x <;> first | rfl | cases hxidle
  obtain rfl := eq_of_countP_le_one hle hw hj hnear hxnear
  obtain rfl := mem_unique hw hj
  rw [hpc] at hxidle
  cases hxidle

/-- While `recvMu` is held by a worker that starts nobody, `workerCount` is the number of workers. -/
theorem PoolInv.count_eq (hholds : pc.Holds) (hpc : pc.starts = false) :
    s.shared.workerCount = s.workers.countP Pc.live := by
  have hzero : s.workers.countP Pc.starts = 0 := by
    refine countP_eq_zero.2 fun x hx hstarts => ?_
    obtain ⟨j, hj⟩ := mem_iff_getElem?.1 hx
    have hxholds : x.Holds := by
      cases x <;> trivial
    have hmu := (hs.guards.holds j x hj).1 hxholds
    obtain rfl := Option.some.inj (((hs.guards.holds w pc hw).1 hholds).symm.trans hmu)
    obtain rfl := mem_unique hw hj
    rw [hpc] at hstarts
    cases hstarts
  have := hs.count
  omega

variable (h : Moves maxInflight s.shared w pc pc' c' spawned)
include h

theorem PoolInv.covered_keep (hpc : ∀ kind, pc ≠ .unlocking kind)
    (hc : Covered maxInflight s.shared s.workers n) : Covered maxInflight c' (s.workers.set w pc' ++ spawned) n :=
  hc.keep hw h (hs.down pc (mem_of_getElem? hw)) hpc

theorem PoolInv.knows_keep (hpc : ∀ kind, pc ≠ .unlocking kind) (hcount : c'.workerCount ≤ s.shared.workerCount)
    (q : Pc) (hq : Knows maxInflight s.shared s.workers q) : Knows maxInflight c' (s.workers.set w pc' ++ spawned) q := by
  cases q with
  | addCount => exact Int.lt_of_le_of_lt hcount hq
  | decoded kind spawn =>
    cases spawn
    · exact fun hkind => hs.covered_keep hw h hpc (hq hkind)
    · trivial
  | unlocking => exact hs.covered_keep hw h hpc hq
  | _ => trivial

theorem PoolInv.use : Use Pc.Holds True True (Knows maxInflight s.shared s.workers)
    (Knows maxInflight c' (s.workers.set w pc' ++ spawned)) s.shared.recvMu c'.recvMu w pc pc' := by
  have hknows := hs.knows_keep hw h
  have hkeep := fun hpc n => hs.covered_keep hw h hpc (n := n)
  cases h with
  | park | unknown | undecodable | flush | handle | duplicate | flushed | handled =>
    exact .other id id rfl id (hknows (by simp) (Int.le_refl _))
  | leave => exact .other id id rfl id (hknows (by simp) (Int.sub_le_self _ (by decide)))
  | lock hmu | shutLock hmu => exact .take id trivial hmu rfl trivial
  | exit | unlock | versionEnd | failUnlock | shutUnlock => exact .drop trivial id rfl trivial
  | somebody hidle =>
    exact .keep trivial trivial rfl fun _ => hkeep (by simp) 2 (hs.covered_of_idle hw rfl rfl hidle)
  | full hcount =>
    refine .keep trivial trivial rfl fun _ => hkeep (by simp) 2 fun _ => .inr ?_
    rw [← hs.count_eq hw trivial rfl]
    exact Int.not_lt.1 hcount
  | room hcount => exact .keep trivial trivial rfl hcount
  | readVersion => exact .keep trivial trivial rfl fun hkind => absurd rfl hkind
  | @spawn kind =>
    -- the worker itself and the one that it starts
    have hnear := countP_moved Pc.near hw (.unlocking kind) [.top]
    have hpos := countP_pos_iff.2 ⟨_, mem_of_getElem? hw, (rfl : (Pc.decoded kind true).near = true)⟩
    refine .keep trivial trivial rfl fun _ => .inl ?_
    simp only [Pc.near, Bool.toNat_true, countP_singleton, if_true] at hnear
    omega
  | keep hkind =>
    exact .keep trivial trivial rfl (hkeep (by simp) 2 (hs.guards.mine hw trivial hkind))
  | _ => exact .keep trivial trivial rfl trivial

theorem PoolInv.move_guards : Guards Pc.Holds True (Knows maxInflight c' (s.workers.set w pc' ++ spawned))
    (s.workers.set w pc' ++ spawned) c'.recvMu := by
  have hset := hs.guards.set hw (hs.use hw h)
  rcases h.spawned_cases with rfl | rfl
  · rw [append_nil] at hset ⊢
    exact hset
  · exact hset.add id

theorem PoolInv.move_bound : c'.workerCount ≤ max 1 (int32 maxInflight) := by
  have hbound := hs.bound
  cases h with
  | add =>
    have : s.shared.workerCount < int32 maxInflight := hs.guards.mine hw trivial
    simp only
    omega
  | leave =>
    simp only
    omega
  | _ => exact hbound

theorem PoolInv.move_covered : Covered maxInflight c' (s.workers.set w pc' ++ spawned) 1 := by
  by_cases hpc : ∃ kind, pc = .unlocking kind
  · obtain ⟨kind, rfl⟩ := hpc
    cases h with
    | unlock =>
      have hnear := countP_moved Pc.near hw (.got kind) []
      have hlive := countP_moved Pc.live hw (.got kind) []
      intro hdown
      refine (hs.guards.mine hw trivial hdown).imp (fun hn => ?_) fun hl => ?_
      · have := Bool.toNat_le (Pc.unlocking kind).near
        omega
      · simp only [Pc.live, Bool.toNat_true, countP_nil] at hlive
        omega
  · exact hs.covered_keep hw h (fun kind hk => hpc ⟨kind, hk⟩) hs.covered

theorem move_poolInv : PoolInv maxInflight ⟨c', s.workers.set w pc' ++ spawned⟩ where
  guards := hs.move_guards hw h
  idle := by
    have hcount := countP_moved Pc.idle hw pc' spawned
    have hidle := h.idle
    have hold := hs.idle
    have hspawned : spawned.countP Pc.idle = 0 := by rcases h.spawned_cases with rfl | rfl <;> rfl
    simp only
    omega
  count := by
    have hlive := countP_moved Pc.live hw pc' spawned
    have hstarts := countP_moved Pc.starts hw pc' spawned
    have hcount := h.count
    have hold := hs.count
    have hspawned : spawned.countP Pc.live = spawned.length ∧ spawned.countP Pc.starts = 0 := by
      rcases h.spawned_cases with rfl | rfl <;> exact ⟨rfl, rfl⟩
    simp only
    omega
  bound := hs.move_bound hw h
  down := by
    intro x hx hdown
    rcases mem_append.1 hx with hx | hx
    · rcases mem_or_eq_of_mem_set hx with hx | rfl
      · exact h.shutdown (hs.down x hx hdown)
      · exact h.down (hs.down pc (mem_of_getElem? hw)) hdown
    · rcases h.spawned_cases with rfl | rfl
      · cases hx
      · rw [mem_singleton.1 hx] at hdown
        cases hdown
  covered := hs.move_covered hw h

end Step

theorem step_poolInv (hs : PoolInv maxInflight s)
    (h : step maxInflight s l = some s') : PoolInv maxInflight s' := by
  obtain ⟨w, choice⟩ := l
  obtain ⟨pc, hw, h⟩ := bind_eq_some_iff.1 h
  obtain ⟨⟨pc', c', spawned⟩, hmove, rfl⟩ := map_eq_some_iff.1 h
  exact move_poolInv hs hw (move_moves hmove)

/-! ## The pool -/

/-- There are at most `maxInflight` workers; at most one of them holds `recvMu`, and only that one reads; and before the
shutdown a worker holds `recvMu` or comes to it without calling a handler, or there are `maxInflight` workers and all of
them handle a request. -/
structure PoolOk (maxInflight : Int) (s : State) : Prop where
  size : s.workers.countP Pc.live ≤ maxInflight
  reader : ∀ (i j : Nat) (x y : Pc), s.workers[i]? = some x → s.workers[j]? = some y → x.Holds → y.Holds → i = j
  alive : s.shared.recvShutdown = false →
    (∃ pc ∈ s.workers, pc.near = true) ∨ s.workers.countP Pc.live = maxInflight ∧ ∀ pc ∈ s.workers, pc.handles = true

theorem PoolInv.poolOk (hs : PoolInv maxInflight s) (hpos : 1 ≤ maxInflight)
    (hint : maxInflight < 2 ^ 31) : PoolOk maxInflight s := by
  have hcap := int32_eq (by omega) hint
  have hcount := hs.count
  have hbound := hs.bound
  refine ⟨by omega, fun i j x y hi hj hx hy => ?_, fun hdown => ?_⟩
  · have hmu := (hs.guards.holds i x hi).1 hx
    exact Option.some.inj (hmu.symm.trans ((hs.guards.holds j y hj).1 hy))
  · by_cases hnear : ∃ pc ∈ s.workers, pc.near = true
    · exact .inl hnear
    · have hzero : s.workers.countP Pc.near = 0 := by simpa [countP_eq_zero] using hnear
      have hfull := (hs.covered hdown).resolve_left (by omega)
      refine .inr ⟨by omega, fun pc hpc => ?_⟩
      have hfar : pc.near = false := by simpa using fun hp => hnear ⟨pc, hpc, hp⟩
      have hup : pc.down = false := Bool.eq_false_iff.2 fun hd => by
        rw [hs.down pc hpc hd] at hdown
        cases hdown
      cases pc with
      | got kind => cases kind <;> first | rfl | cases hfar
      | flushing | handling => rfl
      | returning | gone => cases hup
      | _ => cases hfar

/-! ## A cap that is no `int32` -/

/-- `n` workers handle requests, and one comes to read. -/
def filled (n : Nat) : State where
  shared := { recvMu := none, recvShutdown := false, recvIdle := 0, workerCount := n + 1 }
  workers := List.replicate n .handling ++ [.top]

/-- `n + 1` workers handle requests. -/
def exhausted (n : Nat) : State where
  shared := { recvMu := none, recvShutdown := false, recvIdle := 0, workerCount := n + 1 }
  workers := List.replicate (n + 1) .handling

/-- A worker reads a request and handles it, after it has started a successor or not. -/
def serveSteps (w : Nat) (spawns : Bool) : List (Nat × Choice) :=
  [(w, .go), (w, .go), (w, .go), (w, .go), (w, .frame .other), (w, .go), (w, .go)] ++
    (if spawns then [(w, .go)] else []) ++ [(w, .go), (w, .go), (w, .go)]

theorem run_filled {n : Nat} (h : n + 1 < int32 maxInflight) :
    run (step maxInflight) (filled n) (serveSteps n true) = some (filled (n + 1)) := by
  simp [serveSteps, filled, run, step, move, h, replicate_succ']

theorem run_exhausted {n : Nat} (h : ¬(n : Int) + 1 < int32 maxInflight) :
    run (step maxInflight) (filled n) (serveSteps n false) = some (exhausted n) := by
  simp [serveSteps, filled, exhausted, run, step, move, h, replicate_succ']

theorem exists_filled {n : Nat} (h : n < max 1 (int32 maxInflight)) :
    ∃ ls, run (step maxInflight) init ls = some (filled n) := by
  induction n with
  | zero => exact ⟨[], rfl⟩
  | succ n ih =>
    obtain ⟨ls, hls⟩ := ih (by omega)
    exact ⟨ls ++ serveSteps n true, run_append.2 ⟨_, hls, run_filled (by omega)⟩⟩

theorem exists_exhausted (maxInflight : Int) :
    ∃ (ls : List (Nat × Choice)) (n : Nat), n + 1 = max 1 (int32 maxInflight) ∧
      run (step maxInflight) init ls = some (exhausted n) := by
  obtain ⟨n, hn⟩ : ∃ n : Nat, n + 1 = max 1 (int32 maxInflight) :=
    ⟨(max 1 (int32 maxInflight) - 1).toNat, by omega⟩
  have hlt : n < max 1 (int32 maxInflight) := by omega
  obtain ⟨ls, hls⟩ := exists_filled hlt
  exact ⟨ls ++ serveSteps n false, n, hn, run_append.2 ⟨_, hls, run_exhausted (by omega)⟩⟩

theorem exhausted_not_poolOk {n : Nat} (h : (n : Int) + 1 ≠ maxInflight) : ¬PoolOk maxInflight (exhausted n) := by
  intro hok
  rcases hok.alive rfl with ⟨pc, hpc, hnear⟩ | ⟨hlive, -⟩
  · rw [eq_of_mem_replicate hpc] at hnear
    cases hnear
  · exact h (by simpa [exhausted, countP_replicate, Pc.live] using hlive)

/-- **The pool of workers** is as it should be in every run, for every cap that is an `int32`, and for no other. -/
theorem pool_safe_iff (maxInflight : Int) (hpos : 1 ≤ maxInflight) :
    (∀ ls s, run (step maxInflight) init ls = some s → PoolOk maxInflight s) ↔ maxInflight < 2 ^ 31 := by
  constructor
  · intro hok
    by_contra hint
    obtain ⟨ls, n, hn, hrun⟩ := exists_exhausted maxInflight
    have hlt : int32 maxInflight < 2 ^ 31 := Int.bmod_lt (by decide)
    exact exhausted_not_poolOk (by omega) (hok ls _ hrun)
  · intro hint ls s hrun
    have hs : PoolInv maxInflight s := run_inv step_poolInv (init_poolInv maxInflight) hrun
    exact hs.poolOk hpos hint

theorem pool_safe_two :
    run (step 2) init (serveSteps 0 true ++ serveSteps 1 false) = some (exhausted 1) ∧ PoolOk 2 (exhausted 1) :=
  ⟨by decide, (pool_safe_iff 2 (by decide)).2 (by decide) (serveSteps 0 true ++ serveSteps 1 false) _ (by decide)⟩

/-- With a cap of `2 ^ 31`, the first request occupies the only worker. -/
theorem reader_lost : run (step (2 ^ 31)) init (serveSteps 0 false) = some (exhausted 0) ∧ ¬PoolOk (2 ^ 31) (exhausted 0) :=
  ⟨by decide, exhausted_not_poolOk (by decide)⟩

end NineP.Server.Workers
