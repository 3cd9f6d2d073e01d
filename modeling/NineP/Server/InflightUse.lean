import NineP.Lib.Transition
import NineP.Server.Inflight

/-!
# The in-flight map and the requests that use it

Any number of requests that call `start` and then `finish`, or `commit` and `completeCommit`; Tflushes and cancellations
at any time; and callers of `waitWithDeadline`.  The map knows a request by its context, which the pool hands out again
as soon as its request has put it back.
-/

namespace NineP.Server.InflightUse

open Proto Transition List Option

/-! ## The state -/

/-- A pooled `*requestCtx`. -/
abbrev Ptr := Nat

/-- Where a request is, after `start`. -/
inductive Pc
  | running (tag : Tag) (p : Ptr)
  | committed (tag : Tag) (p : Ptr)
  | closing (ch : Chan) (p : Ptr)  -- out of the map, and the channel is to be closed
  | putting (p : Ptr)  -- `putRequestCtx` is next
  | gone
  deriving DecidableEq

/-- The context of a request. -/
def Pc.ptr : Pc → Option Ptr
  | .running _ p | .committed _ p | .closing _ p | .putting p => some p
  | .gone => none

/-- The request is out of the map for good. -/
def Pc.completed : Pc → Bool
  | .closing _ _ | .putting _ | .gone => true
  | _ => false

/-- Where a call of `waitWithDeadline` is. -/
inductive Wait
  | waiting (ch : Chan)
  | drained  -- it has returned nil
  | expired
  deriving DecidableEq

structure Waiter where
  pc : Wait
  /-- The map was empty at some moment of the call. -/
  empty : Bool := false
  deriving DecidableEq

structure State where
  map : InflightMap Ptr
  reqs : List Pc
  waiters : List Waiter
  /-- The channels made so far: the request for whose entry a channel was made, `none` for a drain channel. -/
  chans : List (Option Nat)
  /-- The closed channels, once for every close. -/
  closed : List Chan
  /-- The contexts that are flushed. -/
  flushed : List Ptr

inductive Label
  | start (tag : Tag) (p : Ptr)
  | commit (k : Nat)
  | completeCommit (k : Nat)
  | finish (k : Nat)
  | close (k : Nat)
  | putRequestCtx (k : Nat)
  | flushWait (tag : Tag)
  | cancelAll
  | wait
  | wake (i : Nat)
  | expire (i : Nat)
  deriving DecidableEq

/-! ## Steps -/

/-- The contexts to which a step applies `flush`. -/
def State.flushes (s : State) : Label → List Ptr
  | .flushWait tag => ((s.map.get tag).bind (·.rctx)).toList
  | .cancelAll => s.map.entries.entries.filterMap (·.2.rctx)
  | _ => []

/-- Request `k` has called `remove` or `completeCommit`; a channel that it got is for it to close. -/
def State.removed (s : State) (k : Nat) (p : Ptr) : Option Chan × Option Chan × InflightMap Ptr → State
  | (done, drained, im) =>
    { s with
      map := im
      reqs := s.reqs.set k (match done with
        | some ch => .closing ch p
        | none => .putting p)
      closed := drained.toList ++ s.closed }

/-- A channel made for request `k`, if it is new. -/
def register (chans : List (Option Nat)) (ch : Chan) (k : Option Nat) : List (Option Nat) :=
  if ch = chans.length then chans ++ [k] else chans

def act (s : State) : Label → Option State
  | .start tag p =>
    -- the pool hands out no context that is in use
    if s.reqs.any (·.ptr = some p) then none
    else match s.map.start tag p with
      | none => some s
      | some (done, im) =>
        some { s with map := im, reqs := s.reqs ++ [.running tag p], closed := done.toList ++ s.closed }
  | .commit k =>
    match s.reqs[k]? with
    | some (.running tag p) => some { s with map := s.map.commit tag, reqs := s.reqs.set k (.committed tag p) }
    | _ => none
  | .completeCommit k =>
    match s.reqs[k]? with
    | some (.committed tag p) => some (s.removed k p (s.map.completeCommit tag p))
    | _ => none
  | .finish k =>
    match s.reqs[k]? with
    | some (.running tag p) => some (s.removed k p (s.map.remove tag))
    | _ => none
  | .close k =>
    match s.reqs[k]? with
    | some (.closing ch p) => some { s with reqs := s.reqs.set k (.putting p), closed := ch :: s.closed }
    | _ => none
  | .putRequestCtx k =>
    match s.reqs[k]? with
    | some (.putting p) => some { s with reqs := s.reqs.set k .gone, flushed := s.flushed.filter (· ≠ p) }
    | _ => none
  | .flushWait tag =>
    match s.map.flushWait tag s.chans.length with
    | (none, _) => some s
    | (some ch, im) =>
      let owner := ((s.map.get tag).bind (·.rctx)).bind fun p => s.reqs.findIdx? (·.ptr = some p)
      some { s with
        map := im, chans := register s.chans ch owner, flushed := s.flushes (.flushWait tag) ++ s.flushed }
  | .cancelAll => some { s with flushed := s.flushes .cancelAll ++ s.flushed }
  | .wait =>
    match s.map.drainChan s.chans.length with
    | (none, _) => some { s with waiters := s.waiters ++ [{ pc := .drained }] }
    | (some ch, im) =>
      some { s with map := im, chans := register s.chans ch none, waiters := s.waiters ++ [{ pc := .waiting ch }] }
  | .wake i =>
    match s.waiters[i]? with
    | some ⟨.waiting ch, empty⟩ =>
      if ch ∈ s.closed then some { s with waiters := s.waiters.set i ⟨.drained, empty⟩ } else none
    | _ => none
  | .expire i =>
    match s.waiters[i]? with
    | some ⟨.waiting _, empty⟩ => some { s with waiters := s.waiters.set i ⟨.expired, empty⟩ }
    | _ => none

/-- Those who wait see whether the map is empty. -/
def State.mark (s : State) : State :=
  { s with waiters := s.waiters.map fun w => { w with empty := w.empty || s.map.entries.keys.isEmpty } }

def step (s : State) (l : Label) : Option State := (act s l).map State.mark

def init : State where
  map := .empty
  reqs := []
  waiters := []
  chans := []
  closed := []
  flushed := []

/-- What a step can do. -/
inductive Acts (s : State) : State → Prop
  | stutter : Acts s s
  | start {tag : Tag} {p : Ptr} {done : Option Chan} {im : InflightMap Ptr} (hfresh : ∀ pc ∈ s.reqs, pc.ptr ≠ some p)
      (hstart : s.map.start tag p = some (done, im)) :
      Acts s { s with map := im, reqs := s.reqs ++ [.running tag p], closed := done.toList ++ s.closed }
  | commit {k : Nat} {tag : Tag} {p : Ptr} (hk : s.reqs[k]? = some (.running tag p)) :
      Acts s { s with map := s.map.commit tag, reqs := s.reqs.set k (.committed tag p) }
  | completeCommit {k : Nat} {tag : Tag} {p : Ptr} (hk : s.reqs[k]? = some (.committed tag p)) :
      Acts s (s.removed k p (s.map.completeCommit tag p))
  | finish {k : Nat} {tag : Tag} {p : Ptr} (hk : s.reqs[k]? = some (.running tag p)) :
      Acts s (s.removed k p (s.map.remove tag))
  | close {k : Nat} {ch : Chan} {p : Ptr} (hk : s.reqs[k]? = some (.closing ch p)) :
      Acts s { s with reqs := s.reqs.set k (.putting p), closed := ch :: s.closed }
  | put {k : Nat} {p : Ptr} (hk : s.reqs[k]? = some (.putting p)) :
      Acts s { s with reqs := s.reqs.set k .gone, flushed := s.flushed.filter (· ≠ p) }
  | flush {tag : Tag} {ch : Chan} {im : InflightMap Ptr} (h : s.map.flushWait tag s.chans.length = (some ch, im)) :
      Acts s { s with
        map := im
        chans := register s.chans ch
          (((s.map.get tag).bind (·.rctx)).bind fun p => s.reqs.findIdx? (·.ptr = some p))
        flushed := s.flushes (.flushWait tag) ++ s.flushed }
  | cancelAll : Acts s { s with flushed := s.flushes .cancelAll ++ s.flushed }
  | empty (h : s.map.count = 0) : Acts s { s with waiters := s.waiters ++ [{ pc := .drained }] }
  | wait {ch : Chan} {im : InflightMap Ptr} (h : s.map.drainChan s.chans.length = (some ch, im)) :
      Acts s { s with map := im, chans := register s.chans ch none, waiters := s.waiters ++ [{ pc := .waiting ch }] }
  | wake {i : Nat} {ch : Chan} {seen : Bool} (hi : s.waiters[i]? = some ⟨.waiting ch, seen⟩) (hch : ch ∈ s.closed) :
      Acts s { s with waiters := s.waiters.set i ⟨.drained, seen⟩ }
  | expire {i : Nat} {ch : Chan} {seen : Bool} (hi : s.waiters[i]? = some ⟨.waiting ch, seen⟩) :
      Acts s { s with waiters := s.waiters.set i ⟨.expired, seen⟩ }

theorem act_acts (h : act s l = some s') : Acts s s' := by
  cases l with
  | start tag p =>
    simp only [act, List.any_eq_true, decide_eq_true_eq] at h
    split at h
    · cases h
    rename_i hfresh
    split at h
    · cases h
      exact .stutter
    · cases h
      exact .start (fun pc hpc hp => hfresh ⟨pc, hpc, hp⟩) ‹_›
  | commit k =>
    simp only [act] at h
    split at h <;> cases h
    exact .commit ‹_›
  | completeCommit k =>
    simp only [act] at h
    split at h <;> cases h
    exact .completeCommit ‹_›
  | finish k =>
    simp only [act] at h
    split at h <;> cases h
    exact .finish ‹_›
  | close k =>
    simp only [act] at h
    split at h <;> cases h
    exact .close ‹_›
  | putRequestCtx k =>
    simp only [act] at h
    split at h <;> cases h
    exact .put ‹_›
  | flushWait tag =>
    simp only [act] at h
    split at h <;> cases h
    · exact .stutter
    · exact .flush ‹_›
  | cancelAll =>
    cases h
    exact .cancelAll
  | wait =>
    simp only [act] at h
    split at h <;> cases h
    · rename_i hnone
      exact .empty (InflightMap.drainChan_none hnone)
    · exact .wait ‹_›
  | wake i =>
    simp only [act] at h
    split at h
    · split at h <;> cases h
      exact .wake ‹_› ‹_›
    · cases h
  | expire i =>
    simp only [act] at h
    split at h <;> cases h
    exact .expire ‹_›

/-! ## The invariant -/

def State.Belongs (s : State) (tag : Tag) (entry : InflightEntry Ptr) (k : Nat) : Prop :=
  ∃ p, entry.rctx = some p ∧ s.reqs[k]? = some (if entry.committed then .committed tag p else .running tag p)

def State.Completed (s : State) (k : Nat) : Prop := ∃ pc, s.reqs[k]? = some pc ∧ pc.completed = true

/-- Request `k` has committed, and its tag has been restarted since. -/
def State.Restarted (s : State) (k : Nat) : Prop :=
  ∃ tag p, s.reqs[k]? = some (.committed tag p) ∧ (s.map.get tag).bind (·.rctx) ≠ some p

structure Inv (s : State) : Prop where
  counted : s.map.Counted
  ptrs : ∀ (i j : Nat) (x y : Pc) (p : Ptr), s.reqs[i]? = some x → s.reqs[j]? = some y → x.ptr = some p →
    y.ptr = some p → i = j
  running : ∀ (k : Nat) (tag : Tag) (p : Ptr), s.reqs[k]? = some (.running tag p) →
    ∃ entry, s.map.get tag = some entry ∧ entry.rctx = some p ∧ entry.committed = false
  entry : ∀ tag entry, s.map.get tag = some entry → ∃ k, s.Belongs tag entry k
  done : ∀ tag entry ch, s.map.get tag = some entry → entry.done = some ch →
    ch ∉ s.closed ∧ ∃ k, s.chans[ch]? = some (some k) ∧ s.Belongs tag entry k
  drained : ∀ ch, s.map.drained = some ch → s.chans[ch]? = some none ∧ ch ∉ s.closed
  closing : ∀ (k : Nat) (ch : Chan) (p : Ptr), s.reqs[k]? = some (.closing ch p) →
    s.chans[ch]? = some (some k) ∧ ch ∉ s.closed
  old : ∀ ch ∈ s.closed, ch < s.chans.length
  once : s.closed.Nodup
  fate : ∀ (ch : Chan) (k : Nat), s.chans[ch]? = some (some k) →
    ch ∈ s.closed ∧ (s.Completed k ∨ s.Restarted k) ∨ (∃ p, s.reqs[k]? = some (.closing ch p)) ∨
      ∃ tag entry, s.map.get tag = some entry ∧ entry.done = some ch ∧ s.Belongs tag entry k
  flushed : ∀ p ∈ s.flushed, ∃ pc ∈ s.reqs, pc.ptr = some p

theorem init_inv : Inv init where
  counted := rfl
  ptrs := by simp [init]
  running := by simp [init]
  entry := fun _ _ h => by cases h
  done := fun _ _ _ h => by cases h
  drained := fun _ h => by cases h
  closing := by simp [init]
  old := by simp [init]
  once := .nil
  fate := by simp [init]
  flushed := by simp [init]

section Lemmas

variable {s : State} {entry : InflightEntry Ptr} {pc : Pc}

theorem State.Belongs.tag_eq (h : s.Belongs tag entry k) (h' : s.Belongs t entry' k) : tag = t := by
  obtain ⟨p, -, h⟩ := h
  obtain ⟨p', -, h'⟩ := h'
  have heq := mem_unique h h'
  cases hc : entry.committed <;> cases hc' : entry'.committed <;> simp [hc, hc'] at heq <;> exact heq.1

theorem State.Belongs.ptr (h : s.Belongs tag entry k) : ∃ pc, s.reqs[k]? = some pc ∧ pc.ptr = entry.rctx := by
  obtain ⟨p, hp, h⟩ := h
  refine ⟨_, h, ?_⟩
  cases entry.committed <;> exact hp.symm

theorem State.Belongs.congr {s' : State} (h : s.Belongs tag entry k) (hreq : ∀ pc, s.reqs[k]? = some pc → s'.reqs[k]? = some pc) :
    s'.Belongs tag entry k :=
  h.imp fun _ h => ⟨h.1, hreq _ h.2⟩

theorem State.Belongs.not_completed (h : s.Belongs tag entry k) (hk : s.reqs[k]? = some pc) : pc.completed = false := by
  obtain ⟨p, -, h⟩ := h
  obtain rfl := mem_unique h hk
  cases entry.committed <;> rfl

variable (hs : Inv s)
include hs

theorem Inv.belongs_eq (h : s.Belongs tag entry k) (h' : s.Belongs tag entry j) : k = j := by
  obtain ⟨x, hx, hp⟩ := h.ptr
  obtain ⟨y, hy, hp'⟩ := h'.ptr
  obtain ⟨p, hrctx, -⟩ := h
  exact hs.ptrs k j x y p hx hy (hp.trans hrctx) (hp'.trans hrctx)

theorem Inv.belongs_of_ptr (hget : s.map.get tag = some entry) (hrctx : entry.rctx = some p)
    (hk : s.reqs[k]? = some pc) (hpc : pc.ptr = some p) : s.Belongs tag entry k := by
  obtain ⟨j, hj⟩ := hs.entry tag entry hget
  obtain ⟨x, hx, hp⟩ := hj.ptr
  obtain rfl := hs.ptrs j k x pc p hx hk (hp.trans hrctx) hpc
  exact hj

theorem Inv.set_ptrs (hk : s.reqs[k]? = some pc) (hpc : ∀ p, pc'.ptr = some p → pc.ptr = some p) (i j : Nat) (x y : Pc)
    (p : Ptr) (hi : (s.reqs.set k pc')[i]? = some x) (hj : (s.reqs.set k pc')[j]? = some y) (hx : x.ptr = some p)
    (hy : y.ptr = some p) : i = j := by
  have hold (i : Nat) (x : Pc) (hi : (s.reqs.set k pc')[i]? = some x) (hx : x.ptr = some p) :
      ∃ x', s.reqs[i]? = some x' ∧ x'.ptr = some p := by
    rcases getElem?_set_cases hi with ⟨rfl, rfl⟩ | ⟨-, hi⟩
    · exact ⟨pc, hk, hpc p hx⟩
    · exact ⟨x, hi, hx⟩
  obtain ⟨x', hi, hx⟩ := hold i x hi hx
  obtain ⟨y', hj, hy⟩ := hold j y hj hy
  exact hs.ptrs i j x' y' p hi hj hx hy

theorem Inv.set_flushed (hk : s.reqs[k]? = some pc) (hp : p ∈ s.flushed) (hpc : pc.ptr = some p → pc'.ptr = some p) :
    ∃ x ∈ s.reqs.set k pc', x.ptr = some p := by
  obtain ⟨x, hx, hptr⟩ := hs.flushed p hp
  obtain ⟨j, hj⟩ := mem_iff_getElem?.1 hx
  have hlen := getElem?_lt hk
  by_cases hjk : j = k
  · subst hjk
    obtain rfl := mem_unique hj hk
    exact ⟨pc', mem_set hlen _, hpc hptr⟩
  · exact ⟨x, mem_of_getElem? (i := j) (by rw [getElem?_set_ne (Ne.symm hjk), hj]), hptr⟩

end Lemmas

/-! ## The steps -/

section Start

variable {s : State} {done : Option Chan}

theorem Inv.start_done (hs : Inv s) (hstart : s.map.start tag p = some (done, im)) (hch : ch ∈ done.toList) :
    ∃ entry k, s.map.get tag = some entry ∧ entry.committed = true ∧ entry.done = some ch ∧ ch ∉ s.closed ∧
      s.chans[ch]? = some (some k) ∧ s.Belongs tag entry k := by
  obtain ⟨-, -, ⟨-, rfl⟩ | ⟨entry, hget, hcommitted, rfl⟩⟩ := InflightMap.start_eq hstart
  · cases hch
  · have hdone := mem_toList.1 hch
    obtain ⟨hclosed, k, hk, hb⟩ := hs.done tag entry ch hget hdone
    exact ⟨entry, k, hget, hcommitted, hdone, hclosed, hk, hb⟩

theorem start_inv (hs : Inv s) (hfresh : ∀ pc ∈ s.reqs, pc.ptr ≠ some p)
    (hstart : s.map.start tag p = some (done, im)) :
    Inv { s with map := im, reqs := s.reqs ++ [.running tag p], closed := done.toList ++ s.closed } := by
  obtain ⟨hget, hdrained, hold⟩ := InflightMap.start_eq hstart
  have hreq {k : Nat} {pc : Pc} (hk : s.reqs[k]? = some pc) : (s.reqs ++ [.running tag p])[k]? = some pc :=
    getElem?_concat_left hk _
  have hptr {k : Nat} {pc : Pc} (hk : s.reqs[k]? = some pc) : pc.ptr ≠ some p := hfresh pc (mem_of_getElem? hk)
  have hclosed {ch : Chan} (hch : ch ∉ s.closed) (hne : ∀ entry k, s.map.get tag = some entry →
      s.chans[ch]? = some (some k) → ¬s.Belongs tag entry k) : ch ∉ done.toList ++ s.closed := by
    intro hmem
    rcases mem_append.1 hmem with hmem | hmem
    · obtain ⟨entry, k, hentry, -, -, -, hk, hb⟩ := hs.start_done hstart hmem
      exact hne entry k hentry hk hb
    · exact hch hmem
  constructor
  · exact hs.counted.start hstart
  · intro i j x y q hi hj hx hy
    rcases getElem?_concat_cases hi with hi | ⟨rfl, rfl⟩ <;> rcases getElem?_concat_cases hj with hj | ⟨rfl, rfl⟩
    · exact hs.ptrs i j x y q hi hj hx hy
    · exact absurd (hx.trans hy.symm) (hptr hi)
    · exact absurd (hy.trans hx.symm) (hptr hj)
    · rfl
  · intro k t q hk
    rcases getElem?_concat_cases hk with hk | ⟨-, hpc⟩
    · obtain ⟨entry, hentry, hrctx, hcommitted⟩ := hs.running k t q hk
      have ht : t ≠ tag := by
        rintro rfl
        obtain ⟨hnone, -⟩ | ⟨e, he, hc, -⟩ := hold
        · exact absurd (hnone.symm.trans hentry) (by simp)
        · obtain rfl := mem_unique he hentry
          exact absurd (hc.symm.trans hcommitted) (by simp)
      exact ⟨entry, by rw [hget, if_neg ht, hentry], hrctx, hcommitted⟩
    · obtain ⟨rfl, rfl⟩ := Pc.running.inj hpc
      exact ⟨_, by rw [hget, if_pos rfl], rfl, rfl⟩
  · intro t entry hentry
    rw [hget] at hentry
    split at hentry
    · subst t
      cases hentry
      exact ⟨s.reqs.length, p, rfl, getElem?_concat_length⟩
    · exact (hs.entry t entry hentry).imp fun _ hb => hb.congr fun _ => hreq
  · intro t entry ch hentry hdone
    rw [hget] at hentry
    split at hentry
    · cases hentry
      cases hdone
    · rename_i ht
      obtain ⟨hch, k, hk, hb⟩ := hs.done t entry ch hentry hdone
      refine ⟨hclosed hch fun e k' _ hk' hb' => ht ?_, k, hk, hb.congr fun _ => hreq⟩
      obtain rfl : k = k' := by simpa [hk] using hk'
      exact hb.tag_eq hb'
  · intro ch hch
    obtain ⟨hnone, hch⟩ := hs.drained ch (hdrained ▸ hch)
    exact ⟨hnone, hclosed hch fun _ _ _ hk => absurd (hnone.symm.trans hk) (by simp)⟩
  · intro k ch q hk
    rcases getElem?_concat_cases hk with hk | ⟨-, hpc⟩
    · obtain ⟨hchan, hch⟩ := hs.closing k ch q hk
      refine ⟨hchan, hclosed hch fun e k' _ hk' hb' => ?_⟩
      obtain rfl : k = k' := by simpa [hchan] using hk'
      exact absurd (hb'.not_completed hk) (by simp [Pc.completed])
    · cases hpc
  · intro ch hch
    rcases mem_append.1 hch with hch | hch
    · obtain ⟨-, k, -, -, -, -, hk, -⟩ := hs.start_done hstart hch
      exact getElem?_lt hk
    · exact hs.old ch hch
  · refine List.Nodup.append ?_ hs.once fun ch hch hmem => ?_
    · cases done <;> simp
    · obtain ⟨-, -, -, -, -, hnot, -⟩ := hs.start_done hstart hch
      exact hnot hmem
  · intro ch k hk
    have hrestarted {t : Tag} {q : Ptr} (hq : s.reqs[k]? = some (.committed t q))
        (hne : t ≠ tag → (s.map.get t).bind (·.rctx) ≠ some q) :
        State.Restarted { s with map := im, reqs := s.reqs ++ [.running tag p], closed := done.toList ++ s.closed } k := by
      refine ⟨t, q, hreq hq, ?_⟩
      simp only [hget]
      split
      · intro heq
        exact hptr hq heq.symm
      · exact hne ‹_›
    rcases hs.fate ch k hk with ⟨hch, hover⟩ | ⟨q, hq⟩ | ⟨t, entry, hentry, hdone, hb⟩
    · refine .inl ⟨mem_append_right _ hch, hover.imp (fun ⟨pc, hpc, hc⟩ => ⟨pc, hreq hpc, hc⟩) ?_⟩
      rintro ⟨t, q, hq, hne⟩
      exact hrestarted hq fun _ => hne
    · exact .inr (.inl ⟨q, hreq hq⟩)
    · by_cases ht : t = tag
      · subst ht
        obtain ⟨hnone, -⟩ | ⟨e, he, hc, rfl⟩ := hold
        · exact absurd (hnone.symm.trans hentry) (by simp)
        · obtain rfl := mem_unique he hentry
          obtain ⟨q, -, hq⟩ := hb
          rw [hc, if_pos rfl] at hq
          exact .inl ⟨by simp [hdone], .inr (hrestarted hq fun hne => absurd rfl hne)⟩
      · exact .inr (.inr ⟨t, entry, by rw [hget, if_neg ht, hentry], hdone, hb.congr fun _ => hreq⟩)
  · intro q hq
    obtain ⟨x, hx, hptr⟩ := hs.flushed q hq
    exact ⟨x, mem_append_left _ hx, hptr⟩

end Start

section Leave

variable {s : State}

/-- Request `k` leaves the map, or goes on after it has left: of the entries only its own may go, its channel is handed
to it, and it closes no other channel than that. -/
theorem leave_inv (hs : Inv s) (hk : s.reqs[k]? = some pc) (hpc' : pc'.completed = true)
    (hptr : ∀ p, pc'.ptr = some p → pc.ptr = some p) (hcounted : im.Counted)
    (hgone : ∀ t entry, im.get t = some entry → s.map.get t = some entry ∧ ¬s.Belongs t entry k)
    (hkeep : ∀ t entry, s.map.get t = some entry → ¬s.Belongs t entry k → im.get t = some entry)
    (hdrained : ∀ ch, im.drained = some ch → s.map.drained = some ch)
    (hadded : ∀ ch ∈ added, s.map.drained = some ch ∧ im.drained = none ∨ ∃ q, pc = .closing ch q)
    (hnodup : added.Nodup) (hclosed : ∀ ch q, pc = .closing ch q → ch ∈ added) (hclosing : ∀ ch q, pc' = .closing ch q →
      ∃ t entry, s.map.get t = some entry ∧ entry.done = some ch ∧ s.Belongs t entry k)
    (hdone : ∀ t entry ch, s.map.get t = some entry → entry.done = some ch → s.Belongs t entry k →
      ∃ q, pc' = .closing ch q) (hflushed : ∀ p ∈ flushed, p ∈ s.flushed ∧ (pc.ptr = some p → pc'.ptr = some p)) :
    Inv { s with map := im, reqs := s.reqs.set k pc', closed := added ++ s.closed, flushed := flushed } := by
  have hself : (s.reqs.set k pc')[k]? = some pc' := set_same hk _
  have hreq {j : Nat} (hj : j ≠ k) : (s.reqs.set k pc')[j]? = s.reqs[j]? := getElem?_set_ne (Ne.symm hj)
  -- a channel that is neither the drain channel nor the request's own
  have hnot {ch : Chan} (hch : ch ∉ s.closed) {x : Option Nat} (hx : s.chans[ch]? = some x)
      (hdrain : x = none → im.drained ≠ none) (hne : x ≠ some k) : ch ∉ added ++ s.closed := by
    intro hmem
    rcases mem_append.1 hmem with hmem | hmem
    · rcases hadded ch hmem with ⟨hd, hnone⟩ | ⟨q, rfl⟩
      · have := (hs.drained ch hd).1
        exact hdrain (mem_unique hx this) hnone
      · exact hne (Option.some.inj (hx.symm.trans (hs.closing k ch q hk).1))
    · exact hch hmem
  constructor
  · exact hcounted
  · exact hs.set_ptrs hk hptr
  · intro j t q hj
    rcases getElem?_set_cases hj with ⟨-, rfl⟩ | ⟨hne, hj⟩
    · cases hpc'
    · obtain ⟨entry, hentry, hrctx, hcommitted⟩ := hs.running j t q hj
      have hb := hs.belongs_of_ptr hentry hrctx hj rfl
      exact ⟨entry, hkeep t entry hentry fun hb' => hne (hs.belongs_eq hb hb'), hrctx, hcommitted⟩
  · intro t entry hentry
    obtain ⟨hentry, hnb⟩ := hgone t entry hentry
    obtain ⟨j, hb⟩ := hs.entry t entry hentry
    exact ⟨j, hb.congr fun _ => (hreq fun hj => hnb (hj ▸ hb)).trans⟩
  · intro t entry ch hentry hd
    obtain ⟨hentry, hnb⟩ := hgone t entry hentry
    obtain ⟨hch, j, hj, hb⟩ := hs.done t entry ch hentry hd
    have hne : j ≠ k := fun hj => hnb (hj ▸ hb)
    exact ⟨hnot hch hj (by simp) (by simpa using hne), j, hj, hb.congr fun _ => (hreq hne).trans⟩
  · intro ch hd
    have hd : im.drained = some ch := hd
    obtain ⟨hchan, hch⟩ := hs.drained ch (hdrained ch hd)
    exact ⟨hchan, hnot hch hchan (fun _ => by simp [hd]) (by simp)⟩
  · intro j ch q hj
    rcases getElem?_set_cases hj with ⟨rfl, rfl⟩ | ⟨hne, hj⟩
    · obtain ⟨t, entry, hentry, hd, hb⟩ := hclosing ch q rfl
      obtain ⟨hch, i, hi, hb'⟩ := hs.done t entry ch hentry hd
      obtain rfl := hs.belongs_eq hb hb'
      refine ⟨hi, fun hmem => ?_⟩
      rcases mem_append.1 hmem with hmem | hmem
      · rcases hadded ch hmem with ⟨hd, -⟩ | ⟨q', rfl⟩
        · exact absurd ((hs.drained ch hd).1.symm.trans hi) (by simp)
        · exact absurd (hb.not_completed hk) (by simp [Pc.completed])
      · exact hch hmem
    · obtain ⟨hchan, hch⟩ := hs.closing j ch q hj
      exact ⟨hchan, hnot hch hchan (by simp) (by simpa using hne)⟩
  · intro ch hch
    rcases mem_append.1 hch with hch | hch
    · rcases hadded ch hch with ⟨hd, -⟩ | ⟨q, rfl⟩
      · exact getElem?_lt (hs.drained ch hd).1
      · exact getElem?_lt (hs.closing k ch q hk).1
    · exact hs.old ch hch
  · refine List.Nodup.append hnodup hs.once fun ch hch hmem => ?_
    rcases hadded ch hch with ⟨hd, -⟩ | ⟨q, rfl⟩
    · exact (hs.drained ch hd).2 hmem
    · exact (hs.closing k ch q hk).2 hmem
  · intro ch j hj
    by_cases hjk : j = k
    · subst hjk
      have hcompleted : ∃ x, (s.reqs.set j pc')[j]? = some x ∧ x.completed = true := ⟨pc', hself, hpc'⟩
      rcases hs.fate ch j hj with ⟨hch, -⟩ | ⟨q, hq⟩ | ⟨t, entry, hentry, hd, hb⟩
      · exact .inl ⟨mem_append_right _ hch, .inl hcompleted⟩
      · obtain rfl := mem_unique hk hq
        exact .inl ⟨mem_append_left _ (hclosed ch q rfl), .inl hcompleted⟩
      · obtain ⟨q, rfl⟩ := hdone t entry ch hentry hd hb
        exact .inr (.inl ⟨q, hself⟩)
    · rcases hs.fate ch j hj with ⟨hch, hover⟩ | ⟨q, hq⟩ | ⟨t, entry, hentry, hd, hb⟩
      · refine .inl ⟨mem_append_right _ hch, hover.imp ?_ ?_⟩
        · rintro ⟨x, hx, hc⟩
          exact ⟨x, (hreq hjk).trans hx, hc⟩
        · rintro ⟨t, q, hq, hne⟩
          refine ⟨t, q, (hreq hjk).trans hq, fun heq => hne ?_⟩
          obtain ⟨entry, hentry, hrctx⟩ := bind_eq_some_iff.1 heq
          exact bind_eq_some_iff.2 ⟨entry, (hgone t entry hentry).1, hrctx⟩
      · exact .inr (.inl ⟨q, (hreq hjk).trans hq⟩)
      · exact .inr (.inr ⟨t, entry, hkeep t entry hentry fun hb' => hjk (hs.belongs_eq hb hb'), hd,
          hb.congr fun _ => (hreq hjk).trans⟩)
  · intro q hq
    obtain ⟨hq, hsame⟩ := hflushed q hq
    exact hs.set_flushed hk hq hsame

theorem removed_inv (hs : Inv s) (hk : s.reqs[k]? = some pc) (hpc : pc.ptr = some p) (hnc : pc.completed = false)
    (hget : s.map.get tag = some entry) (hb : s.Belongs tag entry k) :
    Inv (s.removed k p (entry.done, s.map.delete tag)) := by
  have hne {t : Tag} {x : InflightEntry Ptr} (hx : s.map.get t = some x) : s.Belongs t x k ↔ t = tag := by
    refine ⟨fun h => h.tag_eq hb, ?_⟩
    rintro rfl
    obtain rfl := mem_unique hget hx
    exact hb
  have hpc' : ∀ ch q, (match entry.done with | some ch => Pc.closing ch p | none => .putting p) = .closing ch q →
      entry.done = some ch := by
    intro ch q h
    cases hd : entry.done with
    | none => simp [hd] at h
    | some c => simpa [hd] using (Pc.closing.inj (by simpa [hd] using h)).1
  have hdelete := InflightMap.delete_eq s.map tag
  have hentries := InflightMap.delete_get s.map tag
  have hcounted := hs.counted.delete hget
  generalize s.map.delete tag = x at hdelete hentries hcounted ⊢
  obtain ⟨drained, im⟩ := x
  refine leave_inv hs hk ?_ ?_ hcounted ?_ ?_ ?_ ?_ ?_ ?_ ?_ ?_ ?_
  · cases entry.done <;> rfl
  · cases entry.done <;> exact fun q hq => hpc.trans hq
  · intro t x hx
    rw [hentries] at hx
    split at hx
    · cases hx
    · exact ⟨hx, fun h => ‹¬t = tag› ((hne hx).1 h)⟩
  · intro t x hx hnb
    rw [hentries, if_neg fun ht => hnb ((hne hx).2 ht), hx]
  · intro ch hd
    obtain ⟨-, ⟨-, -, hnone⟩ | ⟨-, -, hsame⟩⟩ := hdelete
    · exact absurd (hnone.symm.trans hd) (by simp)
    · exact hsame ▸ hd
  · intro ch hch
    obtain ⟨-, ⟨-, rfl, hnone⟩ | ⟨-, rfl, -⟩⟩ := hdelete
    · exact .inl ⟨mem_toList.1 hch, hnone⟩
    · cases hch
  · cases drained <;> simp
  · rintro ch q rfl
    cases hnc
  · intro ch q h
    exact ⟨tag, entry, hget, hpc' ch q h, hb⟩
  · intro t x ch hx hd hbx
    obtain rfl := (hne hx).1 hbx
    obtain rfl := mem_unique hget hx
    exact ⟨p, by simp [hd]⟩
  · exact fun q hq => ⟨hq, fun h => by cases entry.done <;> exact hpc.symm.trans h⟩

theorem State.Belongs.not_stale (hb : s.Belongs t entry k) (hk : s.reqs[k]? = some (.committed tag p))
    (hget : s.map.get t = some entry) :
    (s.map.get tag).bind (·.rctx) = some p := by
  obtain ⟨q, hq, hb⟩ := hb
  have heq := mem_unique hk hb
  cases hc : entry.committed with
  | false => simp [hc] at heq
  | true =>
    rw [hc, if_pos rfl] at heq
    obtain ⟨rfl, rfl⟩ := Pc.committed.inj heq
    rw [hget]
    exact hq

theorem completeCommit_inv (hs : Inv s) (hk : s.reqs[k]? = some (.committed tag p)) :
    Inv (s.removed k p (s.map.completeCommit tag p)) := by
  by_cases hown : (s.map.get tag).bind (·.rctx) = some p
  · obtain ⟨entry, hget, hrctx⟩ := bind_eq_some_iff.1 hown
    have heq : s.map.completeCommit tag p = (entry.done, s.map.delete tag) := by
      simp [InflightMap.completeCommit, hget, hrctx]
    rw [heq]
    exact removed_inv hs hk rfl rfl hget (hs.belongs_of_ptr hget hrctx hk rfl)
  · have heq : s.map.completeCommit tag p = (none, none, s.map) := by
      unfold InflightMap.completeCommit
      split
      · rfl
      · rename_i entry hget
        rw [if_pos]
        simpa [hget] using hown
    rw [heq]
    have hnot {t : Tag} {entry : InflightEntry Ptr} (hget : s.map.get t = some entry) : ¬s.Belongs t entry k :=
      fun hb => hown (hb.not_stale hk hget)
    have hput : (Pc.putting p).completed = true := rfl
    exact leave_inv hs hk hput (fun q hq => hq) hs.counted (fun t x hx => ⟨hx, hnot hx⟩) (fun t x hx _ => hx)
      (fun ch hd => hd) (by simp) .nil (by simp) (by simp) (fun t x ch hx _ hb => (hnot hx hb).elim)
      (fun q hq => ⟨hq, id⟩)

theorem finish_inv (hs : Inv s) (hk : s.reqs[k]? = some (.running tag p)) : Inv (s.removed k p (s.map.remove tag)) := by
  obtain ⟨entry, hget, hrctx, -⟩ := hs.running k tag p hk
  have heq : s.map.remove tag = (entry.done, s.map.delete tag) := by simp [InflightMap.remove, hget]
  rw [heq]
  exact removed_inv hs hk rfl rfl hget (hs.belongs_of_ptr hget hrctx hk rfl)

theorem after_inv (hs : Inv s) (added : List Chan) (hk : s.reqs[k]? = some pc) (hpc : pc.completed = true)
    (hpc' : pc'.completed = true) (hptr : ∀ p, pc'.ptr = some p → pc.ptr = some p)
    (hclosing : ∀ ch q, pc' ≠ .closing ch q) (hadded : ∀ ch, ch ∈ added ↔ ∃ q, pc = .closing ch q)
    (hnodup : added.Nodup) (hflushed : ∀ p ∈ flushed, p ∈ s.flushed ∧ (pc.ptr = some p → pc'.ptr = some p)) :
    Inv { s with reqs := s.reqs.set k pc', closed := added ++ s.closed, flushed := flushed } := by
  have hnot (t : Tag) (entry : InflightEntry Ptr) : ¬s.Belongs t entry k := fun hb =>
    absurd (hb.not_completed hk) (by simp [hpc])
  exact leave_inv hs hk hpc' hptr hs.counted (fun t x hx => ⟨hx, hnot t x⟩) (fun t x hx _ => hx) (fun ch hd => hd)
    (fun ch hch => .inr ((hadded ch).1 hch)) hnodup (fun ch q h => (hadded ch).2 ⟨q, h⟩)
    (fun ch q h => absurd h (hclosing ch q)) (fun t x ch _ _ hb => (hnot t x hb).elim) hflushed

end Leave

/-- Where a request is whose entry is `entry`. -/
def pcOf (tag : Tag) (p : Ptr) (entry : InflightEntry Ptr) : Pc :=
  if entry.committed then .committed tag p else .running tag p

theorem update_inv (hs : Inv s) (entry' : InflightEntry Ptr) (hget : s.map.get tag = some entry) (hrctx : entry.rctx = some p)
    (hk : s.reqs[k]? = some (pcOf tag p entry)) (hrctx' : entry'.rctx = some p)
    (hchans : ∀ (ch : Chan) x, s.chans[ch]? = some x → chans[ch]? = some x)
    (hnew : ∀ (ch : Chan) x, chans[ch]? = some x → s.chans[ch]? = some x ∨ x = some k ∧ entry'.done = some ch)
    (hdone : ∀ ch, entry.done = some ch → entry'.done = some ch)
    (hdone' : ∀ ch, entry'.done = some ch → chans[ch]? = some (some k) ∧ ch ∉ s.closed) :
    Inv { s with map := s.map.set tag entry', reqs := s.reqs.set k (pcOf tag p entry'), chans := chans } := by
  have hself : (s.reqs.set k (pcOf tag p entry'))[k]? = some (pcOf tag p entry') :=
    set_same hk _
  have hreq {j : Nat} (hj : j ≠ k) : (s.reqs.set k (pcOf tag p entry'))[j]? = s.reqs[j]? :=
    getElem?_set_ne (Ne.symm hj)
  have hptr (entry : InflightEntry Ptr) : (pcOf tag p entry).ptr = some p := by
    unfold pcOf
    split <;> rfl
  have hnc (entry : InflightEntry Ptr) : (pcOf tag p entry).completed = false := by
    unfold pcOf
    split <;> rfl
  have hb : s.Belongs tag entry k := ⟨p, hrctx, hk⟩
  have hne {t : Tag} {x : InflightEntry Ptr} {j : Nat} (hx : s.map.get t = some x) (hxj : s.Belongs t x j)
      (ht : t ≠ tag) : j ≠ k := by
    rintro rfl
    exact ht (hxj.tag_eq hb)
  have hrctxs (t : Tag) : ((s.map.set tag entry').get t).bind (·.rctx) = (s.map.get t).bind (·.rctx) := by
    rw [InflightMap.get_set]
    split
    · subst t
      simp [hget, hrctx, hrctx']
    · rfl
  constructor
  · exact hs.counted.set hget entry'
  · exact hs.set_ptrs hk fun q hq => (hptr entry).trans ((hptr entry').symm.trans hq)
  · intro j t q hj
    rcases getElem?_set_cases hj with ⟨rfl, hpc⟩ | ⟨hjk, hj'⟩
    · unfold pcOf at hpc
      split at hpc
      · cases hpc
      · obtain ⟨rfl, rfl⟩ := Pc.running.inj hpc
        exact ⟨entry', by simp [InflightMap.get_set], hrctx', by simpa using ‹¬entry'.committed = true›⟩
    · obtain ⟨x, hx, hq, hc⟩ := hs.running j t q hj'
      refine ⟨x, ?_, hq, hc⟩
      rw [InflightMap.get_set, if_neg, hx]
      rintro rfl
      obtain rfl := mem_unique hget hx
      exact hjk (hs.belongs_eq (hs.belongs_of_ptr hget hq hj' rfl) hb)
  · intro t x hx
    rw [InflightMap.get_set] at hx
    split at hx
    · subst t
      cases hx
      exact ⟨k, p, hrctx', hself⟩
    · obtain ⟨j, hj⟩ := hs.entry t x hx
      exact ⟨j, hj.congr fun _ => (hreq (hne hx hj ‹_›)).trans⟩
  · intro t x ch hx hd
    rw [InflightMap.get_set] at hx
    split at hx
    · subst t
      cases hx
      obtain ⟨hchan, hch⟩ := hdone' ch hd
      exact ⟨hch, k, hchan, p, hrctx', hself⟩
    · obtain ⟨hch, j, hj, hbj⟩ := hs.done t x ch hx hd
      exact ⟨hch, j, hchans ch _ hj, hbj.congr fun _ => (hreq (hne hx hbj ‹_›)).trans⟩
  · intro ch hd
    obtain ⟨hchan, hch⟩ := hs.drained ch hd
    exact ⟨hchans ch _ hchan, hch⟩
  · intro j ch q hj
    rcases getElem?_set_cases hj with ⟨-, hpc⟩ | ⟨-, hj⟩
    · exact absurd (hnc entry') (by simp [← hpc, Pc.completed])
    · obtain ⟨hchan, hch⟩ := hs.closing j ch q hj
      exact ⟨hchans ch _ hchan, hch⟩
  · intro ch hch
    exact getElem?_lt (hchans ch _ (getElem?_eq_getElem (hs.old ch hch)))
  · exact hs.once
  · intro ch j hj
    have hown (hd : entry'.done = some ch) (hjk : j = k) : ∃ t x,
        (s.map.set tag entry').get t = some x ∧ x.done = some ch ∧ State.Belongs
          { s with map := s.map.set tag entry', reqs := s.reqs.set k (pcOf tag p entry'), chans := chans } t x j := by
      subst hjk
      exact ⟨tag, entry', by simp [InflightMap.get_set], hd, p, hrctx', hself⟩
    rcases hnew ch _ hj with hj | ⟨heq, hd⟩
    · rcases hs.fate ch j hj with ⟨hch, hover⟩ | ⟨q, hq⟩ | ⟨t, x, hx, hd, hxj⟩
      · refine .inl ⟨hch, hover.imp ?_ ?_⟩
        · rintro ⟨x, hx, hc⟩
          refine ⟨x, (hreq ?_).trans hx, hc⟩
          rintro rfl
          exact absurd (hb.not_completed hx) (by simp [hc])
        · rintro ⟨t, q, hq, hstale⟩
          refine ⟨t, q, (hreq ?_).trans hq, by rwa [hrctxs]⟩
          rintro rfl
          exact hstale (hb.not_stale hq hget)
      · refine .inr (.inl ⟨q, (hreq ?_).trans hq⟩)
        rintro rfl
        exact absurd (hb.not_completed hq) (by simp [Pc.completed])
      · by_cases ht : t = tag
        · subst ht
          obtain rfl := mem_unique hget hx
          exact .inr (.inr (hown (hdone ch hd) (hs.belongs_eq hxj hb)))
        · exact .inr (.inr ⟨t, x, by rw [InflightMap.get_set, if_neg ht, hx], hd,
            hxj.congr fun _ => (hreq (hne hx hxj ht)).trans⟩)
    · exact .inr (.inr (hown hd (Option.some.inj heq)))
  · intro q hq
    exact hs.set_flushed hk hq fun h => (hptr entry').trans ((hptr entry).symm.trans h)

theorem commit_inv (hs : Inv s) (hk : s.reqs[k]? = some (.running tag p)) :
    Inv { s with map := s.map.commit tag, reqs := s.reqs.set k (.committed tag p) } := by
  obtain ⟨entry, hget, hrctx, hcommitted⟩ := hs.running k tag p hk
  have hb := hs.belongs_of_ptr hget hrctx hk rfl
  have hmap : s.map.commit tag = s.map.set tag { entry with committed := true } := by
    rw [InflightMap.commit, hget]
    rfl
  rw [hmap]
  refine update_inv hs { entry with committed := true } hget hrctx ?_ hrctx (fun _ _ h => h)
    (fun _ _ h => .inl h) (fun _ h => h) fun ch hd => ?_
  · rw [hk, pcOf, hcommitted]
    rfl
  · obtain ⟨hch, j, hj, hb'⟩ := hs.done tag entry ch hget hd
    obtain rfl := hs.belongs_eq hb hb'
    exact ⟨hj, hch⟩

theorem Inv.findIdx_eq (hs : Inv s) (hk : s.reqs[k]? = some pc) (hp : pc.ptr = some p) :
    s.reqs.findIdx? (·.ptr = some p) = some k := by
  obtain ⟨hlt, rfl⟩ := List.getElem?_eq_some_iff.1 hk
  refine findIdx?_eq_some_iff_getElem.2 ⟨hlt, by simpa using hp, fun j hj hptr => ?_⟩
  have hjlt : j < s.reqs.length := lt_trans hj hlt
  exact ne_of_lt hj (hs.ptrs j k _ _ p (getElem?_eq_getElem hjlt) hk (by simpa using hptr) hp)

theorem flush_inv (hs : Inv s) (hps : ∀ p ∈ ps, ∃ pc ∈ s.reqs, pc.ptr = some p) :
    Inv { s with flushed := ps ++ s.flushed } :=
  { hs with
    flushed := fun p hp => (mem_append.1 hp).elim (hps p) (hs.flushed p) }

theorem Inv.flushes (hs : Inv s) (hp : p ∈ s.flushes l) :
    ∃ (k : Nat) (pc : Pc), s.reqs[k]? = some pc ∧ pc.ptr = some p ∧ pc.completed = false := by
  have hentry {tag : Tag} {entry : InflightEntry Ptr} (hget : s.map.get tag = some entry)
      (hrctx : entry.rctx = some p) :
      ∃ (k : Nat) (pc : Pc), s.reqs[k]? = some pc ∧ pc.ptr = some p ∧ pc.completed = false := by
    obtain ⟨k, hb⟩ := hs.entry tag entry hget
    obtain ⟨pc, hk, hpc⟩ := hb.ptr
    exact ⟨k, pc, hk, hpc.trans hrctx, hb.not_completed hk⟩
  cases l with
  | flushWait tag =>
    obtain ⟨entry, hget, hrctx⟩ := bind_eq_some_iff.1 (mem_toList.1 hp)
    exact hentry hget hrctx
  | cancelAll =>
    obtain ⟨⟨tag, entry⟩, hmem, hrctx⟩ := mem_filterMap.1 hp
    exact hentry (AList.mem_lookup_iff.2 hmem) hrctx
  | start | commit | completeCommit | finish | close | putRequestCtx | wait | wake | expire => cases hp

theorem Inv.flushes_held (hs : Inv s) (l : Label) (p : Ptr) (hp : p ∈ s.flushes l) : ∃ pc ∈ s.reqs, pc.ptr = some p := by
  obtain ⟨k, pc, hk, hpc, -⟩ := hs.flushes hp
  exact ⟨pc, mem_of_getElem? hk, hpc⟩

theorem register_old (h : chans[ch]? = some x) (k : Option Nat) :
    register chans ch k = chans :=
  if_neg (Nat.ne_of_lt (getElem?_lt h))

theorem register_new (chans : List (Option Nat)) (k : Option Nat) : register chans chans.length k = chans ++ [k] :=
  if_pos rfl

theorem flushWait_inv (hs : Inv s) (h : s.map.flushWait tag s.chans.length = (some ch, im)) :
    Inv { s with
      map := im
      chans := register s.chans ch
        (((s.map.get tag).bind (·.rctx)).bind fun p => s.reqs.findIdx? (·.ptr = some p)) } := by
  unfold InflightMap.flushWait at h
  split at h
  · cases h
  rename_i entry hget
  split at h
  · rename_i c hdone
    obtain ⟨rfl, rfl⟩ : c = ch ∧ s.map = im := by simpa using h
    obtain ⟨-, k, hk, -⟩ := hs.done tag entry c hget hdone
    rw [register_old hk]
    exact hs
  · rename_i hdone
    obtain ⟨rfl, rfl⟩ : s.chans.length = ch ∧ s.map.set tag { entry with done := some s.chans.length } = im := by
      simpa using h
    obtain ⟨k, p, hrctx, hk⟩ := hs.entry tag entry hget
    have howner : ((s.map.get tag).bind (·.rctx)).bind (fun p => s.reqs.findIdx? (·.ptr = some p)) = some k := by
      rw [hget, bind_some, hrctx, bind_some]
      refine hs.findIdx_eq hk ?_
      split <;> rfl
    rw [register_new, howner]
    have hinv := update_inv hs { entry with done := some s.chans.length } hget hrctx hk hrctx
      (fun _ _ h => getElem?_concat_left h (some k)) ?_ ?_ ?_
    · obtain ⟨hlt, hpc⟩ := List.getElem?_eq_some_iff.1 hk
      have hset : s.reqs.set k (pcOf tag p { entry with done := some s.chans.length }) = s.reqs := by
        rw [show pcOf tag p { entry with done := some s.chans.length } = s.reqs[k] from hpc.symm,
          set_getElem_self]
      rwa [hset] at hinv
    · intro c x hc
      rcases getElem?_concat_cases hc with hc | ⟨rfl, rfl⟩
      · exact .inl hc
      · exact .inr ⟨rfl, rfl⟩
    · intro c hc
      exact absurd (hdone.symm.trans hc) (by simp)
    · intro c hc
      cases hc
      exact ⟨getElem?_concat_length, fun hmem => lt_irrefl _ (hs.old _ hmem)⟩

theorem drain_inv (hs : Inv s) :
    Inv { s with map := { s.map with drained := some s.chans.length }, chans := s.chans ++ [none] } := by
  refine { hs with done := ?_, drained := ?_, closing := ?_, old := ?_, fate := ?_ }
  · intro tag entry ch hget hdone
    obtain ⟨hch, k, hk, hb⟩ := hs.done tag entry ch hget hdone
    exact ⟨hch, k, getElem?_concat_left hk none, hb⟩
  · rintro ch hch
    cases hch
    exact ⟨getElem?_concat_length, fun hmem => lt_irrefl _ (hs.old _ hmem)⟩
  · intro k ch p hk
    obtain ⟨hchan, hch⟩ := hs.closing k ch p hk
    exact ⟨getElem?_concat_left hchan none, hch⟩
  · intro ch hch
    exact lt_of_lt_of_le (hs.old ch hch) (by simp)
  · intro ch k hk
    rcases getElem?_concat_cases hk with hk | ⟨-, hk⟩
    · exact hs.fate ch k hk
    · cases hk

theorem wait_inv (hs : Inv s) (h : s.map.drainChan s.chans.length = (some ch, im)) :
    Inv { s with map := im, chans := register s.chans ch none } := by
  obtain ⟨hentries, hcount, hdrained, hold | ⟨hnone, rfl⟩⟩ := InflightMap.drainChan_eq h
  · obtain rfl : im = s.map := by
      cases im
      cases hm : s.map
      simp_all
    rw [register_old (hs.drained ch hold).1]
    exact hs
  · obtain rfl : im = { s.map with drained := some s.chans.length } := by
      cases im
      simp_all
    rw [register_new]
    exact drain_inv hs

theorem Inv.waiters (hs : Inv s) (ws : List Waiter) : Inv { s with waiters := ws } :=
  { hs with }

theorem act_inv (hs : Inv s) (h : Acts s s') : Inv s' := by
  cases h with
  | stutter => exact hs
  | start hfresh hstart => exact start_inv hs hfresh hstart
  | commit hk => exact commit_inv hs hk
  | completeCommit hk => exact completeCommit_inv hs hk
  | finish hk => exact finish_inv hs hk
  | @close k ch p hk =>
    have hput : (Pc.putting p).completed = true := rfl
    exact after_inv hs [ch] hk rfl hput (fun q hq => hq) (by simp) (by simp [eq_comm]) (by simp) fun q hq => ⟨hq, id⟩
  | @put k p hk =>
    have hgone : Pc.gone.completed = true := rfl
    refine after_inv hs [] hk rfl hgone (by simp [Pc.ptr]) (by simp) (by simp) .nil fun q hq => ?_
    obtain ⟨hq, hne⟩ := mem_filter.1 hq
    exact ⟨hq, fun hp => absurd (Option.some.inj hp).symm (by simpa using hne)⟩
  | @flush tag ch im h => exact flush_inv (flushWait_inv hs h) (hs.flushes_held (.flushWait tag))
  | cancelAll => exact flush_inv hs (hs.flushes_held .cancelAll)
  | wait h => exact (wait_inv hs h).waiters _
  | empty | wake | expire => exact hs.waiters _

theorem step_inv (hs : Inv s) (h : step s l = some s') : Inv s' := by
  obtain ⟨s₁, h₁, rfl⟩ := map_eq_some_iff.1 h
  exact (act_inv hs (act_acts h₁)).waiters _

/-! ## Those who wait -/

/-- A waiter that has returned nil, or whose channel is not the drain channel any more, has seen the map empty. -/
def Waiter.Ok (drained : Option Chan) (w : Waiter) : Prop :=
  match w.pc with
  | .waiting ch => drained = some ch ∨ w.empty = true
  | .drained => w.empty = true
  | .expired => True

theorem Waiter.Ok.mark {w : Waiter} {empty : Bool} (h : w.Ok drained ∨ empty = true) :
    Waiter.Ok drained { w with empty := w.empty || empty } := by
  obtain ⟨pc, seen⟩ := w
  cases pc <;> simp only [Waiter.Ok, Bool.or_eq_true] at h ⊢ <;> tauto

theorem drained_of_delete (hs : Inv s) {tag : Tag} {entry : InflightEntry Ptr} (hget : s.map.get tag = some entry)
    {ch : Chan} (hch : s.map.drained = some ch) :
    (s.map.delete tag).2.drained = some ch ∨ (s.map.delete tag).2.entries.keys = [] := by
  obtain ⟨hcount, ⟨hzero, -, -⟩ | ⟨-, -, hsame⟩⟩ := InflightMap.delete_eq s.map tag
  · have hlen := hs.counted.delete hget
    rw [InflightMap.Counted, hcount, hzero] at hlen
    exact .inr (length_eq_zero_iff.1 (by omega))
  · exact .inl (hsame.trans hch)

theorem act_drained (hs : Inv s) (h : Acts s s') (hch : s.map.drained = some ch) :
    s'.map.drained = some ch ∨ s'.map.entries.keys = [] := by
  cases h with
  | start _ hstart => exact .inl ((InflightMap.start_eq hstart).2.1.trans hch)
  | @completeCommit k tag p hk =>
    simp only [State.removed, InflightMap.completeCommit]
    split
    · exact .inl hch
    · split
      · exact .inl hch
      · exact drained_of_delete hs ‹_› hch
  | @finish k tag p hk =>
    obtain ⟨entry, hget, -⟩ := hs.running k tag p hk
    exact drained_of_delete hs hget hch
  | flush h => exact .inl ((InflightMap.flushWait_drained h).trans hch)
  | wait h =>
    obtain ⟨-, -, hnew, hold | ⟨hnone, -⟩⟩ := InflightMap.drainChan_eq h
    · exact .inl (hnew.trans (hold.symm.trans hch))
    · exact absurd (hnone.symm.trans hch) (by simp)
  | stutter | commit | close | put | cancelAll | empty | wake | expire => exact .inl hch

theorem act_waiters (hs : Inv s) (hw : ∀ w ∈ s.waiters, w.Ok s.map.drained) (h : Acts s s')
    (hmem : w ∈ s'.waiters) : w.Ok s'.map.drained ∨ s'.map.entries.keys = [] := by
  have hkeep (hold : w ∈ s.waiters) : w.Ok s'.map.drained ∨ s'.map.entries.keys = [] := by
    have hok := hw w hold
    unfold Waiter.Ok at hok ⊢
    split at hok
    · rcases hok with hok | hok
      · exact (act_drained hs h hok).imp_left .inl
      · exact .inl (.inr hok)
    · exact .inl hok
    · exact .inl trivial
  cases h with
  | empty h =>
    rcases mem_append.1 hmem with hmem | -
    · exact hkeep hmem
    · have hlen : (0 : Int) = s.map.entries.keys.length := h ▸ hs.counted
      exact .inr (length_eq_zero_iff.1 (Int.ofNat_inj.1 hlen).symm)
  | wait h =>
    rcases mem_append.1 hmem with hmem | hmem
    · exact hkeep hmem
    · obtain rfl := mem_singleton.1 hmem
      exact .inl (.inl (InflightMap.drainChan_eq h).2.2.1)
  | wake hi hch =>
    rcases mem_or_eq_of_mem_set hmem with hmem | rfl
    · exact hkeep hmem
    · rcases hw _ (mem_of_getElem? hi) with hd | hseen
      · exact absurd hch (hs.drained _ hd).2
      · exact .inl hseen
  | expire hi =>
    rcases mem_or_eq_of_mem_set hmem with hmem | rfl
    · exact hkeep hmem
    · exact .inl trivial
  | stutter | start | commit | completeCommit | finish | close | put | flush | cancelAll => exact hkeep hmem

theorem step_waited (hs : Inv s) (hw : ∀ w ∈ s.waiters, w.Ok s.map.drained) (h : step s l = some s') :
    ∀ w ∈ s'.waiters, w.Ok s'.map.drained := by
  obtain ⟨s₁, h₁, rfl⟩ := map_eq_some_iff.1 h
  intro w' hw'
  obtain ⟨w, hmem, rfl⟩ := mem_map.1 hw'
  exact Waiter.Ok.mark ((act_waiters hs hw (act_acts h₁) hmem).imp_right fun h => by simp [h])

/-! ## The result -/

theorem run_invs (h : run step init ls = some s) :
    Inv s ∧ ∀ w ∈ s.waiters, w.Ok s.map.drained :=
  run_inv (P := fun s => Inv s ∧ ∀ w ∈ s.waiters, w.Ok s.map.drained)
    (fun hs h => ⟨step_inv hs.1 h, step_waited hs.1 hs.2 h⟩) ⟨init_inv, by simp [init]⟩ h

theorem Inv.closed_of_over (hs : Inv s) (hch : s.chans[ch]? = some (some k))
    (hover : s.reqs[k]? = some .gone ∨ s.Restarted k) : ch ∈ s.closed := by
  rcases hs.fate ch k hch with ⟨hclosed, -⟩ | ⟨p, hk⟩ | ⟨tag, entry, hget, -, hb⟩
  · exact hclosed
  · obtain hgone | ⟨t, q, hq, -⟩ := hover
    · exact absurd (hgone.symm.trans hk) (by simp)
    · exact absurd (hq.symm.trans hk) (by simp)
  · obtain hgone | ⟨t, q, hq, hstale⟩ := hover
    · exact absurd (hb.not_completed hgone) (by simp [Pc.completed])
    · exact absurd (hb.not_stale hq hget) hstale

/-- **Accounting.**  The count is the number of entries; no channel is closed twice; the channel that a Tflush made for a
request's entry is closed only after the request has completed or its tag has been restarted after its commit, and it is
closed when the request is over; `waitWithDeadline` returns nil only after the map has been empty; and whatever step comes
next, the contexts it flushes are those of requests that have not completed. -/
theorem inflight_accounting {ls : List Label} (h : run step init ls = some s) :
    s.map.count = s.map.entries.keys.length ∧
      (∀ ch, s.closed.count ch ≤ 1) ∧
      (∀ (ch : Chan) (k : Nat), s.chans[ch]? = some (some k) →
        (ch ∈ s.closed → s.Completed k ∨ s.Restarted k) ∧
          (s.reqs[k]? = some .gone ∨ s.Restarted k → s.closed.count ch = 1)) ∧
      (∀ w ∈ s.waiters, w.pc = .drained → w.empty = true) ∧
      ∀ (l : Label), ∀ p ∈ s.flushes l, ∃ (k : Nat) (pc : Pc),
        s.reqs[k]? = some pc ∧ pc.ptr = some p ∧ pc.completed = false := by
  obtain ⟨hs, hw⟩ := run_invs h
  have honce (ch : Chan) : s.closed.count ch ≤ 1 := nodup_iff_count_le_one.1 hs.once ch
  refine ⟨hs.counted, honce, fun ch k hch => ⟨fun hclosed => ?_, fun hover => ?_⟩, fun w hmem hpc => ?_,
    fun l p hp => hs.flushes hp⟩
  · rcases hs.fate ch k hch with ⟨-, hover⟩ | ⟨p, hk⟩ | ⟨tag, entry, hget, hdone, -⟩
    · exact hover
    · exact absurd hclosed (hs.closing k ch p hk).2
    · exact absurd hclosed (hs.done tag entry ch hget hdone).1
  · exact Nat.le_antisymm (honce ch) (count_pos_iff.2 (hs.closed_of_over hch hover))
  · have hok := hw w hmem
    rwa [Waiter.Ok, hpc] at hok

/-- A request is flushed, commits, and its tag is restarted before it completes; then the map drains. -/
def restartRun : List Label :=
  [.start 1 0, .flushWait 1, .commit 0, .start 1 1, .wait, .completeCommit 0, .putRequestCtx 0, .finish 1, .wake 0]

theorem inflight_accounting_restart : ∃ s, run step init restartRun = some s ∧ s.closed = [1, 0] ∧ s.map.count = 0 ∧
    (s.map.count = s.map.entries.keys.length ∧
      (∀ ch, s.closed.count ch ≤ 1) ∧
      (∀ (ch : Chan) (k : Nat), s.chans[ch]? = some (some k) →
        (ch ∈ s.closed → s.Completed k ∨ s.Restarted k) ∧
          (s.reqs[k]? = some .gone ∨ s.Restarted k → s.closed.count ch = 1)) ∧
      (∀ w ∈ s.waiters, w.pc = .drained → w.empty = true) ∧
      ∀ (l : Label), ∀ p ∈ s.flushes l, ∃ (k : Nat) (pc : Pc),
        s.reqs[k]? = some pc ∧ pc.ptr = some p ∧ pc.completed = false) :=
  ⟨_, rfl, rfl, rfl, inflight_accounting (show run step init restartRun = _ from rfl)⟩

/-! ## Waiters wake up -/

/-- The drain channel is there for a map with entries, and whoever waits for another one can go on. -/
structure Drains (s : State) : Prop where
  busy : s.map.drained ≠ none → s.map.count ≠ 0
  waits : ∀ w ∈ s.waiters, ∀ ch, w.pc = .waiting ch → ch ∈ s.closed ∨ s.map.drained = some ch

theorem Drains.removed (hd : Drains s) (tag : Tag) : Drains (s.removed k p (done, s.map.delete tag)) := by
  have hdelete := InflightMap.delete_eq s.map tag
  generalize s.map.delete tag = x at hdelete ⊢
  refine ⟨fun h => ?_, fun w hw ch hpc => ?_⟩
  · change x.2.drained ≠ none at h
    change x.2.count ≠ 0
    grind
  · have := hd.waits w hw ch hpc
    simp only [State.removed, mem_append, mem_toList]
    grind

theorem act_drains (hs : Inv s) (hd : Drains s) (h : Acts s s') : Drains s' := by
  obtain ⟨hbusy, hwaits⟩ := hd
  cases h with
  | @start tag p done im _ hstart =>
    obtain ⟨hget, hdrained, -⟩ := InflightMap.start_eq hstart
    refine ⟨fun _ h0 => ?_, fun w hw ch h => (hwaits w hw ch h).imp (mem_append_right _) hdrained.trans⟩
    simpa [hget] using (hs.counted.start hstart).get_eq_none h0 tag
  | completeCommit =>
    simp only [InflightMap.completeCommit]
    split
    · exact ⟨hbusy, hwaits⟩
    · split
      exacts [⟨hbusy, hwaits⟩, Drains.removed ⟨hbusy, hwaits⟩ _]
  | finish => exact Drains.removed ⟨hbusy, hwaits⟩ _
  | close => exact ⟨hbusy, fun w hw ch h => (hwaits w hw ch h).imp_left (mem_cons_of_mem _)⟩
  | flush h =>
    unfold InflightMap.flushWait at h
    split at h
    · cases h
    · split at h <;> cases h <;> exact ⟨hbusy, hwaits⟩
  | wait h =>
    unfold InflightMap.drainChan at h
    split at h
    · cases h
    · split at h <;> cases h <;> refine ⟨fun _ => ‹_›, ?_⟩ <;> grind
  | empty | wake | expire => exact ⟨hbusy, by grind⟩
  | stutter | commit | put | cancelAll => exact ⟨hbusy, hwaits⟩

/-- **No wake-up is lost.**  Once all requests are over, every caller of `waitWithDeadline` can return. -/
theorem drain_wakes {ls : List Label} (h : run step init ls = some s) (hover : ∀ pc ∈ s.reqs, pc.completed = true)
    (hi : s.waiters[i]? = some w) (hw : w.pc = .waiting ch) : ∃ s', step s (.wake i) = some s' := by
  obtain ⟨hs, hd⟩ : Inv s ∧ Drains s := by
    refine run_inv (P := fun s => Inv s ∧ Drains s) (fun hs hstep => ⟨step_inv hs.1 hstep, ?_⟩)
      ⟨init_inv, nofun, by simp [init]⟩ h
    obtain ⟨s₁, h₁, rfl⟩ := map_eq_some_iff.1 hstep
    obtain ⟨hbusy, hwaits⟩ := act_drains hs.1 hs.2 (act_acts h₁)
    exact ⟨hbusy, by simpa [State.mark] using hwaits⟩
  obtain ⟨pc, seen⟩ := w
  obtain rfl : pc = .waiting ch := hw
  have hclosed : ch ∈ s.closed := by
    refine (hd.waits _ (mem_of_getElem? hi) ch rfl).resolve_right fun hdrained => ?_
    -- an entry belongs to a request that is not over
    have hkeys : s.map.entries.keys ≠ [] := fun hnil => hd.busy (by simp [hdrained]) (by rw [hs.counted, hnil]; rfl)
    obtain ⟨tag, htag⟩ := exists_mem_of_ne_nil _ hkeys
    obtain ⟨entry, hget⟩ := InflightMap.mem_keys_iff.1 htag
    obtain ⟨k, hb⟩ := hs.entry tag entry hget
    obtain ⟨pc, hk, -⟩ := hb.ptr
    exact absurd (hover pc (mem_of_getElem? hk)) (by simp [hb.not_completed hk])
  simp [step, act, hi, hclosed]

theorem drain_wakes_restart : ∃ s, run step init restartRun.dropLast = some s ∧ ∃ s', step s (.wake 0) = some s' :=
  ⟨_, rfl, drain_wakes (show run step init restartRun.dropLast = _ from rfl) (by decide) rfl rfl⟩

end NineP.Server.InflightUse
