import NineP.Lib.Mutex
import NineP.Proto.P9l.Codec

/-!
# What the server writes

Any number of calls of `sendResponseInline` and `writeRaw` (`server/conn.go`) on one connection, as threads.  A write
hands its bytes to the transport piece by piece and may fail after any of them; the transport may be closed at any time.
Left out: the pooled buffers and their release, the logs.
-/

namespace NineP.Server.Output

open Codec Framing Mutex Proto Transition List

/-! ## Threads -/

/-- What is to be written, on the way to `writeMu`. -/
inductive Job (M : Type)
  | inline (frame : Bytes)  -- encoded before `writeMu` is taken
  | raw (initial : Bool) (tag : Tag) (msg : M)  -- `initial`: for `negotiateVersion`, otherwise for `handleReVersion`

/-- What the caller does after `writeMu` is unlocked. -/
inductive After
  | nothing
  | signalRecvShutdown
  | close
  | serve
  deriving DecidableEq

/-- Where a thread is. -/
inductive Pc (M : Type)
  | encoding (tag : Tag) (msg : M)
  | locking (job : Job M)
  | deadline (job : Job M)  -- with `writeMu` from here
  | encodingRaw (initial : Bool) (tag : Tag) (msg : M)
  | writing (sent rest : Bytes) (done failed : After)
  | unlocking (after : After)
  | leaving (after : After)
  | returned

structure State (M : Type) where
  /-- The bytes that the transport took. -/
  out : Bytes := []
  ncClosed : Bool := false
  recvShutdown : Bool := false
  /-- `negotiateVersion` has returned without an error. -/
  serving : Bool := false
  writeMu : Option Nat := none
  threads : List (Pc M) := []
  /-- What had been written when a write first failed in the middle of a frame. -/
  tornAt : Option Bytes := none

inductive Choice (M : Type)
  | go
  | emit (n : Nat)
  | fail
  | sendError (msg : M)

inductive Label (M : Type)
  | negotiateVersion (tag : Tag) (msg : M)
  | sendResponseInline (tag : Tag) (msg : M)
  | handleReVersion (tag : Tag) (msg : M)
  | close
  | move (t : Nat) (choice : Choice M)

section Steps

variable {M : Type} [Message M]

/-- After a write that did not fail. -/
def rawDone (initial : Bool) : After := if initial then .serve else .nothing

/-- One step of thread `t`. -/
def move (s : State M) (t : Nat) : Pc M → Choice M → Option (Pc M × State M)
  | .encoding tag msg, .go =>
    match Message.encodeTo msg [] with
    | .error _ => none
    | .ok ((), body) => some (.locking (.inline (headed (Message.type msg) tag body)), s)
  -- an encode error: the environment gives what `errorMsg` makes of `EIO` in the protocol of the connection
  | .encoding tag msg, .sendError err =>
    match Message.encodeTo msg [] with
    | .error _ => some (.encoding tag err, s)
    | .ok _ => none
  | .locking job, .go => if s.writeMu.isSome then none else some (.deadline job, { s with writeMu := some t })
  | .deadline (.inline frame), .go => some (.writing [] frame .nothing .signalRecvShutdown, s)
  | .deadline (.raw initial tag msg), .go => some (.encodingRaw initial tag msg, s)
  | .deadline (.inline _), .fail => some (.unlocking .nothing, s)
  | .deadline (.raw _ _ _), .fail => some (.unlocking .close, s)
  | .encodingRaw initial tag msg, .go =>
    match Message.encodeTo msg [] with
    | .error _ => some (.unlocking .close, s)
    | .ok ((), body) => some (.writing [] (headed (Message.type msg) tag body) (rawDone initial) .close, s)
  | .writing sent rest done failed, .emit n =>
    if s.ncClosed then none
    else some (.writing (sent ++ rest.take n) (rest.drop n) done failed, { s with out := s.out ++ rest.take n })
  | .writing _ rest done _, .go => if rest = [] then some (.unlocking done, s) else none
  | .writing sent rest _ failed, .fail =>
    some (.unlocking failed, if sent ≠ [] ∧ rest ≠ [] then { s with tornAt := some (s.tornAt.getD s.out) } else s)
  | .unlocking after, .go => some (.leaving after, { s with writeMu := none })
  | .leaving .nothing, .go => some (.returned, s)
  | .leaving .signalRecvShutdown, .go => some (.returned, { s with recvShutdown := true })
  | .leaving .close, .go => some (.returned, { s with ncClosed := true })
  | .leaving .serve, .go => some (.returned, { s with serving := true })
  | .leaving .serve, .fail => some (.returned, { s with ncClosed := true })  -- no protocol: `serve` returns
  | _, _ => none

def step (s : State M) : Label M → Option (State M)
  | .negotiateVersion tag msg =>
    if s.threads.isEmpty then some { s with threads := [.locking (.raw true tag msg)] } else none
  | .sendResponseInline tag msg =>
    if s.serving then some { s with threads := s.threads ++ [.encoding tag msg] } else none
  | .handleReVersion tag msg =>
    if s.serving then some { s with threads := s.threads ++ [.locking (.raw false tag msg)] } else none
  | .close => some { s with ncClosed := true }
  | .move t choice =>
    (s.threads[t]?).bind fun pc => (move s t pc choice).map fun (pc', s') =>
      { s' with threads := s.threads.set t pc' }

/-- A connection before `serve`. -/
def init : State M := {}

end Steps

/-! ## The steps, one by one -/

section Moves

variable {M : Type} [Message M]

/-- `move` as a relation: one case for every way in which the output, `writeMu` and the transport change. -/
inductive Moves (s : State M) (t : Nat) : Pc M → Pc M → State M → Prop
  | encode {tag : Tag} {msg : M} {body : Bytes} (hbody : Message.encodeTo msg [] = .ok ((), body)) :
      Moves s t (.encoding tag msg) (.locking (.inline (headed (Message.type msg) tag body))) s
  | sendError {tag : Tag} {msg err : M} : Moves s t (.encoding tag msg) (.encoding tag err) s
  | lock {job : Job M} (hmu : s.writeMu = none) :
      Moves s t (.locking job) (.deadline job) { s with writeMu := some t }
  | begin {frame : Bytes} :
      Moves s t (.deadline (.inline frame)) (.writing [] frame .nothing .signalRecvShutdown) s
  | raw {initial : Bool} {tag : Tag} {msg : M} :
      Moves s t (.deadline (.raw initial tag msg)) (.encodingRaw initial tag msg) s
  | deadline {job : Job M} {after : After} : Moves s t (.deadline job) (.unlocking after) s
  | refuse {initial : Bool} {tag : Tag} {msg : M} : Moves s t (.encodingRaw initial tag msg) (.unlocking .close) s
  | beginRaw {initial : Bool} {tag : Tag} {msg : M} {body : Bytes} (hbody : Message.encodeTo msg [] = .ok ((), body)) :
      Moves s t (.encodingRaw initial tag msg)
        (.writing [] (headed (Message.type msg) tag body) (rawDone initial) .close) s
  | emit {sent rest : Bytes} {done failed : After} (n : Nat) (hopen : s.ncClosed = false) :
      Moves s t (.writing sent rest done failed) (.writing (sent ++ rest.take n) (rest.drop n) done failed)
        { s with out := s.out ++ rest.take n }
  | wrote {sent : Bytes} {done failed : After} : Moves s t (.writing sent [] done failed) (.unlocking done) s
  | fail {sent rest : Bytes} {done failed : After} (hwhole : sent = [] ∨ rest = []) :
      Moves s t (.writing sent rest done failed) (.unlocking failed) s
  | tear {sent rest : Bytes} {done failed : After} :
      Moves s t (.writing sent rest done failed) (.unlocking failed) { s with tornAt := some (s.tornAt.getD s.out) }
  | unlock {after : After} : Moves s t (.unlocking after) (.leaving after) { s with writeMu := none }
  | leave {after : After} {closed shutdown serving : Bool} (hclosed : s.ncClosed = true → closed = true) :
      Moves s t (.leaving after) .returned
        { s with ncClosed := closed, recvShutdown := shutdown, serving := serving }

theorem move_moves {s s' : State M} {t : Nat} {pc pc' : Pc M} {choice : Choice M}
    (h : move s t pc choice = some (pc', s')) : Moves s t pc pc' s' := by
  unfold move at h
  split at h
  case h_1 =>
    split at h
    · cases h
    · cases h
      exact .encode ‹_›
  case h_2 =>
    split at h
    · cases h
      exact .sendError
    · cases h
  case h_3 =>
    by_cases hmu : s.writeMu.isSome
    · rw [if_pos hmu] at h
      cases h
    · rw [if_neg hmu] at h
      cases h
      exact .lock (by simpa using hmu)
  case h_8 =>
    split at h
    · cases h
      exact .refuse
    · cases h
      exact .beginRaw ‹_›
  case h_9 =>
    by_cases hclosed : s.ncClosed
    · rw [if_pos hclosed] at h
      cases h
    · rw [if_neg hclosed] at h
      cases h
      exact .emit _ (by simpa using hclosed)
  case h_10 =>
    split at h
    · subst ‹_ = []›
      cases h
      exact .wrote
    · cases h
  case h_11 sent rest _ _ =>
    by_cases htorn : sent ≠ [] ∧ rest ≠ []
    · rw [if_pos htorn] at h
      cases h
      exact .tear
    · rw [if_neg htorn] at h
      cases h
      exact .fail ((Decidable.not_and_iff_not_or_not.1 htorn).imp not_not.1 not_not.1)
  case h_13 =>
    cases h
    exact .leave id
  case h_14 =>
    cases h
    exact .leave id
  case h_15 =>
    cases h
    exact .leave fun _ => rfl
  case h_16 =>
    cases h
    exact .leave id
  case h_17 =>
    cases h
    exact .leave fun _ => rfl
  case h_18 => cases h
  all_goals
    cases h
    constructor

end Moves

/-! ## The invariant -/

section Invariant

variable {M : Type} {s s' : State M} {pc pc' : Pc M}

/-- The frames of `sendResponseInline` and `writeRaw` are as long as their size words say. -/
def WellFormed (f : Bytes) : Prop := IsFrame 4294967295 f

/-- The thread has `writeMu`. -/
def Pc.Holds : Pc M → Prop
  | .deadline _ | .encodingRaw _ _ _ | .writing _ _ _ _ | .unlocking _ => True
  | _ => False

/-- What a thread is about to write. -/
def Pc.Knows : Pc M → Prop
  | .locking (.inline frame) | .deadline (.inline frame) => WellFormed frame
  | _ => True

/-- Whole frames were written, or a torn frame was the last one. -/
def Calm (s : State M) : Prop :=
  s.tornAt = none ∧ Whole WellFormed s.out ∨ s.tornAt = some s.out ∧ Framed WellFormed s.out

def Closed (s : State M) : Prop := s.tornAt = some s.out ∧ Framed WellFormed s.out ∧ s.ncClosed = true

/-- What was written while a thread at this point has `writeMu`. -/
def Pc.Written (s : State M) : Pc M → Prop
  | .deadline _ | .encodingRaw _ _ _ => s.tornAt = none ∧ Whole WellFormed s.out ∨ Closed s
  | .writing sent rest _ _ =>
    (s.tornAt = none ∧ ∃ pre, Whole WellFormed pre ∧ s.out = pre ++ sent ∧ WellFormed (sent ++ rest)) ∨ Closed s
  | _ => Calm s

structure Inv (s : State M) : Prop where
  mutex : Guards Pc.Holds (Calm s) (Pc.Written s) s.threads s.writeMu
  knows : ∀ pc ∈ s.threads, pc.Knows

theorem init_inv : Inv (init : State M) where
  mutex := guards_nil (.inl ⟨rfl, whole_nil⟩)
  knows := by simp [init]

/-- What the invariant is for. -/
def Good (s : State M) : Prop := Framed WellFormed s.out ∧ ∀ out, s.tornAt = some out → s.out = out

theorem Calm.good (h : Calm s) : Good s := by
  rcases h with ⟨htorn, hout⟩ | ⟨htorn, hout⟩
  · exact ⟨hout.framed, by simp [htorn]⟩
  · exact ⟨hout, by simp [htorn]⟩

theorem Closed.calm (h : Closed s) : Calm s := .inr ⟨h.1, h.2.1⟩

theorem Inv.good (hs : Inv s) : Good s := by
  refine hs.mutex.resource Calm.good fun pc hout => ?_
  cases pc with
  | deadline | encodingRaw =>
    rcases hout with hout | hout
    · exact Calm.good (.inl hout)
    · exact hout.calm.good
  | writing sent rest =>
    rcases hout with ⟨htorn, pre, hpre, heq, hframe⟩ | hout
    · exact ⟨heq ▸ hpre.framed_append hframe, by simp [htorn]⟩
    · exact hout.calm.good
  | _ => exact Calm.good hout

/-- What a step leaves as it was for the holder of `writeMu`, if the step is another thread's. -/
structure Later (s s' : State M) : Prop where
  out : s'.out = s.out
  tornAt : s'.tornAt = s.tornAt
  ncClosed : s.ncClosed = true → s'.ncClosed = true

theorem Calm.later (hl : Later s s') (h : Calm s) : Calm s' := by
  unfold Calm
  rwa [hl.out, hl.tornAt]

theorem Closed.later (hl : Later s s') (h : Closed s) : Closed s' := by
  unfold Closed
  rw [hl.out, hl.tornAt]
  exact ⟨h.1, h.2.1, hl.ncClosed h.2.2⟩

theorem Pc.Written.later (hl : Later s s') (pc : Pc M) (h : pc.Written s) : pc.Written s' := by
  cases pc with
  | deadline | encodingRaw | writing =>
    rcases h with h | h
    · simp only [Pc.Written]
      rw [hl.out, hl.tornAt]
      exact .inl h
    · exact .inr (h.later hl)
  | _ => exact Calm.later hl h

/-- What a step of thread `t` does with `writeMu` and the output. -/
def Uses (s s' : State M) (t : Nat) (pc pc' : Pc M) : Prop :=
  Use Pc.Holds (Calm s) (Calm s') (Pc.Written s) (Pc.Written s') s.writeMu s'.writeMu t pc pc'

theorem Later.use (hl : Later s s') (hmu : s'.writeMu = s.writeMu) (hpc : ¬ pc.Holds) (hpc' : ¬ pc'.Holds) :
    Uses s s' t pc pc' :=
  .other hpc hpc' hmu (Calm.later hl) (Pc.Written.later hl)

theorem Inv.set (hs : Inv s) (ht : s.threads[t]? = some pc) (hk : pc'.Knows) (hu : Uses s s' t pc pc') :
    Inv { s' with threads := s.threads.set t pc' } where
  mutex := hs.mutex.set ht hu
  knows := by
    intro q hq
    rcases mem_or_eq_of_mem_set hq with hq | rfl
    · exact hs.knows q hq
    · exact hk

theorem Inv.add (hs : Inv s) (hpc : ¬ pc.Holds) (hk : pc.Knows) : Inv { s with threads := s.threads ++ [pc] } where
  mutex := hs.mutex.add hpc
  knows := by
    intro q hq
    rcases mem_append.1 hq with hq | hq
    · exact hs.knows q hq
    · exact mem_singleton.1 hq ▸ hk

end Invariant

/-! ## Every run in which a torn frame is the last one -/

section Runs

variable {M : Type} [Message M] [BoundedMessage M] {s : State M} {pc' : Pc M}

/-- Whoever takes `writeMu` after a torn frame finds the transport closed. -/
def lockOk (s : State M) : Label M → Bool
  | .move t _ =>
    match s.threads[t]? with
    | some (.locking _) => s.tornAt.isNone || s.ncClosed
    | _ => true
  | _ => true

theorem headed_wellFormed {tag : Tag} {msg : M} {body : Bytes} (hbody : Message.encodeTo msg [] = .ok ((), body)) :
    WellFormed (headed (Message.type msg) tag body) :=
  headed_isFrame (length_body hbody) (UInt32.le_iff_toNat_le.2 (Nat.le_of_lt_succ (frameSize body).toNat_lt))

theorem Moves.keeps (h : Moves s t pc pc' s') (hs : Inv s) (ht : s.threads[t]? = some pc)
    (hok : ∀ job, pc = .locking job → s.tornAt = none ∨ s.ncClosed = true) : pc'.Knows ∧ Uses s s' t pc pc' := by
  have hknows := hs.knows pc (mem_of_getElem? ht)
  have hout (hpc : pc.Holds) : pc.Written s := hs.mutex.mine ht hpc
  have hsame : Later s s := ⟨rfl, rfl, id⟩
  cases h with
  | encode hbody =>
    exact ⟨headed_wellFormed hbody, hsame.use rfl (by simp [Pc.Holds]) (by simp [Pc.Holds])⟩
  | sendError => exact ⟨trivial, hsame.use rfl (by simp [Pc.Holds]) (by simp [Pc.Holds])⟩
  | @lock job hmu =>
    refine ⟨by cases job <;> exact hknows, .take (by simp [Pc.Holds]) trivial hmu rfl ?_⟩
    rcases hs.mutex.free hmu with hcalm | ⟨htorn, hframed⟩
    · exact .inl hcalm
    · rcases hok job rfl with hnone | hclosed
      · exact absurd (hnone.symm.trans htorn) (by simp)
      · exact .inr ⟨htorn, hframed, hclosed⟩
  | begin =>
    refine ⟨trivial, .keep trivial trivial rfl ?_⟩
    rcases hout trivial with ⟨htorn, hwhole⟩ | hclosed
    · exact .inl ⟨htorn, s.out, hwhole, by simp, hknows⟩
    · exact .inr hclosed
  | raw => exact ⟨trivial, .keep trivial trivial rfl (hout trivial)⟩
  | deadline | refuse =>
    refine ⟨trivial, .keep trivial trivial rfl ?_⟩
    rcases hout trivial with hcalm | hclosed
    · exact .inl hcalm
    · exact hclosed.calm
  | beginRaw hbody =>
    refine ⟨trivial, .keep trivial trivial rfl ?_⟩
    rcases hout trivial with ⟨htorn, hwhole⟩ | hclosed
    · exact .inl ⟨htorn, s.out, hwhole, by simp, headed_wellFormed hbody⟩
    · exact .inr hclosed
  | @emit sent rest _ _ n hopen =>
    refine ⟨trivial, .keep trivial trivial rfl ?_⟩
    rcases hout trivial with ⟨htorn, pre, hpre, heq, hframe⟩ | ⟨-, -, hclosed⟩
    · refine .inl ⟨htorn, pre, hpre, by simp [heq], ?_⟩
      rwa [append_assoc, take_append_drop]
    · exact absurd hclosed (by simp [hopen])
  | wrote =>
    refine ⟨trivial, .keep trivial trivial rfl ?_⟩
    rcases hout trivial with ⟨htorn, pre, hpre, heq, hframe⟩ | hclosed
    · rw [append_nil] at hframe
      exact .inl ⟨htorn, heq ▸ hpre.append hframe⟩
    · exact hclosed.calm
  | fail hwhole =>
    refine ⟨trivial, .keep trivial trivial rfl ?_⟩
    rcases hout trivial with ⟨htorn, pre, hpre, heq, hframe⟩ | hclosed
    · refine .inl ⟨htorn, ?_⟩
      rcases hwhole with rfl | rfl
      · rw [heq, append_nil]
        exact hpre
      · rw [append_nil] at hframe
        exact heq ▸ hpre.append hframe
    · exact hclosed.calm
  | tear =>
    refine ⟨trivial, .keep trivial trivial rfl ?_⟩
    rcases hout trivial with ⟨htorn, pre, hpre, heq, hframe⟩ | hclosed
    · exact .inr ⟨by simp [htorn], heq ▸ hpre.framed_append hframe⟩
    · exact .inr ⟨by simp [hclosed.1], hclosed.2.1⟩
  | unlock => exact ⟨trivial, .drop trivial (by simp [Pc.Holds]) rfl (hout trivial)⟩
  | leave hclosed =>
    exact ⟨trivial, Later.use ⟨rfl, rfl, hclosed⟩ rfl (by simp [Pc.Holds]) (by simp [Pc.Holds])⟩

theorem step_inv {l : Label M} (hs : Inv s) (hok : lockOk s l = true) (h : step s l = some s') : Inv s' := by
  cases l with
  | negotiateVersion tag msg =>
    simp only [step] at h
    split at h
    · rename_i hnil
      obtain rfl := by simpa using h
      have hadd : Inv { s with threads := s.threads ++ [.locking (.raw true tag msg)] } :=
        hs.add (by simp [Pc.Holds]) trivial
      rwa [isEmpty_iff.1 hnil] at hadd
    · cases h
  | sendResponseInline tag msg =>
    simp only [step] at h
    split at h
    · obtain rfl := by simpa using h
      exact hs.add (by simp [Pc.Holds]) trivial
    · cases h
  | handleReVersion tag msg =>
    simp only [step] at h
    split at h
    · obtain rfl := by simpa using h
      exact hs.add (by simp [Pc.Holds]) trivial
    · cases h
  | close =>
    obtain rfl := by simpa [step] using h
    have hl : Later s { s with ncClosed := true } := ⟨rfl, rfl, fun _ => rfl⟩
    exact ⟨hs.mutex.mono (Calm.later hl) (Pc.Written.later hl), hs.knows⟩
  | move t choice =>
    obtain ⟨pc, ht, h⟩ := Option.bind_eq_some_iff.1 h
    obtain ⟨⟨pc', s1⟩, hmove, rfl⟩ := Option.map_eq_some_iff.1 h
    obtain ⟨hk, hu⟩ := (move_moves hmove).keeps hs ht fun job hjob => by
      subst hjob
      simpa [lockOk, ht] using hok
    exact hs.set ht hk hu

/-- **In every run in which a writer that comes after a torn frame finds the transport closed, the output is whole frames
and at most a part of one more, and a torn frame is the last one.** -/
theorem responses_framed (ls : List (Label M)) (hok : Meets step (fun s l => lockOk s l = true) init ls)
    (h : run step init ls = some s) :
    (∃ frames : List Bytes, (∀ f ∈ frames, IsFrame 4294967295 f) ∧ s.out <+: frames.flatten) ∧
      ∀ out, s.tornAt = some out → s.out = out :=
  (run_inv_of_meets step_inv init_inv hok h).good

end Runs

/-! ## A torn frame -/

/-- The version is negotiated; then two responses are on their way, and the first one stops after seven bytes. -/
def tornEvents : List (Label P9l.Msg) :=
  [.negotiateVersion 65535 (.base (.rversion ⟨8192, [57, 80, 50, 48, 48, 48, 46, 76]⟩)), .move 0 .go, .move 0 .go,
    .move 0 .go, .move 0 (.emit 21), .move 0 .go, .move 0 .go, .move 0 .go,
    .sendResponseInline 1 (.base (.rread ⟨[1, 2, 3, 4, 5, 6, 7]⟩)), .move 1 .go, .move 1 .go, .move 1 .go,
    .sendResponseInline 2 (.base (.rread ⟨[0, 0, 0, 0]⟩)), .move 2 .go, .move 1 (.emit 7), .move 1 .fail, .move 1 .go]

/-- The transport is closed before the second writer comes to it. -/
def closedEvents : List (Label P9l.Msg) := [.close, .move 2 .go, .move 2 .go, .move 2 .fail, .move 2 .go]

theorem responses_framed_closed : ∃ s : State P9l.Msg, run step init (tornEvents ++ closedEvents) = some s ∧
    s.tornAt = some s.out ∧
    (∃ frames : List Bytes, (∀ f ∈ frames, IsFrame 4294967295 f) ∧ s.out <+: frames.flatten) ∧
      ∀ out, s.tornAt = some out → s.out = out :=
  ⟨_, rfl, rfl, responses_framed (tornEvents ++ closedEvents) (by decide) rfl⟩

theorem not_framed_zero : ¬ Framed WellFormed [0, 0, 0, 0] := by
  rintro ⟨fs, hfs, hpre⟩
  cases fs with
  | nil => simp at hpre
  | cons g gs =>
    obtain ⟨hlen, hsize⟩ := (hfs g mem_cons_self).size
    -- the first four bytes of `g` would be zero, and they are its length
    have htake : g.take 4 = [0, 0, 0, 0] := by
      rw [flatten_cons] at hpre
      have := prefix_iff_eq_take.1 hpre
      rw [this, length_cons, take_append_of_le_length (by simp; omega)]
      rfl
    rw [htake, show leNat [0, 0, 0, 0] = 0 from rfl] at hsize
    omega

/-- The seven bytes and eleven of the next response make a frame; what is left of that response begins with size 0. -/
theorem torn_frame : ∃ s : State P9l.Msg,
    run step init (tornEvents ++ [.move 2 .go, .move 2 .go, .move 2 (.emit 15)]) = some s ∧
    ¬ (∃ frames : List Bytes, (∀ f ∈ frames, IsFrame 4294967295 f) ∧ s.out <+: frames.flatten) ∧
    ∃ out, s.tornAt = some out ∧ s.out ≠ out := by
  refine ⟨_, rfl, fun h => ?_, _, rfl, by decide⟩
  have hrversion : WellFormed [21, 0, 0, 0, 101, 255, 255, 0, 32, 0, 0, 8, 0, 57, 80, 50, 48, 48, 48, 46, 76] :=
    ⟨101, 65535, [0, 32, 0, 0, 8, 0, 57, 80, 50, 48, 48, 48, 46, 76], rfl, by decide⟩
  have hrread : WellFormed [18, 0, 0, 0, 117, 1, 0, 15, 0, 0, 0, 117, 2, 0, 4, 0, 0, 0] :=
    ⟨117, 1, [15, 0, 0, 0, 117, 2, 0, 4, 0, 0, 0], rfl, by decide⟩
  have h := Framed.tail IsFrame.prefixFree hrversion (by simp) h
  exact not_framed_zero (Framed.tail IsFrame.prefixFree hrread (by simp) h)

end NineP.Server.Output
