import NineP.Server.XattrWrite

/-!
# The commit of an extended attribute

What every run of `Twrite` handlers and a `Tclunk` handler on one xattr-write fid leaves behind.
-/

namespace NineP.Server.Handlers

open Codec Proto Program Transition List Option

variable {ν : Type}

/-! ## A handler answers once -/

section Answers

variable {cfg : Config ν} {conn : Nat} {fid : Fid} {s s' : State ν} {tr : Trace ν} {t : Nat} {th th' : Thread ν}

/-- The records of the answers are those of threads that have come to their ends. -/
structure Answers (s : State ν) (tr : Trace ν) : Prop where
  nodup : tr.granted.Nodup
  ended : ∀ t ∈ tr.granted, ∃ th, s.threads[t]? = some th ∧ th.granted = true

theorem Answers.move (h : Answers s tr) {c : Cmd ν} {k : c.Res → Op ν Answer} (ht : s.threads[t]? = some th)
    (hop : th.op = .cmd c k) (hthreads : s'.threads = s.threads.set t th')
    (calls : List (Nat × Option ν × Method ν)) :
    Answers s' { tr with calls, granted := tr.granted ++ s'.grants t } := by
  have hnot : t ∉ tr.granted := by
    intro hmem
    obtain ⟨th₁, ht₁, hgranted⟩ := h.ended t hmem
    obtain rfl := mem_unique ht ht₁
    rw [Thread.granted, hop] at hgranted
    cases hgranted
  constructor
  · refine nodup_append.2 ⟨h.nodup, ?_, ?_⟩
    · obtain hnil | hone := grants_cases s' t
      · simp [hnil]
      · simp [hone]
    · rintro a ha b hb rfl
      obtain hnil | hone := grants_cases s' t
      · simp [hnil] at hb
      · rw [hone, mem_singleton] at hb
        exact hnot (hb ▸ ha)
  · intro u hu
    obtain hu | hu := mem_append.1 hu
    · have hne : t ≠ u := fun heq => hnot (heq ▸ hu)
      rw [hthreads, getElem?_set_ne hne]
      exact h.ended u hu
    · unfold State.grants at hu
      split at hu
      · rename_i hany
        obtain rfl := mem_singleton.1 hu
        simpa only [Option.any_eq_true] using hany
      · cases hu

variable [DecidableEq ν] {y y' : State ν × Trace ν} {l : Label ν}

theorem answers_step (h : Answers y.1 y.2) (hon : onFid conn fid y l = true) (hstep : traced cfg y l = some y') :
    Answers y'.1 y'.2 := by
  obtain ⟨s, tr⟩ := y
  obtain ⟨s', hs, rfl⟩ := map_eq_some_iff.1 hstep
  cases l with
  | request c req =>
    cases hs
    refine ⟨h.nodup, fun t ht => ?_⟩
    obtain ⟨th, hth, hgranted⟩ := h.ended t ht
    exact ⟨th, getElem?_concat_left hth _, hgranted⟩
  | go t =>
    obtain ⟨th, c, k, ht, hop, ⟨n, m, -, -, rfl⟩ | ⟨x, s₁, -, hthreads, rfl⟩⟩ := go_cases hs
    · exact h.move ht hop rfl _
    · have hset : (s₁.setThread t (th.next c k x)).threads = s.threads.set t (th.next c k x) := by
        rw [State.setThread, hthreads]
      exact h.move ht hop hset _
  | finish t v =>
    obtain ⟨th, n, m, k, x, ht, hop, -, -, hthreads⟩ := finish_cases hs
    exact h.move ht hop hthreads tr.calls
  | _ => cases hon

theorem granted_step (hstep : traced cfg y l = some y') : y.2.granted <+: y'.2.granted := by
  obtain ⟨s', -, rfl⟩ := map_eq_some_iff.1 hstep
  cases l with
  | go t | finish t v => exact prefix_append _ _
  | _ => exact prefix_refl _

theorem granted_run {y₀ : State ν × Trace ν} {ls ls' : List (Label ν)} (hls : ls <+: ls')
    (h : run (traced cfg) y₀ ls = some y) (h' : run (traced cfg) y₀ ls' = some y') : y.2.granted <+: y'.2.granted := by
  obtain ⟨rest, rfl⟩ := hls
  obtain ⟨y₁, hy₁, hrest⟩ := run_append.1 h'
  obtain rfl := mem_unique h hy₁
  exact run_inv (P := fun y' => y.2.granted <+: y'.2.granted) (fun h hstep => h.trans (granted_step hstep))
    (prefix_refl _) hrest

end Answers

section Runs

variable [DecidableEq ν] {conn : Nat} {fid : Fid} {r : Nat} {s₀ s : State ν} {tr : Trace ν} {x : Xattr ν}
  {ls : List (Label ν)}

/-! ## The simple interfaces -/

/-- **The commit is exact.**  The buffer never has more than the declared size; `SetXattr` is called at most once, with the
payloads of the `Twrite`s that were answered with `Rwrite`, each of them once and in the order of the answers, which have
the declared size.  Any other `Twrite` is answered with an error. -/
theorem commit_exact (cfg : Config ν) (hcreated : Created s₀ conn fid r x) (hw : x.writer = false)
    (hon : Meets (traced cfg) (fun y l => onFid conn fid y l = true) (s₀, {}) ls)
    (hrun : run (traced cfg) (s₀, {}) ls = some (s, tr)) :
    (∃ o x', s.objs[r]? = some o ∧ o.xattr = some x' ∧ x'.data.length ≤ x.size.toNat) ∧
      tr.commits.length ≤ 1 ∧
      (∀ c ∈ tr.commits, c.2 = (some x.node, .setXattr x.name tr.written x.flags) ∧ tr.written.length = x.size.toNat) ∧
      tr.granted.Nodup ∧
      (∀ ls₁ y₁, ls₁ <+: ls → run (traced cfg) (s₀, {}) ls₁ = some y₁ → y₁.2.granted <+: tr.granted) ∧
      ∀ (t : Nat) th m a, s.threads[t]? = some th → tr.reqs[t]? = some (.write m) → th.op = .pure a →
        (a = .ok () ↔ t ∈ tr.granted) := by
  obtain ⟨ph, data, h⟩ := writeInv_run hcreated hon (by simp [hw]) hrun
  have hanswers : Answers s tr := run_inv_of_meets (P := fun y => Answers y.1 y.2)
    (fun h hl hstep => answers_step h hl hstep) ⟨nodup_nil, by simp⟩ hon hrun
  have hdata : data = tr.written := by simpa [hw] using h.payload
  refine ⟨?_, h.once, ?_, hanswers.nodup, fun ls₁ y₁ hls hrun₁ => granted_run hls hrun₁ hrun, ?_⟩
  · obtain ⟨o, ho, hbuf⟩ := h.obj
    exact ⟨o, _, ho, hbuf.xattr, h.fits⟩
  · intro c hc
    obtain ⟨hcall, hlen⟩ := h.committed c hc
    rw [← hdata]
    exact ⟨by rw [hcall, commitCall, if_neg (by simp [hw])], hlen hw⟩
  · intro t th m a ht hreq hop
    obtain ⟨-, p, hp, hok⟩ := h.writes t th m ht hreq
    rw [hop] at hp
    cases p with
    | answered a' =>
      cases hp
      exact hok.1
    | get =>
      rw [WritePt.op, handleWrite_eq] at hp
      cases hp
    | _ => cases hp

/-- The state after a `Txattrcreate` on a fresh server. -/
def xattrFid (conn : Nat) (fid : Fid) (x : Xattr ν) : State ν :=
  { objs := [{ Obj.new (conn, fid) x.node .xattrWrite with xattr := some x }] }

omit [DecidableEq ν] in
theorem xattrFid_created (hempty : x.data = []) : Created (xattrFid conn fid x) conn fid 0 x where
  threads := rfl
  obj := ⟨_, rfl, rfl, rfl, rfl, rfl⟩
  empty := hempty
  unique := by
    intro i o hi _
    have hlt := getElem?_lt hi
    simpa [xattrFid] using hlt

/-- Two `Twrite`s; the second one finds the fid before the `Tclunk` removes it, and is done before that takes the buffer. -/
def racingWrites : List (Label Nat) :=
  [.request 0 (.write ⟨1, 0, [5, 6]⟩), .go 0, .request 0 (.write ⟨1, 0, [7]⟩), .go 1, .request 0 (.clunk ⟨1⟩), .go 2, .go 1,
    .go 0, .go 2, .go 2, .go 2, .go 2, .finish 2 (.ok .unit)]

def racingEnd : State Nat × Trace Nat :=
  (run (traced plainConfig) (xattrFid 0 1 ⟨0, [97], 3, 0, [], false⟩, {}) racingWrites).get (by decide +kernel)

theorem commit_exact_racing :
    racingEnd.2.commits.length = 1 ∧ racingEnd.2.written = [7, 5, 6] ∧
      ∀ c ∈ racingEnd.2.commits, c.2 = (some 0, .setXattr [97] racingEnd.2.written 0) ∧ racingEnd.2.written.length = 3 := by
  have hrun : run (traced plainConfig) (xattrFid 0 1 ⟨0, [97], 3, 0, [], false⟩, {}) racingWrites = some racingEnd :=
    (some_get _).symm
  exact ⟨by decide, by decide,
    (commit_exact plainConfig (xattrFid_created rfl) rfl (by decide) hrun).2.2.1⟩

/-! ## Xattr writers -/

/-- The writer is used as its contract says. -/
structure Lifecycle (s : State ν) (tr : Trace ν) : Prop where
  /-- `Commit` is called at most once. -/
  once : tr.commits.length ≤ 1
  /-- No `Write` is started after it. -/
  before : tr.calls.Pairwise fun c d => c.2.2.commits = true → d.2.2.writes = false
  /-- No `Write` is still running. -/
  quiet : tr.commits ≠ [] → ∀ th ∈ s.threads, ¬(th.writing = true ∧ th.calling = true)
  /-- What was answered with `Rwrite` was passed to `Write`. -/
  passed : ∀ (t : Nat) th m, s.threads[t]? = some th → tr.reqs[t]? = some (.write m) → th.op = .pure (.ok ()) →
    (t, none, .writeXattr m.data) ∈ tr.calls

/-- **The writer is used as its contract says**, if no handler of a write is on its way to it when the handler of the
clunk marks the fid. -/
theorem writer_lifecycle (cfg : Config ν) (hcreated : Created s₀ conn fid r x) (hw : x.writer = true)
    (hon : Meets (traced cfg) (fun y l => onFid conn fid y l = true) (s₀, {}) ls)
    (hsettled : Meets (traced cfg) (fun y l => settled y l = true) (s₀, {}) ls)
    (hrun : run (traced cfg) (s₀, {}) ls = some (s, tr)) : Lifecycle s tr := by
  obtain ⟨ph, data, h⟩ := writeInv_run hcreated hon (fun _ => hsettled) hrun
  refine ⟨h.once, h.ordered, ?_, ?_⟩
  · rintro hcommits th hth ⟨hwriting, -⟩
    have htaken : ph = .taken := by
      by_contra hne
      exact hcommits (h.early hne)
    exact any_eq_false.1 (h.idle (.inr htaken)) th hth hwriting
  · intro t th m ht hreq hop
    obtain ⟨-, p, hp, hok⟩ := h.writes t th m ht hreq
    rw [hop] at hp
    cases p with
    | answered a' =>
      cases hp
      exact hok.2 hw rfl
    | get =>
      rw [WritePt.op, handleWrite_eq] at hp
      cases hp
    | _ => cases hp

/-- The second `Twrite` reaches the writer and returns before the `Tclunk` takes the fid. -/
def settledWrites : List (Label Nat) :=
  [.request 0 (.write ⟨1, 0, [5, 6]⟩), .go 0, .go 0, .request 0 (.clunk ⟨1⟩), .go 1, .go 0, .finish 0 (.ok .unit), .go 1,
    .go 1, .go 1, .go 1, .finish 1 (.ok .unit)]

def settledEnd : State Nat × Trace Nat :=
  (run (traced plainConfig) (xattrFid 0 1 ⟨0, [97], 2, 0, [], true⟩, {}) settledWrites).get (by decide +kernel)

theorem writer_lifecycle_settled :
    settledEnd.2.calls.map (fun c => (c.1, c.2.2.commits)) = [(0, false), (1, true)] ∧ 0 ∈ settledEnd.2.granted ∧
      Lifecycle settledEnd.1 settledEnd.2 := by
  have hrun : run (traced plainConfig) (xattrFid 0 1 ⟨0, [97], 2, 0, [], true⟩, {}) settledWrites = some settledEnd :=
    (some_get _).symm
  exact ⟨by decide, by decide,
    writer_lifecycle plainConfig (xattrFid_created rfl) rfl (by decide) (by decide) hrun⟩

/-- A `Twrite` passes the check, the `Tclunk` marks the fid and commits, and then the write is handed to the writer. -/
def lateWrite : List (Label Nat) :=
  [.request 0 (.write ⟨1, 0, [5, 6]⟩), .go 0, .go 0, .request 0 (.clunk ⟨1⟩), .go 1, .go 1, .go 1, .go 1, .go 1,
    .finish 1 (.ok .unit), .go 0, .finish 0 (.ok .unit)]

def lateEnd : State Nat × Trace Nat :=
  (run (traced plainConfig) (xattrFid 0 1 ⟨0, [97], 2, 0, [], true⟩, {}) lateWrite).get (by decide +kernel)

/-- **A write after the commit**, answered with `Rwrite`. -/
theorem write_after_commit :
    let s₀ := xattrFid 0 1 (⟨0, [97], 2, 0, [], true⟩ : Xattr Nat)
    Created s₀ 0 1 0 ⟨0, [97], 2, 0, [], true⟩ ∧
      Meets (traced plainConfig) (fun y l => onFid 0 1 y l = true) (s₀, {}) lateWrite ∧
      run (traced plainConfig) (s₀, {}) lateWrite = some lateEnd ∧
      lateEnd.2.calls.map (fun c => (c.1, c.2.2.commits)) = [(1, true), (0, false)] ∧ 0 ∈ lateEnd.2.granted ∧
      ¬Lifecycle lateEnd.1 lateEnd.2 := by
  intro s₀
  refine ⟨xattrFid_created rfl, by decide, (some_get _).symm, by decide, by decide, ?_⟩
  intro h
  exact absurd h.before (by decide)

end Runs

end NineP.Server.Handlers
