import NineP.Server.PlaceSteps

/-!
# Tremove and Trename act on the entry of the fid

They find the entry of a fid exactly if its node stands in the tree under this entry, under no other name, and was
reached through a directory that is still open.
-/

namespace NineP.Server.Passthrough

open Codec Proto Dispatch

/-! ## The entry that is found -/

/-- **The place of a node.**  It stands under the entry `name` of the directory `d`, and under no other name, and the
directory is still open. -/
def Placed (s : State) (i : Ptr) (d : File) (name : Bytes) : Prop :=
  ∃ p, s.tree.parent i = some p ∧ s.opened p = true ∧ s.file p = d ∧ name ≠ [] ∧
    ∀ n, s.tree.child p n = some i ↔ n = name

/-- The entry that is found for a node, and what the descriptor of the directory stands for. -/
def Finds (env : Env) (s : State) (i : Ptr) (d : File) (name : Bytes) : Prop :=
  ∃ p, inodeEntry env s i = .ok (p, name) ∧ s.fd env p = some d

/-- A host that refuses nothing, with no descriptor used again. -/
def Env.plain (pick : Nat) : Env := ⟨fun _ => none, fun _ => none, fun _ => none, pick⟩

/-- A place is what is found in every order of the children, whatever closed descriptors stand for. -/
theorem placed_iff : Placed s i d name ↔ ∀ env, Finds env s i d name := by
  constructor
  · rintro ⟨p, hp, hopen, hd, hne, hnames⟩ env
    refine ⟨p, inodeEntry_eq_ok.2 ⟨hp, ?_, hne⟩, hd ▸ fd_of_opened hopen⟩
    cases hn : s.tree.nameOf env.pick p i with
    | none => exact absurd ((hnames name).2 rfl) (Tree.nameOf_eq_none.1 hn name)
    | some n => rw [(hnames n).1 (Tree.nameOf_eq_some.1 ⟨_, hn⟩)]
  · intro h
    obtain ⟨p, hok, hfd⟩ := h (.plain 0)
    obtain ⟨hp, hname, hne⟩ := inodeEntry_eq_ok.1 hok
    have hopen : s.opened p = true := by
      by_contra hopen
      rw [State.fd, if_neg hopen] at hfd
      cases hfd
    have hd : s.file p = d := by
      rw [fd_of_opened hopen] at hfd
      exact Option.some.inj hfd
    refine ⟨p, hp, hopen, hd, hne, fun n => ⟨fun hn => ?_, ?_⟩⟩
    · -- some order of the children meets this name first
      obtain ⟨pick, hpick⟩ := Tree.nameOf_eq_some.2 hn
      obtain ⟨p', hok', -⟩ := h (.plain pick)
      obtain ⟨hp', hname', -⟩ := inodeEntry_eq_ok.1 hok'
      obtain rfl := Option.mem_unique hp hp'
      exact Option.mem_unique hpick hname'
    · rintro rfl
      exact Tree.nameOf_eq_some.1 ⟨_, hname⟩

/-! ## The calls -/

/-- The request makes one call, of `Unlink` or `Rename` of the directory `d` with `name`, and fails only if the call
fails. -/
def Calls (s : State) (r : Reply × State) (d : File) (name : Bytes) (target : Option (Ptr × Bytes)) : Prop :=
  ∃ failed, r.2.calls = ⟨some d, name, target, failed⟩ :: s.calls ∧ (r.1.failed = true → failed = true)

theorem unlink_calls (env : Env) (s : State) (i : Ptr) (name : Bytes) (flags : UInt32) :
    ∃ failed, (unlink env s i name flags).2.calls = ⟨s.fd env i, name, none, failed⟩ :: s.calls ∧
      (failed = true ↔ ∃ e, (unlink env s i name flags).1 = .error e) := by
  unfold unlink
  split
  · exact ⟨true, rfl, by simp⟩
  · exact ⟨false, rfl, by simp⟩

theorem rename_calls (env : Env) (s : State) (i : Ptr) (name : Bytes) (q : Ptr) (new : Bytes) :
    ∃ failed, (rename env s i name q new).2.calls = ⟨s.fd env i, name, some (q, new), failed⟩ :: s.calls ∧
      (failed = true ↔ ∃ e, (rename env s i name q new).1 = .error e) := by
  unfold rename
  split
  · exact ⟨true, rfl, by simp⟩
  · split <;> exact ⟨false, rfl, by simp⟩

theorem close_calls (s : State) (i : Ptr) : (s.close env i).calls = s.calls := by
  unfold State.close
  dsimp only
  split
  · rfl
  · split <;> rfl

theorem tearDown_calls (s : State) (fs : FidState Ptr Unit) : (tearDown env s fs).calls = s.calls := by
  unfold tearDown finishClunk
  dsimp only
  split
  · rw [close_calls]
  · rfl

theorem removeViaInodeTree_error (h : inodeEntry env s i = .error e) :
    removeViaInodeTree env s i = (.error e, s) := by
  simp only [removeViaInodeTree, h]

theorem removeViaInodeTree_calls {i p : Ptr} (h : inodeEntry env s i = .ok (p, name)) :
    ∃ failed, (removeViaInodeTree env s i).2.calls = ⟨s.fd env p, name, none, failed⟩ :: s.calls ∧
      ((Reply.of (removeViaInodeTree env s i).1).failed = true → failed = true) := by
  obtain ⟨failed, hcalls, hfailed⟩ := unlink_calls env s p name 0
  refine ⟨failed, ?_⟩
  simp only [removeViaInodeTree, h]
  split
  · rename_i e s' heq
    rw [heq] at hcalls hfailed
    exact ⟨hcalls, fun _ => hfailed.2 ⟨e, rfl⟩⟩
  · rename_i s' heq
    rw [heq] at hcalls
    exact ⟨hcalls, fun hfail => by cases hfail⟩

theorem not_calls {r : Reply × State} {target : Option (Ptr × Bytes)} (h : r.2.calls = s.calls) :
    ¬ Calls s r d name target := by
  rintro ⟨failed, hcalls, -⟩
  have := congrArg List.length (h.symm.trans hcalls)
  simp at this

theorem removes_iff_finds (hfid : s.fid? c fid = some fs) :
    Calls s (handleRemove env s c fid) d name none ↔ Finds env s fs.node d name := by
  obtain ⟨old, hc, hget⟩ := fid?_eq_some.1 hfid
  simp only [handleRemove, clunk_eq_some.2 ⟨old, hc, hget, rfl⟩]
  have hsame : inodeEntry env (s.setConn c (old.erase fid)) fs.node = inodeEntry env s fs.node := rfl
  cases hfound : inodeEntry env s fs.node with
  | error e =>
    rw [removeViaInodeTree_error (hsame.trans hfound)]
    refine iff_of_false (not_calls (tearDown_calls _ _)) ?_
    rintro ⟨p, hok, -⟩
    cases hfound.symm.trans hok
  | ok found =>
    obtain ⟨p, n⟩ := found
    obtain ⟨failed, hcalls, hfailed⟩ := removeViaInodeTree_calls (hsame.trans hfound)
    simp only [Calls, tearDown_calls, hcalls, Finds, hfound, Except.ok.injEq, Prod.mk.injEq]
    constructor
    · rintro ⟨failed', heq, -⟩
      obtain ⟨hd, rfl, -⟩ := Call.mk.inj (List.cons.inj heq).1
      exact ⟨p, ⟨rfl, rfl⟩, hd⟩
    · rintro ⟨q, ⟨rfl, rfl⟩, hd⟩
      refine ⟨failed, ?_, hfailed⟩
      rw [← hd]
      rfl

theorem renames_iff_finds (hfid : s.fid? c fid = some fs) :
    (∃ q, Calls s (handleRename env s c fid dirFid new) d name (some (q, new))) ↔
      Finds env s fs.node d name ∧ (s.fid? c dirFid).isSome = true ∧ validName new = true := by
  unfold handleRename
  rw [hfid]
  cases hdir : s.fid? c dirFid with
  | none => exact iff_of_false (fun ⟨_, h⟩ => not_calls rfl h) fun ⟨_, h, _⟩ => by cases h
  | some dir =>
    dsimp only
    by_cases hvalid : validName new = true
    · rw [if_pos hvalid]
      cases hfound : inodeEntry env s fs.node with
      | error e =>
        refine iff_of_false (fun ⟨_, h⟩ => not_calls rfl h) ?_
        rintro ⟨⟨p, hok, -⟩, -⟩
        cases hfound.symm.trans hok
      | ok found =>
        obtain ⟨p, n⟩ := found
        obtain ⟨failed, hcalls, hfailed⟩ := rename_calls env s p n dir.node new
        simp only [Finds, hfound, Except.ok.injEq, Prod.mk.injEq, Option.isSome_some, hvalid, and_true]
        have hmade : ∀ r : Reply × State, r.2.calls = ⟨s.fd env p, n, some (dir.node, new), failed⟩ :: s.calls →
            (r.1.failed = true → failed = true) →
            ((∃ q, Calls s r d name (some (q, new))) ↔ ∃ q, (p = q ∧ n = name) ∧ s.fd env q = some d) := by
          intro r hr hrf
          constructor
          · rintro ⟨q, failed', heq, -⟩
            obtain ⟨hd, rfl, -⟩ := Call.mk.inj (List.cons.inj (hr.symm.trans heq)).1
            exact ⟨p, ⟨rfl, rfl⟩, hd⟩
          · rintro ⟨q, ⟨rfl, rfl⟩, hd⟩
            exact ⟨dir.node, failed, by rw [hr, hd], hrf⟩
        split
        · rename_i e s' heq
          rw [heq] at hcalls hfailed
          exact hmade (.error e, s') hcalls fun _ => hfailed.2 ⟨e, rfl⟩
        · rename_i s' heq
          rw [heq] at hcalls
          exact hmade _ hcalls fun h => by cases h
    · rw [if_neg hvalid]
      exact iff_of_false (fun ⟨_, h⟩ => not_calls rfl h) fun ⟨_, _, h⟩ => hvalid h

/-! ## Every run -/

theorem init_inv {host : Host} (hw : host.Wf) (hdir : dir < host.next) (conns : Nat) :
    Inv (init host dir conns) := by
  have hbound : (init host dir conns).bound = [] := by
    simp only [State.bound, init, List.flatMap_eq_nil_iff, List.mem_replicate]
    rintro table ⟨-, rfl⟩
    rfl
  unfold Inv
  rw [hbound]
  have hchild : ∀ p name, (init host dir conns).tree.child p name = none := fun p name => AList.lookup_empty _
  refine ⟨⟨hw, Nat.zero_lt_one, rfl, rfl, by simp, ?_, fun _ _ => hdir, fun _ => rfl, ?_, ?_⟩, by simp⟩
  all_goals
    intro p name
    simp [hchild]

theorem placed_of_inv {s : State} (h : Inv s) (hi : i ∈ s.bound)
    (hentry : s.entry i = some (d, name)) (hnames : s.host.resolve d name = some (s.file i)) : Placed s i d name := by
  obtain ⟨p, hp, hopen, hd, hchild⟩ := (h.placed i hi).place d name hentry hnames
  refine ⟨p, hp, hopen, hd, ((h.placed i hi).name d name hentry).1, fun n => ⟨fun hn => ?_, ?_⟩⟩
  · exact h.core.inj p n name i hn hchild
  · rintro rfl
    exact hchild

/-- **Tremove and Trename act on the entry of the fid.**  A fid whose entry still names its file is removed by one
`Unlink` of the directory with the name, and renamed by one `Rename`, exactly if its node is in its place (and the
Trename names a directory fid and a valid name).  It is if the run was careful. -/
theorem by_fid (maxFids : Int) {host : Host} (hw : host.Wf) (dir : File) (hdir : dir < host.next) (conns : Nat)
    (ls : List Label) {s : State} (hrun : Transition.run (step maxFids) (init host dir conns) ls = some s) (c : Nat)
    (fid : Fid) {fs : FidState Ptr Unit} (hfid : s.fid? c fid = some fs) {d : File} {name : Bytes}
    (hentry : s.entry fs.node = some (d, name)) (hnames : s.host.resolve d name = some (s.file fs.node)) :
    ((∀ env, Calls s (handleRemove env s c fid) d name none) ↔ Placed s fs.node d name) ∧
    (∀ dirFid new, (∀ env, ∃ q, Calls s (handleRename env s c fid dirFid new) d name (some (q, new))) ↔
      Placed s fs.node d name ∧ (s.fid? c dirFid).isSome = true ∧ validName new = true) ∧
    (Transition.Meets (step maxFids) Careful (init host dir conns) ls → Placed s fs.node d name) := by
  refine ⟨?_, fun dirFid new => ?_, fun hcare => ?_⟩
  · rw [placed_iff]
    exact forall_congr' fun env => removes_iff_finds hfid
  · simp only [renames_iff_finds hfid, placed_iff]
    constructor
    · exact fun h => ⟨fun env => (h env).1, (h (.plain 0)).2⟩
    · exact fun h env => ⟨h.1 env, h.2⟩
  · have hinv := Transition.run_inv_of_meets (fun hs hl hstep => step_inv hs hl hstep) (init_inv hw hdir conns) hcare hrun
    exact placed_of_inv hinv (mem_bound hfid) hentry hnames

/-- "a", "b", "d" -/
def nameA : Bytes := [97]
def nameB : Bytes := [98]
def nameD : Bytes := [100]

/-- A directory 0 with a file 1 under "a" and a directory 2 under "d", which has a file 3 under "b". -/
def smallHost : Host where
  entry d name :=
    if d = 0 ∧ name = nameA then some 1
    else if d = 0 ∧ name = nameD then some 2
    else if d = 2 ∧ name = nameB then some 3
    else none
  up _ := 0
  isDir d := d = 0 ∨ d = 2
  next := 4

theorem smallHost_wf : smallHost.Wf := by
  refine ⟨fun d name file h => ?_, fun _ _ => show 0 < 4 by decide⟩
  simp only [smallHost] at h
  split_ifs at h <;> cases h <;> decide

def request (r : Request) : Label := ⟨0, r, .plain 0⟩

/-- Walks and a rename, one step at a time. -/
def carefulRun : List Label :=
  [request (.tattach 0), request (.twalk 0 1 [nameD]), request (.twalk 1 2 [nameB]), request (.trename 2 0 nameB),
    request (.tclunk 1)]

/-- The fid that was renamed is removed from where it is now. -/
theorem by_fid_renamed : ∃ s fs, Transition.run (step 0) (init smallHost 0 1) carefulRun = some s ∧
    s.fid? 0 2 = some fs ∧ s.entry fs.node = some (0, nameB) ∧ s.host.resolve 0 nameB = some (s.file fs.node) ∧
    ∀ env, Calls s (handleRemove env s 0 2) 0 nameB none :=
  have hcare : Transition.Meets (step 0) Careful (init smallHost 0 1) carefulRun := by decide
  ⟨_, _, rfl, rfl, rfl, rfl,
    have h := by_fid 0 smallHost_wf 0 (by decide) 1 carefulRun rfl 0 2 rfl rfl rfl
    h.1.2 (h.2.2 hcare)⟩

/-- Two fids walked to the same name. -/
def walkedTwice : List Label :=
  [request (.tattach 0), request (.twalk 0 1 [nameA]), request (.twalk 0 2 [nameA])]

/-- A hard link of a fid in another directory. -/
def linked : List Label :=
  [request (.tattach 0), request (.twalk 0 1 [nameA]), request (.twalk 0 2 [nameD]), request (.tlink 2 1 nameA)]

def walkedDeep : List Label := [request (.tattach 0), request (.twalk 0 1 [nameD, nameB])]

/-- **Another entry, or none.**  In each run fid 1 has an entry that names its file.  After the second walk Tremove and
Trename fail without a call; after the link the link is removed; after the walk of two names the descriptor of the
directory is closed. -/
theorem by_fid_astray :
    (∃ s fs, Transition.run (step 0) (init smallHost 0 1) walkedTwice = some s ∧ s.fid? 0 1 = some fs ∧
      s.entry fs.node = some (0, nameA) ∧ s.host.resolve 0 nameA = some (s.file fs.node) ∧ s.calls = [] ∧
      (handleRemove (.plain 0) s 0 1).1 = .error EINVAL ∧ (handleRemove (.plain 0) s 0 1).2.calls = [] ∧
      (handleRename (.plain 0) s 0 1 0 nameB).1 = .error EINVAL ∧
      (handleRename (.plain 0) s 0 1 0 nameB).2.calls = []) ∧
    (∃ s fs, Transition.run (step 0) (init smallHost 0 1) linked = some s ∧ s.fid? 0 1 = some fs ∧
      s.entry fs.node = some (0, nameA) ∧ s.host.resolve 0 nameA = some (s.file fs.node) ∧ s.calls = [] ∧
      (handleRemove (.plain 0) s 0 1).1 = .done ∧
      (handleRemove (.plain 0) s 0 1).2.calls = [⟨some 2, nameA, none, false⟩]) ∧
    ∃ s fs, Transition.run (step 0) (init smallHost 0 1) walkedDeep = some s ∧ s.fid? 0 1 = some fs ∧
      s.entry fs.node = some (2, nameB) ∧ s.host.resolve 2 nameB = some (s.file fs.node) ∧ s.calls = [] ∧
      (handleRemove (.plain 0) s 0 1).1 = .error EBADF ∧
      (handleRemove (.plain 0) s 0 1).2.calls = [⟨none, nameB, none, true⟩] :=
  ⟨⟨_, _, rfl, rfl, rfl, rfl, rfl, rfl, rfl, rfl, rfl⟩, ⟨_, _, rfl, rfl, rfl, rfl, rfl, rfl, rfl⟩,
    _, _, rfl, rfl, rfl, rfl, rfl, rfl, rfl⟩

end NineP.Server.Passthrough
