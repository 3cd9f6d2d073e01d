import NineP.Server.Placement

/-!
# The requests that keep the nodes in their places
-/

namespace NineP.Server.Passthrough

open Codec Proto Dispatch List Function Option

/-! ## Care -/

/-- A fid was reached through the entry, and it still names the file. -/
def State.Live (s : State) (d : File) (name : Bytes) : Prop :=
  ∃ k ∈ s.bound, s.entry k = some (d, name) ∧ s.host.resolve d name = some (s.file k)

instance (s : State) (d : File) (name : Bytes) : Decidable (s.Live d name) :=
  inferInstanceAs (Decidable (∃ k ∈ s.bound, _ ∧ _))

/-- A rename is asked of the node through which the fids at the old name were reached; the new directory is open; and
the new name is not one through which another fid of the file was reached before. -/
def RenameOk (s : State) (env : Env) (i : Ptr) (old : Bytes) (q : Ptr) (new : Bytes) : Prop :=
  ∀ d ∈ s.fd env i, ∀ e ∈ s.fd env q, s.opened q = true ∧ ∀ k ∈ s.bound, s.host.resolve d old = some (s.file k) →
    (s.entry k = some (d, old) → s.tree.parent k = some i) ∧
      (s.entry k = some (e, new) → (e, new) = (d, old))

instance (s : State) (env : Env) (i : Ptr) (old : Bytes) (q : Ptr) (new : Bytes) :
    Decidable (RenameOk s env i old q new) :=
  inferInstanceAs (Decidable (∀ d ∈ s.fd env i, ∀ e ∈ s.fd env q, _ ∧ ∀ k ∈ s.bound, _ → (_ → _) ∧ (_ → _)))

/-- A fid that is let go is not the last one of a node through which other fids were reached. -/
def ReleaseOk (s : State) (fs : FidState Ptr Unit) : Prop :=
  s.tree.refs fs.node = 1 → s.opened fs.node = true ∧ ∀ k ∈ s.bound, s.tree.parent k ≠ some fs.node

instance (s : State) (fs : FidState Ptr Unit) : Decidable (ReleaseOk s fs) :=
  inferInstanceAs (Decidable (_ → _ ∧ ∀ k ∈ s.bound, _ ≠ _))

/-- **Care.**  Walks have one name at most, other than dot-dot; nothing is walked to, or opened by a create, through an
entry through which a fid was reached already; there are no links; renames and releases as above. -/
def Careful (s : State) (l : Label) : Prop :=
  match l.request with
  | .twalk fid _ names =>
    names.length ≤ 1 ∧ ∀ fs ∈ s.fid? l.conn fid, ∀ name ∈ names,
      name ≠ Host.dotdot ∧ s.opened fs.node = true ∧ ¬ s.Live (s.file fs.node) name
  | .tlcreate fid name =>
    ∀ fs ∈ s.fid? l.conn fid, s.opened fs.node = true ∧ ¬ s.Live (s.file fs.node) name
  | .tlink dirFid fid name => (handleLink l.env s l.conn dirFid fid name).1.failed = true
  | .trenameat oldDirFid oldName newDirFid newName =>
    ∀ old ∈ s.fid? l.conn oldDirFid, ∀ new ∈ s.fid? l.conn newDirFid,
      RenameOk s l.env old.node oldName new.node newName
  | .trename fid dirFid name =>
    ∀ fs ∈ s.fid? l.conn fid, ∀ dir ∈ s.fid? l.conn dirFid, ∀ found ∈ (inodeEntry l.env s fs.node).toOption,
      RenameOk s l.env found.1 found.2 dir.node name
  | .tremove fid | .tclunk fid => ∀ fs ∈ s.fid? l.conn fid, ReleaseOk s fs
  | .tattach _ | .tmkdir _ _ | .tunlinkat _ _ _ => True

instance (s : State) (l : Label) : Decidable (Careful s l) := by
  unfold Careful
  split <;> infer_instance

/-! ## The invariant -/

/-- The tree is one, and the nodes `b` are in their places. -/
structure InvOn (b : List Ptr) (s : State) : Prop where
  core : Core b s
  placed : ∀ k ∈ b, PlacedAt s k

/-- **The invariant:** the nodes of all fids are in their places. -/
abbrev Inv (s : State) : Prop := InvOn s.bound s

theorem InvOn.perm (h : InvOn b s) (hp : b.Perm b') : InvOn b' s :=
  ⟨h.core.perm hp, fun k hk => h.placed k (hp.mem_iff.2 hk)⟩

theorem InvOn.same (h : InvOn b s) (hs : s.Same s') : InvOn b s' :=
  ⟨h.core.same hs, fun k hk => (h.placed k hk).same hs⟩

section Steps

variable {s s' : State} {env : Env} {c : Nat} {fid : Fid} {fs : FidState Ptr Unit}
  {i k : Ptr} {name : Bytes}

theorem fd_lt (h : Core b s) (hi : i < s.tree.next) (hfd : s.fd env i = some d) : d < s.host.next := by
  unfold State.fd at hfd
  split at hfd
  · exact Option.some.inj hfd ▸ h.file_lt i hi
  · simpa using (filter_eq_some_iff.1 hfd).2

/-! ## Fids -/

theorem addFid_inv (h : Inv s) (hi : i < s.tree.next) (hp : PlacedAt s i)
    (hadd : addFid maxFids s c fid i = .ok s') : Inv s' := by
  unfold addFid at hadd
  split at hadd
  · cases hadd
  · rename_i table hc
    split at hadd
    · cases hadd
    · cases hadd
    · rename_i table' htable
      obtain rfl := Except.ok.inj hadd
      have hb : (s.setConn c table').bound.Perm (i :: s.bound) := bound_add hc htable
      have hinv : InvOn (i :: s.bound) { s.setConn c table' with tree := s.tree.incRef i } := by
        have hcore : Core (i :: s.bound) { s with tree := s.tree.incRef i } := h.core.incRef hi
        refine ⟨hcore.same ⟨rfl, rfl⟩, forall_mem_cons.2 ⟨?_, fun k hk => ?_⟩⟩
        · exact (PlacedAt.incRef (i := i) hp).same ⟨rfl, rfl⟩
        · exact (PlacedAt.incRef (i := i) (h.placed k hk)).same ⟨rfl, rfl⟩
      exact hinv.perm hb.symm

theorem rebound_core (h : Core (j :: rest) s) (hi : i < s.tree.next) : Core (i :: rest) (rebound env s i j) :=
  Core.decRef ((h.incRef hi).perm (List.Perm.swap _ _ _))

theorem rebound_placed (h : Core (j :: rest) s) (hi : i < s.tree.next) (hp : PlacedAt s k) (hk : k ∈ i :: rest) :
    PlacedAt (rebound env s i j) k :=
  PlacedAt.decRef (PlacedAt.incRef hp) ((h.incRef hi).perm (List.Perm.swap _ _ _)) hk

@[simp] theorem rebound_node : (rebound env s i j).tree.node = s.tree.node := Tree.decRef_node

@[simp] theorem rebound_next : (rebound env s i j).tree.next = s.tree.next := Tree.decRef_next

theorem child_of_rebound (h : (rebound env s i j).tree.child p name = some k) : s.tree.child p name = some k :=
  Tree.child_of_decRef (t := s.tree.incRef i) h

theorem tearDown_inv (h : Core (fs.node :: b) s) (hp : ∀ k ∈ b, PlacedAt s k)
    (hrel : s.tree.refs fs.node = 1 → s.opened fs.node = true ∧ ∀ k ∈ b, s.tree.parent k ≠ some fs.node) :
    InvOn b (tearDown env s fs) := by
  have hdec : InvOn b { s with tree := (s.tree.decRef env.pick fs.node).2 } :=
    ⟨h.decRef, fun k hk => (hp k hk).decRef h hk⟩
  unfold tearDown finishClunk
  dsimp only
  split
  · rename_i hlast
    have hone : s.tree.refs fs.node = 1 := by
      have := (Bool.and_eq_true_iff.1 hlast).2
      rw [Tree.decRef_fst, decide_eq_true_iff] at this
      omega
    obtain ⟨hopen, hparent⟩ := hrel hone
    have hopen' : State.opened { s with tree := (s.tree.decRef env.pick fs.node).2 } fs.node = true := by
      simpa only [State.opened, Tree.decRef_node] using hopen
    refine ⟨hdec.core.close hopen', fun k hk => (hdec.placed k hk).close hopen' fun n hchild => ?_⟩
    exact hparent k hk (h.parent _ _ _ (Tree.child_of_decRef hchild))
  · exact hdec

/-! ## Entries -/

theorem entry_of_child (hc : Core b s) (hp : PlacedAt s k) (hchild : s.tree.child i name = some k) (hn : s.Names k) :
    s.opened i = true ∧ s.entry k = some (s.file i, name) := by
  obtain ⟨d, n, he, hr⟩ := hn
  obtain ⟨p, hparent, hopen, rfl, hplace⟩ := hp.place d n he hr
  obtain rfl : p = i := Option.some.inj (hparent.symm.trans (hc.parent _ _ _ hchild))
  obtain rfl := hc.inj _ _ _ _ hplace hchild
  exact ⟨hopen, he⟩

variable {file : File}
  {op : Host → File → Bytes → Except Errno (File × Host)} {table : FidTable Ptr Unit}

theorem Host.unlink_ok {h : Host} (hok : h.unlink d name flags = .ok h') :
    name ≠ Host.dot ∧ name ≠ Host.dotdot ∧ h' = h.set d name none := by
  unfold Host.unlink at hok
  split at hok
  · cases hok
  · rename_i hbad
    split at hok
    · cases hok
    · split at hok
      · cases hok
      · split at hok
        · cases hok
        · exact ⟨fun he => hbad (.inr (.inl he)), fun he => hbad (.inr (.inr he)), (Except.ok.inj hok).symm⟩

theorem unlinkat_ok (h : unlinkat env s i name flags = .ok host) :
    ∃ d, s.fd env i = some d ∧ s.host.unlink d name flags = .ok host := by
  unfold unlinkat at h
  split at h
  · split at h
    · cases h
    · cases h
    · rename_i d _ hfd
      exact ⟨d, hfd, h⟩
  · cases h

theorem unlink_inv (h : InvOn b s) (heq : unlink env s i name flags = (r, s')) : InvOn b s' := by
  unfold unlink at heq
  split at heq
  · obtain rfl := (Prod.mk.inj heq).2
    exact h.same ⟨rfl, rfl⟩
  · rename_i host hok
    obtain rfl := (Prod.mk.inj heq).2
    obtain ⟨d, hfd, hunlink⟩ := unlinkat_ok hok
    obtain ⟨hdot, hdd, rfl⟩ := Host.unlink_ok hunlink
    have hcore : Core b { s with host := s.host.set d name none } :=
      h.core.setHost (h.core.host.set (by simp)) (Nat.le_refl _)
    have hplaced : ∀ k ∈ b, PlacedAt { s with host := s.host.set d name none } k := fun k hk =>
      (h.placed k hk).setHost (h.core.file_lt k (h.core.bound_lt k hk)) .erase
    refine InvOn.same (s := { s with host := s.host.set d name none, tree := s.tree.removeChild i name }) ?_ ⟨rfl, rfl⟩
    refine ⟨hcore.removeChild, fun k hk => (hplaced k hk).removeChild fun hchild hnames => ?_⟩
    obtain ⟨hopen, he⟩ := entry_of_child hcore (hplaced k hk) hchild hnames
    obtain ⟨d', n', he', hr⟩ := hnames
    obtain ⟨rfl, rfl⟩ := Prod.mk.inj (mem_unique he he')
    obtain rfl : s.file i = d := Option.some.inj ((fd_of_opened hopen).symm.trans hfd)
    have hr : (s.host.set (s.file i) name none).resolve (s.file i) name = some (s.file k) := hr
    rw [Host.resolve_set hdot hdd, if_pos ⟨rfl, rfl⟩] at hr
    cases hr

theorem unlink_conns (heq : unlink env s i name flags = (r, s')) : s'.conns = s.conns := by
  unfold unlink at heq
  split at heq <;> obtain rfl := (Prod.mk.inj heq).2 <;> rfl

theorem unlink_removeChild_inv (h : InvOn b s) (hok : unlink env s i name flags = (.ok (), s')) :
    InvOn b { s' with tree := s'.tree.removeChild i name } := by
  have hinv := unlink_inv h hok
  refine ⟨hinv.core.removeChild, fun k hk => (hinv.placed k hk).removeChild fun hchild => ?_⟩
  unfold unlink at hok
  split at hok
  · cases hok
  · obtain rfl := (Prod.mk.inj hok).2
    simp at hchild

/-- What `Create` and `Mkdir` of the host give: a file that is there, or a new one. -/
def Makes (op : Host → File → Bytes → Except Errno (File × Host)) : Prop :=
  ∀ {h h' : Host} {d file : File} {name : Bytes}, op h d name = .ok (file, h') →
    h' = h ∧ h.resolve d name = some file ∨ file = h.next ∧ ∃ dir, h' = h.make d name dir

theorem create_makes : Makes Host.create := by
  intro h h' d file name hok
  unfold Host.create at hok
  split at hok
  · split at hok
    · rename_i file' hr
      split at hok
      · cases hok
      · cases hok
        exact .inl ⟨rfl, hr⟩
    · cases hok
      exact .inr ⟨rfl, false, rfl⟩
  · cases hok

theorem mkdir_makes {h : Host} (hok : h.mkdir d name = .ok (file, h')) :
    file = h.next ∧ h' = h.make d name true := by
  unfold Host.mkdir at hok
  split at hok
  · split at hok
    · cases hok
    · cases hok
      exact ⟨rfl, rfl⟩
  · cases hok

theorem made_inv (h : InvOn b s) (hop : Makes op) (hd : d < s.host.next) (hok : op s.host d name = .ok (file, host)) :
    InvOn b { s with host } ∧ file < host.next := by
  have hlt : ∀ k ∈ b, s.file k < s.host.next := fun k hk => h.core.file_lt k (h.core.bound_lt k hk)
  obtain ⟨rfl, hr⟩ | ⟨rfl, dir, rfl⟩ := hop hok
  · exact ⟨h, h.core.host.resolve_lt hd hr⟩
  · refine ⟨⟨h.core.setHost (h.core.host.make hd) (Nat.le_succ _), fun k hk => ?_⟩, Nat.lt_succ_self _⟩
    exact (h.placed k hk).setHost (hlt k hk) .make

theorem set_none_inv (h : InvOn b s) : InvOn b { s with host := s.host.set d name none } :=
  ⟨h.core.setHost (h.core.host.set (by simp)) (Nat.le_refl _),
    fun k hk => (h.placed k hk).setHost (h.core.file_lt k (h.core.bound_lt k hk)) .erase⟩

theorem makeNode_cases (env : Env) (name : Bytes) (h : InvOn b s) (hi : i < s.tree.next) (hop : Makes op) :
    (∃ e s', makeNode env s op i name = (.error e, s') ∧ InvOn b s' ∧ s'.conns = s.conns) ∨
      ∃ d file host, s.fd env i = some d ∧ op s.host d name = .ok (file, host) ∧ InvOn b { s with host } ∧
        file < host.next ∧
        makeNode env s op i name = (.ok s.tree.next, State.newNode { s with host } file (d, name)) := by
  unfold makeNode
  split
  · split
    · exact .inl ⟨_, _, rfl, h, rfl⟩
    · exact .inl ⟨_, _, rfl, h, rfl⟩
    · rename_i d _ hfd
      split
      · exact .inl ⟨_, _, rfl, h, rfl⟩
      · rename_i file host hok
        obtain ⟨hinv, hfile⟩ := made_inv h hop (fd_lt h.core hi hfd) hok
        split
        · exact .inl ⟨_, _, rfl, hinv, rfl⟩
        · exact .inl ⟨_, _, rfl, set_none_inv hinv, rfl⟩
        · exact .inr ⟨d, file, host, hfd, hok, hinv, hfile, rfl⟩
  · exact .inl ⟨_, _, rfl, h, rfl⟩

/-! ## New nodes -/

theorem adopt (hc : Core b s) (hi : i < s.tree.next) (hj : j < s.tree.next) (hroot : j ≠ root)
    (hnew : ∀ q n, s.tree.child q n ≠ some j) (hp : ∀ k ∈ b, k ≠ j → PlacedAt s k)
    (hfree : ∀ k ∈ b, k ≠ j → s.opened i = true → s.entry k = some (s.file i, name) →
      s.host.resolve (s.file i) name ≠ some (s.file k)) :
    Core b { s with tree := s.tree.addChild i name j } ∧
      ∀ k ∈ b, k ≠ j → PlacedAt { s with tree := s.tree.addChild i name j } k := by
  refine ⟨hc.addChild hi hj hroot hnew, fun k hk hne => (hp k hk hne).addChild hne fun hchild hnames => ?_⟩
  obtain ⟨hopen, he⟩ := entry_of_child hc (hp k hk hne) hchild hnames
  obtain ⟨d, n, he', hr⟩ := hnames
  obtain ⟨rfl, rfl⟩ := Prod.mk.inj (mem_unique he he')
  exact hfree k hk hne hopen he hr

theorem closeUnboundNode_inv (h : InvOn b s) (hopen : s.opened i = true)
    (hchild : ∀ k ∈ b, ∀ n, s.tree.child i n ≠ some k) : InvOn b (closeUnboundNode env s i) := by
  unfold closeUnboundNode
  split
  · exact h
  · exact ⟨h.core.close hopen, fun k hk => (h.placed k hk).close hopen (hchild k hk)⟩

theorem close_conns : (s.close env i).conns = s.conns := by
  unfold State.close
  dsimp only
  split
  · rfl
  · split <;> rfl

theorem closeUnboundNode_conns : (closeUnboundNode env s i).conns = s.conns := by
  unfold closeUnboundNode
  split
  · rfl
  · exact close_conns

theorem inv_of_conns (h : InvOn s.bound s') (hc : s'.conns = s.conns) : Inv s' := by
  have hb : s'.bound = s.bound := by rw [State.bound, hc]; rfl
  unfold Inv
  rw [hb]
  exact h

theorem bindWalked_inv {start : Ptr} {nwqid : Nat} (h : Inv s) (hj : j < s.tree.next) (hp : PlacedAt s j)
    (hopen : s.opened j = true) (hchild : ∀ k ∈ s.bound, ∀ n, s.tree.child j n ≠ some k) :
    Inv (bindWalked maxFids env s c fid newFid start j nwqid).2 := by
  have hclose : Inv (closeUnboundNode env s j) :=
    inv_of_conns (closeUnboundNode_inv h hopen hchild) closeUnboundNode_conns
  unfold bindWalked
  split
  · split
    · rename_i prev table' hupdate
      obtain ⟨table, hc, hupdate⟩ := bind_eq_some_iff.1 hupdate
      obtain ⟨fs, hget, heq⟩ := map_eq_some_iff.1 hupdate
      cases heq
      obtain ⟨rest, hb, hb'⟩ := bound_insert hc hget { fs with node := j }
      have hcore : Core (fs.node :: rest) (s.setConn c (table.insert fid { fs with node := j })) :=
        (h.core.perm hb).same ⟨rfl, rfl⟩
      have hinv : InvOn (j :: rest) (rebound env (s.setConn c (table.insert fid { fs with node := j })) j fs.node) := by
        refine ⟨rebound_core hcore hj, fun k hk => rebound_placed hcore hj ?_ hk⟩
        obtain rfl | hk := mem_cons.1 hk
        · exact hp.same ⟨rfl, rfl⟩
        · exact (h.placed k (hb.mem_iff.2 (mem_cons_of_mem _ hk))).same ⟨rfl, rfl⟩
      exact hinv.perm hb'.symm
    · dsimp only
      split
      · exact hclose
      · exact h
  · split
    · dsimp only
      split
      · exact hclose
      · exact h
    · rename_i s' hadd
      exact addFid_inv h hj hp hadd

theorem lookup_ok (hname : name ≠ Host.dotdot) {k : Nat} (h : lookup env s k i name = .ok (j, s')) :
    ∃ d file, s.fd env i = some d ∧ s.host.resolve d name = some file ∧ j = s.tree.next ∧
      s' = { s.newNode file (d, name) with tree := (s.newNode file (d, name)).tree.addChild i name s.tree.next } := by
  unfold lookup at h
  rw [if_neg hname] at h
  split at h
  · cases h
  · cases h
  · rename_i d _ hfd
    split at h
    · cases h
    · rename_i file hlookup
      cases h
      unfold Host.lookup at hlookup
      split at hlookup
      · split at hlookup
        · rename_i file' hr
          obtain rfl := Except.ok.inj hlookup
          exact ⟨d, file', hfd, hr, rfl, rfl⟩
        · cases hlookup
      · cases hlookup

/-- A new node under an entry through which no fid was reached: the others stay in their places. -/
theorem grow_others (h : InvOn b s) (hi : i < s.tree.next) (hfile : file < s.host.next)
    (hfree : ∀ k ∈ b, s.opened i = true → s.entry k = some (s.file i, name) →
      s.host.resolve (s.file i) name ≠ some (s.file k)) :
    InvOn b { s.newNode file entry with tree := (s.newNode file entry).tree.addChild i name s.tree.next } := by
  have hine : i ≠ s.tree.next := Nat.ne_of_lt hi
  have hkne {k : Ptr} (hk : k ∈ b) : k ≠ s.tree.next := Nat.ne_of_lt (h.core.bound_lt k hk)
  have hcore : Core b (s.newNode file entry) := h.core.newNode hfile
  obtain ⟨hcore', hplaced⟩ := adopt hcore (Nat.lt_succ_of_lt hi) (Nat.lt_succ_self _)
    (Nat.ne_of_gt h.core.root_lt) (fun q n hq => Nat.lt_irrefl _ (h.core.child_lt _ _ _ (child_of_newNode hq).2).2)
    (fun k hk _ => (h.placed k hk).newNode h.core (h.core.bound_lt k hk))
    (fun k hk _ hopen he => by
      rw [newNode_opened hine] at hopen
      rw [newNode_entry (hkne hk), newNode_file hine] at he
      rw [newNode_file hine, newNode_file (hkne hk)]
      exact hfree k hk hopen he)
  exact ⟨hcore', fun k hk => hplaced k hk (hkne hk)⟩

theorem grow_self (hi : i < s.tree.next) (hopen : s.opened i = true) (hname : name ≠ [] ∧ name ≠ Host.dotdot) :
    PlacedAt { s.newNode file (s.file i, name) with
      tree := (s.newNode file (s.file i, name)).tree.addChild i name s.tree.next } s.tree.next :=
  have hine : i ≠ s.tree.next := Nat.ne_of_lt hi
  .ofAddChild (congrArg Node.entry newNode_self) hname ((newNode_opened hine).trans hopen) (newNode_file hine)

theorem ne_nil_of_validatePathElement (h : validatePathElement name = true) : name ≠ [] := by
  rintro rfl
  cases h

theorem validName_ne (h : validName name = true) : name ≠ [] ∧ name ≠ Host.dot ∧ name ≠ Host.dotdot := by
  refine ⟨?_, ?_, ?_⟩ <;> rintro rfl <;> cases h

/-! ## Handlers -/

theorem handleAttach_inv (h : Inv s) : Inv (handleAttach maxFids s c fid).2 := by
  unfold handleAttach
  split
  · exact h
  · rename_i s' hadd
    refine addFid_inv h h.core.root_lt ⟨fun d n he => ?_, fun d n he => ?_⟩ hadd
    all_goals cases h.core.root_entry.symm.trans he

theorem handleWalk_inv {names : List Bytes} (h : Inv s) (hlen : names.length ≤ 1)
    (hcare : ∀ fs ∈ s.fid? c fid, ∀ name ∈ names,
      name ≠ Host.dotdot ∧ s.opened fs.node = true ∧ ¬ s.Live (s.file fs.node) name) :
    Inv (handleWalk maxFids env s c fid newFid names).2 := by
  unfold handleWalk
  split
  · exact h
  · rename_i fs hfid
    have hlt := h.core.bound_lt _ (mem_bound hfid)
    split
    · split
      · exact h
      · split
        · exact h
        · rename_i s' hadd
          exact addFid_inv h hlt (h.placed _ (mem_bound hfid)) hadd
    · rename_i hne
      split
      · rename_i hvalid
        -- one name, so that the walk is one lookup
        obtain ⟨name, rfl⟩ : ∃ name, names = [name] := length_eq_one_iff.1 (by
          have := length_pos_of_ne_nil hne
          omega)
        obtain ⟨hdd, hopen, hlive⟩ := hcare fs hfid name mem_cons_self
        have hnil := ne_nil_of_validatePathElement (List.all_eq_true.1 hvalid name mem_cons_self)
        simp only [walkNames]
        by_cases hdir : s.isDir fs.node = true
        · simp only [hdir, if_true]
          cases hlookup : lookup env s 0 fs.node name with
          | error e => exact h
          | ok r =>
            obtain ⟨j, s'⟩ := r
            obtain ⟨d, file, hfd, hr, rfl, hs'⟩ := lookup_ok hdd hlookup
            obtain rfl : s.file fs.node = d := Option.some.inj ((fd_of_opened hopen).symm.trans hfd)
            have hinv : Inv s' := by
              rw [hs']
              refine inv_of_conns (grow_others h hlt ?_ fun k hk _ he hr => hlive ⟨k, hk, he, hr⟩) rfl
              exact h.core.host.resolve_lt (h.core.file_lt _ hlt) hr
            subst hs'
            simp only [ne_eq, not_true_eq_false, if_false]
            refine bindWalked_inv hinv (Nat.lt_succ_self _) (grow_self hlt hopen ⟨hnil, hdd⟩)
              (congrArg Node.opened newNode_self) fun k _ n hc => ?_
            -- the new node has no children yet
            simp only [Tree.child_addChild, Nat.ne_of_gt hlt, false_and, if_false] at hc
            exact (child_of_newNode hc).1 rfl
        · simp only [hdir]
          exact h
      · exact h

theorem created_inv (h : Inv s) (hc : s.conns[c]? = some table)
    (hget : table.get fid = some fs) (hfile : file < s.host.next) (hopen : s.opened fs.node = true)
    (hname : name ≠ [] ∧ name ≠ Host.dotdot) (hfree : ∀ k ∈ s.bound, s.entry k = some (s.file fs.node, name) →
      s.host.resolve (s.file fs.node) name ≠ some (s.file k)) (hfs : fs'.node = s.tree.next)
    (hs' : s' = (s.newNode file (s.file fs.node, name)).setConn c (table.insert fid fs')) :
    Inv { rebound env s' s.tree.next fs.node with
      tree := (rebound env s' s.tree.next fs.node).tree.addChild fs.node name s.tree.next } := by
  have hlt := h.core.bound_lt _ (mem_bound (fid?_eq_some.2 ⟨table, hc, hget⟩))
  have hine : fs.node ≠ s.tree.next := Nat.ne_of_lt hlt
  obtain ⟨rest, hb, hb'⟩ := bound_insert (s := s.newNode file (s.file fs.node, name)) hc hget fs'
  have hb : s.bound.Perm (fs.node :: rest) := hb
  rw [hfs, ← hs'] at hb'
  have hrest {k : Ptr} (hk : k ∈ s.tree.next :: rest) (hne : k ≠ s.tree.next) : k ∈ s.bound :=
    hb.mem_iff.2 (mem_cons_of_mem _ ((mem_cons.1 hk).resolve_left hne))
  have hnode : s'.tree.node = (s.newNode file (s.file fs.node, name)).tree.node := by rw [hs']; rfl
  have hnext : s'.tree.next = s.tree.next + 1 := by rw [hs']; rfl
  have hhost : s'.host = s.host := by rw [hs']; rfl
  have hjlt : s.tree.next < s'.tree.next := hnext ▸ Nat.lt_succ_self _
  have hcore : Core (fs.node :: rest) s' := by
    have hnew : Core s.bound (s.newNode file (s.file fs.node, name)) := h.core.newNode hfile
    rw [hs']
    exact (hnew.perm hb).same ⟨rfl, rfl⟩
  have hplaced {k : Ptr} (hk : k ∈ s.bound) : PlacedAt s' k := by
    rw [hs']
    exact ((h.placed k hk).newNode h.core (h.core.bound_lt k hk)).same ⟨rfl, rfl⟩
  obtain ⟨hadopt, hothers⟩ := adopt (i := fs.node) (j := s.tree.next) (rebound_core hcore hjlt)
    (by simpa [hnext] using Nat.lt_succ_of_lt hlt) (by simpa using hjlt) (Nat.ne_of_gt h.core.root_lt)
    (fun q n hq => by
      have hq := child_of_rebound hq
      rw [hs'] at hq
      exact Nat.lt_irrefl _ (h.core.child_lt _ _ _ (child_of_newNode hq).2).2)
    (fun k hk hne => rebound_placed hcore hjlt (hplaced (hrest hk hne)) hk)
    (fun k hk hne _ he hr => by
      simp only [State.entry, State.file, rebound_node, hnode, newNode_node hne, newNode_node hine] at he hr
      exact hfree k (hrest hk hne) he (hhost ▸ hr))
  refine InvOn.perm (b := s.tree.next :: rest) ⟨hadopt, fun k hk => ?_⟩ hb'.symm
  by_cases hne : k = s.tree.next
  · subst hne
    refine PlacedAt.ofAddChild (d := s.file fs.node) ?_ hname ?_ ?_
    · simp only [State.entry, rebound_node, hnode, newNode_self]
    · simp only [State.opened, rebound_node, hnode, newNode_node hine]
      exact hopen
    · simp only [State.file, rebound_node, hnode, newNode_node hine]
  · exact hothers k hk hne

theorem handleLcreate_inv (h : Inv s)
    (hcare : ∀ fs ∈ s.fid? c fid, s.opened fs.node = true ∧ ¬ s.Live (s.file fs.node) name) :
    Inv (handleLcreate env s c fid name).2 := by
  unfold handleLcreate
  split
  · exact h
  · rename_i fs hfid
    obtain ⟨hopen, hlive⟩ := hcare fs hfid
    have hlt := h.core.bound_lt _ (mem_bound hfid)
    obtain ⟨table, hc, hget⟩ := fid?_eq_some.1 hfid
    split
    · exact h
    · rename_i hstate
      split
      · rename_i hvalid
        obtain ⟨hnil, hdot, hdd⟩ := validName_ne hvalid
        unfold create
        obtain ⟨e, s', heq, hinv, hconns⟩ | ⟨d, file, host, hfd, hok, hinv, hfile, heq⟩ :=
          makeNode_cases env name h hlt create_makes
        · rw [heq]
          exact inv_of_conns hinv hconns
        · obtain rfl : s.file fs.node = d := Option.some.inj ((fd_of_opened hopen).symm.trans hfd)
          have hopened : table.updateAndOpen fid s.tree.next (some ()) = some (fs.node,
              table.insert fid { fs with node := s.tree.next, state := .opened, handle := some () }) := by
            simp only [FidTable.updateAndOpen, hget, if_neg hstate]
          have hbind : (State.newNode { s with host } file (s.file fs.node, name)).conns[c]?.bind
              (·.updateAndOpen fid s.tree.next (some ())) = some (fs.node,
                table.insert fid { fs with node := s.tree.next, state := .opened, handle := some () }) := by
            show s.conns[c]?.bind _ = _
            rw [hc]
            exact hopened
          rw [heq]
          simp only [hbind]
          refine created_inv (s := { s with host }) (inv_of_conns hinv rfl) hc hget hfile hopen ⟨hnil, hdd⟩
            (fun k hk he hr => ?_) rfl rfl
          have hk : k ∈ s.bound := hk
          obtain ⟨rfl, hfile'⟩ | ⟨rfl, dir, rfl⟩ := create_makes hok
          · exact hlive ⟨k, hk, he, hr⟩
          · -- a new file is not the file of a node that is there
            have hr : (s.host.make (s.file fs.node) name dir).resolve (s.file fs.node) name = some (s.file k) := hr
            rw [Host.resolve_make hdot hdd] at hr
            exact Nat.lt_irrefl _ (Option.some.inj hr ▸ h.core.file_lt k (h.core.bound_lt k hk))
      · exact h

theorem handleMkdir_inv (h : Inv s) : Inv (handleMkdir env s c fid name).2 := by
  unfold handleMkdir
  split
  · exact h
  · rename_i fs hfid
    have hlt := h.core.bound_lt _ (mem_bound hfid)
    split
    · rename_i hvalid
      obtain ⟨-, hdot, hdd⟩ := validName_ne hvalid
      have hmakes : Makes Host.mkdir := fun hok => .inr ⟨(mkdir_makes hok).1, true, (mkdir_makes hok).2⟩
      unfold mkdir
      obtain ⟨e, s', heq, hinv, hconns⟩ | ⟨d, file, host, hfd, hok, hinv, hfile, heq⟩ :=
        makeNode_cases env name h hlt hmakes
      · rw [heq]
        exact inv_of_conns hinv hconns
      · rw [heq]
        obtain ⟨rfl, rfl⟩ := mkdir_makes hok
        refine inv_of_conns (grow_others hinv hlt hfile fun k hk hopen he hr => ?_) rfl
        -- under the name stands a new file, which is not the file of a node that is there
        have hopen : s.opened fs.node = true := hopen
        obtain rfl : s.file fs.node = d := Option.some.inj ((fd_of_opened hopen).symm.trans hfd)
        have hr : (s.host.make (s.file fs.node) name true).resolve (s.file fs.node) name = some (s.file k) := hr
        rw [Host.resolve_make hdot hdd] at hr
        exact Nat.lt_irrefl _ (Option.some.inj hr ▸ h.core.file_lt k (h.core.bound_lt k hk))
    · exact h

theorem handleUnlinkat_inv (h : Inv s) : Inv (handleUnlinkat env s c fid name flags).2 := by
  unfold handleUnlinkat
  split
  · exact h
  · split
    · split
      · rename_i e s' heq
        exact inv_of_conns (unlink_inv h heq) (unlink_conns heq)
      · rename_i s' heq
        exact inv_of_conns (s := s) (unlink_removeChild_inv h heq) (show s'.conns = s.conns from unlink_conns heq)
    · exact h

theorem removeViaInodeTree_inv (h : InvOn b s) : InvOn b (removeViaInodeTree env s i).2 := by
  unfold removeViaInodeTree
  split
  · exact h
  · split
    · rename_i heq
      exact unlink_inv h heq
    · rename_i heq
      exact unlink_removeChild_inv h heq

/-- Only the host, the children and the log differ. -/
structure Frame (s s' : State) : Prop where
  conns : s'.conns = s.conns
  parent : s'.tree.parent = s.tree.parent
  node : s'.tree.node = s.tree.node
  refs : s'.tree.refs = s.tree.refs

theorem removeViaInodeTree_frame (env : Env) (s : State) (i : Ptr) : Frame s (removeViaInodeTree env s i).2 := by
  unfold removeViaInodeTree
  split
  · exact ⟨rfl, rfl, rfl, rfl⟩
  · rename_i p name _
    have hunlink : ∀ r s', unlink env s p name 0 = (r, s') → Frame s s' := by
      intro r s' heq
      unfold unlink at heq
      split at heq <;> obtain rfl := (Prod.mk.inj heq).2 <;> exact ⟨rfl, rfl, rfl, rfl⟩
    split
    · rename_i heq
      exact hunlink _ _ heq
    · rename_i heq
      obtain ⟨h1, h2, h3, h4⟩ := hunlink _ _ heq
      exact ⟨h1, h2, h3, h4⟩

theorem release_inv (hc : s.conns[c]? = some table) (hget : table.get fid = some fs) (hrel : ReleaseOk s fs)
    (hs' : InvOn s.bound s') (hframe : Frame (s.setConn c (table.erase fid)) s') :
    Inv (tearDown env s' fs) := by
  have hb := bound_erase hc hget
  have hrest {k : Ptr} (hk : k ∈ s'.bound) : k ∈ s.bound := by
    rw [State.bound, hframe.conns] at hk
    exact hb.mem_iff.2 (mem_cons_of_mem _ hk)
  have hb' : s.bound.Perm (fs.node :: s'.bound) := by
    rw [State.bound, State.bound, hframe.conns]
    exact hb
  have hinv : InvOn s'.bound (tearDown env s' fs) := by
    refine tearDown_inv (hs'.core.perm hb') (fun k hk => hs'.placed k (hrest hk)) fun hone => ?_
    rw [hframe.refs] at hone
    obtain ⟨hopen, hp⟩ := hrel hone
    refine ⟨(congrArg Node.opened (congrFun hframe.node _)).trans hopen, fun k hk => ?_⟩
    rw [hframe.parent]
    exact hp k (hrest hk)
  refine inv_of_conns hinv ?_
  unfold tearDown finishClunk
  dsimp only
  split
  · exact close_conns
  · rfl

theorem handleRemove_inv (h : Inv s) (hcare : ∀ fs ∈ s.fid? c fid, ReleaseOk s fs) :
    Inv (handleRemove env s c fid).2 := by
  unfold handleRemove
  split
  · exact h
  · rename_i fs table hclunk
    obtain ⟨old, hc, hget, rfl⟩ := clunk_eq_some.1 hclunk
    refine release_inv hc hget (hcare fs (fid?_eq_some.2 ⟨old, hc, hget⟩)) ?_ (removeViaInodeTree_frame _ _ _)
    exact removeViaInodeTree_inv (InvOn.same h ⟨rfl, rfl⟩)

theorem handleClunk_inv (h : Inv s) (hcare : ∀ fs ∈ s.fid? c fid, ReleaseOk s fs) :
    Inv (handleClunk env s c fid).2 := by
  unfold handleClunk
  split
  · exact h
  · rename_i fs table hclunk
    obtain ⟨old, hc, hget, rfl⟩ := clunk_eq_some.1 hclunk
    exact release_inv hc hget (hcare fs (fid?_eq_some.2 ⟨old, hc, hget⟩)) (InvOn.same h ⟨rfl, rfl⟩) ⟨rfl, rfl, rfl, rfl⟩

/-! ## Renames -/

/-- What a rename does to the host: the new name is a name of the file, and there are no other new names. -/
structure Renamed (h h' : Host) (d : File) (old : Bytes) (e : File) (new : Bytes) : Prop where
  old_ne : old ≠ Host.dotdot
  new_ne : new ≠ Host.dotdot
  file : ∃ file, h.resolve d old = some file ∧ h'.resolve e new = some file
  fewer : ∀ d' name' f, name' ≠ Host.dotdot → (d', name') ≠ (e, new) → h'.resolve d' name' = some f →
    h.resolve d' name' = some f
  wf : h.Wf → d < h.next → e < h.next → h'.Wf
  next : h'.next = h.next

theorem Host.rename_ok (hok : h.rename d old e new = .ok h') : Renamed h h' d old e new := by
  unfold Host.rename at hok
  split at hok
  · cases hok
  · rename_i hbad
    simp only [not_or] at hbad
    obtain ⟨hold, hold', hnew, hnew'⟩ := hbad
    split at hok
    · cases hok
    · rename_i file hlookup
      have hfile : h.resolve d old = some file := by
        unfold Host.lookup at hlookup
        split at hlookup
        · split at hlookup
          · rename_i hr
            exact Except.ok.inj hlookup ▸ hr
          · cases hlookup
        · cases hlookup
      split at hok
      · split at hok
        · rename_i hsame
          obtain rfl := Except.ok.inj hok
          exact ⟨hold', hnew', ⟨file, hfile, hsame⟩, fun _ _ _ _ _ hr => hr, fun hw _ _ => hw, rfl⟩
        · obtain rfl := Except.ok.inj hok
          -- dot-dot apart, the host resolves names as the one with the two entries set
          have hset {d' : File} {name' : Bytes} (hdd : name' ≠ Host.dotdot) (up : File → File) :
              Host.resolve { (h.set d old none).set e new (some file) with up := up } d' name' =
                ((h.set d old none).set e new (some file)).resolve d' name' := by
            simp only [Host.resolve, if_neg hdd]
          refine ⟨hold', hnew', ⟨file, hfile, ?_⟩, fun d' name' f hdd hne hr => ?_, fun hw hd he => ?_, rfl⟩
          · rw [hset hnew', Host.resolve_set hnew hnew', if_pos ⟨rfl, rfl⟩]
          · rw [hset hdd] at hr
            by_cases hdot : name' = Host.dot
            · simpa [Host.resolve, hdot] using hr
            · rw [Host.resolve_set hdot hdd, if_neg (fun h => hne (Prod.ext h.1 h.2)),
                Host.resolve_set hdot hdd] at hr
              split at hr
              · cases hr
              · exact hr
          · have hlt : file < h.next := hw.resolve_lt hd hfile
            have hw' : ((h.set d old none).set e new (some file)).Wf :=
              (hw.set (by simp)).set fun f hf => Option.some.inj hf ▸ hlt
            refine ⟨hw'.entry_lt, fun d' hd' => ?_⟩
            dsimp only
            split
            · simp only [update_apply]
              split
              · exact he
              · exact hw.up_lt d' hd'
            · exact hw.up_lt d' hd'
      · cases hok

theorem renameat_ok (h : renameat env s i old q new = .ok host) :
    ∃ d e, s.fd env i = some d ∧ s.fd env q = some e ∧ s.host.rename d old e new = .ok host := by
  unfold renameat at h
  split at h
  · split at h
    · cases h
    · rename_i d e _ hd he
      exact ⟨d, e, hd, he, h⟩
    · cases h
  · cases h

section Rename

/-- The node is at the old name, and its file is the one that is renamed. -/
def State.At (s : State) (d : File) (old : Bytes) (k : Ptr) : Prop :=
  s.entry k = some (d, old) ∧ s.host.resolve d old = some (s.file k)

def State.renamed (s : State) (host : Host) (d : File) (old : Bytes) (e : File) (new : Bytes) : State :=
  { s.moved (d, old) (e, new) with host }

theorem renamed_file (host : Host) : (s.renamed host d old e new).file k = s.file k := by
  simp only [State.renamed, State.moved, State.file]
  split <;> rfl

theorem renamed_opened (host : Host) : (s.renamed host d old e new).opened k = s.opened k := by
  simp only [State.renamed, State.moved, State.opened]
  split <;> rfl

theorem renamed_entry_at (h : s.At d old k) : (s.renamed host d old e new).entry k = some (e, new) :=
  congrArg Node.entry (if_pos h)

theorem renamed_entry_of_not (h : ¬ s.At d old k) : (s.renamed host d old e new).entry k = s.entry k :=
  congrArg Node.entry (if_neg h)

theorem renamed_core (h : Core b s) (hr : Renamed s.host host d old e new) (hd : d < s.host.next)
    (he : e < s.host.next) : Core b (s.renamed host d old e new) := by
  refine ⟨hr.wf h.host hd he, h.root_lt, h.root_parent, ?_, h.bound_lt, h.child_lt, fun k hk => ?_, h.refs, h.parent,
    h.inj⟩
  · rw [renamed_entry_of_not fun hat => by cases h.root_entry.symm.trans hat.1]
    exact h.root_entry
  · rw [renamed_file]
    exact hr.next ▸ h.file_lt k hk

/-- What the nodes at the old and the new name have to respect. -/
structure RenameCare (b : List Ptr) (s : State) (i : Ptr) (d : File) (old : Bytes) (q : Ptr) (e : File) (new : Bytes) :
    Prop where
  dir : s.opened i = true → s.file i = d
  opened : s.opened q = true
  newDir : s.file q = e
  parent : ∀ k ∈ b, s.At d old k → s.tree.parent k = some i
  target : ∀ k ∈ b, s.host.resolve d old = some (s.file k) → s.entry k = some (e, new) → (e, new) = (d, old)

theorem child_of_at (h : InvOn b s) (hcare : RenameCare b s i d old q e new) (hk : k ∈ b) (hat : s.At d old k) :
    s.tree.child i old = some k := by
  obtain ⟨p, hp, -, -, hchild⟩ := (h.placed k hk).place d old hat.1 hat.2
  obtain rfl := Option.some.inj (hp.symm.trans (hcare.parent k hk hat))
  exact hchild

section

variable (h : InvOn b s) (hr : Renamed s.host host d old e new) (hcare : RenameCare b s i d old q e new)
include h hr hcare

/-- A node that was not at the old name keeps its entry, and it stands neither under the old nor under the new name. -/
theorem place_of_not_at (hk : k ∈ b) (hat : ¬ s.At d old k) (he : s.entry k = some (d', n))
    (hres : host.resolve d' n = some (s.file k)) :
    ∃ p, s.tree.parent k = some p ∧ s.opened p = true ∧ s.file p = d' ∧ s.tree.child p n = some k ∧
      ¬ (p = i ∧ n = old) ∧ ¬ (p = q ∧ n = new) := by
  obtain ⟨-, hdd⟩ := (h.placed k hk).name d' n he
  have hne : (d', n) ≠ (e, new) := by
    intro heq
    cases heq
    obtain ⟨file, hfile, hfile'⟩ := hr.file
    obtain rfl : file = s.file k := mem_unique hfile' hres
    have heq' := hcare.target k hk hfile he
    exact hat ⟨heq' ▸ he, hfile⟩
  have hres := hr.fewer d' n _ hdd hne hres
  obtain ⟨p, hp, hopen, hd, hchild⟩ := (h.placed k hk).place d' n he hres
  refine ⟨p, hp, hopen, hd, hchild, ?_, ?_⟩
  · rintro ⟨rfl, rfl⟩
    obtain rfl : d' = d := hd.symm.trans (hcare.dir hopen)
    exact hat ⟨he, hres⟩
  · rintro ⟨rfl, rfl⟩
    exact hne (Prod.ext (hd.symm.trans hcare.newDir) rfl)

theorem renamed_inv_none (hd : d < s.host.next) (he : e < s.host.next) (hnone : s.tree.child i old = none) :
    InvOn b (s.renamed host d old e new) := by
  refine ⟨renamed_core h.core hr hd he, fun k hk => ?_⟩
  have hat : ¬ s.At d old k := fun hat => by cases hnone.symm.trans (child_of_at h hcare hk hat)
  refine ⟨fun d' n hen => (h.placed k hk).name d' n ?_, fun d' n hen hres => ?_⟩
  · rwa [renamed_entry_of_not hat] at hen
  · rw [renamed_entry_of_not hat] at hen
    rw [renamed_file] at hres
    obtain ⟨p, hp, hopen, hfile, hchild, -⟩ := place_of_not_at h hr hcare hk hat hen hres
    exact ⟨p, hp, (renamed_opened host).trans hopen, (renamed_file host).trans hfile, hchild⟩

theorem renamed_inv_some (hd : d < s.host.next) (he : e < s.host.next) (hq : q < s.tree.next) (hnew : new ≠ [])
    (hj : s.tree.child i old = some j) :
    InvOn b { s.renamed host d old e new with tree :=
      ((s.renamed host d old e new).tree.removeChild i old).addChild q new j } := by
  have hcore := renamed_core h.core hr hd he
  have hfile (p : Ptr) : (s.renamed host d old e new).file p = s.file p := renamed_file host
  have hopened (p : Ptr) : (s.renamed host d old e new).opened p = s.opened p := renamed_opened host
  constructor
  · refine Core.addChild (s := { s.renamed host d old e new with
      tree := (s.renamed host d old e new).tree.removeChild i old }) hcore.removeChild hq (h.core.child_lt _ _ _ hj).2
      (h.core.ne_root hj) fun p n hstand => ?_
    -- the inode stood under the old name only
    have hc : (s.tree.removeChild i old).child p n = some j := hstand
    rw [Tree.child_removeChild] at hc
    split at hc
    · cases hc
    · rename_i hne
      obtain rfl := Option.some.inj ((h.core.parent _ _ _ hc).symm.trans (h.core.parent _ _ _ hj))
      exact hne ⟨rfl, h.core.inj _ _ _ _ hc hj⟩
  · intro k hk
    by_cases hat : s.At d old k
    · obtain rfl : j = k := Option.some.inj (hj.symm.trans (child_of_at h hcare hk hat))
      have hentry : (s.renamed host d old e new).entry j = some (e, new) := renamed_entry_at hat
      exact PlacedAt.ofAddChild (s := { s.renamed host d old e new with
        tree := (s.renamed host d old e new).tree.removeChild i old }) hentry ⟨hnew, hr.new_ne⟩
        ((hopened q).trans hcare.opened) ((hfile q).trans hcare.newDir)
    · have hentry : (s.renamed host d old e new).entry k = s.entry k := renamed_entry_of_not hat
      refine ⟨fun d' n hen => (h.placed k hk).name d' n (hentry.symm.trans hen), fun d' n hen hres => ?_⟩
      obtain ⟨p, hp, hopen, hd', hchild, hold, hnew⟩ := place_of_not_at h hr hcare hk hat (hentry.symm.trans hen)
        (hres.trans (congrArg some (hfile k)))
      have hkj : k ≠ j := by
        rintro rfl
        obtain rfl := Option.some.inj (hp.symm.trans (h.core.parent _ _ _ hj))
        exact hold ⟨rfl, h.core.inj _ _ _ _ hchild hj⟩
      refine ⟨p, (update_of_ne hkj _ _).trans hp, (hopened p).trans hopen, (hfile p).trans hd', ?_⟩
      show ((s.tree.removeChild i old).addChild q new j).child p n = some k
      rw [Tree.child_addChild, if_neg hnew, Tree.child_removeChild, if_neg hold]
      exact hchild

end

theorem RenameOk.care (h : RenameOk s env i old q new) (hd : s.fd env i = some d) (he : s.fd env q = some e) :
    RenameCare s.bound s i d old q e new := by
  obtain ⟨hopen, hcare⟩ := h d hd e he
  refine ⟨fun hi => ?_, hopen, ?_, fun k hk hat => (hcare k hk hat.2).1 hat.1, fun k hk hr => (hcare k hk hr).2⟩
  · exact Option.some.inj ((fd_of_opened hi).symm.trans hd)
  · exact Option.some.inj ((fd_of_opened hopen).symm.trans he)

theorem rename_cases (env : Env) (s : State) (i : Ptr) (old : Bytes) (q : Ptr) (new : Bytes) :
    (∃ err s', rename env s i old q new = (.error err, s') ∧ s.Same s' ∧ s'.conns = s.conns) ∨
      ∃ d e host s', s.fd env i = some d ∧ s.fd env q = some e ∧ Renamed s.host host d old e new ∧
        rename env s i old q new = (.ok (), s') ∧ (s.renamed host d old e new).Same s' ∧ s'.conns = s.conns := by
  unfold rename
  split
  · exact .inl ⟨_, _, rfl, ⟨rfl, rfl⟩, rfl⟩
  · rename_i host hok
    obtain ⟨d, e, hd, he, hrename⟩ := renameat_ok hok
    rw [hd, he]
    exact .inr ⟨d, e, host, _, rfl, rfl, Host.rename_ok hrename, rfl, ⟨rfl, rfl⟩, rfl⟩

theorem handleRenameat_inv {newFid : Fid} (h : Inv s)
    (hcare : ∀ o ∈ s.fid? c fid, ∀ n ∈ s.fid? c newFid, RenameOk s env o.node old n.node new) :
    Inv (handleRenameat env s c fid old newFid new).2 := by
  unfold handleRenameat
  split
  · rename_i o n ho hn
    split
    · rename_i hvalid
      obtain ⟨hnil, -, -⟩ := validName_ne (Bool.and_eq_true_iff.1 hvalid).2
      obtain ⟨err, s', heq, hsame, hconns⟩ | ⟨d, e, host, s', hd, he, hr, heq, hsame, hconns⟩ :=
        rename_cases env s o.node old n.node new
      · rw [heq]
        exact inv_of_conns (InvOn.same h hsame) hconns
      · have hlt {x : FidState Ptr Unit} {g : Fid} (hx : s.fid? c g = some x) := h.core.bound_lt _ (mem_bound hx)
        have hcare := (hcare o ho n hn).care hd he
        have hdlt := fd_lt h.core (hlt ho) hd
        have helt := fd_lt h.core (hlt hn) he
        have hchild : s'.tree.child o.node old = s.tree.child o.node old := by
          rw [hsame.2]
          rfl
        rw [heq]
        dsimp only
        rw [hchild]
        split
        · rename_i hnone
          exact inv_of_conns (InvOn.same (renamed_inv_none h hr hcare hdlt helt hnone) hsame) hconns
        · rename_i j hj
          refine inv_of_conns (s := s) (InvOn.same (renamed_inv_some h hr hcare hdlt helt (hlt hn) hnil hj) ?_) hconns
          obtain ⟨h1, h2⟩ := hsame
          exact ⟨h1, by rw [h2]⟩
    · exact h
  · exact h

section SetEntry

theorem setEntry_file : State.file { s with tree := s.tree.setNode j { s.tree.node j with entry } } p = s.file p := by
  simp only [State.file, Tree.setNode, update_apply]
  split
  · rename_i heq
    rw [heq]
  · rfl

theorem setEntry_opened :
    State.opened { s with tree := s.tree.setNode j { s.tree.node j with entry } } p = s.opened p := by
  simp only [State.opened, Tree.setNode, update_apply]
  split
  · rename_i heq
    rw [heq]
  · rfl

theorem PlacedAt.setEntry (h : PlacedAt s k) (hne : k ≠ j) :
    PlacedAt { s with tree := s.tree.setNode j { s.tree.node j with entry } } k := by
  have hentry : State.entry { s with tree := s.tree.setNode j { s.tree.node j with entry } } k = s.entry k :=
    congrArg Node.entry (update_of_ne hne _ _)
  refine ⟨fun d n he => h.name d n (hentry ▸ he), fun d n he hr => ?_⟩
  obtain ⟨p, hp, hopen, hd, hchild⟩ := h.place d n (hentry ▸ he) (hr.trans (congrArg some setEntry_file))
  exact ⟨p, hp, setEntry_opened.trans hopen, setEntry_file.trans hd, hchild⟩

end SetEntry

theorem renamed_inv_fid (h : InvOn b s) (hr : Renamed s.host host d old e new)
    (hcare : RenameCare b s i d old q e new) (hd : d < s.host.next) (he : e < s.host.next) (hq : q < s.tree.next)
    (hnew : new ≠ []) (hj : s.tree.child i old = some j)
    (hs' : s' = { s.renamed host d old e new with tree :=
      ((s.renamed host d old e new).tree.removeChild i old).addChild q new j }) :
    InvOn b { s' with tree := s'.tree.setNode j { s'.tree.node j with entry := some (e, new) } } := by
  have hinv : InvOn b s' := hs' ▸ renamed_inv_some h hr hcare hd he hq hnew hj
  refine ⟨hinv.core.setNode rfl fun hroot => absurd hroot (h.core.ne_root hj), fun k hk => ?_⟩
  by_cases hne : k = j
  · subst hne
    have hopen : s'.opened q = true := by
      rw [hs']
      exact (renamed_opened host).trans hcare.opened
    have hfile : s'.file q = e := by
      rw [hs']
      exact (renamed_file host).trans hcare.newDir
    refine ⟨fun d' n hen => ?_, fun d' n hen _ => ?_⟩
    all_goals
      have hen : some (e, new) = some (d', n) := (congrArg Node.entry (update_self _ _ _)).symm.trans hen
      obtain ⟨rfl, rfl⟩ := Transition.some_pair hen
    · exact ⟨hnew, hr.new_ne⟩
    · refine ⟨q, ?_, setEntry_opened.trans hopen, setEntry_file.trans hfile, ?_⟩
      · rw [hs']
        exact update_self _ _ _
      · rw [hs']
        show Tree.child (((s.renamed host d old e new).tree.removeChild i old).addChild q new k) q new = some k
        rw [Tree.child_addChild, if_pos ⟨rfl, rfl⟩]
  · exact (hinv.placed k hk).setEntry hne

theorem handleRename_inv {dirFid : Fid} (h : Inv s)
    (hcare : ∀ fs ∈ s.fid? c fid, ∀ dir ∈ s.fid? c dirFid, ∀ found ∈ (inodeEntry env s fs.node).toOption,
      RenameOk s env found.1 found.2 dir.node name) :
    Inv (handleRename env s c fid dirFid name).2 := by
  unfold handleRename
  split
  · rename_i fs dir hfs hdir
    split
    · rename_i hvalid
      obtain ⟨hnil, -, hdd⟩ := validName_ne hvalid
      split
      · exact h
      · rename_i p old hfound
        obtain ⟨hparent, hname, -⟩ := inodeEntry_eq_ok.1 hfound
        have hj : s.tree.child p old = some fs.node := Tree.nameOf_eq_some.1 ⟨_, hname⟩
        obtain ⟨err, s', heq, hsame, hconns⟩ | ⟨d, e, host, s', hd, he, hr, heq, hsame, hconns⟩ :=
          rename_cases env s p old dir.node name
        · rw [heq]
          exact inv_of_conns (InvOn.same h hsame) hconns
        · have hlt := h.core.bound_lt _ (mem_bound hdir)
          have hcare := (hcare fs hfs dir hdir (p, old) (by rw [hfound]; rfl)).care hd he
          have hfd : s'.fd env dir.node = some e := by
            have hnode : s'.tree.node = (s.renamed host d old e name).tree.node := by rw [hsame.2]
            have hopen : s'.opened dir.node = true := by
              rw [State.opened, hnode]
              exact (renamed_opened host).trans hcare.opened
            rw [fd_of_opened hopen, State.file, hnode]
            exact congrArg some ((renamed_file host).trans hcare.newDir)
          rw [heq]
          dsimp only
          rw [hfd]
          refine inv_of_conns (s := s) (InvOn.same (renamed_inv_fid h hr hcare
            (fd_lt h.core (h.core.child_lt _ _ _ hj).1 hd) (fd_lt h.core hlt he) hlt hnil hj rfl) ?_) hconns
          obtain ⟨h1, h2⟩ := hsame
          exact ⟨h1, by rw [h2]; rfl⟩
    · exact h
  · exact h

end Rename

/-! ## Every request -/

theorem handleLink_failed {dirFid : Fid} (h : (handleLink env s c dirFid fid name).1.failed = true) :
    (handleLink env s c dirFid fid name).2 = s := by
  unfold handleLink at h ⊢
  cases hdir : s.fid? c dirFid with
  | none => rfl
  | some dir =>
    cases htarget : s.fid? c fid with
    | none => rfl
    | some target =>
      simp only [hdir, htarget] at h ⊢
      split
      · rename_i hvalid
        simp only [hvalid, if_true] at h
        cases hlink : link env s dir.node target.node name with
        | error e => rfl
        | ok s' =>
          rw [hlink] at h
          cases h
      · rfl

/-- **A careful request keeps the nodes of all fids in their places.** -/
theorem step_inv (h : Inv s) (hcare : Careful s l) (hstep : step maxFids s l = some s') : Inv s' := by
  cases hstep
  obtain ⟨c, request, env⟩ := l
  cases request with
  | tattach fid => exact handleAttach_inv h
  | twalk fid newFid names => exact handleWalk_inv h hcare.1 hcare.2
  | tlcreate fid name => exact handleLcreate_inv h hcare
  | tmkdir dirFid name => exact handleMkdir_inv h
  | tlink dirFid fid name =>
    have hsame : (handleLink env s c dirFid fid name).2 = s := handleLink_failed hcare
    show Inv (handleLink env s c dirFid fid name).2
    rw [hsame]
    exact h
  | tunlinkat dirFid name flags => exact handleUnlinkat_inv h
  | trenameat oldDirFid oldName newDirFid newName => exact handleRenameat_inv h hcare
  | trename fid dirFid name => exact handleRename_inv h hcare
  | tremove fid => exact handleRemove_inv h hcare
  | tclunk fid => exact handleClunk_inv h hcare

end Steps

end NineP.Server.Passthrough
