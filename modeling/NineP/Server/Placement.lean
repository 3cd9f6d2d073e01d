import NineP.Server.Passthrough

/-!
# Nodes and their places in the tree
-/

namespace NineP.Server.Passthrough

open Codec Proto Dispatch Function List Option

variable {s : State} {k p : Ptr} {name : Bytes}

/-! ## Bound nodes -/

/-- The nodes of the fids, once for every fid. -/
def State.bound (s : State) : List Ptr := s.conns.flatMap fun table => table.states.map (·.node)

section Bound

variable {c : Nat} {fid : Fid} {fs : FidState Ptr Unit} {table : FidTable Ptr Unit}

theorem bound_setConn (table' : FidTable Ptr Unit) (h : s.conns[c]? = some table) :
    ∃ rest, s.bound.Perm (table.states.map (·.node) ++ rest) ∧
      (s.setConn c table').bound.Perm (table'.states.map (·.node) ++ rest) := by
  obtain ⟨rest, h1, h2⟩ := Transition.flatMap_set_perm (fun t : FidTable Ptr Unit => t.states.map (·.node)) h
  exact ⟨rest, h1, h2 table'⟩

theorem bound_add (h : s.conns[c]? = some table)
    (hadd : table.add fid fs maxFids = .ok table') : (s.setConn c table').bound.Perm (fs.node :: s.bound) := by
  obtain ⟨rest, h1, h2⟩ := bound_setConn table' h
  have hstates : table'.states = fs :: table.states := by
    unfold FidTable.add at hadd
    split at hadd
    · cases hadd
    · split at hadd
      · cases hadd
      · rename_i hnone
        obtain rfl := Except.ok.inj hadd
        exact FidTable.states_insert_of_get_none (by simpa using hnone) fs
  rw [hstates, map_cons] at h2
  exact h2.trans (h1.symm.cons _)

theorem map_states_perm (h : table.get fid = some fs) :
    (table.states.map (·.node)).Perm (fs.node :: (FidTable.states (table.erase fid)).map (·.node)) :=
  (FidTable.states_perm h).map _

theorem bound_insert (h : s.conns[c]? = some table) (hget : table.get fid = some fs) (fs' : FidState Ptr Unit) :
    ∃ rest, s.bound.Perm (fs.node :: rest) ∧ (s.setConn c (table.insert fid fs')).bound.Perm (fs'.node :: rest) := by
  obtain ⟨rest, h1, h2⟩ := bound_setConn (table.insert fid fs') h
  refine ⟨(FidTable.states (table.erase fid)).map (·.node) ++ rest, h1.trans ?_, h2⟩
  exact (map_states_perm hget).append_right rest

theorem bound_erase (h : s.conns[c]? = some table) (hget : table.get fid = some fs) :
    s.bound.Perm (fs.node :: (s.setConn c (table.erase fid)).bound) := by
  obtain ⟨rest, h1, h2⟩ := bound_setConn (table.erase fid) h
  exact (h1.trans ((map_states_perm hget).append_right rest)).trans (h2.symm.cons _)

theorem fid?_eq_some : s.fid? c fid = some fs ↔ ∃ table, s.conns[c]? = some table ∧ table.get fid = some fs :=
  bind_eq_some_iff

theorem clunk_eq_some :
    s.conns[c]?.bind (·.clunk fid) = some (fs, table) ↔
      ∃ old, s.conns[c]? = some old ∧ old.get fid = some fs ∧ table = old.erase fid := by
  simp only [bind_eq_some_iff, FidTable.clunk, map_eq_some_iff, Prod.mk.injEq]
  constructor
  · rintro ⟨old, hc, fs', hget, rfl, rfl⟩
    exact ⟨old, hc, hget, rfl⟩
  · rintro ⟨old, hc, hget, rfl⟩
    exact ⟨old, hc, fs, hget, rfl, rfl⟩

theorem mem_bound (h : s.fid? c fid = some fs) : fs.node ∈ s.bound := by
  obtain ⟨table, hc, hget⟩ := fid?_eq_some.1 h
  exact (bound_erase hc hget).mem_iff.2 mem_cons_self

end Bound

/-! ## The tree -/

/-- Directories and files of the host have numbers below `next`. -/
structure Host.Wf (h : Host) : Prop where
  entry_lt : ∀ d name file, h.entry d name = some file → file < h.next
  up_lt : ∀ d, d < h.next → h.up d < h.next

/-- **The tree is one,** and its reference counts are those of the fids `bound`. -/
structure Core (bound : List Ptr) (s : State) : Prop where
  host : s.host.Wf
  root_lt : root < s.tree.next
  root_parent : s.tree.parent root = none
  root_entry : s.entry root = none
  bound_lt : ∀ i ∈ bound, i < s.tree.next
  child_lt : ∀ p name i, s.tree.child p name = some i → p < s.tree.next ∧ i < s.tree.next
  file_lt : ∀ i, i < s.tree.next → s.file i < s.host.next
  refs : ∀ i, s.tree.refs i = bound.count i
  parent : ∀ p name i, s.tree.child p name = some i → s.tree.parent i = some p
  inj : ∀ p name name' i, s.tree.child p name = some i → s.tree.child p name' = some i → name = name'

/-- The directory entry of a node still names its file. -/
def State.Names (s : State) (i : Ptr) : Prop :=
  ∃ d name, s.entry i = some (d, name) ∧ s.host.resolve d name = some (s.file i)

/-- **A node in its place.**  While its directory entry names its file, the node stands in the tree under this entry. -/
structure PlacedAt (s : State) (i : Ptr) : Prop where
  name : ∀ d name, s.entry i = some (d, name) → name ≠ [] ∧ name ≠ Host.dotdot
  place : ∀ d name, s.entry i = some (d, name) → s.host.resolve d name = some (s.file i) →
    ∃ p, s.tree.parent i = some p ∧ s.opened p = true ∧ s.file p = d ∧ s.tree.child p name = some i

theorem Core.perm (h : Core b s) (hp : b.Perm b') : Core b' s :=
  { h with
    bound_lt := fun i hi => h.bound_lt i (hp.mem_iff.2 hi)
    refs := fun i => by rw [h.refs i, hp.count_eq] }

theorem Core.ne_root (h : Core b s)
    (hc : s.tree.child p name = some i) : i ≠ root := by
  rintro rfl
  cases h.root_parent.symm.trans (h.parent _ _ _ hc)

section Tree

variable {j : Ptr}

/-- Only the fid tables and the log of the calls differ. -/
def State.Same (s s' : State) : Prop := s'.host = s.host ∧ s'.tree = s.tree

theorem Core.same (h : Core b s) (hs : s.Same s') : Core b s' := by
  obtain ⟨hhost, htree⟩ := hs
  cases s
  cases s'
  subst hhost htree
  exact ⟨h.1, h.2, h.3, h.4, h.5, h.6, h.7, h.8, h.9, h.10⟩

theorem PlacedAt.same (h : PlacedAt s k) (hs : s.Same s') : PlacedAt s' k := by
  obtain ⟨hhost, htree⟩ := hs
  cases s
  cases s'
  subst hhost htree
  exact ⟨h.1, h.2⟩

section NewNode

variable (hk : k ≠ s.tree.next)
include hk

theorem newNode_node : (s.newNode file entry).tree.node k = s.tree.node k := update_of_ne hk _ _

theorem newNode_file : (s.newNode file entry).file k = s.file k := congrArg Node.file (newNode_node hk)

theorem newNode_opened : (s.newNode file entry).opened k = s.opened k := congrArg Node.opened (newNode_node hk)

theorem newNode_entry : (s.newNode file entry).entry k = s.entry k := congrArg Node.entry (newNode_node hk)

end NewNode

theorem newNode_self :
    (s.newNode file entry).tree.node s.tree.next = ⟨file, true, some entry⟩ := update_self _ _ _

theorem child_of_newNode (hc : (s.newNode file entry).tree.child p name = some i) :
    p ≠ s.tree.next ∧ s.tree.child p name = some i := by
  simp only [State.newNode, Tree.child_alloc] at hc
  split at hc
  · cases hc
  · exact ⟨‹_›, hc⟩

theorem Core.newNode (h : Core b s) (hx : file < s.host.next) : Core b (s.newNode file entry) := by
  have hroot : root ≠ s.tree.next := Nat.ne_of_lt h.root_lt
  have hchild {p name i} (hc : (s.newNode file entry).tree.child p name = some i) : s.tree.child p name = some i :=
    (child_of_newNode hc).2
  constructor
  case host => exact h.host
  case root_lt => exact Nat.lt_succ_of_lt h.root_lt
  case root_parent => exact (update_of_ne hroot _ _).trans h.root_parent
  case root_entry => exact (newNode_entry hroot).trans h.root_entry
  case bound_lt => exact fun i hi => Nat.lt_succ_of_lt (h.bound_lt i hi)
  case child_lt => exact fun p name i hc => (h.child_lt p name i (hchild hc)).imp Nat.lt_succ_of_lt Nat.lt_succ_of_lt
  case file_lt =>
    intro i hi
    simp only [State.file, State.newNode, Tree.alloc, update_apply]
    split
    · exact hx
    · rename_i hne
      exact h.file_lt i (Nat.lt_of_le_of_ne (Nat.le_of_lt_succ hi) hne)
  case refs =>
    intro i
    simp only [State.newNode, Tree.alloc, update_apply]
    split
    · rename_i heq
      have hi : i ∉ b := fun hi => absurd (h.bound_lt i hi) (heq ▸ Nat.lt_irrefl _)
      rw [count_eq_zero.2 hi]
      rfl
    · exact h.refs i
  case parent =>
    intro p name i hc
    have hc := hchild hc
    exact (update_of_ne (Nat.ne_of_lt (h.child_lt p name i hc).2) _ _).trans (h.parent p name i hc)
  case inj => exact fun p name name' i hc hc' => h.inj p name name' i (hchild hc) (hchild hc')

theorem PlacedAt.newNode (h : PlacedAt s k) (hc : Core b s) (hk : k < s.tree.next) :
    PlacedAt (s.newNode file entry) k := by
  have hne : k ≠ s.tree.next := Nat.ne_of_lt hk
  refine ⟨fun d n he => h.name d n ?_, fun d n he hr => ?_⟩
  · rwa [newNode_entry hne] at he
  · rw [newNode_entry hne] at he
    rw [newNode_file hne] at hr
    obtain ⟨p, hp, hopen, hd, hchild⟩ := h.place d n he hr
    have hpne : p ≠ s.tree.next := Nat.ne_of_lt (hc.child_lt p n k hchild).1
    refine ⟨p, (update_of_ne hne _ _).trans hp, (newNode_opened hpne).trans hopen,
      (newNode_file hpne).trans hd, ?_⟩
    simp only [State.newNode, Tree.child_alloc, if_neg hpne]
    exact hchild

theorem Core.incRef (h : Core b s) (hi : i < s.tree.next) : Core (i :: b) { s with tree := s.tree.incRef i } := by
  refine ⟨h.host, h.root_lt, h.root_parent, h.root_entry, ?_, h.child_lt, h.file_lt, ?_, h.parent, h.inj⟩
  · exact forall_mem_cons.2 ⟨hi, h.bound_lt⟩
  · intro k
    simp only [Tree.incRef, update_apply, count_cons, beq_iff_eq, h.refs]
    split
    · rename_i heq
      subst heq
      simp
    · rename_i hne
      simp [Ne.symm hne]

theorem PlacedAt.incRef (h : PlacedAt s k) : PlacedAt { s with tree := s.tree.incRef i } k := ⟨h.1, h.2⟩

theorem Core.decRef (h : Core (i :: b) s) : Core b { s with tree := (s.tree.decRef pick i).2 } := by
  have hnext : (s.tree.decRef pick i).2.next = s.tree.next := Tree.decRef_next
  constructor
  case host => exact h.host
  case root_lt => exact hnext ▸ h.root_lt
  case root_parent => exact (congrFun Tree.decRef_parent root).trans h.root_parent
  case root_entry => exact (congrArg Node.entry (congrFun Tree.decRef_node root)).trans h.root_entry
  case bound_lt => exact fun k hk => hnext ▸ h.bound_lt k (mem_cons_of_mem _ hk)
  case child_lt => exact fun p name k hc => hnext ▸ h.child_lt p name k (Tree.child_of_decRef hc)
  case file_lt =>
    intro k hk
    simp only [State.file, Tree.decRef_node]
    exact h.file_lt k (hnext ▸ hk)
  case refs =>
    intro k
    have hrefs := h.refs k
    simp only [Tree.decRef_refs, update_apply]
    rw [count_cons] at hrefs
    split
    · rename_i heq
      subst heq
      rw [hrefs]
      simp
    · rename_i hne
      simpa [Ne.symm hne] using hrefs
  case parent => exact fun p name k hc => (congrFun Tree.decRef_parent k).trans (h.parent p name k (Tree.child_of_decRef hc))
  case inj =>
    exact fun p name name' k hc hc' => h.inj p name name' k (Tree.child_of_decRef hc) (Tree.child_of_decRef hc')

theorem PlacedAt.decRef (h : PlacedAt s k) (hc : Core (i :: b) s) (hk : k ∈ b) :
    PlacedAt { s with tree := (s.tree.decRef pick i).2 } k := by
  have hrefs : k = i → s.tree.refs i - 1 ≠ 0 := by
    rintro rfl
    have hpos : 0 < b.count k := count_pos_iff.2 hk
    rw [hc.refs, count_cons_self]
    omega
  refine ⟨fun d n he => h.name d n ?_, fun d n he hr => ?_⟩
  · simpa only [State.entry, Tree.decRef_node] using he
  · simp only [State.entry, State.file, Tree.decRef_node] at he hr
    obtain ⟨p, hp, hopen, hd, hchild⟩ := h.place d n he hr
    refine ⟨p, (congrFun Tree.decRef_parent k).trans hp, ?_, ?_, Tree.decRef_child hrefs hchild⟩
    · simpa only [State.opened, Tree.decRef_node] using hopen
    · simpa only [State.file, Tree.decRef_node] using hd

theorem Core.addChild (h : Core b s) (hp : p < s.tree.next) (hj : j < s.tree.next) (hroot : j ≠ root)
    (hnew : ∀ q n, s.tree.child q n ≠ some j) : Core b { s with tree := s.tree.addChild p name j } := by
  have hchild {q n k} (hc : (s.tree.addChild p name j).child q n = some k) :
      q = p ∧ n = name ∧ k = j ∨ k ≠ j ∧ s.tree.child q n = some k := by
    rw [Tree.child_addChild] at hc
    split at hc
    · rename_i heq
      exact .inl ⟨heq.1, heq.2, (Option.some.inj hc).symm⟩
    · exact .inr ⟨fun hk => hnew q n (hk ▸ hc), hc⟩
  constructor
  case host => exact h.host
  case root_lt => exact h.root_lt
  case root_parent => exact (update_of_ne (Ne.symm hroot) _ _).trans h.root_parent
  case root_entry => exact h.root_entry
  case bound_lt => exact h.bound_lt
  case child_lt =>
    intro q n k hc
    obtain ⟨rfl, -, rfl⟩ | ⟨-, hc⟩ := hchild hc
    · exact ⟨hp, hj⟩
    · exact h.child_lt q n k hc
  case file_lt => exact h.file_lt
  case refs => exact h.refs
  case parent =>
    intro q n k hc
    obtain ⟨rfl, -, rfl⟩ | ⟨hne, hc⟩ := hchild hc
    · exact update_self _ _ _
    · exact (update_of_ne hne _ _).trans (h.parent q n k hc)
  case inj =>
    intro q n n' k hc hc'
    obtain ⟨-, rfl, rfl⟩ | ⟨hne, hc⟩ := hchild hc <;> obtain ⟨-, rfl, hk⟩ | ⟨hne', hc'⟩ := hchild hc'
    · rfl
    · exact absurd rfl hne'
    · exact absurd hk hne
    · exact h.inj q n n' k hc hc'

theorem PlacedAt.addChild (h : PlacedAt s k) (hne : k ≠ j) (hname : s.tree.child p name = some k → ¬ s.Names k) :
    PlacedAt { s with tree := s.tree.addChild p name j } k := by
  refine ⟨h.name, fun d n he hr => ?_⟩
  obtain ⟨q, hq, hopen, hd, hchild⟩ := h.place d n he hr
  refine ⟨q, (update_of_ne hne _ _).trans hq, hopen, hd, ?_⟩
  show (s.tree.addChild p name j).child q n = some k
  rw [Tree.child_addChild, if_neg]
  · exact hchild
  · rintro ⟨rfl, rfl⟩
    exact hname hchild ⟨d, n, he, hr⟩

theorem PlacedAt.ofAddChild (hentry : s.entry j = some (d, name)) (hname : name ≠ [] ∧ name ≠ Host.dotdot)
    (hopen : s.opened p = true) (hd : s.file p = d) : PlacedAt { s with tree := s.tree.addChild p name j } j := by
  refine ⟨fun d' n he => ?_, fun d' n he _ => ?_⟩
  · obtain ⟨rfl, rfl⟩ := Prod.mk.inj (mem_unique hentry he)
    exact hname
  · obtain ⟨rfl, rfl⟩ := Prod.mk.inj (mem_unique hentry he)
    refine ⟨p, update_self _ _ _, hopen, hd, ?_⟩
    show (s.tree.addChild p name j).child p name = some j
    rw [Tree.child_addChild, if_pos ⟨rfl, rfl⟩]

theorem child_of_removeChild {t : Tree Node} (h : (t.removeChild p name).child q n = some k) :
    t.child q n = some k := by
  rw [Tree.child_removeChild] at h
  split at h
  · cases h
  · exact h

theorem Core.removeChild (h : Core b s) : Core b { s with tree := s.tree.removeChild p name } := by
  refine ⟨h.host, h.root_lt, h.root_parent, h.root_entry, h.bound_lt, ?_, h.file_lt, h.refs, ?_, ?_⟩
  · exact fun q n k hc => h.child_lt q n k (child_of_removeChild hc)
  · exact fun q n k hc => h.parent q n k (child_of_removeChild hc)
  · exact fun q n n' k hc hc' => h.inj q n n' k (child_of_removeChild hc) (child_of_removeChild hc')

theorem PlacedAt.removeChild (h : PlacedAt s k) (hname : s.tree.child p name = some k → ¬ s.Names k) :
    PlacedAt { s with tree := s.tree.removeChild p name } k := by
  refine ⟨h.name, fun d n he hr => ?_⟩
  obtain ⟨q, hq, hopen, hd, hchild⟩ := h.place d n he hr
  refine ⟨q, hq, hopen, hd, ?_⟩
  show (s.tree.removeChild p name).child q n = some k
  rw [Tree.child_removeChild, if_neg]
  · exact hchild
  · rintro ⟨rfl, rfl⟩
    exact hname hchild ⟨d, n, he, hr⟩

theorem Core.setNode (h : Core b s) (hfile : x.file = s.file i) (hroot : i = root → x.entry = none) :
    Core b { s with tree := s.tree.setNode i x } := by
  refine ⟨h.host, h.root_lt, h.root_parent, ?_, h.bound_lt, h.child_lt, ?_, h.refs, h.parent, h.inj⟩
  · simp only [State.entry, Tree.setNode, update_apply]
    split
    · rename_i heq
      exact hroot heq.symm
    · exact h.root_entry
  · intro k hk
    simp only [State.file, Tree.setNode, update_apply]
    split
    · rename_i heq
      rw [hfile, ← heq]
      exact h.file_lt k hk
    · exact h.file_lt k hk

end Tree

/-! ## Descriptors -/

theorem fd_of_opened (h : s.opened p = true) : s.fd env p = some (s.file p) := if_pos h

theorem inodeEntry_eq_ok : inodeEntry env s i = .ok (p, name) ↔
    s.tree.parent i = some p ∧ s.tree.nameOf env.pick p i = some name ∧ name ≠ [] := by
  unfold inodeEntry
  split
  · rename_i hp
    simp [hp]
  · rename_i q hq
    split
    · rename_i hn
      simp only [reduceCtorEq, hq, Option.some.injEq, false_iff, not_and]
      rintro rfl hn'
      cases hn.symm.trans hn'
    · rename_i hn
      simp only [reduceCtorEq, hq, Option.some.injEq, false_iff, not_and]
      rintro rfl hn'
      exact fun hne => hne (mem_unique hn' hn)
    · rename_i n hnil hn
      simp only [Except.ok.injEq, Prod.mk.injEq, hq, Option.some.injEq]
      constructor
      · rintro ⟨rfl, rfl⟩
        exact ⟨rfl, hn, hnil⟩
      · rintro ⟨rfl, hn', -⟩
        exact ⟨rfl, mem_unique hn hn'⟩

theorem close_of_opened (h : s.opened i = true) :
    s.close env i = { s with tree := s.tree.setNode i { s.tree.node i with opened := false } } := by
  rw [State.close, if_pos h]

theorem Core.close (h : Core b s) (hopen : s.opened i = true) : Core b (s.close env i) := by
  rw [close_of_opened hopen]
  refine h.setNode rfl ?_
  rintro rfl
  exact h.root_entry

theorem PlacedAt.close (h : PlacedAt s k) (hopen : s.opened i = true) (hne : ∀ n, s.tree.child i n ≠ some k) :
    PlacedAt (s.close env i) k := by
  rw [close_of_opened hopen]
  have hsame : ∀ q, q ≠ i → (s.tree.setNode i { s.tree.node i with opened := false }).node q = s.tree.node q :=
    fun q hq => update_of_ne hq _ _
  have hnode : ∀ q, ((s.tree.setNode i { s.tree.node i with opened := false }).node q).entry = s.entry q ∧
      ((s.tree.setNode i { s.tree.node i with opened := false }).node q).file = s.file q := by
    intro q
    simp only [Tree.setNode, update_apply]
    split
    · rename_i heq
      subst heq
      exact ⟨rfl, rfl⟩
    · exact ⟨rfl, rfl⟩
  refine ⟨fun d n he => h.name d n ((hnode k).1 ▸ he), fun d n he hr => ?_⟩
  have hr : s.host.resolve d n = some (s.file k) := hr.trans (congrArg some (hnode k).2)
  obtain ⟨p, hp, hopen', hd, hchild⟩ := h.place d n ((hnode k).1 ▸ he) hr
  have hpi : p ≠ i := fun heq => hne n (heq ▸ hchild)
  exact ⟨p, hp, (congrArg Node.opened (hsame p hpi)).trans hopen', (hnode p).2.trans hd, hchild⟩

/-! ## The host -/

/-- `h'` has no new names for the files of `h`, dot-dot apart. -/
def Host.Fewer (h h' : Host) : Prop :=
  ∀ d name file, file < h.next → name ≠ Host.dotdot → h'.resolve d name = some file → h.resolve d name = some file

section Host

variable {h : Host}

theorem Host.entry_set : (h.set d name x).entry d' name' = if d' = d ∧ name' = name then x else h.entry d' name' := by
  simp only [set, update_apply]
  by_cases hd : d' = d
  · subst hd
    simp [update_apply]
  · simp [hd]

theorem Host.resolve_set (hdot : name' ≠ dot) (hdd : name' ≠ dotdot) :
    (h.set d name x).resolve d' name' = if d' = d ∧ name' = name then x else h.resolve d' name' := by
  simp only [resolve, if_neg hdot, if_neg hdd, entry_set]

theorem Host.Fewer.erase : h.Fewer (h.set d name none) := by
  intro d' name' file _ hdd hr
  by_cases hdot : name' = dot
  · simpa [resolve, hdot] using hr
  · rw [resolve_set hdot hdd] at hr
    split at hr
    · cases hr
    · exact hr

theorem Host.Fewer.make : h.Fewer (h.make d name dir) := by
  intro d' name' file hlt hdd hr
  by_cases hdot : name' = dot
  · simpa [resolve, hdot] using hr
  · have hset : (h.make d name dir).resolve d' name' = (h.set d name (some h.next)).resolve d' name' := by
      simp only [resolve, if_neg hdot, if_neg hdd]
      rfl
    rw [hset, resolve_set hdot hdd] at hr
    split at hr
    · exact absurd (Option.some.inj hr) (Nat.ne_of_gt hlt)
    · exact hr

theorem Host.resolve_make (hdot : name ≠ dot) (hdd : name ≠ dotdot) :
    (h.make d name dir).resolve d name = some h.next := by
  have hset : (h.make d name dir).resolve d name = (h.set d name (some h.next)).resolve d name := by
    simp only [resolve, if_neg hdot, if_neg hdd]
    rfl
  rw [hset, resolve_set hdot hdd, if_pos ⟨rfl, rfl⟩]

theorem Host.Wf.resolve_lt (hw : h.Wf) (hd : d < h.next) (hr : h.resolve d name = some file) : file < h.next := by
  unfold resolve at hr
  split at hr
  · exact Option.some.inj hr ▸ hd
  · split at hr
    · exact Option.some.inj hr ▸ hw.up_lt d hd
    · exact hw.entry_lt d name file hr

theorem Host.Wf.set (hw : h.Wf) (hx : ∀ file, x = some file → file < h.next) : (h.set d name x).Wf := by
  refine ⟨fun d' name' file he => ?_, hw.up_lt⟩
  rw [Host.entry_set] at he
  split at he
  · exact hx file he
  · exact hw.entry_lt _ _ _ he

theorem Host.Wf.make (hw : h.Wf) (hd : d < h.next) : (h.make d name dir).Wf := by
  constructor
  · intro d' name' file he
    have he : (h.set d name (some h.next)).entry d' name' = some file := he
    rw [Host.entry_set] at he
    split at he
    · exact Option.some.inj he ▸ Nat.lt_succ_self _
    · exact Nat.lt_succ_of_lt (hw.entry_lt _ _ _ he)
  · intro d' hd'
    simp only [Host.make, update_apply]
    split
    · exact Nat.lt_succ_of_lt hd
    · rename_i hne
      exact Nat.lt_succ_of_lt (hw.up_lt d' (Nat.lt_of_le_of_ne (Nat.le_of_lt_succ hd') hne))

theorem Core.setHost (hc : Core b s) (hw : h'.Wf) (hle : s.host.next ≤ h'.next) : Core b { s with host := h' } :=
  ⟨hw, hc.root_lt, hc.root_parent, hc.root_entry, hc.bound_lt, hc.child_lt,
    fun i hi => Nat.lt_of_lt_of_le (hc.file_lt i hi) hle, hc.refs, hc.parent, hc.inj⟩

theorem PlacedAt.setHost (hp : PlacedAt s k) (hk : s.file k < s.host.next) (hf : s.host.Fewer h') :
    PlacedAt { s with host := h' } k :=
  ⟨hp.name, fun d n he hr => hp.place d n he (hf d n _ hk (hp.name d n he).2 hr)⟩

end Host

end NineP.Server.Passthrough
