import Mathlib.Data.List.AList
import NineP.Proto.Wire

/-!
# The inode tree

`Inode` of `server/inode.go`: the tree of parents and children that the server keeps beside the nodes.  An inode is
known by its pointer, and the fields of the inodes are functions of it.  Every method runs under the mutex of its inode.
-/

namespace NineP.Server

open Codec Proto List Function

/-- A pointer to an inode. -/
abbrev Ptr := Nat

/-- The inodes over nodes `ν`. -/
structure Tree (ν : Type) where
  /-- The node that embeds the inode. -/
  node : Ptr → ν
  parent : Ptr → Option Ptr
  children : Ptr → AList fun _ : Bytes => Ptr
  refs : Ptr → Int
  prunable : Ptr → Bool
  /-- The pointer of the next inode. -/
  next : Ptr

namespace Tree

variable {ν : Type} (t : Tree ν)

def child (p : Ptr) (name : Bytes) : Option Ptr := (t.children p).lookup name

/-- A new node, and `Init`. -/
def alloc (x : ν) (prunable : Bool) : Tree ν where
  node := Function.update t.node t.next x
  parent := Function.update t.parent t.next none
  children := Function.update t.children t.next ∅
  refs := Function.update t.refs t.next 0
  prunable := Function.update t.prunable t.next prunable
  next := t.next + 1

def setNode (i : Ptr) (x : ν) : Tree ν := { t with node := Function.update t.node i x }

/-- Assignment to a key of a map: nothing changes if it has the value. -/
def put (m : AList fun _ : Bytes => Ptr) (name : Bytes) (i : Ptr) : AList fun _ : Bytes => Ptr :=
  if m.lookup name = some i then m else m.insert name i

def addChild (p : Ptr) (name : Bytes) (i : Ptr) : Tree ν :=
  { t with
    parent := Function.update t.parent i (some p)
    children := Function.update t.children p (put (t.children p) name i) }

def tryAddChild (p : Ptr) (name : Bytes) (i : Ptr) : Option (Tree ν) :=
  if (t.child p name).isSome then none else some (t.addChild p name i)

def removeChild (p : Ptr) (name : Bytes) : Tree ν :=
  { t with children := Function.update t.children p ((t.children p).erase name) }

/-- `RemoveChildIf`: the check is given the node of the child and the number of its children. -/
def removeChildIf (p : Ptr) (name : Bytes) (check : ν → Nat → Except Errno Unit) : Except Errno (Tree ν) :=
  match t.child p name with
  | none => .error ENOENT
  | some i =>
    match check (t.node i) (t.children i).entries.length with
    | .error e => .error e
    | .ok () =>
      let t := t.removeChild p name
      .ok { t with parent := Function.update t.parent i none }

def names (p i : Ptr) : List Bytes := ((t.children p).entries.filter (·.2 = i)).map (·.1)

/-- The name that a loop over the children finds, which may meet them in any order. -/
def nameOf (pick : Nat) (p i : Ptr) : Option Bytes := (t.names p i)[pick % (t.names p i).length]?

def incRef (i : Ptr) : Tree ν := { t with refs := Function.update t.refs i (t.refs i + 1) }

/-- The part of `decRef` after the last reference. -/
def prune (pick : Nat) (i : Ptr) : Tree ν :=
  if t.prunable i then
    match t.parent i with
    | none => t
    | some p =>
      match t.nameOf pick p i with
      | none => t
      | some name => t.removeChild p name
  else t

/-- `decRef`: also tells whether that was the last reference. -/
def decRef (pick : Nat) (i : Ptr) : Bool × Tree ν :=
  let t := { t with refs := Function.update t.refs i (t.refs i - 1) }
  if t.refs i = 0 then (true, t.prune pick i) else (false, t)

/-! ## What stands under a name -/

theorem lookup_put (m : AList fun _ : Bytes => Ptr) (name : Bytes) (i : Ptr) (n : Bytes) :
    (put m name i).lookup n = if n = name then some i else m.lookup n := by
  unfold put
  by_cases hn : n = name
  · subst hn
    rw [if_pos rfl]
    split
    · assumption
    · exact AList.lookup_insert _
  · rw [if_neg hn]
    split
    · rfl
    · exact AList.lookup_insert_ne hn

variable {t}

@[simp] theorem child_addChild :
    (t.addChild p name i).child q n = if q = p ∧ n = name then some i else t.child q n := by
  simp only [child, addChild, update_apply]
  by_cases hq : q = p
  · subst hq
    simp only [if_true, lookup_put, true_and]
  · simp [hq]

@[simp] theorem child_removeChild :
    (t.removeChild p name).child q n = if q = p ∧ n = name then none else t.child q n := by
  simp only [child, removeChild, update_apply]
  by_cases hq : q = p
  · subst hq
    by_cases hn : n = name
    · subst hn
      simp
    · simp [hn, AList.lookup_erase_ne hn]
  · simp [hq]

@[simp] theorem child_alloc {prunable : Bool} :
    (t.alloc x prunable).child q n = if q = t.next then none else t.child q n := by
  simp only [child, alloc, update_apply]
  split <;> simp

@[simp] theorem child_setNode : (t.setNode i x).child = t.child := rfl

@[simp] theorem child_incRef : (t.incRef i).child = t.child := rfl

theorem addChild_self (hchild : t.child p name = some i) (hparent : t.parent i = some p) : t.addChild p name i = t := by
  have hput : put (t.children p) name i = t.children p := if_pos hchild
  simp only [addChild, hput, ← hparent, update_eq_self]

theorem removeChild_self (hchild : t.child p name = none) : t.removeChild p name = t := by
  have herase : (t.children p).erase name = t.children p :=
    AList.ext (kerase_of_notMem_keys (AList.lookup_eq_none.1 hchild))
  simp only [removeChild, herase, update_eq_self]

theorem mem_names : n ∈ t.names p i ↔ t.child p n = some i := by
  unfold names child
  rw [← Option.mem_def, AList.mem_lookup_iff]
  simp only [mem_map, mem_filter, decide_eq_true_eq]
  constructor
  · rintro ⟨⟨n, i⟩, ⟨hmem, rfl⟩, rfl⟩
    exact hmem
  · exact fun hmem => ⟨⟨n, i⟩, ⟨hmem, rfl⟩, rfl⟩

theorem nameOf_eq_some : (∃ pick, t.nameOf pick p i = some n) ↔ t.child p n = some i := by
  rw [← mem_names]
  constructor
  · rintro ⟨pick, h⟩
    exact mem_of_getElem? h
  · intro h
    obtain ⟨k, hk, hn⟩ := getElem_of_mem h
    refine ⟨k, ?_⟩
    rw [nameOf, Nat.mod_eq_of_lt hk, getElem?_eq_getElem hk, hn]

theorem nameOf_eq_none : t.nameOf pick p i = none ↔ ∀ n, t.child p n ≠ some i := by
  have hnames : (∀ n, t.child p n ≠ some i) ↔ t.names p i = [] := by
    simp only [eq_nil_iff_forall_not_mem, mem_names, ne_eq]
  rw [hnames, nameOf, getElem?_eq_none_iff]
  constructor
  · intro h
    by_contra hne
    exact absurd (Nat.mod_lt pick (length_pos_of_ne_nil hne)) (Nat.not_lt.2 h)
  · intro h
    rw [h]
    exact Nat.zero_le _

/-! ## Pruning -/

theorem prune_cases (t : Tree ν) (pick : Nat) (i : Ptr) :
    t.prune pick i = t ∨ ∃ p name, t.child p name = some i ∧ t.prune pick i = t.removeChild p name := by
  unfold prune
  split
  · split
    · exact .inl rfl
    · rename_i p _
      split
      · exact .inl rfl
      · rename_i name hname
        exact .inr ⟨p, name, nameOf_eq_some.1 ⟨pick, hname⟩, rfl⟩
  · exact .inl rfl

theorem decRef_fst : (t.decRef pick i).1 = decide (t.refs i - 1 = 0) := by
  simp only [decRef, update_self]
  split <;> simp_all

/-- What `decRef` does to the tree: one reference less, and then perhaps pruning. -/
theorem decRef_cases (t : Tree ν) (pick : Nat) (i : Ptr) :
    (t.decRef pick i).2 = { t with refs := Function.update t.refs i (t.refs i - 1) } ∨
      t.refs i - 1 = 0 ∧ ∃ p name, t.child p name = some i ∧
        (t.decRef pick i).2 = { t.removeChild p name with refs := Function.update t.refs i (t.refs i - 1) } := by
  simp only [decRef, update_self]
  split
  · rename_i h0
    obtain h | ⟨p, name, hchild, h⟩ := prune_cases { t with refs := Function.update t.refs i (t.refs i - 1) } pick i
    · exact .inl h
    · exact .inr ⟨h0, p, name, hchild, h⟩
  · exact .inl rfl

theorem child_of_decRef (h : (t.decRef pick i).2.child p n = some k) : t.child p n = some k := by
  obtain heq | ⟨-, q, name, -, heq⟩ := decRef_cases t pick i
  · rw [heq] at h
    exact h
  · rw [heq] at h
    have h : (t.removeChild q name).child p n = some k := h
    rw [child_removeChild] at h
    split at h
    · cases h
    · exact h

theorem decRef_child (hk : k = i → t.refs i - 1 ≠ 0) (h : t.child p n = some k) :
    (t.decRef pick i).2.child p n = some k := by
  obtain heq | ⟨h0, q, name, hchild, heq⟩ := decRef_cases t pick i
  · rw [heq]
    exact h
  · rw [heq]
    show (t.removeChild q name).child p n = some k
    rw [child_removeChild, if_neg]
    · exact h
    · rintro ⟨rfl, rfl⟩
      exact hk (Option.mem_unique h hchild) h0

@[simp] theorem decRef_node : (t.decRef pick i).2.node = t.node := by
  obtain heq | ⟨-, q, name, -, heq⟩ := decRef_cases t pick i <;> rw [heq]
  rfl

@[simp] theorem decRef_parent : (t.decRef pick i).2.parent = t.parent := by
  obtain heq | ⟨-, q, name, -, heq⟩ := decRef_cases t pick i <;> rw [heq]
  rfl

@[simp] theorem decRef_refs : (t.decRef pick i).2.refs = Function.update t.refs i (t.refs i - 1) := by
  obtain heq | ⟨-, q, name, -, heq⟩ := decRef_cases t pick i <;> rw [heq]

@[simp] theorem decRef_next : (t.decRef pick i).2.next = t.next := by
  obtain heq | ⟨-, q, name, -, heq⟩ := decRef_cases t pick i <;> rw [heq]
  rfl

end Tree

end NineP.Server
