import Mathlib.Data.List.AList
import NineP.Proto.Wire

/-!
# Fid states and the fid table

`fidState` and `fidTable` of `server/fid.go`.  The per-fid mutex makes `beginIo`, `endIo` and `finishClunk`
atomic; each returns what the caller has to do once the lock is dropped.  The walked path of a fid is left out.
-/

namespace NineP.Server

open Proto List

/-- The life cycle of a fid. -/
inductive FidStatus
  | allocated
  | opened
  | xattrRead
  | xattrWrite
  deriving DecidableEq

/-- The server-side state of one fid over nodes `ν` and file handles `η`. -/
structure FidState (ν η : Type) where
  node : ν
  state : FidStatus
  handle : Option η
  /-- I/O calls between `beginIo` and `endIo`. -/
  ioRefs : Int
  closing : Bool
  /-- What the deferred release does with the node. -/
  closeNode : Bool
  deriving DecidableEq

namespace FidState

variable {ν η : Type}

/-- A fid bound to `node` by attach, walk or xattrwalk. -/
def bound (node : ν) (state : FidStatus) : FidState ν η :=
  { node, state, handle := none, ioRefs := 0, closing := false, closeNode := false }

/-- `beginIO`: refused once the fid is being clunked. -/
def beginIo (fs : FidState ν η) : Bool × FidState ν η :=
  if fs.closing then (false, fs) else (true, { fs with ioRefs := fs.ioRefs + 1 })

/-- The locked part of `endIO`: whether the caller must run `releaseNow`, and with which `closeNode`. -/
def endIo (fs : FidState ν η) : (Bool × Bool) × FidState ν η :=
  let fs := { fs with ioRefs := fs.ioRefs - 1 }
  ((fs.closing && fs.ioRefs == 0, fs.closeNode), fs)

/-- The locked part of `finishClunk`: whether the caller must run `releaseNow`. -/
def finishClunk (fs : FidState ν η) (closeNode : Bool) : Bool × FidState ν η :=
  (fs.ioRefs == 0, { fs with closing := true, closeNode := closeNode })

end FidState

/-! ## The table -/

abbrev FidTable (ν η : Type) := AList fun _ : Fid => FidState ν η

/-- Why `add` refuses a fid. -/
inductive AddErr
  | fidLimitExceeded
  | fidInUse
  deriving DecidableEq

namespace FidTable

variable {ν η : Type}

def states (t : FidTable ν η) : List (FidState ν η) := t.entries.map (·.2)

def get (t : FidTable ν η) (fid : Fid) : Option (FidState ν η) := t.lookup fid

/-- `add`: the cap is checked before the fid number. -/
def add (t : FidTable ν η) (fid : Fid) (fs : FidState ν η) (maxFids : Int) : Except AddErr (FidTable ν η) :=
  if 0 < maxFids ∧ maxFids ≤ t.states.length then .error .fidLimitExceeded
  else if (t.get fid).isSome then .error .fidInUse
  else .ok (t.insert fid fs)

def clunk (t : FidTable ν η) (fid : Fid) : Option (FidState ν η × FidTable ν η) :=
  (t.get fid).map fun fs => (fs, t.erase fid)

/-- `update`: rebind the fid and return the node it displaced. -/
def update (t : FidTable ν η) (fid : Fid) (node : ν) : Option (ν × FidTable ν η) :=
  (t.get fid).map fun fs => (fs.node, t.insert fid { fs with node := node })

def markOpenedWithHandle (t : FidTable ν η) (fid : Fid) (h : Option η) : Option (FidTable ν η) :=
  match t.get fid with
  | none => none
  | some fs => if fs.state ≠ .allocated then none else some (t.insert fid { fs with state := .opened, handle := h })

/-- `updateAndOpen`: rebind and open the fid and return the node it displaced. -/
def updateAndOpen (t : FidTable ν η) (fid : Fid) (node : ν) (h : Option η) : Option (ν × FidTable ν η) :=
  match t.get fid with
  | none => none
  | some fs =>
    if fs.state ≠ .allocated then none
    else some (fs.node, t.insert fid { fs with node := node, state := .opened, handle := h })

theorem states_perm {t : FidTable ν η} (h : t.get fid = some fs) :
    t.states.Perm (fs :: states (t.erase fid)) := by
  have hmem : fid ∈ t.entries.keys := AList.lookup_isSome.1 (by rw [show t.lookup fid = some fs from h]; rfl)
  obtain ⟨fs', l₁, l₂, hnot, hl, hk⟩ := exists_of_kerase hmem
  have hlook : t.lookup fid = some fs' := by
    rw [AList.lookup, hl, dlookup_append]
    simp [dlookup_eq_none.2 hnot]
  obtain rfl : fs' = fs := by
    rw [show t.lookup fid = some fs from h] at hlook
    exact (Option.some.inj hlook).symm
  have hrest : (t.erase fid).entries = l₁ ++ l₂ := hk
  simp only [states, hrest, hl, map_append, map_cons]
  exact perm_middle

@[simp] theorem states_insert (t : FidTable ν η) (fid : Fid) (fs : FidState ν η) :
    states (t.insert fid fs) = fs :: states (t.erase fid) := rfl

theorem states_insert_of_get_none {t : FidTable ν η} (h : t.get fid = none) (fs : FidState ν η) :
    states (t.insert fid fs) = fs :: t.states := by
  simp only [states, AList.entries_insert_of_notMem (AList.lookup_eq_none.1 h), map_cons]

end FidTable

end NineP.Server
