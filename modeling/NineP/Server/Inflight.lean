import Mathlib.Data.List.AList
import NineP.Proto.Wire

/-!
# The in-flight map

`inflightMap` of `server/flush.go`.  Every operation runs under the map's mutex; it returns the channels that it
closes or that the caller has to close.  Cancelling a request's context changes nothing here.
-/

namespace NineP.Server

open Proto List

/-- A channel, by the order of creation. -/
abbrev Chan := Nat

/-- `inflightEntry` over request contexts `ρ`; the default is Go's zero value. -/
structure InflightEntry (ρ : Type) where
  rctx : Option ρ := none
  done : Option Chan := none
  committed : Bool := false
  deriving DecidableEq

structure InflightMap (ρ : Type) where
  entries : AList fun _ : Tag => InflightEntry ρ
  count : Int
  drained : Option Chan

namespace InflightMap

variable {ρ : Type}

def empty : InflightMap ρ := ⟨∅, 0, none⟩

def get (im : InflightMap ρ) (tag : Tag) : Option (InflightEntry ρ) := im.entries.lookup tag

def set (im : InflightMap ρ) (tag : Tag) (e : InflightEntry ρ) : InflightMap ρ :=
  { im with entries := im.entries.insert tag e }

/-- `start`: `none` for a duplicate tag; a committed entry is replaced and its channel closed. -/
def start (im : InflightMap ρ) (tag : Tag) (rctx : ρ) : Option (Option Chan × InflightMap ρ) :=
  match im.get tag with
  | some e => if !e.committed then none else some (e.done, im.set tag { rctx := some rctx })
  | none => some (none, { im.set tag { rctx := some rctx } with count := im.count + 1 })

/-- The tail of `remove` and `completeCommit`: delete the tag, count down, and close the drain channel at zero. -/
def delete (im : InflightMap ρ) (tag : Tag) : Option Chan × InflightMap ρ :=
  let im := { im with entries := im.entries.erase tag, count := im.count - 1 }
  if im.count = 0 then (im.drained, { im with drained := none }) else (none, im)

/-- `remove`: the entry's channel, for the caller to close, and the drain channel if it was closed. -/
def remove (im : InflightMap ρ) (tag : Tag) : Option Chan × Option Chan × InflightMap ρ :=
  (((im.get tag).getD {}).done, im.delete tag)

def commit (im : InflightMap ρ) (tag : Tag) : InflightMap ρ :=
  im.set tag { (im.get tag).getD {} with committed := true }

/-- `completeCommit`: like `remove`, but only if the tag still belongs to `rctx`. -/
def completeCommit [DecidableEq ρ] (im : InflightMap ρ) (tag : Tag) (rctx : ρ) : Option Chan × Option Chan × InflightMap ρ :=
  match im.get tag with
  | none => (none, none, im)
  | some e => if e.rctx ≠ some rctx then (none, none, im) else (e.done, im.delete tag)

def drainChan (im : InflightMap ρ) (fresh : Chan) : Option Chan × InflightMap ρ :=
  if im.count = 0 then (none, im)
  else match im.drained with
    | some ch => (some ch, im)
    | none => (some fresh, { im with drained := some fresh })

def flushWait (im : InflightMap ρ) (tag : Tag) (fresh : Chan) : Option Chan × InflightMap ρ :=
  match im.get tag with
  | none => (none, im)
  | some e => match e.done with
    | some ch => (some ch, im)
    | none => (some fresh, im.set tag { e with done := some fresh })

/-! ## Lemmas -/

theorem get_set (im : InflightMap ρ) (tag t : Tag) (e : InflightEntry ρ) :
    (im.set tag e).get t = if t = tag then some e else im.get t := by
  by_cases h : t = tag
  · subst h
    simp [get, set]
  · simp [get, set, h, AList.lookup_insert_ne h]

theorem delete_entries (im : InflightMap ρ) (tag : Tag) : (im.delete tag).2.entries = im.entries.erase tag := by
  unfold delete
  dsimp only
  split <;> rfl

theorem delete_get (im : InflightMap ρ) (tag t : Tag) :
    (im.delete tag).2.get t = if t = tag then none else im.get t := by
  rw [get, delete_entries]
  by_cases h : t = tag
  · subst h
    simp
  · simp [h, AList.lookup_erase_ne h, get]

variable {im im' : InflightMap ρ} {e : InflightEntry ρ}

theorem start_eq (h : im.start tag rctx = some (done, im')) :
    (∀ t, im'.get t = if t = tag then some { rctx := some rctx } else im.get t) ∧ im'.drained = im.drained ∧
      ((im.get tag = none ∧ done = none) ∨ ∃ e, im.get tag = some e ∧ e.committed = true ∧ done = e.done) := by
  unfold start at h
  split at h
  · rename_i e hget
    split at h
    · cases h
    · rename_i hc
      cases h
      exact ⟨fun t => get_set im tag t _, rfl, .inr ⟨e, hget, by simpa using hc, rfl⟩⟩
  · rename_i hget
    cases h
    exact ⟨fun t => get_set im tag t _, rfl, .inl ⟨hget, rfl⟩⟩

theorem drainChan_eq (h : im.drainChan fresh = (some ch, im')) :
    im'.entries = im.entries ∧ im'.count = im.count ∧ im'.drained = some ch ∧
      (im.drained = some ch ∨ im.drained = none ∧ ch = fresh) := by
  unfold drainChan at h
  split at h
  · cases h
  · split at h
    · rename_i hd
      obtain ⟨h1, rfl⟩ := Prod.mk.inj h
      cases h1
      exact ⟨rfl, rfl, hd, .inl hd⟩
    · rename_i hd
      obtain ⟨h1, rfl⟩ := Prod.mk.inj h
      cases h1
      exact ⟨rfl, rfl, rfl, .inr ⟨hd, rfl⟩⟩

theorem drainChan_none (h : im.drainChan fresh = (none, im')) : im.count = 0 := by
  unfold drainChan at h
  split at h
  · assumption
  · split at h <;> cases h

theorem flushWait_drained (h : im.flushWait tag fresh = (some ch, im')) : im'.drained = im.drained := by
  unfold flushWait at h
  split at h
  · cases h
  · split at h <;> cases h <;> rfl

/-- The drain channel is closed by `delete` exactly when the last entry goes. -/
theorem delete_eq (im : InflightMap ρ) (tag : Tag) :
    (im.delete tag).2.count = im.count - 1 ∧
      (im.count - 1 = 0 ∧ (im.delete tag).1 = im.drained ∧ (im.delete tag).2.drained = none ∨
        im.count - 1 ≠ 0 ∧ (im.delete tag).1 = none ∧ (im.delete tag).2.drained = im.drained) := by
  unfold delete
  by_cases h : im.count - 1 = 0
  · simp [h]
  · simp [h]

/-! ## The count -/

def Counted (im : InflightMap ρ) : Prop := im.count = im.entries.keys.length

theorem mem_keys_iff : tag ∈ im.entries.keys ↔ ∃ e, im.get tag = some e := by
  rw [← AList.mem_keys, ← AList.lookup_isSome, Option.isSome_iff_exists]
  rfl

theorem Counted.get_eq_none (h : im.Counted) (h0 : im.count = 0) (tag : Tag) : im.get tag = none := by
  refine Option.eq_none_iff_forall_ne_some.2 fun e he => ?_
  have := length_pos_of_mem (mem_keys_iff.2 ⟨e, he⟩)
  rw [Counted] at h
  omega

theorem Counted.tag_eq (h : im.Counted) (h1 : im.count = 1) (ht : im.get t = some e)
    (ht' : im.get t' = some e') : t = t' := by
  have hlen : im.entries.keys.length = 1 := by
    rw [Counted] at h
    omega
  obtain ⟨k, hk⟩ := length_eq_one_iff.1 hlen
  have hmem := mem_keys_iff.2 ⟨e, ht⟩
  have hmem' := mem_keys_iff.2 ⟨e', ht'⟩
  rw [hk, mem_singleton] at hmem hmem'
  rw [hmem, hmem']

theorem Counted.set (h : im.Counted) (ht : im.get tag = some e) (e' : InflightEntry ρ) : (im.set tag e').Counted := by
  have hmem := mem_keys_iff.2 ⟨e, ht⟩
  have hpos := length_pos_of_mem hmem
  rw [Counted] at h
  simp only [Counted, InflightMap.set, AList.keys_insert, length_cons, length_erase_of_mem hmem]
  omega

theorem Counted.start (h : im.Counted) (hs : im.start tag rctx = some (done, im')) : im'.Counted := by
  unfold InflightMap.start at hs
  split at hs
  · rename_i e hget
    split at hs
    · cases hs
    · cases hs
      exact h.set hget _
  · rename_i hget
    cases hs
    have hmem : tag ∉ im.entries.keys := by simp [mem_keys_iff, hget]
    rw [Counted] at h
    simp only [Counted, InflightMap.set, AList.keys_insert, length_cons, erase_of_not_mem hmem]
    omega

theorem Counted.delete (h : im.Counted) (ht : im.get tag = some e) : (im.delete tag).2.Counted := by
  have hmem := mem_keys_iff.2 ⟨e, ht⟩
  have hpos := length_pos_of_mem hmem
  rw [Counted] at h ⊢
  rw [(delete_eq im tag).1, delete_entries, AList.keys_erase, length_erase_of_mem hmem]
  omega

end InflightMap

end NineP.Server
