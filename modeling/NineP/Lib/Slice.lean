import Mathlib.Data.List.Basic

/-!
# Slices over backing arrays

A slice is the front of a backing array that it may share the rest of with its past: what stands behind its length is
whatever was left there.
-/

namespace Slices

variable {α : Type}

/-! ## Lists -/

/-- `xs` in place of what stands from `off` on. -/
def splice (d xs : List α) (off : Nat) : List α := d.take off ++ xs ++ d.drop (off + xs.length)

/-- At least `n` long, with `z` in the new places. -/
def extend (z : α) (n : Nat) (d : List α) : List α := d ++ List.replicate (n - d.length) z

def overlay (z : α) (d xs : List α) (off : Nat) : List α := splice (extend z (off + xs.length) d) xs off

variable {d xs : List α}

theorem length_extend : (extend z n d).length = max d.length n := by
  rw [extend, List.length_append, List.length_replicate]
  omega

theorem extend_of_le (h : n ≤ d.length) : extend z n d = d := by
  rw [extend, Nat.sub_eq_zero_of_le h, List.replicate_zero, List.append_nil]

theorem length_splice (h : off + xs.length ≤ d.length) : (splice d xs off).length = d.length := by
  simp only [splice, List.length_append, List.length_take, List.length_drop]
  omega

theorem length_overlay : (overlay z d xs off).length = max d.length (off + xs.length) := by
  rw [overlay, length_splice, length_extend]
  rw [length_extend]
  exact Nat.le_max_right _ _

theorem splice_splice (h : off + xs.length ≤ d.length) :
    splice (splice d xs off) ys (off + xs.length) = splice d (xs ++ ys) off := by
  have hfront : (d.take off ++ xs).length = off + xs.length := by
    rw [List.length_append, List.length_take]
    omega
  have htake : (splice d xs off).take (off + xs.length) = d.take off ++ xs := List.take_left' hfront
  have hdrop : (splice d xs off).drop (off + xs.length + ys.length) = d.drop (off + (xs ++ ys).length) := by
    rw [← List.drop_drop, splice, List.drop_left' hfront, List.drop_drop, List.length_append, Nat.add_assoc]
  rw [splice, htake, hdrop, splice, List.append_assoc (d.take off) xs ys]

theorem take_splice (h : off + xs.length ≤ n) (hn : n ≤ d.length) : (splice d xs off).take n = splice (d.take n) xs off := by
  have hoff : off ≤ n := by omega
  simp only [splice, List.take_append, List.take_take, List.length_take, List.length_append, List.drop_take]
  rw [Nat.min_eq_right (by omega), Nat.min_eq_left hoff, List.take_of_length_le (l := xs) (by omega)]
  congr 2
  omega

theorem extend_extend (h : m ≤ n) : extend z n (extend z m d) = extend z n d := by
  have hlen : (extend z m d).length = max d.length m := length_extend
  rw [extend, hlen, extend, extend, List.append_assoc, ← List.replicate_add]
  congr 2
  omega

theorem extend_splice (h : off + xs.length ≤ d.length) : extend z n (splice d xs off) = splice (extend z n d) xs off := by
  have htake : (extend z n d).take off = d.take off := List.take_append_of_le_length (by omega)
  have hdrop : (extend z n d).drop (off + xs.length) = d.drop (off + xs.length) ++ List.replicate (n - d.length) z :=
    List.drop_append_of_le_length h
  rw [extend, length_splice h, splice, splice, htake, hdrop, List.append_assoc]

theorem overlay_overlay : overlay z (overlay z d xs off) ys (off + xs.length) = overlay z d (xs ++ ys) off := by
  have hroom : off + xs.length ≤ (extend z (off + xs.length) d).length := by
    rw [length_extend]
    exact Nat.le_max_right _ _
  have hroom' : off + xs.length ≤ (extend z (off + xs.length + ys.length) d).length := by
    rw [length_extend]
    omega
  unfold overlay
  rw [extend_splice hroom, extend_extend (Nat.le_add_right _ _), splice_splice hroom', List.length_append, Nat.add_assoc]

/-- `xs` is stored at `off`: nothing happens if there is nothing to store. -/
def store (z : α) (d xs : List α) (off : Nat) : List α := if xs.length = 0 then d else overlay z d xs off

theorem store_store : store z (store z d xs off) ys (off + xs.length) = store z d (xs ++ ys) off := by
  unfold store
  rw [List.length_append]
  by_cases hx : xs.length = 0
  · obtain rfl := List.eq_nil_of_length_eq_zero hx
    simp
  · by_cases hy : ys.length = 0
    · obtain rfl := List.eq_nil_of_length_eq_zero hy
      simp
    · rw [if_neg hx, if_neg hy, if_neg (by omega), overlay_overlay]

end Slices

/-- A slice of a backing array. -/
structure Slice (α : Type) where
  array : List α
  len : Nat
  len_le : len ≤ array.length

namespace Slice

open Slices

variable {α : Type}

def contents (s : Slice α) : List α := s.array.take s.len

def new (xs room : List α) : Slice α := ⟨xs ++ room, xs.length, by simp⟩

def shrink (s : Slice α) (n : Nat) : Slice α := ⟨s.array, min n s.len, Nat.le_trans (Nat.min_le_right _ _) s.len_le⟩

def copyAt (s : Slice α) (off : Nat) (xs : List α) : Slice α :=
  if h : off + (xs.take (s.len - off)).length ≤ s.array.length then
    ⟨splice s.array (xs.take (s.len - off)) off, s.len, by rw [length_splice h]; exact s.len_le⟩
  else s

/-- `append(s, xs...)`: in place if there is room for it, else in a new array with `room` behind it. -/
def append (s : Slice α) (xs room : List α) : Slice α :=
  if h : s.len + xs.length ≤ s.array.length then
    ⟨splice s.array xs s.len, s.len + xs.length, by rw [length_splice h]; exact h⟩
  else new (s.contents ++ xs) room

variable {s : Slice α} {xs : List α}

theorem length_contents : s.contents.length = s.len := by
  rw [contents, List.length_take, Nat.min_eq_left s.len_le]

theorem contents_new : (new xs room).contents = xs := by
  simp [new, contents]

theorem contents_shrink : (s.shrink n).contents = s.contents.take n := by
  rw [shrink, contents, contents, List.take_take]

theorem contents_copyAt (h : off + xs.length ≤ s.len) : (s.copyAt off xs).contents = splice s.contents xs off := by
  have htake : xs.take (s.len - off) = xs := List.take_of_length_le (by omega)
  have hle : off + (xs.take (s.len - off)).length ≤ s.array.length := by
    rw [htake]
    exact Nat.le_trans h s.len_le
  unfold copyAt
  rw [dif_pos hle]
  simp only [contents, htake]
  exact take_splice h s.len_le

theorem contents_append : (s.append xs room).contents = s.contents ++ xs := by
  unfold append
  split
  · rename_i h
    have hlen : (s.array.take s.len ++ xs).length = s.len + xs.length := by
      rw [List.length_append, List.length_take, Nat.min_eq_left s.len_le]
    simp only [contents, splice]
    exact List.take_left' hlen
  · exact contents_new

end Slice
