import Mathlib
import NineP.Proto.P9l.Messages
import NineP.Proto.P9u.Messages

/-!
# Seek

The position of a `File` and the size that `RefreshSize` has stored (`client/file.go`, `client/refresh_size.go`), in Go's
wrapping `int64`.
-/

namespace NineP.Client.Seek

/-- The part of a `File` that `Seek` reads and writes. -/
structure File where
  closed : Bool
  offset : Int64
  cachedSize : Int64
  deriving DecidableEq

/-- What the request of the connection's dialect brings: `Tgetattr` or `Tstat`. -/
inductive Reported
  | attr (attr : P9l.Attr)
  | stat (stat : P9u.Stat)

def Reported.size : Reported → UInt64
  | .attr a => a.size
  | .stat st => st.length

def errClosed : String := "client: connection closed"

def refreshSize (f : File) (res : Except String Reported) : Option String × File :=
  if f.closed then (some errClosed, f)
  else match res with
    | .error e => (some e, f)
    | .ok r => (none, { f with cachedSize := r.size.toInt64 })

/-- What `Seek` returns, and the file after it. -/
abbrev Outcome := (Int64 × Option String) × File

def seekStart : Int := 0
def seekCurrent : Int := 1
def seekEnd : Int := 2

/-- The end of `Seek`, after the switch. -/
def File.moveTo (f : File) (whence : Int) (abs : Int64) : Outcome :=
  if abs < 0 then
    if whence = seekEnd ∧ f.cachedSize = 0 then
      ((f.offset, some s!"client: negative position {abs}; SeekEnd requires File.RefreshSize to populate size"), f)
    else ((f.offset, some s!"client: negative position {abs}"), f)
  else ((abs, none), { f with offset := abs })

def seek (f : File) (offset : Int64) (whence : Int) : Outcome :=
  if f.closed then ((0, some errClosed), f)
  else if whence = seekStart then f.moveTo whence offset
  else if whence = seekCurrent then f.moveTo whence (f.offset + offset)
  else if whence = seekEnd then f.moveTo whence (f.cachedSize + offset)
  else ((f.offset, some s!"client: invalid whence {whence}"), f)

/-- The position that is asked for, with the size as the server has it. -/
def target (f : File) (size : UInt64) (offset : Int64) (whence : Int) : Int :=
  if whence = seekStart then offset.toInt
  else if whence = seekCurrent then f.offset.toInt + offset.toInt
  else size.toNat + offset.toInt

/-- `Seek` goes to the position that is asked for if it is one, and else it fails and leaves the file as it is. -/
def Exact (f : File) (t : Int) (res : Outcome) : Prop :=
  if 0 ≤ t ∧ t ≤ 2 ^ 63 - 1 then res.1.2 = none ∧ res.1.1.toInt = t ∧ res.2 = { f with offset := res.1.1 }
  else res.1.2.isSome ∧ res.2 = f

instance (f : File) (t : Int) (res : Outcome) : Decidable (Exact f t res) :=
  inferInstanceAs (Decidable (ite _ _ _))

theorem moveTo_exact {f : File} {whence t : Int} {abs : Int64} (habs : abs.toInt = t.bmod (2 ^ 64))
    (hmin : -2 ^ 63 ≤ t) (hmax : t < 2 ^ 64 + 2 ^ 63) : Exact f t (f.moveTo whence abs) ↔ t < 2 ^ 64 := by
  have hneg : abs < 0 ↔ t.bmod (2 ^ 64) < 0 := by rw [Int64.lt_iff_toInt_lt, habs, Int64.toInt_zero]
  unfold File.moveTo Exact
  by_cases h : abs < 0
  · -- the wrapped sum is negative: so is the sum, or it is between 2 ^ 63 and 2 ^ 64
    have hout : ¬(0 ≤ t ∧ t ≤ 2 ^ 63 - 1) ∧ t < 2 ^ 64 := by
      rw [hneg, Int.bmod] at h
      grind
    rw [if_pos h, if_neg hout.1]
    split <;> simp <;> omega
  · rw [if_neg h]
    have hin : 0 ≤ t ∧ (t ≤ 2 ^ 63 - 1 ↔ t < 2 ^ 64) ∧ (t < 2 ^ 64 → t.bmod (2 ^ 64) = t) := by
      rw [hneg, Int.bmod] at h
      rw [Int.bmod]
      grind
    by_cases ht : t < 2 ^ 64
    · rw [if_pos ⟨hin.1, hin.2.1.2 ht⟩, habs, hin.2.2 ht]
      simp
      omega
    · rw [if_neg fun h => ht (hin.2.1.1 h.2)]
      simp
      omega

section Open

variable (f : File) (hopen : f.closed = false) (hoff : 0 ≤ f.offset) (offset : Int64) (whence : Int)
  (hwhence : whence = seekStart ∨ whence = seekCurrent ∨ whence = seekEnd)
include hopen hoff hwhence

theorem seek_exact {size : UInt64} (hsize : f.cachedSize = size.toInt64) :
    Exact f (target f size offset whence) (seek f offset whence) ↔
      ¬(whence = seekEnd ∧ 2 ^ 64 ≤ size.toNat + offset.toInt) := by
  have hmin := offset.le_toInt
  have hmax := offset.toInt_lt
  have hpos := Int64.le_iff_toInt_le.1 hoff
  have hlt := f.offset.toInt_lt
  have hsize_lt := size.toNat_lt
  rw [Int64.toInt_zero] at hpos
  obtain rfl | rfl | rfl := hwhence
  · have hseek : seek f offset seekStart = f.moveTo seekStart offset := by simp [seek, hopen]
    rw [hseek, target, if_pos rfl, moveTo_exact (Int.bmod_eq_of_le (by omega) (by omega)).symm hmin (by omega)]
    simp [seekStart, seekEnd]
    omega
  · have hseek : seek f offset seekCurrent = f.moveTo seekCurrent (f.offset + offset) := by
      simp [seek, hopen, seekCurrent, seekStart]
    rw [hseek, target, if_neg (by decide), if_pos rfl, moveTo_exact (Int64.toInt_add _ _) (by omega) (by omega)]
    simp [seekCurrent, seekEnd]
    omega
  · have hseek : seek f offset seekEnd = f.moveTo seekEnd (size.toInt64 + offset) := by
      simp [seek, hopen, hsize, seekEnd, seekCurrent, seekStart]
    have hsum : (size.toInt64 + offset).toInt = (size.toNat + offset.toInt).bmod (2 ^ 64) := by
      have hcast : size.toInt64.toInt = (size.toNat : Int).bmod (2 ^ 64) := BitVec.toInt_eq_toNat_bmod _
      rw [Int64.toInt_add, hcast, Int.bmod_add_bmod]
    rw [hseek, target, if_neg (by decide), if_neg (by decide), moveTo_exact hsum (by omega) (by omega)]
    simp

/-- **Seek.**  With the size that the server has reported, `Seek` is exact for each of the three whences, but for a target
relative to the end that is 2 ^ 64 or more. -/
theorem seek_exact_iff (r : Reported) : ∃ f', refreshSize f (.ok r) = (none, f') ∧
      (Exact f' (target f' r.size offset whence) (seek f' offset whence) ↔
        ¬(whence = seekEnd ∧ 2 ^ 64 ≤ r.size.toNat + offset.toInt)) := by
  have h := seek_exact { f with cachedSize := r.size.toInt64 } hopen hoff offset whence hwhence rfl
  exact ⟨_, by simp [refreshSize, hopen], h⟩

end Open

/-- A file of 2 ^ 64 - 1 bytes: one byte past its end is no position, and `Seek` goes to the start of the file. -/
theorem seek_wraps :
    ∃ f', refreshSize ⟨false, 0, 0⟩ (.ok (.attr { (default : P9l.Attr) with size := 2 ^ 64 - 1 })) = (none, f') ∧
      seek f' 1 seekEnd = ((0, none), f') ∧ ¬Exact f' (target f' (2 ^ 64 - 1) 1 seekEnd) (seek f' 1 seekEnd) :=
  ⟨⟨false, 0, -1⟩, by decide +kernel⟩

theorem seek_exact_iff_back :
    ∃ f', refreshSize ⟨false, 5, 0⟩ (.ok (.stat { (default : P9u.Stat) with length := 9 })) = (none, f') ∧
      Exact f' (target f' 9 (-2) seekEnd) (seek f' (-2) seekEnd) :=
  (seek_exact_iff ⟨false, 5, 0⟩ rfl (by decide) (-2) seekEnd (.inr (.inr rfl))
    (.stat { (default : P9u.Stat) with length := 9 })).imp fun _ h => ⟨h.1, h.2.2 (by decide)⟩

end NineP.Client.Seek
