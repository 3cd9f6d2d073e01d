import Mathlib
import NineP.Proto.P9l.Messages

/-!
# Setting the times of a passthrough file

The times in `Node.Setattr` and `statToAttr` (`server/passthrough`): the seconds and nanoseconds of a time are folded into
one `int64` count of nanoseconds, and `unix.NsecToTimespec` splits the count.
-/

namespace NineP.Server.PassthroughTimes

open Proto P9l

/-- `unix.Timespec` -/
@[ext]
structure Timespec where
  sec : Int64
  nsec : Int64
  deriving DecidableEq

def nsecToTimespec (nsec : Int64) : Timespec :=
  let sec := nsec / 1000000000
  let nsec := nsec % 1000000000
  if nsec < 0 then ⟨sec - 1, nsec + 1000000000⟩ else ⟨sec, nsec⟩

/-- `UTIME_OMIT` -/
def utimeOmit : Int64 := 0x3ffffffe

def omitted : Timespec := { nsecToTimespec 0 with nsec := utimeOmit }

/-- A time of a request: whether its valid bit is set, and its seconds and nanoseconds. -/
structure Time where
  selected : Bool
  sec : UInt64
  nsec : UInt64

def atime (attr : SetAttr) : Time := ⟨attr.valid &&& setAttrATime ≠ 0, attr.aTimeSec, attr.aTimeNSec⟩

def mtime (attr : SetAttr) : Time := ⟨attr.valid &&& setAttrMTime ≠ 0, attr.mTimeSec, attr.mTimeNSec⟩

namespace Time

def nanos (t : Time) : Int64 := t.sec.toInt64 * 1000000000 + t.nsec.toInt64

/-- The time that the host is given. -/
def timespec (t : Time) : Timespec := if t.selected then nsecToTimespec t.nanos else omitted

/-- The time that is asked for. -/
def requested (t : Time) : Timespec := if t.selected then ⟨t.sec.toInt64, t.nsec.toInt64⟩ else omitted

def count (t : Time) : Int := t.sec.toInt64.toInt * 1000000000 + t.nsec.toNat

/-- The nanoseconds of the time are an `int64`. -/
def Counted (t : Time) : Prop := t.selected = true → -2 ^ 63 ≤ t.count ∧ t.count ≤ 2 ^ 63 - 1

end Time

/-- `Setattr`, after the mode, the owner and the size: what `setTimesResolved` is called with, if it is -/
def setTimes (attr : SetAttr) : Option (Timespec × Timespec) :=
  if (atime attr).selected || (mtime attr).selected then some ((atime attr).timespec, (mtime attr).timespec) else none

/-- The time that is stored: `utimensat` leaves a time that is omitted as it is. -/
def stored (old new : Timespec) : Timespec := if new.nsec = utimeOmit then old else new

/-- The seconds and nanoseconds of a time in `statToAttr`. -/
def reported (ts : Timespec) : UInt64 × UInt64 := (ts.sec.toUInt64, ts.nsec.toUInt64)

/-- The host is given `t` as it is asked for if and only if it is counted; and then a host that stores it reports it. -/
def Time.Kept (t : Time) (ts : Timespec) : Prop :=
  (ts = t.requested ↔ t.Counted) ∧
    (t.Counted → t.selected = true → ∀ old, reported (stored old ts) = (t.sec, t.nsec))

/-! ## Exactness -/

theorem nsecToTimespec_spec (c : Int64) :
    (nsecToTimespec c).sec.toInt * 1000000000 + (nsecToTimespec c).nsec.toInt = c.toInt ∧
      0 ≤ (nsecToTimespec c).nsec.toInt ∧ (nsecToTimespec c).nsec.toInt < 1000000000 := by
  have hmin := c.le_toInt
  have hmax := c.toInt_lt
  have hsplit := Int.mul_tdiv_add_tmod c.toInt 1000000000
  have hlt := Int.tmod_lt_of_pos c.toInt (b := 1000000000) (by decide)
  have hgt := Int.lt_tmod_of_pos c.toInt (b := 1000000000) (by decide)
  have hmod : (c % 1000000000).toInt = c.toInt.tmod 1000000000 := Int64.toInt_mod _ _
  have hdiv : (c / 1000000000).toInt = c.toInt.tdiv 1000000000 := by
    rw [Int64.toInt_div]
    exact Int.bmod_eq_of_le (by simp; omega) (by simp; omega)
  unfold nsecToTimespec
  by_cases h : c % 1000000000 < 0
  · simp only [if_pos h]
    rw [Int64.lt_iff_toInt_lt, hmod, Int64.toInt_zero] at h
    rw [Int64.toInt_sub, Int64.toInt_add, hmod, hdiv, Int.bmod_eq_of_le, Int.bmod_eq_of_le] <;> simp <;> omega
  · simp only [if_neg h]
    rw [Int64.lt_iff_toInt_lt, hmod, Int64.toInt_zero] at h
    rw [hmod, hdiv]
    omega

section Times

variable {t : Time} (h : t.nsec.toNat < 1000000000)
include h

theorem toInt_nsec : t.nsec.toInt64.toInt = t.nsec.toNat := by
  have hmod : t.nsec.toInt64.toInt = (t.nsec.toNat : Int).bmod (2 ^ 64) := BitVec.toInt_eq_toNat_bmod _
  rw [hmod, Int.bmod_eq_of_le] <;> omega

theorem timespec_eq_iff : t.timespec = t.requested ↔ t.Counted := by
  unfold Time.timespec Time.requested Time.Counted
  cases t.selected with
  | false => simp
  | true =>
    simp only [if_true, forall_const]
    have hcast := toInt_nsec h
    have hcount : t.nanos.toInt = t.count.bmod (2 ^ 64) := by
      rw [Time.nanos, Int64.toInt_add, Int64.toInt_mul, hcast, Int.bmod_add_bmod, Time.count,
        show (1000000000 : Int64).toInt = 1000000000 by decide]
    obtain ⟨hsum, hpos, hlt⟩ := nsecToTimespec_spec t.nanos
    have hmin := t.nanos.le_toInt
    have hmax := t.nanos.toInt_lt
    generalize nsecToTimespec t.nanos = ts at hsum hpos hlt ⊢
    rw [hcount] at hsum hmin hmax
    constructor
    · rintro rfl
      rw [hcast] at hsum
      have heq : t.count = t.count.bmod (2 ^ 64) := hsum
      omega
    · intro hcounted
      rw [Int.bmod_eq_of_le (by omega) (by omega), Time.count] at hsum
      have hsec : ts.sec.toInt = t.sec.toInt64.toInt := by omega
      have hnsec : ts.nsec.toInt = t.nsec.toInt64.toInt := by omega
      exact Timespec.ext (Int64.toInt_inj.1 hsec) (Int64.toInt_inj.1 hnsec)

theorem timespec_kept : t.Kept t.timespec := by
  refine ⟨timespec_eq_iff h, fun hc hsel old => ?_⟩
  have hne : t.nsec.toInt64 ≠ utimeOmit := by
    intro heq
    have hnsec := toInt_nsec h
    rw [heq, show utimeOmit.toInt = 1073741822 by decide] at hnsec
    omega
  rw [(timespec_eq_iff h).2 hc, Time.requested, if_pos hsel, stored, if_neg hne]
  simp [reported]

end Times

end NineP.Server.PassthroughTimes
