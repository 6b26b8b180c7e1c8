/-
# Arithmetic of times

A time has seconds and microseconds, in signed integers of different widths. An overflow
of one of them is undefined, and so is the result of a function in which one happens.
The normal form has less than a second of microseconds, of no other sign than the seconds,
and is the form of its total that truncating division gives.
-/

import Mathlib.Algebra.Field.Defs
import OsvrCore.Math.SignedParts
import OsvrCore.Util.MachineIntegers
import OsvrCore.Util.ReportTypes

set_option autoImplicit false

namespace OSVR.Util

open Math

def OSVR_USEC_PER_SEC : ℤ := 1000000

/-- `numcmp`. -/
def numcmp (a b : ℤ) : ℤ := if a = b then 0 else if a < b then -1 else 1

namespace TimeValue

/-- `osvrTimeValueNormalize`. -/
def normalize (tv : TimeValue) : Option TimeValue := do
  let rem := tv.microseconds.tdiv OSVR_USEC_PER_SEC
  let seconds ← int64 (tv.seconds + rem)
  let microseconds ← int32 (tv.microseconds - (← int32 (rem * OSVR_USEC_PER_SEC)))
  if seconds > 0 ∧ microseconds < 0 then
    return ⟨← int64 (seconds - 1), ← int32 (microseconds + OSVR_USEC_PER_SEC)⟩
  else if seconds < 0 ∧ microseconds > 0 then
    return ⟨← int64 (seconds + 1), ← int32 (microseconds - OSVR_USEC_PER_SEC)⟩
  else return ⟨seconds, microseconds⟩

/-- `osvrTimeValueSum`. -/
def sum (tvA tvB : TimeValue) : Option TimeValue := do
  normalize ⟨← int64 (tvA.seconds + tvB.seconds), ← int32 (tvA.microseconds + tvB.microseconds)⟩

/-- `osvrTimeValueDifference`. -/
def difference (tvA tvB : TimeValue) : Option TimeValue := do
  normalize ⟨← int64 (tvA.seconds - tvB.seconds), ← int32 (tvA.microseconds - tvB.microseconds)⟩

/-- `osvrTimeValueCmp`. -/
def cmp (tvA tvB : TimeValue) : ℤ :=
  let major := numcmp tvA.seconds tvB.seconds
  if major ≠ 0 then major else numcmp tvA.microseconds tvB.microseconds

/-- `osvrTimeValueDurationSeconds`. -/
def durationSeconds {K : Type*} [DivisionRing K] (tvA tvB : TimeValue) : K :=
  match tvA.difference tvB with
  | some A => A.seconds + A.microseconds / OSVR_USEC_PER_SEC
  -- The seconds do not fit.
  | none => 0

/-- A time that the fields can hold. -/
def Representable (tv : TimeValue) : Prop := InInt64 tv.seconds ∧ InInt32 tv.microseconds

instance (tv : TimeValue) : Decidable tv.Representable :=
  inferInstanceAs (Decidable (InInt64 tv.seconds ∧ InInt32 tv.microseconds))

/-- All of it in microseconds. -/
def total (tv : TimeValue) : ℤ := tv.seconds * OSVR_USEC_PER_SEC + tv.microseconds

/-- The normal form that the header describes. -/
abbrev Normal (tv : TimeValue) : Prop := SignedParts OSVR_USEC_PER_SEC tv.seconds tv.microseconds

def ofTotal (total : ℤ) : TimeValue :=
  ⟨total.tdiv OSVR_USEC_PER_SEC, total.tmod OSVR_USEC_PER_SEC⟩

/-- Whether the seconds of the normal form of a total fit. -/
abbrev Fits (total : ℤ) : Prop := InInt64 (total.tdiv OSVR_USEC_PER_SEC)

variable {tv tvA tvB : TimeValue}

/-! ## The normal form -/

theorem normal_ofTotal (total : ℤ) : (ofTotal total).Normal := signedParts_tdiv (by decide) total

theorem total_ofTotal (total : ℤ) : (ofTotal total).total = total := tdiv_mul_add_tmod _ _

theorem Normal.eq_ofTotal (h : tv.Normal) : tv = ofTotal tv.total := by
  have ⟨hwhole, hrest⟩ := h.tdiv_eq
  exact congrArg₂ TimeValue.mk hwhole.symm hrest.symm

theorem Normal.total_lt_iff (hA : tvA.Normal) (hB : tvB.Normal) :
    tvA.total < tvB.total ↔
      tvA.seconds < tvB.seconds ∨
        (tvA.seconds = tvB.seconds ∧ tvA.microseconds < tvB.microseconds) :=
  hA.lt_iff hB

theorem Normal.total_inj (hA : tvA.Normal) (hB : tvB.Normal) :
    tvA.total = tvB.total ↔
      tvA.seconds = tvB.seconds ∧ tvA.microseconds = tvB.microseconds := by
  apply Iff.intro
  · exact hA.unique hB
  · rintro ⟨hseconds, hmicroseconds⟩
    rw [total, total, hseconds, hmicroseconds]

/-! ## Normalizing -/

/-- What the division of the microseconds leaves. -/
theorem signedParts_rem (n : ℤ) :
    SignedParts OSVR_USEC_PER_SEC (n.tdiv OSVR_USEC_PER_SEC)
      (n - n.tdiv OSVR_USEC_PER_SEC * OSVR_USEC_PER_SEC) := by
  have hparts : SignedParts OSVR_USEC_PER_SEC _ _ := signedParts_tdiv (by decide) n
  have hsum := tdiv_mul_add_tmod n OSVR_USEC_PER_SEC
  have hrest : n - n.tdiv OSVR_USEC_PER_SEC * OSVR_USEC_PER_SEC = n.tmod OSVR_USEC_PER_SEC := by
    omega
  rw [hrest]
  exact hparts

/-- The value of a total, from any normal form that has it. -/
theorem ofTotal_eq {total seconds microseconds : ℤ}
    (h : SignedParts OSVR_USEC_PER_SEC seconds microseconds)
    (htotal : total = seconds * OSVR_USEC_PER_SEC + microseconds) :
    ofTotal total = ⟨seconds, microseconds⟩ := by
  have hnormal : (TimeValue.mk seconds microseconds).Normal := h
  rw [htotal]
  exact hnormal.eq_ofTotal.symm

theorem fits_iff {total seconds microseconds : ℤ}
    (h : SignedParts OSVR_USEC_PER_SEC seconds microseconds)
    (htotal : total = seconds * OSVR_USEC_PER_SEC + microseconds) :
    Fits total ↔ InInt64 seconds := by
  rw [htotal, Fits, h.tdiv_eq.1]

/-- The end of normalizing: a form with the total, whose seconds fit. -/
theorem some_eq_of_parts {total seconds microseconds : ℤ}
    (h : SignedParts OSVR_USEC_PER_SEC seconds microseconds)
    (htotal : total = seconds * OSVR_USEC_PER_SEC + microseconds) (hseconds : InInt64 seconds) :
    (do return ⟨← int64 seconds, ← int32 microseconds⟩ : Option TimeValue) =
      if Fits total then some (ofTotal total) else none := by
  have ⟨hlow, hhigh⟩ := abs_lt.mp h.small
  have hmicroseconds : InInt32 microseconds := by
    unfold InInt32 OSVR_USEC_PER_SEC at *
    omega
  rw [if_pos ((fits_iff h htotal).mpr hseconds), ofTotal_eq h htotal, int64_eq hseconds,
    int32_eq hmicroseconds]
  rfl

/-- Carry, and the repair of the signs: the result has the total, and none of the steps
overflows but the first. -/
theorem normalize_eq (h : tv.Representable) :
    tv.normalize = if Fits tv.total then some (ofTotal tv.total) else none := by
  have ⟨hseconds, hmicroseconds⟩ := h
  have hparts := signedParts_rem tv.microseconds
  rw [normalize, total]
  generalize tv.microseconds.tdiv OSVR_USEC_PER_SEC = rem at hparts ⊢
  generalize hrest : tv.microseconds - rem * OSVR_USEC_PER_SEC = rest at hparts
  have htotal : tv.seconds * OSVR_USEC_PER_SEC + tv.microseconds =
      (tv.seconds + rem) * OSVR_USEC_PER_SEC + rest := by
    rw [Int.add_mul]
    omega
  have ⟨hlow, hhigh⟩ := abs_lt.mp hparts.small
  have hnonneg := hparts.nonneg
  have hnonpos := hparts.nonpos
  have hremFits : InInt32 (rem * OSVR_USEC_PER_SEC) := by
    unfold InInt32 OSVR_USEC_PER_SEC at *
    omega
  have hrestFits : InInt32 rest := by
    unfold InInt32 OSVR_USEC_PER_SEC at *
    omega
  by_cases hfits : InInt64 (tv.seconds + rem)
  · have ⟨hfitsLow, hfitsHigh⟩ := hfits
    simp only [int64_eq hfits, int32_eq hremFits, int32_eq hrestFits, hrest, Option.bind_eq_bind,
      Option.bind_some]
    split
    next hsigns =>
      have hrepaired : SignedParts OSVR_USEC_PER_SEC (tv.seconds + rem - 1)
          (rest + OSVR_USEC_PER_SEC) :=
        ⟨abs_lt.mpr (by omega), by omega, by omega⟩
      have hsame : tv.seconds * OSVR_USEC_PER_SEC + tv.microseconds =
          (tv.seconds + rem - 1) * OSVR_USEC_PER_SEC + (rest + OSVR_USEC_PER_SEC) := by
        rw [htotal, Int.sub_mul]
        omega
      exact some_eq_of_parts hrepaired hsame ⟨by omega, by omega⟩
    next =>
      split
      next hsigns =>
        have hrepaired : SignedParts OSVR_USEC_PER_SEC (tv.seconds + rem + 1)
            (rest - OSVR_USEC_PER_SEC) :=
          ⟨abs_lt.mpr (by omega), by omega, by omega⟩
        have hsame : tv.seconds * OSVR_USEC_PER_SEC + tv.microseconds =
            (tv.seconds + rem + 1) * OSVR_USEC_PER_SEC + (rest - OSVR_USEC_PER_SEC) := by
          rw [htotal, Int.add_mul _ 1]
          omega
        exact some_eq_of_parts hrepaired hsame ⟨by omega, by omega⟩
      next =>
        have hnormal : SignedParts OSVR_USEC_PER_SEC (tv.seconds + rem) rest :=
          ⟨hparts.small, by omega, by omega⟩
        rw [← some_eq_of_parts hnormal htotal hfits, int64_eq hfits, int32_eq hrestFits]
        rfl
  · -- The seconds have left their range in the direction of the carry, and so of the rest.
    have hnormal : SignedParts OSVR_USEC_PER_SEC (tv.seconds + rem) rest := by
      unfold InInt64 at *
      exact ⟨hparts.small, by omega, by omega⟩
    rw [int64, if_neg hfits, if_neg (mt (fits_iff hnormal htotal).mp hfits)]
    rfl

/-- The totals that fit, by their bounds. -/
theorem fits_iff_bounds (total : ℤ) :
    Fits total ↔
      (-2 ^ 63 - 1) * OSVR_USEC_PER_SEC < total ∧ total < 2 ^ 63 * OSVR_USEC_PER_SEC := by
  have hparts : SignedParts OSVR_USEC_PER_SEC _ _ := signedParts_tdiv (by decide) total
  have hsum := tdiv_mul_add_tmod total OSVR_USEC_PER_SEC
  have ⟨hlow, hhigh⟩ := abs_lt.mp hparts.small
  have hnonneg := hparts.nonneg
  have hnonpos := hparts.nonpos
  unfold Fits InInt64 OSVR_USEC_PER_SEC at *
  omega

/-! ## Sums and differences -/

theorem sum_eq (hA : tvA.Normal) (hB : tvB.Normal) (hrepA : tvA.Representable)
    (hrepB : tvB.Representable) :
    tvA.sum tvB =
      if Fits (tvA.total + tvB.total) then some (ofTotal (tvA.total + tvB.total)) else none := by
  have ⟨hlowA, hhighA⟩ := abs_lt.mp hA.small
  have ⟨hlowB, hhighB⟩ := abs_lt.mp hB.small
  have hmicroseconds : InInt32 (tvA.microseconds + tvB.microseconds) := by
    unfold InInt32 OSVR_USEC_PER_SEC at *
    omega
  rw [sum, int32_eq hmicroseconds]
  by_cases hseconds : InInt64 (tvA.seconds + tvB.seconds)
  · have htotal : tvA.total + tvB.total = TimeValue.total
        ⟨tvA.seconds + tvB.seconds, tvA.microseconds + tvB.microseconds⟩ := by
      simp only [total, Int.add_mul]
      omega
    rw [int64_eq hseconds, htotal]
    exact normalize_eq ⟨hseconds, hmicroseconds⟩
  · -- Both have the sign of the sum, and so do their microseconds.
    have hnot : ¬Fits (tvA.total + tvB.total) := by
      have ⟨hsecondsA, _⟩ := hrepA
      have ⟨hsecondsB, _⟩ := hrepB
      have hnonnegA := hA.nonneg
      have hnonnegB := hB.nonneg
      have hnonposA := hA.nonpos
      have hnonposB := hB.nonpos
      rw [fits_iff_bounds]
      unfold total InInt64 OSVR_USEC_PER_SEC at *
      omega
    rw [int64, if_neg hseconds, if_neg hnot]
    rfl

/-- The seconds are subtracted first, so that they must not overflow by themselves. -/
theorem difference_eq (hA : tvA.Normal) (hB : tvB.Normal) :
    tvA.difference tvB =
      if InInt64 (tvA.seconds - tvB.seconds) ∧ Fits (tvA.total - tvB.total) then
        some (ofTotal (tvA.total - tvB.total))
      else none := by
  have ⟨hlowA, hhighA⟩ := abs_lt.mp hA.small
  have ⟨hlowB, hhighB⟩ := abs_lt.mp hB.small
  have hmicroseconds : InInt32 (tvA.microseconds - tvB.microseconds) := by
    unfold InInt32 OSVR_USEC_PER_SEC at *
    omega
  rw [difference, int32_eq hmicroseconds]
  by_cases hseconds : InInt64 (tvA.seconds - tvB.seconds)
  · have htotal : tvA.total - tvB.total = TimeValue.total
        ⟨tvA.seconds - tvB.seconds, tvA.microseconds - tvB.microseconds⟩ := by
      simp only [total, Int.sub_mul]
      omega
    simp only [int64_eq hseconds, htotal, hseconds, true_and]
    exact normalize_eq ⟨hseconds, hmicroseconds⟩
  · rw [int64, if_neg hseconds, if_neg fun h => hseconds h.1]
    rfl

/-! ## Comparisons -/

/-- Two normal forms compare as their totals. -/
theorem cmp_eq (hA : tvA.Normal) (hB : tvB.Normal) : tvA.cmp tvB = numcmp tvA.total tvB.total := by
  have hlt := hA.total_lt_iff hB
  have heq := hA.total_inj hB
  unfold cmp numcmp
  grind

theorem greater_eq (hA : tvA.Normal) (hB : tvB.Normal) :
    tvA.greater tvB = decide (tvB.total < tvA.total) := by
  rw [greater, ← Bool.decide_and, ← Bool.decide_or]
  apply decide_eq_decide.mpr
  rw [hB.total_lt_iff hA]
  omega

theorem Normal.key_lt_iff (hA : tvA.Normal) (hB : tvB.Normal) :
    tvA.key < tvB.key ↔ tvA.total < tvB.total := by
  apply decide_eq_decide.mp
  rw [← greater_eq_decide, greater_eq hB hA]

/-! ## All of it -/

theorem fits_of_inInt64 {total : ℤ} (h : InInt64 total) : Fits total := by
  rw [fits_iff_bounds]
  unfold InInt64 OSVR_USEC_PER_SEC at *
  omega

theorem inInt64_sub_seconds (hA : tvA.Normal) (hB : tvB.Normal)
    (h : InInt64 (tvA.total - tvB.total)) : InInt64 (tvA.seconds - tvB.seconds) := by
  have ⟨hlowA, hhighA⟩ := abs_lt.mp hA.small
  have ⟨hlowB, hhighB⟩ := abs_lt.mp hB.small
  unfold InInt64 total OSVR_USEC_PER_SEC at *
  omega

/-- Normalizing keeps the total and gives its only normal form; a sum and a difference of
normal forms have the total that they should; and normal forms compare as their totals. An
overflow happens just where the seconds do not fit, and never where the totals are of 64 bits. -/
theorem arithmetic_exact :
    (∀ tv : TimeValue, tv.Representable →
      tv.normalize = if Fits tv.total then some (ofTotal tv.total) else none) ∧
    (∀ total, (ofTotal total).Normal ∧ (ofTotal total).total = total ∧
      (∀ other : TimeValue, other.Normal → other.total = total → other = ofTotal total) ∧
      (InInt64 total → Fits total)) ∧
    ∀ tvA tvB : TimeValue, tvA.Normal → tvB.Normal → tvA.Representable → tvB.Representable →
      (tvA.sum tvB =
        if Fits (tvA.total + tvB.total) then some (ofTotal (tvA.total + tvB.total)) else none) ∧
      (tvA.difference tvB =
        if InInt64 (tvA.seconds - tvB.seconds) ∧ Fits (tvA.total - tvB.total) then
          some (ofTotal (tvA.total - tvB.total))
        else none) ∧
      (InInt64 (tvA.total - tvB.total) → InInt64 (tvA.seconds - tvB.seconds)) ∧
      tvA.cmp tvB = numcmp tvA.total tvB.total ∧
      tvA.greater tvB = decide (tvB.total < tvA.total) := by
  apply And.intro fun tv hrep => normalize_eq hrep
  apply And.intro
  · intro total
    refine ⟨normal_ofTotal total, total_ofTotal total, ?_, fits_of_inInt64⟩
    intro other hother htotal
    rw [← htotal]
    exact hother.eq_ofTotal
  · intro tvA tvB hA hB hrepA hrepB
    exact ⟨sum_eq hA hB hrepA hrepB, difference_eq hA hB, inInt64_sub_seconds hA hB,
      cmp_eq hA hB, greater_eq hA hB⟩

theorem normal_threeQuarters : (TimeValue.mk 1 750000).Normal :=
  ⟨by decide, by decide, by decide⟩

theorem normal_negative : (TimeValue.mk (-2) (-500000)).Normal :=
  ⟨by decide, by decide, by decide⟩

theorem arithmetic_exact_threeQuarters :
    (TimeValue.mk 2 (-250000)).normalize = some ⟨1, 750000⟩ ∧
      (TimeValue.mk 1 750000).sum ⟨-2, -500000⟩ = some ⟨0, -750000⟩ ∧
      (TimeValue.mk 1 750000).difference ⟨-2, -500000⟩ = some ⟨4, 250000⟩ ∧
      (TimeValue.mk 1 750000).cmp ⟨-2, -500000⟩ = 1 := by
  have ⟨hnormalize, _, hpairs⟩ := arithmetic_exact
  have ⟨hsum, hdifference, _, hcmp, _⟩ := hpairs ⟨1, 750000⟩ ⟨-2, -500000⟩ normal_threeQuarters
    normal_negative (by decide) (by decide)
  have hfirst := hnormalize ⟨2, -250000⟩ (by decide)
  exact ⟨hfirst, hsum, hdifference, hcmp⟩

end TimeValue
end OSVR.Util
