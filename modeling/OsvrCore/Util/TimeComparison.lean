/-
# Comparisons that assert the normal form

The overloads for references assert of both times that they are normalized, by a
predicate of their own. It asks of a time that its seconds are positive just when its
microseconds are, which of the normal forms fails for those with one of them zero.
-/

import OsvrCore.Util.TimeArithmetic

set_option autoImplicit false

namespace OSVR.Util

open Math

namespace TimeValue

/-- `osvrTimeValueIsNormalized`. The magnitude of the least number overflows. -/
def isNormalized (tv : TimeValue) : Option Bool := do
  let magnitude ← int32 |tv.microseconds|
  return decide (magnitude < OSVR_USEC_PER_SEC) &&
    (decide (tv.seconds > 0) == decide (tv.microseconds > 0))

/-- A comparison behind the assertions of both arguments, where there are any; there is no
result when one of them fails. -/
def asserted (asserts : Bool) (comparison : TimeValue → TimeValue → Bool) (tvA tvB : TimeValue) :
    Option Bool :=
  if asserts = true then do
    if (← tvA.isNormalized) = true ∧ (← tvB.isNormalized) = true then comparison tvA tvB else none
  else comparison tvA tvB

/-- The overload of `osvrTimeValueGreater` for references. -/
def greaterAsserted (asserts : Bool) : TimeValue → TimeValue → Option Bool :=
  asserted asserts greater

/-- `operator>`. -/
def gt (asserts : Bool) (tvA tvB : TimeValue) : Option Bool := greaterAsserted asserts tvA tvB

/-- `operator<`, with the arguments the other way round. -/
def lt (asserts : Bool) (tvA tvB : TimeValue) : Option Bool := greaterAsserted asserts tvB tvA

/-- `operator==`. -/
def eq (asserts : Bool) : TimeValue → TimeValue → Option Bool :=
  asserted asserts fun tvA tvB =>
    decide (tvA.seconds = tvB.seconds) && decide (tvA.microseconds = tvB.microseconds)

/-- `operator!=`. -/
def ne (asserts : Bool) : TimeValue → TimeValue → Option Bool :=
  asserted asserts fun tvA tvB =>
    decide (tvA.seconds ≠ tvB.seconds) || decide (tvA.microseconds ≠ tvB.microseconds)

/-- The totals of times that pass for normalized: no positive ones below a second or of
whole seconds. -/
def PassesFor (total : ℤ) : Prop :=
  total ≤ 0 ∨ (OSVR_USEC_PER_SEC < total ∧ ¬OSVR_USEC_PER_SEC ∣ total)

instance : DecidablePred PassesFor := fun total =>
  inferInstanceAs (Decidable (total ≤ 0 ∨ (OSVR_USEC_PER_SEC < total ∧ _)))

variable {asserts : Bool} {tv tvA tvB : TimeValue} {comparison : TimeValue → TimeValue → Bool}

/-- Of a normal form the predicate compares the signs only. -/
theorem Normal.isNormalized_eq (h : tv.Normal) :
    tv.isNormalized = some (decide (PassesFor tv.total)) := by
  have ⟨hlow, hhigh⟩ := abs_lt.mp h.small
  have hmagnitude : InInt32 |tv.microseconds| := by
    have hnonneg := abs_nonneg tv.microseconds
    have hsmall := h.small
    unfold InInt32 OSVR_USEC_PER_SEC at *
    omega
  have hnonneg := h.nonneg
  have hnonpos := h.nonpos
  have hsigns : (tv.seconds > 0 ↔ tv.microseconds > 0) ↔ PassesFor tv.total := by
    unfold PassesFor total OSVR_USEC_PER_SEC at *
    omega
  have hdecide : (decide (tv.seconds > 0) == decide (tv.microseconds > 0)) =
      decide (PassesFor tv.total) := by
    by_cases hseconds : tv.seconds > 0 <;> by_cases hmicroseconds : tv.microseconds > 0 <;>
      simp [hseconds, hmicroseconds, ← hsigns]
  rw [isNormalized, int32_eq hmagnitude]
  simp only [Option.bind_eq_bind, Option.bind_some, h.small, decide_true, Bool.true_and, hdecide]
  rfl

theorem isNormalized_iff (h : tv.Normal) : tv.isNormalized = some true ↔ PassesFor tv.total := by
  rw [h.isNormalized_eq]
  simp

theorem isNormalized_ofTotal_iff (total : ℤ) :
    (ofTotal total).isNormalized = some true ↔ PassesFor total := by
  rw [isNormalized_iff (normal_ofTotal total), total_ofTotal]

/-! ## The comparisons -/

/-- Nothing but a failed assertion keeps a comparison from its result. -/
theorem asserted_eq_some_iff {result : Bool} :
    asserted asserts comparison tvA tvB = some result ↔
      comparison tvA tvB = result ∧
        (asserts = true → tvA.isNormalized = some true ∧ tvB.isNormalized = some true) := by
  unfold asserted
  cases asserts with
  | false => simp
  | true =>
      cases tvA.isNormalized with
      | none => simp
      | some first =>
          cases tvB.isNormalized with
          | none => simp
          | some second => cases first <;> cases second <;> simp

/-- The assertions of two normal forms, whatever the comparison is. -/
theorem asserted_isSome_iff (hA : tvA.Normal) (hB : tvB.Normal) :
    (asserted true comparison tvA tvB).isSome = true ↔
      PassesFor tvA.total ∧ PassesFor tvB.total := by
  rw [← isNormalized_iff hA, ← isNormalized_iff hB, Option.isSome_iff_exists]
  simp [asserted_eq_some_iff]

/-! ## Results -/

variable {result : TimeValue}

theorem normalize_eq_some (h : tv.Representable) (hresult : tv.normalize = some result) :
    result = ofTotal tv.total := by
  rw [normalize_eq h] at hresult
  split at hresult
  · exact (Option.some_inj.mp hresult).symm
  · cases hresult

/-- Seconds and microseconds that fit their fields are normalized to their total. -/
theorem normalize_fields_eq_some {seconds microseconds : ℤ}
    (hresult : ((int64 seconds).bind fun s => (int32 microseconds).bind fun us =>
      normalize ⟨s, us⟩) = some result) :
    result = ofTotal (total ⟨seconds, microseconds⟩) := by
  simp only [Option.bind_eq_some_iff] at hresult
  obtain ⟨s, hseconds, us, hmicroseconds, hnormalize⟩ := hresult
  obtain ⟨hseconds64, heqSeconds⟩ := inInt64_of_int64 hseconds
  obtain ⟨hmicroseconds32, heqMicroseconds⟩ := inInt32_of_int32 hmicroseconds
  subst heqSeconds heqMicroseconds
  exact normalize_eq_some ⟨hseconds64, hmicroseconds32⟩ hnormalize

/-- A result of a sum has the total of the sum, whether the two times are normalized or not. -/
theorem sum_eq_some (hresult : tvA.sum tvB = some result) :
    result = ofTotal (tvA.total + tvB.total) := by
  rw [normalize_fields_eq_some hresult]
  apply congrArg
  simp only [total, Int.add_mul]
  omega

theorem difference_eq_some (hresult : tvA.difference tvB = some result) :
    result = ofTotal (tvA.total - tvB.total) := by
  rw [normalize_fields_eq_some hresult]
  apply congrArg
  simp only [total, Int.sub_mul]
  omega

end TimeValue
end OSVR.Util
