/-
# Machine integers

Signed integers of a width, as integers in a range. An operation whose result leaves the
range overflows, which is undefined.
-/

import Mathlib.Tactic.Linarith
import Mathlib.Tactic.Ring

set_option autoImplicit false

namespace OSVR.Util

/-- The values of an `int64_t`. -/
def InInt64 (n : ℤ) : Prop := -2 ^ 63 ≤ n ∧ n < 2 ^ 63

/-- The values of an `int32_t`. -/
def InInt32 (n : ℤ) : Prop := -2 ^ 31 ≤ n ∧ n < 2 ^ 31

instance : DecidablePred InInt64 := fun n => inferInstanceAs (Decidable (_ ≤ n ∧ n < _))

instance : DecidablePred InInt32 := fun n => inferInstanceAs (Decidable (_ ≤ n ∧ n < _))

/-- The result of an operation of 64 bits. -/
def int64 (n : ℤ) : Option ℤ := if InInt64 n then some n else none

/-- The result of an operation of 32 bits. -/
def int32 (n : ℤ) : Option ℤ := if InInt32 n then some n else none

/-- `static_cast<int>` of a `size_t`, which keeps the low bits. -/
def toInt (i : ℕ) : ℤ := Int.bmod i (2 ^ 32)

theorem toInt_eq {i : ℕ} (h : i < 2 ^ 31) : toInt i = i := by
  apply Int.bmod_eq_of_le <;> omega

theorem int32_eq {n : ℤ} (h : InInt32 n) : int32 n = some n := if_pos h

theorem int64_eq {n : ℤ} (h : InInt64 n) : int64 n = some n := if_pos h

theorem inInt64_of_int64 {n m : ℤ} (h : int64 n = some m) : InInt64 n ∧ m = n := by
  unfold int64 at h
  split at h
  next hn => exact ⟨hn, (Option.some_inj.mp h).symm⟩
  next => cases h

theorem inInt32_of_int32 {n m : ℤ} (h : int32 n = some m) : InInt32 n ∧ m = n := by
  unfold int32 at h
  split at h
  next hn => exact ⟨hn, (Option.some_inj.mp h).symm⟩
  next => cases h

end OSVR.Util
