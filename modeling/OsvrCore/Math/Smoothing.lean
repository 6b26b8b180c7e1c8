/-
# Smoothing

A value takes a part of each input and keeps the rest of what it was. It stays in any
convex set that the inputs are in. An input that stays the same is approached, at every
step by at least the least part that is taken.
-/

import Mathlib.Analysis.Convex.Basic

set_option autoImplicit false

namespace OSVR.Math

universe u v

variable {K : Type u} {E : Type v}

/-- A part of the new value, and the rest of the old one. -/
def smooth [Ring K] [AddCommGroup E] [Module K E] (old new : E) (part : K) : E :=
  part • new + (1 - part) • old

section Module

variable [Ring K] [AddCommGroup E] [Module K E]

theorem sub_smooth (old new : E) (part : K) :
    new - smooth old new part = (1 - part) • (new - old) := by
  rw [smooth, smul_sub, sub_smul, sub_smul, one_smul, one_smul]
  abel

end Module

section Order

variable [Field K] [LinearOrder K] [IsStrictOrderedRing K] {part least : K}

theorem smooth_mem [AddCommGroup E] [Module K E] {S : Set E} (hS : Convex K S) {old new : E}
    (hold : old ∈ S) (hnew : new ∈ S) (hpart : 0 ≤ part) (hpart_le : part ≤ 1) :
    smooth old new part ∈ S :=
  hS hnew hold hpart (sub_nonneg.mpr hpart_le) (add_sub_cancel part 1)

theorem abs_sub_smooth_le {old new : K} (hleast : least ≤ part) (hpart : part ≤ 1) :
    |new - smooth old new part| ≤ (1 - least) * |new - old| := by
  rw [sub_smooth, smul_eq_mul, abs_mul, abs_of_nonneg (sub_nonneg.mpr hpart)]
  exact mul_le_mul_of_nonneg_right (sub_le_sub_left hleast 1) (abs_nonneg _)

end Order

end OSVR.Math
