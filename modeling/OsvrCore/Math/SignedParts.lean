/-
# Signed parts

A number of units and a rest, neither of the sign opposite to the other. Every integer
has exactly one such form, which is what truncating division gives, and two of them
compare as the integers do: by the units first.
-/

import Mathlib.Algebra.Order.Group.Unbundled.Int
import Mathlib.Tactic.Linarith

set_option autoImplicit false

namespace OSVR.Math

structure SignedParts (unit whole rest : ℤ) : Prop where
  small : |rest| < unit
  nonneg : 0 < whole → 0 ≤ rest
  nonpos : whole < 0 → rest ≤ 0

variable {unit whole rest otherWhole otherRest : ℤ}

/-- More whole units are more, whatever the rests are. -/
theorem SignedParts.lt_of_whole_lt (h : SignedParts unit whole rest)
    (hother : SignedParts unit otherWhole otherRest) (hlt : whole < otherWhole) :
    whole * unit + rest < otherWhole * unit + otherRest := by
  have ⟨hlow, hhigh⟩ := abs_lt.mp h.small
  have ⟨hotherLow, _⟩ := abs_lt.mp hother.small
  have hunit : 0 ≤ unit := by omega
  have hstep : (whole + 1) * unit ≤ otherWhole * unit := Int.mul_le_mul_of_nonneg_right hlt hunit
  have hrests : rest < otherRest + unit := by
    rcases Int.lt_or_le whole 0 with hneg | hnonneg
    · have hrest := h.nonpos hneg
      omega
    · have hotherRest := hother.nonneg (by omega)
      omega
  rw [Int.add_mul, Int.one_mul] at hstep
  omega

/-- The integers compare by the units first. -/
theorem SignedParts.lt_iff (h : SignedParts unit whole rest)
    (hother : SignedParts unit otherWhole otherRest) :
    whole * unit + rest < otherWhole * unit + otherRest ↔
      whole < otherWhole ∨ (whole = otherWhole ∧ rest < otherRest) := by
  rcases Int.lt_trichotomy whole otherWhole with hlt | heq | hgt
  · have htotal := h.lt_of_whole_lt hother hlt
    omega
  · subst heq
    omega
  · have htotal := hother.lt_of_whole_lt h hgt
    omega

theorem SignedParts.unique (h : SignedParts unit whole rest)
    (hother : SignedParts unit otherWhole otherRest)
    (htotal : whole * unit + rest = otherWhole * unit + otherRest) :
    whole = otherWhole ∧ rest = otherRest := by
  have hnot := mt (h.lt_iff hother).mpr (by omega)
  have hnotOther := mt (hother.lt_iff h).mpr (by omega)
  omega

theorem tdiv_mul_add_tmod (n unit : ℤ) : n.tdiv unit * unit + n.tmod unit = n := by
  rw [Int.mul_comm]
  exact Int.mul_tdiv_add_tmod n unit

/-- Truncating division gives such a form. -/
theorem signedParts_tdiv (hunit : 0 < unit) (n : ℤ) :
    SignedParts unit (n.tdiv unit) (n.tmod unit) := by
  have hsum := tdiv_mul_add_tmod n unit
  rcases Int.le_total 0 n with hn | hn
  · have hrest := Int.tmod_nonneg unit hn
    have hwhole := Int.tdiv_nonneg hn hunit.le
    have hsmall := Int.tmod_lt_of_pos n hunit
    exact ⟨abs_lt.mpr ⟨by omega, hsmall⟩, fun _ => hrest, by omega⟩
  · have hrest : n.tmod unit ≤ 0 := by
      have := Int.tmod_nonneg unit (Int.neg_nonneg_of_nonpos hn)
      rw [Int.neg_tmod] at this
      omega
    have hwhole : n.tdiv unit ≤ 0 := by
      have := Int.tdiv_nonneg (Int.neg_nonneg_of_nonpos hn) hunit.le
      rw [Int.neg_tdiv] at this
      omega
    have hsmall : -unit < n.tmod unit := by
      have := Int.tmod_lt_of_pos (-n) hunit
      rw [Int.neg_tmod] at this
      omega
    exact ⟨abs_lt.mpr ⟨hsmall, by omega⟩, by omega, fun _ => hrest⟩

/-- Any such form is the one that truncating division gives. -/
theorem SignedParts.tdiv_eq (h : SignedParts unit whole rest) :
    (whole * unit + rest).tdiv unit = whole ∧ (whole * unit + rest).tmod unit = rest := by
  have hunit : 0 < unit := (abs_nonneg rest).trans_lt h.small
  have hparts := signedParts_tdiv hunit (whole * unit + rest)
  exact hparts.unique h (tdiv_mul_add_tmod _ _)

end OSVR.Math
