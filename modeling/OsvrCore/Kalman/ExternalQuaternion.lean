/-
# Small rotations as quaternions

A small rotation is a vector, which the exponential map makes a quaternion of. Near zero
its factor is computed from a series. The quaternion that a pose keeps beside its vector is
a unit quaternion as long as new ones are not zero.
-/

import OsvrCore.Kalman.PoseProcess
import OsvrCore.Util.EigenInterop

set_option autoImplicit false

namespace OSVR.Kalman

open Util

universe u

variable {K : Type u} [Field K] [LinearOrder K]

/-- Where the series is used. -/
def QSINC_CUTOFF : K := 1 / (10000 : ℕ)

/-- `qsinc`. -/
def qsinc (math : Libm K) (theta : K) : K :=
  if theta < QSINC_CUTOFF then 1 - theta * theta / (6 : ℕ) else math.sin theta / theta

/-- `vecToQuat`. -/
def vecToQuat (math : Libm K) (incRotVec : Fin 3 → K) : Util.Quaternion K :=
  let half axis := incRotVec axis / (2 : ℕ)
  let theta := math.sqrt (∑ axis, half axis * half axis)
  let scale := qsinc math (theta / (2 : ℕ)) / (2 : ℕ)
  let vec axis := scale * incRotVec axis / (2 : ℕ)
  Quaternion.normalized math
    { w := math.cos (theta / (2 : ℕ))
      x := vec xAxis
      y := vec yAxis
      z := vec zAxis }

/-- The quaternions of Eigen. -/
def eigenQuats (math : Libm K) : QuatArithmetic K (Util.Quaternion K) where
  identity := .identity
  mul := Quaternion.mul
  normalized := Quaternion.normalized math
  vecToQuat := vecToQuat math
  toRotationMatrix := Quaternion.toRotationMatrix

/-! ## Unit quaternions -/

/-- The quaternions of Eigen over the real numbers. -/
noncomputable abbrev realQuats : QuatArithmetic ℝ (Util.Quaternion ℝ) :=
  eigenQuats Quaternion.realMath

theorem squaredNorm_mul (a b : Util.Quaternion ℝ) :
    (a.mul b).squaredNorm = a.squaredNorm * b.squaredNorm := by
  simp only [Quaternion.squaredNorm, Quaternion.dot, Quaternion.mul]
  ring

/-- The exponential map gives unit quaternions. -/
theorem squaredNorm_vecToQuat (incRotVec : Fin 3 → ℝ) :
    (vecToQuat Quaternion.realMath incRotVec).squaredNorm = 1 := by
  unfold vecToQuat
  extract_lets half theta scale vec
  apply Quaternion.squaredNorm_normalized
  have htheta : 0 ≤ theta := Real.sqrt_nonneg _
  have hsquare : theta * theta = half 0 * half 0 + half 1 * half 1 + half 2 * half 2 := by
    rw [← Fin.sum_univ_three fun axis => half axis * half axis]
    exact Real.mul_self_sqrt (Finset.sum_nonneg fun axis _ => mul_self_nonneg (half axis))
  have hnorm : (⟨Real.cos (theta / (2 : ℕ)), vec 0, vec 1, vec 2⟩ : Util.Quaternion ℝ).squaredNorm =
      Real.cos (theta / 2) ^ 2 +
        (qsinc Quaternion.realMath (theta / (2 : ℕ)) * (theta / 2)) ^ 2 := by
    simp only [Quaternion.squaredNorm, Quaternion.dot, vec, scale]
    simp only [half] at hsquare
    push_cast at hsquare ⊢
    linear_combination -(qsinc Quaternion.realMath (theta / 2) ^ 2 / 4) * hsquare
  show 0 < (⟨Real.cos (theta / (2 : ℕ)), vec 0, vec 1, vec 2⟩ : Util.Quaternion ℝ).squaredNorm
  rw [hnorm, qsinc]
  push_cast
  split
  next hsmall =>
    -- The series is used only where the cosine is not zero.
    have hcos : 0 < Real.cos (theta / 2) := by
      apply Real.cos_pos_of_mem_Ioo
      have hcutoff : (QSINC_CUTOFF : ℝ) < 1 := by norm_num [QSINC_CUTOFF]
      constructor <;> linarith [Real.two_le_pi]
    positivity
  next hlarge =>
    have hne : theta / 2 ≠ 0 := by
      intro hzero
      rw [hzero, QSINC_CUTOFF] at hlarge
      norm_num at hlarge
    rw [show Quaternion.realMath.sin (theta / 2) / (theta / 2) * (theta / 2) =
      Real.sin (theta / 2) from div_mul_cancel₀ _ hne, Real.cos_sq_add_sin_sq]
    exact one_pos

open PoseExternalizedRotation in
theorem squaredNorm_getCombinedQuaternion {state : State ℝ (Util.Quaternion ℝ)}
    (hunit : state.orientation.squaredNorm = 1) :
    (state.getCombinedQuaternion realQuats).squaredNorm = 1 := by
  apply Quaternion.squaredNorm_normalized
  rw [show realQuats.mul _ _ = Quaternion.mul _ _ from rfl, squaredNorm_mul, hunit, mul_one]
  exact (squaredNorm_vecToQuat _).symm ▸ one_pos

end OSVR.Kalman
