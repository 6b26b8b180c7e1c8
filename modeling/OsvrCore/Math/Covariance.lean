/-
# Covariances

A covariance is a positive semidefinite matrix. It stays one when a linear system moves on
and noise is added, and when a measurement takes away what it explains. The equation for
the gain is solved, not divided by, so that a covariance need not have an inverse.
-/

import Mathlib.LinearAlgebra.Matrix.PosDef

set_option autoImplicit false

namespace OSVR.Math

open Matrix

universe u v

variable {K : Type u} {n m : Type v}

/-- The columns of a matrix, solved one by one. -/
def solveColumns (solve : (m → K) → m → K) (B : Matrix m n K) : Matrix m n K :=
  .of fun row column => solve (fun k => B k column) row

section Field

variable [Field K] [Fintype m]

theorem mul_solveColumns {S : Matrix m m K} {solve : (m → K) → m → K}
    (hsolve : ∀ b, S *ᵥ solve b = b) (B : Matrix m n K) : S * solveColumns solve B = B := by
  ext row column
  exact congrFun (hsolve fun k => B k column) row

end Field

section Order

variable [Field K] [PartialOrder K] [StarRing K]

theorem isSymm_of_posSemidef [TrivialStar K] {P : Matrix n n K} (hP : P.PosSemidef) : Pᵀ = P := by
  have hsymm := hP.isHermitian
  rwa [IsHermitian, conjTranspose_eq_transpose_of_trivial] at hsymm

theorem posSemidef_congruence [TrivialStar K] [Fintype n] [Finite m] {P : Matrix n n K}
    (hP : P.PosSemidef) (A : Matrix m n K) : (A * P * Aᵀ).PosSemidef := by
  have hcongruence := hP.mul_mul_conjTranspose_same A
  rwa [conjTranspose_eq_transpose_of_trivial] at hcongruence

/-- Two parts that have nothing to do with each other. -/
theorem posSemidef_fromBlocks [AddLeftMono K] [Fintype n] [Fintype m] {A : Matrix n n K}
    {B : Matrix m m K} (hA : A.PosSemidef)
    (hB : B.PosSemidef) : (fromBlocks A 0 0 B).PosSemidef := by
  refine .of_dotProduct_mulVec_nonneg ?_ fun x => ?_
  · rw [IsHermitian, fromBlocks_conjTranspose, hA.isHermitian.eq, hB.isHermitian.eq,
      conjTranspose_zero, conjTranspose_zero]
  · rw [fromBlocks_mulVec, zero_mulVec, zero_mulVec, add_zero, zero_add, dotProduct_block,
      Sum.elim_comp_inl, Sum.elim_comp_inr]
    exact add_nonneg (hA.dotProduct_mulVec_nonneg _) (hB.dotProduct_mulVec_nonneg _)

end Order

section Update

variable [Field K] [PartialOrder K] [StarRing K] [TrivialStar K] [Fintype n] [Fintype m]
  {P : Matrix n n K} {H : Matrix m n K} {R : Matrix m m K} {W : Matrix m n K}

/-- The covariance of what is measured, which includes the noise of the measurement. -/
theorem posDef_innovation [AddLeftMono K] (hP : P.PosSemidef) (H : Matrix m n K) (hR : R.PosDef) :
    (H * (P * Hᵀ) + R).PosDef := by
  rw [← Matrix.mul_assoc]
  exact .posSemidef_add (posSemidef_congruence hP H) hR

/-- What is left is a sum of squares, where `W` is the transposed gain. -/
theorem posterior_eq [DecidableEq n] (hP : P.PosSemidef)
    (hW : (H * (P * Hᵀ) + R) * W = (P * Hᵀ)ᵀ) :
    P - P * Hᵀ * W = (1 - Wᵀ * H) * P * (1 - Wᵀ * H)ᵀ + Wᵀ * R * W := by
  have hHP : (P * Hᵀ)ᵀ = H * P := by
    rw [transpose_mul, transpose_transpose, isSymm_of_posSemidef hP]
  rw [hHP] at hW
  have hgain : Wᵀ * (H * (P * Hᵀ) * W) + Wᵀ * (R * W) = Wᵀ * (H * P) := by
    rw [← Matrix.mul_add, ← Matrix.add_mul, hW]
  have hleft : (1 - Wᵀ * H) * P * (1 - Wᵀ * H)ᵀ =
      P - P * Hᵀ * W - (Wᵀ * (H * P) - Wᵀ * (H * (P * Hᵀ) * W)) := by
    rw [transpose_sub, transpose_one, transpose_mul, transpose_transpose, Matrix.sub_mul,
      Matrix.one_mul, Matrix.mul_sub, Matrix.mul_one, Matrix.sub_mul]
    simp only [Matrix.mul_assoc]
    abel
  rw [hleft, ← hgain, Matrix.mul_assoc Wᵀ R]
  abel

/-- A measurement leaves a covariance. -/
theorem posSemidef_posterior [AddLeftMono K] (hP : P.PosSemidef) (hR : R.PosSemidef)
    (hW : (H * (P * Hᵀ) + R) * W = (P * Hᵀ)ᵀ) : (P - P * Hᵀ * W).PosSemidef := by
  classical
  rw [posterior_eq hP hW]
  refine (posSemidef_congruence hP _).add ?_
  have hnoise := posSemidef_congruence hR Wᵀ
  rwa [transpose_transpose] at hnoise

/-- What a measurement takes away is a covariance. -/
theorem posSemidef_explained [AddLeftMono K] (hP : P.PosSemidef) (hR : R.PosSemidef)
    (hW : (H * (P * Hᵀ) + R) * W = (P * Hᵀ)ᵀ) : (P * Hᵀ * W).PosSemidef := by
  have hS : (H * (P * Hᵀ) + R).PosSemidef := by
    rw [← Matrix.mul_assoc]
    exact (posSemidef_congruence hP H).add hR
  have hsquare : P * Hᵀ * W = Wᵀ * (H * (P * Hᵀ) + R) * Wᵀᵀ := by
    have htransposed := congrArg transpose hW
    rw [transpose_mul, transpose_transpose, isSymm_of_posSemidef hS] at htransposed
    rw [htransposed, transpose_transpose]
  rw [hsquare]
  exact posSemidef_congruence hS Wᵀ

end Update

end OSVR.Math
