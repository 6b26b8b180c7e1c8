/-
# Affine maps as matrices

A square matrix of one more dimension whose last row is that of the identity stands for a
linear map followed by a translation. Such matrices are closed under products, the linear
part of a product is that of the factors, and two affine maps around a third one move the
translation of that through their linear parts.
-/

import Mathlib.Algebra.BigOperators.Fin
import Mathlib.Data.Fin.Tuple.Basic
import Mathlib.Data.Matrix.Mul

set_option autoImplicit false

namespace OSVR.Math

open Matrix

universe u

variable {K : Type u} {n : ℕ}

/-- The matrix of a linear map and a translation. -/
def affineMatrix [Zero K] [One K] (linear : Matrix (Fin n) (Fin n) K) (translation : Fin n → K) :
    Matrix (Fin (n + 1)) (Fin (n + 1)) K :=
  Matrix.of (Fin.snoc (α := fun _ => Fin (n + 1) → K)
    (fun row => Fin.snoc (linear row) (translation row)) (Fin.snoc 0 1))

/-- The top left corner. -/
def linearPart (matrix : Matrix (Fin (n + 1)) (Fin (n + 1)) K) : Matrix (Fin n) (Fin n) K :=
  matrix.submatrix Fin.castSucc Fin.castSucc

/-- The last column, less its last entry. -/
def translationPart (matrix : Matrix (Fin (n + 1)) (Fin (n + 1)) K) : Fin n → K :=
  fun row => matrix row.castSucc (Fin.last n)

/-- The last row is that of the identity. -/
structure IsAffine [Zero K] [One K] (matrix : Matrix (Fin (n + 1)) (Fin (n + 1)) K) : Prop where
  row : ∀ column : Fin n, matrix (Fin.last n) column.castSucc = 0
  corner : matrix (Fin.last n) (Fin.last n) = 1

section Entries

variable [Zero K] [One K] (linear : Matrix (Fin n) (Fin n) K) (translation : Fin n → K)

theorem isAffine_affineMatrix : IsAffine (affineMatrix linear translation) where
  row column := by simp [affineMatrix]
  corner := by simp [affineMatrix]

@[simp] theorem linearPart_affineMatrix :
    linearPart (affineMatrix linear translation) = linear := by
  ext row column
  simp [linearPart, affineMatrix]

@[simp] theorem translationPart_affineMatrix :
    translationPart (affineMatrix linear translation) = translation := by
  funext row
  simp [translationPart, affineMatrix]

end Entries

/-! ## Products -/

section Products

variable [Semiring K] {left right : Matrix (Fin (n + 1)) (Fin (n + 1)) K}

theorem isAffine_one : IsAffine (1 : Matrix (Fin (n + 1)) (Fin (n + 1)) K) where
  row column := Matrix.one_apply_ne (Fin.castSucc_lt_last column).ne'
  corner := Matrix.one_apply_eq _

@[simp] theorem linearPart_one :
    linearPart (1 : Matrix (Fin (n + 1)) (Fin (n + 1)) K) = 1 :=
  Matrix.submatrix_one _ (Fin.castSucc_injective n)

theorem IsAffine.mul (hleft : IsAffine left) (hright : IsAffine right) :
    IsAffine (left * right) where
  row column := by
    rw [Matrix.mul_apply, Fin.sum_univ_castSucc, hright.row, mul_zero, add_zero]
    exact Finset.sum_eq_zero fun index _ => by rw [hleft.row, zero_mul]
  corner := by
    rw [Matrix.mul_apply, Fin.sum_univ_castSucc, hleft.corner, hright.corner, one_mul]
    have hzero : ∑ index : Fin n, left (Fin.last n) index.castSucc *
        right index.castSucc (Fin.last n) = 0 :=
      Finset.sum_eq_zero fun index _ => by rw [hleft.row, zero_mul]
    rw [hzero, zero_add]

/-- The linear part of a product; only the second factor has to be affine. -/
theorem linearPart_mul (hright : IsAffine right) :
    linearPart (left * right) = linearPart left * linearPart right := by
  ext row column
  simp only [linearPart, Matrix.submatrix_apply, Matrix.mul_apply, Fin.sum_univ_castSucc,
    hright.row, mul_zero, add_zero]

theorem translationPart_mul (hright : IsAffine right) :
    translationPart (left * right) =
      linearPart left *ᵥ translationPart right + translationPart left := by
  funext row
  simp only [translationPart, linearPart, Matrix.mul_apply, Fin.sum_univ_castSucc, hright.corner,
    mul_one, Pi.add_apply, Matrix.mulVec, dotProduct, Matrix.submatrix_apply]

theorem isAffine_prod {matrices : List (Matrix (Fin (n + 1)) (Fin (n + 1)) K)}
    (h : ∀ matrix ∈ matrices, IsAffine matrix) : IsAffine matrices.prod := by
  induction matrices with
  | nil => exact isAffine_one
  | cons matrix matrices ih =>
      rw [List.forall_mem_cons] at h
      rw [List.prod_cons]
      exact h.1.mul (ih h.2)

/-- The linear part of a product of any number of affine maps. -/
theorem linearPart_prod {matrices : List (Matrix (Fin (n + 1)) (Fin (n + 1)) K)}
    (h : ∀ matrix ∈ matrices, IsAffine matrix) :
    linearPart matrices.prod = (matrices.map linearPart).prod := by
  induction matrices with
  | nil => exact linearPart_one
  | cons matrix matrices ih =>
      rw [List.forall_mem_cons] at h
      rw [List.prod_cons, linearPart_mul (isAffine_prod h.2), ih h.2, List.map_cons,
        List.prod_cons]

end Products

/-! ## Two maps around a third one -/

section Around

variable [CommRing K] {pre post : Matrix (Fin (n + 1)) (Fin (n + 1)) K}

/-- The translation of what two affine maps make of a third one. -/
theorem translationPart_around (hpre : IsAffine pre) (linear : Matrix (Fin n) (Fin n) K)
    (translation : Fin n → K) :
    translationPart (post * affineMatrix linear translation * pre) =
      linearPart post *ᵥ (linear *ᵥ translationPart pre + translation) + translationPart post := by
  have hmiddle := isAffine_affineMatrix linear translation
  rw [translationPart_mul hpre, translationPart_mul hmiddle, linearPart_mul hmiddle,
    linearPart_affineMatrix, translationPart_affineMatrix, Matrix.mulVec_add, Matrix.mulVec_mulVec,
    add_assoc]

/-- Two maps with the same linear part: only the linear part on the left acts on the difference
of their translations. -/
theorem translationPart_around_sub (hpre : IsAffine pre) (linear : Matrix (Fin n) (Fin n) K)
    (first second : Fin n → K) :
    translationPart (post * affineMatrix linear first * pre) -
        translationPart (post * affineMatrix linear second * pre) =
      linearPart post *ᵥ (first - second) := by
  rw [translationPart_around hpre, translationPart_around hpre, add_sub_add_right_eq_sub,
    ← Matrix.mulVec_sub, add_sub_add_left_eq_sub]

end Around

end OSVR.Math
