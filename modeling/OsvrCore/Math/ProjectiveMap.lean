/-
# Projective maps

A square matrix of one more dimension acts on points: the vector of a point has a one as its
last entry, and the image is divided by its own last entry. Turning a coordinate of the
points around negates a column of the matrix.

Matrices are stored column by column or row by row. What is stored in one order and read in
the other one is transposed.
-/

import Mathlib.Algebra.BigOperators.Fin
import Mathlib.Data.Fin.Tuple.Basic
import Mathlib.Data.Matrix.Mul
import Mathlib.LinearAlgebra.Matrix.RowCol
import Mathlib.Logic.Equiv.Fin.Basic
import Mathlib.Tactic.FieldSimp

set_option autoImplicit false

namespace OSVR.Math

open Matrix

universe u

variable {K : Type u} {n : ℕ}

/-! ## Points -/

section Points

variable [Field K]

/-- The vector of a point. -/
def homogeneous (point : Fin n → K) : Fin (n + 1) → K := Fin.snoc (α := fun _ => K) point 1

/-- A map of vectors sends a point to another one, after the division by the last entry. -/
structure SendsPoint (map : (Fin (n + 1) → K) → Fin (n + 1) → K) (point image : Fin n → K) :
    Prop where
  finite : map (homogeneous point) (Fin.last n) ≠ 0
  divided : ∀ axis : Fin n,
    map (homogeneous point) axis.castSucc / map (homogeneous point) (Fin.last n) = image axis

/-- The matrix for points with one coordinate turned around. -/
def negateCol (matrix : Matrix (Fin (n + 1)) (Fin (n + 1)) K) (axis : Fin n) :
    Matrix (Fin (n + 1)) (Fin (n + 1)) K :=
  matrix.updateCol axis.castSucc fun row => matrix row axis.castSucc * -1

theorem negateCol_mulVec_homogeneous (matrix : Matrix (Fin (n + 1)) (Fin (n + 1)) K) (axis : Fin n)
    (point : Fin n → K) : negateCol matrix axis *ᵥ homogeneous point =
      matrix *ᵥ homogeneous (Function.update point axis (-point axis)) := by
  funext row
  simp only [Matrix.mulVec, dotProduct]
  apply Finset.sum_congr rfl
  intro column _
  by_cases hcolumn : column = axis.castSucc
  · subst hcolumn
    simp [negateCol, homogeneous]
  · rw [negateCol, Matrix.updateCol_ne hcolumn]
    congr 1
    refine Fin.lastCases ?_ (fun other hother => ?_) column hcolumn
    · intro _
      simp [homogeneous]
    · have hne : other ≠ axis := fun hsame => hother (congrArg Fin.castSucc hsame)
      simp [homogeneous, hne]

theorem sendsPoint_negateCol_iff {matrix : Matrix (Fin (n + 1)) (Fin (n + 1)) K} {axis : Fin n}
    {point image : Fin n → K} : SendsPoint (negateCol matrix axis *ᵥ ·) point image ↔
      SendsPoint (matrix *ᵥ ·) (Function.update point axis (-point axis)) image := by
  apply Iff.intro
  · rintro ⟨hfinite, hdivided⟩
    rw [negateCol_mulVec_homogeneous] at hfinite hdivided
    exact ⟨hfinite, hdivided⟩
  · rintro ⟨hfinite, hdivided⟩
    rw [← negateCol_mulVec_homogeneous] at hfinite hdivided
    exact ⟨hfinite, hdivided⟩

end Points

/-! ## Storage -/

section Storage

/-- The entries one after another, column by column. -/
def columnMajor (matrix : Matrix (Fin n) (Fin n) K) (index : Fin (n * n)) : K :=
  matrix (finProdFinEquiv.symm index).2 (finProdFinEquiv.symm index).1

def readColumnMajor (entries : Fin (n * n) → K) : Matrix (Fin n) (Fin n) K :=
  Matrix.of fun row column => entries (finProdFinEquiv (column, row))

def readRowMajor (entries : Fin (n * n) → K) : Matrix (Fin n) (Fin n) K :=
  Matrix.of fun row column => entries (finProdFinEquiv (row, column))

@[simp] theorem readColumnMajor_columnMajor (matrix : Matrix (Fin n) (Fin n) K) :
    readColumnMajor (columnMajor matrix) = matrix := by
  ext row column
  simp [readColumnMajor, columnMajor]

@[simp] theorem readRowMajor_columnMajor (matrix : Matrix (Fin n) (Fin n) K) :
    readRowMajor (columnMajor matrix) = matrixᵀ := by
  ext row column
  simp [readRowMajor, columnMajor]

end Storage

end OSVR.Math
