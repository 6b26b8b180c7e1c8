/-
# Spatial transformations

A transformation has a matrix on either side of a pose. One transformation is put around
another by multiplying on the outer sides. Numbers are exact.
-/

import Mathlib.LinearAlgebra.Matrix.RowCol
import OsvrCore.Math.AffineMatrix
import OsvrCore.Math.TwoSided

set_option autoImplicit false

namespace OSVR.Common

open Math Matrix

variable {K : Type} [CommRing K]

/-- `Eigen::Matrix4d`. -/
abbrev Matrix4 (K : Type) := Matrix (Fin 4) (Fin 4) K

/-- `Transform`, with both pre and post components. -/
abbrev Transform (K : Type) := TwoSided (Matrix4 K)

namespace Transform

/-- The constructor without arguments. -/
def identity : Transform K := { pre := 1, post := 1 }

def concatPre (t : Transform K) (xform : Matrix4 K) : Transform K :=
  { t with pre := t.pre * xform }

def concatPost (t : Transform K) (xform : Matrix4 K) : Transform K :=
  { t with post := xform * t.post }

/-- Update by the application of another transformation around it. -/
def transform (t other : Transform K) : Transform K :=
  (t.concatPre other.pre).concatPost other.post

/-- Apply the transformation to a matrix representing a pose. -/
def transformPose (t : Transform K) (input : Matrix4 K) : Matrix4 K := t.post * input * t.pre

/-- Apply only the rotation or basis change to a velocity or acceleration. -/
def transformLinear (t : Transform K) (vec : Fin 3 → K) : Fin 3 → K :=
  linearPart t.post *ᵥ (vec ᵥ* linearPart t.pre)

theorem identity_eq : (identity : Transform K) = 1 := rfl

/-- Putting one transformation around another is their product. -/
theorem transform_eq (t other : Transform K) : t.transform other = t * other := rfl

theorem transformPose_eq (t : Transform K) (input : Matrix4 K) :
    t.transformPose input = t.act input := rfl

/-- Both matrices are affine maps. -/
structure Affine (t : Transform K) : Prop where
  pre : IsAffine t.pre
  post : IsAffine t.post

theorem affine_identity : (identity : Transform K).Affine := ⟨isAffine_one, isAffine_one⟩

theorem Affine.transform {t other : Transform K} (ht : t.Affine) (hother : other.Affine) :
    (t.transform other).Affine :=
  ⟨ht.pre.mul hother.pre, hother.post.mul ht.post⟩

/-- The linear part of a velocity's transformation as one matrix. -/
theorem transformLinear_eq (t : Transform K) (vec : Fin 3 → K) :
    t.transformLinear vec = (linearPart t.post * (linearPart t.pre)ᵀ) *ᵥ vec := by
  rw [transformLinear, ← Matrix.mulVec_transpose, Matrix.mulVec_mulVec]

end Transform

/-! ## Changes of basis -/

/-- `ChangeOfBasis`. -/
structure ChangeOfBasis (K : Type) where
  xform : Matrix4 K

namespace ChangeOfBasis

def new : ChangeOfBasis K :=
  { xform := Matrix.of fun row column => if row = 3 ∧ column = 3 then 1 else 0 }

/-- The first three entries of a row. -/
def setNew (basis : ChangeOfBasis K) (newAxis : Fin 3) (oldVec : Fin 3 → K) : ChangeOfBasis K :=
  { xform := basis.xform.updateRow newAxis.castSucc
      (Fin.snoc (α := fun _ => K) oldVec (basis.xform newAxis.castSucc 3)) }

def setNewX (basis : ChangeOfBasis K) (oldVec : Fin 3 → K) : ChangeOfBasis K :=
  basis.setNew 0 oldVec

def setNewY (basis : ChangeOfBasis K) (oldVec : Fin 3 → K) : ChangeOfBasis K :=
  basis.setNew 1 oldVec

def setNewZ (basis : ChangeOfBasis K) (oldVec : Fin 3 → K) : ChangeOfBasis K :=
  basis.setNew 2 oldVec

def get (basis : ChangeOfBasis K) : Transform K :=
  { pre := basis.xformᵀ, post := basis.xform }

/-- The last row and the last column are those of the identity. -/
structure Centred (basis : ChangeOfBasis K) : Prop where
  row : IsAffine basis.xform
  column : IsAffine basis.xformᵀ

theorem centred_new : (new : ChangeOfBasis K).Centred where
  row :=
    { row := fun column => if_neg fun h => (Fin.castSucc_lt_last column).ne h.2
      corner := by simp [new] }
  column :=
    { row := fun column => if_neg fun h => (Fin.castSucc_lt_last column).ne h.1
      corner := by simp [new] }

theorem Centred.setNew {basis : ChangeOfBasis K} (h : basis.Centred) (newAxis : Fin 3)
    (oldVec : Fin 3 → K) : (basis.setNew newAxis oldVec).Centred := by
  have hlast : ∀ column, (basis.setNew newAxis oldVec).xform (Fin.last 3) column =
      basis.xform (Fin.last 3) column :=
    congrFun (Matrix.updateRow_ne (Fin.castSucc_lt_last newAxis).ne')
  have hcolumn : ∀ row : Fin 3, (basis.setNew newAxis oldVec).xform row.castSucc (Fin.last 3) =
      basis.xform row.castSucc (Fin.last 3) := by
    intro row
    by_cases hrow : row = newAxis
    · subst hrow
      exact (congrFun Matrix.updateRow_self (Fin.last 3)).trans (Fin.snoc_last _ _)
    · exact congrFun (Matrix.updateRow_ne fun heq => hrow (Fin.castSucc_injective _ heq)) _
  exact
    { row :=
        { row := fun column => (hlast _).trans (h.row.row column)
          corner := (hlast _).trans h.row.corner }
      column :=
        { row := fun row => (hcolumn row).trans (h.column.row row)
          corner := (hlast _).trans h.column.corner } }

/-- A change of basis has no translation on either side. -/
theorem affine_get {basis : ChangeOfBasis K} (h : basis.Centred) : basis.get.Affine :=
  ⟨h.column, h.row⟩

end ChangeOfBasis

end OSVR.Common
