/-
# Projection matrices

The matrix for a rectangle at the near clipping plane, in its original form and in a form
with options. A point is given by the direction it is seen in, as a point of the rectangle,
and its depth; where the matrix sends it depends on the direction in the plane, and on the
depth otherwise. Numbers are exact.
-/

import Mathlib.LinearAlgebra.Matrix.Notation
import Mathlib.Tactic.FieldSimp
import Mathlib.Tactic.Linarith
import Mathlib.Tactic.Ring
import OsvrCore.Math.ProjectiveMap

set_option autoImplicit false

namespace OSVR.Util

open Math Matrix

/-- `Rect`. -/
structure Rect (Scalar : Type) where
  left : Scalar
  right : Scalar
  top : Scalar
  bottom : Scalar

/-- `Rectd`. -/
abbrev Rectd := Rect ℚ

namespace Rect

/-- Componentwise multiplication by a scalar. -/
def scale (rect : Rectd) (v : ℚ) : Rectd :=
  ⟨rect.left * v, rect.right * v, rect.top * v, rect.bottom * v⟩

/-- The corners are four points. -/
structure Proper (rect : Rectd) : Prop where
  horizontal : rect.left ≠ rect.right
  vertical : rect.top ≠ rect.bottom

end Rect

def createProjectionMatrix (bounds : Rectd) (near far : ℚ) : Matrix (Fin 4) (Fin 4) ℚ :=
  let right := bounds.right
  let left := bounds.left
  let top := bounds.top
  let bottom := bounds.bottom
  !![2 * near / (right - left), 0, (right + left) / (right - left), 0;
     0, 2 * near / (top - bottom), (top + bottom) / (top - bottom), 0;
     0, 0, -(far + near) / (far - near), -2 * far * near / (far - near);
     0, 0, -1, 0]

/-! ## Options -/

namespace ProjectionOptions

abbrev OptionType := BitVec 8

def ZOutputUnsignedBit : OptionType := 0x1
def LeftHandedInputBit : OptionType := 0x2

def ZOutputSigned : OptionType := 0
def ZOutputUnsigned : OptionType := ZOutputUnsignedBit
def RightHandedInput : OptionType := 0
def LeftHandedInput : OptionType := LeftHandedInputBit

def checkOptionBit (options bit : OptionType) : Bool := 0 != options &&& bit

def isZOutputUnsigned (options : OptionType) : Bool := checkOptionBit options ZOutputUnsignedBit

def isLeftHandedInput (options : OptionType) : Bool := checkOptionBit options LeftHandedInputBit

end ProjectionOptions

open ProjectionOptions

section Parameterized

variable (options : OptionType) (near far : ℚ)

def get33 : ℚ :=
  if isZOutputUnsigned options then -far / (far - near) else -(far + near) / (far - near)

def get34 : ℚ :=
  if isZOutputUnsigned options then -far * near / (far - near) else -2 * far * near / (far - near)

/-- `LeftHandedCorrection`. -/
def leftHandedCorrection (mat : Matrix (Fin 4) (Fin 4) ℚ) : Matrix (Fin 4) (Fin 4) ℚ :=
  if isLeftHandedInput options then negateCol mat (Fin.last 2) else mat

def parameterizedCreateProjectionMatrix (bounds : Rectd) : Matrix (Fin 4) (Fin 4) ℚ :=
  let right := bounds.right
  let left := bounds.left
  let top := bounds.top
  let bottom := bounds.bottom
  leftHandedCorrection options
    !![2 * near / (right - left), 0, (right + left) / (right - left), 0;
       0, 2 * near / (top - bottom), (top + bottom) / (top - bottom), 0;
       0, 0, get33 options near far, get34 options near far;
       0, 0, -1, 0]

/-! ## Where points are sent -/

/-- The point that is seen at a point of the plane, at a depth. -/
def pointAt (x y depth : ℚ) : Fin 3 → ℚ :=
  ![x * depth / near, y * depth / near, if isLeftHandedInput options then depth else -depth]

/-- A coordinate between two bounds, scaled to -1 and 1. -/
def relative (low high x : ℚ) : ℚ := (2 * x - (high + low)) / (high - low)

/-- The third coordinate of what is at a depth. -/
def clipDepth (depth : ℚ) : ℚ :=
  if isZOutputUnsigned options then far * (depth - near) / ((far - near) * depth)
  else ((far + near) * depth - 2 * far * near) / ((far - near) * depth)

variable {options near far}

/-- A projection matrix with any third row. -/
def perspective (bounds : Rectd) (near a b : ℚ) : Matrix (Fin 4) (Fin 4) ℚ :=
  !![2 * near / (bounds.right - bounds.left), 0,
       (bounds.right + bounds.left) / (bounds.right - bounds.left), 0;
     0, 2 * near / (bounds.top - bounds.bottom),
       (bounds.top + bounds.bottom) / (bounds.top - bounds.bottom), 0;
     0, 0, a, b;
     0, 0, -1, 0]

theorem perspective_mulVec (bounds : Rectd) (x y depth a b : ℚ) :
    perspective bounds near a b *ᵥ homogeneous ![x, y, -depth] =
      ![2 * near / (bounds.right - bounds.left) * x -
          (bounds.right + bounds.left) / (bounds.right - bounds.left) * depth,
        2 * near / (bounds.top - bounds.bottom) * y -
          (bounds.top + bounds.bottom) / (bounds.top - bounds.bottom) * depth,
        b - a * depth, depth] := by
  have hpoint : homogeneous ![x, y, -depth] = ![x, y, -depth, 1] := by
    funext index
    fin_cases index <;> rfl
  rw [hpoint]
  funext row
  fin_cases row
  all_goals
    simp [perspective, Matrix.mulVec, dotProduct, Fin.sum_univ_four]
    try ring

/-- A point of the plane goes to where it is in the rectangle. -/
theorem sendsPoint_perspective {bounds : Rectd} (hbounds : bounds.Proper) (hnear : near ≠ 0)
    {depth : ℚ} (hdepth : depth ≠ 0) (x y a b : ℚ) :
    SendsPoint (perspective bounds near a b *ᵥ ·) ![x * depth / near, y * depth / near, -depth]
      ![relative bounds.left bounds.right x, relative bounds.bottom bounds.top y,
        (b - a * depth) / depth] := by
  have hwidth : bounds.right - bounds.left ≠ 0 := sub_ne_zero.mpr hbounds.horizontal.symm
  have hheight : bounds.top - bounds.bottom ≠ 0 := sub_ne_zero.mpr hbounds.vertical
  constructor
  case finite =>
    rw [perspective_mulVec]
    exact hdepth
  case divided =>
    rw [perspective_mulVec]
    intro axis
    fin_cases axis
    · show (2 * near / (bounds.right - bounds.left) * (x * depth / near) -
        (bounds.right + bounds.left) / (bounds.right - bounds.left) * depth) / depth =
          relative bounds.left bounds.right x
      rw [relative]
      field_simp
    · show (2 * near / (bounds.top - bounds.bottom) * (y * depth / near) -
        (bounds.top + bounds.bottom) / (bounds.top - bounds.bottom) * depth) / depth =
          relative bounds.bottom bounds.top y
      rw [relative]
      field_simp
    · rfl

theorem third_row (hfar : near ≠ far) {depth : ℚ} (hdepth : depth ≠ 0) :
    (get34 options near far - get33 options near far * depth) / depth =
      clipDepth options near far depth := by
  have hrange : far - near ≠ 0 := sub_ne_zero.mpr hfar.symm
  rw [get34, get33, clipDepth]
  split
  · field_simp
    ring
  · field_simp
    ring

/-- A matrix with options sends a point to where it is in the rectangle, at the depth that
the options ask for. -/
theorem sendsPoint_parameterized {bounds : Rectd} (hbounds : bounds.Proper) (hnear : near ≠ 0)
    (hfar : near ≠ far) {depth : ℚ} (hdepth : depth ≠ 0) (x y : ℚ) :
    SendsPoint (parameterizedCreateProjectionMatrix options near far bounds *ᵥ ·)
      (pointAt options near x y depth)
      ![relative bounds.left bounds.right x, relative bounds.bottom bounds.top y,
        clipDepth options near far depth] := by
  rw [← third_row hfar hdepth, parameterizedCreateProjectionMatrix, leftHandedCorrection, pointAt]
  cases hleft : isLeftHandedInput options with
  | false => exact sendsPoint_perspective hbounds hnear hdepth x y _ _
  | true =>
      have hturned :
          Function.update ![x * depth / near, y * depth / near, depth] (Fin.last 2) (-depth) =
          ![x * depth / near, y * depth / near, -depth] := by
        funext axis
        fin_cases axis <;> rfl
      rw [if_pos rfl, if_pos rfl]
      apply sendsPoint_negateCol_iff.mpr
      show SendsPoint (perspective bounds near _ _ *ᵥ ·) (Function.update _ (Fin.last 2) (-depth)) _
      rw [hturned]
      exact sendsPoint_perspective hbounds hnear hdepth x y _ _

/-- Without options it is the matrix in its original form. -/
theorem parameterizedCreateProjectionMatrix_default (bounds : Rectd) :
    parameterizedCreateProjectionMatrix (ZOutputSigned ||| RightHandedInput) near far bounds =
      createProjectionMatrix bounds near far := rfl

/-! ## The ends of the ranges -/

variable {low high : ℚ}

theorem relative_low (h : low ≠ high) : relative low high low = -1 := by
  have hne : high - low ≠ 0 := sub_ne_zero.mpr h.symm
  rw [relative]
  field_simp
  ring

theorem relative_high (h : low ≠ high) : relative low high high = 1 := by
  have hne : high - low ≠ 0 := sub_ne_zero.mpr h.symm
  rw [relative]
  field_simp
  ring

theorem clipDepth_near (hnear : near ≠ 0) (hfar : near ≠ far) : clipDepth options near far near =
    if isZOutputUnsigned options then 0 else -1 := by
  have hrange : far - near ≠ 0 := sub_ne_zero.mpr hfar.symm
  rw [clipDepth]
  split
  · rw [sub_self, mul_zero, zero_div]
  · field_simp
    ring

theorem clipDepth_far (hne : far ≠ 0) (hfar : near ≠ far) : clipDepth options near far far = 1 := by
  have hrange : far - near ≠ 0 := sub_ne_zero.mpr hfar.symm
  rw [clipDepth]
  split
  · field_simp
  · field_simp
    ring

end Parameterized

end OSVR.Util
