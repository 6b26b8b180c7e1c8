/-
# Quaternions of Eigen

The operations on quaternions as they are computed, with exact numbers; division by zero
is zero, and the functions of the mathematical library are left open. With the functions
of the real numbers, interpolating between unit quaternions gives a unit quaternion.
-/

import Mathlib.Analysis.SpecialFunctions.Complex.Arg
import Mathlib.Analysis.SpecialFunctions.Trigonometric.Inverse
import Mathlib.LinearAlgebra.Matrix.Notation
import OsvrCore.Util.ReportTypes

set_option autoImplicit false

namespace OSVR.Util

universe u

variable {K : Type u}

/-- Functions of `<cmath>`. -/
structure Libm (K : Type u) where
  sqrt : K → K
  sin : K → K
  cos : K → K
  acos : K → K
  atan2 : K → K → K

namespace Quaternion

variable [Field K]

def identity : Quaternion K := ⟨1, 0, 0, 0⟩

/-- The product, which is the concatenation of two rotations. -/
def mul (a b : Quaternion K) : Quaternion K where
  w := a.w * b.w - a.x * b.x - a.y * b.y - a.z * b.z
  x := a.w * b.x + a.x * b.w + a.y * b.z - a.z * b.y
  y := a.w * b.y + a.y * b.w + a.z * b.x - a.x * b.z
  z := a.w * b.z + a.z * b.w + a.x * b.y - a.y * b.x

def dot (a b : Quaternion K) : K := a.x * b.x + a.y * b.y + a.z * b.z + a.w * b.w

def squaredNorm (self : Quaternion K) : K := self.dot self

def conjugate (self : Quaternion K) : Quaternion K := ⟨self.w, -self.x, -self.y, -self.z⟩

/-- `coeffs() / divisor`. -/
def divide (self : Quaternion K) (divisor : K) : Quaternion K :=
  ⟨self.w / divisor, self.x / divisor, self.y / divisor, self.z / divisor⟩

/-- `scale0 * a.coeffs() + scale1 * b.coeffs()`. -/
def combine (scale0 scale1 : K) (a b : Quaternion K) : Quaternion K where
  w := scale0 * a.w + scale1 * b.w
  x := scale0 * a.x + scale1 * b.x
  y := scale0 * a.y + scale1 * b.y
  z := scale0 * a.z + scale1 * b.z

def normalized (math : Libm K) (self : Quaternion K) : Quaternion K :=
  self.divide (math.sqrt self.squaredNorm)

variable [LinearOrder K]

def inverse (self : Quaternion K) : Quaternion K :=
  if 0 < self.squaredNorm then self.conjugate.divide self.squaredNorm else ⟨0, 0, 0, 0⟩

/-- Above this the interpolation is linear. -/
def slerpOne : K := 1 - 1 / (4503599627370496 : ℕ)

/-- `slerp`. -/
def slerp (math : Libm K) (self : Quaternion K) (t : K) (other : Quaternion K) : Quaternion K :=
  let d := self.dot other
  let theta := math.acos |d|
  let scale0 := if slerpOne ≤ |d| then 1 - t else math.sin ((1 - t) * theta) / math.sin theta
  let scale1 := if slerpOne ≤ |d| then t else math.sin (t * theta) / math.sin theta
  combine scale0 (if d < 0 then -scale1 else scale1) self other

end Quaternion

/-! ## Unit quaternions -/

namespace Quaternion

theorem squaredNorm_combine [Field K] (scale0 scale1 : K) (a b : Quaternion K) :
    (combine scale0 scale1 a b).squaredNorm = scale0 * scale0 * a.squaredNorm +
      scale1 * scale1 * b.squaredNorm + 2 * (scale0 * scale1) * a.dot b := by
  simp only [squaredNorm, dot, combine]
  ring

theorem squaredNorm_divide [Field K] (self : Quaternion K) (divisor : K) :
    (self.divide divisor).squaredNorm = self.squaredNorm / (divisor * divisor) := by
  simp only [squaredNorm, dot, divide]
  ring

/-- The functions of the real numbers. -/
noncomputable def realMath : Libm ℝ where
  sqrt := Real.sqrt
  sin := Real.sin
  cos := Real.cos
  acos := Real.arccos
  atan2 y x := Complex.arg ⟨x, y⟩

@[simp] theorem realMath_sqrt : realMath.sqrt = Real.sqrt := rfl

@[simp] theorem realMath_cos : realMath.cos = Real.cos := rfl

variable {a b : Quaternion ℝ} {t : ℝ}

theorem squaredNorm_normalized (h : 0 < a.squaredNorm) :
    (a.normalized realMath).squaredNorm = 1 := by
  rw [normalized, squaredNorm_divide, realMath, Real.mul_self_sqrt h.le, div_self h.ne']

/-- The sine of a sum of angles, which are the parts of an arc. -/
theorem sin_add_mul_self (first second : ℝ) :
    Real.sin first * Real.sin first + Real.sin second * Real.sin second +
        2 * (Real.sin first * Real.sin second) * Real.cos (first + second) =
      Real.sin (first + second) * Real.sin (first + second) := by
  have hfirst := Real.sin_sq_add_cos_sq first
  have hsecond := Real.sin_sq_add_cos_sq second
  rw [Real.cos_add, Real.sin_add]
  linear_combination -(Real.sin first ^ 2) * hsecond - Real.sin second ^ 2 * hfirst

/-- The shorter of the two arcs is taken. -/
theorem squaredNorm_combine_sign (ha : a.squaredNorm = 1) (hb : b.squaredNorm = 1)
    (scale0 scale1 : ℝ) :
    (combine scale0 (if a.dot b < 0 then -scale1 else scale1) a b).squaredNorm =
      scale0 * scale0 + scale1 * scale1 + 2 * (scale0 * scale1) * |a.dot b| := by
  rw [squaredNorm_combine, ha, hb]
  split
  next hd =>
    rw [abs_of_neg hd]
    ring
  next hd =>
    rw [abs_of_nonneg (not_lt.mp hd)]
    ring

theorem slerpOne_lt_one : (slerpOne : ℝ) < 1 := by
  rw [slerpOne]
  norm_num

theorem squaredNorm_slerp_pos (ha : a.squaredNorm = 1) (hb : b.squaredNorm = 1) (ht : 0 ≤ t)
    (ht_le : t ≤ 1) : 0 < (a.slerp realMath t b).squaredNorm := by
  unfold slerp
  extract_lets d theta scale0 scale1
  rw [squaredNorm_combine_sign ha hb]
  by_cases hlinear : slerpOne ≤ |d|
  · have hscale0 : scale0 = 1 - t := if_pos hlinear
    have hscale1 : scale1 = t := if_pos hlinear
    rw [hscale0, hscale1]
    have hrest : 0 ≤ 2 * ((1 - t) * t) * |d| :=
      mul_nonneg (mul_nonneg zero_le_two (mul_nonneg (sub_nonneg.mpr ht_le) ht)) (abs_nonneg d)
    nlinarith
  · have hd : |d| < 1 := (lt_of_not_ge hlinear).trans slerpOne_lt_one
    have hcos : Real.cos theta = |d| := Real.cos_arccos (by linarith [abs_nonneg d]) hd.le
    have hsin : 0 < Real.sin theta :=
      Real.sin_pos_of_pos_of_lt_pi (Real.arccos_pos.mpr hd) ((Real.arccos_le_pi_div_two.mpr
        (abs_nonneg d)).trans_lt (half_lt_self Real.pi_pos))
    have hscale0 : scale0 = Real.sin ((1 - t) * theta) / Real.sin theta := if_neg hlinear
    have hscale1 : scale1 = Real.sin (t * theta) / Real.sin theta := if_neg hlinear
    have harc := sin_add_mul_self ((1 - t) * theta) (t * theta)
    rw [show (1 - t) * theta + t * theta = theta by ring, hcos] at harc
    have hone : scale0 * scale0 + scale1 * scale1 + 2 * (scale0 * scale1) * |d| = 1 := by
      rw [hscale0, hscale1]
      field_simp
      linarith
    rw [hone]
    exact one_pos

/-- Unit quaternions are interpolated by unit quaternions. -/
theorem squaredNorm_normalized_slerp (ha : a.squaredNorm = 1) (hb : b.squaredNorm = 1) (ht : 0 ≤ t)
    (ht_le : t ≤ 1) : ((a.slerp realMath t b).normalized realMath).squaredNorm = 1 :=
  squaredNorm_normalized (squaredNorm_slerp_pos ha hb ht ht_le)

end Quaternion

end OSVR.Util
