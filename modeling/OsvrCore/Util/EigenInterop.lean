/-
# Poses and transforms

A pose has a translation and a quaternion, and a transform of Eigen a translation and a
matrix. A rotation matrix is converted to a quaternion by way of its largest component, so
that nothing small is divided by. There and back again gives the same transform, and the
same pose but for the sign of its quaternion.
-/

import Mathlib.Analysis.Real.Sqrt
import Mathlib.LinearAlgebra.Matrix.NonsingularInverse
import Mathlib.LinearAlgebra.Matrix.Notation
import OsvrCore.Util.EigenQuaternion

set_option autoImplicit false

namespace OSVR.Util

open Matrix

universe u

variable {K : Type u}

abbrev Matrix3 (K : Type u) := Matrix (Fin 3) (Fin 3) K

/-- `Eigen::Isometry3d`. -/
structure Isometry3d (K : Type u) where
  linear : Matrix3 K
  translation : Fin 3 → K

/-- The functions that are left open, with `Transform::rotation`, which takes the rotation out of a
singular value decomposition. -/
structure EigenMath (K : Type u) extends Libm K where
  rotation : Matrix3 K → Matrix3 K

/-- `vecMap`. -/
def vecMap (vec : Vec3 K) : Fin 3 → K := ![vec.x, vec.y, vec.z]

/-- `vecMap`, assigned to. -/
def ofVecMap (vec : Fin 3 → K) : Vec3 K := ⟨vec xAxis, vec yAxis, vec zAxis⟩

theorem vecMap_ofVecMap (vec : Fin 3 → K) : vecMap (ofVecMap vec) = vec := by
  ext axis
  fin_cases axis <;> rfl

theorem ofVecMap_vecMap (vec : Vec3 K) : ofVecMap (vecMap vec) = vec := rfl

/-! ## Conversions -/

section Conversions

variable [Field K]

namespace Quaternion

def toRotationMatrix (self : Quaternion K) : Matrix3 K :=
  let tx := (2 : ℕ) * self.x
  let ty := (2 : ℕ) * self.y
  let tz := (2 : ℕ) * self.z
  let twx := tx * self.w
  let twy := ty * self.w
  let twz := tz * self.w
  let txx := tx * self.x
  let txy := ty * self.x
  let txz := tz * self.x
  let tyy := ty * self.y
  let tyz := tz * self.y
  let tzz := tz * self.z
  !![1 - (tyy + tzz), txy - twz, txz + twy;
     txy + twz, 1 - (txx + tzz), tyz - twx;
     txz - twy, tyz + twx, 1 - (txx + tyy)]

/-- The index of the largest component on the diagonal. -/
def largest [LinearOrder K] (mat : Matrix3 K) : Fin 3 :=
  let i := if mat xAxis xAxis < mat yAxis yAxis then yAxis else xAxis
  if mat i i < mat zAxis zAxis then zAxis else i

/-- `(i + 1) % 3`. -/
def nextAxis : Fin 3 → Fin 3 := ![yAxis, zAxis, xAxis]

/-- `Quaternion`, set from a rotation matrix. -/
def ofRotationMatrix [LinearOrder K] (math : Libm K) (mat : Matrix3 K) : Quaternion K :=
  let trace := mat xAxis xAxis + mat yAxis yAxis + mat zAxis zAxis
  if 0 < trace then
    let t := math.sqrt (trace + 1)
    let half := 1 / (2 : ℕ) / t
    { w := 1 / (2 : ℕ) * t
      x := (mat zAxis yAxis - mat yAxis zAxis) * half
      y := (mat xAxis zAxis - mat zAxis xAxis) * half
      z := (mat yAxis xAxis - mat xAxis yAxis) * half }
  else
    let i := largest mat
    let j := nextAxis i
    let k := nextAxis j
    let t := math.sqrt (mat i i - mat j j - mat k k + 1)
    let half := 1 / (2 : ℕ) / t
    let coeffs axis := if axis = i then 1 / (2 : ℕ) * t
      else if axis = j then (mat j i + mat i j) * half else (mat k i + mat i k) * half
    { w := (mat k j - mat j k) * half
      x := coeffs xAxis
      y := coeffs yAxis
      z := coeffs zAxis }

end Quaternion

namespace Isometry3d

/-- `fromPositionOrientationScale`, without a scale. -/
def fromPositionOrientation (position : Fin 3 → K) (orientation : Quaternion K) : Isometry3d K :=
  ⟨orientation.toRotationMatrix, position⟩

end Isometry3d

def fromPose (pose : PoseState K) : Isometry3d K :=
  .fromPositionOrientation (vecMap pose.translation) pose.rotation

def toPose [LinearOrder K] (math : EigenMath K) (xform : Isometry3d K) : PoseState K where
  translation := ofVecMap xform.translation
  rotation := .ofRotationMatrix math.toLibm (math.rotation xform.linear)

end Conversions

/-! ## Rotations -/

/-- The matrix of a rotation. -/
structure IsRotation (mat : Matrix3 ℝ) : Prop where
  transpose_mul : matᵀ * mat = 1
  det : mat.det = 1

/-- The components of a quaternion. -/
def components (quat : Quaternion ℝ) : Fin 4 → ℝ := ![quat.w, quat.x, quat.y, quat.z]

/-- Four times the products of the components of a quaternion, as they are in its matrix. -/
def products (mat : Matrix3 ℝ) : Matrix (Fin 4) (Fin 4) ℝ :=
  let xx := mat xAxis xAxis
  let yy := mat yAxis yAxis
  let zz := mat zAxis zAxis
  let wx := mat zAxis yAxis - mat yAxis zAxis
  let wy := mat xAxis zAxis - mat zAxis xAxis
  let wz := mat yAxis xAxis - mat xAxis yAxis
  let xy := mat yAxis xAxis + mat xAxis yAxis
  let yz := mat zAxis yAxis + mat yAxis zAxis
  let zx := mat xAxis zAxis + mat zAxis xAxis
  !![xx + yy + zz + 1, wx, wy, wz;
     wx, xx - yy - zz + 1, xy, zx;
     wy, xy, yy - zz - xx + 1, yz;
     wz, zx, yz, zz - xx - yy + 1]

/-- A quaternion for a matrix. -/
def Represents (quat : Quaternion ℝ) (mat : Matrix3 ℝ) : Prop :=
  ∀ i j, 4 * (components quat i * components quat j) = products mat i j

section Rotations

variable {quat other : Quaternion ℝ} {mat : Matrix3 ℝ}

theorem Represents.toRotationMatrix_eq (h : Represents quat mat) : quat.toRotationMatrix = mat := by
  have hxx : 4 * (quat.x * quat.x) = mat 0 0 - mat 1 1 - mat 2 2 + 1 := h 1 1
  have hyy : 4 * (quat.y * quat.y) = mat 1 1 - mat 2 2 - mat 0 0 + 1 := h 2 2
  have hzz : 4 * (quat.z * quat.z) = mat 2 2 - mat 0 0 - mat 1 1 + 1 := h 3 3
  have hxy : 4 * (quat.x * quat.y) = mat 1 0 + mat 0 1 := h 1 2
  have hyz : 4 * (quat.y * quat.z) = mat 2 1 + mat 1 2 := h 2 3
  have hzx : 4 * (quat.z * quat.x) = mat 0 2 + mat 2 0 := h 3 1
  have hwx : 4 * (quat.w * quat.x) = mat 2 1 - mat 1 2 := h 0 1
  have hwy : 4 * (quat.w * quat.y) = mat 0 2 - mat 2 0 := h 0 2
  have hwz : 4 * (quat.w * quat.z) = mat 1 0 - mat 0 1 := h 0 3
  ext row column
  fin_cases row <;> fin_cases column <;> simp [Quaternion.toRotationMatrix] <;> linarith

/-- A unit quaternion is one for its matrix. -/
theorem represents_toRotationMatrix (hunit : quat.squaredNorm = 1) :
    Represents quat quat.toRotationMatrix := by
  rw [Quaternion.squaredNorm, Quaternion.dot] at hunit
  intro i j
  fin_cases i <;> fin_cases j <;> simp [components, products,
    Quaternion.toRotationMatrix] <;> linarith

theorem isRotation_toRotationMatrix (hunit : quat.squaredNorm = 1) :
    IsRotation quat.toRotationMatrix := by
  obtain ⟨w, x, y, z⟩ := quat
  rw [Quaternion.squaredNorm, Quaternion.dot] at hunit
  constructor
  case transpose_mul =>
    ext row column
    fin_cases row <;> fin_cases column <;>
      simp only [Quaternion.toRotationMatrix, Fin.zero_eta, Fin.mk_one, Fin.reduceFinMk, mul_apply,
        transpose_apply, Fin.sum_univ_three, of_apply, cons_val, one_apply, Fin.reduceEq, if_true,
        if_false, Nat.cast_ofNat]
    · linear_combination 4 * (y * y + z * z) * hunit
    · linear_combination -4 * (x * y) * hunit
    · linear_combination -4 * (x * z) * hunit
    · linear_combination -4 * (x * y) * hunit
    · linear_combination 4 * (x * x + z * z) * hunit
    · linear_combination -4 * (y * z) * hunit
    · linear_combination -4 * (x * z) * hunit
    · linear_combination -4 * (y * z) * hunit
    · linear_combination 4 * (x * x + y * y) * hunit
  case det =>
    rw [det_fin_three]
    simp only [Quaternion.toRotationMatrix, of_apply, cons_val, Nat.cast_ofNat]
    linear_combination 4 * (x * x + y * y + z * z) * hunit

/-- Quaternions for the same matrix are the same but for their sign. -/
theorem Represents.eq_or_eq_neg (hquat : Represents quat mat) (hother : Represents other mat)
    (hunit : quat.squaredNorm = 1) :
    components other = components quat ∨ components other = -components quat := by
  have hsame (i j : Fin 4) :
      components other i * components other j = components quat i * components quat j := by
    linarith [hquat i j, hother i j]
  obtain ⟨i, hi⟩ : ∃ i, components quat i ≠ 0 := by
    by_contra hnone
    push Not at hnone
    have hzero (i : Fin 4) : components quat i = 0 := hnone i
    rw [Quaternion.squaredNorm, Quaternion.dot, show quat.w = 0 from hzero 0,
      show quat.x = 0 from hzero 1, show quat.y = 0 from hzero 2,
          show quat.z = 0 from hzero 3] at hunit
    norm_num at hunit
  rcases mul_self_eq_mul_self_iff.mp (hsame i i) with heq | hneg
  · refine .inl (funext fun j => mul_left_cancel₀ hi ?_)
    rw [← hsame i j, heq]
  · refine .inr (funext fun j => mul_left_cancel₀ hi ?_)
    rw [Pi.neg_apply, mul_neg, ← hsame i j, hneg, neg_mul, neg_neg]

/-- Rows and columns are orthonormal, and each entry is its cofactor. -/
theorem IsRotation.entries (h : IsRotation mat) :
    (∀ r c, mat r 0 * mat c 0 + mat r 1 * mat c 1 + mat r 2 * mat c 2 = (1 : Matrix3 ℝ) r c) ∧
      (∀ r c, mat 0 r * mat 0 c + mat 1 r * mat 1 c + mat 2 r * mat 2 c = (1 : Matrix3 ℝ) r c) ∧
      ∀ r c, mat.adjugate r c = mat c r := by
  have hinverse : mat * matᵀ = 1 := mul_eq_one_comm.mp h.transpose_mul
  refine ⟨fun r c => ?_, fun r c => ?_, fun r c => ?_⟩
  · rw [← hinverse, mul_apply, Fin.sum_univ_three]
    rfl
  · rw [← h.transpose_mul, mul_apply, Fin.sum_univ_three]
    rfl
  · have hadjugate : mat.adjugate * mat = 1 := by rw [adjugate_mul, h.det, one_smul]
    calc mat.adjugate r c = (mat.adjugate * (mat * matᵀ)) r c := by rw [hinverse, Matrix.mul_one]
      _ = mat c r := by rw [← Matrix.mul_assoc, hadjugate, Matrix.one_mul, transpose_apply]

/-- In the matrix of a rotation any component gives the products of the others. -/
theorem IsRotation.products_mul (h : IsRotation mat) (p i j : Fin 4) :
    products mat p i * products mat p j = products mat p p * products mat i j := by
  obtain ⟨hrows, hcolumns, hcofactors⟩ := h.entries
  rw [adjugate_fin_three] at hcofactors
  have r00 := (hrows 0 0).trans (one_apply_eq 0)
  have r11 := (hrows 1 1).trans (one_apply_eq 1)
  have r22 := (hrows 2 2).trans (one_apply_eq 2)
  have r01 := (hrows 0 1).trans (one_apply_ne (by decide))
  have r02 := (hrows 0 2).trans (one_apply_ne (by decide))
  have r12 := (hrows 1 2).trans (one_apply_ne (by decide))
  have s00 := (hcolumns 0 0).trans (one_apply_eq 0)
  have s11 := (hcolumns 1 1).trans (one_apply_eq 1)
  have s22 := (hcolumns 2 2).trans (one_apply_eq 2)
  have s01 := (hcolumns 0 1).trans (one_apply_ne (by decide))
  have s02 := (hcolumns 0 2).trans (one_apply_ne (by decide))
  have s12 := (hcolumns 1 2).trans (one_apply_ne (by decide))
  have c00 : mat 1 1 * mat 2 2 - mat 1 2 * mat 2 1 = mat 0 0 := hcofactors 0 0
  have c01 : -(mat 0 1 * mat 2 2) + mat 0 2 * mat 2 1 = mat 1 0 := hcofactors 0 1
  have c02 : mat 0 1 * mat 1 2 - mat 0 2 * mat 1 1 = mat 2 0 := hcofactors 0 2
  have c10 : -(mat 1 0 * mat 2 2) + mat 1 2 * mat 2 0 = mat 0 1 := hcofactors 1 0
  have c11 : mat 0 0 * mat 2 2 - mat 0 2 * mat 2 0 = mat 1 1 := hcofactors 1 1
  have c12 : -(mat 0 0 * mat 1 2) + mat 0 2 * mat 1 0 = mat 2 1 := hcofactors 1 2
  have c20 : mat 1 0 * mat 2 1 - mat 1 1 * mat 2 0 = mat 0 2 := hcofactors 2 0
  have c21 : -(mat 0 0 * mat 2 1) + mat 0 1 * mat 2 0 = mat 1 2 := hcofactors 2 1
  have c22 : mat 0 0 * mat 1 1 - mat 0 1 * mat 1 0 = mat 2 2 := hcofactors 2 2
  clear hrows hcolumns hcofactors
  fin_cases p <;> fin_cases i <;> fin_cases j <;>
    simp only [products, xAxis_eq, yAxis_eq, zAxis_eq, Fin.zero_eta, Fin.mk_one, Fin.reduceFinMk,
      of_apply, cons_val] <;> linarith

/-- A quaternion that is read off one row of the products is one for the matrix. -/
theorem IsRotation.represents_of_pivot (h : IsRotation mat) {p : Fin 4} (hp : 0 < products mat p p)
    (hquat : ∀ i, components quat i = products mat p i * (1 / 2 / √(products mat p p))) :
    Represents quat mat := by
  intro i j
  have hroot : √(products mat p p) * √(products mat p p) = products mat p p :=
    Real.mul_self_sqrt hp.le
  have hpos : 0 < √(products mat p p) := Real.sqrt_pos.mpr hp
  calc 4 * (components quat i * components quat j)
      = products mat p i * products mat p j / (√(products mat p p) * √(products mat p p)) := by
        rw [hquat, hquat]
        field_simp
        ring
    _ = products mat i j := by
        rw [h.products_mul, hroot, mul_div_cancel_left₀ _ hp.ne']

theorem le_largest (mat : Matrix3 ℝ) (axis : Fin 3) :
    mat axis axis ≤ mat (Quaternion.largest mat) (Quaternion.largest mat) := by
  have htwo (i : Fin 3) (hi : i = if mat 0 0 < mat 1 1 then 1 else 0) :
      mat 0 0 ≤ mat i i ∧ mat 1 1 ≤ mat i i := by
    split at hi <;> subst hi
    next h => exact ⟨h.le, le_refl _⟩
    next h => exact ⟨le_refl _, not_lt.mp h⟩
  unfold Quaternion.largest
  extract_lets i
  obtain ⟨hzero, hone⟩ := htwo i rfl
  split
  next h => fin_cases axis; exacts [hzero.trans h.le, hone.trans h.le, le_refl _]
  next h => fin_cases axis; exacts [hzero, hone, not_lt.mp h]

/-- The largest component is not small when the first one is. -/
theorem products_largest_pos (htrace : mat 0 0 + mat 1 1 + mat 2 2 ≤ 0) :
    0 < products mat (Quaternion.largest mat).succ (Quaternion.largest mat).succ := by
  have hzero := le_largest mat 0
  have hone := le_largest mat 1
  have htwo := le_largest mat 2
  generalize Quaternion.largest mat = pivot at hzero hone htwo
  fin_cases pivot <;> simp only [Fin.zero_eta, Fin.mk_one, Fin.reduceFinMk] at hzero hone htwo
  · show 0 < mat 0 0 - mat 1 1 - mat 2 2 + 1
    linarith
  · show 0 < mat 1 1 - mat 2 2 - mat 0 0 + 1
    linarith
  · show 0 < mat 2 2 - mat 0 0 - mat 1 1 + 1
    linarith

theorem IsRotation.represents_ofRotationMatrix (h : IsRotation mat) :
    Represents (.ofRotationMatrix Quaternion.realMath mat) mat := by
  have hself {square : ℝ} (hsquare : 0 < square) :
      1 / 2 * √square = square * (1 / 2 / √square) := by
    have hpos : 0 < √square := Real.sqrt_pos.mpr hsquare
    have hroot := Real.mul_self_sqrt hsquare.le
    field_simp
    rw [pow_two, hroot]
  by_cases htrace : 0 < mat xAxis xAxis + mat yAxis yAxis + mat zAxis zAxis
  · have hp : 0 < products mat 0 0 := by
      simp only [products, of_apply, cons_val]
      linarith
    refine h.represents_of_pivot hp fun i => ?_
    rw [Quaternion.ofRotationMatrix, if_pos htrace]
    fin_cases i
    · exact hself hp
    all_goals rfl
  · have hp := products_largest_pos (le_of_not_gt htrace)
    refine h.represents_of_pivot hp fun i => ?_
    rw [Quaternion.ofRotationMatrix, if_neg htrace]
    generalize Quaternion.largest mat = pivot at hp
    fin_cases pivot <;> fin_cases i
    all_goals first | exact hself hp | rfl | exact congrArg (· * _) (add_comm _ _)

theorem components_injective {first second : Quaternion ℝ}
    (h : components first = components second) : first = second := by
  obtain ⟨w, x, y, z⟩ := first
  obtain ⟨w', x', y', z'⟩ := second
  obtain rfl : w = w' := congrFun h 0
  obtain rfl : x = x' := congrFun h 1
  obtain rfl : y = y' := congrFun h 2
  obtain rfl : z = z' := congrFun h 3
  rfl

/-- The same rotation, by the other quaternion for it. -/
def PoseState.negated (pose : PoseState ℝ) : PoseState ℝ :=
  { pose with rotation :=
      ⟨-pose.rotation.w, -pose.rotation.x, -pose.rotation.y, -pose.rotation.z⟩ }

variable {math : EigenMath ℝ}

/-- Converting a transform to a pose and back loses nothing, and neither does the other way, but
for the sign of the quaternion. -/
theorem toPose_fromPose (hmath : math.toLibm = Quaternion.realMath)
    (hrotation : ∀ rotation, IsRotation rotation → math.rotation rotation = rotation) :
    (∀ xform : Isometry3d ℝ, IsRotation xform.linear → fromPose (toPose math xform) = xform) ∧
      ∀ pose : PoseState ℝ, pose.rotation.squaredNorm = 1 →
        toPose math (fromPose pose) = pose ∨ toPose math (fromPose pose) = pose.negated := by
  constructor
  · rintro ⟨linear, translation⟩ hlinear
    have hmatrix := hlinear.represents_ofRotationMatrix.toRotationMatrix_eq
    simp only [fromPose, toPose, Isometry3d.fromPositionOrientation,
      hrotation linear hlinear, hmath, hmatrix, vecMap_ofVecMap]
  · intro pose hunit
    have hlinear := isRotation_toRotationMatrix hunit
    have hback : toPose math (fromPose pose) =
        ⟨pose.translation, .ofRotationMatrix Quaternion.realMath
          pose.rotation.toRotationMatrix⟩ := by
      simp only [fromPose, toPose, Isometry3d.fromPositionOrientation, hrotation _ hlinear, hmath,
        ofVecMap_vecMap]
    rw [hback]
    rcases (represents_toRotationMatrix hunit).eq_or_eq_neg
      hlinear.represents_ofRotationMatrix hunit with heq | hneg
    · rw [components_injective heq]
      exact .inl rfl
    · refine .inr (congrArg (PoseState.mk pose.translation) (components_injective ?_))
      rw [hneg]
      ext i
      fin_cases i <;> rfl

/-- For a rotation the decomposition gives it back. -/
noncomputable def rotationMath : EigenMath ℝ := { Quaternion.realMath with rotation := id }

theorem toPose_fromPose_halfTurn :
    let pose : PoseState ℝ := ⟨⟨1, 2, 3⟩, ⟨0, 0, -1, 0⟩⟩
    fromPose (toPose rotationMath (fromPose pose)) = fromPose pose ∧
      (toPose rotationMath (fromPose pose) = pose ∨
        toPose rotationMath (fromPose pose) = pose.negated) := by
  intro pose
  have hunit : pose.rotation.squaredNorm = 1 := by
    simp [pose, Quaternion.squaredNorm, Quaternion.dot]
  obtain ⟨hxform, hpose⟩ := @toPose_fromPose rotationMath rfl fun _ _ => rfl
  exact ⟨hxform (fromPose pose) (isRotation_toRotationMatrix hunit), hpose pose hunit⟩

end Rotations

end OSVR.Util
