/-
# The Jacobian of an image point

The measurement of a blob is a nonlinear function of the state, and the filter uses its
derivative. With respect to the positions of the body and of the beacon the Jacobian is the
derivative. With respect to a small rotation it is twice the derivative, because the
exponential map turns by half of the vector that it is given.
-/

import Mathlib
import OsvrCore.Kalman.ExternalQuaternion
import OsvrCore.VbTracker.KalmanCorrections

set_option autoImplicit false

namespace OSVR.VbTracker

open Matrix Util Kalman PoseExternalizedRotation

/-! ## Products of rotations -/

section Rotations

variable {a b : Util.Quaternion ℝ}

/-- The matrix of a unit quaternion, with terms of the second order only. -/
theorem toRotationMatrix_eq_of_unit (hunit : a.squaredNorm = 1) : a.toRotationMatrix =
    !![a.w * a.w + a.x * a.x - a.y * a.y - a.z * a.z, 2 * (a.x * a.y - a.w * a.z),
         2 * (a.x * a.z + a.w * a.y);
       2 * (a.x * a.y + a.w * a.z), a.w * a.w - a.x * a.x + a.y * a.y - a.z * a.z,
         2 * (a.y * a.z - a.w * a.x);
       2 * (a.x * a.z - a.w * a.y), 2 * (a.y * a.z + a.w * a.x),
         a.w * a.w - a.x * a.x - a.y * a.y + a.z * a.z] := by
  rw [Quaternion.squaredNorm, Quaternion.dot] at hunit
  ext row column
  fin_cases row <;> fin_cases column <;> simp [Quaternion.toRotationMatrix] <;> linarith

theorem toRotationMatrix_mul (ha : a.squaredNorm = 1) (hb : b.squaredNorm = 1) :
    (a.mul b).toRotationMatrix = a.toRotationMatrix * b.toRotationMatrix := by
  have hproduct : (a.mul b).squaredNorm = 1 := by rw [squaredNorm_mul, ha, hb, mul_one]
  rw [toRotationMatrix_eq_of_unit ha, toRotationMatrix_eq_of_unit hb,
    toRotationMatrix_eq_of_unit hproduct]
  ext row column
  fin_cases row <;> fin_cases column <;>
    simp [Quaternion.mul, Matrix.mul_apply, Fin.sum_univ_three] <;> ring

theorem normalized_of_unit (ha : a.squaredNorm = 1) : a.normalized Quaternion.realMath = a := by
  simp [Quaternion.normalized, Quaternion.divide, ha, Quaternion.realMath]

end Rotations

/-! ## Derivatives at zero -/

/-- A function that is a constant and a multiple of its argument by a continuous factor. -/
theorem hasDerivAt_of_factor {f g : ℝ → ℝ} {constant : ℝ}
    (h : ∀ᶠ s in nhds 0, f s = constant + s * g s) (hg : ContinuousAt g 0) :
    HasDerivAt f (g 0) 0 := by
  have hzero : f 0 = constant := by rw [h.self_of_nhds, zero_mul, add_zero]
  rw [hasDerivAt_iff_tendsto_slope_zero]
  refine (hg.tendsto.mono_left nhdsWithin_le_nhds).congr' ?_
  filter_upwards [nhdsWithin_le_nhds h, self_mem_nhdsWithin] with s hs hne
  rw [zero_add, hs, hzero, add_sub_cancel_left, smul_eq_mul, inv_mul_cancel_left₀ hne]

/-- A point in front of the camera that moves. -/
theorem hasDerivAt_project {camPoints : ℝ → Fin 3 → ℝ} {velocity : Fin 3 → ℝ}
    (hmoves : ∀ axis, HasDerivAt (fun s => camPoints s axis) (velocity axis) 0)
    (hz : camPoints 0 zAxis ≠ 0) (focalLength principal seen : ℝ) (axis : Fin 3) :
    HasDerivAt (fun s => seen - (camPoints s axis / camPoints s zAxis * focalLength + principal))
      (-((velocity axis * camPoints 0 zAxis - camPoints 0 axis * velocity zAxis) /
        camPoints 0 zAxis ^ 2 * focalLength)) 0 :=
  HasDerivAt.const_sub seen (HasDerivAt.add_const principal
    (HasDerivAt.mul_const ((hmoves axis).div (hmoves zAxis) hz) focalLength))

/-! ## The small rotation -/

/-- The series for the sine, divided by its angle. -/
noncomputable def sinc (theta : ℝ) : ℝ := 1 - theta * theta / (6 : ℕ)

noncomputable def quarter (s : ℝ) : ℝ := s / (4 : ℕ)

/-- The vector part of the exponential map along an axis, for each unit of the angle. -/
noncomputable def turnShare (s : ℝ) : ℝ :=
  sinc (quarter s) / (4 : ℕ) / √(Real.cos (quarter s) ^ 2 + (sinc (quarter s) * quarter s) ^ 2)

/-- The scalar part. -/
noncomputable def turnScalar (s : ℝ) : ℝ :=
  Real.cos (quarter s) / √(Real.cos (quarter s) ^ 2 + (sinc (quarter s) * quarter s) ^ 2)

/-- A turn about an axis. -/
def turnAbout (axis : Fin 3) (scalar vector : ℝ) : Util.Quaternion ℝ where
  w := scalar
  x := (Pi.single axis vector : Fin 3 → ℝ) xAxis
  y := (Pi.single axis vector : Fin 3 → ℝ) yAxis
  z := (Pi.single axis vector : Fin 3 → ℝ) zAxis

theorem continuousAt_turn : ContinuousAt turnShare 0 ∧ ContinuousAt turnScalar 0 := by
  have hnorm : √(Real.cos (quarter 0) ^ 2 + (sinc (quarter 0) * quarter 0) ^ 2) ≠ 0 := by
    norm_num [quarter]
  unfold turnShare turnScalar
  simp only [quarter, sinc] at hnorm ⊢
  constructor
  · exact ContinuousAt.div (by fun_prop) (by fun_prop) hnorm
  · exact ContinuousAt.div (by fun_prop) (by fun_prop) hnorm

theorem squaredNorm_turnAbout (axis : Fin 3) (scalar vector : ℝ) :
    (turnAbout axis scalar vector).squaredNorm = scalar ^ 2 + vector ^ 2 := by
  fin_cases axis <;> simp [turnAbout, Quaternion.squaredNorm, Quaternion.dot] <;> ring

theorem divide_turnAbout (axis : Fin 3) (scalar vector divisor : ℝ) :
    (turnAbout axis scalar vector).divide divisor =
      turnAbout axis (scalar / divisor) (vector / divisor) := by
  fin_cases axis <;> simp [turnAbout, Quaternion.divide]

/-- The angle of the exponential map is half of the vector. -/
theorem sqrt_half_single (axis : Fin 3) (s : ℝ) :
    √(∑ other, (Pi.single axis s : Fin 3 → ℝ) other / (2 : ℕ) *
      ((Pi.single axis s : Fin 3 → ℝ) other / (2 : ℕ))) = |s| / 2 := by
  rw [Finset.sum_eq_single axis (fun other _ hother => by simp [hother]) (by simp),
    Pi.single_eq_same, Real.sqrt_mul_self_eq_abs, abs_div, Nat.abs_cast, Nat.cast_ofNat]

/-- The exponential map near zero, on an axis. -/
theorem vecToQuat_eventually (axis : Fin 3) : ∀ᶠ s in nhds (0 : ℝ),
    vecToQuat Quaternion.realMath (Pi.single axis s) =
      turnAbout axis (turnScalar s) (s * turnShare s) := by
  have hnear : ∀ᶠ s in nhds (0 : ℝ), |s| < 4 * QSINC_CUTOFF :=
    (continuous_abs.tendsto' (0 : ℝ) 0 abs_zero).eventually_lt_const (by norm_num [QSINC_CUTOFF])
  filter_upwards [hnear] with s hs
  have hquarter : |s| / 2 / (2 : ℕ) = |quarter s| := by
    rw [quarter, abs_div, Nat.abs_cast]
    push_cast
    ring
  have hsinc : qsinc Quaternion.realMath |quarter s| = sinc (quarter s) := by
    rw [← hquarter, qsinc, if_pos (by push_cast; linarith), hquarter, abs_mul_abs_self]
    rfl
  have hturn : vecToQuat Quaternion.realMath (Pi.single axis s) = Quaternion.normalized
      Quaternion.realMath (turnAbout axis (Real.cos (quarter s))
        (sinc (quarter s) * quarter s)) := by
    simp only [vecToQuat, Quaternion.realMath_sqrt, Quaternion.realMath_cos, sqrt_half_single]
    rw [hquarter, Real.cos_abs, hsinc]
    refine congrArg (Quaternion.normalized Quaternion.realMath) ?_
    fin_cases axis <;> simp [turnAbout, quarter] <;> ring
  rw [hturn, Quaternion.normalized, divide_turnAbout, squaredNorm_turnAbout]
  refine congrArg (turnAbout axis (turnScalar s)) ?_
  show sinc (quarter s) * (s / (4 : ℕ)) / √_ = s * turnShare s
  rw [turnShare]
  ring

/-- What a turn does to a point. -/
theorem turnAbout_mulVec (axis : Fin 3) (scalar vector : ℝ) (point : Fin 3 → ℝ) :
    (turnAbout axis scalar vector).toRotationMatrix *ᵥ point =
      point + (2 * (scalar * vector)) • crossProduct (Pi.single axis 1) point +
        (2 * (vector * vector)) • crossProduct (Pi.single axis 1)
          (crossProduct (Pi.single axis 1) point) := by
  ext other
  rw [Pi.add_apply, Pi.add_apply, Pi.smul_apply, Pi.smul_apply, smul_eq_mul, smul_eq_mul]
  fin_cases axis <;> fin_cases other <;>
    simp [turnAbout, Quaternion.toRotationMatrix, mulVec, dotProduct, Fin.sum_univ_three,
      cross_apply]
  all_goals ring

/-- A turn near zero, as a multiple of what it begins with. -/
noncomputable def turnFactor (axis : Fin 3) (point : Fin 3 → ℝ) (s : ℝ) : Fin 3 → ℝ :=
  ((2 : ℕ) * (turnScalar s * turnShare s)) • crossProduct (Pi.single axis 1) point +
    ((2 : ℕ) * (s * (turnShare s * turnShare s))) • crossProduct (Pi.single axis 1)
      (crossProduct (Pi.single axis 1) point)

theorem turn_eq (axis : Fin 3) (point : Fin 3 → ℝ) (s : ℝ) :
    (turnAbout axis (turnScalar s) (s * turnShare s)).toRotationMatrix *ᵥ point =
      point + s • turnFactor axis point s := by
  ext other
  rw [turnAbout_mulVec, turnFactor]
  simp only [Pi.add_apply, Pi.smul_apply, smul_eq_mul, Nat.cast_ofNat]
  ring

theorem continuousAt_turnFactor (axis other : Fin 3) (point : Fin 3 → ℝ) :
    ContinuousAt (fun s => turnFactor axis point s other) 0 := by
  obtain ⟨hshare, hscalar⟩ := continuousAt_turn
  simp only [turnFactor, Pi.add_apply, Pi.smul_apply, smul_eq_mul]
  fun_prop

theorem turnFactor_zero (axis : Fin 3) (point : Fin 3 → ℝ) :
    turnFactor axis point 0 = (1 / (2 : ℕ) : ℝ) • crossProduct (Pi.single axis 1) point := by
  have hshare : turnShare 0 = 1 / 4 := by norm_num [turnShare, sinc, quarter]
  have hscalar : turnScalar 0 = 1 := by norm_num [turnScalar, quarter]
  rw [turnFactor, hshare, hscalar, zero_mul, mul_zero, zero_smul, add_zero]
  norm_num

/-! ## The point before the camera -/

section CameraPoint

/-- The state of the body and of a beacon. -/
abbrev BodyAndBeacon := State ℝ (Util.Quaternion ℝ) × BeaconState ℝ

/-- The methods of the augmented state. -/
noncomputable abbrev bodyAndBeaconType :
    StateType ℝ (StateIndex ⊕ Fin 3) BodyAndBeacon :=
  augmentedState (stateType realQuats) beaconStateType

/-- One component of the vector is moved. -/
noncomputable def movedBy (state : BodyAndBeacon) (index : StateIndex ⊕ Fin 3) (s : ℝ) :
    BodyAndBeacon :=
  bodyAndBeaconType.setStateVector state (bodyAndBeaconType.stateVector state + Pi.single index s)

noncomputable def cameraPoint (state : BodyAndBeacon) : Fin 3 → ℝ :=
  (ImagePointMeasurement.updateFromState realQuats state).rotatedTranslatedPoint

variable {state : BodyAndBeacon}

/-- The velocity of the point before the camera when a component of the state is moved. -/
noncomputable def pointVelocity (state : BodyAndBeacon) : StateIndex ⊕ Fin 3 → Fin 3 → ℝ
  | .inl (.inl (.inl axis)) => Pi.single axis 1
  | .inl (.inl (.inr axis)) => (1 / (2 : ℕ) : ℝ) • crossProduct (Pi.single axis 1)
      (ImagePointMeasurement.updateFromState realQuats state).rotatedObjPoint
  | .inl (.inr _) => 0
  | .inr axis => fun other =>
      (ImagePointMeasurement.updateFromState realQuats state).rot other axis

theorem movedBy_body (index : StateIndex) (s : ℝ) : movedBy state (.inl index) s =
    ({ state.1 with stateVector := state.1.stateVector + Pi.single index s }, state.2) := by
  refine Prod.ext ?_ ?_
  · refine congrArg (fun vector => { state.1 with stateVector := vector }) ?_
    ext other
    simp [bodyAndBeaconType, augmentedState, stateType, Pi.single_apply]
  · refine congrArg (fun vector => { state.2 with stateVector := vector }) ?_
    ext other
    simp [bodyAndBeaconType, augmentedState, beaconStateType]

theorem movedBy_beacon (axis : Fin 3) (s : ℝ) : movedBy state (.inr axis) s =
    (state.1, { state.2 with stateVector := state.2.stateVector + Pi.single axis s }) := by
  refine Prod.ext ?_ ?_
  · refine congrArg (fun vector => { state.1 with stateVector := vector }) ?_
    ext other
    simp [bodyAndBeaconType, augmentedState, stateType]
  · refine congrArg (fun vector => { state.2 with stateVector := vector }) ?_
    ext other
    simp [bodyAndBeaconType, augmentedState, beaconStateType, Pi.single_apply]

/-- A function that grows evenly. -/
theorem hasDerivAt_linear {f : ℝ → ℝ} {slope : ℝ} (constant : ℝ)
    (h : ∀ s, f s = constant + s * slope) :
    HasDerivAt f slope 0 :=
  hasDerivAt_of_factor (.of_forall h) continuousAt_const

/-- A small rotation on top of a unit quaternion. -/
theorem getCombinedQuaternion_eq {body : State ℝ (Util.Quaternion ℝ)}
    (hunit : body.orientation.squaredNorm = 1) : body.getCombinedQuaternion realQuats =
      (vecToQuat Quaternion.realMath (incrementalOrientation body.stateVector)).mul
        body.orientation := by
  refine normalized_of_unit ?_
  rw [show realQuats.mul _ _ = Quaternion.mul _ _ from rfl, squaredNorm_mul, hunit, mul_one]
  exact squaredNorm_vecToQuat _

/-- The point is turned by the orientation, then by the small rotation, and moved. -/
theorem cameraPoint_eq (hunit : state.1.orientation.squaredNorm = 1) : cameraPoint state =
    (vecToQuat Quaternion.realMath (incrementalOrientation state.1.stateVector)).toRotationMatrix *ᵥ
      (state.1.orientation.toRotationMatrix *ᵥ state.2.stateVector) +
        position state.1.stateVector := by
  rw [mulVec_mulVec, ← toRotationMatrix_mul (squaredNorm_vecToQuat _) hunit,
    ← getCombinedQuaternion_eq hunit]
  rfl

/-- No rotation at all. -/
theorem toRotationMatrix_vecToQuat_zero :
    (vecToQuat Quaternion.realMath 0).toRotationMatrix = 1 := by
  have hturn := (vecToQuat_eventually 0).self_of_nhds
  rw [Pi.single_zero] at hturn
  refine ext_of_mulVec_single fun axis => ?_
  rw [hturn, turn_eq, zero_smul, add_zero, one_mulVec]

/-- What an orientation is used as when there is no small rotation on top of it. -/
theorem rot_of_zero (hunit : state.1.orientation.squaredNorm = 1)
    (hzero : incrementalOrientation state.1.stateVector = 0) :
    (ImagePointMeasurement.updateFromState realQuats state).rot =
      state.1.orientation.toRotationMatrix := by
  show (state.1.getCombinedQuaternion realQuats).toRotationMatrix = _
  rw [getCombinedQuaternion_eq hunit, toRotationMatrix_mul (squaredNorm_vecToQuat _) hunit, hzero,
    toRotationMatrix_vecToQuat_zero, Matrix.one_mul]

theorem cameraPoint_movedBy_body (hunit : state.1.orientation.squaredNorm = 1) (index : StateIndex)
    (s : ℝ) : cameraPoint (movedBy state (.inl index) s) =
      (vecToQuat Quaternion.realMath (incrementalOrientation
        (state.1.stateVector + Pi.single index s))).toRotationMatrix *ᵥ
          (state.1.orientation.toRotationMatrix *ᵥ state.2.stateVector) +
        position (state.1.stateVector + Pi.single index s) := by
  rw [movedBy_body]
  exact cameraPoint_eq hunit

theorem cameraPoint_movedBy_beacon (hunit : state.1.orientation.squaredNorm = 1)
    (hzero : incrementalOrientation state.1.stateVector = 0) (axis : Fin 3) (s : ℝ) :
    cameraPoint (movedBy state (.inr axis) s) = state.1.orientation.toRotationMatrix *ᵥ
      (state.2.stateVector + Pi.single axis s) + position state.1.stateVector := by
  have hmoved := @cameraPoint_eq
    (state.1, { state.2 with stateVector := state.2.stateVector + Pi.single axis s }) hunit
  rw [hzero, toRotationMatrix_vecToQuat_zero, one_mulVec] at hmoved
  rw [movedBy_beacon]
  exact hmoved

/-- At a small rotation of zero, the point moves as it should with all but the small rotation, for
which it is half as fast. -/
theorem hasDerivAt_cameraPoint (hunit : state.1.orientation.squaredNorm = 1)
    (hzero : incrementalOrientation state.1.stateVector = 0) (index : StateIndex ⊕ Fin 3)
    (other : Fin 3) :
    HasDerivAt (fun s => cameraPoint (movedBy state index s) other)
      (pointVelocity state index other) 0 := by
  have hrot : (ImagePointMeasurement.updateFromState realQuats state).rot = _ :=
    rot_of_zero hunit hzero
  let place := (state.1.orientation.toRotationMatrix *ᵥ state.2.stateVector +
    position state.1.stateVector) other
  rcases index with ((axis | axis) | index) | axis
  · refine hasDerivAt_linear place fun s => ?_
    have hturned :
        incrementalOrientation (state.1.stateVector + Pi.single (.inl (.inl axis)) s) = 0 := by
      ext direction
      simpa [incrementalOrientation] using congrFun hzero direction
    have hplace : position (state.1.stateVector + Pi.single (.inl (.inl axis)) s) other =
        position state.1.stateVector other + s * (Pi.single axis 1 : Fin 3 → ℝ) other := by
      simp [position, Pi.single_apply]
    rw [cameraPoint_movedBy_body hunit, hturned, toRotationMatrix_vecToQuat_zero, one_mulVec,
      Pi.add_apply, hplace, ← add_assoc]
    rfl
  · have hvelocity : pointVelocity state (.inl (.inl (.inr axis))) other = turnFactor axis
        (state.1.orientation.toRotationMatrix *ᵥ state.2.stateVector) 0 other := by
      rw [turnFactor_zero, ← hrot]
      rfl
    rw [hvelocity]
    refine @hasDerivAt_of_factor _ _ place ?_ (continuousAt_turnFactor _ _ _)
    filter_upwards [vecToQuat_eventually axis] with s hs
    have hturned : incrementalOrientation (state.1.stateVector + Pi.single (.inl (.inr axis)) s) =
        Pi.single axis s := by
      ext direction
      have hsame := congrFun hzero direction
      simp only [incrementalOrientation, Pi.zero_apply] at hsame
      simp [incrementalOrientation, hsame, Pi.single_apply]
    have hplace : position (state.1.stateVector + Pi.single (.inl (.inr axis)) s) =
        position state.1.stateVector := by
      ext direction
      simp [position]
    rw [cameraPoint_movedBy_body hunit, hturned, hplace, hs, turn_eq]
    simp only [place, Pi.add_apply, Pi.smul_apply, smul_eq_mul]
    ring
  · refine hasDerivAt_linear place fun s => ?_
    have hturned : incrementalOrientation (state.1.stateVector + Pi.single (.inr index) s) = 0 := by
      ext direction
      simpa [incrementalOrientation] using congrFun hzero direction
    have hplace : position (state.1.stateVector + Pi.single (.inr index) s) =
        position state.1.stateVector := by
      ext direction
      simp [position]
    rw [cameraPoint_movedBy_body hunit, hturned, toRotationMatrix_vecToQuat_zero,
      one_mulVec, hplace]
    exact (add_zero _).symm.trans (congrArg _ (mul_zero s).symm)
  · refine hasDerivAt_linear place fun s => ?_
    rw [cameraPoint_movedBy_beacon hunit hzero, mulVec_add, mulVec_single]
    simp only [place, pointVelocity, hrot, Pi.add_apply, Pi.smul_apply,
      MulOpposite.smul_eq_mul_unop, MulOpposite.unop_op, col_apply]
    ring

end CameraPoint

/-! ## The Jacobian -/

/-- How many times the derivative a column of the Jacobian is. -/
noncomputable def jacobianScale : StateIndex ⊕ Fin 3 → ℝ
  | .inl (.inl (.inr _)) => (2 : ℕ)
  | .inl (.inl (.inl _)) | .inl (.inr _) | .inr _ => 1

variable {state : BodyAndBeacon}

/-- The derivative of a coordinate of the image point, from the velocity of the point. -/
noncomputable def imageVelocity (meas : ImagePointMeasurement ℝ) (point velocity : Fin 3 → ℝ)
    (row : Fin 2) : ℝ :=
  (velocity row.castSucc * point zAxis - point row.castSucc * velocity zAxis) / point zAxis ^ 2 *
    meas.cam.focalLength

section Columns

variable (meas : ImagePointMeasurement ℝ) {solutions : PartialSolutions ℝ} (row : Fin 2)
    (axis : Fin 3)

theorem getPositionJacobian_eq (hz : solutions.rotatedTranslatedPoint zAxis ≠ 0) :
    meas.getPositionJacobian solutions row axis =
      imageVelocity meas solutions.rotatedTranslatedPoint (Pi.single axis 1) row := by
  rw [zAxis_eq] at hz
  fin_cases row <;> fin_cases axis <;>
    simp [ImagePointMeasurement.getPositionJacobian, imageVelocity] <;> field_simp

theorem getRotationJacobian_eq (hz : solutions.rotatedTranslatedPoint zAxis ≠ 0) :
    meas.getRotationJacobian solutions row axis =
      imageVelocity meas solutions.rotatedTranslatedPoint
      (crossProduct (Pi.single axis 1) solutions.rotatedObjPoint) row := by
  rw [zAxis_eq] at hz
  fin_cases row <;> fin_cases axis <;>
    simp [ImagePointMeasurement.getRotationJacobian, imageVelocity, cross_apply] <;>
    field_simp
  all_goals ring

theorem getBeaconJacobian_eq (hz : solutions.rotatedTranslatedPoint zAxis ≠ 0)
    (hpoint : solutions.rotatedTranslatedPoint =
      solutions.rot *ᵥ solutions.beacon + solutions.xlate) :
    meas.getBeaconJacobian solutions row axis = imageVelocity meas solutions.rotatedTranslatedPoint
      (fun other => solutions.rot other axis) row := by
  rw [zAxis_eq] at hz
  have hentry (other : Fin 3) : solutions.rotatedTranslatedPoint other =
      solutions.rot other 0 * solutions.beacon 0 + solutions.rot other 1 * solutions.beacon 1 +
        solutions.rot other 2 * solutions.beacon 2 + solutions.xlate other := by
    rw [hpoint, Pi.add_apply, mulVec, dotProduct, Fin.sum_univ_three]
  have hx : solutions.rot 0 2 * solutions.beacon 2 + solutions.rot 0 1 * solutions.beacon 1 +
      solutions.beacon 0 * solutions.rot 0 0 + solutions.xlate 0 =
        solutions.rotatedTranslatedPoint 0 := by
    rw [hentry]
    ring
  have hdepth : solutions.beacon 2 * solutions.rot 2 2 + solutions.beacon 1 * solutions.rot 2 1 +
      solutions.beacon 0 * solutions.rot 2 0 + solutions.xlate 2 =
        solutions.rotatedTranslatedPoint 2 := by
    rw [hentry]
    ring
  have hy : solutions.rot 1 2 * solutions.beacon 2 + solutions.beacon 1 * solutions.rot 1 1 +
      solutions.beacon 0 * solutions.rot 1 0 + solutions.xlate 1 =
        solutions.rotatedTranslatedPoint 1 := by
    rw [hentry]
    ring
  fin_cases row <;>
    simp [ImagePointMeasurement.getBeaconJacobian, imageVelocity, hx, hdepth, hy] <;>
    field_simp

end Columns

/-- The columns of the Jacobian. -/
theorem getJacobian_eq (meas : ImagePointMeasurement ℝ) (hz : cameraPoint state zAxis ≠ 0)
    (row : Fin 2) (index : StateIndex ⊕ Fin 3) :
    meas.getJacobian (ImagePointMeasurement.updateFromState realQuats state) row index =
      jacobianScale index * imageVelocity meas (cameraPoint state)
        (pointVelocity state index) row := by
  rcases index with ((axis | axis) | index) | axis
  · rw [jacobianScale, one_mul]
    exact getPositionJacobian_eq meas row axis hz
  · rw [jacobianScale]
    refine (getRotationJacobian_eq meas row axis hz).trans ?_
    simp only [imageVelocity, pointVelocity, Pi.smul_apply, smul_eq_mul]
    rw [show (ImagePointMeasurement.updateFromState realQuats state).rotatedTranslatedPoint =
      cameraPoint state from rfl]
    ring
  · rw [jacobianScale, one_mul, imageVelocity]
    simp [pointVelocity, ImagePointMeasurement.getJacobian]
  · rw [jacobianScale, one_mul]
    exact getBeaconJacobian_eq meas row axis hz rfl

/-- The residual falls with each component of the state as the Jacobian says, but only half as
fast with the small rotation. -/
theorem hasDerivAt_getResidual (meas : ImagePointMeasurement ℝ)
    (hunit : state.1.orientation.squaredNorm = 1)
    (hzero : incrementalOrientation state.1.stateVector = 0) (hz : cameraPoint state zAxis ≠ 0)
    (row : Fin 2) (index : StateIndex ⊕ Fin 3) :
    ∃ slope, HasDerivAt (fun s => meas.getResidual realQuats (movedBy state index s) row) slope 0 ∧
      jacobianScale index * slope =
        -meas.getJacobian (ImagePointMeasurement.updateFromState realQuats state) row index := by
  have hstart : cameraPoint (movedBy state index 0) = cameraPoint state := by
    rw [movedBy, Pi.single_zero, add_zero]
    rfl
  have hderiv := hasDerivAt_project (hasDerivAt_cameraPoint hunit hzero index)
    (by rwa [hstart]) meas.cam.focalLength (meas.cam.principalPoint row) (meas.measurement row)
    row.castSucc
  refine ⟨_, hderiv, ?_⟩
  rw [hstart, getJacobian_eq meas hz, mul_neg]
  rfl

/-- A body one meter before the camera that is not turned, and a beacon on its first axis. -/
noncomputable def uprightState : BodyAndBeacon :=
  ({ stateVector := Sum.elim (Sum.elim (fun axis => if axis = zAxis then 1 else 0) 0) 0
     errorCovariance := 1
     orientation := .identity }, ⟨Pi.single xAxis 1, 1⟩)

/-- A turn about the axis of the camera, which moves the beacon along the second axis. -/
theorem hasDerivAt_getResidual_upright :
    let meas : ImagePointMeasurement ℝ := ⟨3, ![320, 240], ⟨![320, 240], 700⟩⟩
    let index : StateIndex ⊕ Fin 3 := .inl (.inl (.inr zAxis))
    ∃ slope,
      HasDerivAt (fun s => meas.getResidual realQuats (movedBy uprightState index s) 1) slope 0 ∧
      2 * slope =
        -meas.getJacobian
          (ImagePointMeasurement.updateFromState realQuats uprightState) 1 index := by
  intro meas index
  have hunit : uprightState.1.orientation.squaredNorm = 1 := by
    simp [uprightState, Quaternion.squaredNorm, Quaternion.dot, Quaternion.identity]
  have hzero : incrementalOrientation uprightState.1.stateVector = 0 := rfl
  have hmatrix : (Quaternion.identity : Util.Quaternion ℝ).toRotationMatrix = 1 := by
    ext row column
    fin_cases row <;> fin_cases column <;> simp [Quaternion.toRotationMatrix, Quaternion.identity]
  have hz : cameraPoint uprightState zAxis = 1 := by
    rw [cameraPoint_eq hunit, hzero, toRotationMatrix_vecToQuat_zero, one_mulVec, Pi.add_apply,
      show uprightState.1.orientation = .identity from rfl, hmatrix, one_mulVec]
    simp [uprightState, position]
  exact hasDerivAt_getResidual meas hunit hzero (by rw [hz]; exact one_ne_zero) 1 index

end OSVR.VbTracker
