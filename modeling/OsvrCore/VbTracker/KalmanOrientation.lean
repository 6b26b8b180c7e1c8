/-
# The orientation in the pose filter

The orientation that the filter keeps is a unit quaternion in every run, so that the matrix
that it is used as is the matrix of a rotation.
-/

import OsvrCore.Kalman.ExternalQuaternion
import OsvrCore.VbTracker.KalmanRuns

set_option autoImplicit false

namespace OSVR.VbTracker

open Matrix Math Util Kalman PoseExternalizedRotation

universe u v w

variable {φ : Type w} {math : FilterMath ℝ (Util.Quaternion ℝ)} {params : KalmanParams ℝ}
  {config : ConfigParams} {camParams : CameraModel ℝ} {toDouble : φ → ℝ}

/-- A unit quaternion. -/
def PoseFilter.UnitOrientation (filter : PoseFilter ℝ (Util.Quaternion ℝ)) : Prop :=
  filter.state.orientation.squaredNorm = 1

/-- RANSAC gives a rotation, and not zero. -/
def FilterMath.AcceptsRotations (math : FilterMath ℝ (Util.Quaternion ℝ)) : Prop :=
  ∀ filter leds xlate quat, math.acceptedPose filter leds = some (xlate, quat) →
  0 < quat.squaredNorm

theorem keeps_unitOrientation (hquats : math.quats = realQuats) (haccepts : math.AcceptsRotations) :
    (kalmanArithmetic math params).Keeps (fun _ _ => True) PoseFilter.UnitOrientation where
  predict _ _ _ _ h := h
  correct filter prev tv led _ h := by
    show (PoseFilter.correct math params filter prev tv led).2.UnitOrientation
    rw [PoseFilter.correct]
    split
    · -- The correction ends with what it moved being taken into the quaternion.
      show (State.getCombinedQuaternion math.quats _).squaredNorm = 1
      rw [hquats]
      exact squaredNorm_getCombinedQuaternion h
    · exact h
  ransac filter leds h := by
    show (PoseFilter.ransac math params filter leds).2.UnitOrientation
    rw [PoseFilter.ransac]
    split
    · exact h
    next xlate quat haccepted =>
      show (math.quats.normalized quat).squaredNorm = 1
      rw [hquats]
      exact Quaternion.squaredNorm_normalized (haccepts _ _ _ _ haccepted)
  zeroState _ h := h

/-- The filter in a Kalman frame when the loop over the blobs comes to the one at this index. -/
def PoseEstimator.filterAt {σ : Type u} {μ : Type v} (arithmetic : FilterArithmetic σ μ)
    (params : ConfigParams) (estimator : PoseEstimator σ) (tv : TimeValue) (leds : List (Led μ))
    (index : ℕ) : σ :=
  let predicted := arithmetic.predict estimator.filter estimator.prev tv
  ((leds.take index).foldl
    (estimator.correctLed arithmetic tv predicted (skipBright params estimator.beaconsSize leds))
    ⟨predicted, estimator.gotMeasurement, 0, 0, []⟩).filter

/-- In every run the orientation is a unit quaternion, and so is the orientation with the small
rotation on top; its matrix is that of a rotation. So is the matrix of a measurement for any blob
of the frame that comes next. -/
theorem orientation_trackingRun (hquats : math.quats = realQuats) (haccepts : math.AcceptsRotations)
    (calls : List (TrackingCall φ ℝ)) :
    let estimator := trackingRun math params config camParams toDouble calls
    let state := estimator.filter.state
    (state.orientation.squaredNorm = 1 ∧ (state.getCombinedQuaternion math.quats).squaredNorm = 1 ∧
      IsRotation (math.quats.toRotationMatrix (state.getCombinedQuaternion math.quats))) ∧
    ∀ leds tv index beacon,
      let arithmetic := kalmanArithmetic math params
      let checked := estimator.forceRansacIfKalmanNeedsReset arithmetic leds
      let inside := checked.filterAt arithmetic config tv leds index
      IsRotation (ImagePointMeasurement.updateFromState math.quats (inside.state, beacon)).rot := by
  intro estimator state
  have hinit : (PoseFilter.init math camParams).UnitOrientation := by
    show math.quats.identity.squaredNorm = 1
    rw [hquats]
    simp [eigenQuats, Quaternion.squaredNorm, Quaternion.dot, Quaternion.identity]
  have hunit : state.orientation.squaredNorm = 1 := by
    refine (keeps_unitOrientation hquats haccepts).foldl (fun call hmem => ?_)
      (List.pairwise_of_forall fun _ _ => trivial) (fun _ _ _ => trivial) hinit
    obtain ⟨call, -, rfl⟩ := List.mem_map.mp hmem
    cases call with
    | setBeacons call => exact fun _ h => h
    | setCameraParameters camParams => exact fun _ h => h
    | estimatePoseFromLeds leds tv => exact trivial
    | permitKalmanMode permitKalman => exact trivial
  have hkeeps : (kalmanArithmetic math params).Keeps (fun _ _ => True) PoseFilter.UnitOrientation :=
    keeps_unitOrientation hquats haccepts
  apply And.intro
  · rw [hquats]
    have hcombined := squaredNorm_getCombinedQuaternion hunit
    exact ⟨hunit, hcombined, isRotation_toRotationMatrix hcombined⟩
  · intro leds tv index beacon arithmetic checked inside
    have hchecked : checked.filter.UnitOrientation :=
      hkeeps.forceRansacIfKalmanNeedsReset leds hunit
    have hpredicted := hkeeps.predict _ checked.prev tv trivial hchecked
    have hinside : inside.UnitOrientation :=
      hkeeps.foldl_correctLed trivial hpredicted (leds.take index)
    show IsRotation (math.quats.toRotationMatrix (inside.state.getCombinedQuaternion math.quats))
    rw [hquats]
    exact isRotation_toRotationMatrix (squaredNorm_getCombinedQuaternion hinside)

/-! ## Four beacons before the camera -/

/-- One meter before the camera, and not turned. -/
noncomputable def squareQuatMath : FilterMath ℝ (Util.Quaternion ℝ) where
  quats := realQuats
  pow base _ := base
  solver S b := S⁻¹ *ᵥ b
  acceptedPose _ _ := some (fun axis => if axis = zAxis then (1000 : ℕ) else 0, .identity)

theorem orientation_squareRun :
    let state := (trackingRun squareQuatMath squareParams ⟨4, 0, false⟩ squareCamera Int.cast
      (.setBeacons squareBeacons :: squareFrames)).filter.state
    state.orientation.squaredNorm = 1 ∧
      (state.getCombinedQuaternion squareQuatMath.quats).squaredNorm = 1 ∧
      IsRotation (squareQuatMath.quats.toRotationMatrix
        (state.getCombinedQuaternion squareQuatMath.quats)) := by
  refine (orientation_trackingRun rfl (fun _ _ _ quat haccepted => ?_) _).1
  obtain rfl := (Prod.mk.inj (Option.some_inj.mp haccepted)).2
  simp [Quaternion.squaredNorm, Quaternion.dot, Quaternion.identity]

end OSVR.VbTracker
