/-
# The corrections of the pose filter

In Kalman mode a frame predicts the state of the body and corrects it by one beacon after
another. The position of a beacon is a state of its own, and is corrected together with the
body, unless the beacon is fixed. A new pose from RANSAC starts the filter again.

The numbers are exact, and division by zero is zero. The decomposition of the innovation
covariance, quaternions, powers and the pose that RANSAC accepts are left open.
-/

import OsvrCore.Kalman.PoseProcess
import OsvrCore.Util.TimeArithmetic
import OsvrCore.VbTracker.BeaconBasedPoseEstimator
import OsvrCore.VbTracker.BeaconSet

set_option autoImplicit false

namespace OSVR.VbTracker

open Matrix Math Util Kalman PoseExternalizedRotation

universe u v w

variable {φ : Type w} {K : Type u} {O : Type v}

/-! ## Beacons -/

/-- The methods required of the state of a beacon. -/
def beaconStateType : StateType K (Fin 3) (BeaconState K) where
  stateVector := BeaconState.stateVector
  setStateVector state vector := { state with stateVector := vector }
  errorCovariance state := .of state.errorCovariance
  setErrorCovariance state P := { state with errorCovariance := fun row column => P row column }
  postCorrect := id

theorem lawful_beaconStateType : (beaconStateType : StateType K (Fin 3) (BeaconState K)).Lawful :=
  ⟨fun _ _ => rfl, fun _ _ => rfl, fun _ => rfl⟩

/-- The process of a beacon, with noise that is the same for all axes. -/
def predictBeacon [Field K] (noise : K) (state : BeaconState K) (dt : K) : BeaconState K :=
  ConstantProcess.predictState beaconStateType (fun _ => noise) state dt

/-! ## Measurements -/

structure CameraModel (K : Type u) where
  principalPoint : Fin 2 → K
  focalLength : K

/-- `projectPoint`, with the matrix of the rotation. -/
def projectPoint [Field K] (translation : Fin 3 → K) (rotation : Matrix (Fin 3) (Fin 3) K)
    (cam : CameraModel K) (objectPoint : Fin 3 → K) : Fin 2 → K :=
  let camPoints := rotation *ᵥ objectPoint + translation
  fun axis => camPoints axis.castSucc / camPoints zAxis * cam.focalLength + cam.principalPoint axis

/-- What `updateFromState` keeps. -/
structure PartialSolutions (K : Type u) where
  beacon : Fin 3 → K
  rot : Matrix (Fin 3) (Fin 3) K
  rotatedObjPoint : Fin 3 → K
  rotatedTranslatedPoint : Fin 3 → K
  xlate : Fin 3 → K

structure ImagePointMeasurement (K : Type u) where
  variance : K
  measurement : Fin 2 → K
  cam : CameraModel K

namespace ImagePointMeasurement

variable [Field K] (quats : QuatArithmetic K O)

def updateFromState (state : State K O × BeaconState K) : PartialSolutions K :=
  let rot := quats.toRotationMatrix (state.1.getCombinedQuaternion quats)
  let rotatedObjPoint := rot *ᵥ state.2.stateVector
  { beacon := state.2.stateVector
    rot := rot
    rotatedObjPoint := rotatedObjPoint
    rotatedTranslatedPoint := rotatedObjPoint + position state.1.stateVector
    xlate := position state.1.stateVector }

def getResidual (meas : ImagePointMeasurement K) (state : State K O × BeaconState K) : Fin 2 → K :=
  meas.measurement - projectPoint (position state.1.stateVector)
    (quats.toRotationMatrix (state.1.getCombinedQuaternion quats)) meas.cam state.2.stateVector

def getBeaconJacobian (meas : ImagePointMeasurement K) (solutions : PartialSolutions K) :
    Matrix (Fin 2) (Fin 3) K :=
  let rot := solutions.rot
  let beacon := solutions.beacon
  let xlate := solutions.xlate
  let v1 := rot xAxis zAxis * beacon zAxis + rot xAxis yAxis * beacon yAxis +
    beacon xAxis * rot xAxis xAxis + xlate xAxis
  let v2 := beacon zAxis * rot zAxis zAxis + beacon yAxis * rot zAxis yAxis +
    beacon xAxis * rot zAxis xAxis + xlate zAxis
  let v3 := 1 / (v2 * v2)
  let v4 := 1 / v2
  let v5 := rot yAxis zAxis * beacon zAxis + beacon yAxis * rot yAxis yAxis +
    beacon xAxis * rot yAxis xAxis + xlate yAxis
  .of ![fun column => rot xAxis column * v4 * meas.cam.focalLength -
      v1 * rot zAxis column * v3 * meas.cam.focalLength,
    fun column => rot yAxis column * v4 * meas.cam.focalLength -
      v5 * rot zAxis column * v3 * meas.cam.focalLength]

/-- The version for an incremental rotation of zero. -/
def getRotationJacobian (meas : ImagePointMeasurement K) (solutions : PartialSolutions K) :
    Matrix (Fin 2) (Fin 3) K :=
  let rotXlated := solutions.rotatedTranslatedPoint
  let rotObj := solutions.rotatedObjPoint
  let zRecip := 1 / solutions.rotatedTranslatedPoint zAxis
  let rotObjZ := solutions.rotatedObjPoint zAxis
  -- The arrays of two are written out, each with its signs.
  let mainDiagonal0 := rotXlated xAxis * rotObj yAxis * -1 * zRecip
  let mainDiagonal1 := rotXlated yAxis * rotObj xAxis * 1 * zRecip
  let otherDiagonal0 := (rotObj xAxis * rotXlated xAxis * zRecip + rotObjZ) * 1
  let otherDiagonal1 := (rotObj yAxis * rotXlated yAxis * zRecip + rotObjZ) * -1
  let lastCol0 := rotObj yAxis * -1
  let lastCol1 := rotObj xAxis * 1
  let prelim : Matrix (Fin 2) (Fin 3) K :=
    .of ![![mainDiagonal0, otherDiagonal0, lastCol0], ![otherDiagonal1, mainDiagonal1, lastCol1]]
  (zRecip * meas.cam.focalLength) • prelim

/-- With respect to the position. -/
def getPositionJacobian (meas : ImagePointMeasurement K) (solutions : PartialSolutions K) :
    Matrix (Fin 2) (Fin 3) K :=
  let z := solutions.rotatedTranslatedPoint zAxis
  let diagonalEntry := meas.cam.focalLength / z
  let lastCol (axis : Fin 3) :=
    -solutions.rotatedTranslatedPoint axis * meas.cam.focalLength / (z * z)
  .of ![![diagonalEntry, 0, lastCol xAxis], ![0, diagonalEntry, lastCol yAxis]]

def getJacobian (meas : ImagePointMeasurement K) (solutions : PartialSolutions K) :
    Matrix (Fin 2) (StateIndex ⊕ Fin 3) K :=
  fromCols
    (fromCols
      (fromCols (meas.getPositionJacobian solutions) (meas.getRotationJacobian solutions)) 0)
    (meas.getBeaconJacobian solutions)

/-- The variance must be positive. -/
def setVariance [LinearOrder K] (meas : ImagePointMeasurement K) (s : K) :
    ImagePointMeasurement K :=
  if 0 < s then { meas with variance := s } else meas

def getCovariance (meas : ImagePointMeasurement K) : Matrix (Fin 2) (Fin 2) K :=
  diagonal fun _ => meas.variance

/-- The measurement after `updateFromState`. -/
def updated (meas : ImagePointMeasurement K) (solutions : PartialSolutions K) :
    Kalman.Measurement K (Fin 2) (StateIndex ⊕ Fin 3) (State K O × BeaconState K) where
  getJacobian _ := meas.getJacobian solutions
  getCovariance _ := meas.getCovariance
  getResidual := meas.getResidual quats

end ImagePointMeasurement

/-! ## The filter -/

/-- What is used of the measurement of a blob. -/
structure BlobReading (K : Type u) where
  loc : Fin 2 → K
  area : K
  novelty : ℕ

structure KalmanParams (K : Type u) where
  maxResidual : K
  initialBeaconError : K
  processNoiseAutocorrelation : PoseIndex → K
  linearVelocityDecayCoefficient : K
  angularVelocityDecayCoefficient : K
  measurementVarianceScaleFactor : K
  offsetToCentroid : Bool
  manualBeaconOffset : Fin 3 → K
  beaconProcessNoise : K
  highResidualVariancePenalty : K
  maxZComponent : K

/-- What the filter computes with; `measurementVariance` is that of the frame's `meas`. -/
structure PoseFilter (K : Type u) (O : Type v) where
  state : State K O
  model : PoseSeparatelyDampedConstantVelocityProcessModel K
  arrays : BeaconArrays K
  centroid : Fin 3 → K
  camParams : CameraModel K
  measurementVariance : K

/-- What is left open. -/
structure FilterMath (K : Type u) (O : Type v) where
  quats : QuatArithmetic K O
  pow : K → K → K
  solver : Solver K (Fin 2)
  /-- The pose that `m_pnpransacEstimator` accepts. -/
  acceptedPose : PoseFilter K O → List (Led (BlobReading K)) → Option ((Fin 3 → K) × O)

namespace KalmanParams

/-- The operations on numbers that are exact. -/
def beaconParams [Field K] (params : KalmanParams K) (toDouble : φ → K) : BeaconParams φ K where
  add := (· + ·)
  sub := (· - ·)
  mul := (· * ·)
  div := (· / ·)
  toDouble := toDouble
  ofNat n := n
  offsetToCentroid := params.offsetToCentroid
  manualBeaconOffset := params.manualBeaconOffset
  initialBeaconError := params.initialBeaconError

end KalmanParams

namespace PoseFilter

variable [Field K] [LinearOrder K]

def BRIGHT_PENALTY : K := (8 : ℕ)

/-- The variance that a measurement starts with. -/
def DEFAULT_IMAGE_VARIANCE : K := (2 : ℕ)

def initialStateError : StateVector K := Sum.elim (fun _ => 0) (fun _ => (10 : ℕ))

variable (math : FilterMath K O) (params : KalmanParams K) (filter : PoseFilter K O)

/-- The constructors of the members. -/
def init (camParams : CameraModel K) : PoseFilter K O where
  state := .init math.quats
  model := .createDefault
  arrays := ⟨[], [], [], [], []⟩
  centroid := 0
  camParams := camParams
  measurementVariance := DEFAULT_IMAGE_VARIANCE

def predict (prev tv : TimeValue) : PoseFilter K O :=
  { filter with
    state := (filter.model.process math.pow).predictState filter.state (tv.durationSeconds prev)
    measurementVariance := DEFAULT_IMAGE_VARIANCE }

/-- The z component of a beacon's emission, in the space of the camera. -/
def zComponent (id : ℕ) : K :=
  let rotate := math.quats.toRotationMatrix (filter.state.getCombinedQuaternion math.quats)
  (rotate *ᵥ (filter.arrays.beaconEmissionDirection[id]?).getD 0) zAxis

/-- The variance for a blob of a beacon, whose residual is too large or not. -/
def effectiveVariance (led : Led (BlobReading K)) (bad : Bool) (beaconVariance : K) : K :=
  (if bad then params.highResidualVariancePenalty else 1) * params.measurementVarianceScaleFactor *
    ((2 : ℕ) : K) ^ led.measurement.novelty *
    (if led.lastBright then BRIGHT_PENALTY else 1) * beaconVariance / led.measurement.area

/-- The correction of the body with one beacon. -/
def correctWith (prev tv : TimeValue) (led : Led (BlobReading K)) (beacon : BeaconState K)
    (isFixed : Bool) (beaconVariance : K) : Bool × PoseFilter K O :=
  let dt := tv.durationSeconds prev
  let predicted := if isFixed then beacon else predictBeacon params.beaconProcessNoise beacon dt
  let state := (filter.state, predicted)
  let meas : ImagePointMeasurement K :=
    { variance := filter.measurementVariance
      measurement := led.measurement.loc
      cam := filter.camParams }
  let solutions := ImagePointMeasurement.updateFromState math.quats state
  let residual := meas.getResidual math.quats state
  let maxSquaredResidual := params.maxResidual * params.maxResidual
  let bad := decide (maxSquaredResidual < residual ⬝ᵥ residual)
  let meas := meas.setVariance (effectiveVariance params led bad beaconVariance)
  let corrected :=
    Kalman.correct (augmentedState (stateType math.quats) beaconStateType) math.solver
    (meas.updated math.quats solutions) state
  (bad, { filter with
    state := corrected.1
    arrays := { filter.arrays with
      beacons := filter.arrays.beacons.set led.id.toNat corrected.2 }
    measurementVariance := meas.variance })

/-- The part of the loop for a beacon that is used; there is one entry for it in each array. -/
def correct (prev tv : TimeValue) (led : Led (BlobReading K)) : Bool × PoseFilter K O :=
  match filter.arrays.beacons[led.id.toNat]?, filter.arrays.beaconFixed[led.id.toNat]?,
      filter.arrays.beaconMeasurementVariance[led.id.toNat]? with
  | some beacon, some isFixed, some beaconVariance =>
      filter.correctWith math params prev tv led beacon isFixed beaconVariance
  | _, _, _ => (false, filter)

/-- `m_resetState`. -/
def resetState (xlate : Fin 3 → K) (quat : O) : PoseFilter K O :=
  let state := filter.state
  let vector := ofSegments xlate (incrementalOrientation state.stateVector)
    (velocity state.stateVector) (angularVelocity state.stateVector)
  { filter with
    state := { State.setQuaternion math.quats { state with stateVector := vector } quat with
      errorCovariance := diagonal initialStateError }
    model := (filter.model.setDamping params.linearVelocityDecayCoefficient
      params.angularVelocityDecayCoefficient).setNoiseAutocorrelation
        params.processNoiseAutocorrelation }

def ransac (leds : List (Led (BlobReading K))) : Bool × PoseFilter K O :=
  match math.acceptedPose filter leds with
  | none => (false, filter)
  | some (xlate, quat) => (true, filter.resetState math params xlate quat)

/-- The whole vector is reset, not only what a new pose sets. -/
def zeroState : PoseFilter K O := { filter with state := { filter.state with stateVector := 0 } }

/-- `SetBeacons`, also when it throws. -/
def setBeacons (toDouble : φ → K) (call : SetBeaconsCall φ K) : PoseFilter K O :=
  let estimator := (BeaconEstimator.setBeacons (params.beaconParams toDouble) call
    { toBeaconArrays := filter.arrays, centroid := filter.centroid, gotPose := false }).2
  { filter with arrays := estimator.toBeaconArrays, centroid := estimator.centroid }

end PoseFilter

/-- The arithmetic of the source. -/
def kalmanArithmetic [Field K] [LinearOrder K] (math : FilterMath K O) (params : KalmanParams K) :
    FilterArithmetic (PoseFilter K O) (BlobReading K) where
  predict := PoseFilter.predict math
  pointsAway filter id := decide (0 < filter.zComponent math id)
  tooAskew filter id := decide (params.maxZComponent < filter.zComponent math id)
  correct := PoseFilter.correct math params
  ransac := PoseFilter.ransac math params
  zeroState := PoseFilter.zeroState

/-- The calls on an estimator, with their arguments. -/
inductive TrackingCall (φ : Type w) (K : Type u)
  | estimatePoseFromLeds (leds : List (Led (BlobReading K))) (tv : TimeValue)
  | permitKalmanMode (permitKalman : Bool)
  | setBeacons (call : SetBeaconsCall φ K)
  | setCameraParameters (camParams : CameraModel K)

/-- What a call does with the filter. -/
def TrackingCall.estimatorCall [Field K] [LinearOrder K] (params : KalmanParams K)
    (toDouble : φ → K) : TrackingCall φ K → EstimatorCall (PoseFilter K O) (BlobReading K)
  | .estimatePoseFromLeds leds tv => .estimatePoseFromLeds leds tv
  | .permitKalmanMode permitKalman => .permitKalmanMode permitKalman
  | .setBeacons call =>
      .setBeacons call.beacons.length fun filter => filter.setBeacons params toDouble call
  | .setCameraParameters camParams => .setCameraParameters fun filter => { filter with camParams }

end OSVR.VbTracker
