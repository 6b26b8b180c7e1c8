/-
# Poses that move on

The state of a tracked body is its pose with the velocities; the orientation in the vector
is a small rotation on top of a quaternion that is kept beside it. A process model moves
the state on and lets the covariance grow. The models do not multiply by their transition
matrix to move a state, but it comes to that.

Quaternions and the power function are left open.
-/

import Mathlib.Algebra.Order.Star.Real
import Mathlib.Tactic.Positivity
import Mathlib.Tactic.Ring
import OsvrCore.Kalman.FlexibleKalmanFilter

set_option autoImplicit false

namespace OSVR.Kalman

open Matrix Math

universe u v

variable {K : Type u} {O : Type v}

/-! ## The state of a pose -/

/-- Position and orientation, or their velocities. -/
abbrev PoseIndex := Fin 3 ⊕ Fin 3

/-- A pose, then the velocities in the same order. -/
abbrev StateIndex := PoseIndex ⊕ PoseIndex

abbrev StateVector (K : Type u) := StateIndex → K

abbrev StateSquareMatrix (K : Type u) := Matrix StateIndex StateIndex K

/-- What is used of quaternions, and `vecToQuat`. -/
structure QuatArithmetic (K : Type u) (O : Type v) where
  identity : O
  mul : O → O → O
  normalized : O → O
  vecToQuat : (Fin 3 → K) → O
  toRotationMatrix : O → Matrix (Fin 3) (Fin 3) K

namespace PoseExternalizedRotation

def position (vec : StateVector K) : Fin 3 → K := fun axis => vec (.inl (.inl axis))

def incrementalOrientation (vec : StateVector K) : Fin 3 → K := fun axis => vec (.inl (.inr axis))

def velocity (vec : StateVector K) : Fin 3 → K := fun axis => vec (.inr (.inl axis))

def angularVelocity (vec : StateVector K) : Fin 3 → K := fun axis => vec (.inr (.inr axis))

/-- A vector of its four segments. -/
def ofSegments (position incrementalOrientation velocity angularVelocity : Fin 3 → K) :
    StateVector K :=
  Sum.elim (Sum.elim position incrementalOrientation) (Sum.elim velocity angularVelocity)

/-- `pose_externalized_rotation::State`. -/
structure State (K : Type u) (O : Type v) where
  stateVector : StateVector K
  errorCovariance : StateSquareMatrix K
  orientation : O

namespace State

variable (quats : QuatArithmetic K O)

/-- The default constructor. -/
def init [Zero K] [One K] : State K O := ⟨0, 1, quats.identity⟩

def setQuaternion (state : State K O) (quaternion : O) : State K O :=
  { state with orientation := quats.normalized quaternion }

def getCombinedQuaternion (state : State K O) : O :=
  quats.normalized
    (quats.mul (quats.vecToQuat (incrementalOrientation state.stateVector)) state.orientation)

def externalizeRotation [Zero K] (state : State K O) : State K O where
  stateVector := ofSegments (position state.stateVector) 0 (velocity state.stateVector)
    (angularVelocity state.stateVector)
  errorCovariance := state.errorCovariance
  orientation := state.getCombinedQuaternion quats

end State

/-- The methods required of the state of a pose. -/
def stateType [Zero K] (quats : QuatArithmetic K O) : StateType K StateIndex (State K O) where
  stateVector := State.stateVector
  setStateVector state vector := { state with stateVector := vector }
  errorCovariance := State.errorCovariance
  setErrorCovariance state P := { state with errorCovariance := P }
  postCorrect := State.externalizeRotation quats

theorem lawful_stateType [Zero K] (quats : QuatArithmetic K O) : (stateType quats).Lawful :=
  ⟨fun _ _ => rfl, fun _ _ => rfl, fun _ => rfl⟩

/-! ## The matrices -/

section Matrices

variable [Field K]

/-- A(deltaT). -/
def stateTransitionMatrix (dt : K) : StateSquareMatrix K := fromBlocks 1 (dt • 1) 0 1

variable (pow : K → K → K)

def computeAttenuation (damping dt : K) : K := pow damping dt

def stateTransitionMatrixWithVelocityDamping (dt damping : K) : StateSquareMatrix K :=
  fromBlocks 1 (dt • 1) 0 (computeAttenuation pow damping dt • 1)

def stateTransitionMatrixWithSeparateVelocityDamping (dt posDamping oriDamping : K) :
    StateSquareMatrix K :=
  fromBlocks 1 (dt • 1) 0
    (fromBlocks (computeAttenuation pow posDamping dt • 1) 0 0
      (computeAttenuation pow oriDamping dt • 1))

/-- A(deltaT)xhat(t-deltaT), without the zeros. -/
def applyVelocity (state : StateVector K) (dt : K) : StateVector K :=
  ofSegments (position state + dt • velocity state)
    (incrementalOrientation state + dt • angularVelocity state) (velocity state)
    (angularVelocity state)

/-- Separately dampen the linear and angular velocities. -/
def separatelyDampenVelocities (state : StateVector K) (posDamping oriDamping dt : K) :
    StateVector K :=
  ofSegments (position state) (incrementalOrientation state)
    (computeAttenuation pow posDamping dt • velocity state)
    (computeAttenuation pow oriDamping dt • angularVelocity state)

def dampenVelocities (state : StateVector K) (damping dt : K) : StateVector K :=
  separatelyDampenVelocities pow state damping damping dt

theorem stateTransitionMatrix_mulVec (state : StateVector K) (dt : K) :
    stateTransitionMatrix dt *ᵥ state = applyVelocity state dt := by
  rw [stateTransitionMatrix, fromBlocks_mulVec, one_mulVec, smul_mulVec, one_mulVec, zero_mulVec,
    zero_add]
  ext ((axis | axis) | (axis | axis)) <;> rfl

/-- Damping after moving on is the product with the damped matrix. -/
theorem separateVelocityDamping_mulVec (state : StateVector K) (dt posDamping oriDamping : K) :
    stateTransitionMatrixWithSeparateVelocityDamping pow dt posDamping oriDamping *ᵥ state =
      separatelyDampenVelocities pow (applyVelocity state dt) posDamping oriDamping dt := by
  rw [stateTransitionMatrixWithSeparateVelocityDamping, fromBlocks_mulVec, one_mulVec, smul_mulVec,
    one_mulVec, zero_mulVec, zero_add, fromBlocks_mulVec, zero_mulVec, zero_mulVec, add_zero,
    zero_add, smul_mulVec, smul_mulVec, one_mulVec, one_mulVec]
  ext ((axis | axis) | (axis | axis)) <;> rfl

theorem stateTransitionMatrixWithVelocityDamping_eq (dt damping : K) :
    stateTransitionMatrixWithVelocityDamping pow dt damping =
      stateTransitionMatrixWithSeparateVelocityDamping pow dt damping damping := by
  have hblocks (attenuation : K) : attenuation • (1 : Matrix PoseIndex PoseIndex K) =
      fromBlocks (attenuation • 1) 0 0 (attenuation • 1) := by
    rw [← fromBlocks_one, fromBlocks_smul, smul_zero]
  rw [stateTransitionMatrixWithVelocityDamping, stateTransitionMatrixWithSeparateVelocityDamping,
    hblocks (computeAttenuation pow damping dt)]

end Matrices

end PoseExternalizedRotation

/-! ## Process models -/

open PoseExternalizedRotation

/-- What the process models of a pose have in common. -/
structure PoseProcess (K : Type u) [Field K] where
  getStateTransitionMatrix : K → StateSquareMatrix K
  getSampledProcessNoiseCovariance : K → StateSquareMatrix K
  computeEstimate : StateVector K → K → StateVector K
  /-- A state is moved on by the transition matrix. -/
  computeEstimate_eq : ∀ state dt, computeEstimate state dt = getStateTransitionMatrix dt *ᵥ state

/-- `predictState`. -/
def PoseProcess.predictState [Field K] (model : PoseProcess K) (state : State K O) (dt : K) :
    State K O where
  stateVector := model.computeEstimate state.stateVector dt
  errorCovariance := predictErrorCovariance (model.getStateTransitionMatrix dt)
    (model.getSampledProcessNoiseCovariance dt) state.errorCovariance
  orientation := state.orientation

/-- `PoseConstantVelocityProcessModel`, with the autocorrelation of its noise. -/
structure PoseConstantVelocityProcessModel (K : Type u) where
  mu : PoseIndex → K

/-- `PoseDampedConstantVelocityProcessModel`. -/
structure PoseDampedConstantVelocityProcessModel (K : Type u) where
  constantVelModel : PoseConstantVelocityProcessModel K
  damp : K

/-- `PoseSeparatelyDampedConstantVelocityProcessModel`. -/
structure PoseSeparatelyDampedConstantVelocityProcessModel (K : Type u) where
  constantVelModel : PoseConstantVelocityProcessModel K
  posDamp : K
  oriDamp : K

namespace PoseConstantVelocityProcessModel

variable [Field K]

/-- The constructor. -/
def create (positionNoise orientationNoise : K) : PoseConstantVelocityProcessModel K :=
  ⟨Sum.elim (fun _ => positionNoise) (fun _ => orientationNoise)⟩

/-- Q(deltaT). -/
def getSampledProcessNoiseCovariance (model : PoseConstantVelocityProcessModel K) (dt : K) :
    StateSquareMatrix K :=
  let dt3 := dt * dt * dt / 3
  let dt2 := dt * dt / 2
  let symmetric := diagonal fun xIndex => model.mu xIndex * dt2
  fromBlocks (diagonal fun xIndex => model.mu xIndex * dt3) symmetric symmetric
    (diagonal fun xIndex => model.mu xIndex * dt)

def process (model : PoseConstantVelocityProcessModel K) : PoseProcess K where
  getStateTransitionMatrix := stateTransitionMatrix
  getSampledProcessNoiseCovariance := model.getSampledProcessNoiseCovariance
  computeEstimate := applyVelocity
  computeEstimate_eq state dt := (stateTransitionMatrix_mulVec state dt).symm

end PoseConstantVelocityProcessModel

namespace PoseDampedConstantVelocityProcessModel

variable [Field K] (pow : K → K → K)

/-- The damping must be positive. -/
def setDamping [LinearOrder K] (model : PoseDampedConstantVelocityProcessModel K) (damping : K) :
    PoseDampedConstantVelocityProcessModel K :=
  if 0 < damping then { model with damp := damping } else model

/-- The constructor. -/
def create [LinearOrder K] (damping positionNoise orientationNoise : K) :
    PoseDampedConstantVelocityProcessModel K :=
  setDamping ⟨.create positionNoise orientationNoise, 1 / 10⟩ damping

def process (model : PoseDampedConstantVelocityProcessModel K) : PoseProcess K where
  getStateTransitionMatrix dt := stateTransitionMatrixWithVelocityDamping pow dt model.damp
  getSampledProcessNoiseCovariance := model.constantVelModel.getSampledProcessNoiseCovariance
  computeEstimate state dt :=
    dampenVelocities pow (model.constantVelModel.process.computeEstimate state dt) model.damp dt
  computeEstimate_eq state dt := by
    rw [stateTransitionMatrixWithVelocityDamping_eq, separateVelocityDamping_mulVec]
    rfl

end PoseDampedConstantVelocityProcessModel

namespace PoseSeparatelyDampedConstantVelocityProcessModel

variable [Field K] (pow : K → K → K)

def setNoiseAutocorrelation (model : PoseSeparatelyDampedConstantVelocityProcessModel K)
    (noise : PoseIndex → K) : PoseSeparatelyDampedConstantVelocityProcessModel K :=
  { model with constantVelModel := ⟨noise⟩ }

/-- The damping must be in (0, 1). -/
def setDamping [LinearOrder K] (model : PoseSeparatelyDampedConstantVelocityProcessModel K)
    (posDamping oriDamping : K) : PoseSeparatelyDampedConstantVelocityProcessModel K :=
  { model with
    posDamp := if 0 < posDamping ∧ posDamping < 1 then posDamping else model.posDamp
    oriDamp := if 0 < oriDamping ∧ oriDamping < 1 then oriDamping else model.oriDamp }

/-- The constructor. -/
def create [LinearOrder K] (positionDamping orientationDamping positionNoise orientationNoise : K) :
    PoseSeparatelyDampedConstantVelocityProcessModel K :=
  setDamping ⟨.create positionNoise orientationNoise, 2 / 10, 1 / 100⟩ positionDamping
    orientationDamping

/-- The constructor without arguments. -/
def createDefault [LinearOrder K] : PoseSeparatelyDampedConstantVelocityProcessModel K :=
  create (3 / 10) (1 / 100) (1 / 100) (1 / 10)

def process (model : PoseSeparatelyDampedConstantVelocityProcessModel K) : PoseProcess K where
  getStateTransitionMatrix dt :=
    stateTransitionMatrixWithSeparateVelocityDamping pow dt model.posDamp model.oriDamp
  getSampledProcessNoiseCovariance := model.constantVelModel.getSampledProcessNoiseCovariance
  computeEstimate state dt :=
    separatelyDampenVelocities pow (model.constantVelModel.process.computeEstimate state dt)
      model.posDamp model.oriDamp dt
  computeEstimate_eq state dt := (separateVelocityDamping_mulVec pow state dt _ _).symm

end PoseSeparatelyDampedConstantVelocityProcessModel

/-! ## Covariances -/

section Covariances

variable {dt : ℝ}

/-- The noise of a time is the noise of the velocities, moved on by half of it, and a rest. -/
theorem PoseConstantVelocityProcessModel.posSemidef_getSampledProcessNoiseCovariance
    {model : PoseConstantVelocityProcessModel ℝ} (hmu : ∀ index, 0 ≤ model.mu index)
    (hdt : 0 ≤ dt) :
    (model.getSampledProcessNoiseCovariance dt).PosSemidef := by
  have hrest : (diagonal fun index => model.mu index * (dt * dt * dt / 12)).PosSemidef :=
    .diagonal fun index => mul_nonneg (hmu index) (by positivity)
  have hvelocities : (diagonal fun index => model.mu index * dt).PosSemidef :=
    .diagonal fun index => mul_nonneg (hmu index) hdt
  have hmoved : model.getSampledProcessNoiseCovariance dt =
      stateTransitionMatrix (dt / 2) * fromBlocks
        (diagonal fun index => model.mu index * (dt * dt * dt / 12)) 0 0
        (diagonal fun index => model.mu index * dt) * (stateTransitionMatrix (dt / 2))ᵀ := by
    simp only [stateTransitionMatrix, getSampledProcessNoiseCovariance, fromBlocks_transpose,
      fromBlocks_multiply]
    congr 1 <;> ext i j <;> by_cases hij : i = j <;> simp [hij]
    all_goals ring
  rw [hmoved]
  exact posSemidef_congruence (posSemidef_fromBlocks hrest hvelocities) _

theorem PoseProcess.posSemidef_predictState {model : PoseProcess ℝ} {state : State ℝ O}
    (hP : state.errorCovariance.PosSemidef)
    (hQ : (model.getSampledProcessNoiseCovariance dt).PosSemidef) :
    (model.predictState state dt).errorCovariance.PosSemidef :=
  posSemidef_predictErrorCovariance hP hQ

end Covariances

/-! ## One prediction for many -/

namespace PoseConstantVelocityProcessModel

variable [Field K] {model : PoseConstantVelocityProcessModel K}

theorem stateTransitionMatrix_add (first second : K) :
    stateTransitionMatrix (first + second) =
      stateTransitionMatrix second * stateTransitionMatrix first := by
  rw [stateTransitionMatrix, stateTransitionMatrix, stateTransitionMatrix, fromBlocks_multiply]
  simp [add_smul]

/-- The noise of a longer time is that of its first part, moved on, and that of the rest. -/
theorem getSampledProcessNoiseCovariance_add [CharZero K] (first second : K) :
    model.getSampledProcessNoiseCovariance (first + second) =
      predictErrorCovariance (stateTransitionMatrix second)
        (model.getSampledProcessNoiseCovariance second)
        (model.getSampledProcessNoiseCovariance first) := by
  rw [predictErrorCovariance, stateTransitionMatrix]
  simp only [getSampledProcessNoiseCovariance, fromBlocks_transpose, fromBlocks_multiply,
    fromBlocks_add]
  -- Only the diagonals of the blocks are not zero.
  congr 1 <;> ext i j <;> by_cases hij : i = j <;> simp [hij]
  all_goals ring

theorem predictState_add [CharZero K] (state : State K O) (first second : K) :
    model.process.predictState (model.process.predictState state first) second =
      model.process.predictState state (first + second) := by
  have hvector (vector : StateVector K) : stateTransitionMatrix second *ᵥ
      (stateTransitionMatrix first *ᵥ vector) =
        stateTransitionMatrix (first + second) *ᵥ vector := by
    rw [mulVec_mulVec, stateTransitionMatrix_add]
  simp only [PoseProcess.predictState, PoseProcess.computeEstimate_eq, process, hvector,
    State.mk.injEq, true_and, and_true]
  rw [getSampledProcessNoiseCovariance_add, stateTransitionMatrix_add]
  simp only [predictErrorCovariance, transpose_mul, Matrix.mul_add, Matrix.add_mul,
    Matrix.mul_assoc]
  abel

theorem predictState_zero (state : State K O) : model.process.predictState state 0 = state := by
  have hmatrix : stateTransitionMatrix (0 : K) = 1 := by
    rw [stateTransitionMatrix, zero_smul, fromBlocks_one]
  have hnoise : model.getSampledProcessNoiseCovariance 0 = 0 := by
    simp [getSampledProcessNoiseCovariance]
  simp only [PoseProcess.predictState, PoseProcess.computeEstimate_eq, process, hmatrix, hnoise,
    predictErrorCovariance, transpose_one, Matrix.one_mul, Matrix.mul_one, one_mulVec, add_zero]

/-- Predicting step by step is predicting over the whole time. -/
theorem predictState_foldl [CharZero K] (state : State K O) (times : List K) :
    times.foldl model.process.predictState state = model.process.predictState state times.sum := by
  induction times generalizing state with
  | nil => exact (predictState_zero state).symm
  | cons first times ih => rw [List.foldl_cons, ih, predictState_add, List.sum_cons]

/-- Three thirds of a second, from the default state. -/
theorem predictState_foldl_thirds :
    let model := create (1 / 100 : ℚ) (1 / 10)
    let state : State ℚ Unit := ⟨0, 1, ()⟩
    [1 / 3, 1 / 3, 1 / 3].foldl model.process.predictState state =
      model.process.predictState state [1 / 3, 1 / 3, 1 / 3].sum :=
  predictState_foldl _ _

end PoseConstantVelocityProcessModel

end OSVR.Kalman
