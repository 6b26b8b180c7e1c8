/-
# The correction of a Kalman filter

The filter works on any state that has a vector and an error covariance, and on any
measurement that has a Jacobian, a covariance and a residual. An augmented state puts two
states side by side; of the covariance of both it keeps what belongs to the one and what
belongs to the other.

Numbers are exact here, and the decomposition that solves for the gain is left open.
-/

import Mathlib.Algebra.Order.Star.Real
import Mathlib.Data.Matrix.ColumnRowPartitioned
import OsvrCore.Math.Covariance

set_option autoImplicit false

namespace OSVR.Kalman

open Matrix Math

universe u v w

variable {K : Type u} {n m p : Type} {σ α : Type v} {β : Type w}

/-- The methods required of state types. -/
structure StateType (K : Type u) (n : Type) (σ : Type v) where
  stateVector : σ → n → K
  setStateVector : σ → (n → K) → σ
  errorCovariance : σ → Matrix n n K
  setErrorCovariance : σ → Matrix n n K → σ
  postCorrect : σ → σ

/-- The methods of a measurement. -/
structure Measurement (K : Type u) (m n : Type) (σ : Type v) where
  getJacobian : σ → Matrix m n K
  getCovariance : σ → Matrix m m K
  getResidual : σ → m → K

/-- `Eigen::LDLT` with its `solve`. -/
abbrev Solver (K : Type u) (m : Type) := Matrix m m K → (m → K) → m → K

/-- What the decomposition is for. -/
def Solver.Solves [Field K] [PartialOrder K] [StarRing K] [Fintype m] (solver : Solver K m) :
    Prop :=
  ∀ S : Matrix m m K, S.PosDef → ∀ b, S *ᵥ solver S b = b

section Correct

variable [Field K] [Fintype n] [Fintype m] [Fintype p]

/-- `predictErrorCovariance`, with the matrices of the process model. -/
def predictErrorCovariance (A Q P : Matrix n n K) : Matrix n n K := A * P * Aᵀ + Q

variable (stateType : StateType K n σ) (solver : Solver K m) (meas : Measurement K m n σ)
    (state : σ)

/-- The gain without its inverse. -/
def numerator : Matrix n m K := stateType.errorCovariance state * (meas.getJacobian state)ᵀ

/-- The innovation covariance. -/
def innovationCovariance : Matrix m m K :=
  meas.getJacobian state * numerator stateType meas state + meas.getCovariance state

def stateCorrection : n → K :=
  numerator stateType meas state *ᵥ
    solver (innovationCovariance stateType meas state) (meas.getResidual state)

def covarianceReduction : Matrix n n K :=
  numerator stateType meas state *
    solveColumns (solver (innovationCovariance stateType meas state))
      (numerator stateType meas state)ᵀ

def correct : σ :=
  let newP := stateType.errorCovariance state - covarianceReduction stateType solver meas state
  let corrected := stateType.setStateVector state
    (stateType.stateVector state + stateCorrection stateType solver meas state)
  stateType.postCorrect (stateType.setErrorCovariance corrected newP)

end Correct

/-- `AugmentedState`. -/
def augmentedState [Zero K] (a : StateType K n α) (b : StateType K p β) :
    StateType K (n ⊕ p) (α × β) where
  stateVector state := Sum.elim (a.stateVector state.1) (b.stateVector state.2)
  setStateVector state vector :=
    (a.setStateVector state.1 (vector ∘ .inl), b.setStateVector state.2 (vector ∘ .inr))
  errorCovariance state := fromBlocks (a.errorCovariance state.1) 0 0 (b.errorCovariance state.2)
  setErrorCovariance state P :=
    (a.setErrorCovariance state.1 P.toBlocks₁₁, b.setErrorCovariance state.2 P.toBlocks₂₂)
  postCorrect state := (a.postCorrect state.1, b.postCorrect state.2)

/-- What is set is there, and nothing else changes the covariance. -/
structure StateType.Lawful (stateType : StateType K n σ) : Prop where
  covariance_setVector : ∀ state vector,
    stateType.errorCovariance (stateType.setStateVector state vector) =
      stateType.errorCovariance state
  covariance_setCovariance : ∀ state P,
    stateType.errorCovariance (stateType.setErrorCovariance state P) = P
  covariance_postCorrect : ∀ state,
    stateType.errorCovariance (stateType.postCorrect state) = stateType.errorCovariance state

/-- The vector that is set is there, and nothing else changes it. -/
structure StateType.LawfulVector (stateType : StateType K n σ) : Prop where
  vector_setVector : ∀ state vector,
    stateType.stateVector (stateType.setStateVector state vector) = vector
  vector_setCovariance : ∀ state P,
    stateType.stateVector (stateType.setErrorCovariance state P) = stateType.stateVector state
  vector_postCorrect : ∀ state,
    stateType.stateVector (stateType.postCorrect state) = stateType.stateVector state

/-- `PureVectorState`. -/
structure PureVectorState (K : Type u) (n : Type) where
  stateVector : n → K
  errorCovariance : Matrix n n K

def PureVectorState.stateType : StateType K n (PureVectorState K n) where
  stateVector := stateVector
  setStateVector state vector := { state with stateVector := vector }
  errorCovariance := errorCovariance
  setErrorCovariance state P := { state with errorCovariance := P }
  postCorrect := id

theorem PureVectorState.lawful_stateType :
    (stateType : StateType K n (PureVectorState K n)).Lawful :=
  ⟨fun _ _ => rfl, fun _ _ => rfl, fun _ => rfl⟩

theorem PureVectorState.lawfulVector_stateType :
    (stateType : StateType K n (PureVectorState K n)).LawfulVector :=
  ⟨fun _ _ => rfl, fun _ _ => rfl, fun _ => rfl⟩

/-- `ConstantProcess::predictState`: at most the uncertainty grows. -/
def ConstantProcess.predictState [Field K] [DecidableEq n] (stateType : StateType K n σ)
    (noise : n → K) (state : σ) (dt : K) : σ :=
  let constantNoise := diagonal noise
  stateType.setErrorCovariance state (stateType.errorCovariance state + dt • constantNoise)

/-! ## Covariances -/

section Covariances

variable [Field K] [PartialOrder K] [StarRing K] [TrivialStar K] [AddLeftMono K] [Fintype n]
  [Fintype m] [Fintype p] {stateType : StateType K n σ} {solver : Solver K m}
  {meas : Measurement K m n σ} {state : σ}

theorem posSemidef_predictErrorCovariance {A Q P : Matrix n n K} (hP : P.PosSemidef)
    (hQ : Q.PosSemidef) : (predictErrorCovariance A Q P).PosSemidef :=
  (posSemidef_congruence hP A).add hQ

/-- The equation for the gain is solved. -/
theorem mul_solveColumns_innovation (hsolver : solver.Solves)
    (hP : (stateType.errorCovariance state).PosSemidef) (hR : (meas.getCovariance state).PosDef) :
    innovationCovariance stateType meas state *
        solveColumns (solver (innovationCovariance stateType meas state))
          (numerator stateType meas state)ᵀ =
      (numerator stateType meas state)ᵀ :=
  mul_solveColumns (hsolver _ (posDef_innovation hP _ hR)) _

theorem posSemidef_sub_covarianceReduction (hsolver : solver.Solves)
    (hP : (stateType.errorCovariance state).PosSemidef) (hR : (meas.getCovariance state).PosDef) :
    (stateType.errorCovariance state -
      covarianceReduction stateType solver meas state).PosSemidef :=
  posSemidef_posterior hP hR.posSemidef (mul_solveColumns_innovation hsolver hP hR)

theorem posSemidef_covarianceReduction (hsolver : solver.Solves)
    (hP : (stateType.errorCovariance state).PosSemidef) (hR : (meas.getCovariance state).PosDef) :
    (covarianceReduction stateType solver meas state).PosSemidef :=
  posSemidef_explained hP hR.posSemidef (mul_solveColumns_innovation hsolver hP hR)

end Covariances

/-! ## Augmented states -/

/-- A measurement of two states, as one of the first with the second as it is. -/
def Measurement.ofFirst (meas : Measurement K m (n ⊕ p) (α × β)) (other : β) :
    Measurement K m n α where
  getJacobian state := (meas.getJacobian (state, other)).submatrix id .inl
  getCovariance state := meas.getCovariance (state, other)
  getResidual state := meas.getResidual (state, other)

section Augmented

variable [Field K] [Fintype n] [Fintype m] [Fintype p] {a : StateType K n α} {b : StateType K p β}
  {solver : Solver K m} {meas : Measurement K m (n ⊕ p) (α × β)} {state : α} {other : β}

/-- What is left of a correction in each of the two states. -/
theorem errorCovariance_correct_augmentedState (ha : a.Lawful) (hb : b.Lawful) :
    let corrected := correct (augmentedState a b) solver meas (state, other)
    let reduction := covarianceReduction (augmentedState a b) solver meas (state, other)
    a.errorCovariance corrected.1 = a.errorCovariance state - reduction.toBlocks₁₁ ∧
      b.errorCovariance corrected.2 = b.errorCovariance other - reduction.toBlocks₂₂ := by
  intro corrected reduction
  apply And.intro
  · rw [show corrected.1 = a.postCorrect (a.setErrorCovariance _ _) from rfl,
      ha.covariance_postCorrect, ha.covariance_setCovariance]
    rfl
  · rw [show corrected.2 = b.postCorrect (b.setErrorCovariance _ _) from rfl,
      hb.covariance_postCorrect, hb.covariance_setCovariance]
    rfl

section Ordered

variable [PartialOrder K] [StarRing K] [TrivialStar K] [AddLeftMono K]

/-- A correction of two states leaves covariances of both. -/
theorem posSemidef_corrected (ha : a.Lawful) (hb : b.Lawful) (hsolver : solver.Solves)
    (hP : (a.errorCovariance state).PosSemidef) (hQ : (b.errorCovariance other).PosSemidef)
    (hR : (meas.getCovariance (state, other)).PosDef) :
    let corrected := correct (augmentedState a b) solver meas (state, other)
    (a.errorCovariance corrected.1).PosSemidef ∧ (b.errorCovariance corrected.2).PosSemidef := by
  intro corrected
  have hboth : ((augmentedState a b).errorCovariance (state, other)).PosSemidef :=
    posSemidef_fromBlocks hP hQ
  obtain ⟨hfirst, hsecond⟩ :=
    @errorCovariance_correct_augmentedState _ _ _ _ _ _ _ _ _ _ a b solver meas state other ha hb
  have hleft := posSemidef_sub_covarianceReduction hsolver hboth hR
  rw [hfirst, hsecond]
  exact ⟨hleft.submatrix .inl, hleft.submatrix .inr⟩

/-- Both are covariances afterwards, and neither has grown. -/
theorem posSemidef_correct_augmentedState (ha : a.Lawful) (hb : b.Lawful) (hsolver : solver.Solves)
    (hP : (a.errorCovariance state).PosSemidef) (hQ : (b.errorCovariance other).PosSemidef)
    (hR : (meas.getCovariance (state, other)).PosDef) :
    let corrected := correct (augmentedState a b) solver meas (state, other)
    ((a.errorCovariance corrected.1).PosSemidef ∧ (b.errorCovariance corrected.2).PosSemidef) ∧
      (a.errorCovariance state - a.errorCovariance corrected.1).PosSemidef ∧
      (b.errorCovariance other - b.errorCovariance corrected.2).PosSemidef := by
  intro corrected
  have hboth : ((augmentedState a b).errorCovariance (state, other)).PosSemidef :=
    posSemidef_fromBlocks hP hQ
  obtain ⟨hfirst, hsecond⟩ :=
    @errorCovariance_correct_augmentedState _ _ _ _ _ _ _ _ _ _ a b solver meas state other ha hb
  have htaken := posSemidef_covarianceReduction hsolver hboth hR
  refine ⟨posSemidef_corrected ha hb hsolver hP hQ hR, ?_⟩
  rw [hfirst, hsecond, sub_sub_cancel, sub_sub_cancel]
  exact ⟨htaken.submatrix .inl, htaken.submatrix .inr⟩

end Ordered

omit [Fintype m] in
/-- A state that is known exactly takes no part in the gain. -/
theorem numerator_augmentedState (hzero : b.errorCovariance other = 0) :
    numerator (augmentedState a b) meas (state, other) =
      fromRows (numerator a (meas.ofFirst other) state) 0 := by
  ext row column
  rw [numerator, Matrix.mul_apply, Fintype.sum_sum_type]
  cases row with
  | inl row =>
      simp only [augmentedState, fromBlocks_apply₁₁, fromBlocks_apply₁₂,
        Matrix.zero_apply, zero_mul, Finset.sum_const_zero, add_zero]
      rfl
  | inr row =>
      simp only [augmentedState, fromBlocks_apply₂₁, fromBlocks_apply₂₂, hzero, Matrix.zero_apply,
        zero_mul, Finset.sum_const_zero, add_zero]
      rfl

omit [Fintype m] in
theorem innovationCovariance_augmentedState (hzero : b.errorCovariance other = 0) :
    innovationCovariance (augmentedState a b) meas (state, other) =
      innovationCovariance a (meas.ofFirst other) state := by
  rw [innovationCovariance, innovationCovariance, numerator_augmentedState hzero]
  congr 1
  ext row column
  rw [Matrix.mul_apply, Fintype.sum_sum_type]
  simp only [fromRows_apply_inl, fromRows_apply_inr, Matrix.zero_apply, mul_zero,
    Finset.sum_const_zero, add_zero]
  rfl

/-- Correcting two states of which one is known exactly corrects the other alone. -/
theorem correct_of_exact (hzero : b.errorCovariance other = 0) :
    correct (augmentedState a b) solver meas (state, other) =
      (correct a solver (meas.ofFirst other) state,
        b.postCorrect (b.setErrorCovariance (b.setStateVector other (b.stateVector other)) 0)) := by
  have hnumerator : numerator (augmentedState a b) meas (state, other) = _ :=
    numerator_augmentedState hzero
  have hinnovation : innovationCovariance (augmentedState a b) meas (state, other) = _ :=
    innovationCovariance_augmentedState hzero
  have hcorrection : stateCorrection (augmentedState a b) solver meas (state, other) =
      Sum.elim (stateCorrection a solver (meas.ofFirst other) state) 0 := by
    rw [stateCorrection, hnumerator, hinnovation, fromRows_mulVec, zero_mulVec]
    rfl
  have hreduction : covarianceReduction (augmentedState a b) solver meas (state, other) =
      fromRows (numerator a (meas.ofFirst other) state * solveColumns
        (solver (innovationCovariance a (meas.ofFirst other) state))
        (fromRows (numerator a (meas.ofFirst other) state) 0)ᵀ) 0 := by
    rw [covarianceReduction, hnumerator, hinnovation, fromRows_mul, Matrix.zero_mul]
  have hother : b.errorCovariance other - (covarianceReduction (augmentedState a b) solver meas
      (state, other)).toBlocks₂₂ = 0 := by
    rw [hzero, hreduction]
    exact sub_zero 0
  have hvector : b.stateVector other + 0 = b.stateVector other := add_zero _
  have hfirst : a.errorCovariance state - (covarianceReduction (augmentedState a b) solver meas
      (state, other)).toBlocks₁₁ =
        a.errorCovariance state - covarianceReduction a solver (meas.ofFirst other) state := by
    rw [hreduction]
    rfl
  refine Prod.ext ?_ ?_
  · rw [correct, hcorrection]
    exact congrArg (fun P => a.postCorrect (a.setErrorCovariance (a.setStateVector state
      (a.stateVector state + stateCorrection a solver (meas.ofFirst other) state)) P)) hfirst
  · rw [correct, hcorrection]
    exact congrArg₂ (fun vector P => b.postCorrect (b.setErrorCovariance
      (b.setStateVector other vector) P)) hvector hother

/-- The state that is known exactly keeps its vector, and is known exactly afterwards. -/
theorem correct_augmentedState (hzero : b.errorCovariance other = 0) :
    correct (augmentedState a b) solver meas (state, other) =
        (correct a solver (meas.ofFirst other) state,
          b.postCorrect (b.setErrorCovariance (b.setStateVector other (b.stateVector other)) 0)) ∧
      (b.LawfulVector →
        b.stateVector (correct (augmentedState a b) solver meas (state, other)).2 =
          b.stateVector other) ∧
      (b.Lawful →
        b.errorCovariance (correct (augmentedState a b) solver meas (state, other)).2 = 0) := by
  rw [correct_of_exact hzero]
  refine ⟨rfl, fun hb => ?_, fun hb => ?_⟩
  · rw [hb.vector_postCorrect, hb.vector_setCovariance, hb.vector_setVector]
  · rw [hb.covariance_postCorrect, hb.covariance_setCovariance]

end Augmented

/-! ## Two positions on a line -/

/-- A position on a line with its variance. -/
def onLine [Field K] (place variance : K) : PureVectorState K (Fin 1) :=
  ⟨fun _ => place, diagonal fun _ => variance⟩

/-- The sum of two positions is measured to be 5, with a variance of 1. -/
def sumOfPlaces [Field K] :
    Measurement K (Fin 1) (Fin 1 ⊕ Fin 1) (PureVectorState K (Fin 1) ×
      PureVectorState K (Fin 1)) where
  getJacobian _ := .of fun _ _ => 1
  getCovariance _ := 1
  getResidual state _ := 5 - (state.1.stateVector 0 + state.2.stateVector 0)

/-- A matrix of one entry. -/
def divideByEntry [Field K] : Solver K (Fin 1) := fun S b row => b row / S 0 0

theorem solves_divideByEntry : (divideByEntry : Solver ℝ (Fin 1)).Solves := by
  intro S hS b
  ext row
  rw [Subsingleton.elim row 0, mulVec, dotProduct, Fin.sum_univ_one, divideByEntry]
  exact mul_div_cancel₀ _ hS.diag_pos.ne'

theorem posSemidef_correct_onLine :
    let corrected := correct (augmentedState PureVectorState.stateType PureVectorState.stateType)
      divideByEntry sumOfPlaces (onLine (1 : ℝ) 4, onLine 2 1)
    (corrected.1.errorCovariance.PosSemidef ∧ corrected.2.errorCovariance.PosSemidef) ∧
      ((onLine 1 4).errorCovariance - corrected.1.errorCovariance).PosSemidef ∧
      ((onLine 2 1).errorCovariance - corrected.2.errorCovariance).PosSemidef :=
  posSemidef_correct_augmentedState PureVectorState.lawful_stateType
    PureVectorState.lawful_stateType
    solves_divideByEntry (.diagonal fun _ => zero_le_four) (.diagonal fun _ => zero_le_one) .one

theorem correct_augmentedState_onLine :
    let corrected := correct
      (augmentedState PureVectorState.stateType PureVectorState.stateType) divideByEntry
        sumOfPlaces (onLine (1 : ℚ) 4, onLine 2 0)
    corrected = (correct PureVectorState.stateType divideByEntry (sumOfPlaces.ofFirst (onLine 2 0))
        (onLine 1 4), ⟨fun _ => 2, 0⟩) ∧
      corrected.2.stateVector = fun _ => 2 := by
  have hzero : PureVectorState.stateType.errorCovariance (onLine (2 : ℚ) 0) = 0 := diagonal_zero
  exact ⟨(correct_augmentedState hzero).1,
    (correct_augmentedState hzero).2.1 PureVectorState.lawfulVector_stateType⟩

end OSVR.Kalman
