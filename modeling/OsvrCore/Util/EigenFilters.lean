/-
# Filters

A low pass filter follows its inputs; the One-Euro filter takes more of each the faster
they move. Which values are filtered is left to a few functions, which exist for vectors
and for quaternions. The numbers are exact, with the constant for pi as it is written.
-/

import Mathlib.Algebra.BigOperators.Fin
import Mathlib.Data.Fin.VecNotation
import Mathlib.Tactic.Positivity
import OsvrCore.Math.Smoothing
import OsvrCore.Util.EigenQuaternion

set_option autoImplicit false

namespace OSVR.Util.Filters

open Math

universe u v

variable {K : Type u} {V : Type v}

/-- The functions required of a type of values. -/
structure FilterType (K : Type u) (V : Type v) where
  computeStep : V → V → K → V
  derivativeIdentity : V
  computeDerivative : V → V → K → V
  computeDerivativeMagnitude : V → K

/-! ## The filters -/

/-- `LowPassFilter`; the value is not initialized before the first time. -/
structure LowPassFilter (V : Type v) where
  hatx : V
  firstTime : Bool
  deriving DecidableEq

def LowPassFilter.filter (ops : FilterType K V) (self : LowPassFilter V) (x : V) (alpha : K) :
    LowPassFilter V :=
  if self.firstTime then ⟨x, false⟩
  else { self with hatx := ops.computeStep self.hatx x alpha }

theorem LowPassFilter.firstTime_filter {ops : FilterType K V} (self : LowPassFilter V) (x : V)
    (alpha : K) : (self.filter ops x alpha).firstTime = false := by
  unfold filter
  split
  · rfl
  next hfirst => exact Bool.eq_false_iff.mpr hfirst

/-- `one_euro::Params`. -/
structure Params (K : Type u) where
  minCutoff : K
  beta : K
  derivativeCutoff : K

def M_PI [Field K] : K := (314159265358979323846 : ℕ) / (100000000000000000000 : ℕ)

def computeAlpha [Field K] (dt cutoff : K) : K :=
  let tau := 1 / ((2 : ℕ) * M_PI * cutoff)
  1 / (1 + tau / dt)

structure OneEuroFilter (K : Type u) (V : Type v) where
  firstTime : Bool
  params : Params K
  xFilter : LowPassFilter V
  dxFilter : LowPassFilter V

namespace OneEuroFilter

/-- The constructor. -/
def create (uninitialized : V) (params : Params K) : OneEuroFilter K V :=
  ⟨true, params, ⟨uninitialized, true⟩, ⟨uninitialized, true⟩⟩

section Filter

variable [Field K] (ops : FilterType K V) (self : OneEuroFilter K V) (dt : K) (x : V)

/-- The filter of the derivative after a value. -/
def dxFiltered : LowPassFilter V :=
  let dx := if self.firstTime then ops.derivativeIdentity
    else ops.computeDerivative self.xFilter.hatx x dt
  self.dxFilter.filter ops dx (computeAlpha dt self.params.derivativeCutoff)

def cutoff : K :=
  self.params.minCutoff +
    self.params.beta * ops.computeDerivativeMagnitude (self.dxFiltered ops dt x).hatx

/-- The part of the value that is taken. -/
def alpha : K := computeAlpha dt (self.cutoff ops dt x)

def filter : OneEuroFilter K V where
  firstTime := false
  params := self.params
  xFilter := self.xFilter.filter ops x (self.alpha ops dt x)
  dxFilter := self.dxFiltered ops dt x

end Filter

def getState (self : OneEuroFilter K V) : V := self.xFilter.hatx

/-- The filters in a filter have had their first value together. -/
def Coherent (self : OneEuroFilter K V) : Prop :=
  self.xFilter.firstTime = self.firstTime ∧ self.dxFilter.firstTime = self.firstTime

/-- There was a first value. -/
def Started (self : OneEuroFilter K V) : Prop := self.Coherent ∧ self.firstTime = false

theorem coherent_create (uninitialized : V) (params : Params K) :
    (create uninitialized params).Coherent := ⟨rfl, rfl⟩

variable [Field K] {ops : FilterType K V} {self : OneEuroFilter K V}

@[simp] theorem params_filter (dt : K) (x : V) : (self.filter ops dt x).params = self.params :=
  rfl

theorem started_filter (dt : K) (x : V) : (self.filter ops dt x).Started :=
  ⟨⟨LowPassFilter.firstTime_filter _ _ _, LowPassFilter.firstTime_filter _ _ _⟩, rfl⟩

/-- The first value is kept as it is, whatever was not initialized. -/
theorem filter_of_first (hcoherent : self.Coherent) (hfirst : self.firstTime = true) (dt : K)
    (x : V) : self.filter ops dt x =
      ⟨false, self.params, ⟨x, false⟩, ⟨ops.derivativeIdentity, false⟩⟩ := by
  obtain ⟨hx, hdx⟩ := hcoherent
  rw [hfirst] at hx hdx
  simp [filter, dxFiltered, LowPassFilter.filter, hfirst, hx, hdx]

/-- Of a filter that is new nothing is left in it but the value. -/
theorem filter_create (uninitialized : V) (params : Params K) (dt : K) (x : V) :
    (create uninitialized params).filter ops dt x =
      ⟨false, params, ⟨x, false⟩, ⟨ops.derivativeIdentity, false⟩⟩ :=
  filter_of_first (coherent_create uninitialized params) rfl dt x

theorem getState_filter_of_started (hstarted : self.Started) (dt : K) (x : V) :
    (self.filter ops dt x).getState = ops.computeStep self.getState x (self.alpha ops dt x) := by
  have hx : self.xFilter.firstTime = false := hstarted.1.1.trans hstarted.2
  simp [getState, filter, LowPassFilter.filter, hx]

end OneEuroFilter

/-! ## Parts -/

section Alpha

variable [Field K] [LinearOrder K] [IsStrictOrderedRing K] {dt least cutoff minCutoff : K}

theorem M_PI_pos : (0 : K) < M_PI :=
  div_pos (Nat.cast_pos.mpr (by decide)) (Nat.cast_pos.mpr (by decide))

theorem computeAlpha_pos (hdt : 0 < dt) (hcutoff : 0 < cutoff) : 0 < computeAlpha dt cutoff := by
  have hpi : (0 : K) < M_PI := M_PI_pos
  unfold computeAlpha
  positivity

theorem computeAlpha_le_one (hdt : 0 < dt) (hcutoff : 0 < cutoff) : computeAlpha dt cutoff ≤ 1 := by
  have hpi : (0 : K) < M_PI := M_PI_pos
  refine (div_le_one (by positivity)).mpr (le_add_of_nonneg_right ?_)
  positivity

/-- More is taken after a longer time and of a faster movement. -/
theorem computeAlpha_mono (hleast : 0 < least) (hdt : least ≤ dt) (hmin : 0 < minCutoff)
    (hcutoff : minCutoff ≤ cutoff) : computeAlpha least minCutoff ≤ computeAlpha dt cutoff := by
  have hpi : (0 : K) < M_PI := M_PI_pos
  have hdt' : 0 < dt := hleast.trans_le hdt
  have hcutoff' : 0 < cutoff := hmin.trans_le hcutoff
  have htau : 1 / ((2 : ℕ) * M_PI * cutoff) ≤ 1 / ((2 : ℕ) * M_PI * minCutoff) := by
    apply one_div_le_one_div_of_le (by positivity)
    exact mul_le_mul_of_nonneg_left hcutoff (by positivity)
  unfold computeAlpha
  apply one_div_le_one_div_of_le (by positivity)
  gcongr

end Alpha

/-! ## What a filter keeps -/

/-- Parameters with which a filter follows its inputs. -/
structure Params.Sensible [Zero K] [LT K] [LE K] (params : Params K) : Prop where
  minCutoff_pos : 0 < params.minCutoff
  beta_nonneg : 0 ≤ params.beta

section Keeps

variable [Field K] [LinearOrder K] [IsStrictOrderedRing K]

/-- A set that values stay in from step to step; magnitudes are not negative. -/
structure FilterType.Keeps (ops : FilterType K V) (S : Set V) : Prop where
  magnitude_nonneg : ∀ dx, 0 ≤ ops.computeDerivativeMagnitude dx
  step_mem : ∀ hatx x alpha, hatx ∈ S → x ∈ S → 0 ≤ alpha → alpha ≤ 1 →
    ops.computeStep hatx x alpha ∈ S

namespace OneEuroFilter

variable {ops : FilterType K V} {self : OneEuroFilter K V} {S : Set V} {dt : K} {x : V}

theorem minCutoff_le_cutoff (hmagnitude : ∀ dx, 0 ≤ ops.computeDerivativeMagnitude dx)
    (hparams : self.params.Sensible) : self.params.minCutoff ≤ self.cutoff ops dt x :=
  le_add_of_nonneg_right (mul_nonneg hparams.beta_nonneg (hmagnitude _))

theorem getState_filter_mem (hkeeps : ops.Keeps S) (hparams : self.params.Sensible)
    (hcoherent : self.Coherent) (hold : self.firstTime = false → self.getState ∈ S) (hdt : 0 < dt)
    (hx : x ∈ S) : (self.filter ops dt x).getState ∈ S := by
  cases hfirst : self.firstTime with
  | true =>
      rw [filter_of_first hcoherent hfirst]
      exact hx
  | false =>
      have hcutoff : 0 < self.cutoff ops dt x :=
        hparams.minCutoff_pos.trans_le (minCutoff_le_cutoff hkeeps.magnitude_nonneg hparams)
      rw [getState_filter_of_started ⟨hcoherent, hfirst⟩]
      exact hkeeps.step_mem _ _ _ (hold hfirst) hx (computeAlpha_pos hdt hcutoff).le
        (computeAlpha_le_one hdt hcutoff)

end OneEuroFilter

end Keeps

/-! ## Vectors -/

/-- The functions for `Eigen::Vector3d`. -/
def vectorFilterType [Field K] (math : Libm K) : FilterType K (Fin 3 → K) where
  computeStep hatx x alpha := alpha • x + (1 - alpha) • hatx
  derivativeIdentity := 0
  computeDerivative prev curr dt axis := (curr axis - prev axis) / dt
  computeDerivativeMagnitude dx := math.sqrt (∑ axis, dx axis * dx axis)

section Vectors

variable [Field K] [LinearOrder K] [IsStrictOrderedRing K] {math : Libm K} {dt least : K}
  {self : OneEuroFilter K (Fin 3 → K)} {x : Fin 3 → K}

theorem keeps_vectorFilterType (hsqrt : ∀ square, 0 ≤ math.sqrt square) {S : Set (Fin 3 → K)}
    (hS : Convex K S) : (vectorFilterType math).Keeps S :=
  ⟨fun _ => hsqrt _, fun _ _ _ hold hnew hpart hpart_le => smooth_mem hS hold hnew hpart hpart_le⟩

/-- What is left to a value that does not change becomes less by a factor in each step. -/
theorem OneEuroFilter.abs_sub_getState_filter_le (hsqrt : ∀ square, 0 ≤ math.sqrt square)
    (hparams : self.params.Sensible) (hstarted : self.Started) (hleast : 0 < least)
    (hdt : least ≤ dt) (axis : Fin 3) :
    |x axis - (self.filter (vectorFilterType math) dt x).getState axis| ≤
      (1 - computeAlpha least self.params.minCutoff) * |x axis - self.getState axis| := by
  have hcutoff : self.params.minCutoff ≤ self.cutoff (vectorFilterType math) dt x :=
    minCutoff_le_cutoff (fun _ => hsqrt _) hparams
  rw [getState_filter_of_started hstarted]
  exact abs_sub_smooth_le (computeAlpha_mono hleast hdt hparams.minCutoff_pos hcutoff)
    (computeAlpha_le_one (hleast.trans_le hdt) (hparams.minCutoff_pos.trans_le hcutoff))

end Vectors

/-! ## Quaternions -/

/-- The functions for `Eigen::Quaterniond`. -/
def quaternionFilterType [Field K] [LinearOrder K] (math : Libm K) :
    FilterType K (Quaternion K) where
  computeStep hatx x alpha := (hatx.slerp math alpha x).normalized math
  derivativeIdentity := .identity
  computeDerivative prev curr dt :=
    (Quaternion.identity.slerp math dt (curr.mul prev.inverse)).normalized math
  computeDerivativeMagnitude quat := (2 : ℕ) * math.acos quat.w

theorem keeps_quaternionFilterType : (quaternionFilterType Quaternion.realMath).Keeps
    {quat | quat.squaredNorm = 1} where
  magnitude_nonneg quat := mul_nonneg (Nat.cast_nonneg 2) (Real.arccos_nonneg quat.w)
  step_mem _ _ _ hhatx hx halpha halpha_le :=
    Quaternion.squaredNorm_normalized_slerp hhatx hx halpha halpha_le

end OSVR.Util.Filters
