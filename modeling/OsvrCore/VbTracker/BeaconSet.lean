/-
# The beacons of a pose estimator

The estimator keeps what it knows of its beacons in parallel arrays, and setting the
beacons should replace all of them. The fixed flags are only ever appended to, a single
variance does not replace those that are there already, and the check of the emission
directions comes when everything else has been replaced.

The operations on numbers are left open.
-/

import Mathlib.Data.List.Basic
import OsvrCore.Util.MachineIntegers

set_option autoImplicit false

namespace OSVR.VbTracker

open Util

universe u v

variable {φ : Type u} {δ : Type v}

/-! ## The estimator -/

/-- `std::vector::resize`, with the value of new entries. -/
def resize {α : Type u} (entries : List α) (n : ℕ) (value : α) : List α :=
  entries.take n ++ List.replicate (n - entries.length) value

/-- A position with its error covariance. -/
structure BeaconState (δ : Type v) where
  stateVector : Fin 3 → δ
  errorCovariance : Fin 3 → Fin 3 → δ

structure BeaconData (δ : Type v) where
  seen : Bool
  size : δ
  measurement : δ × δ
  residual : δ × δ
  variance : δ

/-- The parallel arrays. -/
structure BeaconArrays (δ : Type v) where
  beacons : List (BeaconState δ)
  beaconMeasurementVariance : List δ
  beaconFixed : List Bool
  beaconEmissionDirection : List (Fin 3 → δ)
  beaconDebugData : List (BeaconData δ)

structure BeaconEstimator (δ : Type v) extends BeaconArrays δ where
  centroid : Fin 3 → δ
  gotPose : Bool

/-- The operations on `double`, and the conversions to it. -/
structure BeaconArithmetic (φ : Type u) (δ : Type v) where
  add : δ → δ → δ
  sub : δ → δ → δ
  mul : δ → δ → δ
  div : δ → δ → δ
  toDouble : φ → δ
  ofNat : ℕ → δ

/-- The parameters that are used here. -/
structure BeaconParams (φ : Type u) (δ : Type v) extends BeaconArithmetic φ δ where
  offsetToCentroid : Bool
  manualBeaconOffset : Fin 3 → δ
  initialBeaconError : δ

/-- The arguments of a call. -/
structure SetBeaconsCall (φ : Type u) (δ : Type v) where
  beacons : List (Fin 3 → φ)
  emissionDirection : List (Fin 3 → δ)
  variance : List δ
  autocalibrationFixedPredicate : ℤ → Bool
  beaconAutocalibErrorScale : δ

namespace BeaconEstimator

variable (params : BeaconParams φ δ)

def DEFAULT_MEASUREMENT_VARIANCE : δ := params.ofNat 3

/-- A beacon that has not been looked at. -/
def initialData : BeaconData δ :=
  { seen := false
    size := params.ofNat 0
    measurement := (params.ofNat 0, params.ofNat 0)
    residual := (params.ofNat 0, params.ofNat 0)
    variance := params.ofNat 0 }

def cvToVector (beacon : Fin 3 → φ) : Fin 3 → δ := fun axis => params.toDouble (beacon axis)

def updateBeaconCentroid (beacons : List (Fin 3 → φ)) : Fin 3 → δ :=
  if params.offsetToCentroid then
    let beaconSum := beacons.foldl
      (fun beaconSum beacon axis => params.add (beaconSum axis) (cvToVector params beacon axis))
      fun _ => params.ofNat 0
    fun axis => params.div (beaconSum axis) (params.ofNat beacons.length)
  else params.manualBeaconOffset

/-- The diagonal covariance of a beacon that is calibrated. -/
def beaconError (beaconAutocalibErrorScale : δ) : Fin 3 → Fin 3 → δ := fun row column =>
  if row = column then params.mul params.initialBeaconError beaconAutocalibErrorScale
  else params.ofNat 0

/-- The state of a beacon; a fixed one has no error. -/
def beaconState (call : SetBeaconsCall φ δ) (centroid : Fin 3 → δ) (beacon : Fin 3 → φ)
    (isFixed : Bool) : BeaconState δ :=
  { stateVector := fun axis => params.sub (cvToVector params beacon axis) (centroid axis)
    errorCovariance :=
      if isFixed then fun _ _ => params.ofNat 0
      else beaconError params call.beaconAutocalibErrorScale }

/-- The loop over the beacons, from the number `bNum` on. -/
def addBeacons (call : SetBeaconsCall φ δ) (centroid : Fin 3 → δ) :
    List (Fin 3 → φ) → ℕ → BeaconArrays δ → BeaconArrays δ
  | [], _, arrays => arrays
  | beacon :: rest, bNum, arrays =>
      let isFixed := call.autocalibrationFixedPredicate (toInt (bNum + 1))
      let state := beaconState params call centroid beacon isFixed
      addBeacons call centroid rest (bNum + 1)
        { arrays with
          beaconFixed := arrays.beaconFixed ++ [isFixed]
          beacons := arrays.beacons ++ [state] }

def updateBeaconDebugInfoArray (arrays : BeaconArrays δ) : BeaconArrays δ :=
  { arrays with
    beaconDebugData := resize arrays.beaconDebugData arrays.beacons.length (initialData params) }

/-- What the call returns or throws, and the estimator that it leaves. -/
def setBeacons (call : SetBeaconsCall φ δ) (estimator : BeaconEstimator δ) :
    Except String Bool × BeaconEstimator δ :=
  let centroid := updateBeaconCentroid params call.beacons
  let arrays := addBeacons params call centroid call.beacons 0
    { estimator.toBeaconArrays with beacons := [] }
  let variance := match call.variance with
    -- A single entry is used for all beacons.
    | [single] => resize arrays.beaconMeasurementVariance arrays.beacons.length single
    | variance => variance
  let arrays := { arrays with
    beaconMeasurementVariance :=
      resize variance arrays.beacons.length (DEFAULT_MEASUREMENT_VARIANCE params)
    beaconEmissionDirection := call.emissionDirection }
  if arrays.beaconEmissionDirection.length ≠ arrays.beacons.length then
    (.error "Beacon emission direction array size did not match number of beacons!",
      { toBeaconArrays := arrays, centroid := centroid, gotPose := false })
  else
    (.ok true,
      { toBeaconArrays := updateBeaconDebugInfoArray params arrays
        centroid := centroid, gotPose := false })

/-- The estimator as it is constructed. -/
def fresh : BeaconEstimator δ :=
  { beacons := [], beaconMeasurementVariance := [], beaconFixed := []
    beaconEmissionDirection := [], beaconDebugData := []
    centroid := fun _ => params.ofNat 0, gotPose := false }

/-! ## What a call asks for -/

/-- The flags of the beacons from a number on. -/
def fixedFlags (call : SetBeaconsCall φ δ) (bNum count : ℕ) : List Bool :=
  (List.range' (bNum + 1) count).map fun number =>
    call.autocalibrationFixedPredicate (toInt number)

def beaconStates (call : SetBeaconsCall φ δ) : List (BeaconState δ) :=
  call.beacons.zipWith (beaconState params call (updateBeaconCentroid params call.beacons))
    (fixedFlags call 0 call.beacons.length)

/-- The variances of a call alone. -/
def variances (call : SetBeaconsCall φ δ) : List δ :=
  match call.variance with
  | [single] => List.replicate call.beacons.length single
  | variance => resize variance call.beacons.length (DEFAULT_MEASUREMENT_VARIANCE params)

/-- The arrays of a call alone. -/
def arraysOf (call : SetBeaconsCall φ δ) : BeaconArrays δ :=
  { beacons := beaconStates params call
    beaconMeasurementVariance := variances params call
    beaconFixed := fixedFlags call 0 call.beacons.length
    beaconEmissionDirection := call.emissionDirection
    beaconDebugData := List.replicate call.beacons.length (initialData params) }

/-- One entry for each beacon in all arrays. -/
structure OneEach (arrays : BeaconArrays δ) (count : ℕ) : Prop where
  beacons : arrays.beacons.length = count
  beaconMeasurementVariance : arrays.beaconMeasurementVariance.length = count
  beaconFixed : arrays.beaconFixed.length = count
  beaconEmissionDirection : arrays.beaconEmissionDirection.length = count
  beaconDebugData : arrays.beaconDebugData.length = count

/-- A call that returns leaves one entry for each beacon, all of which are of this call
alone; one that throws leaves the arrays as they were. -/
def Consistent (estimator : BeaconEstimator δ) (call : SetBeaconsCall φ δ) : Prop :=
  match setBeacons params call estimator with
  | (.ok _, after) =>
      after.toBeaconArrays = arraysOf params call ∧
        OneEach after.toBeaconArrays call.beacons.length
  | (.error _, after) => after.toBeaconArrays = estimator.toBeaconArrays

/-- For a call that returns, no flags are there yet, and no variance that a single one would
have to replace; a call that throws changes nothing only if all is empty, or as it asks. -/
def Undisturbed (estimator : BeaconEstimator δ) (call : SetBeaconsCall φ δ) : Prop :=
  if call.emissionDirection.length = call.beacons.length then
    estimator.beaconFixed = [] ∧
      ∀ single, call.variance = [single] →
        ∀ variance ∈ estimator.beaconMeasurementVariance.take call.beacons.length,
          variance = single
  else
    call.beacons = [] ∧ estimator.beacons = [] ∧ estimator.beaconMeasurementVariance = [] ∧
      estimator.beaconEmissionDirection = call.emissionDirection

/-! ## The arrays of a call -/

section Lists

variable {α : Type u}

@[simp] theorem length_resize (entries : List α) (n : ℕ) (value : α) :
    (resize entries n value).length = n := by
  rw [resize, List.length_append, List.length_take, List.length_replicate]
  omega

/-- Resizing to the size that there is changes nothing. -/
theorem resize_eq_self {entries : List α} {n : ℕ} (h : entries.length = n) (value : α) :
    resize entries n value = entries := by
  rw [resize, h, Nat.sub_self, List.replicate_zero, List.append_nil, ← h, List.take_length]

/-- The entries that stay decide whether all are the new value. -/
theorem resize_eq_replicate_iff (entries : List α) (n : ℕ) (value : α) :
    resize entries n value = List.replicate n value ↔ ∀ entry ∈ entries.take n, entry = value := by
  rw [List.eq_replicate_iff, resize]
  apply Iff.intro
  · rintro ⟨_, hall⟩ entry hentry
    exact hall entry (List.mem_append_left _ hentry)
  · intro hall
    apply And.intro (length_resize entries n value)
    intro entry hentry
    rcases List.mem_append.mp hentry with hold | hnew
    · exact hall entry hold
    · exact List.eq_of_mem_replicate hnew

end Lists

@[simp] theorem length_fixedFlags (call : SetBeaconsCall φ δ) (bNum count : ℕ) :
    (fixedFlags call bNum count).length = count := by
  rw [fixedFlags, List.length_map, List.length_range']

@[simp] theorem length_beaconStates (call : SetBeaconsCall φ δ) :
    (beaconStates params call).length = call.beacons.length := by
  rw [beaconStates, List.length_zipWith, length_fixedFlags, Nat.min_self]

@[simp] theorem length_variances (call : SetBeaconsCall φ δ) :
    (variances params call).length = call.beacons.length := by
  rw [variances]
  split
  · exact List.length_replicate
  · exact length_resize _ _ _

/-- The loop appends a state and a flag for each beacon. -/
theorem addBeacons_eq (call : SetBeaconsCall φ δ) (centroid : Fin 3 → δ)
    (beacons : List (Fin 3 → φ)) (bNum : ℕ) (arrays : BeaconArrays δ) :
    addBeacons params call centroid beacons bNum arrays =
      { arrays with
        beaconFixed := arrays.beaconFixed ++ fixedFlags call bNum beacons.length
        beacons := arrays.beacons ++
          beacons.zipWith (beaconState params call centroid)
            (fixedFlags call bNum beacons.length) } := by
  induction beacons generalizing bNum arrays with
  | nil => simp [addBeacons, fixedFlags]
  | cons beacon rest ih =>
      have hflags : fixedFlags call bNum (beacon :: rest).length =
          call.autocalibrationFixedPredicate (toInt (bNum + 1)) ::
            fixedFlags call (bNum + 1) rest.length := by
        rw [List.length_cons, fixedFlags, List.range'_succ]
        rfl
      rw [addBeacons, ih, hflags, List.zipWith_cons_cons]
      simp only [List.append_assoc, List.singleton_append]

theorem addBeacons_arrays (call : SetBeaconsCall φ δ) (arrays : BeaconArrays δ) :
    addBeacons params call (updateBeaconCentroid params call.beacons) call.beacons 0
        { arrays with beacons := [] } =
      { arrays with
        beaconFixed := arrays.beaconFixed ++ fixedFlags call 0 call.beacons.length
        beacons := beaconStates params call } := by
  rw [addBeacons_eq, beaconStates, List.nil_append]

/-- The variances that are there after a call. -/
def newVariances (estimator : BeaconEstimator δ) (call : SetBeaconsCall φ δ) : List δ :=
  match call.variance with
  | [single] => resize estimator.beaconMeasurementVariance call.beacons.length single
  | variance => resize variance call.beacons.length (DEFAULT_MEASUREMENT_VARIANCE params)

/-- The arrays before the check of the emission directions. -/
def checkedArrays (estimator : BeaconEstimator δ) (call : SetBeaconsCall φ δ) :
    BeaconArrays δ :=
  { beacons := beaconStates params call
    beaconMeasurementVariance := newVariances params estimator call
    beaconFixed := estimator.beaconFixed ++ fixedFlags call 0 call.beacons.length
    beaconEmissionDirection := call.emissionDirection
    beaconDebugData := estimator.beaconDebugData }

theorem setBeacons_eq (call : SetBeaconsCall φ δ) (estimator : BeaconEstimator δ) :
    setBeacons params call estimator =
      if call.emissionDirection.length = call.beacons.length then
        (.ok true,
          { toBeaconArrays :=
              { checkedArrays params estimator call with
                beaconDebugData :=
                  resize estimator.beaconDebugData call.beacons.length (initialData params) }
            centroid := updateBeaconCentroid params call.beacons, gotPose := false })
      else
        (.error "Beacon emission direction array size did not match number of beacons!",
          { toBeaconArrays := checkedArrays params estimator call
            centroid := updateBeaconCentroid params call.beacons, gotPose := false }) := by
  have hvariance : resize (match call.variance with
      | [single] => resize estimator.beaconMeasurementVariance call.beacons.length single
      | variance => variance) call.beacons.length (DEFAULT_MEASUREMENT_VARIANCE params) =
        newVariances params estimator call := by
    rw [newVariances]
    split
    · exact resize_eq_self (length_resize _ _ _) _
    · rfl
  simp only [setBeacons, addBeacons_arrays, length_beaconStates, hvariance,
    updateBeaconDebugInfoArray, checkedArrays]
  by_cases hlength : call.emissionDirection.length = call.beacons.length
  · rw [if_neg (not_not.mpr hlength), if_pos hlength]
  · rw [if_pos hlength, if_neg hlength]

/-! ## One call -/

/-- Only calls have touched the debug data. -/
def DebugDataInitial (estimator : BeaconEstimator δ) : Prop :=
  ∀ data ∈ estimator.beaconDebugData, data = initialData params

/-- The debug data of a call are those of a fresh estimator. -/
theorem resize_debugData {estimator : BeaconEstimator δ}
    (h : DebugDataInitial params estimator) (n : ℕ) :
    resize estimator.beaconDebugData n (initialData params) =
      List.replicate n (initialData params) :=
  (resize_eq_replicate_iff _ _ _).mpr fun data hdata => h data (List.mem_of_mem_take hdata)

/-- The variances are those of the call exactly when a single one finds no others. -/
theorem newVariances_eq_iff (estimator : BeaconEstimator δ) (call : SetBeaconsCall φ δ) :
    newVariances params estimator call = variances params call ↔
      ∀ single, call.variance = [single] →
        ∀ variance ∈ estimator.beaconMeasurementVariance.take call.beacons.length,
          variance = single := by
  rw [newVariances, variances]
  split
  next single hsingle =>
    rw [resize_eq_replicate_iff, hsingle]
    exact ⟨fun h other hother => List.head_eq_of_cons_eq hother ▸ h, fun h => h single rfl⟩
  next hother => exact iff_of_true rfl fun single hsingle => absurd hsingle (hother single)

@[simp] theorem length_newVariances (estimator : BeaconEstimator δ)
    (call : SetBeaconsCall φ δ) :
    (newVariances params estimator call).length = call.beacons.length := by
  rw [newVariances]
  split <;> exact length_resize _ _ _

/-- The arrays of a call have one entry for each beacon, if its emission directions have. -/
theorem oneEach_arraysOf {call : SetBeaconsCall φ δ}
    (h : call.emissionDirection.length = call.beacons.length) :
    OneEach (arraysOf params call) call.beacons.length where
  beacons := length_beaconStates params call
  beaconMeasurementVariance := length_variances params call
  beaconFixed := length_fixedFlags call 0 _
  beaconEmissionDirection := h
  beaconDebugData := List.length_replicate

/-- A call is consistent exactly when it is undisturbed. -/
theorem consistent_iff {estimator : BeaconEstimator δ}
    (hdebug : DebugDataInitial params estimator) (call : SetBeaconsCall φ δ) :
    Consistent params estimator call ↔ Undisturbed estimator call := by
  rw [Consistent, Undisturbed, setBeacons_eq]
  by_cases hlength : call.emissionDirection.length = call.beacons.length
  · rw [if_pos hlength, if_pos hlength, ← newVariances_eq_iff params]
    simp only [resize_debugData params hdebug, checkedArrays]
    apply Iff.intro
    · rintro ⟨harrays, _⟩
      have hfixed := congrArg BeaconArrays.beaconFixed harrays
      have hvariance := congrArg BeaconArrays.beaconMeasurementVariance harrays
      exact ⟨List.append_left_eq_self.mp hfixed, hvariance⟩
    · rintro ⟨hfixed, hvariance⟩
      rw [hfixed, List.nil_append, hvariance]
      exact ⟨rfl, oneEach_arraysOf params hlength⟩
  · rw [if_neg hlength, if_neg hlength]
    simp only [checkedArrays]
    apply Iff.intro
    · intro harrays
      have hfixed := congrArg BeaconArrays.beaconFixed harrays
      have hcount : call.beacons.length = 0 := by
        rw [← length_fixedFlags call 0 call.beacons.length, List.append_right_eq_self.mp hfixed]
        rfl
      have hbeacons := congrArg BeaconArrays.beacons harrays
      have hvariance := congrArg BeaconArrays.beaconMeasurementVariance harrays
      refine ⟨List.eq_nil_of_length_eq_zero hcount, ?_, ?_, ?_⟩
      · rw [← hbeacons]
        exact List.eq_nil_of_length_eq_zero ((length_beaconStates params call).trans hcount)
      · rw [← hvariance]
        exact List.eq_nil_of_length_eq_zero
          ((length_newVariances params estimator call).trans hcount)
      · exact (congrArg BeaconArrays.beaconEmissionDirection harrays).symm
    · rintro ⟨hempty, hbeacons, hvariance, hemission⟩
      have hcount : call.beacons.length = 0 := by rw [hempty]; rfl
      have hstates : beaconStates params call = [] :=
        List.eq_nil_of_length_eq_zero ((length_beaconStates params call).trans hcount)
      have hflags : fixedFlags call 0 call.beacons.length = [] :=
        List.eq_nil_of_length_eq_zero ((length_fixedFlags call 0 _).trans hcount)
      have hvariances : newVariances params estimator call = [] :=
        List.eq_nil_of_length_eq_zero
          ((length_newVariances params estimator call).trans hcount)
      rw [hstates, hflags, hvariances, List.append_nil, ← hemission, ← hbeacons, ← hvariance]

/-- Calls leave the debug data as they are in a fresh estimator. -/
theorem debugDataInitial_setBeacons {estimator : BeaconEstimator δ}
    (h : DebugDataInitial params estimator) (call : SetBeaconsCall φ δ) :
    DebugDataInitial params (setBeacons params call estimator).2 := by
  rw [setBeacons_eq]
  split
  · intro data hdata
    simp only [resize_debugData params h] at hdata
    exact List.eq_of_mem_replicate hdata
  · exact h

theorem debugDataInitial_fresh : DebugDataInitial params (fresh params) :=
  fun _ hdata => absurd hdata List.not_mem_nil

/-! ## Runs -/

/-- The estimator before each call of a run, with the call. -/
def steps (estimator : BeaconEstimator δ) :
    List (SetBeaconsCall φ δ) → List (BeaconEstimator δ × SetBeaconsCall φ δ)
  | [] => []
  | call :: calls => (estimator, call) :: steps (setBeacons params call estimator).2 calls

theorem debugDataInitial_steps {estimator : BeaconEstimator δ}
    (h : DebugDataInitial params estimator) (calls : List (SetBeaconsCall φ δ)) :
    ∀ step ∈ steps params estimator calls, DebugDataInitial params step.1 := by
  induction calls generalizing estimator with
  | nil => exact fun _ hstep => absurd hstep List.not_mem_nil
  | cons call calls ih =>
      rw [steps, List.forall_mem_cons]
      exact ⟨h, ih (debugDataInitial_setBeacons params h call)⟩

/-- In every run from the construction on, each call is consistent exactly when each call is
undisturbed. -/
theorem consistent_run_iff (calls : List (SetBeaconsCall φ δ)) :
    (∀ step ∈ steps params (fresh params) calls, Consistent params step.1 step.2) ↔
      ∀ step ∈ steps params (fresh params) calls, Undisturbed step.1 step.2 := by
  have hdebug := debugDataInitial_steps params (debugDataInitial_fresh params) calls
  apply forall_congr'
  intro step
  exact forall_congr' fun hstep => consistent_iff params (hdebug step hstep) step.2

/-- One beacon set twice: it has two flags. -/
theorem not_consistent_twice :
    ¬ ∀ (params : BeaconParams ℤ ℤ) (calls : List (SetBeaconsCall ℤ ℤ)),
      ∀ step ∈ steps params (fresh params) calls, Consistent params step.1 step.2 := by
  intro h
  let call : SetBeaconsCall ℤ ℤ :=
    { beacons := [fun _ => 1], emissionDirection := [fun _ => 1], variance := []
      autocalibrationFixedPredicate := fun _ => false, beaconAutocalibErrorScale := 1 }
  let params : BeaconParams ℤ ℤ :=
    { add := (· + ·), sub := (· - ·), mul := (· * ·), div := (· / ·)
      toDouble := id, ofNat := Int.ofNat, offsetToCentroid := false
      manualBeaconOffset := fun _ => 0, initialBeaconError := 1 }
  obtain ⟨_, heach⟩ := h params [call, call]
    ((setBeacons params call (fresh params)).2, call)
    (List.mem_cons_of_mem _ List.mem_cons_self)
  exact absurd heach.beaconFixed (by decide)

end BeaconEstimator

end OSVR.VbTracker
