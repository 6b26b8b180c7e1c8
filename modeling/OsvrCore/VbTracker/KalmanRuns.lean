/-
# Runs of the pose filter

Whatever frames come, a fixed beacon stays where it was put. When the frames come in the
order of their times, the error covariances of the body and of all beacons stay covariances,
however often the filter is corrected, reset or started again.
-/

import OsvrCore.VbTracker.KalmanCorrections

set_option autoImplicit false

namespace OSVR.VbTracker

open Matrix Math Util Kalman PoseExternalizedRotation

universe u v w

/-! ## What every run keeps -/

section Keeps

variable {σ : Type u} {μ : Type v}

/-- The time of a frame. -/
def EstimatorCall.time? : EstimatorCall σ μ → Option TimeValue
  | .estimatePoseFromLeds _ tv => some tv
  | .permitKalmanMode _ | .setBeacons _ _ | .setCameraParameters _ => none

/-- New data for the computations keeps a property. -/
def EstimatorCall.Keeps (holds : σ → Prop) : EstimatorCall σ μ → Prop
  | .setBeacons _ update | .setCameraParameters update =>
      ∀ filter, holds filter → holds (update filter)
  | .estimatePoseFromLeds _ _ | .permitKalmanMode _ => True

/-- All computations keep a property, when the times they are given are in order. -/
structure FilterArithmetic.Keeps (arithmetic : FilterArithmetic σ μ)
    (inOrder : TimeValue → TimeValue → Prop) (holds : σ → Prop) : Prop where
  predict : ∀ filter prev tv, inOrder prev tv → holds filter →
    holds (arithmetic.predict filter prev tv)
  correct : ∀ filter prev tv led, inOrder prev tv → holds filter →
    holds (arithmetic.correct filter prev tv led).2
  ransac : ∀ filter leds, holds filter → holds (arithmetic.ransac filter leds).2
  zeroState : ∀ filter, holds filter → holds (arithmetic.zeroState filter)

section Times

variable (arithmetic : FilterArithmetic σ μ) (params : ConfigParams) (estimator : PoseEstimator σ)
  (leds : List (Led μ))

theorem prev_forceRansacIfKalmanNeedsReset :
    let checked := estimator.forceRansacIfKalmanNeedsReset arithmetic leds
    checked.prev = estimator.prev ∧ checked.gotPrev = estimator.gotPrev := by
  rw [PoseEstimator.forceRansacIfKalmanNeedsReset]
  split <;> exact ⟨rfl, rfl⟩

theorem prev_pnpransacEstimator :
    let direct := (estimator.pnpransacEstimator arithmetic params leds).1
    direct.prev = estimator.prev ∧ direct.gotPrev = estimator.gotPrev := by
  rw [PoseEstimator.pnpransacEstimator]
  dsimp only
  split
  · exact ⟨rfl, rfl⟩
  · split <;> exact ⟨rfl, rfl⟩

end Times

namespace FilterArithmetic.Keeps

variable {arithmetic : FilterArithmetic σ μ} {params : ConfigParams} {start : σ}
  {inOrder : TimeValue → TimeValue → Prop} {holds : σ → Prop} {estimator : PoseEstimator σ}

theorem correctLed (h : arithmetic.Keeps inOrder holds) {tv : TimeValue} {predicted : σ}
    {skip : Bool}
    {loop : CorrectionLoop σ μ} (htimes : inOrder estimator.prev tv) (hloop : holds loop.filter)
    (led : Led μ) : holds (estimator.correctLed arithmetic tv predicted skip loop led).filter := by
  rw [PoseEstimator.correctLed]
  split
  · exact hloop
  · split
    · exact hloop
    · split
      · exact hloop
      · split
        · exact hloop
        · exact h.correct _ _ _ _ htimes hloop

theorem foldl_correctLed (h : arithmetic.Keeps inOrder holds) {tv : TimeValue} {predicted : σ}
    {skip : Bool} {loop : CorrectionLoop σ μ} (htimes : inOrder estimator.prev tv)
    (hloop : holds loop.filter) (leds : List (Led μ)) :
    holds (leds.foldl (estimator.correctLed arithmetic tv predicted skip) loop).filter := by
  induction leds generalizing loop with
  | nil => exact hloop
  | cons led leds ih => exact ih (h.correctLed htimes hloop led)

theorem correctLeds (h : arithmetic.Keeps inOrder holds) {tv : TimeValue} (leds : List (Led μ))
    (htimes : inOrder estimator.prev tv) (hfilter : holds estimator.filter) :
    holds (estimator.correctLeds arithmetic params tv leds).filter :=
  h.foldl_correctLed htimes (h.predict _ _ _ htimes hfilter) leds

theorem pnpransacEstimator (h : arithmetic.Keeps inOrder holds) (params : ConfigParams)
    (leds : List (Led μ)) (hfilter : holds estimator.filter) :
    holds (estimator.pnpransacEstimator arithmetic params leds).1.filter := by
  rw [PoseEstimator.pnpransacEstimator]
  dsimp only
  split
  · exact hfilter
  · split <;> exact h.ransac _ _ hfilter

theorem forceRansacIfKalmanNeedsReset (h : arithmetic.Keeps inOrder holds) (leds : List (Led μ))
    (hfilter : holds estimator.filter) :
    holds (estimator.forceRansacIfKalmanNeedsReset arithmetic leds).filter := by
  rw [PoseEstimator.forceRansacIfKalmanNeedsReset]
  split
  · exact h.zeroState _ hfilter
  · exact hfilter

/-- The time of the frame before is used only if there was one. -/
theorem estimatePoseFromLeds (h : arithmetic.Keeps inOrder holds) (leds : List (Led μ))
    (tv : TimeValue) (htimes : estimator.gotPrev = true → inOrder estimator.prev tv)
    (hfilter : holds estimator.filter) :
    holds (estimator.estimatePoseFromLeds arithmetic params leds tv).1.filter := by
  have hchecked := h.forceRansacIfKalmanNeedsReset leds hfilter
  have hprev := prev_forceRansacIfKalmanNeedsReset arithmetic estimator leds
  rw [PoseEstimator.estimatePoseFromLeds]
  dsimp only
  split
  next hkalman =>
    rw [PoseEstimator.canUseKalman, Bool.and_eq_true, Bool.and_eq_true, hprev.2] at hkalman
    exact h.correctLeds leds (hprev.1 ▸ htimes hkalman.1.2) hchecked
  next =>
    have hdirect := h.pnpransacEstimator params leds hchecked
    split <;> exact hdirect

theorem step (h : arithmetic.Keeps inOrder holds) {call : EstimatorCall σ μ}
    (hcall : call.Keeps holds)
    (htimes : estimator.gotPrev = true → ∀ tv ∈ call.time?, inOrder estimator.prev tv)
    (hfilter : holds estimator.filter) :
    holds ((poseEstimator arithmetic params start).step estimator call).1.filter := by
  cases call with
  | estimatePoseFromLeds leds tv =>
      exact h.estimatePoseFromLeds leds tv (fun hprev => htimes hprev tv rfl) hfilter
  | permitKalmanMode permitKalman => exact hfilter
  | setBeacons beaconsSize update => exact hcall _ hfilter
  | setCameraParameters update => exact hcall _ hfilter

/-- The time that is kept is the one before or that of the call. -/
theorem prev_step (estimator : PoseEstimator σ) (call : EstimatorCall σ μ) :
    let after := ((poseEstimator arithmetic params start).step estimator call).1
    after.prev = estimator.prev ∧ after.gotPrev = estimator.gotPrev ∨ after.prev ∈ call.time? := by
  cases call with
  | estimatePoseFromLeds leds tv =>
      have hchecked := prev_forceRansacIfKalmanNeedsReset arithmetic estimator leds
      have hdirect := prev_pnpransacEstimator arithmetic params
        (estimator.forceRansacIfKalmanNeedsReset arithmetic leds) leds
      simp only [poseEstimator, PoseEstimator.estimatePoseFromLeds]
      split
      · exact .inr rfl
      · split
        · exact .inr rfl
        · exact .inl ⟨hdirect.1.trans hchecked.1, hdirect.2.trans hchecked.2⟩
  | permitKalmanMode permitKalman => exact .inl ⟨rfl, rfl⟩
  | setBeacons beaconsSize update => exact .inl ⟨rfl, rfl⟩
  | setCameraParameters update => exact .inl ⟨rfl, rfl⟩

/-- A run keeps what its calls and computations keep, when its frames come in order. -/
theorem foldl (h : arithmetic.Keeps inOrder holds) {calls : List (EstimatorCall σ μ)}
    (hcalls : ∀ call ∈ calls, call.Keeps holds)
    (horder : (calls.filterMap EstimatorCall.time?).Pairwise inOrder)
    (hprev : estimator.gotPrev = true →
      ∀ tv ∈ calls.filterMap EstimatorCall.time?, inOrder estimator.prev tv)
    (hfilter : holds estimator.filter) :
    holds (calls.foldl (fun estimator call =>
      ((poseEstimator arithmetic params start).step estimator call).1) estimator).filter := by
  induction calls generalizing estimator with
  | nil => exact hfilter
  | cons call calls ih =>
      rw [List.forall_mem_cons] at hcalls
      have hlater : (calls.filterMap EstimatorCall.time?).Pairwise inOrder ∧
          ∀ tv ∈ call.time?, ∀ later ∈ calls.filterMap EstimatorCall.time?, inOrder tv later := by
        cases htime : call.time? with
        | none =>
            rw [List.filterMap_cons_none htime] at horder
            exact ⟨horder, fun _ htv => by cases htv⟩
        | some tv =>
            rw [List.filterMap_cons_some htime, List.pairwise_cons] at horder
            exact ⟨horder.2, fun _ htv later hlater => Option.some.inj htv ▸ horder.1 later hlater⟩
      have hnow (tv : TimeValue) (htv : tv ∈ call.time?) :
          tv ∈ (call :: calls).filterMap EstimatorCall.time? :=
        List.mem_filterMap.mpr ⟨call, List.mem_cons_self, htv⟩
      have hrest (tv : TimeValue) (htv : tv ∈ calls.filterMap EstimatorCall.time?) :
          tv ∈ (call :: calls).filterMap EstimatorCall.time? := by
        obtain ⟨other, hother, htv⟩ := List.mem_filterMap.mp htv
        exact List.mem_filterMap.mpr ⟨other, List.mem_cons_of_mem _ hother, htv⟩
      refine ih hcalls.2 hlater.1 (fun hgot later hmem => ?_)
        (h.step hcalls.1 (fun hgot tv htv => hprev hgot tv (hnow tv htv)) hfilter)
      rcases prev_step estimator call with ⟨hsame, hsameGot⟩ | htime
      · rw [hsame]
        exact hprev (hsameGot ▸ hgot) later (hrest later hmem)
      · exact hlater.2 _ htime later hmem

end FilterArithmetic.Keeps

end Keeps

/-! ## Runs of the filter -/

section Runs

variable {φ : Type w} {K : Type u} {O : Type v} [Field K] [LinearOrder K]

/-- The estimator after some calls from its construction on. -/
def trackingRun (math : FilterMath K O) (params : KalmanParams K) (config : ConfigParams)
    (camParams : CameraModel K) (toDouble : φ → K) (calls : List (TrackingCall φ K)) :
    PoseEstimator (PoseFilter K O) :=
  (poseEstimator (kalmanArithmetic math params) config (.init math camParams)).stateAfter
    (calls.map (TrackingCall.estimatorCall params toDouble))

/-- The time of a frame. -/
def TrackingCall.time? : TrackingCall φ K → Option TimeValue
  | .estimatePoseFromLeds _ tv => some tv
  | .permitKalmanMode _ | .setBeacons _ | .setCameraParameters _ => none

def TrackingCall.SetsBeacons : TrackingCall φ K → Prop
  | .setBeacons _ => True
  | .estimatePoseFromLeds _ _ | .permitKalmanMode _ | .setCameraParameters _ => False

variable {math : FilterMath K O} {params : KalmanParams K} {config : ConfigParams}
  {camParams : CameraModel K} {toDouble : φ → K} {calls before after : List (TrackingCall φ K)}

/-! ### Fixed beacons -/

/-- A beacon that is flagged as fixed, at a position that is known exactly. -/
structure PoseFilter.Pinned (id : ℕ) (location : Fin 3 → K) (filter : PoseFilter K O) : Prop where
  beacon : filter.arrays.beacons[id]? = some ⟨location, fun _ _ => 0⟩
  isFixed : filter.arrays.beaconFixed[id]? = some true

omit [LinearOrder K] in
/-- The correction of a beacon that is known exactly. -/
theorem correct_beacon_of_exact {solver : Solver K (Fin 2)} {quats : QuatArithmetic K O}
    {meas : Kalman.Measurement K (Fin 2) (StateIndex ⊕ Fin 3) (State K O × BeaconState K)}
    {state : State K O} {location : Fin 3 → K} :
    (Kalman.correct (augmentedState (stateType quats) beaconStateType) solver meas
      (state, ⟨location, fun _ _ => 0⟩)).2 = ⟨location, fun _ _ => 0⟩ := by
  have hzero : beaconStateType.errorCovariance (⟨location, fun _ _ => 0⟩ : BeaconState K) = 0 := rfl
  rw [correct_of_exact hzero]
  rfl

theorem keeps_pinned (id : ℕ) (location : Fin 3 → K) :
    (kalmanArithmetic math params).Keeps (fun _ _ => True) (PoseFilter.Pinned id location) where
  predict _ _ _ _ h := ⟨h.beacon, h.isFixed⟩
  correct filter prev tv led _ h := by
    show PoseFilter.Pinned id location (PoseFilter.correct math params filter prev tv led).2
    rw [PoseFilter.correct]
    split
    next beacon isFixed beaconVariance hbeacon hflag hvariance =>
      refine ⟨?_, h.isFixed⟩
      show (filter.arrays.beacons.set led.id.toNat _)[id]? = _
      by_cases hid : led.id.toNat = id
      · subst hid
        obtain rfl := Option.some.inj (hbeacon.symm.trans h.beacon)
        obtain rfl := Option.some.inj (hflag.symm.trans h.isFixed)
        rw [List.getElem?_set_self (List.getElem?_eq_some_iff.mp hbeacon).1]
        exact congrArg some correct_beacon_of_exact
      · rw [List.getElem?_set_ne hid]
        exact h.beacon
    next => exact h
  ransac filter leds h := by
    show PoseFilter.Pinned id location (PoseFilter.ransac math params filter leds).2
    rw [PoseFilter.ransac]
    split
    · exact h
    · exact ⟨h.beacon, h.isFixed⟩
  zeroState _ h := ⟨h.beacon, h.isFixed⟩

/-- Nothing but `SetBeacons` sets flags. -/
theorem keeps_unflagged : (kalmanArithmetic math params).Keeps (fun _ _ => True)
    fun filter => filter.arrays.beaconFixed = [] where
  predict _ _ _ _ h := h
  correct filter prev tv led _ h := by
    show (PoseFilter.correct math params filter prev tv led).2.arrays.beaconFixed = []
    rw [PoseFilter.correct]
    split <;> exact h
  ransac filter leds h := by
    show (PoseFilter.ransac math params filter leds).2.arrays.beaconFixed = []
    rw [PoseFilter.ransac]
    split <;> exact h
  zeroState _ h := h

/-- Where a call puts a beacon. -/
def placeOf (params : KalmanParams K) (toDouble : φ → K) (call : SetBeaconsCall φ K)
    (beacon : Fin 3 → φ) : Fin 3 → K := fun axis =>
  toDouble (beacon axis) -
    BeaconEstimator.updateBeaconCentroid (params.beaconParams toDouble) call.beacons axis

omit [LinearOrder K] in
theorem arrays_setBeacons {filter : PoseFilter K O} {call : SetBeaconsCall φ K} :
    (filter.setBeacons params toDouble call).arrays.beacons =
        BeaconEstimator.beaconStates (params.beaconParams toDouble) call ∧
      (filter.setBeacons params toDouble call).arrays.beaconFixed =
        filter.arrays.beaconFixed ++ BeaconEstimator.fixedFlags call 0 call.beacons.length := by
  rw [PoseFilter.setBeacons, BeaconEstimator.setBeacons_eq]
  split <;> exact ⟨rfl, rfl⟩

omit [LinearOrder K] in
theorem pinned_setBeacons {filter : PoseFilter K O} (hflags : filter.arrays.beaconFixed = [])
    {call : SetBeaconsCall φ K} {bNum : ℕ} {beacon : Fin 3 → φ}
    (hbeacon : call.beacons[bNum]? = some beacon)
    (hfixed : call.autocalibrationFixedPredicate (toInt (bNum + 1)) = true) :
    (filter.setBeacons params toDouble call).Pinned bNum (placeOf params toDouble call beacon) := by
  have hlt : bNum < call.beacons.length := (List.getElem?_eq_some_iff.mp hbeacon).1
  have hflag : (BeaconEstimator.fixedFlags call 0 call.beacons.length)[bNum]? = some true := by
    rw [BeaconEstimator.fixedFlags, List.getElem?_map, List.getElem?_range' hlt, Option.map_some,
      Nat.one_mul, Nat.zero_add, Nat.add_comm 1 bNum, hfixed]
  have hstate : (BeaconEstimator.beaconStates (params.beaconParams toDouble) call)[bNum]? =
      some ⟨placeOf params toDouble call beacon, fun _ _ => 0⟩ := by
    rw [BeaconEstimator.beaconStates, List.getElem?_zipWith, hbeacon, hflag]
    simp only [BeaconEstimator.beaconState, KalmanParams.beaconParams, Nat.cast_zero, if_true]
    rfl
  have harrays : (filter.setBeacons params toDouble call).arrays.beacons = _ ∧
      (filter.setBeacons params toDouble call).arrays.beaconFixed = _ := arrays_setBeacons
  constructor
  case beacon => rw [harrays.1, hstate]
  case isFixed => rw [harrays.2, hflags, List.nil_append, hflag]

/-- Calls that set no beacons keep what the computations keep. -/
theorem keeps_of_not_setsBeacons {holds : PoseFilter K O → Prop} {start : PoseFilter K O}
    (hkeeps : (kalmanArithmetic math params).Keeps (fun _ _ => True) holds)
    (hcamera : ∀ filter camParams, holds filter → holds { filter with camParams })
    (hcalls : ∀ call ∈ calls, ¬call.SetsBeacons) {estimator : PoseEstimator (PoseFilter K O)}
    (hfilter : holds estimator.filter) :
    holds ((calls.map (TrackingCall.estimatorCall params toDouble)).foldl (fun estimator call =>
      ((poseEstimator (kalmanArithmetic math params) config start).step estimator call).1)
        estimator).filter := by
  refine hkeeps.foldl (fun call hmem => ?_) (List.pairwise_of_forall fun _ _ => trivial)
    (fun _ _ _ => trivial) hfilter
  obtain ⟨call, hcall, rfl⟩ := List.mem_map.mp hmem
  cases call with
  | setBeacons call => exact absurd trivial (hcalls _ hcall)
  | setCameraParameters camParams => exact fun filter => hcamera filter camParams
  | estimatePoseFromLeds leds tv => exact trivial
  | permitKalmanMode permitKalman => exact trivial

/-- A beacon that is fixed stays where it was put, and known exactly. -/
theorem fixed_beacon_stays (hbefore : ∀ call ∈ before, ¬call.SetsBeacons)
    (hafter : ∀ call ∈ after, ¬call.SetsBeacons) {call : SetBeaconsCall φ K} {bNum : ℕ}
    {beacon : Fin 3 → φ} (hbeacon : call.beacons[bNum]? = some beacon)
    (hfixed : call.autocalibrationFixedPredicate (toInt (bNum + 1)) = true) :
    (trackingRun math params config camParams toDouble
      (before ++ .setBeacons call :: after)).filter.arrays.beacons[bNum]? =
        some ⟨placeOf params toDouble call beacon, fun _ _ => 0⟩ := by
  have hflags : (trackingRun math params config camParams toDouble
      before).filter.arrays.beaconFixed = [] :=
    keeps_of_not_setsBeacons keeps_unflagged (fun _ _ h => h) hbefore rfl
  have hset : PoseFilter.Pinned bNum (placeOf params toDouble call beacon)
      ((poseEstimator (kalmanArithmetic math params) config (.init math camParams)).step
        (trackingRun math params config camParams toDouble before)
        (TrackingCall.estimatorCall params toDouble (.setBeacons call))).1.filter :=
    pinned_setBeacons hflags hbeacon hfixed
  rw [trackingRun, List.map_append, List.map_cons, ReactiveSystem.stateAfter, List.foldl_append,
    List.foldl_cons]
  exact (keeps_of_not_setsBeacons (keeps_pinned bNum _)
    (fun _ _ h => ⟨h.beacon, h.isFixed⟩) hafter hset).beacon

end Runs

/-! ### Covariances -/

section Covariances

variable {φ : Type w} {O : Type v} {math : FilterMath ℝ O} {params : KalmanParams ℝ}
  {config : ConfigParams} {camParams : CameraModel ℝ} {toDouble : φ → ℝ}
  {calls : List (TrackingCall φ ℝ)}

/-- One frame is not before another, both times are in the normal form, and the time between
them fits. -/
def InTimeOrder (prev tv : TimeValue) : Prop :=
  prev.Normal ∧ tv.Normal ∧ prev.total ≤ tv.total ∧ (tv.difference prev).isSome = true

theorem durationSeconds_nonneg {prev tv : TimeValue} (h : InTimeOrder prev tv) :
    (0 : ℝ) ≤ tv.durationSeconds prev := by
  have htotal : 0 ≤ tv.total - prev.total := Int.sub_nonneg_of_le h.2.2.1
  rw [TimeValue.durationSeconds, TimeValue.difference_eq h.2.1 h.1]
  split
  next A hA =>
    split at hA
    · obtain rfl := Option.some.inj hA
      have hseconds : (0 : ℝ) ≤ (TimeValue.ofTotal (tv.total - prev.total)).seconds :=
        Int.cast_nonneg (Int.tdiv_nonneg htotal (by decide))
      have hmicroseconds : (0 : ℝ) ≤ (TimeValue.ofTotal (tv.total - prev.total)).microseconds :=
        Int.cast_nonneg (Int.tmod_nonneg _ htotal)
      have hunit : (0 : ℝ) ≤ OSVR_USEC_PER_SEC := Int.cast_nonneg (by decide)
      exact add_nonneg hseconds (div_nonneg hmicroseconds hunit)
    · cases hA
  next => exact le_refl _

/-- The parameters are sensible: no noise is negative. -/
structure KalmanParams.Sensible (params : KalmanParams ℝ) : Prop where
  processNoise : ∀ index, 0 ≤ params.processNoiseAutocorrelation index
  beaconNoise : 0 ≤ params.beaconProcessNoise

/-- The matrices that should be covariances are. -/
structure PoseFilter.Covariances (filter : PoseFilter ℝ O) : Prop where
  state : filter.state.errorCovariance.PosSemidef
  beacons : ∀ beacon ∈ filter.arrays.beacons, (beaconStateType.errorCovariance beacon).PosSemidef
  noise : ∀ index, 0 ≤ filter.model.constantVelModel.mu index
  variance : 0 < filter.measurementVariance

theorem posSemidef_predictBeacon {noise dt : ℝ} {beacon : BeaconState ℝ} (hnoise : 0 ≤ noise)
    (hdt : 0 ≤ dt) (hbeacon : (beaconStateType.errorCovariance beacon).PosSemidef) :
    (beaconStateType.errorCovariance (predictBeacon noise beacon dt)).PosSemidef := by
  rw [predictBeacon, ConstantProcess.predictState, lawful_beaconStateType.covariance_setCovariance]
  exact hbeacon.add (.smul (.diagonal fun _ => hnoise) hdt)

theorem ImagePointMeasurement.posDef_getCovariance {meas : ImagePointMeasurement ℝ}
    (hvariance : 0 < meas.variance) : meas.getCovariance.PosDef := .diagonal fun _ => hvariance

theorem ImagePointMeasurement.variance_setVariance_pos {meas : ImagePointMeasurement ℝ} (s : ℝ)
    (hvariance : 0 < meas.variance) : 0 < (meas.setVariance s).variance := by
  rw [setVariance]
  split
  · assumption
  · exact hvariance

theorem covariances_correctWith (hsolver : math.solver.Solves) (hsensible : params.Sensible)
    {filter : PoseFilter ℝ O} (hfilter : filter.Covariances) {prev tv : TimeValue}
    (htimes : InTimeOrder prev tv) {led : Led (BlobReading ℝ)} {beacon : BeaconState ℝ}
    (hbeacon : (beaconStateType.errorCovariance beacon).PosSemidef) (isFixed : Bool)
    (beaconVariance : ℝ) :
    (filter.correctWith math params prev tv led beacon isFixed beaconVariance).2.Covariances := by
  have hpredicted : (beaconStateType.errorCovariance (if isFixed then beacon else
      predictBeacon params.beaconProcessNoise beacon (tv.durationSeconds prev))).PosSemidef := by
    split
    · exact hbeacon
    · exact posSemidef_predictBeacon hsensible.beaconNoise (durationSeconds_nonneg htimes) hbeacon
  have hvariance {meas : ImagePointMeasurement ℝ}
      (hmeas : meas.variance = filter.measurementVariance)
      (s : ℝ) : 0 < (meas.setVariance s).variance :=
    ImagePointMeasurement.variance_setVariance_pos s (hmeas ▸ hfilter.variance)
  have hcorrected {meas : Kalman.Measurement ℝ (Fin 2) (StateIndex ⊕ Fin 3)
      (State ℝ O × BeaconState ℝ)} {predicted : BeaconState ℝ}
      (hR : (meas.getCovariance (filter.state, predicted)).PosDef)
      (hpredicted : (beaconStateType.errorCovariance predicted).PosSemidef) :=
    posSemidef_corrected (lawful_stateType math.quats) lawful_beaconStateType hsolver
      hfilter.state hpredicted hR
  constructor
  case state =>
    exact (hcorrected (ImagePointMeasurement.posDef_getCovariance (hvariance rfl _)) hpredicted).1
  case beacons =>
    intro other hother
    rcases List.mem_or_eq_of_mem_set hother with hold | rfl
    · exact hfilter.beacons other hold
    · exact (hcorrected (ImagePointMeasurement.posDef_getCovariance (hvariance rfl _)) hpredicted).2
  case noise => exact hfilter.noise
  case variance => exact hvariance rfl _

theorem keeps_covariances (hsolver : math.solver.Solves) (hsensible : params.Sensible) :
    (kalmanArithmetic math params).Keeps InTimeOrder PoseFilter.Covariances where
  predict filter prev tv htimes h := by
    constructor
    case state =>
      exact PoseProcess.posSemidef_predictState h.state
        (PoseConstantVelocityProcessModel.posSemidef_getSampledProcessNoiseCovariance h.noise
          (durationSeconds_nonneg htimes))
    case beacons => exact h.beacons
    case noise => exact h.noise
    case variance => exact two_pos
  correct filter prev tv led htimes h := by
    show (PoseFilter.correct math params filter prev tv led).2.Covariances
    rw [PoseFilter.correct]
    split
    next beacon isFixed beaconVariance hbeacon _ _ =>
      exact covariances_correctWith hsolver hsensible h htimes
        (h.beacons beacon (List.mem_of_getElem? hbeacon)) isFixed beaconVariance
    next => exact h
  ransac filter leds h := by
    show (PoseFilter.ransac math params filter leds).2.Covariances
    rw [PoseFilter.ransac]
    split
    · exact h
    · constructor
      case state =>
        refine .diagonal fun index => ?_
        cases index with
        | inl index => exact le_refl _
        | inr index => exact Nat.ofNat_nonneg 10
      case beacons => exact h.beacons
      case noise => exact hsensible.processNoise
      case variance => exact h.variance
  zeroState _ h := ⟨h.state, h.beacons, h.noise, h.variance⟩

theorem covariances_init : (PoseFilter.init math camParams).Covariances where
  state := .one
  beacons _ hmem := absurd hmem List.not_mem_nil
  noise index := by
    cases index with
    | inl index => exact div_nonneg zero_le_one (Nat.ofNat_nonneg 100)
    | inr index => exact div_nonneg zero_le_one (Nat.ofNat_nonneg 10)
  variance := two_pos

/-- The error that the beacons of a call start with. -/
theorem covariances_setBeacons {filter : PoseFilter ℝ O} (h : filter.Covariances)
    {call : SetBeaconsCall φ ℝ}
    (herror : 0 ≤ params.initialBeaconError * call.beaconAutocalibErrorScale) :
    (filter.setBeacons params toDouble call).Covariances := by
  constructor
  case state => exact h.state
  case beacons =>
    intro beacon hmem
    rw [arrays_setBeacons.1, BeaconEstimator.beaconStates,
      ← List.map_uncurry_zip_eq_zipWith] at hmem
    obtain ⟨⟨place, isFixed⟩, -, rfl⟩ := List.mem_map.mp hmem
    cases isFixed with
    | true =>
        have hzero : beaconStateType.errorCovariance (BeaconEstimator.beaconState
            (params.beaconParams toDouble) call (BeaconEstimator.updateBeaconCentroid
              (params.beaconParams toDouble) call.beacons) place true) = 0 := by
          ext row column
          exact Nat.cast_zero
        exact hzero ▸ .zero
    | false =>
        have hdiagonal : beaconStateType.errorCovariance (BeaconEstimator.beaconState
            (params.beaconParams toDouble) call (BeaconEstimator.updateBeaconCentroid
              (params.beaconParams toDouble) call.beacons) place false) =
            diagonal fun _ => params.initialBeaconError * call.beaconAutocalibErrorScale := by
          ext row column
          exact if_congr Iff.rfl rfl Nat.cast_zero
        exact hdiagonal ▸ .diagonal fun _ => herror
  case noise => exact h.noise
  case variance => exact h.variance

/-- Whatever frames come in their order, the error covariances are covariances. -/
theorem covariances_trackingRun (hsolver : math.solver.Solves) (hsensible : params.Sensible)
    (herror : ∀ call, .setBeacons call ∈ calls →
      0 ≤ params.initialBeaconError * call.beaconAutocalibErrorScale)
    (horder : (calls.filterMap TrackingCall.time?).Pairwise InTimeOrder) :
    let filter := (trackingRun math params config camParams toDouble calls).filter
    filter.state.errorCovariance.PosSemidef ∧ ∀ beacon ∈ filter.arrays.beacons,
      (beaconStateType.errorCovariance beacon).PosSemidef := by
  intro filter
  have htimes : (calls.map (TrackingCall.estimatorCall params toDouble)).filterMap
      (@EstimatorCall.time? (PoseFilter ℝ O) _) = calls.filterMap TrackingCall.time? := by
    rw [List.filterMap_map]
    refine List.filterMap_congr fun call _ => ?_
    cases call <;> rfl
  have hcovariances : filter.Covariances := by
    refine (keeps_covariances hsolver hsensible).foldl (fun call hmem => ?_) (htimes ▸ horder)
      (fun hgot => Bool.noConfusion hgot) covariances_init
    obtain ⟨call, hcall, rfl⟩ := List.mem_map.mp hmem
    cases call with
    | setBeacons call => exact fun _ h => covariances_setBeacons h (herror call hcall)
    | setCameraParameters camParams => exact fun _ h => ⟨h.state, h.beacons, h.noise, h.variance⟩
    | estimatePoseFromLeds leds tv => exact trivial
    | permitKalmanMode permitKalman => exact trivial
  exact ⟨hcovariances.state, hcovariances.beacons⟩

end Covariances

/-! ## Four beacons before the camera -/

/-- Four beacons in a square, of which two are fixed. -/
def squareBeacons : SetBeaconsCall ℤ ℝ where
  beacons := [![10, 10, 0], ![-10, 10, 0], ![-10, -10, 0], ![10, -10, 0]]
  emissionDirection := List.replicate 4 fun axis => if axis = zAxis then -1 else 0
  variance := [(3 : ℕ)]
  autocalibrationFixedPredicate id := decide (id ≤ 2)
  beaconAutocalibErrorScale := 1

/-- A blob where the beacon of a number is seen. -/
def squareLed (id x y : ℕ) : Led (BlobReading ℝ) where
  id := id
  lastBright := false
  wasUsedLastFrame := false
  measurement := ⟨![x, y], 1, 0⟩

def squareLeds : List (Led (BlobReading ℝ)) :=
  [squareLed 0 327 247, squareLed 1 313 247, squareLed 2 313 233, squareLed 3 327 233]

def squareCamera : CameraModel ℝ := ⟨![(320 : ℕ), (240 : ℕ)], (700 : ℕ)⟩

/-- One meter before the camera; nothing is turned, and frames are a second apart. -/
noncomputable def squareMath : FilterMath ℝ Unit where
  quats := ⟨(), fun _ _ => (), id, fun _ => (), fun _ => 1⟩
  pow base _ := base
  solver S b := S⁻¹ *ᵥ b
  acceptedPose _ _ := some (fun axis => if axis = zAxis then (1000 : ℕ) else 0, ())

noncomputable def squareParams : KalmanParams ℝ where
  maxResidual := (75 : ℕ)
  initialBeaconError := ((1000 : ℕ) : ℝ)⁻¹
  processNoiseAutocorrelation := Sum.elim (fun _ => (300 : ℕ)) fun _ => 1
  linearVelocityDecayCoefficient := (9 : ℕ) * ((10 : ℕ) : ℝ)⁻¹
  angularVelocityDecayCoefficient := (9 : ℕ) * ((10 : ℕ) : ℝ)⁻¹
  measurementVarianceScaleFactor := 1
  offsetToCentroid := true
  manualBeaconOffset := 0
  beaconProcessNoise := ((10000000 : ℕ) : ℝ)⁻¹
  highResidualVariancePenalty := (10 : ℕ)
  maxZComponent := -((3 : ℕ) * ((10 : ℕ) : ℝ)⁻¹)

/-- A frame for RANSAC, and two for the filter. -/
def squareFrames : List (TrackingCall ℤ ℝ) :=
  [.estimatePoseFromLeds squareLeds ⟨1, 0⟩, .estimatePoseFromLeds squareLeds ⟨2, 0⟩,
    .estimatePoseFromLeds squareLeds ⟨3, 0⟩]

noncomputable def squareRun : PoseEstimator (PoseFilter ℝ Unit) :=
  trackingRun squareMath squareParams ⟨4, 0, false⟩ squareCamera Int.cast
    (.setBeacons squareBeacons :: squareFrames)

theorem covariances_squareRun : squareRun.filter.state.errorCovariance.PosSemidef ∧
    ∀ beacon ∈ squareRun.filter.arrays.beacons,
      (beaconStateType.errorCovariance beacon).PosSemidef := by
  have hsolver : squareMath.solver.Solves := by
    intro S hS b
    show S *ᵥ (S⁻¹ *ᵥ b) = b
    rw [mulVec_mulVec, mul_nonsing_inv _ ((isUnit_iff_isUnit_det S).mp hS.isUnit), one_mulVec]
  have hsensible : squareParams.Sensible := by
    constructor
    case processNoise =>
      intro index
      cases index with
      | inl index => exact Nat.cast_nonneg 300
      | inr index => exact zero_le_one
    case beaconNoise => exact inv_nonneg.mpr (Nat.cast_nonneg 10000000)
  refine covariances_trackingRun hsolver hsensible (fun call hcall => ?_) ?_
  · obtain rfl : call = squareBeacons := by simpa [squareFrames] using hcall
    exact mul_nonneg (inv_nonneg.mpr (Nat.cast_nonneg 1000)) zero_le_one
  · have hnormal (seconds : ℤ) : (TimeValue.mk seconds 0).Normal :=
      ⟨show |(0 : ℤ)| < 1000000 by decide, fun _ => le_refl _, fun _ => le_refl _⟩
    have htimes : ([.mk 1 0, .mk 2 0, .mk 3 0] : List TimeValue).Pairwise InTimeOrder := by
      simp only [List.pairwise_cons, List.mem_cons, List.not_mem_nil, or_false, forall_eq_or_imp,
        forall_eq, InTimeOrder, hnormal, true_and, List.Pairwise.nil, and_true, false_implies,
        implies_true]
      decide
    exact htimes

theorem fixed_beacon_stays_squareRun :
    squareRun.filter.arrays.beacons[0]? =
      some ⟨placeOf squareParams Int.cast squareBeacons ![10, 10, 0], fun _ _ => 0⟩ := by
  refine @fixed_beacon_stays ℤ ℝ Unit _ _ squareMath squareParams ⟨4, 0, false⟩ squareCamera
    Int.cast [] squareFrames (fun _ hmem => by cases hmem) (fun call hmem => ?_)
      squareBeacons 0 _ rfl rfl
  simp only [squareFrames, List.mem_cons, List.not_mem_nil, or_false] at hmem
  rcases hmem with rfl | rfl | rfl <;> exact not_false

end OSVR.VbTracker
