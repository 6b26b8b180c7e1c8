/-
# The health of the pose filter

A pose is estimated from the beacons in a camera frame, directly or with a Kalman
filter. Three counters say for how long the filter has been in trouble, and the
frame after too many such frames is estimated directly again. What the filter and
the direct method compute is left open; the beacons that are used, the counters and
the choice of the method are as in the source.
-/

import OsvrCore.Math.Reactive
import OsvrCore.Util.ReportTypes

set_option autoImplicit false

namespace OSVR.VbTracker

open Math Util

universe u v

variable {σ : Type u} {μ : Type v}

/-- A blob with its latest measurement; negative indices are not identified. -/
structure Led (μ : Type v) where
  id : ℤ
  lastBright : Bool
  wasUsedLastFrame : Bool
  measurement : μ

namespace Led

def identified (led : Led μ) : Bool := decide (0 ≤ led.id)

/-- Identified as one of the beacons. -/
def inBounds (beaconsSize : ℕ) (led : Led μ) : Bool :=
  led.identified && decide (led.id.toNat < beaconsSize)

def markAsUsed (led : Led μ) : Led μ := { led with wasUsedLastFrame := true }

def markMisidentified (led : Led μ) : Led μ := { led with id := -1 }

end Led

/-- The computations on the state of the filter, of the beacons and of the camera. -/
structure FilterArithmetic (σ : Type u) (μ : Type v) where
  /-- The prediction over the time between two frames. -/
  predict : σ → TimeValue → TimeValue → σ
  /-- The z component of a beacon's emission is positive. -/
  pointsAway : σ → ℕ → Bool
  /-- The z component of a beacon's emission is over the maximum. -/
  tooAskew : σ → ℕ → Bool
  /-- The correction by a measurement, and whether its residual was over the maximum. -/
  correct : σ → TimeValue → TimeValue → Led μ → Bool × σ
  /-- The pose by RANSAC, and whether it is good enough. -/
  ransac : σ → List (Led μ) → Bool × σ
  zeroState : σ → σ

/-- The parameters that decide which beacons are used. -/
structure ConfigParams where
  requiredInliers : ℕ
  permittedOutliers : ℕ
  shouldSkipBrightLeds : Bool

/-- Members of `BeaconBasedPoseEstimator`. -/
structure PoseEstimator (σ : Type u) where
  beaconsSize : ℕ
  filter : σ
  prev : TimeValue
  gotPrev : Bool
  permitKalman : Bool
  gotPose : Bool
  gotMeasurement : Bool
  framesInProbation : ℕ
  framesWithoutUtilizedMeasurements : ℕ
  framesWithoutIdentifiedBlobs : ℕ

/-- What one frame in Kalman mode has seen: the beacons in bounds, whether one was used, and the
bad and good residuals. -/
structure KalmanTally where
  inBoundsID : ℕ
  used : Bool
  numBad : ℕ
  numGood : ℕ
  deriving DecidableEq

/-- How a frame was estimated: after a forced reset or not, with the filter or not. -/
structure FrameReport (μ : Type v) where
  result : Bool
  didReset : Bool
  kalman : Option KalmanTally
  leds : List (Led μ)

/-- The state of the loop over the beacons. -/
structure CorrectionLoop (σ : Type u) (μ : Type v) where
  filter : σ
  gotMeasurement : Bool
  numBad : ℕ
  numGood : ℕ
  leds : List (Led μ)

namespace PoseEstimator

def MAX_PROBATION_FRAMES : ℕ := 10

def MAX_FRAMES_WITHOUT_MEASUREMENTS : ℕ := 50

def MAX_FRAMES_WITHOUT_ID_BLOBS : ℕ := 10

def DIM_BEACON_CUTOFF_TO_SKIP_BRIGHTS : ℕ := 4

variable (arithmetic : FilterArithmetic σ μ) (params : ConfigParams)

/-- The constructor. -/
def init (filter : σ) : PoseEstimator σ where
  beaconsSize := 0
  filter := filter
  prev := ⟨0, 0⟩
  gotPrev := false
  permitKalman := true
  gotPose := false
  gotMeasurement := false
  framesInProbation := 0
  framesWithoutUtilizedMeasurements := 0
  framesWithoutIdentifiedBlobs := 0

/-! ## One frame in Kalman mode -/

/-- Bright beacons are skipped when there are enough others. -/
def skipBright (beaconsSize : ℕ) (leds : List (Led μ)) : Bool :=
  decide (DIM_BEACON_CUTOFF_TO_SKIP_BRIGHTS < leds.countP (Led.inBounds beaconsSize) -
    leds.countP fun led => led.inBounds beaconsSize && led.lastBright) &&
      params.shouldSkipBrightLeds

/-- The body of the loop; the emission is rotated by the state before the corrections. -/
def correctLed (estimator : PoseEstimator σ) (tv : TimeValue) (predicted : σ) (skip : Bool)
    (loop : CorrectionLoop σ μ) (led : Led μ) : CorrectionLoop σ μ :=
  if !led.inBounds estimator.beaconsSize then { loop with leds := loop.leds ++ [led] }
  else if skip && led.lastBright then { loop with leds := loop.leds ++ [led] }
  else if arithmetic.pointsAway predicted led.id.toNat then
    { loop with numBad := loop.numBad + 1, leds := loop.leds ++ [led.markMisidentified] }
  else if arithmetic.tooAskew predicted led.id.toNat then { loop with leds := loop.leds ++ [led] }
  else
    let corrected := arithmetic.correct loop.filter estimator.prev tv led
    { filter := corrected.2
      gotMeasurement := true
      numBad := if corrected.1 then loop.numBad + 1 else loop.numBad
      numGood := if corrected.1 then loop.numGood else loop.numGood + 1
      leds := loop.leds ++ [led.markAsUsed] }

/-- A beacon that is used for a correction. -/
def usesLed (beaconsSize : ℕ) (predicted : σ) (skip : Bool) (led : Led μ) : Bool :=
  led.inBounds beaconsSize && !(skip && led.lastBright) &&
    !arithmetic.pointsAway predicted led.id.toNat && !arithmetic.tooAskew predicted led.id.toNat

def correctLeds (estimator : PoseEstimator σ) (tv : TimeValue) (leds : List (Led μ)) :
    CorrectionLoop σ μ :=
  let predicted := arithmetic.predict estimator.filter estimator.prev tv
  leds.foldl (estimator.correctLed arithmetic tv predicted
    (skipBright params estimator.beaconsSize leds)) ⟨predicted, estimator.gotMeasurement, 0, 0, []⟩

/-- Whether some beacon of the frame is used for a correction. -/
def usesSome (estimator : PoseEstimator σ) (tv : TimeValue) (leds : List (Led μ)) : Bool :=
  leds.any (usesLed arithmetic estimator.beaconsSize
    (arithmetic.predict estimator.filter estimator.prev tv)
    (skipBright params estimator.beaconsSize leds))

/-- The residual test, which is harder to pass in probation. -/
def incrementProbation (framesInProbation numBad numGood : ℕ) : Bool :=
  if framesInProbation = 0 then decide (numBad * 3 > numGood * 2) else decide (numBad * 2 > numGood)

def kalmanTally (estimator : PoseEstimator σ) (tv : TimeValue) (leds : List (Led μ)) :
    KalmanTally :=
  let loop := estimator.correctLeds arithmetic params tv leds
  { inBoundsID := leds.countP (Led.inBounds estimator.beaconsSize)
    used := estimator.usesSome arithmetic params tv leds
    numBad := loop.numBad
    numGood := loop.numGood }

/-- `m_kalmanAutocalibEstimator`, which always has a result. -/
def kalmanAutocalibEstimator (estimator : PoseEstimator σ) (tv : TimeValue) (leds : List (Led μ)) :
    PoseEstimator σ :=
  let inBoundsID := leds.countP (Led.inBounds estimator.beaconsSize)
  let loop := estimator.correctLeds arithmetic params tv leds
  { estimator with
    filter := loop.filter
    gotMeasurement := loop.gotMeasurement
    framesWithoutIdentifiedBlobs :=
      if inBoundsID = 0 then estimator.framesWithoutIdentifiedBlobs + 1 else 0
    -- Outside of probation the counter is zero already.
    framesInProbation :=
      if incrementProbation estimator.framesInProbation loop.numBad loop.numGood then
        estimator.framesInProbation + 1
      else 0
    framesWithoutUtilizedMeasurements :=
      if loop.gotMeasurement then 0
      else if inBoundsID > 0 then estimator.framesWithoutUtilizedMeasurements + 1
      else estimator.framesWithoutUtilizedMeasurements }

/-! ## One frame -/

/-- `m_pnpransacEstimator`. -/
def pnpransacEstimator (estimator : PoseEstimator σ) (leds : List (Led μ)) :
    PoseEstimator σ × Bool :=
  let points := leds.filter (Led.inBounds estimator.beaconsSize)
  if points.length < params.permittedOutliers + params.requiredInliers then (estimator, false)
  else
    let pose := arithmetic.ransac estimator.filter points
    if pose.1 then ({ estimator with filter := pose.2, gotMeasurement := true }, true)
    else ({ estimator with filter := pose.2 }, false)

def needsReset (estimator : PoseEstimator σ) (leds : List (Led μ)) : Bool :=
  decide (estimator.framesInProbation > MAX_PROBATION_FRAMES) ||
  decide (estimator.framesWithoutUtilizedMeasurements > MAX_FRAMES_WITHOUT_MEASUREMENTS) ||
  (decide (estimator.framesWithoutIdentifiedBlobs > MAX_FRAMES_WITHOUT_ID_BLOBS) &&
    leds.any (Led.inBounds estimator.beaconsSize))

/-- `m_forceRansacIfKalmanNeedsReset`. -/
def forceRansacIfKalmanNeedsReset (estimator : PoseEstimator σ) (leds : List (Led μ)) :
    PoseEstimator σ :=
  if estimator.needsReset leds then
    { estimator with
      framesInProbation := 0
      framesWithoutUtilizedMeasurements := 0
      framesWithoutIdentifiedBlobs := 0
      filter := arithmetic.zeroState estimator.filter
      gotPose := false }
  else estimator

/-- The filter has a pose and a time to go on from. -/
def canUseKalman (estimator : PoseEstimator σ) : Bool :=
  estimator.gotPose && estimator.gotPrev && estimator.permitKalman

/-- `EstimatePoseFromLeds`; the pose itself is read off the filter. -/
def estimatePoseFromLeds (estimator : PoseEstimator σ) (leds : List (Led μ)) (tv : TimeValue) :
    PoseEstimator σ × FrameReport μ :=
  let didReset := estimator.needsReset leds
  let checked := estimator.forceRansacIfKalmanNeedsReset arithmetic leds
  if checked.canUseKalman then
    ({ checked.kalmanAutocalibEstimator arithmetic params tv leds with
        prev := tv, gotPrev := true, gotPose := true },
      ⟨true, didReset, some (checked.kalmanTally arithmetic params tv leds),
        (checked.correctLeds arithmetic params tv leds).leds⟩)
  else
    let direct := checked.pnpransacEstimator arithmetic params leds
    if direct.2 then
      ({ direct.1 with prev := tv, gotPrev := true, gotPose := true }, ⟨true, didReset, none, leds⟩)
    else ({ direct.1 with gotPose := false }, ⟨false, didReset, none, leds⟩)

end PoseEstimator

/-- The calls on an estimator. New beacons and a new camera change the data that the
computations use. -/
inductive EstimatorCall (σ : Type u) (μ : Type v)
  | estimatePoseFromLeds (leds : List (Led μ)) (tv : TimeValue)
  | permitKalmanMode (permitKalman : Bool)
  | setBeacons (beaconsSize : ℕ) (update : σ → σ)
  | setCameraParameters (update : σ → σ)

/-- One estimator; calls that are not frames have no report. -/
def poseEstimator (arithmetic : FilterArithmetic σ μ) (params : ConfigParams) (filter : σ) :
    ReactiveSystem (PoseEstimator σ) (EstimatorCall σ μ) (Option (FrameReport μ)) where
  init := .init filter
  step estimator
    | .estimatePoseFromLeds leds tv =>
        let frame := estimator.estimatePoseFromLeds arithmetic params leds tv
        (frame.1, some frame.2)
    | .permitKalmanMode permitKalman => ({ estimator with permitKalman }, none)
    | .setBeacons beaconsSize update =>
        ({ estimator with gotPose := false, beaconsSize, filter := update estimator.filter }, none)
    | .setCameraParameters update =>
        ({ estimator with gotPose := false, filter := update estimator.filter }, none)

/-! ## What the counters are for -/

namespace KalmanHealth

/-- The Kalman frames since the last forced reset, the latest first. -/
def logFrame (frames : List KalmanTally) : Option (FrameReport μ) → List KalmanTally
  | none => frames
  | some report => report.kalman.toList ++ if report.didReset then [] else frames

def kalmanFrames (reports : List (Option (FrameReport μ))) : List KalmanTally :=
  reports.foldl logFrame []

/-- Latest frames with beacons in bounds of which none was used. -/
def framesWithoutUtilizedMeasurements (frames : List KalmanTally) : ℕ :=
  ((frames.filter fun frame => decide (0 < frame.inBoundsID)).takeWhile
    fun frame => !frame.used).length

/-- Latest frames without a beacon in bounds. -/
def framesWithoutIdentifiedBlobs (frames : List KalmanTally) : ℕ :=
  (frames.takeWhile fun frame => decide (frame.inBoundsID = 0)).length

/-- The latest frame has failed the test for its position in a run of such frames: the first of a
run has more than 2 bad residuals for 3 good ones, any other more than one for two. -/
def failedTest : List KalmanTally → Bool
  | [] => false
  | frame :: earlier =>
      if failedTest earlier then decide (frame.numGood < frame.numBad * 2)
      else decide (frame.numGood * 2 < frame.numBad * 3)

/-- Latest frames that have failed the test. -/
def framesInProbation : List KalmanTally → ℕ
  | [] => 0
  | frame :: earlier =>
      if failedTest (frame :: earlier) then framesInProbation earlier + 1 else 0

end KalmanHealth

section Health

open KalmanHealth

variable {arithmetic : FilterArithmetic σ μ} {params : ConfigParams} {filter : σ}
  {estimator : PoseEstimator σ} {frames : List KalmanTally} {calls : List (EstimatorCall σ μ)}
  {call : EstimatorCall σ μ}

variable (arithmetic params filter) in
/-- The watchdog does its work at one call: after a Kalman frame the counters are the numbers of
frames that they are for, and too many of those frames have the next one estimated directly. -/
def HealthWatched (before : List (EstimatorCall σ μ)) (call : EstimatorCall σ μ) : Prop :=
  let S := poseEstimator arithmetic params filter
  let frames := kalmanFrames (S.answers before)
  let after := S.stateAfter (before ++ [call])
  let framesAfter := kalmanFrames (S.answers (before ++ [call]))
  ∀ report ∈ S.answer before call,
    (report.kalman.isSome →
      after.framesWithoutUtilizedMeasurements = framesWithoutUtilizedMeasurements framesAfter ∧
      after.framesInProbation = framesInProbation framesAfter ∧
      after.framesWithoutIdentifiedBlobs = framesWithoutIdentifiedBlobs framesAfter) ∧
    (framesWithoutUtilizedMeasurements frames > PoseEstimator.MAX_FRAMES_WITHOUT_MEASUREMENTS ∨
      framesInProbation frames > PoseEstimator.MAX_PROBATION_FRAMES → report.kalman = none)

namespace PoseEstimator

variable (arithmetic params) in
/-- A frame that is estimated in Kalman mode, with a beacon in bounds, uses some beacon. -/
def UsesSomeIfAny (estimator : PoseEstimator σ) : EstimatorCall σ μ → Prop
  | .estimatePoseFromLeds leds tv =>
      let checked := estimator.forceRansacIfKalmanNeedsReset arithmetic leds
      checked.canUseKalman → (∃ led ∈ leds, led.inBounds checked.beaconsSize) →
        checked.usesSome arithmetic params tv leds
  | _ => True

/-! ## The loop over the beacons -/

theorem gotMeasurement_correctLed {tv : TimeValue} {predicted : σ} {skip : Bool}
    {loop : CorrectionLoop σ μ} {led : Led μ} :
    (estimator.correctLed arithmetic tv predicted skip loop led).gotMeasurement =
      (loop.gotMeasurement || usesLed arithmetic estimator.beaconsSize predicted skip led) := by
  rw [correctLed, usesLed]
  cases led.inBounds estimator.beaconsSize with
  | false => simp
  | true =>
      cases skip && led.lastBright with
      | true => simp
      | false =>
          cases arithmetic.pointsAway predicted led.id.toNat with
          | true => simp
          | false => cases arithmetic.tooAskew predicted led.id.toNat <;> simp

/-- After the loop there is a measurement if there was one before or a beacon was used. -/
theorem gotMeasurement_correctLeds {tv : TimeValue} {leds : List (Led μ)} :
    (estimator.correctLeds arithmetic params tv leds).gotMeasurement =
      (estimator.gotMeasurement || estimator.usesSome arithmetic params tv leds) := by
  rw [correctLeds, usesSome]
  generalize skipBright params estimator.beaconsSize leds = skip
  generalize arithmetic.predict estimator.filter estimator.prev tv = predicted
  have hloop (loop : CorrectionLoop σ μ) :
      (leds.foldl (estimator.correctLed arithmetic tv predicted skip) loop).gotMeasurement =
        (loop.gotMeasurement ||
          leds.any (usesLed arithmetic estimator.beaconsSize predicted skip)) := by
    induction leds generalizing loop with
    | nil => simp
    | cons led leds ih =>
        rw [List.foldl_cons, ih, gotMeasurement_correctLed, List.any_cons, Bool.or_assoc]
  exact hloop _

end PoseEstimator

/-! ## The residual test -/

theorem framesInProbation_eq_zero_iff :
    framesInProbation frames = 0 ↔ failedTest frames = false := by
  cases frames with
  | nil => simp [framesInProbation, failedTest]
  | cons frame earlier =>
      rw [framesInProbation]
      cases failedTest (frame :: earlier) <;> simp

/-- The test of the code is that of the position in the run. -/
theorem incrementProbation_eq (frame : KalmanTally) (frames : List KalmanTally) :
    PoseEstimator.incrementProbation (framesInProbation frames) frame.numBad frame.numGood =
      failedTest (frame :: frames) := by
  rw [PoseEstimator.incrementProbation, failedTest]
  cases htest : failedTest frames with
  | false => rw [if_pos (framesInProbation_eq_zero_iff.mpr htest)]; rfl
  | true =>
      have hne : framesInProbation frames ≠ 0 := by
        rw [Ne, framesInProbation_eq_zero_iff, htest]
        exact Bool.noConfusion
      rw [if_neg hne]
      rfl

/-! ## The counters along a run -/

/-- What the counters are while the filter is in use. A pose always comes with a measurement, since
nothing ever clears the flag, so that one of them stays at zero. -/
structure Tracks (frames : List KalmanTally) (estimator : PoseEstimator σ) : Prop where
  probation : estimator.framesInProbation = framesInProbation frames
  blobs : estimator.framesWithoutIdentifiedBlobs = framesWithoutIdentifiedBlobs frames
  utilized : estimator.framesWithoutUtilizedMeasurements = 0
  measured : estimator.gotPose = true → estimator.gotMeasurement = true

namespace Tracks

/-- A forced reset begins a new list of frames. -/
theorem checked (h : Tracks frames estimator) (arithmetic : FilterArithmetic σ μ)
    (leds : List (Led μ)) :
    Tracks (if estimator.needsReset leds then [] else frames)
      (estimator.forceRansacIfKalmanNeedsReset arithmetic leds) := by
  rw [PoseEstimator.forceRansacIfKalmanNeedsReset]
  split
  · exact ⟨rfl, rfl, rfl, Bool.noConfusion⟩
  · exact h

theorem kalman (h : Tracks frames estimator) (hpose : estimator.canUseKalman = true)
    (tv : TimeValue) (leds : List (Led μ)) :
    Tracks (estimator.kalmanTally arithmetic params tv leds :: frames)
      { estimator.kalmanAutocalibEstimator arithmetic params tv leds with
        prev := tv, gotPrev := true, gotPose := true } := by
  have hmeasured : (estimator.correctLeds arithmetic params tv leds).gotMeasurement = true := by
    have hgot : estimator.gotPose = true := by
      rw [PoseEstimator.canUseKalman, Bool.and_eq_true, Bool.and_eq_true] at hpose
      exact hpose.1.1
    rw [PoseEstimator.gotMeasurement_correctLeds, h.measured hgot, Bool.true_or]
  constructor
  case probation =>
    have htest := incrementProbation_eq (estimator.kalmanTally arithmetic params tv leds) frames
    rw [← h.probation] at htest
    rw [framesInProbation, ← htest, ← h.probation]
    rfl
  case blobs =>
    have hblobs : framesWithoutIdentifiedBlobs
        (estimator.kalmanTally arithmetic params tv leds :: frames) =
          if leds.countP (Led.inBounds estimator.beaconsSize) = 0 then
            framesWithoutIdentifiedBlobs frames + 1 else 0 := by
      rw [framesWithoutIdentifiedBlobs, List.takeWhile_cons]
      have hcount : (estimator.kalmanTally arithmetic params tv leds).inBoundsID =
          leds.countP (Led.inBounds estimator.beaconsSize) := rfl
      rw [hcount]
      by_cases hzero : leds.countP (Led.inBounds estimator.beaconsSize) = 0
      · rw [decide_eq_true hzero, if_pos hzero]
        rfl
      · rw [decide_eq_false hzero, if_neg hzero]
        rfl
    rw [hblobs, ← h.blobs]
    rfl
  case utilized => simp [PoseEstimator.kalmanAutocalibEstimator, hmeasured]
  case measured => exact fun _ => hmeasured

/-- The direct method leaves the counters alone. -/
theorem ransac (h : Tracks frames estimator) (arithmetic : FilterArithmetic σ μ)
    (params : ConfigParams) (leds : List (Led μ)) (tv : TimeValue) :
    Tracks frames
      (if (estimator.pnpransacEstimator arithmetic params leds).2 then
        { (estimator.pnpransacEstimator arithmetic params leds).1 with
          prev := tv, gotPrev := true, gotPose := true }
      else { (estimator.pnpransacEstimator arithmetic params leds).1 with gotPose := false }) := by
  rw [PoseEstimator.pnpransacEstimator]
  dsimp only
  split
  · exact ⟨h.probation, h.blobs, h.utilized, Bool.noConfusion⟩
  · split
    · exact ⟨h.probation, h.blobs, h.utilized, fun _ => rfl⟩
    · exact ⟨h.probation, h.blobs, h.utilized, Bool.noConfusion⟩

/-- A frame goes to the filter or to the direct method. -/
theorem estimatePoseFromLeds (h : Tracks frames estimator) (leds : List (Led μ)) (tv : TimeValue) :
    Tracks (logFrame frames (some (estimator.estimatePoseFromLeds arithmetic params leds tv).2))
      (estimator.estimatePoseFromLeds arithmetic params leds tv).1 := by
  have hchecked := h.checked arithmetic leds
  rw [PoseEstimator.estimatePoseFromLeds]
  dsimp only
  split
  next hpose => exact hchecked.kalman hpose tv leds
  next =>
    have hdirect := hchecked.ransac arithmetic params leds tv
    split
    next hsuccess =>
      rw [if_pos hsuccess] at hdirect
      exact hdirect
    next hsuccess =>
      rw [if_neg hsuccess] at hdirect
      exact hdirect

theorem step (h : Tracks frames estimator) (call : EstimatorCall σ μ) :
    Tracks (logFrame frames ((poseEstimator arithmetic params filter).step estimator call).2)
      ((poseEstimator arithmetic params filter).step estimator call).1 := by
  cases call with
  | estimatePoseFromLeds leds tv => exact h.estimatePoseFromLeds leds tv
  | permitKalmanMode permitKalman => exact ⟨h.probation, h.blobs, h.utilized, h.measured⟩
  | setBeacons beaconsSize update => exact ⟨h.probation, h.blobs, h.utilized, Bool.noConfusion⟩
  | setCameraParameters update => exact ⟨h.probation, h.blobs, h.utilized, Bool.noConfusion⟩

end Tracks

theorem kalmanFrames_concat {reports : List (Option (FrameReport μ))}
    {report : Option (FrameReport μ)} :
    kalmanFrames (reports ++ [report]) = logFrame (kalmanFrames reports) report := by
  rw [kalmanFrames, List.foldl_append]
  rfl

variable (arithmetic params filter calls) in
theorem tracks_stateAfter : Tracks
    (kalmanFrames ((poseEstimator arithmetic params filter).answers calls))
    ((poseEstimator arithmetic params filter).stateAfter calls) := by
  induction calls using List.reverseRecOn with
  | nil => exact ⟨rfl, rfl, rfl, Bool.noConfusion⟩
  | append_singleton calls call ih =>
      rw [ReactiveSystem.answers_concat, ReactiveSystem.stateAfter_concat, kalmanFrames_concat]
      exact ih.step call

/-! ## When the watchdog works -/

/-- Every frame with a beacon in bounds used one. -/
def AllUsed (frames : List KalmanTally) : Prop :=
  ∀ frame ∈ frames, 0 < frame.inBoundsID → frame.used

theorem framesWithoutUtilizedMeasurements_eq_zero (h : AllUsed frames) :
    framesWithoutUtilizedMeasurements frames = 0 := by
  rw [framesWithoutUtilizedMeasurements, List.length_eq_zero_iff]
  cases hframes : frames.filter fun frame => decide (0 < frame.inBoundsID) with
  | nil => rfl
  | cons frame rest =>
      have hmem : frame ∈ frames.filter fun frame => decide (0 < frame.inBoundsID) := by
        rw [hframes]
        exact List.mem_cons_self
      rw [List.mem_filter, decide_eq_true_eq] at hmem
      simp [h frame hmem.1 hmem.2]

theorem framesWithoutUtilizedMeasurements_cons_pos {frame : KalmanTally}
    (hbounds : 0 < frame.inBoundsID) (hused : frame.used = false) :
    0 < framesWithoutUtilizedMeasurements (frame :: frames) := by
  simp [framesWithoutUtilizedMeasurements, hbounds, hused]

/-- A log stays free of frames that use nothing exactly if the frame that is added
uses something. -/
theorem allUsed_logFrame_iff (h : AllUsed frames) {report : FrameReport μ} :
    AllUsed (logFrame frames (some report)) ↔
      ∀ tally ∈ report.kalman, 0 < tally.inBoundsID → tally.used := by
  apply Iff.intro
  · intro hlog tally htally
    exact hlog tally (List.mem_append_left _ (Option.mem_toList.mpr htally))
  · intro hreport tally htally
    rcases List.mem_append.mp htally with hnew | hold
    · exact hreport tally (Option.mem_toList.mp hnew)
    · cases hreset : report.didReset with
      | true => simp [hreset] at hold
      | false =>
          rw [hreset] at hold
          exact h tally hold

/-- The condition on a call says that of its frame. -/
theorem usesSomeIfAny_iff (filter : σ) : estimator.UsesSomeIfAny arithmetic params call ↔
    ∀ report ∈ ((poseEstimator arithmetic params filter).step estimator call).2,
      ∀ tally ∈ report.kalman, 0 < tally.inBoundsID → tally.used := by
  cases call with
  | estimatePoseFromLeds leds tv =>
      have hreport : ((poseEstimator arithmetic params filter).step estimator
          (.estimatePoseFromLeds leds tv)).2 =
            some (estimator.estimatePoseFromLeds arithmetic params leds tv).2 := rfl
      rw [hreport, PoseEstimator.UsesSomeIfAny, PoseEstimator.estimatePoseFromLeds]
      simp only [Option.mem_some_iff, forall_eq']
      generalize estimator.forceRansacIfKalmanNeedsReset arithmetic leds = checked
      split
      next hpose => simp [hpose, PoseEstimator.kalmanTally, List.countP_pos_iff]
      next hpose =>
        have hfalse : checked.canUseKalman = false := Bool.not_eq_true _ ▸ hpose
        split <;> simp [hfalse]
  | _ => simp [PoseEstimator.UsesSomeIfAny, poseEstimator]

/-- A frame with a forced reset is estimated directly. -/
theorem kalman_eq_none_of_needsReset {leds : List (Led μ)} {tv : TimeValue}
    (hreset : estimator.needsReset leds = true) :
    (estimator.estimatePoseFromLeds arithmetic params leds tv).2.kalman = none := by
  have hpose : (estimator.forceRansacIfKalmanNeedsReset arithmetic leds).canUseKalman = false := by
    rw [PoseEstimator.forceRansacIfKalmanNeedsReset, if_pos hreset]
    rfl
  rw [PoseEstimator.estimatePoseFromLeds]
  dsimp only
  rw [hpose, if_neg Bool.false_ne_true]
  split <;> rfl

theorem kalman_eq_none_of_probation {report : FrameReport μ}
    (hprobation : PoseEstimator.MAX_PROBATION_FRAMES < estimator.framesInProbation)
    (hreport : report ∈ ((poseEstimator arithmetic params filter).step estimator call).2) :
    report.kalman = none := by
  cases call with
  | estimatePoseFromLeds leds tv =>
      obtain rfl := Option.mem_some_iff.mp hreport
      apply kalman_eq_none_of_needsReset
      rw [PoseEstimator.needsReset, decide_eq_true hprobation, Bool.true_or, Bool.true_or]
  | _ => cases hreport

/-- The log of a run whose frames use something if they can. -/
theorem allUsed_answers (h : Along (fun before call => ((poseEstimator arithmetic params
    filter).stateAfter before).UsesSomeIfAny arithmetic params call) calls) :
    AllUsed (kalmanFrames ((poseEstimator arithmetic params filter).answers calls)) := by
  induction calls using List.reverseRecOn with
  | nil => exact fun _ hmem => absurd hmem List.not_mem_nil
  | append_singleton calls call ih =>
      rw [along_concat] at h
      rw [ReactiveSystem.answers_concat, kalmanFrames_concat]
      have hcall := (usesSomeIfAny_iff filter).mp h.2
      cases hanswer : (poseEstimator arithmetic params filter).answer calls call with
      | none => exact ih h.1
      | some report => exact (allUsed_logFrame_iff (ih h.1)).mpr (hcall report hanswer)

variable (arithmetic params filter calls) in
/-- The watchdog does its work along a run exactly if every Kalman frame of the run that has a
beacon in bounds uses one. -/
theorem healthWatched_iff : Along (HealthWatched arithmetic params filter) calls ↔
    Along (fun before call => ((poseEstimator arithmetic params filter).stateAfter
      before).UsesSomeIfAny arithmetic params call) calls := by
  apply along_congr
  intro before call _ hused
  have hframes := allUsed_answers hused
  have htracks := tracks_stateAfter arithmetic params filter before
  have hafter := tracks_stateAfter arithmetic params filter (before ++ [call])
  rw [ReactiveSystem.answers_concat, kalmanFrames_concat] at hafter
  rw [usesSomeIfAny_iff filter]
  apply Iff.intro
  · intro hwatched report hreport tally htally hbounds
    have hcounters := (hwatched report hreport).1 (Option.isSome_of_mem htally)
    rw [ReactiveSystem.answers_concat, kalmanFrames_concat, hafter.utilized] at hcounters
    have hanswer : (poseEstimator arithmetic params filter).answer before call = some report :=
      hreport
    rw [hanswer, logFrame, Option.mem_def.mp htally] at hcounters
    by_contra hnot
    rw [Bool.not_eq_true] at hnot
    exact Nat.ne_of_lt (framesWithoutUtilizedMeasurements_cons_pos hbounds hnot) hcounters.1
  · intro hcall report hreport
    have hanswer : (poseEstimator arithmetic params filter).answer before call = some report :=
      hreport
    apply And.intro
    · intro _
      rw [ReactiveSystem.answers_concat, kalmanFrames_concat]
      rw [hanswer] at hafter ⊢
      have hall := (allUsed_logFrame_iff hframes).mpr (hcall report hreport)
      rw [framesWithoutUtilizedMeasurements_eq_zero hall]
      exact ⟨hafter.utilized, hafter.probation, hafter.blobs⟩
    · rw [framesWithoutUtilizedMeasurements_eq_zero hframes]
      rintro (hmeasurements | hprobation)
      · exact absurd hmeasurements (Nat.not_lt_zero _)
      · rw [← htracks.probation] at hprobation
        exact kalman_eq_none_of_probation hprobation hreport

end Health

/-! ## A fix that is lost -/

/-- Every beacon seems to point away from the camera, and a direct pose is always good. -/
def lostFix : FilterArithmetic Unit Unit where
  predict _ _ _ := ()
  pointsAway _ _ := true
  tooAskew _ _ := false
  correct _ _ _ _ := (false, ())
  ransac _ _ := (true, ())
  zeroState _ := ()

/-- Six beacons, all of them seen. -/
def sixLeds : List (Led Unit) := (List.range 6).map fun id => ⟨Int.ofNat id, false, false, ()⟩

/-- After a direct pose, a frame that rejects all its beacons is not counted. -/
theorem not_healthWatched : ¬∀ calls : List (EstimatorCall Unit Unit),
    Along (HealthWatched lostFix ⟨4, 2, false⟩ ()) calls := by
  intro h
  have hwatched := h [.setBeacons 6 id, .estimatePoseFromLeds sixLeds ⟨0, 0⟩,
    .estimatePoseFromLeds sixLeds ⟨1, 0⟩]
    [.setBeacons 6 id, .estimatePoseFromLeds sixLeds ⟨0, 0⟩]
    (.estimatePoseFromLeds sixLeds ⟨1, 0⟩) [] rfl _ rfl
  exact absurd (hwatched.1 (by decide +kernel)).1 (by decide +kernel)

end OSVR.VbTracker
