/-
# Acceptance of a pose by RANSAC

The estimator matches the identified blobs with their beacons, lets the solver find a pose
and its inliers, and projects the inliers into the image again before it accepts the pose.
The loop that collects the inliers takes the first points in place of those that the
indices name, and only a projection that is too far to the right or down is refused.

The solver and the projection are left open, as is the subtraction of coordinates; of its
results only the place among the others is used, and there is none for a NaN.
-/

import Mathlib.Order.Defs.LinearOrder
import OsvrCore.Util.ReportTypes
import OsvrCore.VbTracker.BeaconSet
import OsvrCore.VbTracker.LedAssociation

set_option autoImplicit false

namespace OSVR.VbTracker

open Util

universe u v w x

variable {φ : Type u} {δ : Type v} {κ : Type w} {π : Type x}

/-! ## The estimator -/

/-- `cv::solvePnPRansac` of either version: a pose with the indices of the inliers. -/
inductive PnPSolver (φ : Type u) (π : Type x) where
  /-- OpenCV 2, which is told how many inliers are enough. -/
  | version2 (solve : List (Fin 3 → φ) → List (φ × φ) → ℤ → π × List ℕ)
  /-- OpenCV 3, which may find nothing. -/
  | version3 (solve : List (Fin 3 → φ) → List (φ × φ) → Bool × π × List ℕ)

/-- What the estimator uses of OpenCV, and the operations on `float`. -/
structure PoseArithmetic (φ : Type u) (δ : Type v) (κ : Type w) (π : Type x) where
  solver : PnPSolver φ π
  /-- `cv::projectPoints` for one point under a pose. -/
  projectPoint : π → (Fin 3 → φ) → φ × φ
  toFloat : δ → φ
  /-- The place of the difference of two coordinates. -/
  difference : φ → φ → Option κ
  /-- The place of 4 pixels. -/
  pixelReprojectionErrorForSingleAxisMax : κ
  /-- The place of the same number of pixels to the other side. -/
  pixelReprojectionErrorForSingleAxisMin : κ

/-- The lists that the solver is given, with the debug data. -/
structure MatchedPoints (φ : Type u) (δ : Type v) where
  beaconDebugData : List (BeaconData δ)
  imagePoints : List (φ × φ)
  objectPoints : List (Fin 3 → φ)

/-- What a call leaves; `state` is the pose that the state is reset to. -/
structure RansacOutcome (δ : Type v) (π : Type x) where
  success : Bool
  beaconDebugData : List (BeaconData δ)
  state : Option π

namespace PnPSolver

/-- The pose and the inliers, unless the solver found nothing. -/
def solvePnPRansac (solver : PnPSolver φ π) (objectPoints : List (Fin 3 → φ))
    (imagePoints : List (φ × φ)) (minInliersCount : ℤ) : Option (π × List ℕ) :=
  match solver with
  | .version2 solve => some (solve objectPoints imagePoints minInliersCount)
  | .version3 solve =>
      let ransacResult := solve objectPoints imagePoints
      if !ransacResult.1 then none else some ransacResult.2

end PnPSolver

/-- The first `rows` points; there is no value behind the end. -/
def firstPoints {α : Type u} : ℕ → List α → Option (List α)
  | 0, _ => some []
  | _ + 1, [] => none
  | rows + 1, point :: rest => (firstPoints rows rest).map (point :: ·)

namespace PoseArithmetic

variable (arithmetic : PoseArithmetic φ δ κ π)

def vec3dToCVPoint3f (vec : Fin 3 → δ) : Fin 3 → φ := fun axis => arithmetic.toFloat (vec axis)

/-- The loop over the blobs. -/
def matchPoints (params : BeaconParams φ δ) (beacons : List (BeaconState δ)) :
    List (TrackedLed φ) → MatchedPoints φ δ → MatchedPoints φ δ
  | [], points => points
  | led :: leds, points =>
      if !led.identified then matchPoints params beacons leds points
      else match beacons[led.id.toNat]? with
        | none => matchPoints params beacons leds points
        | some beacon =>
            let debugData := points.beaconDebugData.modify led.id.toNat fun data =>
              { data with
                variance := params.sub (params.ofNat 0) (params.ofNat 1)
                measurement := (params.toDouble led.measurement.loc.1,
                  params.toDouble led.measurement.loc.2) }
            matchPoints params beacons leds
              { beaconDebugData := debugData
                imagePoints := points.imagePoints ++ [led.measurement.loc]
                objectPoints := points.objectPoints ++
                  [arithmetic.vec3dToCVPoint3f beacon.stateVector] }

variable [LinearOrder κ]

/-- The difference is over the limit; a NaN is not. -/
def exceeds (reprojected image : φ) : Bool :=
  match arithmetic.difference reprojected image with
  | none => false
  | some place => decide (arithmetic.pixelReprojectionErrorForSingleAxisMax < place)

/-- The loop over the reprojected points. -/
def reprojectionsPass : List (φ × φ) → List (φ × φ) → Bool
  | reprojected :: rest, image :: images =>
      if arithmetic.exceeds reprojected.1 image.1 then false
      else if arithmetic.exceeds reprojected.2 image.2 then false
      else reprojectionsPass rest images
  | _, _ => true

/-- The check of the pose against the points of the inliers, as the loop collects them. -/
def checkInliers (points : MatchedPoints φ δ) (pose : π) (inlierIndices : List ℕ) :
    Option Bool :=
  match firstPoints inlierIndices.length points.objectPoints,
      firstPoints inlierIndices.length points.imagePoints with
  | some inlierObjectPoints, some inlierImagePoints =>
      let reprojectedPoints := inlierObjectPoints.map (arithmetic.projectPoint pose)
      some (arithmetic.reprojectionsPass reprojectedPoints inlierImagePoints)
  -- A read behind the end of the points.
  | _, _ => none

def pnpransacEstimator (params : BeaconParams φ δ) (estimator : BeaconEstimator δ)
    (requiredInliers permittedOutliers : ℕ) (leds : List (TrackedLed φ)) :
    Option (RansacOutcome δ π) :=
  let points := arithmetic.matchPoints params estimator.beacons leds
    { beaconDebugData := estimator.beaconDebugData, imagePoints := [], objectPoints := [] }
  let failure : RansacOutcome δ π :=
    { success := false, beaconDebugData := points.beaconDebugData, state := none }
  -- The sum of two `size_t` wraps around.
  if points.objectPoints.length < (permittedOutliers + requiredInliers) % 2 ^ 64 then some failure
  else match arithmetic.solver.solvePnPRansac points.objectPoints points.imagePoints
      (points.objectPoints.length - permittedOutliers) with
    | none => some failure
    | some (pose, inlierIndices) =>
        if inlierIndices.length < requiredInliers then some failure
        else (arithmetic.checkInliers points pose inlierIndices).map fun passed =>
          if passed then
            { success := true, beaconDebugData := points.beaconDebugData, state := pose }
          else failure

/-! ## What acceptance should mean -/

/-- The beacon of a blob as a point, with the location of the blob. -/
def pairOf (beacons : List (BeaconState δ)) (led : TrackedLed φ) :
    Option ((Fin 3 → φ) × (φ × φ)) :=
  if led.identified then
    beacons[led.id.toNat]?.map fun beacon =>
      (arithmetic.vec3dToCVPoint3f beacon.stateVector, led.measurement.loc)
  else none

/-- The beacons and the blobs that the solver is given. -/
def pairs (estimator : BeaconEstimator δ) (leds : List (TrackedLed φ)) :
    List ((Fin 3 → φ) × (φ × φ)) :=
  leds.filterMap (arithmetic.pairOf estimator.beacons)

/-- The solver is asked, and this is what it finds. -/
def Solves (estimator : BeaconEstimator δ) (requiredInliers permittedOutliers : ℕ)
    (leds : List (TrackedLed φ)) (pose : π) (inlierIndices : List ℕ) : Prop :=
  let pairs := arithmetic.pairs estimator leds
  (permittedOutliers + requiredInliers) % 2 ^ 64 ≤ pairs.length ∧
    arithmetic.solver.solvePnPRansac (pairs.map Prod.fst) (pairs.map Prod.snd)
      (pairs.length - permittedOutliers) = some (pose, inlierIndices)

/-- The difference is within the limit in absolute value. -/
def WithinLimit (reprojected image : φ) : Prop :=
  ∃ place, arithmetic.difference reprojected image = some place ∧
    arithmetic.pixelReprojectionErrorForSingleAxisMin ≤ place ∧
    place ≤ arithmetic.pixelReprojectionErrorForSingleAxisMax

/-- The projection of a beacon is close to its blob on both axes. -/
def Close (pose : π) (pair : (Fin 3 → φ) × (φ × φ)) : Prop :=
  arithmetic.WithinLimit (arithmetic.projectPoint pose pair.1).1 pair.2.1 ∧
    arithmetic.WithinLimit (arithmetic.projectPoint pose pair.1).2 pair.2.2

/-- The projection of a beacon is too far to the right of its blob, or too far down. -/
def Overshoots (pose : π) (pair : (Fin 3 → φ) × (φ × φ)) : Prop :=
  arithmetic.exceeds (arithmetic.projectPoint pose pair.1).1 pair.2.1 = true ∨
    arithmetic.exceeds (arithmetic.projectPoint pose pair.1).2 pair.2.2 = true

/-- The difference is too far to the other side, or a NaN. -/
def FallsShort (reprojected image : φ) : Prop :=
  ∀ place, arithmetic.difference reprojected image = some place →
    place < arithmetic.pixelReprojectionErrorForSingleAxisMin

/-- The projection of a beacon is too far to the left of its blob, or too far up, or a NaN. -/
def Undershoots (pose : π) (pair : (Fin 3 → φ) × (φ × φ)) : Prop :=
  arithmetic.FallsShort (arithmetic.projectPoint pose pair.1).1 pair.2.1 ∨
    arithmetic.FallsShort (arithmetic.projectPoint pose pair.1).2 pair.2.2

/-- The inliers are the points that the check looks at, and none of them falls short. -/
def InliersChecked (estimator : BeaconEstimator δ) (leds : List (TrackedLed φ)) (pose : π)
    (inlierIndices : List ℕ) : Prop :=
  ∀ index ∈ inlierIndices, index < inlierIndices.length ∧ ∀ pair,
    (arithmetic.pairs estimator leds)[index]? = some pair → ¬ arithmetic.Undershoots pose pair

/-- Every pair that an inlier index names is close. -/
def InliersClose (estimator : BeaconEstimator δ) (leds : List (TrackedLed φ)) (pose : π)
    (inlierIndices : List ℕ) : Prop :=
  ∀ index ∈ inlierIndices, ∀ pair,
    (arithmetic.pairs estimator leds)[index]? = some pair → arithmetic.Close pose pair

/-- Success means enough inliers, all of which are close. -/
def AcceptsGoodPosesOnly (params : BeaconParams φ δ) (estimator : BeaconEstimator δ)
    (requiredInliers permittedOutliers : ℕ) (leds : List (TrackedLed φ)) : Prop :=
  ∀ outcome, arithmetic.pnpransacEstimator params estimator requiredInliers permittedOutliers
      leds = some outcome → outcome.success = true →
    ∃ pose inlierIndices,
      arithmetic.Solves estimator requiredInliers permittedOutliers leds pose inlierIndices ∧
      requiredInliers ≤ inlierIndices.length ∧
      arithmetic.InliersClose estimator leds pose inlierIndices

/-! ## The loops -/

omit [LinearOrder κ] in
/-- The points are those of the pairs, in their order. -/
theorem matchPoints_eq (params : BeaconParams φ δ) (beacons : List (BeaconState δ))
    (leds : List (TrackedLed φ)) (points : MatchedPoints φ δ) :
    (arithmetic.matchPoints params beacons leds points).objectPoints =
        points.objectPoints ++ (leds.filterMap (arithmetic.pairOf beacons)).map Prod.fst ∧
      (arithmetic.matchPoints params beacons leds points).imagePoints =
        points.imagePoints ++ (leds.filterMap (arithmetic.pairOf beacons)).map Prod.snd := by
  induction leds generalizing points with
  | nil => simp [matchPoints]
  | cons led leds ih =>
      rw [matchPoints, List.filterMap_cons, pairOf]
      cases hidentified : led.identified with
      | false =>
          simp only [Bool.not_false, if_true, Bool.false_eq_true, if_false]
          exact ih points
      | true =>
          simp only [Bool.not_true, Bool.false_eq_true, if_false, if_true]
          cases hbeacon : beacons[led.id.toNat]? with
          | none => exact ih points
          | some beacon =>
              simp only [Option.map_some, List.map_cons]
              rw [(ih _).1, (ih _).2]
              simp only [List.append_assoc, List.singleton_append, and_self]

theorem firstPoints_eq {α : Type u} (rows : ℕ) (points : List α) :
    firstPoints rows points = if rows ≤ points.length then some (points.take rows) else none := by
  induction rows generalizing points with
  | zero => rw [firstPoints, if_pos (Nat.zero_le _), List.take_zero]
  | succ rows ih =>
      cases points with
      | nil => rfl
      | cons point rest =>
          rw [firstPoints, ih, List.length_cons]
          simp only [Nat.add_le_add_iff_right, List.take_succ_cons]
          split <;> rfl

/-- The loop passes when no pair overshoots. -/
theorem reprojectionsPass_eq (pose : π) (found : List ((Fin 3 → φ) × (φ × φ))) :
    arithmetic.reprojectionsPass ((found.map Prod.fst).map (arithmetic.projectPoint pose))
        (found.map Prod.snd) = true ↔
      ∀ pair ∈ found, ¬ arithmetic.Overshoots pose pair := by
  induction found with
  | nil => simp [reprojectionsPass]
  | cons pair rest ih =>
      rw [List.forall_mem_cons, ← ih, List.map_cons, List.map_cons, List.map_cons,
        reprojectionsPass, Overshoots]
      cases arithmetic.exceeds (arithmetic.projectPoint pose pair.1).1 pair.2.1 <;>
        cases arithmetic.exceeds (arithmetic.projectPoint pose pair.1).2 pair.2.2 <;> simp

/-- The check passes when there are as many points as inliers and none of as many first
pairs overshoots. -/
theorem checkInliers_eq_true_iff {points : MatchedPoints φ δ}
    {found : List ((Fin 3 → φ) × (φ × φ))} (hobjects : points.objectPoints = found.map Prod.fst)
    (himages : points.imagePoints = found.map Prod.snd) (pose : π) (inlierIndices : List ℕ) :
    arithmetic.checkInliers points pose inlierIndices = some true ↔
      inlierIndices.length ≤ found.length ∧
        ∀ pair ∈ found.take inlierIndices.length, ¬ arithmetic.Overshoots pose pair := by
  rw [checkInliers, hobjects, himages, firstPoints_eq, firstPoints_eq, List.length_map,
    List.length_map]
  by_cases hrows : inlierIndices.length ≤ found.length
  · rw [if_pos hrows, if_pos hrows, ← List.map_take, ← List.map_take]
    simp only [Option.some_inj, hrows, true_and]
    exact arithmetic.reprojectionsPass_eq pose _
  · rw [if_neg hrows]
    simp [hrows]

/-! ## One call -/

/-- A call succeeds exactly when the solver finds enough inliers, not more than there are
points, and none of as many first pairs overshoots. -/
theorem success_iff (params : BeaconParams φ δ) (estimator : BeaconEstimator δ)
    (requiredInliers permittedOutliers : ℕ) (leds : List (TrackedLed φ)) :
    (∃ outcome, arithmetic.pnpransacEstimator params estimator requiredInliers permittedOutliers
        leds = some outcome ∧ outcome.success = true) ↔
      ∃ pose inlierIndices,
        arithmetic.Solves estimator requiredInliers permittedOutliers leds pose inlierIndices ∧
        requiredInliers ≤ inlierIndices.length ∧
        inlierIndices.length ≤ (arithmetic.pairs estimator leds).length ∧
        ∀ pair ∈ (arithmetic.pairs estimator leds).take inlierIndices.length,
          ¬ arithmetic.Overshoots pose pair := by
  obtain ⟨hobjects, himages⟩ := arithmetic.matchPoints_eq params estimator.beacons leds
    { beaconDebugData := estimator.beaconDebugData, imagePoints := [], objectPoints := [] }
  rw [List.nil_append, ← pairs] at hobjects himages
  simp only [Solves, pnpransacEstimator, hobjects, himages, List.length_map]
  by_cases hfew : (arithmetic.pairs estimator leds).length <
      (permittedOutliers + requiredInliers) % 2 ^ 64
  · rw [if_pos hfew]
    apply iff_of_false
    · rintro ⟨_, hfailure, hsuccess⟩
      cases hfailure
      cases hsuccess
    · rintro ⟨_, _, ⟨henough, _⟩, _⟩
      exact absurd hfew (Nat.not_lt.mpr henough)
  · rw [if_neg hfew]
    cases hsolved : arithmetic.solver.solvePnPRansac
        ((arithmetic.pairs estimator leds).map Prod.fst)
        ((arithmetic.pairs estimator leds).map Prod.snd)
        ((arithmetic.pairs estimator leds).length - permittedOutliers) with
    | none => simp
    | some solution =>
        obtain ⟨pose, inlierIndices⟩ := solution
        have hcheck := arithmetic.checkInliers_eq_true_iff hobjects himages pose inlierIndices
        simp only [Option.some_inj, Prod.mk.injEq]
        apply Iff.intro
        · rintro ⟨outcome, houtcome, hsuccess⟩
          split at houtcome
          next =>
            cases houtcome
            cases hsuccess
          next henough =>
            obtain ⟨passed, hpassed, rfl⟩ := Option.map_eq_some_iff.mp houtcome
            cases passed with
            | false => cases hsuccess
            | true =>
                exact ⟨pose, inlierIndices, ⟨Nat.not_lt.mp hfew, rfl, rfl⟩, Nat.not_lt.mp henough,
                  hcheck.mp hpassed⟩
        · rintro ⟨_, _, ⟨_, rfl, rfl⟩, henough, hfirst⟩
          rw [if_neg (Nat.not_lt.mpr henough), hcheck.mpr hfirst]
          exact ⟨_, rfl, rfl⟩

/-- Within the limit in absolute value is neither over it nor short of it. -/
theorem withinLimit_iff {reprojected image : φ} :
    arithmetic.WithinLimit reprojected image ↔
      ¬ arithmetic.exceeds reprojected image = true ∧
        ¬ arithmetic.FallsShort reprojected image := by
  rw [WithinLimit, exceeds, FallsShort]
  cases arithmetic.difference reprojected image with
  | none => simp
  | some place => simp [and_comm]

theorem close_iff {pose : π} {pair : (Fin 3 → φ) × (φ × φ)} :
    arithmetic.Close pose pair ↔
      ¬ arithmetic.Overshoots pose pair ∧ ¬ arithmetic.Undershoots pose pair := by
  rw [Close, withinLimit_iff, withinLimit_iff, Overshoots, Undershoots]
  tauto

omit [LinearOrder κ] in
/-- The solver is a function, so that there is one solution at most. -/
theorem Solves.unique {arithmetic : PoseArithmetic φ δ κ π} {estimator : BeaconEstimator δ}
    {requiredInliers permittedOutliers : ℕ} {leds : List (TrackedLed φ)} {pose other : π}
    {inlierIndices others : List ℕ}
    (hfirst : arithmetic.Solves estimator requiredInliers permittedOutliers leds pose inlierIndices)
    (hsecond : arithmetic.Solves estimator requiredInliers permittedOutliers leds other others) :
    pose = other ∧ inlierIndices = others := by
  have hsame := Option.some_inj.mp (hfirst.2.symm.trans hsecond.2)
  exact ⟨congrArg Prod.fst hsame, congrArg Prod.snd hsame⟩

/-- The estimator accepts good poses only when, whatever the solver finds, the inliers are the
points that the check looks at and none of them falls short. Where the check passes, it is
also needed that none does. -/
theorem acceptsGoodPosesOnly_of_inliersChecked (params : BeaconParams φ δ)
    (estimator : BeaconEstimator δ) (requiredInliers permittedOutliers : ℕ)
    (leds : List (TrackedLed φ)) :
    ((∀ pose inlierIndices,
        arithmetic.Solves estimator requiredInliers permittedOutliers leds pose inlierIndices →
        requiredInliers ≤ inlierIndices.length →
        inlierIndices.length ≤ (arithmetic.pairs estimator leds).length →
        arithmetic.InliersChecked estimator leds pose inlierIndices) →
      arithmetic.AcceptsGoodPosesOnly params estimator requiredInliers permittedOutliers leds) ∧
    ∀ pose inlierIndices,
      arithmetic.Solves estimator requiredInliers permittedOutliers leds pose inlierIndices →
      requiredInliers ≤ inlierIndices.length →
      inlierIndices.length ≤ (arithmetic.pairs estimator leds).length →
      (∀ pair ∈ (arithmetic.pairs estimator leds).take inlierIndices.length,
        ¬ arithmetic.Overshoots pose pair) →
      arithmetic.AcceptsGoodPosesOnly params estimator requiredInliers permittedOutliers leds →
      ∀ index ∈ inlierIndices, ∀ pair, (arithmetic.pairs estimator leds)[index]? = some pair →
        ¬ arithmetic.Undershoots pose pair := by
  have hsuccess := arithmetic.success_iff params estimator requiredInliers permittedOutliers leds
  apply And.intro
  · intro hcondition outcome houtcome htrue
    obtain ⟨pose, inlierIndices, hsolves, henough, hrows, hfirst⟩ :=
      hsuccess.mp ⟨outcome, houtcome, htrue⟩
    refine ⟨pose, inlierIndices, hsolves, henough, fun index hindex pair hpair => ?_⟩
    obtain ⟨hlooked, hlong⟩ := hcondition pose inlierIndices hsolves henough hrows index hindex
    rw [close_iff]
    refine ⟨hfirst pair (List.mem_of_getElem? (i := index) ?_), hlong pair hpair⟩
    rw [List.getElem?_take_of_lt hlooked, hpair]
  · intro pose inlierIndices hsolves henough hrows hfirst haccepts index hindex pair hpair
    obtain ⟨outcome, houtcome, htrue⟩ :=
      hsuccess.mpr ⟨pose, inlierIndices, hsolves, henough, hrows, hfirst⟩
    obtain ⟨other, others, hother, _, hall⟩ := haccepts outcome houtcome htrue
    obtain ⟨rfl, rfl⟩ := hsolves.unique hother
    exact (arithmetic.close_iff.mp (hall index hindex pair hpair)).2

/-- A blob of a beacon, at a column of the image. -/
def blobAt (id column : ℤ) : TrackedLed ℤ :=
  { id := id, lastBright := true, wasUsedLastFrame := false
    measurement :=
      { loc := (column, 0), brightness := 1, diameter := 1, area := 1, circularity := 1
        knowBoundingBox := false, boundingBox := (0, 0) }
    brightnessHistory := [], identifier := none, novelty := 0 }

/-- A solver that finds the inliers with the given indices, and points that project straight
into the image. -/
def findsInliers (inlierIndices : List ℕ) : PoseArithmetic ℤ ℤ ℤ Unit where
  solver := .version3 fun _ _ => (true, (), inlierIndices)
  projectPoint _ point := (point xAxis, point yAxis)
  toFloat := id
  difference reprojected image := some (reprojected - image)
  pixelReprojectionErrorForSingleAxisMax := 4
  pixelReprojectionErrorForSingleAxisMin := -4

def wholeParams : BeaconParams ℤ ℤ where
  add := (· + ·)
  sub := (· - ·)
  mul := (· * ·)
  div := (· / ·)
  toDouble := id
  ofNat := Int.ofNat
  offsetToCentroid := false
  manualBeaconOffset _ := 0
  initialBeaconError := 1

def beaconAt (column : ℤ) : BeaconState ℤ where
  stateVector axis := if axis = xAxis then column else 0
  errorCovariance _ _ := 0

def fiveBeacons : BeaconEstimator ℤ :=
  { BeaconEstimator.fresh wholeParams with
    beacons := [beaconAt 0, beaconAt 10, beaconAt 20, beaconAt 30, beaconAt 40] }

/-- The last of the five beacons projects 6 pixels to the right of its blob. -/
def lastTooFar : List (TrackedLed ℤ) :=
  [blobAt 0 0, blobAt 1 10, blobAt 2 20, blobAt 3 30, blobAt 4 34]

/-- The first four beacons are accepted for themselves. -/
theorem acceptsGoodPosesOnly_firstFour :
    (findsInliers [0, 1, 2, 3]).AcceptsGoodPosesOnly wholeParams fiveBeacons 4 0 lastTooFar := by
  apply ((findsInliers [0, 1, 2, 3]).acceptsGoodPosesOnly_of_inliersChecked wholeParams fiveBeacons
    4 0 lastTooFar).1
  rintro ⟨⟩ inlierIndices hsolves _ _ index hindex
  obtain rfl : [0, 1, 2, 3] = inlierIndices := congrArg Prod.snd (Option.some_inj.mp hsolves.2)
  have hcases : index = 0 ∨ index = 1 ∨ index = 2 ∨ index = 3 := by simpa using hindex
  rcases hcases with rfl | rfl | rfl | rfl
  all_goals
    refine ⟨by decide, fun pair hpair hshort => ?_⟩
    cases hpair
    rcases hshort with hshort | hshort
    · exact absurd (hshort _ rfl) (by decide)
    · exact absurd (hshort _ rfl) (by decide)

/-- The last beacon is an inlier, but the first one is looked at in its place. -/
theorem not_acceptsGoodPosesOnly_lastInlier :
    ¬ ∀ (arithmetic : PoseArithmetic ℤ ℤ ℤ Unit) (params : BeaconParams ℤ ℤ) estimator
        requiredInliers permittedOutliers leds,
      arithmetic.AcceptsGoodPosesOnly params estimator requiredInliers permittedOutliers leds := by
  intro h
  obtain ⟨pose, inlierIndices, hsolves, _, hclose⟩ :=
    h (findsInliers [1, 2, 3, 4]) wholeParams fiveBeacons 4 0 lastTooFar _ rfl rfl
  have hinliers : inlierIndices = [1, 2, 3, 4] :=
    (congrArg Prod.snd (Option.some_inj.mp hsolves.2)).symm
  obtain ⟨⟨place, hplace, _, hle⟩, _⟩ := hclose 4 (by rw [hinliers]; decide) _ rfl
  cases hplace
  have hfar : (6 : ℤ) ≤ 4 := hle
  exact absurd hfar (by decide)

end PoseArithmetic

end OSVR.VbTracker
