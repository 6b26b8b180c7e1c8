/-
# Association of blobs with beacons over frames

Each sensor keeps a group of beacons with their latest measurements. In a frame every
beacon takes the nearest blob that is left, if that one is within its threshold, and is
deleted otherwise; the blobs that nobody took start new beacons. The measurements of
the group are then exactly the blobs of the frame.

The floating point operations are left open. Of the comparisons only what the format
has is used: a number has its place in a linear order, or it is not a number and
compares with nothing.
-/

import Mathlib.Data.List.Sort
import OsvrCore.Math.GreedyAssignment
import OsvrCore.VbTracker.BeaconBasedPoseEstimator

set_option autoImplicit false

namespace OSVR.VbTracker

open Math

universe u v w

variable {φ : Type u} {δ : Type v} {κ : Type w}

/-! ## Measurements and beacons -/

/-- A blob in image space. -/
structure LedMeasurement (φ : Type u) where
  loc : φ × φ
  /-- Currently the diameter or the radius. -/
  brightness : φ
  diameter : φ
  area : φ
  circularity : φ
  knowBoundingBox : Bool
  boundingBox : φ × φ

/-- The identification of a beacon by its history; it may truncate the history, and
sets whether the beacon is bright. -/
structure LedIdentifier (φ : Type u) where
  getId : ℤ → List φ → Bool → Bool → ℤ × List φ × Bool

/-- A beacon with the history by which it is identified. -/
structure TrackedLed (φ : Type u) extends Led (LedMeasurement φ) where
  brightnessHistory : List φ
  identifier : Option (LedIdentifier φ)
  novelty : UInt8

def SENTINEL_NO_IDENTIFIER_OBJECT_OR_INSUFFICIENT_DATA : ℤ := -1

def MAX_NOVELTY : UInt8 := 4

/-- The operations on `float` and `double`; `order` is the place of a `double` among
the others, and there is none for a NaN. -/
structure BlobArithmetic (φ : Type u) (δ : Type v) (κ : Type w) where
  sub : φ → φ → φ
  mul : φ → φ → φ
  add : φ → φ → φ
  toDouble : φ → δ
  times : δ → δ → δ
  order : δ → Option κ

/-- The parameters of the association. -/
structure BlobParams (δ : Type v) where
  blobMoveThreshold : δ
  blobsKeepIdentity : Bool

namespace TrackedLed

def resetUsed (led : TrackedLed φ) : TrackedLed φ := { led with wasUsedLastFrame := false }

def addMeasurement (led : TrackedLed φ) (meas : LedMeasurement φ) (blobsKeepId : Bool) :
    TrackedLed φ :=
  let history := led.brightnessHistory ++ [meas.brightness]
  match led.identifier with
  | none =>
      { led with
        measurement := meas
        brightnessHistory := history
        id := SENTINEL_NO_IDENTIFIER_OBJECT_OR_INSUFFICIENT_DATA }
  | some identifier =>
      let (id, history, bright) := identifier.getId led.id history led.lastBright blobsKeepId
      { led with
        measurement := meas
        brightnessHistory := history
        id := id
        lastBright := bright
        -- Every change of the ID counts as a new recognition.
        novelty :=
          if led.id ≠ id then MAX_NOVELTY
          else if led.novelty ≠ 0 then led.novelty - 1
          else led.novelty }

/-- The constructor, which leaves the novelty as the memory has it. -/
def new (identifier : Option (LedIdentifier φ)) (memory : UInt8) (meas : LedMeasurement φ) :
    TrackedLed φ :=
  addMeasurement
    { id := SENTINEL_NO_IDENTIFIER_OBJECT_OR_INSUFFICIENT_DATA
      lastBright := false
      wasUsedLastFrame := false
      measurement := meas
      brightnessHistory := []
      identifier := identifier
      novelty := memory }
    meas false

@[simp] theorem measurement_resetUsed (led : TrackedLed φ) :
    led.resetUsed.measurement = led.measurement := rfl

@[simp] theorem measurement_addMeasurement (led : TrackedLed φ) (meas : LedMeasurement φ)
    (blobsKeepId : Bool) : (led.addMeasurement meas blobsKeepId).measurement = meas := by
  rw [addMeasurement]
  cases led.identifier <;> rfl

@[simp] theorem measurement_new (identifier : Option (LedIdentifier φ)) (memory : UInt8)
    (meas : LedMeasurement φ) : (new identifier memory meas).measurement = meas :=
  measurement_addMeasurement _ _ _

end TrackedLed

section Association

variable [LinearOrder κ] (arithmetic : BlobArithmetic φ δ κ) (params : BlobParams δ)

namespace BlobArithmetic

/-- `diff.dot(diff)` for the difference of the locations. -/
def distSquared (location loc : φ × φ) : φ :=
  let diff := (arithmetic.sub location.1 loc.1, arithmetic.sub location.2 loc.2)
  arithmetic.add (arithmetic.mul diff.1 diff.1) (arithmetic.mul diff.2 diff.2)

/-- The place of the distance; a `float` compares as the `double` that it converts to. -/
def distance (led : TrackedLed φ) (meas : LedMeasurement φ) : Option κ :=
  arithmetic.order (arithmetic.toDouble (arithmetic.distSquared led.measurement.loc meas.loc))

end BlobArithmetic

namespace TrackedLed

/-- The position of the nearest measurement within the threshold, or the end. -/
def nearest (led : TrackedLed φ) (meas : List (LedMeasurement φ)) (threshold : δ) : ℕ :=
  match meas with
  | [] => 0
  | first :: rest =>
      let thresholdSquared := arithmetic.times threshold threshold
      let found := scanLeast (arithmetic.distance led) (first :: rest) 0
        (0, arithmetic.distance led first)
      if isLessEqual found.2 (arithmetic.order thresholdSquared) then found.1
      else (first :: rest).length

/-- How far the beacon may move, by the diameter that it had. -/
def threshold (led : TrackedLed φ) : δ :=
  arithmetic.times params.blobMoveThreshold (arithmetic.toDouble led.measurement.diameter)

/-- The place of the square of the threshold. -/
def limit (led : TrackedLed φ) : Option κ :=
  arithmetic.order
    (arithmetic.times (led.threshold arithmetic params) (led.threshold arithmetic params))

/-- The distance passes the test against the threshold of the beacon. -/
def within (led : TrackedLed φ) (meas : LedMeasurement φ) : Bool :=
  isLessEqual (arithmetic.distance led meas) (led.limit arithmetic params)

end TrackedLed

/-- The loop over the group: the beacons that are kept, and the measurements left. -/
def matchLeds : List (TrackedLed φ) → List (LedMeasurement φ) →
    List (TrackedLed φ) × List (LedMeasurement φ)
  | [], ledsMeasurements => ([], ledsMeasurements)
  | led :: leds, ledsMeasurements =>
      let led := led.resetUsed
      let nearest := led.nearest arithmetic ledsMeasurements (led.threshold arithmetic params)
      match ledsMeasurements[nearest]? with
      -- `nearest` is the end: the beacon is erased.
      | none => matchLeds leds ledsMeasurements
      | some found =>
          let rest := matchLeds leds (ledsMeasurements.eraseIdx nearest)
          (led.addMeasurement found params.blobsKeepIdentity :: rest.1, rest.2)

/-- The step for the group of one sensor; `memory` is what the novelty of each new
beacon happens to be. -/
def associate (identifier : Option (LedIdentifier φ)) (memory : ℕ → UInt8)
    (myLeds : List (TrackedLed φ)) (undistortedLeds : List (LedMeasurement φ)) :
    List (TrackedLed φ) :=
  let matched := matchLeds arithmetic params myLeds undistortedLeds
  matched.1 ++ matched.2.mapIdx fun index => TrackedLed.new identifier (memory index)

/-! ## One turn -/

/-- The position that a beacon chooses. -/
def TrackedLed.chosen (led : TrackedLed φ) (items : List (LedMeasurement φ)) : ℕ :=
  led.nearest arithmetic items (led.threshold arithmetic params)

/-- When the nearest is not within the threshold, none is. -/
theorem TrackedLed.within_eq_false {led : TrackedLed φ} {items : List (LedMeasurement φ)}
    {position : ℕ} {least : κ}
    (hleast : IsFirstLeast (arithmetic.distance led) items position least)
    (hfar : ¬isLessEqual (some least) (led.limit arithmetic params) = true)
    {item : LedMeasurement φ} (hitem : item ∈ items) :
    led.within arithmetic params item = false := by
  obtain ⟨other, hother⟩ := List.getElem?_of_mem hitem
  rw [within]
  cases hdistance : arithmetic.distance led item with
  | none => exact isLessEqual_none_left
  | some value =>
      have hle : least ≤ value := hleast.le other item value hother hdistance
      by_contra hvalue
      exact hfar (isLessEqual_of_le hle (Bool.eq_true_of_not_eq_false hvalue))

/-- The scan ends at the first of the nearest, or at the end: then its best was not
within the threshold. -/
theorem TrackedLed.chosen_cases (led : TrackedLed φ) (items : List (LedMeasurement φ)) :
    (∃ least, IsFirstLeast (arithmetic.distance led) items
        (led.chosen arithmetic params items) least ∧
      isLessEqual (some least) (led.limit arithmetic params) = true ∧
      ∀ first, items.head? = some first → arithmetic.distance led first ≠ none) ∨
    led.chosen arithmetic params items = items.length ∧
      ((∀ item ∈ items, led.within arithmetic params item = false) ∨
        ∃ first, items.head? = some first ∧ arithmetic.distance led first = none) := by
  cases items with
  | nil => exact Or.inr ⟨rfl, Or.inl fun _ hmem => absurd hmem List.not_mem_nil⟩
  | cons first rest =>
      rw [chosen, nearest, scanLeast_cons, ← limit]
      cases hfirst : arithmetic.distance led first with
      | none =>
          rw [scanLeast_missing]
          exact Or.inr ⟨rfl, Or.inr ⟨first, rfl, hfirst⟩⟩
      | some start =>
          obtain ⟨found, least, hscan, hleast⟩ := (IsFirstLeast.singleton hfirst).scan rest
          rw [List.length_singleton] at hscan
          rw [hscan]
          by_cases hwithin : isLessEqual (some least) (led.limit arithmetic params) = true
          · rw [if_pos hwithin]
            apply Or.inl
            apply Exists.intro least
            apply And.intro hleast
            apply And.intro hwithin
            intro head hhead
            rw [List.head?_cons, Option.some.injEq] at hhead
            rw [← hhead, hfirst]
            exact Option.some_ne_none start
          · rw [if_neg hwithin]
            apply Or.inr
            apply And.intro rfl
            exact Or.inl fun item hitem => within_eq_false arithmetic params hleast hwithin hitem

/-! ## What an association is -/

/-- The measurement at the position is left, within the threshold and the first of
those that are nearest among the ones left. -/
structure IsNearest (led : TrackedLed φ) (meas : List (LedMeasurement φ))
    (left : List (Fin meas.length)) (position : Fin meas.length) : Prop where
  mem : position ∈ left
  within : led.within arithmetic params meas[position] = true
  nearest : ∀ other ∈ left, isLess (arithmetic.distance led meas[other])
    (arithmetic.distance led meas[position]) = false
  first : ∀ other ∈ left, other < position → isLessEqual (arithmetic.distance led meas[other])
    (arithmetic.distance led meas[position]) = false

/-- No measurement left is within the threshold, or the distance of the first is NaN. -/
def NoneNear (led : TrackedLed φ) (meas : List (LedMeasurement φ))
    (left : List (Fin meas.length)) : Prop :=
  (∀ other ∈ left, led.within arithmetic params meas[other] = false) ∨
    ∃ first, left.head? = some first ∧ arithmetic.distance led meas[first] = none

/-- An association of the measurements of a frame with a group: `taken` has for each
beacon the position of the measurement that it took. -/
structure IsAssociation (identifier : Option (LedIdentifier φ)) (memory : ℕ → UInt8)
    (myLeds : List (TrackedLed φ)) (meas : List (LedMeasurement φ))
    (taken : List (Option (Fin meas.length))) (result : List (TrackedLed φ)) : Prop where
  length_eq : taken.length = myLeds.length
  /-- No measurement is taken twice. -/
  nodup : taken.reduceOption.Nodup
  kept : ∀ (turn : ℕ) led position, myLeds[turn]? = some led → taken[turn]? = some (some position) →
    IsNearest arithmetic params led meas
      (untaken (List.finRange meas.length) (taken.take turn)) position
  dropped : ∀ (turn : ℕ) led, myLeds[turn]? = some led →
    (taken[turn]? = some none ↔
      NoneNear arithmetic params led meas
        (untaken (List.finRange meas.length) (taken.take turn)))
  /-- The kept beacons with what they took, then a new one for each that nobody took. -/
  result_eq : result =
    (myLeds.zip taken).filterMap (fun entry => entry.2.map fun position =>
      entry.1.resetUsed.addMeasurement meas[position] params.blobsKeepIdentity) ++
    ((untaken (List.finRange meas.length) taken).map meas.get).mapIdx
      fun index => TrackedLed.new identifier (memory index)

/-! ## The loop makes one -/

variable {arithmetic params} {led : TrackedLed φ} {meas : List (LedMeasurement φ)}
  {left : List (Fin meas.length)} {position : Fin meas.length}

/-- What a beacon chooses from the measurements left, in their order, is the nearest. -/
theorem isNearest_of_chosen (hsorted : left.SortedLT)
    (hchosen : left[led.chosen arithmetic params (left.map meas.get)]? = some position) :
    IsNearest arithmetic params led meas left position := by
  rcases led.chosen_cases arithmetic params (left.map meas.get) with
    ⟨least, hleast, hwithin, _⟩ | ⟨hend, _⟩
  · have hleft (other : Fin meas.length) (index : ℕ) (h : left[index]? = some other) :
        (left.map meas.get)[index]? = some meas[other] := by
      rw [List.getElem?_map, h]
      rfl
    obtain ⟨item, hitem, hkey⟩ := hleast.found
    rw [hleft position _ hchosen, Option.some.injEq] at hitem
    subst hitem
    apply IsNearest.mk (List.mem_of_getElem? hchosen)
    · rw [TrackedLed.within, hkey, hwithin]
    · intro other hother
      obtain ⟨index, hindex⟩ := List.getElem?_of_mem hother
      rw [hkey, isLess_some_eq_false]
      exact fun value hvalue => hleast.le index _ value (hleft other index hindex) hvalue
    · intro other hother hbefore
      obtain ⟨index, hindex⟩ := List.getElem?_of_mem hother
      rw [hkey, isLessEqual_some_eq_false]
      intro value hvalue
      have hindex_lt : index < led.chosen arithmetic params (left.map meas.get) := by
        obtain ⟨_, rfl⟩ := List.getElem?_eq_some_iff.mp hindex
        obtain ⟨_, rfl⟩ := List.getElem?_eq_some_iff.mp hchosen
        exact hsorted.getElem_lt_getElem_iff.mp hbefore
      exact hleast.lt index _ value hindex_lt (hleft other index hindex) hvalue
  · rw [hend, List.length_map, List.getElem?_eq_none le_rfl] at hchosen
    cases hchosen

/-- A beacon chooses nothing exactly when there is nothing for it. -/
theorem chosen_eq_none_iff :
    left[led.chosen arithmetic params (left.map meas.get)]? = none ↔
      NoneNear arithmetic params led meas left := by
  have hhead : (left.map meas.get).head? = left.head?.map meas.get := List.head?_map
  rcases led.chosen_cases arithmetic params (left.map meas.get) with
    ⟨least, hleast, hwithin, hfirst⟩ | ⟨hend, hnone⟩
  · apply iff_of_false
    · rw [List.getElem?_eq_none_iff, not_le, ← List.length_map meas.get]
      exact hleast.position_lt
    · rintro (hfar | ⟨first, hleft, hmissing⟩)
      · obtain ⟨item, hitem, hkey⟩ := hleast.found
        obtain ⟨other, hother, rfl⟩ := List.mem_map.mp (List.mem_of_getElem? hitem)
        have hnear : led.within arithmetic params meas[other] = true := by
          exact (congrArg (isLessEqual · (led.limit arithmetic params)) hkey).trans hwithin
        rw [hfar other hother] at hnear
        cases hnear
      · rw [hleft] at hhead
        exact hfirst _ hhead hmissing
  · apply iff_of_true
    · rw [hend, List.length_map]
      exact List.getElem?_eq_none le_rfl
    · rcases hnone with hfar | ⟨item, hitem, hmissing⟩
      · exact Or.inl fun other hother => hfar _ (List.mem_map_of_mem hother)
      · rw [hhead, Option.map_eq_some_iff] at hitem
        obtain ⟨first, hleft, rfl⟩ := hitem
        exact Or.inr ⟨first, hleft, hmissing⟩

/-- The loop is the general one, and the beacons that take nothing are erased. -/
theorem matchLeds_eq (leds : List (TrackedLed φ)) (items : List (LedMeasurement φ)) :
    matchLeds arithmetic params leds items =
      ((leds.zip (assign (TrackedLed.chosen arithmetic params) leds items).1).filterMap
          (fun entry => entry.2.map fun found =>
            entry.1.resetUsed.addMeasurement found params.blobsKeepIdentity),
        (assign (TrackedLed.chosen arithmetic params) leds items).2) := by
  induction leds generalizing items with
  | nil => rfl
  | cons led leds ih =>
      have hchosen : led.resetUsed.nearest arithmetic items
          (led.resetUsed.threshold arithmetic params) = led.chosen arithmetic params items := rfl
      rw [matchLeds, hchosen, assign_cons, List.zip_cons_cons, List.filterMap_cons]
      cases hfound : items[led.chosen arithmetic params items]? with
      | none =>
          rw [List.eraseIdx_of_length_le (List.getElem?_eq_none_iff.mp hfound)]
          exact ih items
      | some found =>
          simp only [Option.map_some]
          rw [ih]

variable (arithmetic params)

/-- The positions that the beacons of a group take. -/
def takenPositions (myLeds : List (TrackedLed φ)) (meas : List (LedMeasurement φ)) :
    List (Option (Fin meas.length)) :=
  (assign (fun led left => led.chosen arithmetic params (left.map meas.get)) myLeds
    (List.finRange meas.length)).1

variable {arithmetic params} {myLeds : List (TrackedLed φ)}

/-- The loop over measurements is the loop over their positions. -/
theorem matchLeds_positions :
    matchLeds arithmetic params myLeds meas =
      ((myLeds.zip (takenPositions arithmetic params myLeds meas)).filterMap
          (fun entry => entry.2.map fun position =>
            entry.1.resetUsed.addMeasurement meas[position] params.blobsKeepIdentity),
        (untaken (List.finRange meas.length)
          (takenPositions arithmetic params myLeds meas)).map meas.get) := by
  have h : matchLeds arithmetic params myLeds ((List.finRange meas.length).map meas.get) = _ :=
    matchLeds_eq myLeds _
  rw [assign_map, List.map_get_finRange, List.zip_map_right, List.filterMap_map,
    assign_left (List.nodup_finRange meas.length)] at h
  rw [h]
  apply Prod.ext
  · apply List.filterMap_congr
    rintro ⟨led, _ | position⟩ _ <;> rfl
  · rfl

theorem getElem?_takenPositions (turn : ℕ) :
    (takenPositions arithmetic params myLeds meas)[turn]? = myLeds[turn]?.map fun led =>
      let left := untaken (List.finRange meas.length)
        ((takenPositions arithmetic params myLeds meas).take turn)
      left[led.chosen arithmetic params (left.map meas.get)]? :=
  getElem?_assign (List.nodup_finRange meas.length) turn

variable {identifier : Option (LedIdentifier φ)} {memory : ℕ → UInt8}

theorem isAssociation_takenPositions :
    IsAssociation arithmetic params identifier memory myLeds meas
      (takenPositions arithmetic params myLeds meas)
      (associate arithmetic params identifier memory myLeds meas) where
  length_eq := length_assign
  nodup :=
    (List.nodup_append.mp (assign_perm.nodup_iff.mpr (List.nodup_finRange meas.length))).1
  kept turn led position hled htaken := by
    rw [getElem?_takenPositions, hled, Option.map_some, Option.some.injEq] at htaken
    exact isNearest_of_chosen
      ((List.sortedLT_finRange meas.length).pairwise.filter _).sortedLT htaken
  dropped turn led hled := by
    rw [getElem?_takenPositions, hled, Option.map_some, Option.some.injEq]
    exact chosen_eq_none_iff
  result_eq := by
    rw [associate, matchLeds_positions]

/-- In an association the latest measurements are those of the frame. -/
theorem IsAssociation.perm {taken : List (Option (Fin meas.length))}
    {result : List (TrackedLed φ)}
    (h : IsAssociation arithmetic params identifier memory myLeds meas taken result) :
    (result.map fun led => led.measurement).Perm meas := by
  have hkept : ((myLeds.zip taken).filterMap (fun entry => entry.2.map fun position =>
      entry.1.resetUsed.addMeasurement meas[position] params.blobsKeepIdentity)).map
        (fun led => led.measurement) = taken.reduceOption.map meas.get := by
    rw [← List.reduceOption_map, List.reduceOption, List.filterMap_map, List.map_filterMap]
    conv_rhs => rw [← List.map_snd_zip h.length_eq.le, List.filterMap_map]
    apply List.filterMap_congr
    rintro ⟨led, _ | position⟩ _
    · rfl
    · exact congrArg some (TrackedLed.measurement_addMeasurement _ _ _)
  have hnew (items : List (LedMeasurement φ)) :
      (items.mapIdx fun index => TrackedLed.new identifier (memory index)).map
        (fun led => led.measurement) = items := by
    apply List.ext_getElem
    · rw [List.length_map, List.length_mapIdx]
    · intro index _ _
      rw [List.getElem_map, List.getElem_mapIdx, TrackedLed.measurement_new]
  rw [h.result_eq, List.map_append, hkept, hnew, ← List.map_append]
  conv_rhs => rw [← List.map_get_finRange meas]
  exact (untaken_perm (List.nodup_finRange meas.length) h.nodup
    fun position _ => List.mem_finRange position).map meas.get

/-- For every group and every list of measurements: the measurements are taken by
position, none twice; a kept beacon took the nearest of those left and within its
threshold; a beacon with none is dropped; the rest become one new beacon each; and the
latest measurements of the group are the measurements of the frame. -/
theorem associate_conserves (arithmetic : BlobArithmetic φ δ κ) (params : BlobParams δ)
    (identifier : Option (LedIdentifier φ)) (memory : ℕ → UInt8) (myLeds : List (TrackedLed φ))
    (undistortedLeds : List (LedMeasurement φ)) :
    ((associate arithmetic params identifier memory myLeds undistortedLeds).map
        fun led => led.measurement).Perm undistortedLeds ∧
      ∃ taken, IsAssociation arithmetic params identifier memory myLeds undistortedLeds taken
        (associate arithmetic params identifier memory myLeds undistortedLeds) :=
  ⟨isAssociation_takenPositions.perm, _, isAssociation_takenPositions⟩

end Association

end OSVR.VbTracker
