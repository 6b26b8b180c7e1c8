/-
# The novelty of a beacon

A beacon whose identification differs from the identity that it held gets the greatest
novelty, which decays with every further measurement. The constructor does not set it, so
that a beacon whose identification has never differed has what the memory held before,
less its measurements; without an identifier not even these.
-/

import OsvrCore.Math.DecayingCounter
import OsvrCore.VbTracker.LedAssociation

set_option autoImplicit false

namespace OSVR.VbTracker

open Math

universe u

variable {φ : Type u}

/-! ## Calls on a beacon -/

namespace TrackedLed

/-- The identity is refuted; of the history only the latest brightness stays. -/
def markMisidentified (led : TrackedLed φ) : TrackedLed φ :=
  { led with
    id := SENTINEL_NO_IDENTIFIER_OBJECT_OR_INSUFFICIENT_DATA
    brightnessHistory :=
      if led.brightnessHistory.isEmpty then led.brightnessHistory
      else [led.measurement.brightness] }

end TrackedLed

/-- What the identifier answers: the identity, the history that it leaves and whether the
beacon is bright. -/
abbrev LedAnswer (φ : Type u) := ℤ × List φ × Bool

/-- The identifier that gives an answer to everything. -/
def LedIdentifier.answering (answer : LedAnswer φ) : LedIdentifier φ :=
  { getId := fun _ _ _ _ => answer }

/-- A call on a beacon, with the answer of the identifier where it is asked. -/
inductive LedCall (φ : Type u) where
  | addMeasurement (meas : LedMeasurement φ) (blobsKeepId : Bool) (answer : LedAnswer φ)
  | markMisidentified

namespace LedCall

/-- The beacon after a call; it has an identifier if it had one. -/
def apply (led : TrackedLed φ) : LedCall φ → TrackedLed φ
  | .addMeasurement meas blobsKeepId answer =>
      { led with identifier := led.identifier.map fun _ => .answering answer }.addMeasurement
        meas blobsKeepId
  | .markMisidentified => led.markMisidentified

/-- A beacon from its construction on; `memory` is what its novelty held before. -/
def run (hasIdentifier : Bool) (memory : UInt8) (meas : LedMeasurement φ)
    (answer : LedAnswer φ) (calls : List (LedCall φ)) : TrackedLed φ :=
  calls.foldl apply
    (TrackedLed.new (if hasIdentifier then some (.answering answer) else none) memory meas)

/-- The identity that an answer gives; without an identifier there is none. -/
def identity (hasIdentifier : Bool) (answer : LedAnswer φ) : ℤ :=
  if hasIdentifier then answer.1 else SENTINEL_NO_IDENTIFIER_OBJECT_OR_INSUFFICIENT_DATA

/-- For each measurement, whether the identification differs from the identity held just
before it, which is `held` at the first. -/
def differences (hasIdentifier : Bool) (held : ℤ) : List (LedCall φ) → List Bool
  | [] => []
  | .addMeasurement _ _ answer :: calls =>
      decide (held ≠ identity hasIdentifier answer) ::
        differences hasIdentifier (identity hasIdentifier answer) calls
  | .markMisidentified :: calls =>
      differences hasIdentifier SENTINEL_NO_IDENTIFIER_OBJECT_OR_INSUFFICIENT_DATA calls

/-- The differences of a whole run, which the construction begins. -/
def runDifferences (hasIdentifier : Bool) (meas : LedMeasurement φ) (answer : LedAnswer φ)
    (calls : List (LedCall φ)) : List Bool :=
  differences hasIdentifier SENTINEL_NO_IDENTIFIER_OBJECT_OR_INSUFFICIENT_DATA
    (.addMeasurement meas false answer :: calls)

/-! ## One call -/

/-- A measurement without an identifier. -/
theorem novelty_addMeasurement_none {led : TrackedLed φ} (h : led.identifier = none)
    (meas : LedMeasurement φ) (blobsKeepId : Bool) (answer : LedAnswer φ) :
    (apply led (.addMeasurement meas blobsKeepId answer)).novelty = led.novelty := by
  rw [apply, h]
  rfl

/-- A measurement with an identifier. -/
theorem novelty_addMeasurement_some {led : TrackedLed φ} {identifier : LedIdentifier φ}
    (h : led.identifier = some identifier) (meas : LedMeasurement φ) (blobsKeepId : Bool)
    (answer : LedAnswer φ) :
    (apply led (.addMeasurement meas blobsKeepId answer)).novelty.toNat =
      decayStep MAX_NOVELTY.toNat led.novelty.toNat (decide (led.id ≠ answer.1)) := by
  rw [apply, h, TrackedLed.addMeasurement]
  by_cases hdiffers : led.id = answer.1
  · by_cases hzero : led.novelty = 0
    · simp [decayStep, LedIdentifier.answering, hdiffers, hzero]
    · have hpos : 1 ≤ led.novelty := by
        rw [UInt8.le_iff_toNat_le]
        have hne : led.novelty.toNat ≠ 0 := fun h => hzero (UInt8.toNat_inj.mp h)
        exact Nat.one_le_iff_ne_zero.mpr hne
      simp [decayStep, LedIdentifier.answering, hdiffers, hzero,
        UInt8.toNat_sub_of_le _ _ hpos]
  · simp [decayStep, LedIdentifier.answering, hdiffers]

/-- A call neither takes nor gives an identifier. -/
@[simp] theorem isSome_identifier_apply (led : TrackedLed φ) (call : LedCall φ) :
    (apply led call).identifier.isSome = led.identifier.isSome := by
  cases call with
  | addMeasurement meas blobsKeepId answer =>
      rw [apply, TrackedLed.addMeasurement]
      cases led.identifier <;> rfl
  | markMisidentified => rfl

/-- The identity after a measurement is the answer. -/
theorem id_addMeasurement (led : TrackedLed φ) (meas : LedMeasurement φ) (blobsKeepId : Bool)
    (answer : LedAnswer φ) :
    (apply led (.addMeasurement meas blobsKeepId answer)).id =
      identity led.identifier.isSome answer := by
  rw [apply, TrackedLed.addMeasurement]
  cases led.identifier <;> rfl

/-! ## Runs -/

/-- Without an identifier no identification ever differs. -/
theorem differences_false (calls : List (LedCall φ)) :
    true ∉ differences false SENTINEL_NO_IDENTIFIER_OBJECT_OR_INSUFFICIENT_DATA calls := by
  induction calls with
  | nil => exact List.not_mem_nil
  | cons call calls ih =>
      cases call with
      | addMeasurement meas blobsKeepId answer => simpa [differences, identity] using ih
      | markMisidentified => simpa [differences] using ih

/-- Without an identifier the novelty stays as it was. -/
theorem novelty_foldl_none {led : TrackedLed φ} (h : led.identifier.isSome = false)
    (calls : List (LedCall φ)) : (calls.foldl apply led).novelty = led.novelty := by
  induction calls generalizing led with
  | nil => rfl
  | cons call calls ih =>
      rw [List.foldl_cons, ih (by simpa using h)]
      cases call with
      | addMeasurement meas blobsKeepId answer =>
          exact novelty_addMeasurement_none (Option.isSome_eq_false_iff.mp h |>
            Option.isNone_iff_eq_none.mp) meas blobsKeepId answer
      | markMisidentified => rfl

/-- With an identifier the novelty is a counter that the differences set. -/
theorem novelty_foldl_some {led : TrackedLed φ} (h : led.identifier.isSome = true)
    (calls : List (LedCall φ)) :
    (calls.foldl apply led).novelty.toNat =
      (differences true led.id calls).foldl (decayStep MAX_NOVELTY.toNat) led.novelty.toNat := by
  induction calls generalizing led with
  | nil => rfl
  | cons call calls ih =>
      rw [List.foldl_cons, ih (by simpa using h)]
      cases call with
      | addMeasurement meas blobsKeepId answer =>
          obtain ⟨identifier, hidentifier⟩ := Option.isSome_iff_exists.mp h
          rw [id_addMeasurement, h, differences, List.foldl_cons,
            novelty_addMeasurement_some hidentifier]
          rfl
      | markMisidentified => rfl

/-- The beacon before its first measurement. -/
def blank (hasIdentifier : Bool) (memory : UInt8) (meas : LedMeasurement φ)
    (answer : LedAnswer φ) : TrackedLed φ :=
  { id := SENTINEL_NO_IDENTIFIER_OBJECT_OR_INSUFFICIENT_DATA
    lastBright := false
    wasUsedLastFrame := false
    measurement := meas
    brightnessHistory := []
    identifier := if hasIdentifier then some (.answering answer) else none
    novelty := memory }

/-- The construction is the first measurement of the run. -/
theorem run_eq_foldl (hasIdentifier : Bool) (memory : UInt8) (meas : LedMeasurement φ)
    (answer : LedAnswer φ) (calls : List (LedCall φ)) :
    run hasIdentifier memory meas answer calls =
      (.addMeasurement meas false answer :: calls).foldl apply
        (blank hasIdentifier memory meas answer) := by
  cases hasIdentifier <;> rfl

theorem novelty_run_false (memory : UInt8) (meas : LedMeasurement φ) (answer : LedAnswer φ)
    (calls : List (LedCall φ)) : (run false memory meas answer calls).novelty = memory := by
  rw [run_eq_foldl, novelty_foldl_none rfl]
  rfl

/-- The novelty after a run with an identifier. -/
theorem novelty_run_true (memory : UInt8) (meas : LedMeasurement φ) (answer : LedAnswer φ)
    (calls : List (LedCall φ)) :
    (run true memory meas answer calls).novelty.toNat =
      match sinceChange (runDifferences true meas answer calls) with
      | some count => MAX_NOVELTY.toNat - count
      | none => memory.toNat - (runDifferences true meas answer calls).length := by
  rw [run_eq_foldl, novelty_foldl_some rfl]
  exact foldl_decayStep MAX_NOVELTY.toNat memory.toNat (runDifferences true meas answer calls)

/-! ## The law -/

/-- The novelty after the calls does not depend on the memory, stays within the bound, and
decays from the last identification that differed. -/
structure NoveltyLaw (hasIdentifier : Bool) (meas : LedMeasurement φ) (answer : LedAnswer φ)
    (calls : List (LedCall φ)) : Prop where
  determined : ∀ memory other : UInt8,
    (run hasIdentifier memory meas answer calls).novelty =
      (run hasIdentifier other meas answer calls).novelty
  bounded : ∀ memory : UInt8,
    (run hasIdentifier memory meas answer calls).novelty ≤ MAX_NOVELTY
  decays : ∀ (memory : UInt8) (count : ℕ),
    sinceChange (runDifferences hasIdentifier meas answer calls) = some count →
    (run hasIdentifier memory meas answer calls).novelty.toNat = MAX_NOVELTY.toNat - count

/-- What a run that has met a change leaves. -/
theorem noveltyLaw_of_novelty {hasIdentifier : Bool} {meas : LedMeasurement φ}
    {answer : LedAnswer φ} {calls : List (LedCall φ)} (value : ℕ)
    (hbound : value ≤ MAX_NOVELTY.toNat)
    (hnovelty : ∀ memory : UInt8,
      (run hasIdentifier memory meas answer calls).novelty.toNat = value)
    (hdecays : ∀ count, sinceChange (runDifferences hasIdentifier meas answer calls) =
      some count → value = MAX_NOVELTY.toNat - count) :
    NoveltyLaw hasIdentifier meas answer calls where
  determined := fun memory other => UInt8.toNat_inj.mp (by rw [hnovelty, hnovelty])
  bounded := fun memory => UInt8.le_iff_toNat_le.mpr (by rw [hnovelty]; exact hbound)
  decays := fun memory count hcount => by rw [hnovelty, hdecays count hcount]

/-- The law holds exactly when some identification has differed, or when there is an
identifier and the measurements are so many that every byte has decayed. -/
theorem noveltyLaw_iff (hasIdentifier : Bool) (meas : LedMeasurement φ) (answer : LedAnswer φ)
    (calls : List (LedCall φ)) :
    NoveltyLaw hasIdentifier meas answer calls ↔
      true ∈ runDifferences hasIdentifier meas answer calls ∨
        hasIdentifier = true ∧
          255 ≤ (runDifferences hasIdentifier meas answer calls).length := by
  cases hasIdentifier with
  | false =>
      apply Iff.intro
      · intro law
        have hsame := law.determined 0 1
        rw [novelty_run_false, novelty_run_false] at hsame
        cases hsame
      · rintro (hchange | ⟨hfalse, _⟩)
        · exact absurd hchange (differences_false _)
        · cases hfalse
  | true =>
      cases hsince : sinceChange (runDifferences true meas answer calls) with
      | some count =>
          have hchange : true ∈ runDifferences true meas answer calls := by
            by_contra hnone
            rw [(sinceChange_eq_none_iff _).mpr hnone] at hsince
            cases hsince
          apply iff_of_true _ (Or.inl hchange)
          apply noveltyLaw_of_novelty (MAX_NOVELTY.toNat - count) (Nat.sub_le _ _)
          · intro memory
            rw [novelty_run_true, hsince]
          · intro other hother
            rw [hsince] at hother
            rw [Option.some_inj.mp hother]
      | none =>
          have hchange := (sinceChange_eq_none_iff _).mp hsince
          apply Iff.intro
          · intro law
            apply Or.inr
            apply And.intro rfl
            have hsame := congrArg UInt8.toNat (law.determined 0 255)
            rw [novelty_run_true, novelty_run_true, hsince] at hsame
            have hzero : (0 : UInt8).toNat = 0 := rfl
            have hbyte : (255 : UInt8).toNat = 255 := rfl
            simp only [hzero, hbyte] at hsame
            omega
          · rintro (hsome | ⟨_, hlong⟩)
            · exact absurd hsome hchange
            · apply noveltyLaw_of_novelty 0 (Nat.zero_le _)
              · intro memory
                have hbyte : memory.toNat < 256 := memory.toNat_lt
                rw [novelty_run_true, hsince]
                exact Nat.sub_eq_zero_of_le (by omega)
              · intro count hcount
                rw [hsince] at hcount
                cases hcount

/-- A beacon without an identifier keeps what the memory held. -/
theorem not_noveltyLaw_fresh :
    ¬ ∀ hasIdentifier (meas : LedMeasurement ℤ) answer calls,
      NoveltyLaw hasIdentifier meas answer calls := by
  intro h
  have hbound := (h false ⟨(0, 0), 0, 0, 0, 0, false, (0, 0)⟩ (0, [], false) []).bounded 200
  rw [novelty_run_false] at hbound
  exact absurd hbound (by decide)

end LedCall

end OSVR.VbTracker
