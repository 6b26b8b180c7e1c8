/-
# The states of an interface

The state map has an entry for each type of report, behind a flag for having any. A
report changes the entry of its type only, so that a run of reports comes apart into one
run for each type. Where assertions are on, the comparison with the entry can fail.
-/

import OsvrCore.Common.InterfaceState
import OsvrCore.Util.TimeComparison
import Mathlib.Logic.Function.Basic

set_option autoImplicit false

namespace OSVR.Common

open Math Util

universe u v

/-- A report with its type. -/
structure TypedReport {κ : Type v} (State : κ → Type u) where
  type : κ
  report : SensorReport (State type)

/-- The members of `InterfaceState`. -/
structure InterfaceState {κ : Type v} (State : κ → Type u) where
  states : ∀ type, StateMapValue (State type)
  hasAnyState : Bool
  /-- There is no entry without the flag. -/
  flagged : hasAnyState = false → ∀ type, states type = none

variable {κ : Type v} {State : κ → Type u}

namespace InterfaceState

def empty : InterfaceState State := ⟨fun _ => none, false, fun _ _ => rfl⟩

def hasState (state : InterfaceState State) (type : κ) : Bool :=
  state.hasAnyState && (state.states type).isSome

/-- `getState`; the arguments are left alone when there is none. -/
def getState (state : InterfaceState State) (type : κ) : Option (StateMapContents (State type)) :=
  if state.hasState type then state.states type else none

/-- The flag hides nothing. -/
theorem hasState_eq (state : InterfaceState State) (type : κ) :
    state.hasState type = (state.states type).isSome := by
  rw [hasState]
  cases hflag : state.hasAnyState with
  | false => simp [state.flagged hflag type]
  | true => rfl

theorem getState_eq (state : InterfaceState State) (type : κ) :
    state.getState type = state.states type := by
  rw [getState, hasState_eq]
  cases state.states type <;> rfl

variable [DecidableEq κ]

/-- The end of `setStateFromReport`. -/
def put (state : InterfaceState State) (type : κ) (c : StateMapContents (State type)) :
    InterfaceState State where
  states := Function.update state.states type (some c)
  hasAnyState := true
  flagged := nofun

def setStateFromReport (asserts : Bool) (state : InterfaceState State)
    (report : TypedReport State) : Option (InterfaceState State) :=
  match state.getState report.type with
  | some old =>
      (old.timestamp.greaterAsserted asserts report.report.timestamp).map fun greater =>
        if greater then state else state.put report.type report.report.contents
  | none => some (state.put report.type report.report.contents)

/-- The reports one after another. -/
def setStateFromReports (asserts : Bool) (state : InterfaceState State)
    (reports : List (TypedReport State)) : Option (InterfaceState State) :=
  reports.foldlM (setStateFromReport asserts) state

end InterfaceState

variable [DecidableEq κ]

namespace TypedReport

/-- The report, if it is of the type. -/
def ofType (type : κ) (report : TypedReport State) : Option (SensorReport (State type)) :=
  if h : report.type = type then some (h ▸ report.report) else none

/-- The reports of one type, in their order. -/
def allOfType (type : κ) (reports : List (TypedReport State)) : List (SensorReport (State type)) :=
  reports.filterMap (ofType type)

theorem allOfType_concat_self (reports : List (TypedReport State)) (report : TypedReport State) :
    allOfType report.type (reports ++ [report]) =
      allOfType report.type reports ++ [report.report] := by
  simp [allOfType, ofType]

theorem allOfType_concat_of_ne (reports : List (TypedReport State)) {report : TypedReport State}
    {type : κ} (h : type ≠ report.type) :
    allOfType type (reports ++ [report]) = allOfType type reports := by
  simp [allOfType, ofType, Ne.symm h]

end TypedReport

namespace InterfaceState

variable {state next : InterfaceState State} {report : TypedReport State} {asserts : Bool}

/-! ## One report -/

theorem entry_put (state : InterfaceState State) (type : κ) (c : StateMapContents (State type)) :
    (state.put type c).states type = some c := Function.update_self _ _ _

theorem entry_put_of_ne (state : InterfaceState State) {type other : κ} (h : other ≠ type)
    (c : StateMapContents (State type)) :
    (state.put type c).states other = state.states other := Function.update_of_ne h _ _

/-- The entry of its type gets the report, and the flag is set. -/
theorem entry_of_setStateFromReport (h : state.setStateFromReport asserts report = some next) :
    next.states report.type =
      (state.states report.type).setStateFromReport report.report := by
  rw [setStateFromReport, getState_eq] at h
  cases hentry : state.states report.type with
  | none =>
      rw [hentry] at h
      obtain rfl := Option.some_inj.mp h
      exact entry_put state report.type report.report.contents
  | some old =>
      simp only [hentry, Option.map_eq_some_iff] at h
      have ⟨greater, hgreater, hnext⟩ := h
      have ⟨hcomparison, _⟩ := TimeValue.asserted_eq_some_iff.mp hgreater
      subst hnext hcomparison
      rw [StateMapValue.setStateFromReport]
      split
      · exact hentry
      · exact entry_put state report.type report.report.contents

theorem entry_of_ne (h : state.setStateFromReport asserts report = some next) {type : κ}
    (hne : type ≠ report.type) : next.states type = state.states type := by
  rw [setStateFromReport] at h
  cases hentry : state.getState report.type with
  | none =>
      rw [hentry] at h
      obtain rfl := Option.some_inj.mp h
      exact entry_put_of_ne state hne report.report.contents
  | some old =>
      simp only [hentry, Option.map_eq_some_iff] at h
      have ⟨greater, _, hnext⟩ := h
      subst hnext
      split
      · rfl
      · exact entry_put_of_ne state hne report.report.contents

/-- An assertion fails when one of the two times that are compared does not pass. -/
theorem setStateFromReport_isSome_iff :
    (state.setStateFromReport asserts report).isSome = true ↔
      (asserts = true → ∀ old, state.states report.type = some old →
        old.timestamp.isNormalized = some true ∧
          report.report.timestamp.isNormalized = some true) := by
  rw [setStateFromReport, getState_eq]
  cases hentry : state.states report.type with
  | none => simp
  | some old =>
      simp only [Option.isSome_map, Option.isSome_iff_exists, TimeValue.greaterAsserted,
        TimeValue.asserted_eq_some_iff]
      simp

/-! ## A run of reports -/

theorem setStateFromReports_concat (asserts : Bool) (state : InterfaceState State)
    (reports : List (TypedReport State)) (report : TypedReport State) :
    state.setStateFromReports asserts (reports ++ [report]) =
      (state.setStateFromReports asserts reports).bind fun before =>
        before.setStateFromReport asserts report := by
  simp [setStateFromReports, List.foldlM_append]

/-- A run comes apart into one run for each type. -/
theorem entry_of_setStateFromReports {reports : List (TypedReport State)}
    {final : InterfaceState State} (h : state.setStateFromReports asserts reports = some final)
    (type : κ) :
    final.states type =
      (state.states type).setStateFromReports (TypedReport.allOfType type reports) := by
  induction reports using List.reverseRecOn generalizing final with
  | nil =>
      obtain rfl := Option.some_inj.mp h
      rfl
  | append_singleton reports report ih =>
      rw [setStateFromReports_concat, Option.bind_eq_some_iff] at h
      have ⟨before, hbefore, hlast⟩ := h
      have hentry := ih hbefore
      by_cases htype : type = report.type
      · subst htype
        rw [TypedReport.allOfType_concat_self, StateMapValue.setStateFromReports,
          List.foldl_append, entry_of_setStateFromReport hlast, hentry]
        rfl
      · rw [TypedReport.allOfType_concat_of_ne reports htype, entry_of_ne hlast htype, hentry]

/-- The entry of a type is that of its newest report. -/
theorem entry_eq {reports : List (TypedReport State)} {final : InterfaceState State}
    (h : empty.setStateFromReports asserts reports = some final) (type : κ) :
    final.states type =
      (latestMax SensorReport.time (TypedReport.allOfType type reports)).map
        SensorReport.contents := by
  rw [entry_of_setStateFromReports h, ← SensorReport.setStateFromReports_eq]
  rfl

/-- Without assertions every report is taken. -/
theorem setStateFromReports_false (reports : List (TypedReport State)) :
    ((empty : InterfaceState State).setStateFromReports false reports).isSome = true := by
  induction reports using List.reverseRecOn with
  | nil => rfl
  | append_singleton reports report ih =>
      have ⟨before, hbefore⟩ := Option.isSome_iff_exists.mp ih
      rw [setStateFromReports_concat, hbefore, Option.bind_some, setStateFromReport_isSome_iff]
      nofun

theorem eq_of_length_le_one {α : Type u} {values : List α} (hlength : values.length ≤ 1)
    {value other : α} (hvalue : value ∈ values) (hother : other ∈ values) : value = other := by
  match values with
  | [] => cases hvalue
  | [only] => rw [List.mem_singleton.mp hvalue, List.mem_singleton.mp hother]
  | _ :: _ :: _ => simp at hlength

/-- One more value: nothing is asked of it alone, and of each as soon as there are two. -/
theorem one_or_all_concat_iff {α : Type u} {values : List α} {last : α} {p : α → Prop} :
    ((values ++ [last]).length ≤ 1 ∨ ∀ value ∈ values ++ [last], p value) ↔
      ∀ value ∈ values, p value ∧ p last := by
  rw [List.length_append, List.length_singleton]
  apply Iff.intro
  · rintro (hlength | hall) value hmem
    · have := List.length_pos_of_mem hmem
      omega
    · exact ⟨hall value (List.mem_append_left _ hmem), hall last (by simp)⟩
  · intro h
    cases values with
    | nil => exact .inl (le_refl 1)
    | cons first rest =>
        apply Or.inr
        intro value hmem
        rcases List.mem_append.mp hmem with hbefore | hlast
        · exact (h value hbefore).1
        · rw [List.mem_singleton.mp hlast]
          exact (h first List.mem_cons_self).2

/-- After a run that has passed, the comparison with the newest report decides. -/
theorem setStateFromReport_after_iff {reports : List (TypedReport State)}
    {before : InterfaceState State} {report : TypedReport State}
    (hrun : empty.setStateFromReports true reports = some before)
    (hpasses : (TypedReport.allOfType report.type reports).length ≤ 1 ∨
      ∀ earlier ∈ TypedReport.allOfType report.type reports,
        earlier.timestamp.isNormalized = some true) :
    (before.setStateFromReport true report).isSome = true ↔
      ∀ earlier ∈ TypedReport.allOfType report.type reports,
        earlier.timestamp.isNormalized = some true ∧
          report.report.timestamp.isNormalized = some true := by
  rw [setStateFromReport_isSome_iff, entry_eq hrun]
  cases hnewest : latestMax SensorReport.time (TypedReport.allOfType report.type reports) with
  | none =>
      rw [latestMax_eq_none_iff.mp hnewest]
      simp
  | some newest =>
      have hmem := (isLatestMax_of_latestMax hnewest).mem
      apply Iff.intro
      · intro h earlier hearlier
        obtain ⟨hold, hnew⟩ := h rfl newest.contents rfl
        apply And.intro _ hnew
        rcases hpasses with hlength | hall
        · rw [eq_of_length_le_one hlength hearlier hmem]
          exact hold
        · exact hall earlier hearlier
      · intro h _ old hold
        obtain rfl := Option.some_inj.mp hold
        exact h newest hmem

/-- The assertions hold in a run just when each type has one report at most, or only
reports whose times pass. -/
theorem setStateFromReports_true_iff (reports : List (TypedReport State)) :
    ((empty : InterfaceState State).setStateFromReports true reports).isSome = true ↔
      ∀ type, (TypedReport.allOfType type reports).length ≤ 1 ∨
        ∀ report ∈ TypedReport.allOfType type reports,
          report.timestamp.isNormalized = some true := by
  induction reports using List.reverseRecOn with
  | nil => simp [setStateFromReports, TypedReport.allOfType]
  | append_singleton reports report ih =>
      rw [setStateFromReports_concat]
      apply Iff.intro
      · intro h type
        obtain ⟨after, hafter⟩ := Option.isSome_iff_exists.mp h
        obtain ⟨before, hrun, hstep⟩ := Option.bind_eq_some_iff.mp hafter
        have hearlier := ih.mp (by rw [hrun]; rfl)
        by_cases htype : type = report.type
        · subst htype
          rw [TypedReport.allOfType_concat_self, one_or_all_concat_iff]
          exact (setStateFromReport_after_iff hrun (hearlier report.type)).mp (by rw [hstep]; rfl)
        · rw [TypedReport.allOfType_concat_of_ne reports htype]
          exact hearlier type
      · intro h
        have hlast := h report.type
        rw [TypedReport.allOfType_concat_self, one_or_all_concat_iff] at hlast
        have hearlier (type : κ) : (TypedReport.allOfType type reports).length ≤ 1 ∨
            ∀ earlier ∈ TypedReport.allOfType type reports,
              earlier.timestamp.isNormalized = some true := by
          by_cases htype : type = report.type
          · subst htype
            exact .inr fun earlier hmem => (hlast earlier hmem).1
          · rw [← TypedReport.allOfType_concat_of_ne reports htype]
            exact h type
        obtain ⟨before, hrun⟩ := Option.isSome_iff_exists.mp (ih.mpr hearlier)
        rw [hrun, Option.bind_some]
        exact (setStateFromReport_after_iff hrun (hearlier report.type)).mpr hlast

/-! ## The assertions -/

theorem timestamp_mem_of_entry {reports : List (TypedReport State)} {final : InterfaceState State}
    (h : empty.setStateFromReports asserts reports = some final) {type : κ}
    {contents : StateMapContents (State type)} (hentry : final.states type = some contents) :
    ∃ report ∈ TypedReport.allOfType type reports, report.timestamp = contents.timestamp := by
  rw [entry_eq h, Option.map_eq_some_iff] at hentry
  have ⟨newest, hnewest, hcontents⟩ := hentry
  subst hcontents
  exact ⟨newest, (isLatestMax_of_latestMax hnewest).mem, rfl⟩

/-- Which results of normalizing, of sums and of differences pass for normalized, and so when
the assertions hold: in a comparison of normal forms, and in a run of reports with such times. -/
theorem assertions_iff (State : κ → Type u) :
    (∀ tv result : TimeValue, tv.Representable → tv.normalize = some result →
      (result.isNormalized = some true ↔ TimeValue.PassesFor tv.total)) ∧
    (∀ tvA tvB result : TimeValue, tvA.sum tvB = some result →
      (result.isNormalized = some true ↔ TimeValue.PassesFor (tvA.total + tvB.total))) ∧
    (∀ tvA tvB result : TimeValue, tvA.difference tvB = some result →
      (result.isNormalized = some true ↔ TimeValue.PassesFor (tvA.total - tvB.total))) ∧
    (∀ tvA tvB : TimeValue, tvA.Normal → tvB.Normal →
      ∀ comparison ∈ [TimeValue.greaterAsserted true, TimeValue.gt true, TimeValue.lt true,
          TimeValue.eq true, TimeValue.ne true],
        (comparison tvA tvB).isSome = true ↔
          TimeValue.PassesFor tvA.total ∧ TimeValue.PassesFor tvB.total) ∧
    ∀ reports : List (TypedReport State),
      (∀ type, ∀ report ∈ TypedReport.allOfType type reports, report.timestamp.Normal) →
        (((empty : InterfaceState State).setStateFromReports true reports).isSome = true ↔
          ∀ type, (TypedReport.allOfType type reports).length ≤ 1 ∨
            ∀ report ∈ TypedReport.allOfType type reports,
              TimeValue.PassesFor report.timestamp.total) ∧
        ∀ asserts final, empty.setStateFromReports asserts reports = some final →
          ∀ type contents, final.states type = some contents →
            (contents.timestamp.isNormalized = some true ↔
              TimeValue.PassesFor contents.timestamp.total) := by
  refine ⟨?_, ?_, ?_, ?_, ?_⟩
  · intro tv result hrep hresult
    rw [TimeValue.normalize_eq_some hrep hresult]
    exact TimeValue.isNormalized_ofTotal_iff _
  · intro tvA tvB result hresult
    rw [TimeValue.sum_eq_some hresult]
    exact TimeValue.isNormalized_ofTotal_iff _
  · intro tvA tvB result hresult
    rw [TimeValue.difference_eq_some hresult]
    exact TimeValue.isNormalized_ofTotal_iff _
  · intro tvA tvB hA hB comparison hmem
    have hboth : ∀ plain, (TimeValue.asserted true plain tvA tvB).isSome = true ↔
        TimeValue.PassesFor tvA.total ∧ TimeValue.PassesFor tvB.total :=
      fun _ => TimeValue.asserted_isSome_iff hA hB
    simp only [List.mem_cons, List.not_mem_nil, or_false] at hmem
    rcases hmem with rfl | rfl | rfl | rfl | rfl
    · exact hboth _
    · exact hboth _
    · exact (TimeValue.asserted_isSome_iff hB hA).trans and_comm
    · exact hboth _
    · exact hboth _
  · intro reports hnormal
    apply And.intro
    · rw [setStateFromReports_true_iff]
      apply forall_congr'
      intro type
      apply or_congr_right
      apply forall₂_congr
      intro report hmem
      exact TimeValue.isNormalized_iff (hnormal type report hmem)
    · intro asserts final hrun type contents hentry
      have ⟨report, hmem, htimestamp⟩ := timestamp_mem_of_entry hrun hentry
      rw [← htimestamp]
      exact TimeValue.isNormalized_iff (hnormal type report hmem)

/-- A report at a time, without anything else. -/
def reportAt (timestamp : TimeValue) : TypedReport fun _ : Unit => Unit :=
  ⟨(), ⟨0, timestamp, ()⟩⟩

/-- At five seconds the normal form does not pass, and the second report is not taken. -/
theorem assertions_fiveSeconds :
    (TimeValue.mk 5 0).normalize = some ⟨5, 0⟩ ∧
      (TimeValue.mk 5 0).isNormalized = some false ∧
      (empty.setStateFromReports true [reportAt ⟨5, 0⟩, reportAt ⟨5, 0⟩]).isNone = true ∧
      ¬∀ tv result : TimeValue, tv.Representable → tv.normalize = some result →
        result.isNormalized = some true := by
  refine ⟨by decide, by decide, by decide, ?_⟩
  intro h
  exact absurd (h ⟨5, 0⟩ ⟨5, 0⟩ (by decide) (by decide)) (by decide)

theorem normal_passing : (TimeValue.mk 5 1).Normal := ⟨by decide, by decide, by decide⟩

theorem assertions_iff_passing :
    (TimeValue.mk 5 1).isNormalized = some true ∧
      (empty.setStateFromReports true [reportAt ⟨5, 1⟩, reportAt ⟨5, 1⟩]).isSome = true := by
  have ⟨hnormalize, _, _, _, hruns⟩ := assertions_iff fun _ : Unit => Unit
  have hpasses : TimeValue.PassesFor (TimeValue.mk 5 1).total := by decide
  have hresult := hnormalize ⟨5, 1⟩ ⟨5, 1⟩ (by decide) (by decide)
  have ⟨hrun, _⟩ := hruns [reportAt ⟨5, 1⟩, reportAt ⟨5, 1⟩] fun _ report hmem => by
    obtain rfl | rfl := List.mem_pair.mp hmem <;> exact normal_passing
  apply And.intro (hresult.mpr hpasses)
  apply hrun.mpr
  intro type
  apply Or.inr
  intro report hmem
  obtain rfl | rfl := List.mem_pair.mp hmem <;> exact hpasses

end InterfaceState
end OSVR.Common
