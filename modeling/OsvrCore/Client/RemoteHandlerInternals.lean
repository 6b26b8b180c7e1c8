/-
# Reports for the interfaces of a handler

A handler gives every report to each of its interfaces, which keep what is newest of each
type. Times in the normal form are as old as their totals say.
-/

import OsvrCore.Client.ClientContext
import OsvrCore.Common.InterfaceStateMap

set_option autoImplicit false

namespace OSVR.Client

open Common Math Util

universe u v

/-- `KeepStateForReport`. -/
def ReportType.keepsState : ReportType → Bool
  | .imaging => false
  | .analog | .button | .pose | .position | .orientation | .velocity | .linearVelocity
  | .angularVelocity | .acceleration | .linearAcceleration | .angularAcceleration | .location2D
  | .direction | .eyeTracker2D | .eyeTracker3D | .eyeTrackerBlink | .naviVelocity
  | .naviPosition => true

/-- A report that passes the static assertion. -/
structure KeptReport (State : ReportType → Type u) extends TypedReport State where
  keepsState : type.keepsState = true

variable {State : ReportType → Type u}

namespace RemoteHandlerInternals

/-! ## Each state by itself -/

section Each

variable {σ : Type u} {ρ : Type v} (step : σ → ρ → Option σ)

/-- The same step for each of some states. -/
def stepEach (states : List σ) (report : ρ) : Option (List σ) :=
  states.mapM fun state => step state report

theorem foldlM_stepEach_cons (reports : List ρ) (state : σ) (states : List σ) :
    reports.foldlM (stepEach step) (state :: states) =
      (reports.foldlM step state).bind fun next =>
        (reports.foldlM (stepEach step) states).bind fun others => some (next :: others) := by
  induction reports generalizing state states with
  | nil => rfl
  | cons report reports ih =>
      rw [List.foldlM_cons, List.foldlM_cons, List.foldlM_cons, stepEach,
        List.mapM_cons, ← stepEach]
      cases step state report with
      | none => rfl
      | some next =>
          cases stepEach step states report with
          | none => cases hrun : reports.foldlM step next <;> simp [hrun]
          | some others => exact ih next others

/-- A run over many states is a run over each of them. -/
theorem foldlM_stepEach (reports : List ρ) (states : List σ) :
    reports.foldlM (stepEach step) states = states.mapM fun state => reports.foldlM step state := by
  induction states with
  | nil =>
      induction reports with
      | nil => rfl
      | cons report reports ih => exact ih
  | cons state states ih =>
      rw [foldlM_stepEach_cons, ih, List.mapM_cons]
      rfl

end Each

/-- `setStateAndTriggerCallbacks`, as far as states go: no callback changes one. -/
def setStateAndTriggerCallbacks (asserts : Bool) (interfaces : List (InterfaceState State))
    (report : KeptReport State) : Option (List (InterfaceState State)) :=
  stepEach (fun iface (report : KeptReport State) =>
    iface.setStateFromReport asserts report.toTypedReport) interfaces report

/-- The reports one after another. -/
def handle (asserts : Bool) (interfaces : List (InterfaceState State))
    (reports : List (KeptReport State)) : Option (List (InterfaceState State)) :=
  reports.foldlM (setStateAndTriggerCallbacks asserts) interfaces

theorem handle_eq (asserts : Bool) (interfaces : List (InterfaceState State))
    (reports : List (KeptReport State)) :
    handle asserts interfaces reports =
      interfaces.mapM fun iface =>
        iface.setStateFromReports asserts (reports.map KeptReport.toTypedReport) := by
  refine (foldlM_stepEach _ reports interfaces).trans ?_
  congr
  funext iface
  rw [InterfaceState.setStateFromReports, List.foldlM_map]

/-! ## The newest report of each type -/

/-- The reports of a type among those that were given. -/
def reportsOf (type : ReportType) (reports : List (KeptReport State)) :
    List (SensorReport (State type)) :=
  TypedReport.allOfType type (reports.map KeptReport.toTypedReport)

theorem mapM_replicate {α : Type u} {f : α → Option α} {value next : α} (h : f value = some next)
    (n : ℕ) : (List.replicate n value).mapM f = some (List.replicate n next) := by
  induction n with
  | zero => rfl
  | succ n ih =>
      rw [List.replicate_succ, List.mapM_cons, h, ih]
      rfl

theorem mem_reportsOf {type : ReportType} {reports : List (KeptReport State)}
    {report : SensorReport (State type)} (hmem : report ∈ reportsOf type reports) :
    ∃ kept ∈ reports, kept.report.timestamp = report.timestamp := by
  rw [reportsOf, TypedReport.allOfType, List.filterMap_map, List.mem_filterMap] at hmem
  obtain ⟨kept, hkept, hof⟩ := hmem
  refine ⟨kept, hkept, ?_⟩
  simp only [Function.comp, TypedReport.ofType] at hof
  split at hof
  next htype =>
    subst htype
    rw [← Option.some_inj.mp hof]
  next => cases hof

/-- No earlier report is newer, and no later one as new. -/
def IsNewest {β : Type u} (reports : List (SensorReport β)) (report : SensorReport β) : Prop :=
  ∃ before after, reports = before ++ report :: after ∧
    (∀ earlier ∈ before, earlier.timestamp.total ≤ report.timestamp.total) ∧
    ∀ later ∈ after, later.timestamp.total < report.timestamp.total

theorem isLatestMax_iff {β : Type u} {reports : List (SensorReport β)} {report : SensorReport β}
    (hnormal : ∀ report ∈ reports, report.timestamp.Normal) :
    IsLatestMax SensorReport.time reports report ↔ IsNewest reports report := by
  unfold IsLatestMax IsNewest
  apply exists₂_congr
  intro before after
  apply and_congr_right
  rintro rfl
  have hreport := hnormal report (by simp)
  apply and_congr
  · apply forall₂_congr
    intro earlier hmem
    have hearlier := hnormal earlier (List.mem_append_left _ hmem)
    rw [← not_lt, ← not_lt]
    exact not_congr (hreport.key_lt_iff hearlier)
  · apply forall₂_congr
    intro later hmem
    have hlater := hnormal later (by simp [hmem])
    exact hlater.key_lt_iff hreport

/-- The state that each of the interfaces has after the reports: of each type that of the newest
one with its time, and of equally old ones of the last; none of a type without a report. -/
def KeepsNewest (asserts : Bool) (n : ℕ) (reports : List (KeptReport State)) : Prop :=
  ∃ final : InterfaceState State,
    handle asserts (List.replicate n .empty) reports = some (List.replicate n final) ∧
      ∀ type,
        (final.hasState type = true ↔ reportsOf type reports ≠ []) ∧
        ∀ contents, final.getState type = some contents ↔
          ∃ report, IsNewest (reportsOf type reports) report ∧
            contents = ⟨report.state, report.timestamp⟩

/-- What a run that has passed has left of each type. -/
theorem newest_of_run {asserts : Bool} {reports : List (KeptReport State)}
    {final : InterfaceState State}
    (hnormal : ∀ report ∈ reports, report.report.timestamp.Normal)
    (hfinal : (InterfaceState.empty : InterfaceState State).setStateFromReports asserts
      (reports.map KeptReport.toTypedReport) = some final) (type : ReportType) :
    (final.hasState type = true ↔ reportsOf type reports ≠ []) ∧
      ∀ contents, final.getState type = some contents ↔
        ∃ report, IsNewest (reportsOf type reports) report ∧
          contents = ⟨report.state, report.timestamp⟩ := by
  have hentry : final.states type =
      (latestMax SensorReport.time (reportsOf type reports)).map SensorReport.contents :=
    InterfaceState.entry_eq hfinal type
  have htimes : ∀ report ∈ reportsOf type reports, report.timestamp.Normal := by
    intro report hmem
    have ⟨kept, hkept, htimestamp⟩ := mem_reportsOf hmem
    rw [← htimestamp]
    exact hnormal kept hkept
  apply And.intro
  · rw [InterfaceState.hasState_eq, hentry, Option.isSome_map, Option.isSome_iff_ne_none]
    exact not_congr latestMax_eq_none_iff
  · intro contents
    rw [InterfaceState.getState_eq, hentry, Option.map_eq_some_iff]
    apply exists_congr
    intro report
    rw [latestMax_eq_some_iff, isLatestMax_iff htimes, eq_comm (a := contents)]
    rfl

/-- When no assertion fails: there are none, or each type has one report at most or only
reports whose times pass. -/
theorem setStateFromReports_isSome_iff {asserts : Bool} {reports : List (KeptReport State)}
    (hnormal : ∀ report ∈ reports, report.report.timestamp.Normal) :
    ((InterfaceState.empty : InterfaceState State).setStateFromReports asserts
        (reports.map KeptReport.toTypedReport)).isSome = true ↔
      (asserts = true → ∀ type, (reportsOf type reports).length ≤ 1 ∨
        ∀ report ∈ reportsOf type reports, TimeValue.PassesFor report.timestamp.total) := by
  cases asserts with
  | false => exact iff_of_true (InterfaceState.setStateFromReports_false _) nofun
  | true =>
      rw [InterfaceState.setStateFromReports_true_iff, forall_prop_of_true rfl]
      apply forall_congr'
      intro type
      apply or_congr_right
      apply forall₂_congr
      intro report hmem
      have ⟨kept, hkept, htimestamp⟩ := mem_reportsOf hmem
      rw [← htimestamp]
      exact TimeValue.isNormalized_iff (hnormal kept hkept)

/-- The states of the newest reports are kept exactly when no assertion fails; and a report never
changes the state of another type. -/
theorem keepsNewest_iff (State : ReportType → Type u) (asserts : Bool) (n : ℕ)
    (reports : List (KeptReport State))
    (hnormal : ∀ report ∈ reports, report.report.timestamp.Normal) :
    (KeepsNewest asserts n reports ↔
      (0 < n → asserts = true → ∀ type, (reportsOf type reports).length ≤ 1 ∨
        ∀ report ∈ reportsOf type reports, TimeValue.PassesFor report.timestamp.total)) ∧
    ∀ (iface next : InterfaceState State) (report : KeptReport State) (type : ReportType),
      iface.setStateFromReport asserts report.toTypedReport = some next → type ≠ report.type →
        next.getState type = iface.getState type := by
  apply And.intro
  · rw [← setStateFromReports_isSome_iff hnormal]
    cases n with
    | zero =>
        -- Without interfaces nothing is compared; any final state will do.
        apply iff_of_true _ nofun
        have ⟨final, hfinal⟩ := Option.isSome_iff_exists.mp
          (InterfaceState.setStateFromReports_false (reports.map KeptReport.toTypedReport))
        exact ⟨final, handle_eq asserts [] reports, newest_of_run hnormal hfinal⟩
    | succ n =>
        rw [forall_prop_of_true n.succ_pos]
        apply Iff.intro
        · rintro ⟨final, hrun, -⟩
          rw [handle_eq, List.replicate_succ, List.mapM_cons] at hrun
          obtain ⟨next, hnext, -⟩ := Option.bind_eq_some_iff.mp hrun
          rw [hnext]
          rfl
        · intro hsome
          have ⟨final, hfinal⟩ := Option.isSome_iff_exists.mp hsome
          refine ⟨final, ?_, newest_of_run hnormal hfinal⟩
          rw [handle_eq]
          exact mapM_replicate hfinal (n + 1)
  · intro iface next report type hnext hne
    rw [InterfaceState.getState_eq, InterfaceState.getState_eq]
    exact InterfaceState.entry_of_ne hnext hne

/-- A number of a type, at some seconds and a microsecond. -/
def numberAt (type : ReportType) (keepsState : type.keepsState = true) (seconds : ℤ) (number : ℕ) :
    KeptReport fun _ => ℕ where
  type := type
  report := ⟨0, ⟨seconds, 1⟩, number⟩
  keepsState := keepsState

/-- The last of them is older than the first. -/
def threeReports : List (KeptReport fun _ => ℕ) :=
  [numberAt .button rfl 5 1, numberAt .analog rfl 1 2, numberAt .button rfl 4 3]

theorem normal_threeReports : ∀ report ∈ threeReports, report.report.timestamp.Normal := by
  intro report hmem
  simp only [threeReports, List.mem_cons, List.not_mem_nil, or_false] at hmem
  rcases hmem with rfl | rfl | rfl <;> exact ⟨by decide, by decide, by decide⟩

theorem keepsNewest_iff_threeReports : KeepsNewest true 2 threeReports := by
  have ⟨hkeeps, _⟩ := keepsNewest_iff (fun _ => ℕ) true 2 threeReports normal_threeReports
  apply hkeeps.mpr
  intro _ _ type
  apply Or.inr
  intro report hmem
  have ⟨kept, hkept, htimestamp⟩ := mem_reportsOf hmem
  rw [← htimestamp]
  simp only [threeReports, List.mem_cons, List.not_mem_nil, or_false] at hkept
  rcases hkept with rfl | rfl | rfl <;> decide

/-- Two reports of one type at five seconds, a normal form that does not pass. -/
def atFiveSeconds : List (KeptReport fun _ => ℕ) :=
  [⟨⟨.button, ⟨0, ⟨5, 0⟩, 1⟩⟩, rfl⟩, ⟨⟨.button, ⟨0, ⟨5, 0⟩, 2⟩⟩, rfl⟩]

theorem not_keepsNewest_atFiveSeconds :
    (∀ report ∈ atFiveSeconds, report.report.timestamp.Normal) ∧
      handle true [.empty] atFiveSeconds = none ∧ ¬KeepsNewest true 1 atFiveSeconds := by
  have hnormal : ∀ report ∈ atFiveSeconds, report.report.timestamp.Normal := by
    intro report hmem
    obtain rfl | rfl := List.mem_pair.mp hmem <;> exact ⟨by decide, by decide, by decide⟩
  have hnone : handle true [.empty] atFiveSeconds = none := rfl
  refine ⟨hnormal, hnone, ?_⟩
  rintro ⟨final, hfinal, -⟩
  cases hnone.symm.trans hfinal

end RemoteHandlerInternals
end OSVR.Client
