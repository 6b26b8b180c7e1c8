/-
# The state of an interface

An interface keeps the latest state for each type of report. A report that is older
than the one that is kept is dropped, so that what is kept is the newest report, and
of equally old ones the last.
-/

import OsvrCore.Math.LatestMax
import OsvrCore.Util.ReportTypes

set_option autoImplicit false

namespace OSVR.Common

open Math Util

universe u

variable {β : Type u}

/-- A report from one sensor, with the time it was made. -/
structure SensorReport (β : Type u) where
  sensor : ℕ
  timestamp : TimeValue
  state : β
  deriving DecidableEq

/-- `StateMapContents`. -/
structure StateMapContents (β : Type u) where
  state : β
  timestamp : TimeValue
  deriving DecidableEq

/-- The entry of the state map for one type of report. Whether the interface has any state
is set with the first entry and never cleared, so that the entry alone says it for its type. -/
abbrev StateMapValue (β : Type u) := Option (StateMapContents β)

namespace StateMapValue

def setStateFromReport (entry : StateMapValue β) (report : SensorReport β) : StateMapValue β :=
  match entry with
  | some old =>
      if old.timestamp.greater report.timestamp then entry
      else some ⟨report.state, report.timestamp⟩
  | none => some ⟨report.state, report.timestamp⟩

/-- `getState`, which leaves its arguments alone when there is none. -/
def getState (entry : StateMapValue β) : Option β := entry.map StateMapContents.state

/-- The reports one after another. -/
def setStateFromReports (entry : StateMapValue β) (reports : List (SensorReport β)) :
    StateMapValue β :=
  reports.foldl setStateFromReport entry

end StateMapValue

namespace SensorReport

def time (report : SensorReport β) : ℤ ×ₗ ℤ := report.timestamp.key

def contents (report : SensorReport β) : StateMapContents β := ⟨report.state, report.timestamp⟩

theorem setStateFromReport_contents (kept : Option (SensorReport β)) (report : SensorReport β) :
    StateMapValue.setStateFromReport (kept.map contents) report =
      (keepLatest time kept report).map contents := by
  cases kept with
  | none => rfl
  | some old =>
      have hgreater : old.contents.timestamp.greater report.timestamp =
          decide (report.time < old.time) := TimeValue.greater_eq_decide _ _
      simp only [Option.map_some, StateMapValue.setStateFromReport, keepLatest, hgreater,
        decide_eq_true_eq]
      split <;> rfl

/-- The entry is that of the newest report. -/
theorem setStateFromReports_eq (reports : List (SensorReport β)) :
    StateMapValue.setStateFromReports none reports = (latestMax time reports).map contents := by
  induction reports using List.reverseRecOn with
  | nil => rfl
  | append_singleton reports report ih =>
      rw [latestMax_concat, ← setStateFromReport_contents, ← ih]
      exact List.foldl_concat _ _ _ _

theorem getState_setStateFromReports (reports : List (SensorReport β)) :
    (StateMapValue.setStateFromReports none reports).getState =
      (latestMax time reports).map SensorReport.state := by
  rw [setStateFromReports_eq, StateMapValue.getState, Option.map_map]
  rfl

end SensorReport
end OSVR.Common
