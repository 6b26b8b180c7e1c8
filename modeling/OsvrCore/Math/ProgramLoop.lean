/-
# Exceptions that are handled, and loops that one ends

A handler takes some of the exceptions of a program, and the others go on. A loop over
parts stops at the first part that ends early. Beside it stand the attempts: what each
part does in its turn when the loop goes on, whatever became of the parts before it. The
two agree up to the first part that ends early. A loop over a number of equal turns stops
likewise, in the turn that ends early.
-/

import OsvrCore.Math.Program
import Mathlib.Data.List.TakeWhile

set_option autoImplicit false

namespace OSVR.Math

universe u

namespace Abort

/-- The same end, with the exception translated. -/
def map {ε ε' : Type u} (f : ε → ε') : Abort ε → Abort ε'
  | thrown error => thrown (f error)
  | undefined => undefined
  | outOfFuel => outOfFuel

end Abort

namespace Program

variable {σ ε ε' α β ι : Type u}

/-- The same program, with its exceptions translated. -/
def mapError (f : ε → ε') (program : Program σ ε α) : Program σ ε' α := fun state =>
  match program.run state with
  | (.ok value, after) => (.ok value, after)
  | (.error reason, after) => (.error (reason.map f), after)

theorem run_mapError_of_error {f : ε → ε'} {program : Program σ ε α} {state after : σ}
    {reason : Abort ε} (h : program.run state = (.error reason, after)) :
    (program.mapError f).run state = (.error (reason.map f), after) := by
  unfold run at h
  simp only [mapError, run, h]

theorem run_mapError_of_ok {f : ε → ε'} {program : Program σ ε α} {state after : σ} {value : α}
    (h : program.run state = (.ok value, after)) :
    (program.mapError f).run state = (.ok value, after) := by
  unfold run at h
  simp only [mapError, run, h]

theorem snd_run_mapError (f : ε → ε') (program : Program σ ε α) (state : σ) :
    ((program.mapError f).run state).2 = (program.run state).2 := by
  rcases hrun : program.run state with ⟨reason | value, after⟩
  · rw [run_mapError_of_error hrun]
  · rw [run_mapError_of_ok hrun]

/-- The same program, with the exceptions that a handler takes handled; the others go on. -/
def catching (takes : ε → Option β) (program : Program σ ε α) (handler : β → Program σ ε α) :
    Program σ ε α := fun state =>
  match program.run state with
  | (.error (.thrown error), after) =>
      match takes error with
      | some caught => (handler caught).run after
      | none => (.error (.thrown error), after)
  | (result, after) => (result, after)

section Catching

variable {takes : ε → Option β} {program : Program σ ε α} {handler : β → Program σ ε α}
  {state after : σ} {error : ε}

theorem run_catching_of_ok {value : α} (h : program.run state = (.ok value, after)) :
    (program.catching takes handler).run state = (.ok value, after) := by
  unfold run at h
  simp only [catching, run, h]

theorem run_catching_of_taken {caught : β} (h : program.run state = (.error (.thrown error), after))
    (htakes : takes error = some caught) :
    (program.catching takes handler).run state = (handler caught).run after := by
  unfold run at h
  simp only [catching, run, h, htakes]

theorem run_catching_of_not_taken (h : program.run state = (.error (.thrown error), after))
    (htakes : takes error = none) :
    (program.catching takes handler).run state = (.error (.thrown error), after) := by
  unfold run at h
  simp only [catching, run, h, htakes]

end Catching

/-- A loop for its effects. -/
def forEach (f : ι → Program σ ε α) : List ι → Program σ ε PUnit
  | [] => pure ⟨⟩
  | part :: rest => do
      let _ ← f part
      forEach f rest

/-- What every part keeps, however it ends, the loop keeps. -/
theorem forEach_keeps {f : ι → Program σ ε α} {good : σ → Prop}
    (hkeeps : ∀ part state, good state → good ((f part).run state).2) (list : List ι) {state : σ}
    (hstate : good state) : good ((forEach f list).run state).2 := by
  induction list generalizing state with
  | nil => exact hstate
  | cons part list ih =>
      have hpart := hkeeps part state hstate
      rcases hrun : (f part).run state with ⟨reason | value, after⟩
      · rw [forEach, run_bind_of_error hrun]
        rw [hrun] at hpart
        exact hpart
      · rw [forEach, run_bind_of_ok hrun]
        rw [hrun] at hpart
        exact ih hpart

/-- What each part does in its turn, whatever became of the parts before. -/
def attempts (f : ι → Program σ ε α) : List ι → σ → List (ι × Except (Abort ε) α)
  | [], _ => []
  | part :: rest, state => (part, ((f part).run state).1) :: attempts f rest ((f part).run state).2

/-- The state after all attempts. -/
def afterAttempts (f : ι → Program σ ε α) : List ι → σ → σ
  | [], state => state
  | part :: rest, state => afterAttempts f rest ((f part).run state).2

/-- The attempts that a loop makes and gets over. -/
def passed (outcomes : List (ι × Except (Abort ε) α)) : List (ι × Except (Abort ε) α) :=
  outcomes.takeWhile fun outcome => outcome.2.isOk

/-- No attempt ends early. -/
def AllPass (outcomes : List (ι × Except (Abort ε) α)) : Prop :=
  ∀ outcome ∈ outcomes, outcome.2.isOk = true

variable {f : ι → Program σ ε α} {state : σ}

theorem attempts_append (first second : List ι) :
    attempts f (first ++ second) state =
      attempts f first state ++ attempts f second (afterAttempts f first state) := by
  induction first generalizing state with
  | nil => rfl
  | cons part first ih => simp only [List.cons_append, attempts, afterAttempts, ih]

theorem fst_mem_of_mem_attempts {list : List ι} {outcome : ι × Except (Abort ε) α}
    (h : outcome ∈ attempts f list state) : outcome.1 ∈ list := by
  induction list generalizing state with
  | nil => cases h
  | cons part list ih =>
      rcases List.mem_cons.mp h with heq | hrest
      · rw [heq]
        exact List.mem_cons_self
      · exact List.mem_cons_of_mem part (ih hrest)

/-- An attempt is made in the state that the attempts before it leave. -/
theorem mem_attempts_iff {list : List ι} {part : ι} {result : Except (Abort ε) α} :
    (part, result) ∈ attempts f list state ↔
      ∃ before rest, list = before ++ part :: rest ∧
        ((f part).run (afterAttempts f before state)).1 = result := by
  constructor
  · intro h
    induction list generalizing state with
    | nil => cases h
    | cons first list ih =>
        rcases List.mem_cons.mp h with heq | hrest
        · cases heq
          exact ⟨[], list, rfl, rfl⟩
        · have ⟨before, rest, hlist, hresult⟩ := ih hrest
          exact ⟨first :: before, rest, by rw [hlist, List.cons_append], hresult⟩
  · intro ⟨before, rest, hlist, hresult⟩
    rw [hlist, attempts_append, ← hresult]
    exact List.mem_append_right _ List.mem_cons_self

/-- Attempts depend on what the listed parts do. -/
theorem attempts_congr {g : ι → Program σ ε α} {list : List ι}
    (h : ∀ part ∈ list, f part = g part) : attempts f list state = attempts g list state ∧
      afterAttempts f list state = afterAttempts g list state := by
  induction list generalizing state with
  | nil => exact ⟨rfl, rfl⟩
  | cons part list ih =>
      have ⟨hpart, hrest⟩ := List.forall_mem_cons.mp h
      simp only [attempts, afterAttempts, hpart, ih hrest, and_self]

/-- The state after all attempts is related to the one before if each attempt keeps it so. -/
theorem relates_afterAttempts {rel : σ → σ → Prop} (hrefl : ∀ state, rel state state)
    (htrans : ∀ ⦃first second third⦄, rel first second → rel second third → rel first third)
    (h : ∀ part, Relates rel (f part)) (list : List ι) (state : σ) :
    rel state (afterAttempts f list state) := by
  induction list generalizing state with
  | nil => exact hrefl state
  | cons part list ih => exact htrans (h part state) (ih _)

variable {first second : List (ι × Except (Abort ε) α)}

/-- If all of the first part passes, the loop goes on with the second. -/
theorem passed_append_of_allPass (h : AllPass first) :
    passed (first ++ second) = first ++ passed second :=
  List.takeWhile_append_of_pos h

/-- Otherwise the second part does not matter. -/
theorem passed_append_of_not_allPass (h : ¬ AllPass first) :
    passed (first ++ second) = passed first := by
  induction first with
  | nil => exact absurd (fun _ hmem => by cases hmem) h
  | cons outcome first ih =>
      rw [List.cons_append]
      cases hok : outcome.2.isOk with
      | false => simp [passed, hok]
      | true =>
          have hrest : ¬ AllPass first := by
            intro hall
            apply h
            intro other hmem
            rcases List.mem_cons.mp hmem with heq | hmem
            · rw [heq]
              exact hok
            · exact hall other hmem
          have htail := ih hrest
          simp only [passed] at htail ⊢
          simp [hok, htail]

theorem mem_passed_cons {outcome other : ι × Except (Abort ε) α} :
    other ∈ passed (outcome :: second) ↔
      outcome.2.isOk = true ∧ (other = outcome ∨ other ∈ passed second) := by
  cases hok : outcome.2.isOk <;> simp [passed, hok]

/-- What is got over in two parts. -/
theorem mem_passed_append {outcome : ι × Except (Abort ε) α} :
    outcome ∈ passed (first ++ second) ↔
      outcome ∈ passed first ∨ AllPass first ∧ outcome ∈ passed second := by
  by_cases hall : AllPass first
  · have hfirst : passed first = first := List.takeWhile_eq_self_iff.mpr hall
    rw [passed_append_of_allPass hall, List.mem_append, hfirst]
    simp [hall]
  · rw [passed_append_of_not_allPass hall]
    simp [hall]

/-! ## The same part a number of times -/

/-- Run a program a number of times, for its values. -/
def times (program : Program σ ε α) : ℕ → Program σ ε (List α)
  | 0 => pure []
  | count + 1 => do
      let value ← program
      let values ← times program count
      return value :: values

/-- A repetition that ends early has been through some of its turns, and the next one
ended it. -/
theorem ended_of_times {program : Program σ ε α} {count : ℕ} {before after : σ} {reason : Abort ε}
    (h : (times program count).run before = (.error reason, after)) :
    ∃ done values middle, done < count ∧ (times program done).run before = (.ok values, middle) ∧
      program.run middle = (.error reason, after) := by
  induction count generalizing before with
  | zero => cases h
  | succ count ih =>
      rw [times] at h
      rcases hfirst : program.run before with ⟨reason' | value, next⟩
      · rw [run_bind_of_error hfirst] at h
        cases h
        exact ⟨0, [], before, Nat.succ_pos count, rfl, hfirst⟩
      · rw [run_bind_of_ok hfirst] at h
        rcases hrest : (times program count).run next with ⟨reason' | values, last⟩
        · rw [run_bind_of_error hrest] at h
          cases h
          have ⟨done, values, middle, hdone, hvalues, hended⟩ := ih hrest
          have hturns :
              (times program (done + 1)).run before = (.ok (value :: values), middle) := by
            rw [times, run_bind_of_ok hfirst, run_bind_of_ok hvalues]
            rfl
          exact ⟨done + 1, value :: values, middle, Nat.succ_lt_succ hdone, hturns, hended⟩
        · rw [run_bind_of_ok hrest] at h
          cases h

end Program
end OSVR.Math
