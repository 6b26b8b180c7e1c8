/-
# Programs on a part of a state

A program over a large state often does to one part of it what a program over that
part does. The relation between the two goes through sequences, so that a model with
more in its state is compared with one that leaves the rest out, step by step.
-/

import OsvrCore.Math.ProgramLoop

set_option autoImplicit false

namespace OSVR.Math

universe u

namespace Program

variable {σ τ ε α β : Type u}

/-- What the view shows of the state is what the other program has done to it, and
both end in the same way. -/
def Shows (view : σ → τ) (program : Program σ ε α) (shown : Program τ ε α) : Prop :=
  ∀ state, shown.run (view state) = ((program.run state).1, view (program.run state).2)

namespace Shows

variable {view : σ → τ}

theorem pure (value : α) :
    Shows view (pure value : Program σ ε α) (pure value : Program τ ε α) := fun _ => rfl

theorem modify {f : σ → σ} {g : τ → τ} (h : ∀ state, g (view state) = view (f state)) :
    Shows view (modify f : Program σ ε PUnit) (modify g : Program τ ε PUnit) :=
  fun state => congrArg (Prod.mk (Except.ok PUnit.unit)) (h state)

theorem bind {program : Program σ ε α} {shown : Program τ ε α} {next : α → Program σ ε β}
    {shownNext : α → Program τ ε β} (h : Shows view program shown)
    (hnext : ∀ value, Shows view (next value) (shownNext value)) :
    Shows view (program >>= next) (shown >>= shownNext) := by
  intro state
  have hstate := h state
  rcases hrun : program.run state with ⟨reason | value, after⟩
  · rw [hrun] at hstate
    rw [run_bind_of_error hrun, run_bind_of_error hstate]
  · rw [hrun] at hstate
    rw [run_bind_of_ok hrun, run_bind_of_ok hstate, hnext value after]

/-- What is read of the state may be more than what the view shows. -/
theorem get_bind {next : σ → Program σ ε β} {shownNext : τ → Program τ ε β}
    (hnext : ∀ state, Shows view (next state) (shownNext (view state))) :
    Shows view (get >>= next) (get >>= shownNext) := fun state => hnext state state

theorem forEach {ι : Type u} {f : ι → Program σ ε α} {g : ι → Program τ ε α}
    (h : ∀ part, Shows view (f part) (g part)) (list : List ι) :
    Shows view (Program.forEach f list) (Program.forEach g list) := by
  induction list with
  | nil => exact .pure PUnit.unit
  | cons part rest ih => exact .bind (h part) fun _ => ih

/-- A step that the view does not show. -/
theorem hidden_bind {f : σ → σ} {next : PUnit → Program σ ε β} {shown : Program τ ε β}
    (hf : ∀ state, view (f state) = view state) (hnext : Shows view (next ⟨⟩) shown) :
    Shows view (Program.modify f >>= next) shown := by
  intro state
  rw [run_bind_of_ok (run_modify state f), ← hf state]
  exact hnext (f state)

end Shows

end Program

end OSVR.Math
