/-
# One system for every key

Inputs have keys, and the inputs of one key go to a component of their own, which is made
when the first of them comes. To the inputs of one key the whole answers as a single
component would that is given only these.
-/

import Mathlib.Data.List.Induction

set_option autoImplicit false

namespace OSVR.Math

universe u v w x

variable {σ τ : Type u} {ι : Type v} {ο : Type w} {κ : Type x}

/-- Take inputs one after another and collect the answers. -/
def runInputs (step : τ → ι → Option (τ × ο)) : τ → List ι → Option (τ × List ο)
  | state, [] => some (state, [])
  | state, input :: inputs =>
      (step state input).bind fun stepped =>
        (runInputs step stepped.1 inputs).map fun rest => (rest.1, stepped.2 :: rest.2)

/-- What each answer has in common with its input, the answers have with the inputs. -/
theorem map_of_runInputs {γ : Type x} {step : τ → ι → Option (τ × ο)} (f : ο → γ) (g : ι → γ)
    (hstep : ∀ state input stepped, step state input = some stepped → f stepped.2 = g input)
    {state : τ} {inputs : List ι} {ran : τ × List ο}
    (hrun : runInputs step state inputs = some ran) :
    ran.2.map f = inputs.map g := by
  induction inputs generalizing state ran with
  | nil =>
      obtain rfl := Option.some_inj.mp hrun
      rfl
  | cons input inputs ih =>
      obtain ⟨stepped, hstepped, hrest⟩ := Option.bind_eq_some_iff.mp hrun
      obtain ⟨rest, hran, rfl⟩ := Option.map_eq_some_iff.mp hrest
      rw [List.map_cons, List.map_cons, hstep _ _ _ hstepped, ih hran]

/-- A component that is made for its first input. -/
structure Component (σ : Type u) (ι : Type v) (ο : Type w) where
  create : ι → σ
  step : σ → ι → σ × ο

namespace Component

variable (component : Component σ ι ο)

/-- One input, to a component that may not be there yet. -/
def next (state : Option σ) (input : ι) : σ × ο :=
  component.step (state.getD (component.create input)) input

def run : Option σ → List ι → Option σ × List ο
  | state, [] => (state, [])
  | state, input :: inputs =>
      let stepped := component.next state input
      let rest := run (some stepped.1) inputs
      (rest.1, stepped.2 :: rest.2)

/-- A whole in which the component of a key is looked up, in the states that it stays in. -/
structure IsWhole (key : ι → κ) (accepted : ι → Prop) (kept : τ → Prop)
    (lookup : τ → κ → Option σ) (step : τ → ι → Option (τ × ο)) : Prop where
  step_eq : ∀ state input, kept state → accepted input → ∃ after, kept after ∧
    step state input = some (after, (component.next (lookup state (key input)) input).2) ∧
      lookup after (key input) = some (component.next (lookup state (key input)) input).1 ∧
      ∀ other, other ≠ key input → lookup after other = lookup state other

variable {component} {key : ι → κ} {accepted : ι → Prop} {kept : τ → Prop}
  {lookup : τ → κ → Option σ} {step : τ → ι → Option (τ × ο)}

/-- What a run of the whole is for each of the components. -/
theorem IsWhole.run [DecidableEq κ] (hwhole : component.IsWhole key accepted kept lookup step)
    (inputs : List ι) (haccepted : ∀ input ∈ inputs, accepted input) {state : τ}
    (hstate : kept state) :
    ∃ after outputs, runInputs step state inputs = some (after, outputs) ∧ kept after ∧
      outputs.length = inputs.length ∧
      ∀ k, component.run (lookup state k) (inputs.filter fun input => key input = k) =
        (lookup after k,
          ((inputs.zip outputs).filter fun answered => key answered.1 = k).map Prod.snd) := by
  induction inputs generalizing state with
  | nil => exact ⟨state, [], rfl, hstate, rfl, fun _ => rfl⟩
  | cons input inputs ih =>
      obtain ⟨middle, hmiddle, hstep, hsame, hothers⟩ :=
        hwhole.step_eq state input hstate (haccepted input List.mem_cons_self)
      obtain ⟨after, outputs, hrun, hafter, hlength, hcomponents⟩ :=
        ih (fun input hmem => haccepted input (List.mem_cons_of_mem _ hmem)) hmiddle
      refine ⟨after, (component.next (lookup state (key input)) input).2 :: outputs, ?_, hafter,
        congrArg (· + 1) hlength, fun k => ?_⟩
      · rw [runInputs, hstep, Option.bind_some, hrun, Option.map_some]
      · rw [List.zip_cons_cons]
        by_cases hkey : key input = k
        · subst hkey
          rw [List.filter_cons_of_pos (by simp), List.filter_cons_of_pos (by simp), Component.run,
            ← hsame, hcomponents]
          rfl
        · rw [List.filter_cons_of_neg (by simpa using hkey),
            List.filter_cons_of_neg (by simpa using hkey), ← hcomponents k,
            hothers k (Ne.symm hkey)]

/-- A component takes inputs one after another. -/
theorem run_append (state : Option σ) (inputs others : List ι) :
    component.run state (inputs ++ others) =
      ((component.run (component.run state inputs).1 others).1,
        (component.run state inputs).2 ++
          (component.run (component.run state inputs).1 others).2) := by
  induction inputs generalizing state with
  | nil => rfl
  | cons input inputs ih =>
      rw [List.cons_append, Component.run, ih]
      rfl

end Component

end OSVR.Math
