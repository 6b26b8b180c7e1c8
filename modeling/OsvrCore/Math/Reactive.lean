/-
# Systems that answer every input

A reactive system takes inputs one after another and gives an answer to each. A
property of a run says something about each input together with the inputs before
it, so that properties of two kinds, of the answers and of the inputs alone, can be
compared at one place of the run at a time.
-/

import Mathlib.Data.List.Induction

set_option autoImplicit false

namespace OSVR.Math

universe u v w

/-- A system with one initial state that answers each input. -/
structure ReactiveSystem (σ : Type u) (ι : Type v) (ο : Type w) where
  init : σ
  step : σ → ι → σ × ο

/-- At every place of a list something holds of what is before it and what is there. -/
def Along {ι : Type v} (holds : List ι → ι → Prop) (inputs : List ι) : Prop :=
  ∀ before input after, inputs = before ++ input :: after → holds before input

section Along

variable {ι : Type v} {holds other : List ι → ι → Prop} {inputs : List ι} {input : ι}

theorem along_nil : Along holds [] := by
  intro before input after hsplit
  cases before <;> cases hsplit

theorem along_concat :
    Along holds (inputs ++ [input]) ↔ Along holds inputs ∧ holds inputs input := by
  apply Iff.intro
  · intro h
    apply And.intro
    · intro before middle after hsplit
      exact h before middle (after ++ [input]) (by simp [hsplit])
    · exact h inputs input [] rfl
  · rintro ⟨hbefore, hlast⟩ before middle after hsplit
    rcases List.eq_nil_or_concat after with rfl | ⟨front, last, rfl⟩
    · obtain ⟨rfl, rfl⟩ := List.append_singleton_inj.mp hsplit
      exact hlast
    · have hfront : inputs ++ [input] = (before ++ middle :: front) ++ [last] := by
        simp [hsplit]
      exact hbefore before middle front (List.append_singleton_inj.mp hfront).1

/-- Two properties agree along a list when they agree at each place that they have both been
true up to. -/
theorem along_congr (h : ∀ inputs input, Along holds inputs → Along other inputs →
    (holds inputs input ↔ other inputs input)) : Along holds inputs ↔ Along other inputs := by
  induction inputs using List.reverseRecOn with
  | nil => exact iff_of_true along_nil along_nil
  | append_singleton inputs input ih =>
      rw [along_concat, along_concat, ← ih]
      exact and_congr_right fun hbefore => h inputs input hbefore (ih.mp hbefore)

end Along

namespace ReactiveSystem

variable {σ : Type u} {ι : Type v} {ο : Type w} (S : ReactiveSystem σ ι ο)

/-- The state that a list of inputs leads to. -/
def stateAfter (inputs : List ι) : σ :=
  inputs.foldl (fun state input => (S.step state input).1) S.init

/-- The answer to an input that comes after others. -/
def answer (before : List ι) (input : ι) : ο := (S.step (S.stateAfter before) input).2

def answersFrom : σ → List ι → List ο
  | _, [] => []
  | state, input :: rest => (S.step state input).2 :: answersFrom (S.step state input).1 rest

/-- The answers of a run. -/
def answers (inputs : List ι) : List ο := S.answersFrom S.init inputs

variable {S} {inputs : List ι} {input : ι}

@[simp] theorem stateAfter_nil : S.stateAfter [] = S.init := rfl

theorem stateAfter_concat :
    S.stateAfter (inputs ++ [input]) = (S.step (S.stateAfter inputs) input).1 := by
  rw [stateAfter, List.foldl_append, List.foldl_cons, List.foldl_nil]
  rfl

theorem answersFrom_append (state : σ) (rest : List ι) :
    S.answersFrom state (inputs ++ rest) = S.answersFrom state inputs ++
      S.answersFrom (inputs.foldl (fun state input => (S.step state input).1) state) rest := by
  induction inputs generalizing state with
  | nil => rfl
  | cons first inputs ih => simp only [List.cons_append, answersFrom, ih, List.foldl_cons]

theorem answers_concat :
    S.answers (inputs ++ [input]) = S.answers inputs ++ [S.answer inputs input] :=
  answersFrom_append S.init [input]

/-- The answers of a run are what they should be exactly if each is. -/
theorem answers_eq_map_iff (expected : ι → ο) : S.answers inputs = inputs.map expected ↔
    Along (fun before input => S.answer before input = expected input) inputs := by
  induction inputs using List.reverseRecOn with
  | nil => exact iff_of_true rfl along_nil
  | append_singleton inputs input ih =>
      rw [answers_concat, List.map_append, List.map_singleton, List.append_singleton_inj, ih,
        along_concat]

end ReactiveSystem
end OSVR.Math
