/-
# Labelled transition systems

A system has one initial state and a step function; every choice of a scheduler
or an environment is part of the label. Reachability is relative to a condition
on steps, so that one induction serves both the results about all runs and the
results about the runs whose steps all meet a condition.
-/

import Mathlib.Logic.Relation
import Mathlib.Data.Option.Basic

set_option autoImplicit false

namespace OSVR.Math

universe u v

/-- A system that takes one labelled step at a time; `none` when the label is
not enabled. -/
structure TransitionSystem (σ : Type u) (ℓ : Type v) where
  init : σ
  step : ℓ → σ → Option σ

namespace TransitionSystem

variable {σ : Type u} {ℓ : Type v} (S : TransitionSystem σ ℓ)

/-- States of the runs in which every step satisfies `allowed` in the state
before it. -/
inductive ReachableWhile (allowed : σ → ℓ → Prop) : σ → Prop
  | init : ReachableWhile allowed S.init
  | step {before after : σ} {label : ℓ} (prior : ReachableWhile allowed before)
      (permitted : allowed before label) (taken : S.step label before = some after) :
      ReachableWhile allowed after

/-- States of all runs. -/
abbrev Reachable : σ → Prop := S.ReachableWhile fun _ _ => True

/-- The second state is reached from the first one by steps that satisfy `allowed`. -/
def LeadsTo (allowed : σ → ℓ → Prop) : σ → σ → Prop :=
  Relation.ReflTransGen fun before after =>
    ∃ label, allowed before label ∧ S.step label before = some after

/-- Execute a list of labels, each of them allowed in the state before it. -/
def runWhile (allowed : σ → ℓ → Prop) [∀ state label, Decidable (allowed state label)] :
    List ℓ → σ → Option σ
  | [], state => some state
  | label :: labels, state =>
      if allowed state label then (S.step label state).bind (runWhile allowed labels) else none

/-- An assertion that holds initially and that every allowed step keeps. -/
structure Invariant (allowed : σ → ℓ → Prop) (holds : σ → Prop) : Prop where
  init : holds S.init
  step : ∀ {before after label}, holds before → allowed before label →
    S.step label before = some after → holds after

variable {S} {allowed stronger : σ → ℓ → Prop} {holds : σ → Prop} {state : σ}

theorem Invariant.reachable (invariant : S.Invariant allowed holds)
    (hreach : S.ReachableWhile allowed state) : holds state := by
  induction hreach with
  | init => exact invariant.init
  | step _ permitted taken ih => exact invariant.step ih permitted taken

/-- What each step does to a reachable state relates it to all that follows. -/
theorem LeadsTo.relates {relation : σ → σ → Prop} (hrefl : ∀ state, relation state state)
    (htrans : ∀ {first second third}, relation first second → relation second third →
      relation first third)
    (hstep : ∀ {before after label}, S.ReachableWhile allowed before → allowed before label →
      S.step label before = some after → relation before after)
    {before after : σ} (hreach : S.ReachableWhile allowed before)
    (hleads : S.LeadsTo allowed before after) :
    S.ReachableWhile allowed after ∧ relation before after := by
  induction hleads with
  | refl => exact ⟨hreach, hrefl before⟩
  | tail _ taken ih =>
      obtain ⟨label, permitted, taken⟩ := taken
      exact ⟨.step ih.1 permitted taken, htrans ih.2 (hstep ih.1 permitted taken)⟩

theorem ReachableWhile.mono (himp : ∀ before label, stronger before label → allowed before label)
    (hreach : S.ReachableWhile stronger state) : S.ReachableWhile allowed state := by
  induction hreach with
  | init => exact .init
  | step _ permitted taken ih => exact .step ih (himp _ _ permitted) taken

/-- A run goes on, with steps that a stronger condition allows. -/
theorem ReachableWhile.run [∀ state label, Decidable (stronger state label)]
    (himp : ∀ before label, stronger before label → allowed before label)
    {before after : σ} (hbefore : S.ReachableWhile allowed before) (labels : List ℓ)
    (hrun : S.runWhile stronger labels before = some after) : S.ReachableWhile allowed after := by
  induction labels generalizing before with
  | nil =>
      cases hrun
      exact hbefore
  | cons label labels ih =>
      simp only [runWhile, Option.ite_none_right_eq_some, Option.bind_eq_some_iff] at hrun
      obtain ⟨hallowed, middle, hstep, hrest⟩ := hrun
      exact ih (.step hbefore (himp _ _ hallowed) hstep) hrest

theorem reachableWhile_of_run [∀ state label, Decidable (allowed state label)]
    {before after : σ} (hbefore : S.ReachableWhile allowed before) (labels : List ℓ)
    (hrun : S.runWhile allowed labels before = some after) : S.ReachableWhile allowed after :=
  hbefore.run (fun _ _ => id) labels hrun

/-- A run that starts in a reachable state keeps what its steps keep there. -/
theorem keeps_of_run [∀ state label, Decidable (allowed state label)]
    (hstep : ∀ {before after label}, S.Reachable before → holds before → allowed before label →
      S.step label before = some after → holds after)
    {before after : σ} (hreach : S.Reachable before) (hbefore : holds before) (labels : List ℓ)
    (hrun : S.runWhile allowed labels before = some after) : S.Reachable after ∧ holds after := by
  induction labels generalizing before with
  | nil =>
      cases hrun
      exact ⟨hreach, hbefore⟩
  | cons label labels ih =>
      simp only [runWhile, Option.ite_none_right_eq_some, Option.bind_eq_some_iff] at hrun
      have ⟨hallowed, middle, htaken, hrest⟩ := hrun
      exact ih (.step hreach trivial htaken) (hstep hreach hbefore hallowed htaken) hrest

end TransitionSystem
end OSVR.Math
