/-
# The last of the greatest

A register that keeps what it has against anything smaller, and gives way to
anything else, holds the last one of the greatest values that it was offered. The
values are compared by a key, so that two different ones can be equally great.
-/

import Mathlib.Data.List.Induction
import Mathlib.Data.List.Perm.Basic
import Mathlib.Order.Lattice

set_option autoImplicit false

namespace OSVR.Math

universe u v

variable {α : Type u} {κ : Type v} [LinearOrder κ] (key : α → κ)

/-- What is kept when a value is offered. -/
def keepLatest : Option α → α → Option α
  | none, new => some new
  | some kept, new => if key new < key kept then some kept else some new

/-- What is kept in the end. -/
def latestMax (values : List α) : Option α := values.foldl (keepLatest key) none

/-- Nothing before the value is greater, and everything after it is smaller. -/
def IsLatestMax (values : List α) (value : α) : Prop :=
  ∃ before after, values = before ++ value :: after ∧
    (∀ other ∈ before, key other ≤ key value) ∧ ∀ other ∈ after, key other < key value

variable {key} {values other : List α} {value new : α}

@[simp] theorem latestMax_nil : latestMax key [] = none := rfl

theorem latestMax_concat :
    latestMax key (values ++ [new]) = keepLatest key (latestMax key values) new := by
  rw [latestMax, List.foldl_append]
  rfl

theorem latestMax_eq_none_iff : latestMax key values = none ↔ values = [] := by
  induction values using List.reverseRecOn with
  | nil => exact iff_of_true rfl rfl
  | append_singleton values new ih =>
      rw [latestMax_concat]
      apply iff_of_false
      · cases latestMax key values with
        | none => exact Option.some_ne_none new
        | some kept =>
            rw [keepLatest]
            split <;> exact Option.some_ne_none _
      · exact List.append_ne_nil_of_right_ne_nil _ (List.cons_ne_nil _ _)

namespace IsLatestMax

theorem mem (h : IsLatestMax key values value) : value ∈ values := by
  obtain ⟨before, after, rfl, _⟩ := h
  exact List.mem_append_right _ List.mem_cons_self

theorem le (h : IsLatestMax key values value) : ∀ other ∈ values, key other ≤ key value := by
  obtain ⟨before, after, rfl, hbefore, hafter⟩ := h
  intro other hmem
  rcases List.mem_append.mp hmem with hmem | hmem
  · exact hbefore other hmem
  · rcases List.mem_cons.mp hmem with rfl | hmem
    · exact le_refl _
    · exact le_of_lt (hafter other hmem)

/-- A smaller value at the end changes nothing. -/
theorem concat (h : IsLatestMax key values value) (hnew : key new < key value) :
    IsLatestMax key (values ++ [new]) value := by
  obtain ⟨before, after, rfl, hbefore, hafter⟩ := h
  refine ⟨before, after ++ [new], by simp, hbefore, ?_⟩
  intro other hmem
  rcases List.mem_append.mp hmem with hmem | hmem
  · exact hafter other hmem
  · rw [List.mem_singleton.mp hmem]
    exact hnew

/-- A value at the end that nothing exceeds takes its place. -/
theorem of_last (hmax : ∀ other ∈ values, key other ≤ key new) :
    IsLatestMax key (values ++ [new]) new :=
  ⟨values, [], rfl, hmax, fun _ hmem => absurd hmem List.not_mem_nil⟩

end IsLatestMax

theorem isLatestMax_of_latestMax (h : latestMax key values = some value) :
    IsLatestMax key values value := by
  induction values using List.reverseRecOn generalizing value with
  | nil => cases h
  | append_singleton values new ih =>
      rw [latestMax_concat] at h
      cases hkept : latestMax key values with
      | none =>
          rw [hkept, keepLatest, Option.some_inj] at h
          rw [latestMax_eq_none_iff.mp hkept, ← h]
          exact .of_last fun _ hmem => absurd hmem List.not_mem_nil
      | some kept =>
          rw [hkept, keepLatest] at h
          split at h
          next hless =>
            obtain rfl := Option.some_inj.mp h
            exact (ih hkept).concat hless
          next hless =>
            obtain rfl := Option.some_inj.mp h
            exact .of_last fun other hmem => le_trans ((ih hkept).le other hmem) (not_lt.mp hless)

/-- The last of the greatest values is not after a value that only smaller ones follow. -/
theorem IsLatestMax.eq_of_after (h : IsLatestMax key values new) (hmem : value ∈ values)
    {after middle later : List α} (hafter : ∀ other ∈ after, key other < key value)
    (hsplit : value :: after = middle ++ new :: later) : value = new := by
  cases middle with
  | nil => exact (List.cons.inj hsplit).1
  | cons first middle =>
      obtain ⟨rfl, rfl⟩ := List.cons.inj hsplit
      have hless : key new < key value := hafter new (List.mem_append_right _ List.mem_cons_self)
      exact absurd hless (not_lt.mpr (h.le value hmem))

/-- There is one last value among the greatest at most. -/
theorem IsLatestMax.unique (h : IsLatestMax key values value) (h' : IsLatestMax key values new) :
    value = new := by
  have hfirst := h
  have hsecond := h'
  obtain ⟨before, after, hvalues, _, hafter⟩ := hfirst
  obtain ⟨before', after', hvalues', _, hafter'⟩ := hsecond
  rcases List.append_eq_append_iff.mp (hvalues.symm.trans hvalues') with
    ⟨middle, _, hmiddle⟩ | ⟨middle, _, hmiddle⟩
  · exact h'.eq_of_after h.mem hafter hmiddle
  · exact (h.eq_of_after h'.mem hafter' hmiddle).symm

theorem latestMax_eq_some_iff :
    latestMax key values = some value ↔ IsLatestMax key values value := by
  apply Iff.intro isLatestMax_of_latestMax
  intro h
  cases hlatest : latestMax key values with
  | none =>
      rw [latestMax_eq_none_iff] at hlatest
      rw [hlatest] at h
      exact absurd h.mem List.not_mem_nil
  | some kept => rw [(isLatestMax_of_latestMax hlatest).unique h]

/-- Where no two keys are equal the order does not matter. -/
theorem latestMax_perm (hperm : values.Perm other)
    (hdistinct : ∀ first ∈ values, ∀ second ∈ values, key first = key second → first = second) :
    latestMax key values = latestMax key other := by
  cases hvalues : latestMax key values with
  | none =>
      rw [latestMax_eq_none_iff] at hvalues
      rw [hvalues] at hperm
      exact (latestMax_eq_none_iff.mpr hperm.nil_eq.symm).symm
  | some first =>
      cases hother : latestMax key other with
      | none =>
          rw [latestMax_eq_none_iff] at hother
          rw [hother] at hperm
          rw [hperm.eq_nil] at hvalues
          cases hvalues
      | some second =>
          have hfirst := isLatestMax_of_latestMax hvalues
          have hsecond := isLatestMax_of_latestMax hother
          have hkey := le_antisymm (hsecond.le first (hperm.mem_iff.mp hfirst.mem))
            (hfirst.le second (hperm.mem_iff.mpr hsecond.mem))
          rw [hdistinct first hfirst.mem second (hperm.mem_iff.mpr hsecond.mem) hkey]

end OSVR.Math
