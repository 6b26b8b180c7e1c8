/-
# Writers whose ends are counted

A writer appends to what it is given, and how much may depend on how much there is. A
count of where it ends is right when it agrees with the writer at every length. Counts
are put together like the writers that they are for.
-/

import Mathlib.Data.Nat.Notation

set_option autoImplicit false

namespace OSVR.Math

universe u v

variable {α : Type v} {β : Type u} {write next : List β → List β} {finish stop : ℕ → ℕ}

/-- The writer appends, and ends where it is counted to end. -/
def Extends (write : List β → List β) (finish : ℕ → ℕ) : Prop :=
  ∀ before, ∃ added, write before = before ++ added ∧
    finish before.length = before.length + added.length

namespace Extends

theorem refl : Extends (fun before : List β => before) (fun length => length) := by
  intro before
  exact ⟨[], (List.append_nil before).symm, rfl⟩

theorem append (added : List β) : Extends (· ++ added) (· + added.length) := by
  intro before
  exact ⟨added, rfl, rfl⟩

theorem andThen (hwrite : Extends write finish) (hnext : Extends next stop) :
    Extends (fun before => next (write before)) (fun length => stop (finish length)) := by
  intro before
  have ⟨first, hfirst, hfinish⟩ := hwrite before
  have ⟨second, hsecond, hstop⟩ := hnext (before ++ first)
  rw [List.length_append] at hstop
  refine ⟨first ++ second, ?_, ?_⟩
  · dsimp only
    rw [hfirst, hsecond, List.append_assoc]
  · dsimp only
    rw [hfinish, hstop, List.length_append, Nat.add_assoc]

/-- What is written, and how it is counted, may depend on the length so far. -/
theorem at_length {write : ℕ → List β → List β} {finish : ℕ → ℕ → ℕ}
    (h : ∀ length, Extends (write length) (finish length)) :
    Extends (fun before => write before.length before) (fun length => finish length length) :=
  fun before => h before.length before

/-- Values that are written one after the other are counted one after the other. -/
theorem foldl {write : α → List β → List β} {finish : α → ℕ → ℕ} (values : List α)
    (h : ∀ value ∈ values, Extends (write value) (finish value)) :
    Extends (values.foldl fun before value => write value before)
      (values.foldl fun length value => finish value length) := by
  induction values with
  | nil => exact refl
  | cons value values ih =>
      have hhead := h value List.mem_cons_self
      have htail := ih fun other hother => h other (List.mem_cons_of_mem value hother)
      exact hhead.andThen htail

/-- A count of what is appended, taken from where the writer ends. -/
theorem difference (h : Extends write finish) :
    Extends write (fun length => length + (finish length - length)) := by
  intro before
  have ⟨added, hadded, hfinish⟩ := h before
  refine ⟨added, hadded, ?_⟩
  dsimp only
  rw [hfinish, Nat.add_sub_cancel_left]

end Extends

end OSVR.Math
