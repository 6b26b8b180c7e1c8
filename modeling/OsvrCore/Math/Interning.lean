/-
# Interning tables

A table that only grows at its end gives every value the position of its first
occurrence. The positions of the values it has are never disturbed, and a table
built by interning alone holds no value twice.
-/

import Mathlib.Data.List.Induction
import Mathlib.Data.List.Infix
import Mathlib.Data.List.Nodup

set_option autoImplicit false

namespace OSVR.Math

universe u

variable {α : Type u} [BEq α] [LawfulBEq α] {entries longer : List α} {value other : α}

/-- The table after a request for the position of `value`. -/
def intern (entries : List α) (value : α) : List α :=
  if value ∈ entries then entries else entries ++ [value]

/-- The table after a request for each of the values, in order. -/
def internAll (entries values : List α) : List α := values.foldl intern entries

@[simp] theorem internAll_nil : internAll entries [] = entries := rfl

@[simp] theorem internAll_cons (values : List α) :
    internAll entries (value :: values) = internAll (intern entries value) values := rfl

theorem prefix_intern (entries : List α) (value : α) : entries <+: intern entries value := by
  unfold intern
  split
  next => exact List.prefix_rfl
  next => exact List.prefix_append entries [value]

theorem mem_intern (entries : List α) (value : α) : value ∈ intern entries value := by
  unfold intern
  split
  next hmem => exact hmem
  next => simp

theorem nodup_intern (hnodup : entries.Nodup) : (intern entries value).Nodup := by
  unfold intern
  split
  next => exact hnodup
  next hnew => simpa using List.Nodup.concat hnew hnodup

theorem prefix_internAll (entries values : List α) : entries <+: internAll entries values := by
  induction values generalizing entries with
  | nil => exact List.prefix_rfl
  | cons value values ih => exact (prefix_intern entries value).trans (ih _)

/-- New values that are pairwise different are appended as they are. -/
theorem internAll_of_disjoint {values : List α} (hnodup : values.Nodup)
    (hnew : ∀ value ∈ values, value ∉ entries) : internAll entries values = entries ++ values := by
  induction values generalizing entries with
  | nil => simp
  | cons value values ih =>
      have hvalue : intern entries value = entries ++ [value] := by
        simp [intern, hnew value (by simp)]
      rw [List.nodup_cons] at hnodup
      rw [internAll_cons, hvalue, ih hnodup.2]
      · simp
      · intro later hlater
        have hdiffers : later ≠ value := fun heq => hnodup.1 (heq ▸ hlater)
        simp [hnew later (by simp [hlater]), hdiffers]

/-- A longer table has every known value where the shorter one had it. -/
theorem idxOf_of_begins (hbegins : entries <+: longer) (hmem : value ∈ entries) :
    longer.idxOf value = entries.idxOf value := by
  obtain ⟨added, rfl⟩ := hbegins
  exact List.idxOf_append_of_mem hmem

/-- Where the value is after interning: its old position, or the end. -/
theorem idxOf_intern (entries : List α) (value : α) :
    (intern entries value).idxOf value = entries.idxOf value := by
  unfold intern
  split
  next => rfl
  next hnew => simp [List.idxOf_append_of_notMem hnew, List.idxOf_eq_length hnew]

theorem getElem?_idxOf (hmem : value ∈ entries) : entries[entries.idxOf value]? = some value := by
  rw [List.getElem?_eq_getElem (List.idxOf_lt_length_of_mem hmem), List.getElem_idxOf]

theorem eq_of_idxOf_eq (hvalue : value ∈ entries) (hother : other ∈ entries)
    (heq : entries.idxOf value = entries.idxOf other) : value = other := by
  have hsome : some value = some other := by
    rw [← getElem?_idxOf hvalue, ← getElem?_idxOf hother, heq]
  exact Option.some.inj hsome

end OSVR.Math
