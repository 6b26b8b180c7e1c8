/-
# A counter that is set and decays

At every event the counter is set to its maximum, if the event is a change, and is
otherwise one less, but never less than zero. After a run it is determined by the number
of events since the last change; only without any change it still depends on where it
started.
-/

import Mathlib.Data.List.Induction

set_option autoImplicit false

namespace OSVR.Math

/-- One event; whether it is a change. -/
def decayStep (maximum counter : ℕ) (change : Bool) : ℕ :=
  if change then maximum else counter - 1

/-- The number of events since the last change. -/
def sinceChange (changes : List Bool) : Option ℕ := changes.reverse.findIdx? id

theorem sinceChange_concat_true (changes : List Bool) :
    sinceChange (changes ++ [true]) = some 0 := by
  simp [sinceChange, List.findIdx?_cons]

theorem sinceChange_concat_false (changes : List Bool) :
    sinceChange (changes ++ [false]) = (sinceChange changes).map (· + 1) := by
  simp [sinceChange, List.findIdx?_cons]

theorem sinceChange_eq_none_iff (changes : List Bool) :
    sinceChange changes = none ↔ true ∉ changes := by
  rw [sinceChange, List.findIdx?_eq_none_iff]
  simp only [List.mem_reverse, id_eq]
  exact ⟨fun h hmem => Bool.noConfusion (h true hmem),
    fun h change hmem => Bool.eq_false_iff.mpr fun htrue => h (htrue ▸ hmem)⟩

/-- The counter after a run. -/
theorem foldl_decayStep (maximum start : ℕ) (changes : List Bool) :
    changes.foldl (decayStep maximum) start =
      match sinceChange changes with
      | some count => maximum - count
      | none => start - changes.length := by
  induction changes using List.reverseRecOn with
  | nil => rfl
  | append_singleton changes change ih =>
      rw [List.foldl_append, List.foldl_cons, List.foldl_nil, ih]
      cases change with
      | true =>
          rw [sinceChange_concat_true]
          rfl
      | false =>
          rw [sinceChange_concat_false]
          cases sinceChange changes with
          | none => simp [decayStep, Nat.sub_sub]
          | some count => simp [decayStep, Nat.sub_sub]

end OSVR.Math
