/-
# Windows on cyclic counters

A counter of a fixed width names the natural number it has been incremented to
only up to its modulus. This module compares a window of consecutive naturals
with what a range test and an index computation on such counters see of it.
-/

import Mathlib.Data.Nat.ModEq
import Mathlib.Tactic.Ring

set_option autoImplicit false

namespace OSVR.Math.CyclicWindow

variable {modulus first last offset value slots : ℕ}

/-- Cyclic distance from the residue of `first` to `value`. -/
def distance (modulus first value : ℕ) : ℕ :=
  (modulus - first % modulus + value) % modulus

theorem distance_mod_add (first : ℕ) (hoffset : offset < modulus) :
    distance modulus first ((first + offset) % modulus) = offset := by
  have hmod : first % modulus < modulus := Nat.mod_lt _ (by omega)
  have hsplit : modulus - first % modulus + (first + offset) =
      offset + modulus * (first / modulus + 1) := by
    have hfirst := Nat.mod_add_div first modulus
    rw [Nat.mul_add, Nat.mul_one]
    omega
  rw [distance, Nat.add_mod_mod, hsplit, Nat.add_mul_mod_self_left, Nat.mod_eq_of_lt hoffset]

theorem add_distance_mod (hvalue : value < modulus) :
    (first + distance modulus first value) % modulus = value := by
  have hmod : first % modulus < modulus := Nat.mod_lt _ (by omega)
  have hsplit : first + (modulus - first % modulus + value) =
      value + modulus * (first / modulus + 1) := by
    have hfirst := Nat.mod_add_div first modulus
    rw [Nat.mul_add, Nat.mul_one]
    omega
  rw [distance, Nat.add_mod_mod, hsplit, Nat.add_mul_mod_self_left, Nat.mod_eq_of_lt hvalue]

/-- The range test accepts a residue exactly when it names a member of the
window `[first, last)`, on both sides of a wrap. -/
theorem distance_lt_iff (hwidth : last - first ≤ modulus) (hvalue : value < modulus) :
    distance modulus first value < last - first ↔
      ∃ member, first ≤ member ∧ member < last ∧ member % modulus = value := by
  constructor
  · intro hdistance
    exact ⟨first + distance modulus first value, by omega, by omega, add_distance_mod hvalue⟩
  · rintro ⟨member, hfirst, hlast, rfl⟩
    obtain ⟨offset, rfl⟩ := Nat.exists_eq_add_of_le hfirst
    rw [distance_mod_add first (by omega)]
    omega

/-- An index that starts from the residue of `first` and one that starts from
the residue of the member itself agree modulo `slots` exactly when no multiple
of the modulus lies between, or when the modulus is a whole number of turns. -/
theorem mod_add_mod_eq_iff (hwidth : offset < slots) (hmodulus : slots ≤ modulus) :
    (first % modulus + offset) % slots = (first + offset) % modulus % slots ↔
      slots ∣ modulus ∨ (first + offset) / modulus = first / modulus := by
  have hmod : first % modulus < modulus := Nat.mod_lt _ (by omega)
  have hfirst := Nat.mod_add_div first modulus
  by_cases hwrap : first % modulus + offset < modulus
  · have hsum : first + offset = first % modulus + offset + modulus * (first / modulus) := by omega
    have hresidue : (first + offset) % modulus = first % modulus + offset := by
      rw [hsum, Nat.add_mul_mod_self_left, Nat.mod_eq_of_lt hwrap]
    have hblock : (first + offset) / modulus = first / modulus := by
      rw [hsum, Nat.add_mul_div_left _ _ (by omega), Nat.div_eq_of_lt hwrap, Nat.zero_add]
    simp [hresidue, hblock]
  · obtain ⟨rest, hrest⟩ := Nat.exists_eq_add_of_le (Nat.le_of_not_lt hwrap)
    have hsum : first + offset = rest + modulus * (first / modulus + 1) := by
      rw [Nat.mul_add, Nat.mul_one]
      omega
    have hresidue : (first + offset) % modulus = rest := by
      rw [hsum, Nat.add_mul_mod_self_left, Nat.mod_eq_of_lt (by omega)]
    have hblock : (first + offset) / modulus ≠ first / modulus := by
      rw [hsum, Nat.add_mul_div_left _ _ (by omega), Nat.div_eq_of_lt (by omega)]
      omega
    rw [hresidue, hrest, Nat.add_comm modulus rest]
    simp only [hblock, or_false]
    constructor
    · intro hequal
      exact (Nat.modEq_iff_dvd' (by omega)).mp (show rest ≡ rest + modulus [MOD slots] from
        hequal.symm) |>.trans (by simp)
    · rintro ⟨turns, rfl⟩
      rw [Nat.add_mul_mod_self_left]

/-- Equal slots inside a window of at most `slots` members mean equal members. -/
theorem offset_eq_of_slot_eq {left right : ℕ} (hleft : left < slots) (hright : right < slots)
    (hslot : (offset + left) % slots = (offset + right) % slots) : left = right := by
  have hcancel : left ≡ right [MOD slots] := Nat.ModEq.add_left_cancel' offset hslot
  rwa [Nat.ModEq, Nat.mod_eq_of_lt hleft, Nat.mod_eq_of_lt hright] at hcancel

end OSVR.Math.CyclicWindow
