/-
# Iterating a partial function

A chain of links ends when a link is missing. Over finitely many linked points it
ends exactly when it never comes back to a point.
-/

import Mathlib.Data.Finset.Card
import Mathlib.Data.Nat.Notation
import Mathlib.Data.Option.Basic

set_option autoImplicit false

namespace OSVR.Math

universe u

variable {α : Type u}

namespace Orbit

/-- Follow `n` links. -/
def nth (link : α → Option α) : ℕ → α → Option α
  | 0, point => some point
  | n + 1, point => (link point).bind (nth link n)

variable {link : α → Option α} {point : α}

theorem nth_succ (link : α → Option α) (n : ℕ) (point : α) :
    nth link (n + 1) point = (nth link n point).bind link := by
  induction n generalizing point with
  | zero => cases h : link point <;> simp [nth, h]
  | succ n ih =>
      cases h : link point with
      | none => simp [nth, h]
      | some next => simpa [nth, h] using ih next

theorem nth_add (link : α → Option α) (m n : ℕ) (point : α) :
    nth link (m + n) point = (nth link m point).bind (nth link n) := by
  induction n with
  | zero => cases h : nth link m point <;> simp [nth]
  | succ n ih =>
      rw [← Nat.add_assoc, nth_succ, ih]
      cases h : nth link m point with
      | none => simp
      | some middle => simp [nth_succ]

theorem isSome_of_le {m n : ℕ} (hle : m ≤ n) (hn : (nth link n point).isSome = true) :
    (nth link m point).isSome = true := by
  obtain ⟨k, rfl⟩ := Nat.exists_eq_add_of_le hle
  rw [nth_add] at hn
  cases h : nth link m point with
  | none => simp [h] at hn
  | some => rfl

/-- No point is met twice. -/
def Simple (link : α → Option α) (point : α) : Prop :=
  ∀ m n, m < n → ∀ meeting, nth link m point = some meeting → nth link n point ≠ some meeting

/-- A chain that comes back to a point goes round for ever. -/
theorem simple_of_ends (hends : ∃ n, nth link n point = none) : Simple link point := by
  rintro m n hlt meeting hm hn
  obtain ⟨k, rfl⟩ := Nat.exists_eq_add_of_lt hlt
  have hround (i : ℕ) : nth link (m + i * (k + 1)) point = some meeting := by
    induction i with
    | zero => simpa using hm
    | succ i ih =>
        have hturn : nth link (k + 1) meeting = some meeting := by
          have hsplit := nth_add link m (k + 1) point
          rw [← Nat.add_assoc, hn, hm] at hsplit
          simpa using hsplit.symm
        rw [Nat.succ_mul, ← Nat.add_assoc, nth_add, ih]
        exact hturn
  obtain ⟨stop, hstop⟩ := hends
  have hle : stop ≤ m + stop * (k + 1) :=
    Nat.le_trans (Nat.le_mul_of_pos_right stop (Nat.succ_pos k)) (Nat.le_add_left _ m)
  have hround' : (nth link (m + stop * (k + 1)) point).isSome = true := by rw [hround stop]; rfl
  have hsome := isSome_of_le hle hround'
  simp [hstop] at hsome

/-- A chain without repetition ends when only finitely many points have a link. -/
theorem ends_of_simple [DecidableEq α] (linked : Finset α)
    (hlinked : ∀ p, (link p).isSome = true → p ∈ linked) (hsimple : Simple link point) :
    ∃ n, nth link n point = none := by
  by_contra hnever
  have hsome (n : ℕ) : (nth link n point).isSome = true := by
    rw [Option.isSome_iff_ne_none]
    exact fun h => hnever ⟨n, h⟩
  let visit (n : ℕ) : α := (nth link n point).get (hsome n)
  have hvisit (n : ℕ) : nth link n point = some (visit n) := by simp [visit]
  have hmem (n : ℕ) : visit n ∈ linked := by
    apply hlinked
    have hnext := hsome (n + 1)
    rw [nth_succ, hvisit n] at hnext
    exact hnext
  obtain ⟨m, -, n, -, hne, hequal⟩ := Finset.exists_ne_map_eq_of_card_lt_of_maps_to
    (s := Finset.range (linked.card + 1)) (t := linked) (f := visit) (by simp)
    (fun n _ => hmem n)
  rcases Nat.lt_or_gt_of_ne hne with hlt | hlt
  · exact hsimple m n hlt (visit m) (hvisit m) (hequal ▸ hvisit n)
  · exact hsimple n m hlt (visit n) (hvisit n) (hequal ▸ hvisit m)

theorem ends_iff_simple [DecidableEq α] (linked : Finset α)
    (hlinked : ∀ p, (link p).isSome = true → p ∈ linked) :
    (∃ n, nth link n point = none) ↔ Simple link point :=
  ⟨simple_of_ends, ends_of_simple linked hlinked⟩

end Orbit
end OSVR.Math
