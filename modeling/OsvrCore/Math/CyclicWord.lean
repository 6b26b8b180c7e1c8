/-
# Words up to rotation

A word has every rotation of another of its length as a factor of the second copy
written behind the first, less the last letter. The windows of a periodic sequence that
span one period are rotations of each other, so what is read off a window up to rotation
does not depend on where the window starts.
-/

import Mathlib.Data.List.Rotate
import Mathlib.Tactic.Linarith

set_option autoImplicit false

namespace OSVR.Math

universe u

variable {α : Type u}

/-! ## The doubled word -/

/-- A word with a second copy behind it that lacks the last letter. -/
def doubledWord (word : List α) : List α := (word ++ word).dropLast

theorem doubledWord_ne_nil {word : List α} (h : word ≠ []) : doubledWord word ≠ [] := by
  have hpos := List.length_pos_iff.mpr h
  intro hnil
  have hlength := congrArg List.length hnil
  simp only [doubledWord, List.length_dropLast, List.length_append, List.length_nil] at hlength
  omega

/-- A cut of a word closes to a factor of the doubled word. -/
theorem doubledWord_append {left right : List α} (h : right ≠ []) :
    doubledWord (left ++ right) = left ++ (right ++ left) ++ right.dropLast := by
  rw [doubledWord, ← List.dropLast_append_of_ne_nil h]
  simp only [List.append_assoc]

/-- A factor of the doubled word that is as long as the word is a rotation. -/
theorem isRotated_of_isInfix_doubledWord {word factor : List α}
    (hlength : factor.length = word.length) (h : factor <:+: doubledWord word) :
    word ~r factor := by
  obtain ⟨left, right, hfactor⟩ := h
  by_cases hnil : word = []
  · subst hnil
    rw [List.eq_nil_of_length_eq_zero hlength]
  obtain ⟨last, hlast⟩ : ∃ last, doubledWord word ++ [last] = word ++ word :=
    ⟨_, List.dropLast_append_getLast (by simp [hnil])⟩
  have hcut : word ++ word = left ++ (factor ++ (right ++ [last])) := by
    rw [← hlast, ← hfactor]
    simp only [List.append_assoc]
  have hleft : left.length ≤ word.length := by
    have hsizes := congrArg List.length hcut
    simp only [List.length_append, List.length_singleton] at hsizes
    omega
  -- The word starts with what stands before the factor.
  obtain ⟨tail, htail⟩ : left <+: word :=
    List.prefix_of_prefix_length_le ⟨_, hcut.symm⟩ ⟨word, rfl⟩ hleft
  subst htail
  have hrest : (tail ++ left) ++ tail = factor ++ (right ++ [last]) := by
    have hwhole : left ++ ((tail ++ left) ++ tail) = left ++ (factor ++ (right ++ [last])) := by
      simpa only [List.append_assoc] using hcut
    exact List.append_cancel_left hwhole
  have hsame : tail ++ left = factor :=
    (List.append_inj hrest (by rw [hlength]; simp [Nat.add_comm])).1
  rw [← hsame]
  exact List.isRotated_append

/-- A rotation is a factor of the doubled word. -/
theorem isInfix_doubledWord_of_isRotated {word factor : List α} (h : word ~r factor)
    (hne : word ≠ []) : factor <:+: doubledWord word := by
  obtain ⟨n, hn⟩ := h
  have hlt : n % word.length < word.length := Nat.mod_lt _ (List.length_pos_iff.mpr hne)
  have hrest : word.drop (n % word.length) ≠ [] := by
    intro hnil
    have := List.drop_eq_nil_iff.mp hnil
    omega
  refine ⟨word.take (n % word.length), (word.drop (n % word.length)).dropLast, ?_⟩
  rw [← hn, List.rotate_eq_drop_append_take_mod, ← doubledWord_append hrest,
    List.take_append_drop]

theorem isInfix_doubledWord_iff {word factor : List α} (hlength : factor.length = word.length)
    (hne : word ≠ []) : factor <:+: doubledWord word ↔ word ~r factor :=
  ⟨isRotated_of_isInfix_doubledWord hlength,
    fun h => isInfix_doubledWord_of_isRotated h hne⟩

/-! ## Windows of a sequence -/

/-- The entries of a sequence from a position on. -/
def window (sequence : ℕ → α) (start size : ℕ) : List α :=
  (List.range size).map fun offset => sequence (start + offset)

@[simp] theorem length_window (sequence : ℕ → α) (start size : ℕ) :
    (window sequence start size).length = size := by simp [window]

/-- Dropping the oldest entries leaves a later window. -/
theorem drop_window (sequence : ℕ → α) (start size count : ℕ) :
    (window sequence start size).drop count = window sequence (start + count) (size - count) := by
  apply List.ext_getElem
  · simp
  · intro index _ _
    simp [window, Nat.add_assoc]

theorem window_succ (sequence : ℕ → α) (start size : ℕ) :
    window sequence start (size + 1) =
      sequence start :: window sequence (start + 1) size := by
  rw [window, List.range_succ_eq_map, List.map_cons, List.map_map]
  congr 1
  apply List.map_congr_left
  intro offset _
  simp only [Function.comp_apply]
  congr 1
  omega

/-- A window of one period that starts one entry later is a rotation. -/
theorem window_isRotated_succ {sequence : ℕ → α} {period : ℕ}
    (h : ∀ n, sequence (n + period) = sequence n) (start : ℕ) :
    window sequence start period ~r window sequence (start + 1) period := by
  cases period with
  | zero => exact List.IsRotated.refl _
  | succ rest =>
      have hlast : window sequence (start + 1) (rest + 1) =
          window sequence (start + 1) rest ++ [sequence start] := by
        rw [window, List.range_succ, List.map_append, ← h start]
        simp only [List.map_cons, List.map_nil, window]
        congr 3
        omega
      rw [window_succ, hlast]
      exact (List.isRotated_concat _ _).symm

/-- All windows of one period are rotations of each other. -/
theorem window_isRotated {sequence : ℕ → α} {period : ℕ}
    (h : ∀ n, sequence (n + period) = sequence n) (start other : ℕ) :
    window sequence start period ~r window sequence other period := by
  have hzero : ∀ n, window sequence 0 period ~r window sequence n period := by
    intro n
    induction n with
    | zero => exact List.IsRotated.refl _
    | succ n ih => exact ih.trans (window_isRotated_succ h n)
  exact (hzero start).symm.trans (hzero other)

end OSVR.Math
