/-
# Texts with separators

Pieces are written with a separator behind each of them, and read by splitting at the
separators. They come back exactly when no separator is in one of them.
-/

import Mathlib.Data.List.Basic

set_option autoImplicit false

namespace OSVR.Math

universe u

variable {α : Type u} {sep : α}

variable [BEq α]

/-- What is before each separator. -/
def piecesOf (sep : α) (text : List α) : List (List α) := (text.splitOn sep).dropLast

theorem mem_of_mem_splitOn {text piece : List α} (hmem : piece ∈ text.splitOn sep) {x : α}
    (hx : x ∈ piece) : x ∈ text := by
  induction text generalizing piece with
  | nil =>
      rw [List.splitOn_nil, List.mem_singleton] at hmem
      exact hmem ▸ hx
  | cons first text ih =>
      rw [List.splitOn_cons_eq_if_modifyHead] at hmem
      obtain ⟨head, rest, hsplit⟩ := List.exists_cons_of_ne_nil (List.splitOn_ne_nil sep text)
      rw [hsplit] at hmem ih
      split at hmem
      next =>
        rcases List.mem_cons.mp hmem with rfl | hrest
        · cases hx
        · exact List.mem_cons_of_mem _ (ih hrest hx)
      next =>
        rcases List.mem_cons.mp hmem with rfl | hrest
        · rcases List.mem_cons.mp hx with rfl | hx
          · exact List.mem_cons_self
          · exact List.mem_cons_of_mem _ (ih List.mem_cons_self hx)
        · exact List.mem_cons_of_mem _ (ih (List.mem_cons_of_mem _ hrest) hx)

/-- A piece has nothing that is not in the text. -/
theorem mem_of_mem_piecesOf {text piece : List α} (hmem : piece ∈ piecesOf sep text) {x : α}
    (hx : x ∈ piece) : x ∈ text :=
  mem_of_mem_splitOn (List.dropLast_subset _ hmem) hx

variable [LawfulBEq α]

theorem notMem_of_mem_splitOn {text piece : List α} (hmem : piece ∈ text.splitOn sep) :
    sep ∉ piece := by
  induction text generalizing piece with
  | nil =>
      rw [List.splitOn_nil, List.mem_singleton] at hmem
      rw [hmem]
      exact List.not_mem_nil
  | cons first text ih =>
      rw [List.splitOn_cons_eq_if_modifyHead] at hmem
      obtain ⟨head, rest, hsplit⟩ := List.exists_cons_of_ne_nil (List.splitOn_ne_nil sep text)
      rw [hsplit] at hmem ih
      split at hmem
      next =>
        rcases List.mem_cons.mp hmem with rfl | hrest
        · exact List.not_mem_nil
        · exact ih hrest
      next hfirst =>
        rcases List.mem_cons.mp hmem with rfl | hrest
        · rw [List.mem_cons, not_or]
          exact ⟨fun heq => hfirst (by rw [heq, beq_self_eq_true]), ih List.mem_cons_self⟩
        · exact ih (List.mem_cons_of_mem _ hrest)

/-- There is no separator in a piece. -/
theorem notMem_of_mem_piecesOf {text piece : List α} (hmem : piece ∈ piecesOf sep text) :
    sep ∉ piece :=
  notMem_of_mem_splitOn (List.dropLast_subset _ hmem)

end OSVR.Math
