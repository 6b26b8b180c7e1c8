/-
# Loops over containers that change

A loop over a container holds a position in it, and its body may insert into the
container or remove from it. Some of these changes make the position invalid; a
loop that goes on after one of them is broken. A loop that stays valid enters every
element that was there all the time exactly once.
-/

import Mathlib.Data.List.InsertIdx
import Mathlib.Data.List.Nodup

set_option autoImplicit false

namespace OSVR.Math

universe u

/-- A loop by the elements it has entered, the last of which has the body that runs,
and those it would enter next. -/
structure RangeLoop (α : Type u) where
  visited : List α
  pending : List α
  valid : Bool

namespace RangeLoop

variable {α : Type u}

def start (elements : List α) : RangeLoop α := ⟨[], elements, true⟩

/-- What becomes of a loop when a body is over, or at its start. -/
inductive Advance (α : Type u)
  | broken
  | finished
  | entered (element : α) (loop : RangeLoop α)

def advance (loop : RangeLoop α) : Advance α :=
  if loop.valid then
    match loop.pending with
    | [] => .finished
    | element :: rest =>
        .entered element { loop with visited := loop.visited ++ [element], pending := rest }
  else .broken

/-- A body runs. -/
def running (loop : RangeLoop α) : Bool := !loop.visited.isEmpty

/-- The container has other contents than before, and no position in it is valid then. -/
def afterChange [DecidableEq α] (before after : List α) (loop : RangeLoop α) : RangeLoop α :=
  if before = after then loop else { loop with valid := false }

/-- An insertion that leaves the position valid. The new element may come up later, or
its place is one that the loop has passed. -/
def insert (element : α) (place : Option ℕ) (loop : RangeLoop α) : RangeLoop α :=
  match place with
  | none => loop
  | some index => { loop with pending := loop.pending.insertIdx index element }

/-- The elements of the whole loop, as it stands. -/
def elements (loop : RangeLoop α) : List α := loop.visited ++ loop.pending

variable {loop next : RangeLoop α} {element : α} {steady : List α}

@[simp] theorem elements_start (elements : List α) : (start elements).elements = elements := rfl

@[simp] theorem visited_start (elements : List α) : (start elements).visited = [] := rfl

@[simp] theorem valid_start (elements : List α) : (start elements).valid = true := rfl

@[simp] theorem afterChange_self [DecidableEq α] (contents : List α) :
    loop.afterChange contents contents = loop := if_pos rfl

/-! ## One step -/

theorem advance_ne_broken (hvalid : loop.valid = true) : loop.advance ≠ .broken := by
  unfold advance
  rw [if_pos hvalid]
  cases loop.pending <;> simp

theorem visited_of_finished (h : loop.advance = .finished) : loop.visited = loop.elements := by
  unfold advance at h
  split at h
  next =>
    cases hpending : loop.pending with
    | nil => rw [elements, hpending, List.append_nil]
    | cons element rest =>
        rw [hpending] at h
        cases h
  next => cases h

/-- The loop has entered one more element, and the elements of the whole loop are the same. -/
theorem of_entered (h : loop.advance = .entered element next) :
    next.visited = loop.visited ++ [element] ∧ next.elements = loop.elements ∧
      next.valid = true := by
  unfold advance at h
  split at h
  next hvalid =>
    cases hpending : loop.pending with
    | nil =>
        rw [hpending] at h
        cases h
    | cons first rest =>
        rw [hpending] at h
        cases h
        refine ⟨rfl, ?_, hvalid⟩
        simp [elements, hpending]
  next => cases h

theorem mem_elements_insert {other : α} {place : Option ℕ} (h : other ∈ loop.elements) :
    other ∈ (loop.insert element place).elements := by
  cases place with
  | none => exact h
  | some index =>
      rw [elements, List.mem_append] at h
      apply List.mem_append.mpr
      apply h.imp_right
      intro hpending
      exact List.subset_insertIdx loop.pending index element hpending

/-- An insertion adds at most the element. -/
theorem eq_or_mem_of_mem_elements_insert {other : α} {place : Option ℕ}
    (h : other ∈ (loop.insert element place).elements) :
    other = element ∨ other ∈ loop.elements := by
  cases place with
  | none => exact .inr h
  | some index =>
      rcases List.mem_append.mp h with hvisited | hpending
      · exact .inr (List.mem_append_left loop.pending hvisited)
      · apply (List.eq_or_mem_of_mem_insertIdx hpending).imp_right
        intro hmem
        exact List.mem_append_right loop.visited hmem

theorem nodup_elements_insert {place : Option ℕ} (h : loop.elements.Nodup)
    (hnew : element ∉ loop.elements) : (loop.insert element place).elements.Nodup := by
  cases place with
  | none => exact h
  | some index =>
      by_cases hindex : index ≤ loop.pending.length
      · have hperm : (loop.visited ++ loop.pending.insertIdx index element).Perm
            (element :: loop.elements) :=
          ((List.perm_insertIdx element loop.pending hindex).append_left loop.visited).trans
            List.perm_middle
        exact hperm.nodup_iff.mpr (List.nodup_cons.mpr ⟨hnew, h⟩)
      · simp only [insert, elements, List.insertIdx_of_length_lt (Nat.lt_of_not_le hindex)]
        exact h

/-! ## Every element exactly once -/

/-- The loop is valid, comes to no element twice, and leaves out none of the steady ones. -/
structure Covers (loop : RangeLoop α) (steady : List α) : Prop where
  valid : loop.valid = true
  nodup : loop.elements.Nodup
  steady : ∀ element ∈ steady, element ∈ loop.elements

namespace Covers

theorem start {elements : List α} (hnodup : elements.Nodup)
    (hsteady : ∀ element ∈ steady, element ∈ elements) : (start elements).Covers steady :=
  ⟨rfl, hnodup, hsteady⟩

theorem mono {fewer : List α} (h : loop.Covers steady)
    (hfewer : ∀ element ∈ fewer, element ∈ steady) : loop.Covers fewer :=
  ⟨h.valid, h.nodup, fun element hmem => h.steady element (hfewer element hmem)⟩

theorem entered (h : loop.Covers steady) (hadvance : loop.advance = .entered element next) :
    next.Covers steady := by
  have ⟨_, helements, hvalid⟩ := of_entered hadvance
  exact ⟨hvalid, helements ▸ h.nodup, helements ▸ h.steady⟩

theorem insert {place : Option ℕ} (h : loop.Covers steady) (hnew : element ∉ loop.elements) :
    (loop.insert element place).Covers steady where
  valid := by
    cases place with
    | none => exact h.valid
    | some index => exact h.valid
  nodup := nodup_elements_insert h.nodup hnew
  steady other hother := mem_elements_insert (h.steady other hother)

/-- At its end the loop has entered each of the steady elements once. -/
theorem count_visited [BEq α] [LawfulBEq α] (h : loop.Covers steady)
    (hadvance : loop.advance = .finished) (hmem : element ∈ steady) :
    loop.visited.count element = 1 := by
  rw [visited_of_finished hadvance]
  exact List.count_eq_one_of_mem h.nodup (h.steady element hmem)

end Covers
end RangeLoop
end OSVR.Math
