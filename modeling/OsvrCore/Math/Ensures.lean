/-
# What programs ensure

What a program ensures from a state: if it returns, its value and the state it leaves
are as stated, and if an exception ends it, so is the state that stays. Running out of
fuel says nothing. The rules put together what the parts of a program ensure.
-/

import OsvrCore.Math.Program

set_option autoImplicit false

namespace OSVR.Math

universe u

namespace Program

variable {σ ε α β : Type u}

/-- From a state, a program returns with the postcondition, or is ended in a state that
is as `ended` says, or runs out of fuel. -/
def Ensures (program : Program σ ε α) (state : σ) (post : α → σ → Prop) (ended : σ → Prop) : Prop :=
  match program.run state with
  | (.ok value, after) => post value after
  | (.error .outOfFuel, _) => True
  | (.error (.thrown _), after) | (.error .undefined, after) => ended after

namespace Ensures

variable {program : Program σ ε α} {next : α → Program σ ε β} {state : σ} {post : α → σ → Prop}
  {goal : β → σ → Prop} {ended : σ → Prop}

theorem of_run {value : α} {after : σ} (hrun : program.run state = (.ok value, after))
    (hpost : post value after) : Ensures program state post ended := by
  rw [Ensures, hrun]
  exact hpost

theorem of_error {reason : Abort ε} {after : σ} (hrun : program.run state = (.error reason, after))
    (hended : reason ≠ .outOfFuel → ended after) : Ensures program state post ended := by
  rw [Ensures, hrun]
  cases reason with
  | outOfFuel => trivial
  | thrown error => exact hended (by rintro ⟨⟩)
  | undefined => exact hended (by rintro ⟨⟩)

theorem outOfFuel : Ensures (abort .outOfFuel : Program σ ε α) state post ended := trivial

theorem pure {value : α} (hpost : post value state) :
    Ensures (Pure.pure value : Program σ ε α) state post ended := hpost

theorem mono {weaker : α → σ → Prop} {weakerEnded : σ → Prop} (h : Ensures program state post ended)
    (himp : ∀ value after, post value after → weaker value after)
    (himp' : ∀ after, ended after → weakerEnded after) :
    Ensures program state weaker weakerEnded := by
  unfold Ensures at h ⊢
  split at h
  next value after hrun => exact himp value after h
  next => trivial
  next after hrun => exact himp' after h
  next after hrun => exact himp' after h

/-- The postcondition of the first part is the precondition of the second. -/
theorem bind (h : Ensures program state post ended)
    (hnext : ∀ value after, post value after → Ensures (next value) after goal ended) :
    Ensures (program >>= next) state goal ended := by
  rcases hrun : program.run state with ⟨reason | value, after⟩
  · rw [Ensures, run_bind_of_error hrun]
    rw [Ensures, hrun] at h
    cases reason <;> exact h
  · rw [Ensures, run_bind_of_ok hrun]
    rw [Ensures, hrun] at h
    exact hnext value after h

/-- A part whose run is known. -/
theorem bind_of_run {value : α} {after : σ} (hrun : program.run state = (.ok value, after))
    (hnext : Ensures (next value) after goal ended) :
    Ensures (program >>= next) state goal ended := by
  rw [Ensures, run_bind_of_ok hrun]
  exact hnext

theorem bind_of_error {reason : Abort ε} {after : σ}
    (hrun : program.run state = (.error reason, after))
    (hended : reason ≠ .outOfFuel → ended after) :
    Ensures (program >>= next) state goal ended :=
  of_error (run_bind_of_error hrun) hended

end Ensures

/-! ## Exceptions -/

section Throws

/-- An exception ends the program. -/
def Throws (program : Program σ ε α) (state : σ) : Prop :=
  ∃ error, (program.run state).1 = .error (.thrown error)

variable {program : Program σ ε α} {next : α → Program σ ε β} {state after : σ}

theorem not_throws_pure (value : α) : ¬ Throws (Pure.pure value : Program σ ε α) state := by
  rintro ⟨error, ⟨⟩⟩

theorem throws_of_run {error : ε} (hrun : program.run state = (.error (.thrown error), after)) :
    Throws program state := ⟨error, congrArg Prod.fst hrun⟩

theorem throws_bind_of_error {reason : Abort ε}
    (hrun : program.run state = (.error reason, after)) :
    Throws (program >>= next) state ↔ ∃ error, reason = .thrown error := by
  rw [Throws, run_bind_of_error hrun]
  apply Iff.intro
  · rintro ⟨error, ⟨⟩⟩
    exact ⟨error, rfl⟩
  · rintro ⟨error, rfl⟩
    exact ⟨error, rfl⟩

theorem throws_bind_of_run {value : α} (hrun : program.run state = (.ok value, after)) :
    Throws (program >>= next) state ↔ Throws (next value) after := by
  rw [Throws, run_bind_of_ok hrun, Throws]

/-- An exception comes from the first part, or from the second part when the first has
returned. -/
theorem throws_bind_iff : Throws (program >>= next) state ↔
    Throws program state ∨
      ∃ value after, program.run state = (.ok value, after) ∧ Throws (next value) after := by
  rcases hrun : program.run state with ⟨reason | value, after⟩
  · rw [Throws, run_bind_of_error hrun, Throws, hrun]
    apply Iff.intro
    · rintro ⟨error, ⟨⟩⟩
      exact .inl ⟨error, rfl⟩
    · rintro (⟨error, ⟨⟩⟩ | ⟨_, _, ⟨⟩, _⟩)
      exact ⟨error, rfl⟩
  · rw [throws_bind_of_run hrun]
    apply Iff.intro
    · exact fun hnext => .inr ⟨value, after, rfl, hnext⟩
    · rintro (⟨error, herror⟩ | ⟨_, _, ⟨⟩, hnext⟩)
      · rw [hrun] at herror
        cases herror
      · exact hnext

end Throws

/-! ## Walking through a tree inside the state -/

section Walk

variable {κ : Type u} (childNames : σ → List κ → List κ) (visit : List κ → Program σ ε PUnit)

mutual

/-- Visit a node and then what is below it, in a tree that is part of the state and
that the visits may add to. -/
def walk : (fuel : ℕ) → (node : List κ) → Program σ ε PUnit
  | 0, _ => abort .outOfFuel
  | fuel + 1, node => do
      visit node
      walkChildren fuel node 0

/-- Walk through the children from an index on, with the size read anew each time. -/
def walkChildren : (fuel : ℕ) → (node : List κ) → (index : ℕ) → Program σ ε PUnit
  | 0, _, _ => abort .outOfFuel
  | fuel + 1, node, index => do
      match (childNames (← Program.get) node)[index]? with
      | none => return ⟨⟩
      | some name =>
          walk fuel (node ++ [name])
          walkChildren fuel node (index + 1)

end

variable {childNames visit}

/-- What every visit keeps, a walk keeps; and a visit that is ended ends the walk. -/
theorem ensures_walk {good ended : σ → Prop}
    (hvisit : ∀ node state, good state → Ensures (visit node) state
      (fun _ after => good after) ended)
    (fuel : ℕ) :
    (∀ node state, good state →
      Ensures (walk childNames visit fuel node) state (fun _ after => good after) ended) ∧
    ∀ node index state, good state →
      Ensures (walkChildren childNames visit fuel node index) state (fun _ after => good after)
        ended := by
  induction fuel with
  | zero => exact ⟨fun _ _ _ => .outOfFuel, fun _ _ _ _ => .outOfFuel⟩
  | succ fuel ih =>
      apply And.intro
      · intro node state hstate
        exact (hvisit node state hstate).bind fun _ after hafter => ih.2 node 0 after hafter
      · intro node index state hstate
        apply Ensures.bind_of_run (run_get state)
        split
        · exact .pure hstate
        next name _ =>
          exact (ih.1 (node ++ [name]) state hstate).bind fun _ after hafter =>
            ih.2 node (index + 1) after hafter

/-- A relation that every visit keeps, however it ends, a walk keeps. -/
theorem relates_walk {rel : σ → σ → Prop} (hrefl : ∀ state, rel state state)
    (htrans : ∀ ⦃first second third⦄, rel first second → rel second third → rel first third)
    (hvisit : ∀ node, Relates rel (visit node)) (fuel : ℕ) :
    (∀ node, Relates rel (walk childNames visit fuel node)) ∧
      ∀ node index, Relates rel (walkChildren childNames visit fuel node index) := by
  induction fuel with
  | zero => exact ⟨fun _ => hrefl, fun _ _ => hrefl⟩
  | succ fuel ih =>
      apply And.intro
      · intro node
        exact Relates.bind htrans (hvisit node) fun _ => ih.2 node 0
      · intro node index
        apply Relates.bind htrans (relates_get hrefl)
        intro state
        split
        · exact relates_pure hrefl _
        next name _ =>
          exact Relates.bind htrans (ih.1 (node ++ [name])) fun _ => ih.2 node (index + 1)

end Walk

end Program
end OSVR.Math
