/-
# What a program asks for

A program that changes a state step by step asks for something in each step. The
requests of the steps, in order, say when a run keeps a property that one request
takes away for good.
-/

import OsvrCore.Math.ForestTraversal

set_option autoImplicit false

namespace OSVR.Math

universe u v

namespace Program

variable {σ ε α β : Type u} {ρ : Type v}

/-- The requests of two parts: the second part asks in the state that the first has
left, if that part has ended with a value. -/
def askThen (first : σ → List ρ) (program : Program σ ε α) (rest : α → σ → List ρ) (state : σ) :
    List ρ :=
  first state ++
    match program.run state with
    | (.ok value, after) => rest value after
    | (.error _, _) => []

/-- The requests after a part that asks for nothing. -/
def askAfter (program : Program σ ε α) (rest : α → σ → List ρ) : σ → List ρ :=
  askThen (fun _ => []) program rest

/-- A property is lost by one request exactly, and what is lost stays lost. -/
structure LosesBy (good : σ → Prop) (bad : ρ) (requests : σ → List ρ) (program : Program σ ε α) :
    Prop where
  kept : ∀ state, good state → (good (program.run state).2 ↔ bad ∉ requests state)
  lost : ∀ state, ¬ good state → ¬ good (program.run state).2

namespace LosesBy

variable {good : σ → Prop} {bad : ρ}

/-- What neither takes a property away nor gives it asks for nothing. -/
theorem of_relates {program : Program σ ε α}
    (h : Relates (fun before after => good after ↔ good before) program) :
    LosesBy good bad (fun _ => []) program where
  kept state hgood := by simp [(h state).mpr hgood]
  lost state hlost := fun hgood => hlost ((h state).mp hgood)

theorem of_pure (value : α) : LosesBy good bad (fun _ => []) (pure value : Program σ ε α) :=
  of_relates fun _ => Iff.rfl

theorem of_abort (reason : Abort ε) :
    LosesBy good bad (fun _ => []) (abort reason : Program σ ε α) :=
  of_relates fun _ => Iff.rfl

theorem bind {first : σ → List ρ} {program : Program σ ε α} {rest : α → σ → List ρ}
    {next : α → Program σ ε β} (h : LosesBy good bad first program)
    (hnext : ∀ value, LosesBy good bad (rest value) (next value)) :
    LosesBy good bad (askThen first program rest) (program >>= next) := by
  have hkept := h.kept
  have hlost := h.lost
  constructor
  · intro state hgood
    have hfirst := hkept state hgood
    rw [askThen, List.mem_append, not_or]
    rcases hrun : program.run state with ⟨reason | value, after⟩
    · rw [hrun] at hfirst
      rw [run_bind_of_error hrun, hfirst]
      simp
    · rw [hrun] at hfirst
      rw [run_bind_of_ok hrun, ← hfirst]
      by_cases hafter : good after
      · rw [(hnext value).kept after hafter]
        exact (and_iff_right hafter).symm
      · have hgone := (hnext value).lost after hafter
        exact iff_of_false hgone fun hboth => hafter hboth.1
  · intro state hgone
    have hfirst := hlost state hgone
    rcases hrun : program.run state with ⟨reason | value, after⟩
    · rw [hrun] at hfirst
      rwa [run_bind_of_error hrun]
    · rw [hrun] at hfirst
      rw [run_bind_of_ok hrun]
      exact (hnext value).lost after hfirst

/-- A first part that asks for nothing. -/
theorem bind_after {program : Program σ ε α} {rest : α → σ → List ρ} {next : α → Program σ ε β}
    (h : LosesBy good bad (fun _ => []) program)
    (hnext : ∀ value, LosesBy good bad (rest value) (next value)) :
    LosesBy good bad (askAfter program rest) (program >>= next) := h.bind hnext

/-- What comes last asks for nothing. -/
theorem bind_pure {requests : σ → List ρ} {program : Program σ ε α}
    (h : LosesBy good bad requests program) (f : α → β) :
    LosesBy good bad requests (program >>= fun value => pure (f value)) where
  kept state hgood := by
    rw [snd_run_bind_pure]
    exact h.kept state hgood
  lost state hgone := by
    rw [snd_run_bind_pure]
    exact h.lost state hgone

end LosesBy
end Program

/-! ## Traversals -/

namespace NamedTree

variable {κ α ε : Type} [DecidableEq κ] {ρ : Type v}
  (visit : List κ → Program (NamedTree κ α) ε Bool) (requests : List κ → NamedTree κ α → List ρ)

mutual

/-- The requests of the visits of a traversal. -/
def traverseRequests : (fuel : ℕ) → (node : List κ) → NamedTree κ α → List ρ
  | 0, _ => fun _ => []
  | fuel + 1, node =>
      Program.askThen (requests node) (visit node) fun _ => childrenRequests fuel node 0

/-- The requests of the visits below a node, from an index on. -/
def childrenRequests : (fuel : ℕ) → (node : List κ) → (index : ℕ) → NamedTree κ α → List ρ
  | 0, _, _ => fun _ => []
  | fuel + 1, node, index => fun tree =>
      match (tree.childNames node)[index]? with
      | none => []
      | some name =>
          Program.askThen (traverseRequests fuel (node ++ [name]))
            (traverse visit fuel (node ++ [name]))
            (fun _ => childrenRequests fuel node (index + 1)) tree

end

variable {visit requests} {good : NamedTree κ α → Prop} {bad : ρ}

/-- A traversal asks for what its visits ask for. -/
theorem losesBy_traverse (hvisit : ∀ node, Program.LosesBy good bad (requests node) (visit node))
    (fuel : ℕ) :
    (∀ node, Program.LosesBy good bad (traverseRequests visit requests fuel node)
      (traverse visit fuel node)) ∧
    ∀ node index, Program.LosesBy good bad (childrenRequests visit requests fuel node index)
      (visitChildren visit fuel node index) := by
  induction fuel with
  | zero =>
      apply And.intro
      · intro node
        exact .of_abort _
      · intro node index
        exact .of_abort _
  | succ fuel ih =>
      have ⟨htraverse, hchildren⟩ := ih
      apply And.intro
      · intro node
        rw [traverseRequests, traverse]
        exact (hvisit node).bind fun _ => (hchildren node 0).bind_pure _
      · intro node index
        have hread (tree : NamedTree κ α) :
            (Program.get : Program (NamedTree κ α) ε _).run tree = (.ok tree, tree) := rfl
        have hchild (name : κ) :=
          (htraverse (node ++ [name])).bind fun changed =>
            (hchildren node (index + 1)).bind_pure (changed || ·)
        rw [childrenRequests, visitChildren]
        constructor
        · intro tree hgood
          rw [Program.run_bind_of_ok (hread tree)]
          cases (tree.childNames node)[index]? with
          | none => simpa using hgood
          | some name => exact (hchild name).kept tree hgood
        · intro tree hgone
          rw [Program.run_bind_of_ok (hread tree)]
          cases (tree.childNames node)[index]? with
          | none => exact hgone
          | some name => exact (hchild name).lost tree hgone

end NamedTree
end OSVR.Math
