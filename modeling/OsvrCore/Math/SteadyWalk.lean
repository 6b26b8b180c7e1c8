/-
# Walks over trees that keep their shape

A walk reads the children of a node anew each time, so that what a visit adds is walked
through as well. Where no visit changes the names of the children, a walk that comes to
an end is a loop over the nodes.
-/

import OsvrCore.Math.Ensures
import OsvrCore.Math.ForestTraversal
import OsvrCore.Math.ProgramLoop

set_option autoImplicit false

namespace OSVR.Math

universe u

namespace Forest

variable {κ α : Type u} [DecidableEq κ]

/-- By the names of children, the forest is what is below a node from an index on. -/
structure Hangs (names : List κ → List κ) (forest : Forest κ α) (node : List κ) (index : ℕ) :
    Prop where
  siblings : (names node).drop index = forest.names
  below : ∀ name ∈ forest.names, ∀ path,
    names (node ++ name :: path) = (forest.childrenAt (name :: path)).names

variable {names : List κ → List κ} {name : κ} {value : α} {children rest : Forest κ α}
  {node : List κ} {index : ℕ}

theorem Hangs.getElem? (h : Hangs names (.cons name value children rest) node index) :
    (names node)[index]? = some name := by
  rw [← List.head?_drop, h.siblings]
  rfl

theorem Hangs.below_children (h : Hangs names (.cons name value children rest) node index) :
    Hangs names children (node ++ [name]) 0 := by
  constructor
  · simpa [childrenAt] using h.below name List.mem_cons_self []
  · intro other _ path
    simpa [childrenAt] using h.below name List.mem_cons_self (other :: path)

theorem Hangs.beside (h : Hangs names (.cons name value children rest) node index)
    (hdistinct : (Forest.cons name value children rest).Distinct) :
    Hangs names rest node (index + 1) := by
  constructor
  · rw [← List.drop_drop, h.siblings]
    rfl
  · intro other hother path
    have hne : name ≠ other := by
      rintro rfl
      exact hdistinct.1 hother
    simpa [childrenAt, hne] using h.below other (List.mem_cons_of_mem name hother) path

end Forest

namespace Program

variable {σ ε κ α ι : Type u} {β : Type u}

theorem run_forEach_append (f : ι → Program σ ε β) (front back : List ι) (state : σ) :
    (forEach f (front ++ back)).run state =
      (forEach f front >>= fun _ => forEach f back).run state := by
  induction front generalizing state with
  | nil => rfl
  | cons part front ih =>
      rw [List.cons_append, forEach, forEach, bind_bind, run_bind, run_bind]
      split
      next value after _ => exact ih after
      next => rfl

variable [DecidableEq κ] {childNames : σ → List κ → List κ} {visit : List κ → Program σ ε PUnit}
  {good : σ → Prop} {names : List κ → List κ}

/-- Below a node, when the names of children stay the same. -/
theorem run_walkChildren_of_steady (hnames : ∀ state, good state → childNames state = names)
    (hvisit : ∀ node state, good state → good ((visit node).run state).2) (forest : Forest κ α)
    (hdistinct : forest.Distinct) {fuel : ℕ} {node : List κ} {index : ℕ} {state : σ}
    (hhangs : forest.Hangs names node index) (hstate : good state)
    (hends : ((walkChildren childNames visit fuel node index).run state).1 ≠ .error .outOfFuel) :
    (walkChildren childNames visit fuel node index).run state =
      (forEach visit (forest.entries.map fun entry => node ++ entry.1)).run state := by
  induction forest generalizing fuel node index state with
  | nil =>
      rcases fuel with _ | fuel
      · exact absurd rfl hends
      · have hnone : (childNames state node)[index]? = none := by
          rw [hnames state hstate, ← List.head?_drop, hhangs.siblings]
          rfl
        rw [walkChildren, run_bind_of_ok (run_get state), hnone]
        rfl
  | cons name value children rest ihchildren ihrest =>
      rcases fuel with _ | fuel
      · exact absurd rfl hends
      · have hname : (childNames state node)[index]? = some name := by
          rw [hnames state hstate, hhangs.getElem?]
        have hwalk : (walkChildren childNames visit (fuel + 1) node index).run state =
            (walk childNames visit fuel (node ++ [name]) >>= fun _ =>
              walkChildren childNames visit fuel node (index + 1)).run state := by
          rw [walkChildren, run_bind_of_ok (run_get state), hname]
        rw [hwalk] at hends ⊢
        rcases fuel with _ | fuel
        · exact absurd rfl hends
        · have hlist : ((Forest.cons name value children rest).entries.map fun entry =>
              node ++ entry.1) = (node ++ [name]) ::
                ((children.entries.map fun entry => node ++ [name] ++ entry.1) ++
                  rest.entries.map fun entry => node ++ entry.1) := by
            simp [Forest.entries, Function.comp_def]
          rw [hlist, forEach]
          rw [walk, bind_bind] at hends ⊢
          have hgood := hvisit (node ++ [name]) state hstate
          rcases hrun : (visit (node ++ [name])).run state with ⟨reason | _, after⟩
          · rw [run_bind_of_error hrun, run_bind_of_error hrun]
          · rw [hrun] at hgood
            rw [run_bind_of_ok hrun] at hends ⊢
            rw [run_bind_of_ok hrun, run_forEach_append]
            have hbelow := ihchildren hdistinct.2.1 hhangs.below_children hgood
              (fun hfuel => hends (fst_run_bind_of_error hfuel))
            have hkept := forEach_keeps hvisit
              (children.entries.map fun entry => node ++ [name] ++ entry.1) hgood
            rcases hloop : (forEach visit (children.entries.map fun entry =>
              node ++ [name] ++ entry.1)).run after with ⟨reason | _, last⟩
            · rw [run_bind_of_error hloop, run_bind_of_error (hbelow.trans hloop)]
            · rw [hloop] at hkept
              rw [run_bind_of_ok (hbelow.trans hloop)] at hends ⊢
              rw [run_bind_of_ok hloop]
              exact ihrest hdistinct.2.2 (hhangs.beside hdistinct) hkept hends

/-- From the root. -/
theorem run_walk_of_steady (tree : NamedTree κ α)
    (hnames : ∀ state, good state → childNames state = tree.childNames)
    (hvisit : ∀ node state, good state → good ((visit node).run state).2) {fuel : ℕ} {state : σ}
    (hstate : good state)
    (hends : ((walk childNames visit fuel []).run state).1 ≠ .error .outOfFuel) :
    (walk childNames visit fuel []).run state =
      (forEach visit (tree.entries.map Prod.fst)).run state := by
  rcases fuel with _ | fuel
  · exact absurd rfl hends
  · have hlist : tree.entries.map Prod.fst =
        [] :: tree.children.entries.map fun entry => [] ++ entry.1 := rfl
    have hroot : tree.childNames [] = tree.children.names := by
      rw [NamedTree.childNames]
      cases tree.children <;> rfl
    have hhangs : tree.children.Hangs tree.childNames [] 0 := ⟨hroot, fun _ _ _ => rfl⟩
    rw [hlist, forEach]
    rw [walk] at hends ⊢
    have hgood := hvisit [] state hstate
    rcases hrun : (visit []).run state with ⟨reason | _, after⟩
    · rw [run_bind_of_error hrun, run_bind_of_error hrun]
    · rw [hrun] at hgood
      rw [run_bind_of_ok hrun] at hends ⊢
      rw [run_bind_of_ok hrun]
      exact run_walkChildren_of_steady hnames hvisit tree.children tree.distinct hhangs hgood hends

end Program

end OSVR.Math
