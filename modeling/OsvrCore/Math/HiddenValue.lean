/-
# Values that a program does not look at

Two trees differ in the value of one node, and both values are of a kind that a
program treats alike. The program respects the difference if from both trees it
ends alike, again in such trees.
-/

import OsvrCore.Math.ForestTraversal

set_option autoImplicit false

namespace OSVR.Math

universe u v

namespace Program

variable {σ ε α β : Type u} {rel : σ → σ → Prop}

/-- From related states the program ends alike, in related states, and every read is
defined. -/
structure Respects (rel : σ → σ → Prop) (program : Program σ ε α) : Prop where
  alike : ∀ ⦃left right⦄, rel left right → (program.run left).1 = (program.run right).1
  related : ∀ ⦃left right⦄, rel left right → rel (program.run left).2 (program.run right).2
  defined : ∀ state, (program.run state).1 ≠ .error .undefined

namespace Respects

theorem of_pure (value : α) : Respects rel (pure value : Program σ ε α) where
  alike _ _ _ := rfl
  related _ _ h := h
  defined _ h := by cases h

theorem of_abort {reason : Abort ε} (hreason : reason ≠ .undefined) :
    Respects rel (abort reason : Program σ ε α) where
  alike _ _ _ := rfl
  related _ _ h := h
  defined _ h := hreason (Except.error.inj h)

theorem of_throw (error : ε) : Respects rel (throw error : Program σ ε α) :=
  of_abort (by simp)

theorem of_ofExcept (result : Except ε α) : Respects rel (ofExcept result : Program σ ε α) := by
  cases result with
  | error error => exact of_throw error
  | ok value => exact of_pure value

theorem of_modify {f : σ → σ} (hf : ∀ ⦃left right⦄, rel left right → rel (f left) (f right)) :
    Respects rel (modify f : Program σ ε PUnit) where
  alike _ _ _ := rfl
  related _ _ h := hf h
  defined _ h := by cases h

/-- What depends on the state itself. -/
theorem of_get {next : σ → Program σ ε α}
    (hnext : ∀ ⦃left right⦄, rel left right →
      ((next left).run left).1 = ((next right).run right).1 ∧
      rel ((next left).run left).2 ((next right).run right).2)
    (hdefined : ∀ state, ((next state).run state).1 ≠ .error .undefined) :
    Respects rel (get >>= next) where
  alike _ _ h := (hnext h).1
  related _ _ h := (hnext h).2
  defined := hdefined

/-- One of two programs, by a test that related states agree about. -/
theorem of_run_ite {program first second : Program σ ε α} {test : σ → Bool}
    (hrun : ∀ state, program.run state = if test state then first.run state else second.run state)
    (htest : ∀ ⦃left right⦄, rel left right → test left = test right)
    (hfirst : Respects rel first) (hsecond : Respects rel second) : Respects rel program := by
  constructor
  case alike =>
    intro left right hrel
    rw [hrun, hrun, htest hrel]
    split
    · exact hfirst.alike hrel
    · exact hsecond.alike hrel
  case related =>
    intro left right hrel
    rw [hrun, hrun, htest hrel]
    split
    · exact hfirst.related hrel
    · exact hsecond.related hrel
  case defined =>
    intro state
    rw [hrun]
    split
    · exact hfirst.defined state
    · exact hsecond.defined state

/-- Two runs from related states fail alike or give the same value. -/
theorem run_cases {program : Program σ ε α} (h : Respects rel program) {left right : σ}
    (hrel : rel left right) :
    (∃ reason after after', program.run left = (.error reason, after) ∧
      program.run right = (.error reason, after') ∧ rel after after') ∨
    ∃ value after after', program.run left = (.ok value, after) ∧
      program.run right = (.ok value, after') ∧ rel after after' := by
  have halike := h.alike hrel
  have hrelated := h.related hrel
  rcases hleft : program.run left with ⟨reason | value, after⟩
  all_goals
    rcases hright : program.run right with ⟨_ | _, after'⟩
    all_goals
      rw [hleft, hright] at halike hrelated
      cases halike
  · exact .inl ⟨reason, after, after', rfl, rfl, hrelated⟩
  · exact .inr ⟨value, after, after', rfl, rfl, hrelated⟩

theorem bind {program : Program σ ε α} {next : α → Program σ ε β} (h : Respects rel program)
    (hnext : ∀ value, Respects rel (next value)) : Respects rel (program >>= next) := by
  constructor
  case alike =>
    intro left right hrel
    rcases h.run_cases hrel with ⟨reason, _, _, hleft, hright, _⟩ |
      ⟨value, _, _, hleft, hright, hafter⟩
    · rw [run_bind_of_error hleft, run_bind_of_error hright]
    · rw [run_bind_of_ok hleft, run_bind_of_ok hright]
      exact (hnext value).alike hafter
  case related =>
    intro left right hrel
    rcases h.run_cases hrel with ⟨reason, _, _, hleft, hright, hafter⟩ |
      ⟨value, _, _, hleft, hright, hafter⟩
    · rw [run_bind_of_error hleft, run_bind_of_error hright]
      exact hafter
    · rw [run_bind_of_ok hleft, run_bind_of_ok hright]
      exact (hnext value).related hafter
  case defined =>
    intro state
    have hdefined := h.defined state
    rcases hrun : program.run state with ⟨reason | value, after⟩
    · rw [hrun] at hdefined
      rw [run_bind_of_error hrun]
      intro heq
      exact hdefined (congrArg Except.error (Except.error.inj heq))
    · rw [run_bind_of_ok hrun]
      exact (hnext value).defined after

/-- Programs that report changes, one after the other. -/
theorem inOrder {σ ε : Type} {rel : σ → σ → Prop} {programs : List (Program σ ε Bool)}
    (h : ∀ program ∈ programs, Respects rel program) : Respects rel (inOrder programs) := by
  induction programs with
  | nil => exact of_pure false
  | cons first rest ih =>
      have ⟨hfirst, hrest⟩ := List.forall_mem_cons.mp h
      apply hfirst.bind
      intro changed
      apply (ih hrest).bind
      intro others
      exact of_pure _

end Respects
end Program

/-! ## Changes at two nodes -/

namespace Forest

variable {κ : Type u} {α : Type v} [DecidableEq κ] [Inhabited α]

/-- A change at a node that there is and one at another node can be made in any order. -/
theorem upsert_comm (f g : Option α → α) (forest : Forest κ α) {path other : List κ}
    (hother : (forest.value? other).isSome = true) (hne : path ≠ other) :
    (forest.upsert g other).upsert f path = (forest.upsert f path).upsert g other := by
  induction forest generalizing path other with
  | nil => cases hother
  | cons name value children rest ihchildren ihrest =>
      rcases other with _ | ⟨first, other⟩
      · simp
      · rcases path with _ | ⟨head, path⟩
        · simp
        · by_cases hfirst : name = first
          · by_cases hhead : name = head
            · have hbelow : path ≠ other := by
                intro heq
                exact hne (by rw [← hhead, ← hfirst, heq])
              rcases other with _ | ⟨second, other⟩
              · have hpath : path.isEmpty = false := by simpa using hbelow
                simp [upsert, if_pos hfirst, if_pos hhead, hpath]
              · have hsecond : (children.value? (second :: other)).isSome = true := by
                  simpa [value?, hfirst] using hother
                have hchild := ihchildren hsecond hbelow
                simp only [upsert, if_pos hfirst, if_pos hhead, hchild, List.isEmpty_cons]
                rfl
            · simp only [upsert, if_pos hfirst, if_neg hhead]
          · by_cases hhead : name = head
            · simp only [upsert, if_neg hfirst, if_pos hhead]
            · have hrest : (rest.value? (first :: other)).isSome = true := by
                simpa [value?, hfirst] using hother
              have hlater := ihrest hrest hne
              simp only [upsert, if_neg hfirst, if_neg hhead, hlater]

/-- Of two values given to a node the later stays. -/
theorem upsert_const (old new : α) (forest : Forest κ α) (path : List κ) :
    (forest.upsert (fun _ => old) path).upsert (fun _ => new) path =
      forest.upsert (fun _ => new) path := by
  have hchain (path : List κ) :
      (chain (fun _ => old) path : Forest κ α).upsert (fun _ => new) path =
      chain (fun _ => new) path := by
    induction path with
    | nil => rfl
    | cons name path ih =>
        simp only [chain, upsert, ↓reduceIte, ih]
        cases path <;> rfl
  induction forest generalizing path with
  | nil => exact hchain path
  | cons name value children rest ihchildren ihrest =>
      rcases path with _ | ⟨head, path⟩
      · rfl
      · by_cases hname : name = head
        · simp only [upsert, if_pos hname, ihchildren]
          cases path <;> rfl
        · simp only [upsert, if_neg hname, ihrest]

/-- A change at a node that there is adds no child anywhere. -/
theorem names_childrenAt_upsert_of_isSome (f : Option α → α) (forest : Forest κ α) {path : List κ}
    (hpath : (forest.value? path).isSome = true) (query : List κ) :
    ((forest.upsert f path).childrenAt query).names = (forest.childrenAt query).names := by
  induction forest generalizing path query with
  | nil => cases hpath
  | cons name value children rest ihchildren ihrest =>
      rcases path with _ | ⟨head, path⟩
      · simp
      · by_cases hname : name = head
        · rcases query with _ | ⟨first, query⟩
          · simp [upsert, hname, childrenAt, names]
          · by_cases hfirst : name = first
            · rcases path with _ | ⟨second, path⟩
              · simp [upsert, hname, childrenAt]
              · have hsecond : (children.value? (second :: path)).isSome = true := by
                  simpa [value?, hname] using hpath
                have hchild := ihchildren hsecond query
                simp only [upsert, if_pos hname, childrenAt, if_pos hfirst, hchild]
            · simp only [upsert, if_pos hname, childrenAt, if_neg hfirst]
        · have hrest : (rest.value? (head :: path)).isSome = true := by
            simpa [value?, hname] using hpath
          rcases query with _ | ⟨first, query⟩
          · have hnames := ihrest hrest []
            have hroot (forest : Forest κ α) : forest.childrenAt [] = forest := by
              cases forest <;> rfl
            rw [hroot, hroot] at hnames
            simp only [upsert, if_neg hname, childrenAt, names, hnames]
          · by_cases hfirst : name = first
            · simp only [upsert, if_neg hname, childrenAt, if_pos hfirst]
            · simp only [upsert, if_neg hname, childrenAt, if_neg hfirst, ihrest hrest]

end Forest

namespace NamedTree

variable {κ : Type u} {α : Type v} [DecidableEq κ] [Inhabited α]

theorem upsert_comm (f g : Option α → α) (tree : NamedTree κ α) {path other : List κ}
    (hother : (tree.value? other).isSome = true) (hne : path ≠ other) :
    (tree.upsert g other).upsert f path = (tree.upsert f path).upsert g other := by
  rcases other with _ | ⟨first, other⟩
  · rcases path with _ | ⟨head, path⟩
    · exact absurd rfl hne
    · ext1
      · rfl
      · simp [upsert]
  · ext1
    · rfl
    · exact Forest.upsert_comm f g tree.children hother hne

theorem set_set (tree : NamedTree κ α) (path : List κ) (old new : α) :
    (tree.set path old).set path new = tree.set path new := by
  ext1
  · cases path <;> rfl
  · exact Forest.upsert_const old new tree.children path

theorem childNames_set (tree : NamedTree κ α) {path : List κ}
    (hpath : (tree.value? path).isSome = true) (value : α) (query : List κ) :
    (tree.set path value).childNames query = tree.childNames query := by
  rcases path with _ | ⟨head, path⟩
  · simp [childNames, set, upsert]
  · exact Forest.names_childrenAt_upsert_of_isSome _ tree.children hpath query

/-! ## Trees that differ in one value -/

/-- The same trees, or trees with hidden values at one node and otherwise the same. -/
def DifferAt (path : List κ) (hidden : α → Prop) (left right : NamedTree κ α) : Prop :=
  left = right ∨ ∃ old value, left.value? path = some old ∧ hidden old ∧ hidden value ∧
    right = left.set path value

namespace DifferAt

variable {path : List κ} {hidden : α → Prop} {left right : NamedTree κ α}

/-- At every other node the values are the same. -/
theorem value?_eq (h : DifferAt path hidden left right) {query : List κ} (hquery : query ≠ path) :
    left.value? query = right.value? query := by
  rcases h with heq | ⟨old, value, hold, _, _, hright⟩
  · rw [heq]
  · rw [hright, value?_set, if_neg hquery]
    split
    next hbegins =>
      have hsome := left.isSome_value?_of_above hbegins (by rw [hold]; rfl)
      cases hvalue : left.value? query with
      | none =>
          rw [hvalue] at hsome
          cases hsome
      | some other => rfl
    next => rfl

/-- At the node itself the values are the same or both hidden. -/
theorem value?_path (h : DifferAt path hidden left right) :
    left.value? path = right.value? path ∨
      ∃ old value, left.value? path = some old ∧ right.value? path = some value ∧ hidden old ∧
        hidden value := by
  rcases h with heq | ⟨old, value, hold, hhidden, hnew, hright⟩
  · exact .inl (by rw [heq])
  · exact .inr ⟨old, value, hold, by rw [hright, value?_set, if_pos rfl], hhidden, hnew⟩

theorem childNames_eq (h : DifferAt path hidden left right) (query : List κ) :
    left.childNames query = right.childNames query := by
  rcases h with heq | ⟨old, value, hold, _, _, hright⟩
  · rw [heq]
  · rw [hright, left.childNames_set (by rw [hold]; rfl)]

theorem touch (h : DifferAt path hidden left right) (query : List κ) :
    DifferAt path hidden (left.touch query) (right.touch query) := by
  rcases h with heq | ⟨old, value, hold, hhidden, hnew, hright⟩
  · exact .inl (by rw [heq])
  · refine .inr ⟨old, value, ?_, hhidden, hnew, ?_⟩
    · rw [value?_touch, hold]
      split <;> rfl
    · by_cases hquery : query = path
      · have hvalue : right.value? path = some value := by rw [hright, value?_set, if_pos rfl]
        rw [hquery, touch_of_value? left hold, touch_of_value? right hvalue, hright]
      · rw [hright]
        exact upsert_comm _ _ left (by rw [hold]; rfl) hquery

theorem set (h : DifferAt path hidden left right) (query : List κ) (written : α) :
    DifferAt path hidden (left.set query written) (right.set query written) := by
  rcases h with heq | ⟨old, value, hold, hhidden, hnew, hright⟩
  · exact .inl (by rw [heq])
  · by_cases hquery : query = path
    · exact .inl (by rw [hright, hquery, set_set])
    · refine .inr ⟨old, value, ?_, hhidden, hnew, ?_⟩
      · rw [value?_set, if_neg (Ne.symm hquery), hold]
        split <;> rfl
      · rw [hright]
        exact upsert_comm _ _ left (by rw [hold]; rfl) hquery

end DifferAt

/-- A traversal respects the difference when its visits do. -/
theorem respects_traverse {κ α ε : Type} [DecidableEq κ] [Inhabited α] {path : List κ}
    {hidden : α → Prop} {visit : List κ → Program (NamedTree κ α) ε Bool}
    (hvisit : ∀ node, Program.Respects (DifferAt path hidden) (visit node)) (fuel : ℕ) :
    (∀ node, Program.Respects (DifferAt path hidden) (traverse visit fuel node)) ∧
      ∀ node index, Program.Respects (DifferAt path hidden)
        (visitChildren visit fuel node index) := by
  induction fuel with
  | zero => exact ⟨fun _ => .of_abort (by simp), fun _ _ => .of_abort (by simp)⟩
  | succ fuel ih =>
      constructor
      · intro node
        rw [traverse]
        apply Program.Respects.bind (hvisit node)
        intro changed
        apply Program.Respects.bind (ih.2 node 0)
        intro below
        exact .of_pure _
      · intro node index
        have hchild (name : κ) : Program.Respects (DifferAt path hidden) (do
            let changed ← traverse visit fuel (node ++ [name])
            let later ← visitChildren visit fuel node (index + 1)
            return changed || later) := by
          apply Program.Respects.bind (ih.1 (node ++ [name]))
          intro changed
          apply Program.Respects.bind (ih.2 node (index + 1))
          intro later
          exact .of_pure _
        rw [visitChildren]
        apply Program.Respects.of_get
        · intro left right hrel
          rw [hrel.childNames_eq node]
          cases (right.childNames node)[index]? with
          | none => exact ⟨rfl, hrel⟩
          | some name => exact ⟨(hchild name).alike hrel, (hchild name).related hrel⟩
        · intro tree
          cases (tree.childNames node)[index]? with
          | none => simp
          | some name => exact (hchild name).defined tree

end NamedTree
end OSVR.Math
