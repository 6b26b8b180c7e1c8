/-
# Adding aliases to the path tree

An alias replaces every other element of its node, and another alias unless that
has a higher priority.
-/

import OsvrCore.Common.ParseAlias
import OsvrCore.Common.PathParseAndRetrieve
import OsvrCore.Math.ForestTraversal

set_option autoImplicit false

namespace OSVR.Common

open Math

/-- `aliasNeedsUpdate`. -/
def aliasNeedsUpdate (value : PathElement) (source : Str) (priority : AliasPriority) : Bool :=
  match value with
  | .aliasElement oldSource oldPriority =>
      priority > oldPriority || (priority == oldPriority && source != oldSource)
  | .nullElement | .sensorElement | .interfaceElement | .deviceElement _ _ _ | .pluginElement
  | .stringElement _ => true

/-- `addAliasImpl`; the result says whether the node changed. -/
def addAliasImpl (node : NodePath) (source : Str) (priority : AliasPriority) :
    TreeProgram Bool := do
  if aliasNeedsUpdate (← TreeProgram.valueAt node) source priority then
    TreeProgram.setValue node (.aliasElement source priority)
    return true
  else return false

/-- `addAlias`. -/
def addAlias (codec : JsonCodec) (node : NodePath) (source : Str) (priority : AliasPriority) :
    TreeProgram Bool := do
  let newSource ← TreeProgram.ofJson (ParsedAlias.parse codec source)
  if !newSource.isValid then return false
  else if !isPathAbsolute newSource.getLeaf then return false
  else addAliasImpl node (newSource.getAlias codec) priority

/-- `getAbsolutePath`. -/
def getAbsolutePath (node : NodePath) (path : Str) : TreeProgram Str := do
  if isPathAbsolute path then return path
  else return getFullPath (← treePathRetrieve node path false)

/-- `addAliasFromSourceAndRelativeDest`. -/
def addAliasFromSourceAndRelativeDest (codec : JsonCodec) (node : NodePath) (source dest : Str)
    (priority : AliasPriority) : TreeProgram Bool := do
  let aliasNode ← treePathRetrieve node dest false
  let newSource ← TreeProgram.ofJson (ParsedAlias.parse codec source)
  if !newSource.isValid then return false
  else
    let absSource ← getAbsolutePath node newSource.getLeaf
    addAliasImpl aliasNode ((newSource.setLeaf absSource).getAlias codec) priority

/-! ## What adding an alias does -/

namespace PathTree

/-- The element of a node; a node that does not exist counts as null. -/
def element (tree : PathTree) (node : NodePath) : PathElement := (tree.value? node).getD default

/-- Create the nodes of several paths. -/
def touchAll (tree : PathTree) (paths : List NodePath) : PathTree :=
  paths.foldl (fun tree path => tree.touch path) tree

theorem element_touch (tree : PathTree) (path node : NodePath) :
    element (tree.touch path) node = tree.element node := by
  simp only [element, NamedTree.value?_touch]
  split <;> rfl

theorem element_touchAll (tree : PathTree) (paths : List NodePath) (node : NodePath) :
    element (touchAll tree paths) node = tree.element node := by
  induction paths generalizing tree with
  | nil => rfl
  | cons path paths ih => exact (ih _).trans (element_touch tree path node)

theorem element_set (tree : PathTree) (path node : NodePath) (value : PathElement) :
    element (tree.set path value) node = if node = path then value else tree.element node := by
  simp only [element, NamedTree.value?_set]
  split
  · rfl
  · split <;> rfl

end PathTree

/-- The nodes with an element are there. -/
theorem isSome_value?_of_element {tree : PathTree} {node : NodePath}
    (h : tree.element node ≠ .nullElement) : (tree.value? node).isSome = true := by
  by_contra hnone
  rw [Bool.not_eq_true, Option.isSome_eq_false_iff, Option.isNone_iff_eq_none] at hnone
  exact h (by rw [PathTree.element, hnone]; rfl)

@[simp] theorem TreeProgram.run_valueAt (tree : PathTree) (node : NodePath) :
    (TreeProgram.valueAt node).run tree = (.ok (tree.element node), tree) := rfl

/-- What an alias request comes to: the paths it looks up, and the node and the
source of the alias if the source is valid. -/
structure AliasPlan where
  lookups : List NodePath
  outcome : Except TreeError (Option (NodePath × Str))

namespace AliasPlan

/-- Carry out a plan: the lookups create nodes also when the request fails. -/
def execute (plan : AliasPlan) (priority : AliasPriority) (tree : PathTree) :
    Except (Abort TreeError) Bool × PathTree :=
  let found := tree.touchAll plan.lookups
  match plan.outcome with
  | .error error => (.error (.thrown error), found)
  | .ok none => (.ok false, found)
  | .ok (some (target, source)) =>
      if aliasNeedsUpdate (tree.element target) source priority then
        (.ok true, found.set target (.aliasElement source priority))
      else (.ok false, found)

end AliasPlan

/-- The plan of `addAliasFromSourceAndRelativeDest`. -/
def planAlias (codec : JsonCodec) (node : NodePath) (source dest : Str) : AliasPlan :=
  let target := locate node dest
  match target.failure, ParsedAlias.parse codec source with
  | some error, _ => ⟨[target.reached], .error error⟩
  | none, .error error => ⟨[target.reached], .error (.json error)⟩
  | none, .ok newSource =>
      if !newSource.isValid then ⟨[target.reached], .ok none⟩
      else if isPathAbsolute newSource.getLeaf then
        ⟨[target.reached],
          .ok (some (target.reached, (newSource.setLeaf newSource.getLeaf).getAlias codec))⟩
      else
        let leaf := locate node newSource.getLeaf
        ⟨[target.reached, leaf.reached],
          match leaf.failure with
          | some error => .error error
          | none =>
              .ok (some (target.reached,
                (newSource.setLeaf (getFullPath leaf.reached)).getAlias codec))⟩

theorem run_addAliasImpl (tree : PathTree) (node : NodePath) (source : Str)
    (priority : AliasPriority) :
    (addAliasImpl node source priority).run tree =
      if aliasNeedsUpdate (tree.element node) source priority then
        (.ok true, tree.set node (.aliasElement source priority))
      else (.ok false, tree) := by
  rw [addAliasImpl, Program.run_bind_of_ok (TreeProgram.run_valueAt tree node)]
  split <;> rfl

theorem run_getAbsolutePath (tree : PathTree) (node : NodePath)
    (hnode : (tree.value? node).isSome = true) (path : Str) :
    (getAbsolutePath node path).run tree =
      if isPathAbsolute path then (.ok path, tree)
      else ((locate node path).result.map getFullPath, tree.touch (locate node path).reached) := by
  unfold getAbsolutePath
  split
  · rfl
  · have hrun := run_treePathRetrieve tree node hnode path
    rcases hresult : (locate node path).result with reason | reached
    · rw [hresult] at hrun
      rw [Program.run_bind_of_error hrun]
      rfl
    · rw [hresult] at hrun
      rw [Program.run_bind_of_ok hrun]
      rfl

theorem run_addAliasFromSourceAndRelativeDest (codec : JsonCodec) (tree : PathTree)
    (node : NodePath) (hnode : (tree.value? node).isSome = true) (source dest : Str)
    (priority : AliasPriority) :
    (addAliasFromSourceAndRelativeDest codec node source dest priority).run tree =
      (planAlias codec node source dest).execute priority tree := by
  have hdest := run_treePathRetrieve tree node hnode dest
  unfold addAliasFromSourceAndRelativeDest planAlias
  rcases hlocated : locate node dest with ⟨target, failure | failure⟩
  · rw [hlocated] at hdest
    rw [Program.run_bind_of_ok hdest]
    cases hparse : ParsedAlias.parse codec source with
    | error error =>
        rw [Program.run_bind_of_error (TreeProgram.run_ofJson_error _ error)]
        rfl
    | ok newSource =>
        rw [Program.run_bind_of_ok (TreeProgram.run_ofJson_ok _ newSource)]
        cases hvalid : newSource.isValid with
        | false =>
            simp only [hvalid, Bool.not_false, ↓reduceIte]
            rfl
        | true =>
            have hnode' : ((tree.touch target).value? node).isSome = true :=
              (NamedTree.Grows.touch tree target).isSome_value? hnode
            have habs := run_getAbsolutePath (tree.touch target) node hnode' newSource.getLeaf
            simp only [hvalid, Bool.not_true, Bool.false_eq_true, ↓reduceIte]
            split at habs
            next habsolute =>
              rw [Program.run_bind_of_ok habs, if_pos habsolute, run_addAliasImpl,
                PathTree.element_touch]
              rfl
            next hrelative =>
              rw [if_neg hrelative]
              rcases hleaf : locate node newSource.getLeaf with ⟨reached, failure | failure⟩
              · rw [hleaf] at habs
                rw [Program.run_bind_of_ok habs, run_addAliasImpl, PathTree.element_touch,
                  PathTree.element_touch]
                rfl
              · rw [hleaf] at habs
                rw [Program.run_bind_of_error habs]
                rfl
  · rw [hlocated] at hdest
    rw [Program.run_bind_of_error hdest]
    rfl

namespace PathTree

theorem grows_touchAll (tree : PathTree) (paths : List NodePath) :
    NamedTree.Grows tree (tree.touchAll paths) := by
  induction paths generalizing tree with
  | nil => exact .refl tree
  | cons path paths ih => exact (NamedTree.Grows.touch tree path).trans (ih _)

/-- Lookups only create null elements, on their way. -/
theorem value?_touchAll {tree : PathTree} {paths : List NodePath} {query : NodePath}
    {value : PathElement} (h : NamedTree.value? (tree.touchAll paths) query = some value) :
    tree.value? query = some value ∨
      tree.value? query = none ∧ value = .nullElement ∧ ∃ path ∈ paths, query <+: path := by
  induction paths generalizing tree with
  | nil => exact .inl h
  | cons path paths ih =>
      rcases ih h with hold | ⟨hnew, hnull, other, hother, hbegins⟩
      · rw [NamedTree.value?_touch] at hold
        split at hold
        next hbegins =>
          cases hvalue : tree.value? query with
          | none =>
              rw [hvalue] at hold
              exact .inr ⟨rfl, by simpa [PathElement.default_eq] using hold.symm, path,
                List.mem_cons_self, hbegins⟩
          | some old =>
              rw [hvalue] at hold
              exact .inl hold
        next => exact .inl hold
      · refine .inr ⟨?_, hnull, other, List.mem_cons_of_mem _ hother, hbegins⟩
        rw [NamedTree.value?_touch] at hnew
        split at hnew
        · cases hnew
        · exact hnew

end PathTree

namespace AliasPlan

variable {plan : AliasPlan} {priority : AliasPriority} {tree : PathTree}

theorem grows_execute (plan : AliasPlan) (priority : AliasPriority) (tree : PathTree) :
    NamedTree.Grows tree (plan.execute priority tree).2 := by
  have hfound := tree.grows_touchAll plan.lookups
  unfold execute
  split
  · exact hfound
  · exact hfound
  · split
    · exact hfound.trans (.set _ _ _)
    · exact hfound

/-- The paths a plan may create. -/
def paths (plan : AliasPlan) : List NodePath :=
  match plan.outcome with
  | .ok (some (target, _)) => target :: plan.lookups
  | .ok none | .error _ => plan.lookups

/-- What a plan leaves in the tree: what was there, new null elements on the way of
its paths, and its alias. -/
theorem value?_execute {query : NodePath} {value : PathElement}
    (h : NamedTree.value? (plan.execute priority tree).2 query = some value) :
    tree.value? query = some value ∨
      (tree.value? query = none ∧ value = .nullElement ∧ ∃ path ∈ plan.paths, query <+: path) ∨
      ∃ target source, plan.outcome = .ok (some (target, source)) ∧ query = target ∧
        value = .aliasElement source priority := by
  have hlookups {path : NodePath} (hpath : path ∈ plan.lookups) : path ∈ plan.paths := by
    unfold paths
    split
    · exact List.mem_cons_of_mem _ hpath
    all_goals exact hpath
  have hfound (h : NamedTree.value? (tree.touchAll plan.lookups) query = some value) :
      tree.value? query = some value ∨ tree.value? query = none ∧ value = .nullElement ∧
        ∃ path ∈ plan.paths, query <+: path := by
    rcases PathTree.value?_touchAll h with hold | ⟨hnew, hnull, path, hpath, hbegins⟩
    · exact .inl hold
    · exact .inr ⟨hnew, hnull, path, hlookups hpath, hbegins⟩
  have hkept (h : NamedTree.value? (tree.touchAll plan.lookups) query = some value) :
      tree.value? query = some value ∨
        (tree.value? query = none ∧ value = .nullElement ∧ ∃ path ∈ plan.paths, query <+: path) ∨
        ∃ target source, plan.outcome = .ok (some (target, source)) ∧ query = target ∧
          value = .aliasElement source priority :=
    (hfound h).imp id .inl
  unfold execute at h
  split at h
  · exact hkept h
  · exact hkept h
  next target source houtcome =>
    split at h
    · rw [NamedTree.value?_set] at h
      split at h
      next htarget =>
        exact .inr (.inr ⟨target, source, houtcome, htarget, (Option.some.inj h).symm⟩)
      next =>
        split at h
        next hbegins =>
          cases hvalue : NamedTree.value? (tree.touchAll plan.lookups) query with
          | none =>
              rw [hvalue] at h
              refine .inr (.inl ⟨?_, by simpa [PathElement.default_eq] using h.symm, target,
                by simp [paths, houtcome], hbegins⟩)
              by_contra hthere
              have hgrows := tree.grows_touchAll plan.lookups
              have hstays := hgrows.isSome_value? (Option.isSome_iff_ne_none.mpr hthere)
              rw [hvalue] at hstays
              cases hstays
          | some old =>
              rw [hvalue] at h
              exact hkept (hvalue.trans h)
        next => exact hkept h
    · exact hkept h

/-- A plan only ends early with the error of its outcome. -/
theorem execute_eq_error {reason : Abort TreeError}
    (h : (plan.execute priority tree).1 = .error reason) :
    ∃ error, plan.outcome = .error error ∧ reason = .thrown error := by
  unfold execute at h
  split at h
  next error houtcome =>
    cases h
    exact ⟨error, houtcome, rfl⟩
  · cases h
  · split at h <;> cases h

end AliasPlan
end OSVR.Common
