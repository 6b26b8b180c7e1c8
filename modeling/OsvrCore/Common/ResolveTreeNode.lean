/-
# Resolving a node of the path tree to its source

Resolution goes from an alias to the node its leaf names, collecting the
transforms, until it lands on a sensor or an interface. Nothing bounds the
number of aliases on the way, so the recursion takes fuel, and the results say
for which trees and paths some amount of fuel is enough.
-/

import OsvrCore.Math.PartialOrbit
import OsvrCore.Common.PathTree

set_option autoImplicit false

namespace OSVR.Common

open Math

namespace Json

mutual

/-- The levels that `GeneralizedTransform::nest` adds for a transform, each
without its child. -/
def transformLevels : Json → List Json
  | .obj members =>
      match transformLevelsIn members with
      | some inner => .obj (members.filter fun member => member.1 != CHILD_KEY) :: inner
      | none => []
  | .null | .bool _ | .int _ | .real _ | .str _ | .arr _ => []

def transformLevelsIn : List (Str × Json) → Option (List Json)
  | [] => none
  | (key, value) :: rest =>
      if key = CHILD_KEY then some (transformLevels value) else transformLevelsIn rest

end

end Json

/-- `OriginalSource`. -/
structure OriginalSource where
  device : Option NodePath
  interface : Option NodePath
  sensor : Option NodePath
  transform : List Json

namespace OriginalSource

def empty : OriginalSource := ⟨none, none, none, []⟩

def isResolved (source : OriginalSource) : Bool := source.device.isSome && source.interface.isSome

def nestTransform (source : OriginalSource) (transform : Json) : OriginalSource :=
  { source with transform := source.transform ++ transform.transformLevels }

/-- `decompose`, going up from a node whose names are given from the last to the
first. Where a member is set a second time the new value replaces the old. -/
def decompose (source : OriginalSource) : List PathName → TreeProgram OriginalSource
  | [] => do
      match ← TreeProgram.valueAt [] with
      | .sensorElement => Program.throw (.sensorMissingParent (getFullPath []))
      | .interfaceElement => Program.throw (.interfaceMissingParent (getFullPath []))
      | .deviceElement _ _ _ => return { source with device := some [] }
      | .nullElement | .aliasElement _ _ | .pluginElement | .stringElement _ =>
          Program.throw .unrecognizedElement
  | name :: up => do
      let node := (name :: up).reverse
      match ← TreeProgram.valueAt node with
      | .sensorElement =>
          let above ← decompose { source with sensor := some node } up
          if above.interface.isNone then
            Program.throw (.sensorMissingInterfaceParent (getFullPath node))
          else return above
      | .interfaceElement => decompose { source with interface := some node } up
      | .deviceElement _ _ _ => return { source with device := some node }
      | .nullElement | .aliasElement _ _ | .pluginElement | .stringElement _ =>
          Program.throw .unrecognizedElement

end OriginalSource

/-- `ifNullTryInferFromParent`: a child of an interface is a sensor. -/
def ifNullTryInferFromParent (node : NodePath) : TreeProgram Unit := do
  if (← TreeProgram.valueAt node) = .nullElement ∧ node ≠ [] then
    if (← TreeProgram.valueAt node.dropLast) = .interfaceElement then
      TreeProgram.setValue node .sensorElement

/-- `TreeResolutionVisitor`: an alias goes on with its leaf, and sensors and
interfaces are where the resolution lands. -/
def visitElement (codec : JsonCodec) (recurse : Str → OriginalSource → TreeProgram OriginalSource)
    (node : NodePath) (source : OriginalSource) : PathElement → TreeProgram OriginalSource
  | .aliasElement aliasSource _ => do
      let parsed ← TreeProgram.ofJson (ParsedAlias.parse codec aliasSource)
      if !parsed.isValid then return source
      else
        recurse parsed.getLeaf (if parsed.simple then source else source.nestTransform parsed.value)
  | .sensorElement | .interfaceElement => source.decompose node.reverse
  | .nullElement | .deviceElement _ _ _ | .pluginElement | .stringElement _ => return source

/-- `resolveTreeNodeImpl`. -/
def resolveTreeNodeImpl (codec : JsonCodec) :
    (fuel : ℕ) → (path : Str) → OriginalSource → TreeProgram OriginalSource
  | 0, _, _ => Program.abort .outOfFuel
  | fuel + 1, path, source => do
      let node ← getNodeByPath path
      ifNullTryInferFromParent node
      visitElement codec (resolveTreeNodeImpl codec fuel) node source (← TreeProgram.valueAt node)

/-- `resolveTreeNode`. -/
def resolveTreeNode (codec : JsonCodec) (fuel : ℕ) (path : Str) :
    TreeProgram (Option OriginalSource) := do
  let source ← resolveTreeNodeImpl codec fuel path .empty
  return if source.isResolved then some source else none

/-! ## The chain of aliases -/

namespace PathElement

/-- The source of an alias. -/
def aliasSource? : PathElement → Option Str
  | aliasElement source _ => some source
  | nullElement | sensorElement | interfaceElement | deviceElement _ _ _ | pluginElement
  | stringElement _ => none

end PathElement

/-- The leaf of an alias source that can be parsed. -/
def leafOfSource (codec : JsonCodec) (source : Str) : Option Str :=
  match ParsedAlias.parse codec source with
  | .ok parsed => if parsed.isValid then some parsed.getLeaf else none
  | .error _ => none

/-- The leaf of the alias at a node. -/
def aliasLeaf (codec : JsonCodec) (tree : PathTree) (node : NodePath) : Option Str :=
  ((tree.value? node).bind PathElement.aliasSource?).bind (leafOfSource codec)

/-- The node a path names, if the lookup does not throw. -/
def nodeOfPath (path : Str) : Option NodePath :=
  match locateAbsolute path with
  | ⟨reached, none⟩ => some reached
  | ⟨_, some _⟩ => none

/-- The node that the alias at a node refers to. -/
def aliasLink (codec : JsonCodec) (tree : PathTree) (node : NodePath) : Option NodePath :=
  (aliasLeaf codec tree node).bind nodeOfPath

/-- The same aliases at the same nodes. -/
def SameAliases (left right : PathTree) : Prop :=
  ∀ node, (left.value? node).bind PathElement.aliasSource? =
    (right.value? node).bind PathElement.aliasSource?

namespace SameAliases

variable {left middle right : PathTree}

theorem refl (tree : PathTree) : SameAliases tree tree := fun _ => rfl

theorem trans (h : SameAliases left middle) (h' : SameAliases middle right) :
    SameAliases left right := fun node => (h node).trans (h' node)

theorem aliasLeaf_eq (h : SameAliases left right) (codec : JsonCodec) (node : NodePath) :
    aliasLeaf codec left node = aliasLeaf codec right node := by
  rw [aliasLeaf, aliasLeaf, h node]

theorem aliasLink_eq (h : SameAliases left right) (codec : JsonCodec) :
    aliasLink codec left = aliasLink codec right := by
  funext node
  rw [aliasLink, aliasLink, h.aliasLeaf_eq]

/-- New nodes are no aliases. -/
theorem touch (tree : PathTree) (path : NodePath) : SameAliases tree (tree.touch path) := by
  intro node
  rw [tree.value?_touch]
  split
  · cases h : tree.value? node <;> simp [PathElement.default_eq, PathElement.aliasSource?]
  · rfl

/-- A null element that becomes a sensor was no alias and is none. -/
theorem set_sensor (tree : PathTree) {path : NodePath}
    (hnull : (tree.value? path).getD default = .nullElement) :
    SameAliases tree (tree.set path .sensorElement) := by
  intro node
  rw [tree.value?_set]
  split
  next hnode =>
    cases h : tree.value? path with
    | none => simp [hnode, h, PathElement.aliasSource?]
    | some value =>
        rw [h, Option.getD_some] at hnull
        simp [hnode, h, hnull, PathElement.aliasSource?]
  next =>
    split
    · cases h : tree.value? node <;> simp [PathElement.default_eq, PathElement.aliasSource?]
    · rfl

theorem relates_bind {ε α β : Type} {program : Program PathTree ε α}
    {next : α → Program PathTree ε β} (h : Program.Relates SameAliases program)
    (hnext : ∀ value, Program.Relates SameAliases (next value)) :
    Program.Relates SameAliases (program >>= next) := by
  apply Program.Relates.bind _ h hnext
  intro first second third hfirst hsecond
  exact hfirst.trans hsecond

end SameAliases

/-- The tree when the inference has looked at a node. -/
def inferred (tree : PathTree) (node : NodePath) : PathTree :=
  if tree.element node = .nullElement ∧ node ≠ [] ∧
    tree.element node.dropLast = .interfaceElement then tree.set node .sensorElement
  else tree

theorem run_ifNullTryInferFromParent (tree : PathTree) (node : NodePath) :
    (ifNullTryInferFromParent node).run tree = (.ok (), inferred tree node) := by
  rw [ifNullTryInferFromParent, Program.run_bind_of_ok (TreeProgram.run_valueAt tree node)]
  by_cases hnull : tree.element node = .nullElement ∧ node ≠ []
  · rw [if_pos hnull, Program.run_bind_of_ok (TreeProgram.run_valueAt tree node.dropLast)]
    by_cases hparent : tree.element node.dropLast = .interfaceElement
    · rw [if_pos hparent, inferred, if_pos ⟨hnull.1, hnull.2, hparent⟩]
      rfl
    · rw [if_neg hparent, inferred, if_neg fun h => hparent h.2.2]
      rfl
  · rw [if_neg hnull, inferred, if_neg fun h => hnull ⟨h.1, h.2.1⟩]
    rfl

/-- The inference keeps the aliases. -/
theorem SameAliases.inferred (tree : PathTree) (node : NodePath) :
    SameAliases tree (inferred tree node) := by
  unfold Common.inferred
  split
  next h => exact SameAliases.set_sensor tree h.1
  next => exact .refl tree

/-- A node that exists keeps existing. -/
theorem value?_inferred {tree : PathTree} {node : NodePath}
    (hsome : (tree.value? node).isSome = true) :
    (inferred tree node).value? node = some ((inferred tree node).element node) := by
  have hsome' : ((inferred tree node).value? node).isSome = true := by
    unfold inferred
    split
    next =>
      rw [NamedTree.value?_set, if_pos rfl]
      rfl
    next => exact hsome
  obtain ⟨value, hvalue⟩ := Option.isSome_iff_exists.mp hsome'
  rw [PathTree.element, hvalue, Option.getD_some]

theorem run_getNodeByPath_of_nodeOfPath {path : Str} {node : NodePath}
    (hpath : nodeOfPath path = some node) (tree : PathTree) :
    (getNodeByPath path).run tree = (.ok node, tree.touch node) := by
  rw [run_getNodeByPath]
  unfold nodeOfPath at hpath
  split at hpath
  next reached hlocated =>
    cases hpath
    rw [hlocated]
    rfl
  next => cases hpath

/-- A resolution looks its node up, makes an inference there and visits it. -/
theorem run_resolveTreeNodeImpl_succ {codec : JsonCodec} {path : Str} {node : NodePath}
    (hpath : nodeOfPath path = some node) (fuel : ℕ) (source : OriginalSource) (tree : PathTree) :
    (resolveTreeNodeImpl codec (fuel + 1) path source).run tree =
      (visitElement codec (resolveTreeNodeImpl codec fuel) node source
        ((inferred (tree.touch node) node).element node)).run
          (inferred (tree.touch node) node) := by
  rw [resolveTreeNodeImpl, Program.run_bind_of_ok (run_getNodeByPath_of_nodeOfPath hpath tree),
    Program.run_bind_of_ok (run_ifNullTryInferFromParent _ _),
    Program.run_bind_of_ok (TreeProgram.run_valueAt _ _)]

/-- The way up from a landed node ends at the root at the latest, and only looks. -/
theorem OriginalSource.run_decompose (source : OriginalSource) (up : List PathName)
    (tree : PathTree) : ∃ result, (source.decompose up).run tree = (result, tree) ∧
      result ≠ .error .outOfFuel := by
  induction up generalizing source with
  | nil =>
      simp only [decompose, TreeProgram.valueAt, Program.run_bind, Program.run_get,
        Program.run_pure]
      split <;> exact ⟨_, rfl, by simp⟩
  | cons name up ih =>
      simp only [decompose, TreeProgram.valueAt, Program.run_bind, Program.run_get,
        Program.run_pure]
      split
      · obtain ⟨result, hrun, hends⟩ := ih { source with sensor := some (name :: up).reverse }
        rcases result with reason | above
        · exact ⟨.error reason, Program.run_bind_of_error hrun, by simpa using hends⟩
        · rw [Program.run_bind_of_ok hrun]
          split <;> exact ⟨_, rfl, by simp⟩
      · exact ih _
      all_goals exact ⟨_, rfl, by simp⟩

theorem OriginalSource.run_decompose_ne (source : OriginalSource) (up : List PathName)
    (tree : PathTree) : ((source.decompose up).run tree).1 ≠ .error .outOfFuel := by
  obtain ⟨result, hrun, hends⟩ := source.run_decompose up tree
  rwa [hrun]

/-! ## What a resolution keeps -/

theorem OriginalSource.snd_run_decompose (source : OriginalSource) (up : List PathName)
    (tree : PathTree) : ((source.decompose up).run tree).2 = tree := by
  obtain ⟨result, hrun, _⟩ := source.run_decompose up tree
  rw [hrun]

section Relates

variable {rel : PathTree → PathTree → Prop} (hrefl : ∀ tree, rel tree tree)
  (htrans : ∀ ⦃first second third⦄, rel first second → rel second third → rel first third)
  (htouch : ∀ (tree : PathTree) path, rel tree (tree.touch path))
  (hinfer : ∀ (tree : PathTree) node, rel tree (inferred tree node))

include hinfer

theorem relates_ifNullTryInferFromParent (node : NodePath) :
    Program.Relates rel (ifNullTryInferFromParent node) := by
  intro tree
  rw [run_ifNullTryInferFromParent]
  exact hinfer tree node

include hrefl htrans htouch

/-- A resolution does nothing but create nodes and make null elements sensors. -/
theorem relates_resolveTreeNodeImpl (codec : JsonCodec) (fuel : ℕ) (path : Str)
    (source : OriginalSource) :
    Program.Relates rel (resolveTreeNodeImpl codec fuel path source) := by
  induction fuel generalizing path source with
  | zero => exact Program.relates_abort hrefl _
  | succ fuel ih =>
      rw [resolveTreeNodeImpl]
      have hnode : Program.Relates rel (getNodeByPath path) := by
        intro tree
        rw [run_getNodeByPath]
        exact htouch tree _
      apply Program.Relates.bind htrans hnode
      intro node
      apply Program.Relates.bind htrans (relates_ifNullTryInferFromParent hinfer node)
      intro _
      have hvalue : Program.Relates rel (TreeProgram.valueAt node) := hrefl
      apply Program.Relates.bind htrans hvalue
      intro element
      cases element with
      | aliasElement aliasSource priority =>
          apply Program.Relates.bind htrans (Program.relates_ofExcept hrefl _)
          intro parsed
          split
          · exact Program.relates_pure hrefl _
          · exact ih _ _
      | sensorElement =>
          intro tree
          rw [visitElement, OriginalSource.snd_run_decompose]
          exact hrefl tree
      | interfaceElement =>
          intro tree
          rw [visitElement, OriginalSource.snd_run_decompose]
          exact hrefl tree
      | _ => exact Program.relates_pure hrefl _

theorem relates_resolveTreeNode (codec : JsonCodec) (fuel : ℕ) (path : Str) :
    Program.Relates rel (resolveTreeNode codec fuel path) :=
  Program.Relates.bind htrans
    (relates_resolveTreeNodeImpl hrefl htrans htouch hinfer codec fuel path .empty)
    fun _ => Program.relates_pure hrefl _

end Relates

/-- A resolution keeps the aliases, however it ends. -/
theorem sameAliases_resolveTreeNode (codec : JsonCodec) (fuel : ℕ) (path : Str) :
    Program.Relates SameAliases (resolveTreeNode codec fuel path) :=
  relates_resolveTreeNode SameAliases.refl (fun _ _ _ h h' => h.trans h') SameAliases.touch
    SameAliases.inferred codec fuel path

/-- Every element but the null ones is as it was. -/
def KeepsElements (before after : PathTree) : Prop :=
  ∀ node value, before.value? node = some value → value ≠ .nullElement →
    after.value? node = some value

theorem KeepsElements.touch (tree : PathTree) (path : NodePath) :
    KeepsElements tree (tree.touch path) := by
  intro node value hvalue _
  rw [tree.value?_touch]
  split
  · rw [hvalue]
    rfl
  · exact hvalue

theorem KeepsElements.inferred (tree : PathTree) (path : NodePath) :
    KeepsElements tree (inferred tree path) := by
  intro node value hvalue hnull
  unfold Common.inferred
  split
  next hpath =>
    rw [tree.value?_set]
    split
    next hnode =>
      have hsame : tree.element path = value := by
        rw [← hnode, PathTree.element, hvalue, Option.getD_some]
      exact absurd (hsame.symm.trans hpath.1) hnull
    next =>
      split
      · rw [hvalue]
        rfl
      · exact hvalue
  next => exact hvalue

/-- A resolution keeps every element but the null ones. -/
theorem keepsElements_resolveTreeNode (codec : JsonCodec) (fuel : ℕ) (path : Str) :
    Program.Relates KeepsElements (resolveTreeNode codec fuel path) := by
  apply relates_resolveTreeNode
  · exact fun tree node value hvalue _ => hvalue
  · exact fun first second third h h' node value hvalue hnull =>
      h' node value (h node value hvalue hnull) hnull
  · exact KeepsElements.touch
  · exact KeepsElements.inferred

section Resolution

variable (codec : JsonCodec) (tree : PathTree) {path : Str} {node : NodePath}

/-- A path that cannot be looked up ends the resolution. -/
theorem resolve_of_bad_path (fuel : ℕ) (source : OriginalSource) (hpath : nodeOfPath path = none) :
    ((resolveTreeNodeImpl codec (fuel + 1) path source).run tree).1 ≠ .error .outOfFuel := by
  have hrun := run_getNodeByPath tree path
  unfold nodeOfPath at hpath
  split at hpath
  · simp at hpath
  next reached error hlocated =>
    rw [hlocated] at hrun
    rw [resolveTreeNodeImpl, Program.run_bind_of_error hrun]
    simp

/-- One level of the resolution: it ends at a node without a usable alias, and
otherwise goes on with the alias's leaf in a tree with the same aliases. -/
theorem resolve_step (hpath : nodeOfPath path = some node) :
    match aliasLeaf codec tree node with
    | none => ∀ fuel source,
        ((resolveTreeNodeImpl codec (fuel + 1) path source).run tree).1 ≠ .error .outOfFuel
    | some leaf => ∀ fuel source, ∃ (next : OriginalSource) (after : PathTree),
        SameAliases tree after ∧
          (resolveTreeNodeImpl codec (fuel + 1) path source).run tree =
            (resolveTreeNodeImpl codec fuel leaf next).run after := by
  have hsome : ((tree.touch node).value? node).isSome = true := by simp [NamedTree.value?_touch]
  have hsame := (SameAliases.touch tree node).trans (SameAliases.inferred (tree.touch node) node)
  have helement := value?_inferred hsome
  have hlevel (fuel : ℕ) (source : OriginalSource) :=
    @run_resolveTreeNodeImpl_succ codec path node hpath fuel source tree
  generalize inferred (tree.touch node) node = after at hsame helement hlevel
  generalize after.element node = element at helement hlevel
  rw [hsame.aliasLeaf_eq codec node, aliasLeaf, helement, Option.bind_some]
  cases element with
  | aliasElement aliasSource priority =>
      simp only [PathElement.aliasSource?, Option.bind_some, leafOfSource]
      simp only [hlevel, visitElement]
      cases hparse : ParsedAlias.parse codec aliasSource with
      | error error =>
          intro fuel source
          rw [Program.run_bind_of_error (TreeProgram.run_ofJson_error after error)]
          simp
      | ok parsed =>
          have hrun := TreeProgram.run_ofJson_ok after parsed
          cases hvalid : parsed.isValid with
          | false =>
              simp only [hvalid, Bool.false_eq_true, ↓reduceIte]
              intro fuel source
              rw [Program.run_bind_of_ok hrun]
              simp [hvalid]
          | true =>
              simp only [hvalid, ↓reduceIte]
              intro fuel source
              refine ⟨if parsed.simple then source else source.nestTransform parsed.value, after,
                hsame, ?_⟩
              rw [Program.run_bind_of_ok hrun]
              simp only [hvalid, Bool.not_true, Bool.false_eq_true, ↓reduceIte]
  | sensorElement => exact fun fuel source => hlevel fuel source ▸ source.run_decompose_ne _ _
  | interfaceElement => exact fun fuel source => hlevel fuel source ▸ source.run_decompose_ne _ _
  | _ =>
      intro fuel source
      rw [hlevel]
      simp [visitElement]

/-- Enough fuel for the chain is enough for the resolution. -/
theorem resolve_ends (fuel : ℕ) (source : OriginalSource) (hpath : nodeOfPath path = some node)
    (hchain : Orbit.nth (aliasLink codec tree) fuel node = none) :
    ((resolveTreeNodeImpl codec (fuel + 1) path source).run tree).1 ≠ .error .outOfFuel := by
  induction fuel generalizing path node source tree with
  | zero => simp [Orbit.nth] at hchain
  | succ fuel ih =>
      have hstep := resolve_step codec tree hpath
      cases hleaf : aliasLeaf codec tree node with
      | none =>
          rw [hleaf] at hstep
          exact hstep (fuel + 1) source
      | some leaf =>
          rw [hleaf] at hstep
          obtain ⟨next, after, hsame, hrun⟩ := hstep (fuel + 1) source
          rw [hrun]
          cases hnext : nodeOfPath leaf with
          | none => exact resolve_of_bad_path codec after fuel next hnext
          | some following =>
              refine ih after next hnext ?_
              rw [← hsame.aliasLink_eq]
              simpa [Orbit.nth, aliasLink, hleaf, hnext] using hchain

/-- A chain that is longer than the fuel uses it up. -/
theorem resolve_outOfFuel (fuel : ℕ) (source : OriginalSource) (hpath : nodeOfPath path = some node)
    (hchain : (Orbit.nth (aliasLink codec tree) fuel node).isSome = true) :
    ((resolveTreeNodeImpl codec fuel path source).run tree).1 = .error .outOfFuel := by
  induction fuel generalizing path node source tree with
  | zero => rfl
  | succ fuel ih =>
      rw [Orbit.nth] at hchain
      cases hlink : aliasLink codec tree node with
      | none => simp [hlink] at hchain
      | some following =>
          obtain ⟨leaf, hleaf, hnext⟩ := Option.bind_eq_some_iff.mp hlink
          have hstep := resolve_step codec tree hpath
          rw [hleaf] at hstep
          obtain ⟨next, after, hsame, hrun⟩ := hstep fuel source
          rw [hrun]
          refine ih after next hnext ?_
          rw [← hsame.aliasLink_eq]
          simpa [hlink] using hchain

/-- A tree has finitely many aliases. -/
theorem mem_linked (node : NodePath) (hlink : (aliasLink codec tree node).isSome = true) :
    node ∈ (tree.entries.map Prod.fst).toFinset := by
  cases hvalue : tree.value? node with
  | none => simp [aliasLink, aliasLeaf, hvalue] at hlink
  | some value =>
      rw [List.mem_toFinset]
      exact List.mem_map_of_mem (NamedTree.mem_entries_of_value? hvalue)

end Resolution

/-- For every tree and path, `resolveTreeNode` ends exactly when the aliases met
from the node of the path on never lead back to a node met before. A path whose
lookup throws ends it at once. -/
theorem resolveTreeNode_ends_iff (codec : JsonCodec) (tree : PathTree) (path : Str) :
    (∃ fuel, ((resolveTreeNode codec fuel path).run tree).1 ≠ .error .outOfFuel) ↔
      ∀ node, nodeOfPath path = some node → Orbit.Simple (aliasLink codec tree) node := by
  have hends (fuel : ℕ) : ((resolveTreeNode codec fuel path).run tree).1 = .error .outOfFuel ↔
      ((resolveTreeNodeImpl codec fuel path .empty).run tree).1 = .error .outOfFuel := by
    rw [resolveTreeNode, Program.run_bind]
    split
    next hrun => simp [hrun]
    next hrun => simp [hrun]
  simp only [ne_eq, hends]
  cases hpath : nodeOfPath path with
  | none =>
      refine ⟨fun _ node hnode => by simp at hnode, fun _ => ⟨1, ?_⟩⟩
      exact resolve_of_bad_path codec tree 0 .empty hpath
  | some node =>
      simp only [Option.some.injEq, forall_eq']
      rw [← Orbit.ends_iff_simple _ (mem_linked codec tree)]
      constructor
      · rintro ⟨fuel, hfuel⟩
        refine ⟨fuel, ?_⟩
        by_contra hsome
        exact hfuel (resolve_outOfFuel codec tree fuel .empty hpath
          (Option.isSome_iff_ne_none.mpr hsome))
      · rintro ⟨length, hchain⟩
        exact ⟨length + 1, resolve_ends codec tree length .empty hpath hchain⟩

theorem isName_selfAlias : IsName ['a'] := by decide

/-- A tree whose only alias names its own node. -/
def selfAlias : PathTree :=
  PathTree.empty.set [⟨['a'], isName_selfAlias⟩] (.aliasElement "/a".toList ALIASPRIORITY_MANUAL)

/-- No amount of fuel resolves an alias of itself; its source is no JSON text. -/
theorem resolveTreeNode_selfAlias :
    ¬ ∀ (codec : JsonCodec) (tree : PathTree) (path : Str), isPathAbsolute path = true →
      ∃ fuel, ((resolveTreeNode codec fuel path).run tree).1 ≠ .error .outOfFuel := by
  intro hall
  have hends :=
    hall ⟨fun _ => none, fun _ => [], fun _ => [], fun _ => []⟩ selfAlias "/a".toList rfl
  rw [resolveTreeNode_ends_iff] at hends
  exact hends [⟨['a'], by decide⟩] rfl 0 1 Nat.one_pos [⟨['a'], by decide⟩] rfl rfl

end OSVR.Common
