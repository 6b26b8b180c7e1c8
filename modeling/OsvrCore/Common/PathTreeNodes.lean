/-
# Path trees as tree nodes

The nodes that `getNodeByPath` makes have names of one kind only, and no two
siblings share one. So a path tree can be read off the names, and everything
that is said of paths and names holds of the nodes themselves.
-/

import Mathlib.Data.List.Induction
import OsvrCore.Common.PathSpelling
import OsvrCore.Common.TreePathRetrieve

set_option autoImplicit false

namespace OSVR.Common

open Math Util

namespace PathTree

/-- The nodes of a path tree. -/
def asNodes (tree : PathTree) : TreeNode PathElement :=
  ⟨tree.value, tree.children.mapNames Subtype.val⟩

/-- The node that a pointer refers to, by its names. -/
def Refers (tree : PathTree) (ref : NodeRef) (node : NodePath) : Prop :=
  tree.children.namesTo ref = some node

theorem asNodes_empty : PathTree.empty.asNodes = TreeNode.createRoot .nullElement := rfl

theorem childNames_asNodes (tree : PathTree) (ref : NodeRef) :
    tree.asNodes.childNames ref = (tree.children.childrenOf ref).names.map Subtype.val := by
  rw [TreeNode.childNames, asNodes, Forest.childrenOf_mapNames, Forest.names_mapNames]

variable {tree : PathTree} {ref : NodeRef} {node : NodePath}

theorem refers_root (tree : PathTree) : tree.Refers [] [] := Forest.namesTo_root _

theorem hasNode_asNodes_iff : tree.asNodes.HasNode ref ↔ ∃ node, tree.Refers ref node := by
  rw [TreeNode.HasNode, asNodes, Forest.namesTo_mapNames, Option.isSome_map,
    Option.isSome_iff_exists]
  rfl

namespace Refers

theorem injective (h : tree.Refers ref node) {other : NodeRef} (hother : tree.Refers other node) :
    ref = other :=
  tree.distinct.namesTo_injective h hother

theorem dropLast (h : tree.Refers ref node) : tree.Refers ref.dropLast node.dropLast :=
  Forest.namesTo_dropLast h

theorem isEmpty_eq (h : tree.Refers ref node) : node.isEmpty = ref.isEmpty := by
  have hlength := Forest.length_of_namesTo h
  rw [Bool.eq_iff_iff, List.isEmpty_iff, List.isEmpty_iff, ← List.length_eq_zero_iff, hlength,
    List.length_eq_zero_iff]

theorem isSome_value? (h : tree.Refers ref node) : (tree.value? node).isSome = true := by
  rcases node with _ | ⟨name, node⟩
  · rfl
  · simpa [NamedTree.value?] using
      Forest.isSome_value?_of_namesTo tree.distinct h (List.cons_ne_nil _ _)

theorem touch_eq (h : tree.Refers ref node) : tree.touch node = tree := by
  obtain ⟨value, hvalue⟩ := Option.isSome_iff_exists.mp h.isSome_value?
  exact tree.touch_of_value? hvalue

theorem getTreeNodeFullPath_eq (h : tree.Refers ref node) :
    tree.asNodes.getTreeNodeFullPath ['/'] ref = getFullPath node := by
  rcases ref with _ | ⟨index, ref⟩
  · obtain rfl : node = [] := by simpa [Refers] using h.symm
    rfl
  · have hlength := Forest.length_of_namesTo h
    obtain ⟨name, node, rfl⟩ := List.exists_cons_of_length_eq_add_one hlength
    rw [TreeNode.getTreeNodeFullPath, asNodes, Forest.namesTo_mapNames, show _ = some _ from h]
    simp [TreeNode.isRoot, TreeNode.getParent, getFullPath]

variable {name : PathName}

/-- A child that is found by its name is the node below. -/
theorem child (h : tree.Refers ref node) {child : NodeRef}
    (hchild : tree.asNodes.getChildByName? ref name.1 = some child) :
    tree.Refers child (node ++ [name]) := by
  obtain ⟨index, rfl, hindex⟩ := TreeNode.getElem?_of_getChildByName? hchild
  rw [childNames_asNodes, List.getElem?_map] at hindex
  obtain ⟨found, hfound, hname⟩ := Option.map_eq_some_iff.mp hindex
  obtain rfl : found = name := Subtype.ext hname
  rw [Refers, Forest.namesTo_concat, show _ = some _ from h]
  simp [hfound]

/-- A child that is not found is added where the path of names continues. -/
theorem addBelow_eq (h : tree.Refers ref node)
    (hnew : tree.asNodes.getChildByName? ref name.1 = none) :
    tree.children.addBelow name default ref = (tree.touch (node ++ [name])).children := by
  have hnames : name ∉ (tree.children.childrenOf ref).names := by
    rw [TreeNode.getChildByName?_eq_none_iff, childNames_asNodes] at hnew
    exact fun hmem => hnew (List.mem_map_of_mem hmem)
  exact Forest.addBelow_eq_upsert tree.distinct h hnames

theorem asNodes_touch (h : tree.Refers ref node)
    (hnew : tree.asNodes.getChildByName? ref name.1 = none) :
    { tree.asNodes with children := tree.asNodes.children.addBelow name.1 default ref } =
      asNodes (tree.touch (node ++ [name])) := by
  ext1
  · simp [asNodes, NamedTree.touch, NamedTree.upsert]
  · exact (Forest.addBelow_mapNames Subtype.val name default tree.children ref).trans
      (congrArg (Forest.mapNames Subtype.val) (h.addBelow_eq hnew))

theorem added (h : tree.Refers ref node)
    (hnew : tree.asNodes.getChildByName? ref name.1 = none) :
    PathTree.Refers (tree.touch (node ++ [name])) (ref ++ [tree.asNodes.numChildren ref])
      (node ++ [name]) := by
  rw [TreeNode.numChildren, childNames_asNodes, List.length_map, PathTree.Refers,
    ← h.addBelow_eq hnew]
  exact Forest.namesTo_addBelow_self name default h

end Refers
end PathTree

/-! ## Lookups by nodes and by names -/

/-- A lookup among the nodes and the lookup among the names have the same outcome. -/
inductive Corresponds : Except (Abort TreePath.RetrieveError) NodeRef × TreeNode PathElement →
    Except (Abort TreeError) NodePath × PathTree → Prop
  | returned {tree : PathTree} {ref : NodeRef} {node : NodePath} (href : tree.Refers ref node) :
      Corresponds (.ok ref, tree.asNodes) (.ok node, tree)
  | thrown (error : TreeError) (tree : PathTree) :
      Corresponds (.error (.thrown (.routing error)), tree.asNodes) (.error (.thrown error), tree)

theorem Corresponds.snd {outcome : Except (Abort TreePath.RetrieveError) NodeRef ×
    TreeNode PathElement}
    {result : Except (Abort TreeError) NodePath × PathTree} (h : Corresponds outcome result) :
    outcome.2 = result.2.asNodes := by
  cases h <;> rfl

variable {tree : PathTree} {ref : NodeRef} {node : NodePath}

/-- The loop over the components, by cases on the next one as the source has them. -/
theorem corresponds_retrieveComponents (policy : RetrievePolicy) (path : Str)
    (href : tree.Refers ref node) (list : List Component) :
    Corresponds
      ((TreePath.retrieveComponents TreePath.getOrCreateFunctor policy path ref list).run
        tree.asNodes)
      ((retrieveComponents TreeProgram.getOrCreateChildByName policy path node list).run tree) := by
  induction list generalizing tree ref node with
  | nil => exact .returned href
  | cons component rest ih =>
      rw [TreePath.retrieveComponents, retrieveComponents]
      by_cases hempty : component.1 = []
      · simp only [TreePath.retrieveComponent, retrieveComponent, hempty, List.isEmpty_nil,
          ↓reduceIte, ↓reduceDIte]
        exact .thrown _ tree
      by_cases hhere : component.1 = ['.']
      · simp only [TreePath.retrieveComponent, retrieveComponent, hhere, List.isEmpty_cons,
          Bool.false_eq_true, ↓reduceIte, ↓reduceDIte, List.cons_ne_nil]
        exact ih href
      by_cases hparent : component.1 = ['.', '.']
      · simp only [TreePath.retrieveComponent, retrieveComponent, hparent, List.isEmpty_cons,
          Bool.false_eq_true, ↓reduceIte, ↓reduceDIte, List.cons.injEq, reduceCtorEq, and_false,
          TreeNode.getParent, href.isEmpty_eq]
        by_cases hpermit : policy.permitParent = true
        · simp only [hpermit, Bool.not_true, Bool.false_eq_true, ↓reduceIte]
          by_cases hroot : ref.isEmpty = true
          · simp only [hroot, ↓reduceIte]
            exact .thrown _ tree
          · simp only [hroot]
            exact ih href.dropLast
        · simp only [hpermit, Bool.not_false, ↓reduceIte]
          exact .thrown _ tree
      · let name : PathName := ⟨component.1, hempty, component.2, hhere, hparent⟩
        have hstep : (retrieveComponent TreeProgram.getOrCreateChildByName policy path node
            component).run tree = (.ok (node ++ [name]), tree.touch (node ++ [name])) := by
          simp [retrieveComponent, hempty, hhere, hparent, TreeProgram.getOrCreateChildByName,
            Program.run_bind, name]
        rw [Program.run_bind_of_ok hstep,
          TreePath.retrieveComponent_of_name _ _ _ _ hempty hhere hparent]
        rcases hchild : tree.asNodes.getChildByName? ref name.1 with _ | child
        · rw [Program.run_bind_of_ok (TreePath.run_getOrCreateFunctor_of_new hchild hempty),
            href.asNodes_touch hchild]
          exact ih (href.added hchild)
        · rw [Program.run_bind_of_ok (TreePath.run_getOrCreateFunctor_of_found hchild),
            (href.child hchild).touch_eq]
          exact ih (href.child hchild)

theorem corresponds_treePathRetrieve (href : tree.Refers ref node) (path : Str)
    (permitParent : Bool) :
    Corresponds ((TreePath.treePathRetrieve ref path permitParent).run tree.asNodes)
      ((treePathRetrieve node path permitParent).run tree) := by
  unfold TreePath.treePathRetrieve TreePath.treePathRetrieveImplementation treePathRetrieve
    treePathRetrieveImplementation
  rcases path with _ | ⟨c, rest⟩
  · exact .returned href
  · by_cases hc : c = '/'
    · by_cases hrest : rest.isEmpty = true
      · simp only [hc, hrest, Bool.not_true, Bool.false_eq_true, ↓reduceIte]
        exact .returned tree.refers_root
      · simp only [hc, hrest, Bool.not_true, Bool.false_eq_true, ↓reduceIte]
        exact corresponds_retrieveComponents _ _ tree.refers_root _
    · simp only [hc, ↓reduceIte]
      exact corresponds_retrieveComponents _ _ href _

theorem corresponds_getNodeByPath (tree : PathTree) (path : Str) :
    Corresponds ((TreePath.getNodeByPath path).run tree.asNodes)
      ((getNodeByPath path).run tree) := by
  unfold TreePath.getNodeByPath TreePath.pathParseAndRetrieve getNodeByPath
  by_cases hempty : path.isEmpty = true
  · simp only [hempty, ↓reduceIte]
    exact .thrown _ tree
  by_cases hroot : path = ['/']
  · simp only [hroot, List.isEmpty_cons, Bool.false_eq_true, ↓reduceIte]
    exact .returned tree.refers_root
  by_cases hhead : (path.head? != some '/') = true
  · simp only [hempty, hroot, hhead, ↓reduceIte]
    exact .thrown _ tree
  · simp only [hempty, hroot, hhead, Bool.false_eq_true, ↓reduceIte]
    exact corresponds_treePathRetrieve tree.refers_root path false

/-! ## Trees that lookups grow -/

/-- `getFullPath` of a node. -/
def nodeFullPath (tree : TreeNode PathElement) (ref : NodeRef) : Str :=
  tree.getTreeNodeFullPath ['/'] ref

/-- The tree after `getNodeByPath` of each path, also of those that throw. -/
def grow (paths : List Str) : TreeNode PathElement :=
  paths.foldl (fun tree path => ((TreePath.getNodeByPath path).run tree).2)
    (TreeNode.createRoot .nullElement)

theorem grow_eq_asNodes (paths : List Str) : ∃ tree : PathTree, grow paths = tree.asNodes := by
  induction paths using List.reverseRecOn with
  | nil => exact ⟨PathTree.empty, PathTree.asNodes_empty.symm⟩
  | append_singleton paths path ih =>
      obtain ⟨tree, htree⟩ := ih
      refine ⟨((getNodeByPath path).run tree).2, ?_⟩
      have hstep : grow (paths ++ [path]) =
          ((TreePath.getNodeByPath path).run (grow paths)).2 := by
        rw [grow, List.foldl_append]
        rfl
      rw [hstep, htree]
      exact (corresponds_getNodeByPath tree path).snd

/-- Where the first path names a node, the second names the same one and makes
the same tree of it, and finds it there when it comes later. -/
def GiveSameNode (tree : TreeNode PathElement) (first second : Str) : Prop :=
  ∀ ref after, (TreePath.getNodeByPath first).run tree = (.ok ref, after) →
    (TreePath.getNodeByPath second).run tree = (.ok ref, after) ∧
      (TreePath.getNodeByPath second).run after = (.ok ref, after)

/-- Paths and nodes of a tree determine each other. -/
structure PathBijection (tree : TreeNode PathElement) : Prop where
  nodup : ∀ ref, (tree.childNames ref).Nodup
  named : ∀ ref, ∀ name ∈ tree.childNames ref, name ≠ [] ∧ '/' ∉ name
  leadsBack : ∀ ref, tree.HasNode ref →
    (TreePath.getNodeByPath (nodeFullPath tree ref)).run tree = (.ok ref, tree)
  injective : ∀ first second, tree.HasNode first → tree.HasNode second →
    nodeFullPath tree first = nodeFullPath tree second → first = second
  respelled : ∀ first second, Respelled first second → GiveSameNode tree first second

/-- The outcome of a lookup that returns the node that a name path stands for. -/
theorem Corresponds.eq_of_refers
    {outcome : Except (Abort TreePath.RetrieveError) NodeRef × TreeNode PathElement}
    (h : Corresponds outcome (.ok node, tree)) (href : tree.Refers ref node) :
    outcome = (.ok ref, tree.asNodes) := by
  cases h with
  | returned hother => rw [hother.injective href]

theorem run_getNodeByPath_asNodes {path : Str} (hlocated : locateAbsolute path = ⟨node, none⟩)
    (href : tree.Refers ref node) :
    (TreePath.getNodeByPath path).run tree.asNodes = (.ok ref, tree.asNodes) := by
  have hrun : (getNodeByPath path).run tree = (.ok node, tree) := by
    rw [run_getNodeByPath, hlocated, href.touch_eq]
    rfl
  have h := corresponds_getNodeByPath tree path
  rw [hrun] at h
  exact h.eq_of_refers href

theorem giveSameNode_of_respelled (tree : PathTree) {first second : Str}
    (h : Respelled first second) : GiveSameNode tree.asNodes first second := by
  intro ref after hrun
  have hfirst := corresponds_getNodeByPath tree first
  have hsecond := corresponds_getNodeByPath tree second
  rw [hrun, run_getNodeByPath] at hfirst
  rw [run_getNodeByPath] at hsecond
  obtain ⟨hreached, hfailure⟩ := h.same
  rcases hlocated : locateAbsolute first with ⟨node, failure | error⟩
  · rw [hlocated] at hfirst hreached hfailure
    have hsame : locateAbsolute second = ⟨node, none⟩ := by
      rw [show node = (locateAbsolute second).reached from hreached, ← hfailure.mp rfl]
    rw [hsame] at hsecond
    generalize hgrown : tree.touch node = grown at hfirst hsecond
    cases hfirst with
    | returned href => exact ⟨hsecond.eq_of_refers href, run_getNodeByPath_asNodes hsame href⟩
  · rw [hlocated] at hfirst
    cases hfirst

theorem pathBijection_asNodes (tree : PathTree) : PathBijection tree.asNodes where
  nodup ref := by
    rw [PathTree.childNames_asNodes]
    exact (tree.distinct.childrenOf ref).nodup_names.map Subtype.val_injective
  named ref name hname := by
    rw [PathTree.childNames_asNodes] at hname
    obtain ⟨name, _, rfl⟩ := List.mem_map.mp hname
    exact ⟨name.2.1, name.2.2.1⟩
  leadsBack ref href := by
    obtain ⟨node, hnode⟩ := PathTree.hasNode_asNodes_iff.mp href
    rw [nodeFullPath, hnode.getTreeNodeFullPath_eq]
    exact run_getNodeByPath_asNodes (locateAbsolute_getFullPath node) hnode
  injective first second hfirst hsecond hequal := by
    obtain ⟨node, hnode⟩ := PathTree.hasNode_asNodes_iff.mp hfirst
    obtain ⟨other, hother⟩ := PathTree.hasNode_asNodes_iff.mp hsecond
    rw [nodeFullPath, nodeFullPath, hnode.getTreeNodeFullPath_eq,
      hother.getTreeNodeFullPath_eq] at hequal
    obtain rfl := getFullPath_injective hequal
    exact hnode.injective hother
  respelled _ _ := giveSameNode_of_respelled tree

/-- Whatever paths were looked up, the paths and the nodes of the tree determine
each other, up to components `.` and a trailing separator. -/
theorem pathBijection_grow (paths : List Str) : PathBijection (grow paths) := by
  obtain ⟨tree, htree⟩ := grow_eq_asNodes paths
  rw [htree]
  exact pathBijection_asNodes tree

/-- One more separator after the path of the root makes a path that throws. -/
theorem not_giveSameNode_separator :
    isPathAbsolute ['/'] = true ∧ ¬ GiveSameNode (grow []) ['/'] (['/'] ++ ['/']) := by
  refine ⟨rfl, fun h => ?_⟩
  have hroot := (h [] (grow []) rfl).1
  cases congrArg Prod.fst hroot

end OSVR.Common
