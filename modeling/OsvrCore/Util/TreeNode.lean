/-
# Tree nodes

`TreeNode` by itself: names are any strings, and what a name may be is up to the
checks of `create`. A node is referred to by its position, as a pointer does.
-/

import OsvrCore.Common.JsonValue
import OsvrCore.Math.ForestPosition

set_option autoImplicit false

namespace OSVR.Util

open Common Math

/-- The nodes that a root owns. -/
@[ext]
structure TreeNode (α : Type) where
  value : α
  children : Forest Str α

/-- A pointer to a node of a tree. -/
abbrev NodeRef := List ℕ

/-- `std::logic_error` and `NoSuchChild`. -/
inductive TreeNodeError
  | logicError (what : Str)
  | noSuchChild (name : Str)
  deriving DecidableEq

namespace TreeNode

variable {α : Type}

/-- `createRoot`. -/
def createRoot (value : α) : TreeNode α := ⟨value, .nil⟩

/-- `getParent`. -/
def getParent (node : NodeRef) : Option NodeRef :=
  if node.isEmpty then none else some node.dropLast

/-- `isRoot`. -/
def isRoot (node : NodeRef) : Bool := (getParent node).isNone

variable (tree : TreeNode α)

/-- There is such a node. -/
def HasNode (node : NodeRef) : Prop := (tree.children.namesTo node).isSome = true

/-- The names of the children of a node, in order. -/
def childNames (node : NodeRef) : List Str := (tree.children.childrenOf node).names

/-- `numChildren`. -/
def numChildren (node : NodeRef) : ℕ := (tree.childNames node).length

/-- How many nodes there are, with the root. -/
def numNodes : ℕ := tree.children.numNodes + 1

/-- `m_getChildByName`: the first child with the name. -/
def getChildByName? (node : NodeRef) (name : Str) : Option NodeRef :=
  ((tree.childNames node).findIdx? (· == name)).map fun index => node ++ [index]

/-- `create`, with the value of a node that is only created. -/
def create [Inhabited α] (parent : NodeRef) (name : Str) :
    Except TreeNodeError (NodeRef × TreeNode α) :=
  if (tree.getChildByName? parent name).isSome then
    .error (.logicError "Can't create a child with the same name as an existing child!".toList)
  else if name.isEmpty then
    .error (.logicError "Can't create a named tree node with an empty name!".toList)
  else
    .ok (parent ++ [tree.numChildren parent],
      { tree with children := tree.children.addBelow name default parent })

/-- `getOrCreateChildByName`. -/
def getOrCreateChildByName [Inhabited α] (node : NodeRef) (name : Str) :
    Except TreeNodeError (NodeRef × TreeNode α) :=
  match tree.getChildByName? node name with
  | some child => .ok (child, tree)
  | none => tree.create node name

/-- `getChildByName`. -/
def getChildByName (node : NodeRef) (name : Str) : Except TreeNodeError NodeRef :=
  match tree.getChildByName? node name with
  | some child => .ok child
  | none => .error (.noSuchChild name)

/-- `getTreeNodeFullPath`: each name after a separator, but the root is the separator. -/
def getTreeNodeFullPath (pathSeparator : Str) (node : NodeRef) : Str :=
  if isRoot node then pathSeparator
  else ((tree.children.namesTo node).getD []).flatMap fun name => pathSeparator ++ name

/-! ## Children -/

@[simp] theorem hasNode_root : tree.HasNode [] := by simp [HasNode]

@[simp] theorem isRoot_iff {node : NodeRef} : isRoot node = true ↔ node = [] := by
  cases node <;> simp [isRoot, getParent]

variable {tree} {node : NodeRef} {name : Str}

theorem HasNode.dropLast (h : tree.HasNode node) : tree.HasNode node.dropLast := by
  obtain ⟨names, hnames⟩ := Option.isSome_iff_exists.mp h
  simp [HasNode, Forest.namesTo_dropLast hnames]

/-- A child that is found has the name. -/
theorem getElem?_of_getChildByName? {child : NodeRef}
    (h : tree.getChildByName? node name = some child) :
    ∃ index, child = node ++ [index] ∧ (tree.childNames node)[index]? = some name := by
  obtain ⟨index, hindex, rfl⟩ := Option.map_eq_some_iff.mp h
  obtain ⟨hlt, hname, _⟩ := List.findIdx?_eq_some_iff_getElem.mp hindex
  refine ⟨index, rfl, ?_⟩
  rw [List.getElem?_eq_getElem hlt]
  simpa using hname

theorem HasNode.child (h : tree.HasNode node) {child : NodeRef}
    (hchild : tree.getChildByName? node name = some child) : tree.HasNode child := by
  obtain ⟨names, hnames⟩ := Option.isSome_iff_exists.mp h
  obtain ⟨index, rfl, hindex⟩ := getElem?_of_getChildByName? hchild
  rw [childNames] at hindex
  simp [HasNode, Forest.namesTo_concat, hnames, hindex]

theorem getChildByName?_eq_none_iff :
    tree.getChildByName? node name = none ↔ name ∉ tree.childNames node := by
  rw [getChildByName?, Option.map_eq_none_iff, List.findIdx?_eq_none_iff]
  simp only [beq_eq_false_iff_ne, ne_eq]
  exact ⟨fun h hmem => h name hmem rfl, fun h other hmem heq => h (heq ▸ hmem)⟩

variable [Inhabited α]

/-- A name that is not empty is found or added. -/
theorem getOrCreateChildByName_of_found {child : NodeRef}
    (h : tree.getChildByName? node name = some child) :
    tree.getOrCreateChildByName node name = .ok (child, tree) := by
  rw [getOrCreateChildByName, h]

theorem getOrCreateChildByName_of_new (h : tree.getChildByName? node name = none)
    (hname : name ≠ []) :
    tree.getOrCreateChildByName node name =
      .ok (node ++ [tree.numChildren node],
        { tree with children := tree.children.addBelow name default node }) := by
  rw [getOrCreateChildByName, h]
  simp [create, h, hname]

theorem numNodes_addBelow (h : tree.HasNode node) (name : Str) :
    numNodes { tree with children := tree.children.addBelow name default node } =
      tree.numNodes + 1 := by
  rw [numNodes, numNodes, Forest.numNodes_addBelow name default h]

theorem hasNode_addBelow (h : tree.HasNode node) (name : Str) :
    HasNode { tree with children := tree.children.addBelow name default node }
      (node ++ [tree.numChildren node]) := by
  obtain ⟨names, hnames⟩ := Option.isSome_iff_exists.mp h
  have hnew := Forest.namesTo_addBelow_self name (default : α) hnames
  rw [HasNode, numChildren, childNames, hnew]
  rfl

end TreeNode
end OSVR.Util
