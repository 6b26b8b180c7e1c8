/-
# Path lookups on tree nodes

The templated walk of `treePathRetrieveImplementation` over nodes with any names,
with the functor that creates missing children and with the one that throws
`NoSuchChild`. Nothing is assumed about the names in the tree.
-/

import OsvrCore.Common.PathParseAndRetrieve
import OsvrCore.Util.TreeNode

set_option autoImplicit false

namespace OSVR.Common.TreePath

open Math Util

/-- The exceptions of a lookup. -/
inductive RetrieveError
  | treeNode (error : TreeNodeError)
  | routing (error : TreeError)
  deriving DecidableEq

/-- Code that reads and changes a tree of nodes. -/
abbrev NodeProgram (α β : Type) := Program (TreeNode α) RetrieveError β

variable {α : Type}

/-- `GetOrCreateFunctor`. -/
def getOrCreateFunctor [Inhabited α] (node : NodeRef) (component : Str) :
    NodeProgram α NodeRef := do
  match (← Program.get).getOrCreateChildByName node component with
  | .ok (child, tree) =>
      Program.modify fun _ => tree
      return child
  | .error error => Program.throw (.treeNode error)

/-- `GetChildFunctor`. -/
def getChildFunctor (node : NodeRef) (component : Str) : NodeProgram α NodeRef := do
  match (← Program.get).getChildByName node component with
  | .ok child => return child
  | .error error => Program.throw (.treeNode error)

/-- One pass of the loop over the components. -/
def retrieveComponent (f : NodeRef → Str → NodeProgram α NodeRef) (policy : RetrievePolicy)
    (path : Str) (ret : NodeRef) (component : Str) : NodeProgram α NodeRef :=
  if component.isEmpty then Program.throw (.routing (.emptyPathComponent path))
  else if component = ['.'] then pure ret
  else if component = ['.', '.'] then
    if !policy.permitParent then Program.throw (.routing .forbiddenParentPath)
    else
      match TreeNode.getParent ret with
      | none => Program.throw (.routing .impossibleParentPath)
      | some parent => pure parent
  else f ret component

def retrieveComponents (f : NodeRef → Str → NodeProgram α NodeRef) (policy : RetrievePolicy)
    (path : Str) : NodeRef → List Component → NodeProgram α NodeRef
  | ret, [] => pure ret
  | ret, component :: rest => do
      let next ← retrieveComponent f policy path ret component.1
      retrieveComponents f policy path next rest

/-- `treePathRetrieveImplementation`. -/
def treePathRetrieveImplementation (f : NodeRef → Str → NodeProgram α NodeRef)
    (policy : RetrievePolicy) (node : NodeRef) (path : Str) : NodeProgram α NodeRef :=
  match path with
  | [] => pure node
  | c :: rest =>
      if c = '/' then
        if !policy.permitAbsolute then Program.throw (.routing .forbiddenAbsolutePath)
        else if rest.isEmpty then pure []
        else
          let trimmed := trimTrailing rest
          retrieveComponents f policy trimmed [] (components trimmed)
      else
        let trimmed := trimTrailing (c :: rest)
        retrieveComponents f policy trimmed node (components trimmed)

/-- `treePathRetrieve` of a tree that may change. -/
def treePathRetrieve [Inhabited α] (node : NodeRef) (path : Str) (permitParent : Bool) :
    NodeProgram α NodeRef :=
  treePathRetrieveImplementation getOrCreateFunctor ⟨permitParent, true⟩ node path

/-- `treePathRetrieve` of a const tree. -/
def treePathRetrieveConst (node : NodeRef) (path : Str) (permitParent : Bool) :
    NodeProgram α NodeRef :=
  treePathRetrieveImplementation getChildFunctor ⟨permitParent, true⟩ node path

/-- `pathParseAndRetrieve`, with the lookup of either overload. -/
def pathParseAndRetrieve (retrieve : NodeRef → Str → Bool → NodeProgram α NodeRef) (path : Str) :
    NodeProgram α NodeRef :=
  if path.isEmpty then Program.throw (.routing .emptyPath)
  else if path = ['/'] then pure []
  else if path.head? != some '/' then Program.throw (.routing (.pathNotAbsolute path))
  else retrieve [] path false

/-- `PathTree::getNodeByPath`. -/
def getNodeByPath [Inhabited α] (path : Str) : NodeProgram α NodeRef :=
  pathParseAndRetrieve treePathRetrieve path

/-- A component that is not special is looked up. -/
theorem retrieveComponent_of_name (f : NodeRef → Str → NodeProgram α NodeRef)
    (policy : RetrievePolicy) (path : Str) (ret : NodeRef) {component : Str}
    (hempty : component ≠ []) (hhere : component ≠ ['.']) (hparent : component ≠ ['.', '.']) :
    retrieveComponent f policy path ret component = f ret component := by
  simp [retrieveComponent, hempty, hhere, hparent]

/-! ## The functors -/

section Functors

variable {tree : TreeNode α} {node child : NodeRef} {component : Str}

theorem run_getChildFunctor_of_found (h : tree.getChildByName? node component = some child) :
    (getChildFunctor node component).run tree = (.ok child, tree) := by
  simp [getChildFunctor, Program.run_bind, TreeNode.getChildByName, h]

theorem run_getChildFunctor_of_new (h : tree.getChildByName? node component = none) :
    (getChildFunctor node component).run tree =
      (.error (.thrown (.treeNode (.noSuchChild component))), tree) := by
  simp [getChildFunctor, Program.run_bind, TreeNode.getChildByName, h]

variable [Inhabited α]

theorem run_getOrCreateFunctor_of_found (h : tree.getChildByName? node component = some child) :
    (getOrCreateFunctor node component).run tree = (.ok child, tree) := by
  simp [getOrCreateFunctor, Program.run_bind, TreeNode.getOrCreateChildByName_of_found h]

theorem run_getOrCreateFunctor_of_new (h : tree.getChildByName? node component = none)
    (hname : component ≠ []) :
    (getOrCreateFunctor node component).run tree =
      (.ok (node ++ [tree.numChildren node]),
        { tree with children := tree.children.addBelow component default node }) := by
  simp [getOrCreateFunctor, Program.run_bind, TreeNode.getOrCreateChildByName_of_new h hname]

end Functors

/-! ## The const and the creating lookup -/

section Agreement

/-- How the const and the creating lookup can end on one tree. -/
inductive Agree (tree : TreeNode α) :
    Except (Abort RetrieveError) NodeRef → Except (Abort RetrieveError) NodeRef × TreeNode α → Prop
  /-- Both return a node, and nothing is created. -/
  | found {node : NodeRef} (hnode : tree.HasNode node) : Agree tree (.ok node) (.ok node, tree)
  /-- Both throw at the same component, and nothing is created before it. -/
  | rejected (error : TreeError) :
      Agree tree (.error (.thrown (.routing error))) (.error (.thrown (.routing error)), tree)
  /-- The const lookup stops where the creating one adds its first node. -/
  | missing (name : Str) {created : Except (Abort RetrieveError) NodeRef × TreeNode α}
      (hmore : tree.numNodes < created.2.numNodes) :
      Agree tree (.error (.thrown (.treeNode (.noSuchChild name)))) created

variable [Inhabited α] (policy : RetrievePolicy) (path : Str)

/-- The creating lookup loses no node. -/
theorem numNodes_le_retrieveComponent {tree : TreeNode α} {ret : NodeRef} (hret : tree.HasNode ret)
    (component : Str) {result : Except (Abort RetrieveError) NodeRef} {after : TreeNode α}
    (hrun : (retrieveComponent getOrCreateFunctor policy path ret component).run tree =
      (result, after)) :
    tree.numNodes ≤ after.numNodes ∧ ∀ next, result = .ok next → after.HasNode next := by
  unfold retrieveComponent at hrun
  split at hrun
  · cases hrun
    exact ⟨le_rfl, nofun⟩
  split at hrun
  · cases hrun
    exact ⟨le_rfl, fun next hnext => Except.ok.inj hnext ▸ hret⟩
  split at hrun
  · split at hrun
    · cases hrun
      exact ⟨le_rfl, nofun⟩
    · split at hrun
      · cases hrun
        exact ⟨le_rfl, nofun⟩
      next parent hparent =>
        cases hrun
        refine ⟨le_rfl, fun next hnext => ?_⟩
        obtain ⟨_, rfl⟩ : ret ≠ [] ∧ ret.dropLast = parent := by
          simpa [TreeNode.getParent] using hparent
        exact Except.ok.inj hnext ▸ hret.dropLast
  next hempty _ _ =>
    rcases hchild : tree.getChildByName? ret component with _ | child
    · rw [run_getOrCreateFunctor_of_new hchild (by simpa using hempty)] at hrun
      cases hrun
      rw [TreeNode.numNodes_addBelow hret component]
      exact ⟨Nat.le_succ _, fun next hnext =>
        Except.ok.inj hnext ▸ TreeNode.hasNode_addBelow hret component⟩
    · rw [run_getOrCreateFunctor_of_found hchild] at hrun
      cases hrun
      exact ⟨le_rfl, fun next hnext => Except.ok.inj hnext ▸ hret.child hchild⟩

theorem numNodes_le_retrieveComponents {tree : TreeNode α} {ret : NodeRef} (hret : tree.HasNode ret)
    (list : List Component) :
    tree.numNodes ≤
      ((retrieveComponents getOrCreateFunctor policy path ret list).run tree).2.numNodes := by
  induction list generalizing tree ret with
  | nil => exact le_rfl
  | cons component rest ih =>
      rw [retrieveComponents]
      rcases hrun : (retrieveComponent getOrCreateFunctor policy path ret component.1).run tree
        with ⟨reason | next, after⟩
      · rw [Program.run_bind_of_error hrun]
        exact (numNodes_le_retrieveComponent policy path hret component.1 hrun).1
      · obtain ⟨hle, hnext⟩ := numNodes_le_retrieveComponent policy path hret component.1 hrun
        rw [Program.run_bind_of_ok hrun]
        exact hle.trans (ih (hnext next rfl))

/-- The first component decides, or both lookups go on from the same node. -/
theorem agree_retrieveComponents {tree : TreeNode α} {ret : NodeRef} (hret : tree.HasNode ret)
    (list : List Component) :
    Agree tree ((retrieveComponents getChildFunctor policy path ret list).run tree).1
      ((retrieveComponents getOrCreateFunctor policy path ret list).run tree) := by
  induction list generalizing ret with
  | nil => exact .found hret
  | cons component rest ih =>
      rw [retrieveComponents, retrieveComponents]
      by_cases hempty : component.1.isEmpty = true
      · simp only [retrieveComponent, hempty, ↓reduceIte]
        exact .rejected _
      by_cases hhere : component.1 = ['.']
      · simp only [retrieveComponent, hhere, List.isEmpty_cons, Bool.false_eq_true, ↓reduceIte]
        exact ih hret
      by_cases hparent : component.1 = ['.', '.']
      · simp only [retrieveComponent, hparent, List.isEmpty_cons, Bool.false_eq_true, ↓reduceIte,
          List.cons.injEq, reduceCtorEq, and_false]
        by_cases hpermit : policy.permitParent = true
        · rcases hup : TreeNode.getParent ret with _ | parent
          · simp only [hpermit, Bool.not_true, Bool.false_eq_true, ↓reduceIte]
            exact .rejected _
          · obtain ⟨_, rfl⟩ : ret ≠ [] ∧ ret.dropLast = parent := by
              simpa [TreeNode.getParent] using hup
            simp only [hpermit, Bool.not_true, Bool.false_eq_true, ↓reduceIte]
            exact ih hret.dropLast
        · simp only [hpermit, Bool.not_false, ↓reduceIte]
          exact .rejected _
      · have hname : component.1 ≠ [] := by simpa using hempty
        rw [retrieveComponent_of_name _ _ _ _ hname hhere hparent]
        rw [retrieveComponent_of_name _ _ _ _ hname hhere hparent]
        rcases hchild : tree.getChildByName? ret component.1 with _ | child
        · have hmore := TreeNode.numNodes_addBelow hret component.1
          have hlater := numNodes_le_retrieveComponents policy path
            (TreeNode.hasNode_addBelow hret component.1) rest
          rw [Program.run_bind_of_error (run_getChildFunctor_of_new hchild)]
          rw [Program.run_bind_of_ok (run_getOrCreateFunctor_of_new hchild hname)]
          exact .missing _ (by omega)
        · rw [Program.run_bind_of_ok (run_getChildFunctor_of_found hchild)]
          rw [Program.run_bind_of_ok (run_getOrCreateFunctor_of_found hchild)]
          exact ih (hret.child hchild)

theorem agree_treePathRetrieve {tree : TreeNode α} {start : NodeRef} (hstart : tree.HasNode start)
    (path : Str) (permitParent : Bool) :
    Agree tree ((treePathRetrieveConst start path permitParent).run tree).1
      ((treePathRetrieve start path permitParent).run tree) := by
  unfold treePathRetrieveConst treePathRetrieve treePathRetrieveImplementation
  rcases path with _ | ⟨c, rest⟩
  · exact .found hstart
  · by_cases hc : c = '/'
    · by_cases hrest : rest.isEmpty = true
      · simp only [hc, hrest, Bool.not_true, Bool.false_eq_true, ↓reduceIte]
        exact .found tree.hasNode_root
      · simp only [hc, hrest, Bool.not_true, Bool.false_eq_true, ↓reduceIte]
        exact agree_retrieveComponents _ _ tree.hasNode_root _
    · simp only [hc, ↓reduceIte]
      exact agree_retrieveComponents _ _ hstart _

/-- From every node of every tree and along every path, the const lookup returns
a node exactly when the creating one returns it and creates nothing, and throws
`NoSuchChild` exactly when the creating one adds a node. It returns nothing on a
path that the creating one rejects. -/
theorem const_retrieve_iff (tree : TreeNode α) (start : NodeRef) (hstart : tree.HasNode start)
    (path : Str) (permitParent : Bool) :
    (∀ node, ((treePathRetrieveConst start path permitParent).run tree).1 = .ok node ↔
      (treePathRetrieve start path permitParent).run tree = (.ok node, tree)) ∧
    ((∃ name, ((treePathRetrieveConst start path permitParent).run tree).1 =
        .error (.thrown (.treeNode (.noSuchChild name)))) ↔
      tree.numNodes < ((treePathRetrieve start path permitParent).run tree).2.numNodes) ∧
    ∀ error, ((treePathRetrieve start path permitParent).run tree).1 = .error error →
      ∀ node, ((treePathRetrieveConst start path permitParent).run tree).1 ≠ .ok node := by
  have hagree := agree_treePathRetrieve hstart path permitParent
  revert hagree
  generalize ((treePathRetrieveConst start path permitParent).run tree).1 = found
  generalize (treePathRetrieve start path permitParent).run tree = created
  intro hagree
  cases hagree with
  | found hnode => simp
  | rejected error => simp
  | missing name hmore =>
      have hchanged (node : NodeRef) : created ≠ (.ok node, tree) := by
        rintro rfl
        exact lt_irrefl _ hmore
      simp [hmore, hchanged]

/-- Up from a child of the root and down to a name that the root does not have. -/
theorem const_retrieve_iff_sibling :
    let tree : TreeNode PathElement := ⟨.nullElement, .cons ['a'] .sensorElement .nil .nil⟩
    tree.numNodes < ((treePathRetrieve [0] "../b".toList true).run tree).2.numNodes :=
  (const_retrieve_iff ⟨.nullElement, .cons ['a'] .sensorElement .nil .nil⟩ [0] rfl
    "../b".toList true).2.1.mp ⟨['b'], rfl⟩

end Agreement
end OSVR.Common.TreePath
