/-
# Paths and the nodes they name

A path string is split at the separator and followed from a node, creating the
nodes that do not exist. A node is identified by the names that lead to it from
the root. Names that come from a path are never empty, contain no separator and
are neither of the two special components; the type of names says so.
-/

import OsvrCore.Math.NamedForest
import OsvrCore.Math.Program
import OsvrCore.Common.PathElementTypes

set_option autoImplicit false

namespace OSVR.Common

open Math

/-- What can be the name of a node. -/
def IsName (name : Str) : Prop :=
  name ≠ [] ∧ '/' ∉ name ∧ name ≠ ['.'] ∧ name ≠ ['.', '.']

instance : DecidablePred IsName := fun name =>
  inferInstanceAs (Decidable (name ≠ [] ∧ '/' ∉ name ∧ name ≠ ['.'] ∧ name ≠ ['.', '.']))

/-- The name of a node other than the root. -/
abbrev PathName : Type := { name : Str // IsName name }

/-- A node, as the names on the way from the root. -/
abbrev NodePath := List PathName

/-- `PathTree`, with a `PathElement` in each node. -/
abbrev PathTree := NamedTree PathName PathElement

namespace PathTree

/-- The tree of the constructor: a root with a null element. -/
def empty : PathTree := .leaf default

end PathTree

/-- The exceptions of the path tree and its helpers. -/
inductive TreeError
  | json (error : JsonError)
  | missingMember (name : Str)
  | emptyPath
  | pathNotAbsolute (path : Str)
  | emptyPathComponent (path : Str)
  | impossibleParentPath
  | forbiddenAbsolutePath
  | forbiddenParentPath
  | outOfRange
  | unrecognizedElement
  | sensorMissingParent (path : Str)
  | sensorMissingInterfaceParent (path : Str)
  | interfaceMissingParent (path : Str)
  deriving DecidableEq

/-- Code that reads and changes a path tree. -/
abbrev TreeProgram (α : Type) := Program PathTree TreeError α

namespace TreeProgram

/-- Code that only handles JSON, inside a tree program. -/
def ofJson {α : Type} (result : Except JsonError α) : TreeProgram α :=
  Program.ofExcept (result.mapError .json)

@[simp] theorem run_ofJson_ok {α : Type} (tree : PathTree) (value : α) :
    (ofJson (.ok value)).run tree = (.ok value, tree) := rfl

@[simp] theorem run_ofJson_error {α : Type} (tree : PathTree) (error : JsonError) :
    (ofJson (.error error) : TreeProgram α).run tree = (.error (.thrown (.json error)), tree) := rfl

/-- The value of a node that exists. -/
def valueAt (node : NodePath) : TreeProgram PathElement := do
  return ((← Program.get).value? node).getD default

def setValue (node : NodePath) (value : PathElement) : TreeProgram Unit :=
  Program.modify fun tree => tree.set node value

/-- `getOrCreateChildByName`. -/
def getOrCreateChildByName (node : NodePath) (name : PathName) : TreeProgram NodePath := do
  Program.modify fun tree => tree.touch (node ++ [name])
  return node ++ [name]

end TreeProgram

/-! ## Path strings -/

/-- A part of a path between two separators. -/
abbrev Component := { component : Str // '/' ∉ component }

/-- The components of a path; an empty path has one, which is empty. -/
def components : Str → List Component
  | [] => [⟨[], by simp⟩]
  | c :: path =>
      if h : c = '/' then ⟨[], by simp⟩ :: components path
      else
        match components path with
        | [] => [⟨[c], by simpa using Ne.symm h⟩]
        | first :: rest => ⟨c :: first.1, by simpa [Ne.symm h] using first.2⟩ :: rest

/-- `getFullPath`. -/
def getFullPath : NodePath → Str
  | [] => ['/']
  | name :: rest => (name :: rest).flatMap fun name => '/' :: name.1

/-- `isPathAbsolute`. -/
def isPathAbsolute (path : Str) : Bool := path.head? == some '/'

/-- Which components of a path are allowed. -/
structure RetrievePolicy where
  permitParent : Bool
  permitAbsolute : Bool

/-- One pass of the loop over the components. -/
def retrieveComponent (f : NodePath → PathName → TreeProgram NodePath) (policy : RetrievePolicy)
    (path : Str) (node : NodePath) (component : Component) : TreeProgram NodePath :=
  if hempty : component.1 = [] then Program.throw (.emptyPathComponent path)
  else if hhere : component.1 = ['.'] then pure node
  else if hparent : component.1 = ['.', '.'] then
    if !policy.permitParent then Program.throw .forbiddenParentPath
    else if node.isEmpty then Program.throw .impossibleParentPath
    else pure node.dropLast
  else f node ⟨component.1, hempty, component.2, hhere, hparent⟩

def retrieveComponents (f : NodePath → PathName → TreeProgram NodePath) (policy : RetrievePolicy)
    (path : Str) : NodePath → List Component → TreeProgram NodePath
  | node, [] => pure node
  | node, component :: rest => do
      let next ← retrieveComponent f policy path node component
      retrieveComponents f policy path next rest

/-- Drop one trailing separator. -/
def trimTrailing (path : Str) : Str :=
  if path.getLast? == some '/' then path.dropLast else path

/-- `treePathRetrieveImplementation`. -/
def treePathRetrieveImplementation (f : NodePath → PathName → TreeProgram NodePath)
    (policy : RetrievePolicy) (node : NodePath) (path : Str) : TreeProgram NodePath :=
  match path with
  | [] => pure node
  | c :: rest =>
      if c = '/' then
        if !policy.permitAbsolute then Program.throw .forbiddenAbsolutePath
        else if rest.isEmpty then pure []
        else
          let trimmed := trimTrailing rest
          retrieveComponents f policy trimmed [] (components trimmed)
      else
        let trimmed := trimTrailing (c :: rest)
        retrieveComponents f policy trimmed node (components trimmed)

/-- `treePathRetrieve` with the default policy, creating the nodes. -/
def treePathRetrieve (node : NodePath) (path : Str) (permitParent : Bool) : TreeProgram NodePath :=
  treePathRetrieveImplementation TreeProgram.getOrCreateChildByName ⟨permitParent, true⟩ node path

/-- `pathParseAndRetrieve`, and `PathTree::getNodeByPath`. -/
def getNodeByPath (path : Str) : TreeProgram NodePath :=
  if path.isEmpty then Program.throw .emptyPath
  else if path = ['/'] then pure []
  else if path.head? != some '/' then Program.throw (.pathNotAbsolute path)
  else treePathRetrieve [] path false

/-- A lookup does nothing but create nodes. -/
theorem relates_treePathRetrieve {rel : PathTree → PathTree → Prop} (hrefl : ∀ tree, rel tree tree)
    (htrans : ∀ ⦃first second third⦄, rel first second → rel second third → rel first third)
    (htouch : ∀ (tree : PathTree) path, rel tree (tree.touch path)) (node : NodePath) (path : Str)
    (permitParent : Bool) : Program.Relates rel (treePathRetrieve node path permitParent) := by
  have hcomponent (policy : RetrievePolicy) (text : Str) (from_ : NodePath)
      (component : Component) :
      Program.Relates rel (retrieveComponent TreeProgram.getOrCreateChildByName policy text from_
        component) := by
    unfold retrieveComponent
    split
    · exact hrefl
    · split
      · exact hrefl
      · split
        · split
          · exact hrefl
          · split <;> exact hrefl
        · exact fun tree => htouch tree _
  have hcomponents (policy : RetrievePolicy) (text : Str) (list : List Component)
      (from_ : NodePath) : Program.Relates rel (retrieveComponents
        TreeProgram.getOrCreateChildByName policy text from_ list) := by
    induction list generalizing from_ with
    | nil => exact hrefl
    | cons component rest ih =>
        exact Program.Relates.bind htrans (hcomponent policy text from_ component) ih
  unfold treePathRetrieve treePathRetrieveImplementation
  split
  · exact hrefl
  · split
    · split
      · exact hrefl
      · split
        · exact hrefl
        · exact hcomponents _ _ _ _
    · exact hcomponents _ _ _ _

/-! ## Where a path leads -/

/-- The last node a lookup reaches, and the exception it ends with there. -/
structure Located where
  reached : NodePath
  failure : Option TreeError

namespace Located

def result (located : Located) : Except (Abort TreeError) NodePath :=
  match located.failure with
  | none => .ok located.reached
  | some error => .error (.thrown error)

/-- Go down by one name first. -/
def below (name : PathName) (located : Located) : Located :=
  { located with reached := name :: located.reached }

/-- Start at a node. -/
def from_ (node : NodePath) (located : Located) : Located :=
  { located with reached := node ++ located.reached }

end Located

/-- Where the components lead from a node, without creating anything. -/
def follow (path : Str) : List Component → Located
  | [] => ⟨[], none⟩
  | component :: rest =>
      if hempty : component.1 = [] then ⟨[], some (.emptyPathComponent path)⟩
      else if hhere : component.1 = ['.'] then follow path rest
      else if hparent : component.1 = ['.', '.'] then ⟨[], some .forbiddenParentPath⟩
      else (follow path rest).below ⟨component.1, hempty, component.2, hhere, hparent⟩

/-- Where a path leads from a node when parents are not permitted. -/
def locate (node : NodePath) (path : Str) : Located :=
  match path with
  | [] => ⟨node, none⟩
  | c :: rest =>
      if c = '/' then
        if rest.isEmpty then ⟨[], none⟩
        else follow (trimTrailing rest) (components (trimTrailing rest))
      else
        (follow (trimTrailing (c :: rest)) (components (trimTrailing (c :: rest)))).from_ node

/-- The creating lookup goes where the components lead and creates exactly the
nodes on the way, also when it throws. -/
theorem run_retrieveComponents (path : Str) (permitAbsolute : Bool) (tree : PathTree)
    (node : NodePath) (hnode : (tree.value? node).isSome = true) (list : List Component) :
    (retrieveComponents TreeProgram.getOrCreateChildByName ⟨false, permitAbsolute⟩ path node
        list).run tree =
      (((follow path list).from_ node).result,
        tree.touch (node ++ (follow path list).reached)) := by
  obtain ⟨value, hvalue⟩ := Option.isSome_iff_exists.mp hnode
  induction list generalizing tree node value with
  | nil => simp [retrieveComponents, follow, Located.from_, Located.result,
      tree.touch_of_value? hvalue]
  | cons component rest ih =>
      have hstay : tree.touch node = tree := tree.touch_of_value? hvalue
      by_cases hempty : component.1 = []
      · simp [retrieveComponents, Program.run_bind, retrieveComponent, follow, hempty,
          Located.from_, Located.result, hstay]
      by_cases hhere : component.1 = ['.']
      · simpa [retrieveComponents, Program.run_bind, retrieveComponent, follow, hempty, hhere]
          using ih tree node hnode value hvalue
      by_cases hparent : component.1 = ['.', '.']
      · simp [retrieveComponents, Program.run_bind, retrieveComponent, follow, hparent,
          Located.from_, Located.result, hstay]
      · let name : PathName := ⟨component.1, hempty, component.2, hhere, hparent⟩
        have hchild : (tree.touch (node ++ [name])).value? (node ++ [name]) =
            some ((tree.value? (node ++ [name])).getD default) := by
          simp [NamedTree.value?_touch]
        have hrest :=
          ih (tree.touch (node ++ [name])) (node ++ [name]) (by rw [hchild]; rfl) _ hchild
        have hfollow : follow path (component :: rest) = (follow path rest).below name := by
          simp [follow, hempty, hhere, hparent, name]
        have hstep : (retrieveComponent TreeProgram.getOrCreateChildByName ⟨false, permitAbsolute⟩
            path node component).run tree = (.ok (node ++ [name]),
              tree.touch (node ++ [name])) := by
          simp [retrieveComponent, hempty, hhere, hparent, TreeProgram.getOrCreateChildByName,
            Program.run_bind, name]
        rw [retrieveComponents, Program.run_bind_of_ok hstep, hrest, hfollow]
        simp only [Located.from_, Located.below, Located.result, List.append_assoc,
          List.singleton_append]
        rw [tree.touch_touch ⟨(follow path rest).reached, by simp⟩]

theorem run_treePathRetrieve (tree : PathTree) (node : NodePath)
    (hnode : (tree.value? node).isSome = true) (path : Str) :
    (treePathRetrieve node path false).run tree =
      ((locate node path).result, tree.touch (locate node path).reached) := by
  unfold treePathRetrieve treePathRetrieveImplementation locate
  obtain ⟨value, hvalue⟩ := Option.isSome_iff_exists.mp hnode
  rcases path with _ | ⟨c, rest⟩
  · simp [Located.result, tree.touch_of_value? hvalue]
  · by_cases hc : c = '/'
    · by_cases hrest : rest.isEmpty = true
      · simp [hc, hrest, Located.result]
      · simp only [hc, hrest, Bool.not_true, Bool.false_eq_true, ↓reduceIte]
        exact run_retrieveComponents _ _ tree [] rfl _
    · simp only [hc, ↓reduceIte]
      exact run_retrieveComponents _ _ tree node hnode _

/-- Where `getNodeByPath` leads. -/
def locateAbsolute (path : Str) : Located :=
  if path.isEmpty then ⟨[], some .emptyPath⟩
  else if path.head? != some '/' then ⟨[], some (.pathNotAbsolute path)⟩
  else locate [] path

theorem run_getNodeByPath (tree : PathTree) (path : Str) :
    (getNodeByPath path).run tree =
      ((locateAbsolute path).result, tree.touch (locateAbsolute path).reached) := by
  unfold getNodeByPath locateAbsolute
  split
  · simp [Located.result]
  · split
    next hroot => simp [hroot, locate, Located.result]
    next =>
      split
      · simp [Located.result]
      · exact run_treePathRetrieve tree [] rfl path

/-! ## The full path of a node leads to the node -/

theorem components_of_not_mem {text : Str} (h : '/' ∉ text) : components text = [⟨text, h⟩] := by
  induction text with
  | nil => rfl
  | cons c text ih =>
      simp only [List.mem_cons, not_or] at h
      rw [components, dif_neg (Ne.symm h.1), ih h.2]

theorem components_append {text : Str} (h : '/' ∉ text) (path : Str) :
    components (text ++ '/' :: path) = ⟨text, h⟩ :: components path := by
  induction text with
  | nil => simp [components]
  | cons c text ih =>
      simp only [List.mem_cons, not_or] at h
      rw [List.cons_append, components, dif_neg (Ne.symm h.1), ih h.2]

/-- A name as a component. -/
def PathName.component (name : PathName) : Component := ⟨name.1, name.2.2.1⟩

/-- The full path of a node below the root, without its first separator. -/
def joined (name : PathName) (rest : NodePath) : Str :=
  name.1 ++ rest.flatMap fun name => '/' :: name.1

theorem getFullPath_cons (name : PathName) (rest : NodePath) :
    getFullPath (name :: rest) = '/' :: joined name rest := by
  simp [getFullPath, joined]

theorem joined_cons (name next : PathName) (rest : NodePath) :
    joined name (next :: rest) = name.1 ++ '/' :: joined next rest := by
  simp [joined]

theorem joined_ne_nil (name : PathName) (rest : NodePath) : joined name rest ≠ [] := by
  simp [joined, name.2.1]

theorem components_joined (name : PathName) (rest : NodePath) :
    components (joined name rest) = (name :: rest).map PathName.component := by
  induction rest generalizing name with
  | nil => simp [joined, components_of_not_mem name.2.2.1, PathName.component]
  | cons next rest ih =>
      rw [joined_cons, components_append name.2.2.1, ih]
      rfl

/-- No full path ends with a separator, except that of the root. -/
theorem trimTrailing_joined (name : PathName) (rest : NodePath) :
    trimTrailing (joined name rest) = joined name rest := by
  have hlast (text : Str) (hnot : '/' ∉ text) : text.getLast? ≠ some '/' :=
    fun h => hnot (List.mem_of_getLast? h)
  have hjoined : (joined name rest).getLast? ≠ some '/' := by
    induction rest generalizing name with
    | nil => simpa [joined] using hlast name.1 name.2.2.1
    | cons next rest ih =>
        rw [joined_cons, List.getLast?_append_cons, List.getLast?_cons]
        rw [ne_eq, Option.some.injEq]
        intro hequal
        have := ih next
        rw [List.getLast?_eq_getLast_of_ne_nil (joined_ne_nil next rest)] at this hequal
        exact this (by simpa using hequal)
  simp [trimTrailing, hjoined]

theorem follow_names (path : Str) (names : NodePath) :
    follow path (names.map PathName.component) = ⟨names, none⟩ := by
  induction names with
  | nil => rfl
  | cons name names ih =>
      obtain ⟨hempty, hsep, hhere, hparent⟩ := name.2
      rw [List.map_cons, follow]
      simp only [PathName.component, hempty, hhere, hparent, ↓reduceDIte]
      rw [ih]
      rfl

/-- The full path of a node leads to that node, from everywhere. -/
theorem locate_getFullPath (from_ node : NodePath) :
    locate from_ (getFullPath node) = ⟨node, none⟩ := by
  rcases node with _ | ⟨name, rest⟩
  · rfl
  · rw [getFullPath_cons]
    simp [locate, joined_ne_nil, trimTrailing_joined, components_joined]
    simpa using follow_names (joined name rest) (name :: rest)

theorem getFullPath_append {stem : NodePath} (hstem : stem ≠ []) (rest : NodePath) :
    getFullPath (stem ++ rest) = getFullPath stem ++ rest.flatMap fun name => '/' :: name.1 := by
  obtain ⟨name, stem, rfl⟩ := List.exists_cons_of_ne_nil hstem
  simp [getFullPath]

/-- A trailing separator makes no difference. -/
theorem locate_getFullPath_separator (from_ : NodePath) {node : NodePath} (hnode : node ≠ []) :
    locate from_ (getFullPath node ++ ['/']) = ⟨node, none⟩ := by
  obtain ⟨name, rest, rfl⟩ := List.exists_cons_of_ne_nil hnode
  have htrim : trimTrailing (joined name rest ++ ['/']) = joined name rest := by simp [trimTrailing]
  rw [getFullPath_cons, List.cons_append, locate, if_pos rfl]
  rw [if_neg (by simp), htrim, components_joined]
  exact follow_names _ (name :: rest)

theorem getFullPath_head (node : NodePath) : (getFullPath node).head? = some '/' := by
  rcases node with _ | ⟨name, rest⟩
  · rfl
  · rw [getFullPath_cons]
    rfl

theorem locateAbsolute_getFullPath (node : NodePath) :
    locateAbsolute (getFullPath node) = ⟨node, none⟩ := by
  have hhead := getFullPath_head node
  have hne : getFullPath node ≠ [] := by
    intro hnil
    simp [hnil] at hhead
  simp [locateAbsolute, hne, hhead, locate_getFullPath]

theorem locateAbsolute_getFullPath_separator {node : NodePath} (hnode : node ≠ []) :
    locateAbsolute (getFullPath node ++ ['/']) = ⟨node, none⟩ := by
  have hhead : (getFullPath node ++ ['/']).head? = some '/' := by
    rw [List.head?_append, getFullPath_head]
    rfl
  simp [locateAbsolute, hhead, locate_getFullPath_separator [] hnode]

/-- `getNodeByPath` of a node's full path is that node. -/
theorem run_getNodeByPath_getFullPath (tree : PathTree) (node : NodePath) :
    (getNodeByPath (getFullPath node)).run tree = (.ok node, tree.touch node) := by
  rw [run_getNodeByPath, locateAbsolute_getFullPath]
  rfl

theorem getFullPath_injective {left right : NodePath} (h : getFullPath left = getFullPath right) :
    left = right := by
  have hlocated := locateAbsolute_getFullPath left
  rw [h, locateAbsolute_getFullPath] at hlocated
  exact (Located.mk.inj hlocated).1.symm

end OSVR.Common
