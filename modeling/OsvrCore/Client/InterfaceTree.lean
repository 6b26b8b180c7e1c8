/-
# The interface tree of a client

A second tree, parallel to the path tree, keeps at each node the interfaces that
were requested for its path and the remote handler that serves them. A container
beside the tree lists the handlers that are updated. Every handler is entered
and removed in both places.
-/

import OsvrCore.Common.PathParseAndRetrieve

set_option autoImplicit false

namespace OSVR.Client

open Common Math

/-- A `ClientInterfacePtr`: the object and the path it was made for. -/
structure ClientInterface where
  id : ℕ
  path : Str
  deriving DecidableEq

/-- A `RemoteHandlerPtr` that is not null, by the order in which the objects were made. -/
abbrev RemoteHandler := ℕ

/-- Members of `InterfaceTreeValue`. -/
structure InterfaceTreeValue where
  handler : Option RemoteHandler
  interfaces : List ClientInterface
  deriving DecidableEq

instance : Inhabited InterfaceTreeValue := ⟨none, []⟩

namespace HandlerContainer

/-- A null pointer is not added, nor is a handler that is there. -/
def add (handlers : List RemoteHandler) : Option RemoteHandler → List RemoteHandler
  | none => handlers
  | some handler => if handler ∈ handlers then handlers else handlers ++ [handler]

def remove (handlers : List RemoteHandler) : Option RemoteHandler → List RemoteHandler
  | none => handlers
  | some handler => handlers.erase handler

theorem mem_of_mem_remove {handlers : List RemoteHandler} {old : Option RemoteHandler}
    {handler : RemoteHandler} (h : handler ∈ remove handlers old) : handler ∈ handlers := by
  cases old with
  | none => exact h
  | some old => exact List.mem_of_mem_erase h

end HandlerContainer

/-- Members of `InterfaceTree`. -/
structure InterfaceTree where
  root : NamedTree PathName InterfaceTreeValue
  handlers : List RemoteHandler

namespace InterfaceTree

def init : InterfaceTree := ⟨.leaf default, []⟩

variable (tree : InterfaceTree)

/-- What is at a node; a node that does not exist is as good as an empty one. -/
def value (node : NodePath) : InterfaceTreeValue := (tree.root.value? node).getD default

def setValue (node : NodePath) (value : InterfaceTreeValue) : InterfaceTree :=
  { tree with root := tree.root.set node value }

/-- The nodes that looking up a path creates. -/
def touch (node : NodePath) : InterfaceTree := { tree with root := tree.root.touch node }

/-- `addInterface` at the node of the interface's path; whether it is the first there. -/
def addInterfaceAt (node : NodePath) (iface : ClientInterface) : InterfaceTree × Bool :=
  let value := tree.value node
  let ifaces := value.interfaces
  (if iface ∈ ifaces then tree
    else tree.setValue node { value with interfaces := ifaces ++ [iface] }, ifaces.isEmpty)

/-- `removeInterface` at the node of the interface's path; whether none is left. -/
def removeInterfaceAt (node : NodePath) (iface : ClientInterface) : InterfaceTree × Bool :=
  let value := tree.value node
  let ifaces := value.interfaces.erase iface
  (if iface ∈ value.interfaces then tree.setValue node { value with interfaces := ifaces }
    else tree, ifaces.isEmpty)

/-- `m_removeHandler`. -/
def removeHandler (node : NodePath) : InterfaceTree :=
  let value := tree.value node
  { root := tree.root.set node { value with handler := none }
    handlers := HandlerContainer.remove tree.handlers value.handler }

/-- `m_setHandler`. -/
def setHandler (node : NodePath) (handler : RemoteHandler) : InterfaceTree :=
  let removed := tree.removeHandler node
  { root := removed.root.set node { removed.value node with handler := some handler }
    handlers := HandlerContainer.add removed.handlers (some handler) }

/-- The nodes in the order of a traversal, which changes values only. -/
def nodes : List NodePath := tree.root.entries.map Prod.fst

def clearHandlers : InterfaceTree := tree.nodes.foldl removeHandler tree

/-- What `visitPathsWithoutHandlers` looks for. -/
def wantsHandler (node : NodePath) : Bool :=
  (tree.value node).handler.isNone && !(tree.value node).interfaces.isEmpty

/-! ## What the operations do to the values -/

section Values

variable {tree} {node query : NodePath}

theorem value_setValue (value : InterfaceTreeValue) :
    (tree.setValue node value).value query = if query = node then value else tree.value query := by
  simp only [InterfaceTree.value, setValue, NamedTree.value?_set]
  split
  · rfl
  · split <;> rfl

@[simp] theorem value_touch : (tree.touch node).value query = tree.value query := by
  simp only [InterfaceTree.value, touch, NamedTree.value?_touch]
  split <;> rfl

@[simp] theorem handlers_touch : (tree.touch node).handlers = tree.handlers := rfl

theorem value_removeHandler :
    (tree.removeHandler node).value query =
      if query = node then { tree.value node with handler := none } else tree.value query :=
  value_setValue _

theorem value_setHandler (handler : RemoteHandler) :
    (tree.setHandler node handler).value query =
      if query = node then { tree.value node with handler := some handler }
      else tree.value query := by
  have hset : (tree.setHandler node handler).value query =
      if query = node then { (tree.removeHandler node).value node with handler := some handler }
      else (tree.removeHandler node).value query := value_setValue _
  rw [hset, value_removeHandler, value_removeHandler, if_pos rfl]
  split <;> rfl

@[simp] theorem value_init : init.value query = default := by
  cases query <;> rfl

/-- Looking up a node again that has been written changes nothing. -/
@[simp] theorem touch_removeHandler :
    (tree.removeHandler node).touch node = tree.removeHandler node := by
  have hvalue : (tree.removeHandler node).root.value? node =
      some { tree.value node with handler := none } := by
    simp [removeHandler, NamedTree.value?_set]
  rw [touch, NamedTree.touch_of_value? _ hvalue]

theorem handlers_removeHandler :
    (tree.removeHandler node).handlers =
      HandlerContainer.remove tree.handlers (tree.value node).handler := rfl

/-- The nodes that do not occur in a traversal have nothing. -/
theorem value_of_not_mem_nodes (hnode : node ∉ tree.nodes) : tree.value node = default := by
  cases hvalue : tree.root.value? node with
  | none => rw [InterfaceTree.value, hvalue, Option.getD_none]
  | some value =>
      exact absurd (List.mem_map_of_mem (NamedTree.mem_entries_of_value? hvalue)) hnode

theorem value_foldl_removeHandler (nodes : List NodePath) :
    (nodes.foldl removeHandler tree).value query =
      if query ∈ nodes then { tree.value query with handler := none } else tree.value query := by
  induction nodes generalizing tree with
  | nil => simp
  | cons first nodes ih =>
      rw [List.foldl_cons, ih, value_removeHandler]
      by_cases hfirst : query = first
      · simp [hfirst]
      · simp [hfirst]

/-- After the clearing no node has a handler, and the interfaces are as before. -/
theorem value_clearHandlers :
    tree.clearHandlers.value query = { tree.value query with handler := none } := by
  rw [clearHandlers, value_foldl_removeHandler]
  split
  next => rfl
  next hnode =>
    rw [value_of_not_mem_nodes hnode]
    rfl

theorem nodes_setValue (hnode : node ∈ tree.nodes) (value : InterfaceTreeValue) :
    (tree.setValue node value).nodes = tree.nodes := tree.root.paths_set hnode value

theorem nodes_removeHandler (hnode : node ∈ tree.nodes) :
    (tree.removeHandler node).nodes = tree.nodes := nodes_setValue hnode _

/-- The clearing visits the nodes that there are. -/
theorem nodes_clearHandlers : tree.clearHandlers.nodes = tree.nodes := by
  have hfold (list : List NodePath) (hlist : ∀ node ∈ list, node ∈ tree.nodes) :
      (list.foldl removeHandler tree).nodes = tree.nodes := by
    induction list generalizing tree with
    | nil => rfl
    | cons first list ih =>
        rw [List.forall_mem_cons] at hlist
        have hfirst := nodes_removeHandler hlist.1
        rw [List.foldl_cons, ih (by rw [hfirst]; exact hlist.2), hfirst]
  exact hfold tree.nodes fun _ hnode => hnode

/-- A node that exists and has no handler is left as it is. -/
theorem removeHandler_of_none (hnode : node ∈ tree.nodes)
    (hhandler : (tree.value node).handler = none) : tree.removeHandler node = tree := by
  obtain ⟨value, hvalue⟩ := Option.isSome_iff_exists.mp (NamedTree.isSome_value?_of_mem_paths hnode)
  have hsame : tree.value node = value := by rw [InterfaceTree.value, hvalue, Option.getD_some]
  rw [hsame] at hhandler
  have hwritten : { value with handler := none } = value := by rw [← hhandler]
  simp only [removeHandler, hsame, hhandler, hwritten, NamedTree.set_of_value? _ hvalue,
    HandlerContainer.remove]

/-- Clearing twice is clearing once. -/
theorem clearHandlers_clearHandlers : tree.clearHandlers.clearHandlers = tree.clearHandlers := by
  have hnone (node : NodePath) : (tree.clearHandlers.value node).handler = none := by
    rw [value_clearHandlers]
  have hfold (list : List NodePath) (hlist : ∀ node ∈ list, node ∈ tree.clearHandlers.nodes) :
      list.foldl removeHandler tree.clearHandlers = tree.clearHandlers := by
    induction list with
    | nil => rfl
    | cons first list ih =>
        rw [List.forall_mem_cons] at hlist
        rw [List.foldl_cons, removeHandler_of_none hlist.1 (hnone first), ih hlist.2]
  exact hfold tree.clearHandlers.nodes fun _ hnode => hnode

end Values

/-! ## Adding and removing interfaces -/

section Interfaces

variable {tree} {node : NodePath} {iface : ClientInterface}

@[simp] theorem handlers_addInterfaceAt :
    (tree.addInterfaceAt node iface).1.handlers = tree.handlers := by
  unfold addInterfaceAt
  dsimp only
  split <;> rfl

@[simp] theorem handlers_removeInterfaceAt :
    (tree.removeInterfaceAt node iface).1.handlers = tree.handlers := by
  unfold removeInterfaceAt
  dsimp only
  split <;> rfl

/-- The node of an interface that was added has interfaces. -/
theorem interfaces_addInterfaceAt :
    ((tree.addInterfaceAt node iface).1.value node).interfaces ≠ [] := by
  unfold addInterfaceAt
  dsimp only
  split
  next hmem => exact List.ne_nil_of_mem hmem
  next =>
    rw [value_setValue, if_pos rfl]
    simp

end Interfaces

/-! ## Handlers in both places -/

/-- The container holds exactly the handlers of the nodes, each once; a node with a
handler has an interface, and no interface is registered twice. -/
structure Linked (tree : InterfaceTree) : Prop where
  nodup_handlers : tree.handlers.Nodup
  mem_handlers : ∀ handler, handler ∈ tree.handlers ↔
    ∃ node, (tree.value node).handler = some handler
  unique : ∀ {handler node other}, (tree.value node).handler = some handler →
    (tree.value other).handler = some handler → node = other
  occupied : ∀ node, (tree.value node).handler.isSome = true → (tree.value node).interfaces ≠ []
  nodup_interfaces : ∀ node, (tree.value node).interfaces.Nodup

namespace Linked

variable {tree} {node : NodePath}

theorem init : Linked .init where
  nodup_handlers := List.nodup_nil
  mem_handlers handler := by
    simp only [value_init]
    constructor
    · intro hmem
      cases hmem
    · intro ⟨_, hsome⟩
      cases hsome
  unique h := by
    rw [value_init] at h
    cases h
  occupied node h := by
    rw [value_init] at h
    cases h
  nodup_interfaces node := by
    rw [value_init]
    exact List.nodup_nil

/-- Links are a matter of the values and of the container. -/
theorem congr (h : tree.Linked) {other : InterfaceTree}
    (hvalue : ∀ node, other.value node = tree.value node)
    (hhandlers : other.handlers = tree.handlers) : other.Linked where
  nodup_handlers := hhandlers ▸ h.nodup_handlers
  mem_handlers handler := by simp only [hhandlers, hvalue, h.mem_handlers]
  unique hleft hright := by
    rw [hvalue] at hleft hright
    exact h.unique hleft hright
  occupied node := by
    rw [hvalue]
    exact h.occupied node
  nodup_interfaces node := by
    rw [hvalue]
    exact h.nodup_interfaces node

theorem touch (h : tree.Linked) (node : NodePath) : (tree.touch node).Linked :=
  h.congr (fun _ => value_touch) rfl

theorem mem_remove (h : tree.Linked) {handler : RemoteHandler} :
    handler ∈ HandlerContainer.remove tree.handlers (tree.value node).handler ↔
      handler ∈ tree.handlers ∧ (tree.value node).handler ≠ some handler := by
  cases hhandler : (tree.value node).handler with
  | none => simp [HandlerContainer.remove]
  | some old => simp [HandlerContainer.remove, h.nodup_handlers.mem_erase_iff, and_comm, eq_comm]

/-- A node loses its handler. -/
theorem removeHandler (h : tree.Linked) (node : NodePath) : (tree.removeHandler node).Linked where
  nodup_handlers := by
    show (HandlerContainer.remove tree.handlers (tree.value node).handler).Nodup
    cases (tree.value node).handler with
    | none => exact h.nodup_handlers
    | some old => exact h.nodup_handlers.erase old
  mem_handlers handler := by
    show handler ∈ HandlerContainer.remove tree.handlers (tree.value node).handler ↔ _
    rw [h.mem_remove, h.mem_handlers]
    simp only [value_removeHandler]
    constructor
    · intro ⟨⟨other, hother⟩, hne⟩
      have hnode : other ≠ node := by
        intro heq
        exact hne (heq ▸ hother)
      exact ⟨other, by rw [if_neg hnode]; exact hother⟩
    · intro ⟨other, hother⟩
      by_cases hnode : other = node
      · rw [if_pos hnode] at hother
        cases hother
      · rw [if_neg hnode] at hother
        refine ⟨⟨other, hother⟩, ?_⟩
        intro heq
        exact hnode (h.unique hother heq)
  unique hleft hright := by
    rw [value_removeHandler] at hleft hright
    split at hleft
    next => cases hleft
    next =>
      split at hright
      next => cases hright
      next => exact h.unique hleft hright
  occupied other hother := by
    rw [value_removeHandler] at hother ⊢
    split at hother
    next => cases hother
    next hnode =>
      rw [if_neg hnode]
      exact h.occupied other hother
  nodup_interfaces other := by
    rw [value_removeHandler]
    split
    next => exact h.nodup_interfaces node
    next => exact h.nodup_interfaces other

theorem handlers_setHandler_of_not_mem (h : tree.Linked) (node : NodePath) {handler : RemoteHandler}
    (hnew : handler ∉ tree.handlers) :
    (tree.setHandler node handler).handlers = (tree.removeHandler node).handlers ++ [handler] := by
  have hfresh : handler ∉ (tree.removeHandler node).handlers := by
    intro hmem
    exact hnew (h.mem_remove.mp hmem).1
  exact if_neg hfresh

/-- A node with interfaces gets a new handler. -/
theorem setHandler (h : tree.Linked) {handler : RemoteHandler} (hnew : handler ∉ tree.handlers)
    (hinterfaces : (tree.value node).interfaces ≠ []) : (tree.setHandler node handler).Linked := by
  have hremoved := h.removeHandler node
  have hhandlers := h.handlers_setHandler_of_not_mem node hnew
  have hfresh : ∀ other, (tree.value other).handler ≠ some handler := by
    intro other hother
    exact hnew ((h.mem_handlers handler).mpr ⟨other, hother⟩)
  constructor
  case nodup_handlers =>
    rw [hhandlers, List.nodup_append_comm]
    refine List.nodup_cons.mpr ⟨?_, hremoved.nodup_handlers⟩
    intro hmem
    exact hnew (h.mem_remove.mp hmem).1
  case mem_handlers =>
    intro other
    rw [hhandlers, List.mem_append, hremoved.mem_handlers, List.mem_singleton]
    simp only [value_removeHandler, value_setHandler]
    constructor
    · intro hcases
      rcases hcases with ⟨place, hplace⟩ | heq
      · by_cases hnode : place = node
        · rw [if_pos hnode] at hplace
          cases hplace
        · rw [if_neg hnode] at hplace
          exact ⟨place, by rw [if_neg hnode]; exact hplace⟩
      · exact ⟨node, by rw [if_pos rfl, heq]⟩
    · intro ⟨place, hplace⟩
      by_cases hnode : place = node
      · rw [if_pos hnode] at hplace
        exact .inr (Option.some.inj hplace).symm
      · rw [if_neg hnode] at hplace
        exact .inl ⟨place, by rw [if_neg hnode]; exact hplace⟩
  case unique =>
    intro other left right hleft hright
    rw [value_setHandler] at hleft hright
    split at hleft
    next hnode =>
      split at hright
      next hnode' => rw [hnode, hnode']
      next => exact absurd (hright.trans hleft.symm) (hfresh right)
    next =>
      split at hright
      next => exact absurd (hleft.trans hright.symm) (hfresh left)
      next => exact h.unique hleft hright
  case occupied =>
    intro other hother
    rw [value_setHandler] at hother ⊢
    split
    next => exact hinterfaces
    next hnode =>
      rw [if_neg hnode] at hother
      exact h.occupied other hother
  case nodup_interfaces =>
    intro other
    rw [value_setHandler]
    split
    next => exact h.nodup_interfaces node
    next => exact h.nodup_interfaces other

theorem clearHandlers (h : tree.Linked) : tree.clearHandlers.Linked := by
  unfold InterfaceTree.clearHandlers
  generalize tree.nodes = nodes
  induction nodes generalizing tree with
  | nil => exact h
  | cons first nodes ih => exact ih (h.removeHandler first)

/-- The clearing empties the container. -/
theorem handlers_clearHandlers (h : tree.Linked) : tree.clearHandlers.handlers = [] := by
  rw [List.eq_nil_iff_forall_not_mem]
  intro handler hmem
  have ⟨node, hnode⟩ := (h.clearHandlers.mem_handlers handler).mp hmem
  rw [value_clearHandlers] at hnode
  cases hnode

/-- The handlers stay where they are, and a node that has one keeps an interface. -/
theorem setInterfaces (h : tree.Linked) (node : NodePath) {ifaces : List ClientInterface}
    (hnodup : ifaces.Nodup) (hempty : ifaces = [] → (tree.value node).handler = none) :
    (tree.setValue node { tree.value node with interfaces := ifaces }).Linked := by
  have hhandler (other : NodePath) :
      ((tree.setValue node { tree.value node with interfaces := ifaces }).value other).handler =
        (tree.value other).handler := by
    rw [value_setValue]
    split
    next hnode => rw [hnode]
    next => rfl
  constructor
  case nodup_handlers => exact h.nodup_handlers
  case mem_handlers =>
    intro handler
    simp only [hhandler]
    exact h.mem_handlers handler
  case unique =>
    intro handler left right hleft hright
    rw [hhandler] at hleft hright
    exact h.unique hleft hright
  case occupied =>
    intro other hother
    rw [hhandler] at hother
    rw [value_setValue]
    split
    next hnode =>
      intro hnil
      rw [hnode, hempty hnil] at hother
      cases hother
    next => exact h.occupied other hother
  case nodup_interfaces =>
    intro other
    rw [value_setValue]
    split
    next => exact hnodup
    next => exact h.nodup_interfaces other

theorem addInterfaceAt (h : tree.Linked) (node : NodePath) (iface : ClientInterface) :
    (tree.addInterfaceAt node iface).1.Linked := by
  simp only [InterfaceTree.addInterfaceAt]
  split
  next => exact h
  next hnew =>
    apply h.setInterfaces
    · rw [List.nodup_append_comm]
      exact List.nodup_cons.mpr ⟨hnew, h.nodup_interfaces node⟩
    · intro hnil
      simp at hnil

/-- An interface goes, and with the last one of a node its handler. -/
theorem removeInterfaceAt (h : tree.Linked) (node : NodePath) (iface : ClientInterface) :
    (if (tree.removeInterfaceAt node iface).2 then
      (tree.removeInterfaceAt node iface).1.removeHandler node
    else (tree.removeInterfaceAt node iface).1).Linked := by
  have hnodup := (h.nodup_interfaces node).erase iface
  simp only [InterfaceTree.removeInterfaceAt, List.isEmpty_iff]
  by_cases hempty : (tree.value node).interfaces.erase iface = []
  · rw [if_pos hempty]
    split
    next hmem =>
      -- the same as removing the handler first, when nothing depends on the interfaces any more
      have hremoved := (h.removeHandler node).setInterfaces node hnodup
        (fun _ => by rw [value_removeHandler, if_pos rfl])
      refine hremoved.congr ?_ ?_
      · intro other
        simp only [value_removeHandler, value_setValue]
        split
        next => simp
        next => rfl
      · simp only [InterfaceTree.removeHandler, value_setValue]
        rfl
    next => exact h.removeHandler node
  · rw [if_neg hempty]
    split
    next => exact h.setInterfaces node hnodup fun hnil => absurd hnil hempty
    next => exact h

end Linked

end InterfaceTree

end OSVR.Client
