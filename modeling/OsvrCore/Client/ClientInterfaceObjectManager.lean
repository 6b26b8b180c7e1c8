/-
# Connecting interfaces to their sources

The manager connects a path when its first interface is added, disconnects it
with the last one, and around a replacement of the path tree disconnects and
reconnects every path. Resolving a path and the factory that makes a handler can
fail in two ways: without a result, or with an exception that leaves the loop
over the paths.
-/

import OsvrCore.Client.InterfaceTree
import OsvrCore.Common.PathTreeSerialization
import OsvrCore.Common.ResolveTreeNode
import OsvrCore.Math.ProgramLoop
import OsvrCore.Math.Transition

set_option autoImplicit false

namespace OSVR.Client

open Common Math

inductive ClientError
  | tree (error : TreeError)
  | factory (what : Str)
  deriving DecidableEq

/-- What a factory comes to. -/
inductive FactoryProduct
  | handler
  | null
  | exception (what : Str)
  deriving DecidableEq

/-- `SpecificFactory`: it sees the source with its device element, and the interfaces. -/
abbrev SpecificFactory := OriginalSource → PathElement → List ClientInterface → FactoryProduct

/-- What one call finds around the manager: the JSON library, enough fuel for the
resolutions that end, and the factories as they behave at that time. -/
structure ClientEnvironment where
  codec : JsonCodec
  fuel : ℕ
  factoriesByInterface : Str → Option SpecificFactory

/-- Members of `ClientInterfaceObjectManager`, with the path tree it refers to and
the number of handlers made so far. -/
structure ClientManager where
  tree : PathTree
  interfaces : InterfaceTree
  made : ℕ

abbrev ManagerProgram (α : Type) := Program ClientManager ClientError α

/-- `getInterfaceName`. -/
def interfaceName (source : OriginalSource) : Str :=
  match source.interface.bind List.getLast? with
  | some name => name.1
  | none => []

/-- `invokeFactory`: whether there is a product. -/
def invokeFactory (env : ClientEnvironment) (ifaces : List ClientInterface)
    (source : OriginalSource) : Program PathTree ClientError Bool := do
  match env.factoriesByInterface (interfaceName source) with
  | none => return false
  | some factory =>
      match factory source ((← Program.get).element (source.device.getD [])) ifaces with
      | .handler => return true
      | .null => return false
      | .exception what => Program.throw (.factory what)

/-- What connecting a path needs of the path tree and of the factories: its source
and a handler for that. -/
def attempt (env : ClientEnvironment) (path : Str) (ifaces : List ClientInterface) :
    Program PathTree ClientError Bool := do
  match ← (resolveTreeNode env.codec env.fuel path).mapError .tree with
  | none => return false
  | some source => invokeFactory env ifaces source

namespace ClientManager

def init : ClientManager := ⟨.empty, .init, 0⟩

/-- Code that works on the path tree. -/
def onTree {α : Type} (program : Program PathTree ClientError α) :
    ManagerProgram α := fun manager =>
  ((program.run manager.tree).1, { manager with tree := (program.run manager.tree).2 })

/-- `m_getNodeForPath`; the lookup is that of the path tree, which creates the same
nodes and fails alike. -/
def getNodeForPath (path : Str) : ManagerProgram NodePath := fun manager =>
  let located := locateAbsolute path
  (match located.failure with
    | some error => .error (.thrown (.tree error))
    | none => .ok located.reached,
    { manager with interfaces := manager.interfaces.touch located.reached })

def getInterfacesForPath (path : Str) : ManagerProgram (List ClientInterface) := do
  let node ← getNodeForPath path
  return ((← Program.get).interfaces.value node).interfaces

def eraseHandlerForPath (path : Str) : ManagerProgram Unit := do
  let node ← getNodeForPath path
  Program.modify fun manager => { manager with interfaces := manager.interfaces.removeHandler node }

def replaceHandlerForPath (path : Str) (handler : RemoteHandler) : ManagerProgram Unit := do
  let node ← getNodeForPath path
  Program.modify fun manager =>
    { manager with interfaces := manager.interfaces.setHandler node handler }

/-- The handler object that a factory has made. -/
def makeHandler : ManagerProgram RemoteHandler := do
  let handler := (← Program.get).made
  Program.modify fun manager => { manager with made := manager.made + 1 }
  return handler

/-- `m_connectCallbacksOnPath`. -/
def connectCallbacksOnPath (env : ClientEnvironment) (path : Str) : ManagerProgram Bool := do
  eraseHandlerForPath path
  match ← onTree ((resolveTreeNode env.codec env.fuel path).mapError .tree) with
  | none => return false
  | some source =>
      let ifaces ← getInterfacesForPath path
      if ← onTree (invokeFactory env ifaces source) then
        replaceHandlerForPath path (← makeHandler)
        return true
      else return false

/-- The visit of one node by `visitPathsWithoutHandlers`. -/
def connectIfNeeded (env : ClientEnvironment) (node : NodePath) : ManagerProgram Unit := do
  if (← Program.get).interfaces.wantsHandler node then
    let _ ← connectCallbacksOnPath env (getFullPath node)

/-- `m_connectNeededCallbacks`. -/
def connectNeededCallbacks (env : ClientEnvironment) : ManagerProgram Unit := do
  Program.forEach (connectIfNeeded env) (← Program.get).interfaces.nodes

def addInterface (env : ClientEnvironment) (iface : ClientInterface) : ManagerProgram Unit := do
  let node ← getNodeForPath iface.path
  let added := (← Program.get).interfaces.addInterfaceAt node iface
  Program.modify fun manager => { manager with interfaces := added.1 }
  if added.2 then
    let _ ← connectCallbacksOnPath env iface.path

def releaseInterface (iface : ClientInterface) : ManagerProgram Unit := do
  let node ← getNodeForPath iface.path
  let removed := (← Program.get).interfaces.removeInterfaceAt node iface
  Program.modify fun manager => { manager with interfaces := removed.1 }
  if removed.2 then eraseHandlerForPath iface.path

/-- `PathTreeOwner::replaceTree`, with the manager as its observer before and after. -/
def replaceTree (env : ClientEnvironment) (nodes : Json) : ManagerProgram Unit := do
  Program.modify fun manager =>
    { manager with interfaces := manager.interfaces.clearHandlers, tree := .empty }
  onTree ((jsonToPathTree env.codec nodes).mapError .tree)
  connectNeededCallbacks env

end ClientManager

/-- What happens to a manager. -/
inductive ClientEvent
  | addInterface (env : ClientEnvironment) (iface : ClientInterface)
  | releaseInterface (iface : ClientInterface)
  | replaceTree (env : ClientEnvironment) (nodes : Json)

def ClientEvent.program : ClientEvent → ManagerProgram Unit
  | addInterface env iface => ClientManager.addInterface env iface
  | releaseInterface iface => ClientManager.releaseInterface iface
  | replaceTree env nodes => ClientManager.replaceTree env nodes

/-- A call that ends with an exception leaves the manager as it is then. -/
def clientManager : TransitionSystem ClientManager ClientEvent where
  init := .init
  step event manager := some (event.program.run manager).2

namespace ClientManager

variable {manager after : ClientManager} {env : ClientEnvironment} {path : Str} {node : NodePath}

/-! ## Connecting one path -/

/-- The manager when the path of a node has been connected, or not. -/
def connected (manager : ClientManager) (node : NodePath) (tree : PathTree) (success : Bool) :
    ClientManager :=
  let cleared := (manager.interfaces.touch node).removeHandler node
  if success then ⟨tree, cleared.setHandler node manager.made, manager.made + 1⟩
  else ⟨tree, cleared, manager.made⟩

theorem run_getNodeForPath (hpath : locateAbsolute path = ⟨node, none⟩) :
    (getNodeForPath path).run manager =
      (.ok node, { manager with interfaces := manager.interfaces.touch node }) := by
  show (getNodeForPath path) manager = _
  simp only [getNodeForPath, hpath]

theorem run_eraseHandlerForPath (hpath : locateAbsolute path = ⟨node, none⟩) :
    (eraseHandlerForPath path).run manager =
      (.ok (), { manager with
        interfaces := (manager.interfaces.touch node).removeHandler node }) := by
  rw [eraseHandlerForPath, Program.run_bind_of_ok (run_getNodeForPath hpath)]
  rfl

theorem run_replaceHandlerForPath (hpath : locateAbsolute path = ⟨node, none⟩)
    {handler : RemoteHandler} :
    (replaceHandlerForPath path handler).run manager =
      (.ok (), { manager with
        interfaces := (manager.interfaces.touch node).setHandler node handler }) := by
  rw [replaceHandlerForPath, Program.run_bind_of_ok (run_getNodeForPath hpath)]
  rfl

theorem run_onTree {α : Type} (program : Program PathTree ClientError α) :
    (onTree program).run manager =
      ((program.run manager.tree).1, { manager with tree := (program.run manager.tree).2 }) := rfl

theorem run_onTree_of_eq {α : Type} {program : Program PathTree ClientError α}
    {result : Except (Abort ClientError) α} {before tree : PathTree} {interfaces : InterfaceTree}
    {made : ℕ} (hrun : program.run before = (result, tree)) :
    (onTree program).run ⟨before, interfaces, made⟩ = (result, ⟨tree, interfaces, made⟩) := by
  rw [run_onTree, hrun]

/-- Whether a path is connected, and what becomes of the tree, is settled by the attempt. -/
theorem run_connectCallbacksOnPath (manager : ClientManager) (env : ClientEnvironment)
    (hpath : locateAbsolute path = ⟨node, none⟩) :
    (connectCallbacksOnPath env path).run manager =
      match (attempt env path (manager.interfaces.value node).interfaces).run manager.tree with
      | (.ok success, tree) => (.ok success, manager.connected node tree success)
      | (.error reason, tree) => (.error reason, manager.connected node tree false) := by
  rw [connectCallbacksOnPath, Program.run_bind_of_ok (run_eraseHandlerForPath hpath), attempt]
  rcases hsource : ((resolveTreeNode env.codec env.fuel path).mapError ClientError.tree).run
    manager.tree with ⟨reason | source, tree⟩
  · rw [Program.run_bind_of_error hsource, Program.run_bind_of_error (run_onTree_of_eq hsource)]
    rfl
  · rw [Program.run_bind_of_ok hsource, Program.run_bind_of_ok (run_onTree_of_eq hsource)]
    cases source with
    | none => rfl
    | some source =>
        have hifaces (tree : PathTree) :
            (getInterfacesForPath path).run { manager with
                tree, interfaces := (manager.interfaces.touch node).removeHandler node } =
              (.ok (manager.interfaces.value node).interfaces, { manager with
                tree, interfaces := (manager.interfaces.touch node).removeHandler node }) := by
          rw [getInterfacesForPath, Program.run_bind_of_ok (run_getNodeForPath hpath)]
          simp [Program.run_bind, InterfaceTree.value_removeHandler]
        dsimp only
        rw [Program.run_bind_of_ok (hifaces tree)]
        rcases hproduct : (invokeFactory env (manager.interfaces.value node).interfaces source).run
          tree with ⟨reason | success, final⟩
        · rw [Program.run_bind_of_error (run_onTree_of_eq hproduct)]
          rfl
        · rw [Program.run_bind_of_ok (run_onTree_of_eq hproduct)]
          cases success with
          | false => rfl
          | true =>
              have hmake : makeHandler.run (⟨final, (manager.interfaces.touch node).removeHandler
                  node, manager.made⟩ : ClientManager) = (.ok manager.made, ⟨final,
                    (manager.interfaces.touch node).removeHandler node, manager.made + 1⟩) := rfl
              simp only [if_true]
              rw [Program.run_bind_of_ok hmake,
                Program.run_bind_of_ok (run_replaceHandlerForPath hpath)]
              simp [connected]

/-! ## The links -/

/-- The handlers are linked, and the next one that is made will be new. -/
structure Sound (manager : ClientManager) : Prop where
  linked : manager.interfaces.Linked
  made : ∀ handler ∈ manager.interfaces.handlers, handler < manager.made

theorem value_connected {tree : PathTree} {success : Bool} {query : NodePath} :
    (manager.connected node tree success).interfaces.value query =
      if query = node then
        { manager.interfaces.value node with
          handler := if success then some manager.made else none }
      else manager.interfaces.value query := by
  unfold connected
  cases success with
  | false => simp [InterfaceTree.value_removeHandler]
  | true =>
      simp only [if_true, InterfaceTree.value_setHandler, InterfaceTree.value_removeHandler,
        InterfaceTree.value_touch]
      split <;> rfl

theorem Sound.connected (h : manager.Sound) {tree : PathTree} {success : Bool}
    (hinterfaces : (manager.interfaces.value node).interfaces ≠ []) :
    (manager.connected node tree success).Sound := by
  have htouched := h.linked.touch node
  have hcleared := htouched.removeHandler node
  have hmade : ∀ handler ∈ ((manager.interfaces.touch node).removeHandler node).handlers,
      handler < manager.made := by
    intro handler hmem
    exact h.made handler (HandlerContainer.mem_of_mem_remove hmem)
  cases success with
  | false => exact ⟨hcleared, hmade⟩
  | true =>
      have hnew : manager.made ∉ ((manager.interfaces.touch node).removeHandler node).handlers := by
        intro hmem
        exact Nat.lt_irrefl _ (hmade _ hmem)
      have hhandlers := hcleared.handlers_setHandler_of_not_mem node hnew
      refine ⟨hcleared.setHandler hnew ?_, ?_⟩
      · rw [InterfaceTree.value_removeHandler, if_pos rfl, InterfaceTree.value_touch]
        exact hinterfaces
      · intro handler hmem
        have hmem' : handler ∈ (((manager.interfaces.touch node).removeHandler node).setHandler node
          manager.made).handlers := hmem
        rw [hhandlers, List.mem_append, List.mem_singleton] at hmem'
        show handler < manager.made + 1
        rcases hmem' with hold | heq
        · exact Nat.lt_succ_of_lt (hmade handler (HandlerContainer.mem_of_mem_remove hold))
        · rw [heq]
          exact Nat.lt_succ_self _

theorem Sound.connectCallbacksOnPath (h : manager.Sound) (env : ClientEnvironment)
    (hpath : locateAbsolute path = ⟨node, none⟩)
    (hinterfaces : (manager.interfaces.value node).interfaces ≠ []) :
    ((connectCallbacksOnPath env path).run manager).2.Sound := by
  rw [run_connectCallbacksOnPath manager env hpath]
  split
  all_goals
    dsimp only
    exact h.connected hinterfaces

/-- New nodes in the interface tree do not matter. -/
theorem Sound.touch (h : manager.Sound) (node : NodePath) :
    Sound { manager with interfaces := manager.interfaces.touch node } :=
  ⟨h.linked.touch node, h.made⟩

theorem run_getNodeForPath_of_failure {reached : NodePath} {error : TreeError}
    (hpath : locateAbsolute path = ⟨reached, some error⟩) :
    (getNodeForPath path).run manager = (.error (.thrown (.tree error)),
      { manager with interfaces := manager.interfaces.touch reached }) := by
  show (getNodeForPath path) manager = _
  simp only [getNodeForPath, hpath]

theorem Sound.addInterface (h : manager.Sound) (env : ClientEnvironment) (iface : ClientInterface) :
    ((addInterface env iface).run manager).2.Sound := by
  unfold ClientManager.addInterface
  rcases hpath : locateAbsolute iface.path with ⟨node, _ | error⟩
  · rw [Program.run_bind_of_ok (run_getNodeForPath hpath)]
    have htouched := h.touch node
    have hadded : Sound { manager with
        interfaces := ((manager.interfaces.touch node).addInterfaceAt node iface).1 } :=
      ⟨htouched.linked.addInterfaceAt node iface, by simpa using h.made⟩
    simp only [Program.run_bind, Program.run_get, Program.run_modify]
    split
    next =>
      have hconnected := hadded.connectCallbacksOnPath env hpath
        InterfaceTree.interfaces_addInterfaceAt
      rw [← Program.snd_run_bind_pure _ fun _ => ()] at hconnected
      exact hconnected
    next => exact hadded
  · rw [Program.run_bind_of_error (run_getNodeForPath_of_failure hpath)]
    exact h.touch node

theorem Sound.releaseInterface (h : manager.Sound) (iface : ClientInterface) :
    ((releaseInterface iface).run manager).2.Sound := by
  unfold ClientManager.releaseInterface
  rcases hpath : locateAbsolute iface.path with ⟨node, _ | error⟩
  · rw [Program.run_bind_of_ok (run_getNodeForPath hpath)]
    have htouched := h.touch node
    have hremoved := htouched.linked.removeInterfaceAt node iface
    simp only [Program.run_bind, Program.run_get, Program.run_modify]
    split
    next hempty =>
      rw [if_pos hempty] at hremoved
      rw [run_eraseHandlerForPath hpath]
      refine ⟨hremoved.congr ?_ ?_, ?_⟩
      · intro other
        simp [InterfaceTree.value_removeHandler]
      · simp [InterfaceTree.handlers_removeHandler]
      · intro handler hmem
        have hbefore := HandlerContainer.mem_of_mem_remove hmem
        simp only [InterfaceTree.handlers_touch,
          InterfaceTree.handlers_removeInterfaceAt] at hbefore
        exact h.made handler hbefore
    next hempty =>
      rw [if_neg hempty] at hremoved
      exact ⟨hremoved, by simpa using h.made⟩
  · rw [Program.run_bind_of_error (run_getNodeForPath_of_failure hpath)]
    exact h.touch node

theorem Sound.connectIfNeeded (h : manager.Sound) (env : ClientEnvironment) (node : NodePath) :
    ((connectIfNeeded env node).run manager).2.Sound := by
  unfold ClientManager.connectIfNeeded
  simp only [Program.run_bind, Program.run_get]
  split
  next hwants =>
    have hinterfaces : (manager.interfaces.value node).interfaces ≠ [] := by
      simp only [InterfaceTree.wantsHandler, Bool.and_eq_true, Bool.not_eq_true',
        List.isEmpty_eq_false_iff] at hwants
      exact hwants.2
    have hconnected := h.connectCallbacksOnPath env (locateAbsolute_getFullPath node)
      hinterfaces
    rw [← Program.snd_run_bind_pure _ fun _ => PUnit.unit] at hconnected
    exact hconnected
  next => exact h

/-- The manager whose handlers are gone, with another path tree. -/
def cleared (manager : ClientManager) (tree : PathTree) : ClientManager :=
  { manager with interfaces := manager.interfaces.clearHandlers, tree }

theorem Sound.cleared (h : manager.Sound) (tree : PathTree) : (manager.cleared tree).Sound where
  linked := h.linked.clearHandlers
  made handler hmem := by
    have hmem' : handler ∈ manager.interfaces.clearHandlers.handlers := hmem
    rw [h.linked.handlers_clearHandlers] at hmem'
    cases hmem'

/-- The path tree that the received nodes are turned into, and how that ends. -/
def newTree (env : ClientEnvironment) (nodes : Json) : Except (Abort TreeError) Unit × PathTree :=
  (jsonToPathTree env.codec nodes).run .empty

/-- A replacement reconnects in the new tree, unless making that has thrown. -/
theorem run_replaceTree (manager : ClientManager) (env : ClientEnvironment) (nodes : Json) :
    (replaceTree env nodes).run manager =
      match newTree env nodes with
      | (.ok _, tree) => (connectNeededCallbacks env).run (manager.cleared tree)
      | (.error reason, tree) => (.error (reason.map .tree), manager.cleared tree) := by
  rw [replaceTree, Program.run_bind_of_ok (Program.run_modify _ _)]
  rcases hnew : newTree env nodes with ⟨reason | _, tree⟩
  · rw [Program.run_bind_of_error (run_onTree_of_eq (Program.run_mapError_of_error hnew))]
    rfl
  · rw [Program.run_bind_of_ok (run_onTree_of_eq (Program.run_mapError_of_ok hnew))]
    rfl

theorem Sound.replaceTree (h : manager.Sound) (env : ClientEnvironment) (nodes : Json) :
    ((replaceTree env nodes).run manager).2.Sound := by
  rw [run_replaceTree]
  split
  next tree _ =>
    rw [connectNeededCallbacks, Program.run_bind_of_ok (Program.run_get _)]
    exact Program.forEach_keeps (fun node manager hsound => hsound.connectIfNeeded env node) _
      (h.cleared tree)
  next tree _ => exact h.cleared tree

/-- Every call keeps the links, however it ends. -/
theorem sound_of_reachable (hreach : clientManager.Reachable manager) : manager.Sound := by
  have hinvariant : clientManager.Invariant (fun _ _ => True) Sound := by
    constructor
    · exact ⟨.init, fun handler hmem => by cases hmem⟩
    · intro before after event hbefore _ hstep
      cases hstep
      cases event with
      | addInterface env iface => exact hbefore.addInterface env iface
      | releaseInterface iface => exact hbefore.releaseInterface iface
      | replaceTree env nodes => exact hbefore.replaceTree env nodes
  exact hinvariant.reachable hreach

/-! ## Reconnecting -/

/-- Connecting the path of a node, as far as the path tree and the factories go. -/
def attemptAt (env : ClientEnvironment) (manager : ClientManager) (node : NodePath) :
    Program PathTree ClientError Bool :=
  attempt env (getFullPath node) (manager.interfaces.value node).interfaces

theorem attemptAt_congr (env : ClientEnvironment) (after : ClientManager)
    (hsame : ∀ node, (after.interfaces.value node).interfaces =
      (manager.interfaces.value node).interfaces) :
    attemptAt env after = attemptAt env manager := by
  funext node
  rw [attemptAt, attemptAt, hsame]

theorem interfaces_connected {tree : PathTree} {success : Bool} (query : NodePath) :
    ((manager.connected node tree success).interfaces.value query).interfaces =
      (manager.interfaces.value query).interfaces := by
  rw [value_connected]
  split
  next heq => rw [heq]
  next => rfl

theorem wantsHandler_connected {tree : PathTree} {success : Bool} {query : NodePath}
    (hne : query ≠ node) :
    (manager.connected node tree success).interfaces.wantsHandler query =
      manager.interfaces.wantsHandler query := by
  unfold InterfaceTree.wantsHandler
  rw [value_connected, if_neg hne]

theorem run_connectIfNeeded_of_not_wants (env : ClientEnvironment)
    (hwants : manager.interfaces.wantsHandler node = false) :
    (connectIfNeeded env node).run manager = (.ok (), manager) := by
  rw [connectIfNeeded, Program.run_bind_of_ok (Program.run_get _), hwants]
  rfl

theorem run_connectIfNeeded_of_wants (env : ClientEnvironment)
    (hwants : manager.interfaces.wantsHandler node = true) :
    (connectIfNeeded env node).run manager =
      match (attemptAt env manager node).run manager.tree with
      | (.ok success, tree) => (.ok (), manager.connected node tree success)
      | (.error reason, tree) => (.error reason, manager.connected node tree false) := by
  rw [connectIfNeeded, Program.run_bind_of_ok (Program.run_get _), hwants, if_pos rfl]
  have hrun := run_connectCallbacksOnPath manager env (locateAbsolute_getFullPath node)
  unfold attemptAt
  rcases hattempt : (attempt env (getFullPath node) (manager.interfaces.value node).interfaces).run
    manager.tree with ⟨reason | success, tree⟩
  · rw [hattempt] at hrun
    rw [Program.run_bind_of_error hrun]
  · rw [hattempt] at hrun
    rw [Program.run_bind_of_ok hrun]
    rfl

theorem handler_of_wantsHandler {tree : InterfaceTree} (hwants : tree.wantsHandler node = true) :
    (tree.value node).handler = none := by
  simp only [InterfaceTree.wantsHandler, Bool.and_eq_true, Option.isNone_iff_eq_none] at hwants
  exact hwants.1

/-- Whether a node has a handler after its turn. -/
theorem isSome_handler_connected (hwants : manager.interfaces.wantsHandler node = true)
    {tree : PathTree} {success : Bool} {query : NodePath} :
    ((manager.connected node tree success).interfaces.value query).handler.isSome = true ↔
      (manager.interfaces.value query).handler.isSome = true ∨ query = node ∧ success = true := by
  rw [value_connected]
  by_cases hquery : query = node
  · rw [if_pos hquery, hquery, handler_of_wantsHandler hwants]
    cases success <;> simp
  · rw [if_neg hquery]
    simp [hquery]

/-- What the loop over the nodes leaves: a node has a handler if it had one before, or
if its attempt was reached and succeeded. -/
theorem run_forEach_connectIfNeeded (env : ClientEnvironment) (list : List NodePath)
    (hnodup : list.Nodup) (manager : ClientManager) (query : NodePath) :
    let after := ((Program.forEach (connectIfNeeded env) list).run manager).2
    let outcomes := Program.attempts (attemptAt env manager)
      (list.filter manager.interfaces.wantsHandler) manager.tree
    (after.interfaces.value query).interfaces = (manager.interfaces.value query).interfaces ∧
      ((after.interfaces.value query).handler.isSome = true ↔
        (manager.interfaces.value query).handler.isSome = true ∨
          (query, .ok true) ∈ Program.passed outcomes) := by
  induction list generalizing manager with
  | nil => simp [Program.forEach, Program.attempts, Program.passed]
  | cons head rest ih =>
      obtain ⟨hhead, hrest⟩ := List.nodup_cons.mp hnodup
      cases hwants : manager.interfaces.wantsHandler head with
      | false =>
          have hrun := run_connectIfNeeded_of_not_wants env hwants
          rw [Program.forEach, Program.run_bind_of_ok hrun,
            List.filter_cons_of_neg (by rw [hwants]; exact Bool.false_ne_true)]
          exact ih hrest manager
      | true =>
          have hrun := run_connectIfNeeded_of_wants env hwants
          rw [List.filter_cons_of_pos hwants]
          rcases hattempt : (attemptAt env manager head).run manager.tree with
            ⟨reason | success, tree⟩
          · rw [hattempt] at hrun
            rw [Program.forEach, Program.run_bind_of_error hrun]
            refine ⟨interfaces_connected query, ?_⟩
            dsimp only
            rw [isSome_handler_connected hwants]
            simp [Program.attempts, Program.passed, hattempt, Except.isOk, Except.toBool]
          · rw [hattempt] at hrun
            rw [Program.forEach, Program.run_bind_of_ok hrun]
            have hsame := attemptAt_congr env (manager.connected head tree success)
              interfaces_connected
            have hfilter :
                rest.filter (manager.connected head tree success).interfaces.wantsHandler =
                rest.filter manager.interfaces.wantsHandler := by
              apply List.filter_congr
              intro other hother
              exact wantsHandler_connected fun heq => hhead (heq ▸ hother)
            have hlater := ih hrest (manager.connected head tree success)
            have htree : (manager.connected head tree success).tree = tree := by
              unfold connected
              cases success <;> rfl
            rw [hsame, hfilter, htree, interfaces_connected] at hlater
            refine ⟨hlater.1, ?_⟩
            rw [hlater.2, isSome_handler_connected hwants]
            simp only [Program.attempts, Program.passed, hattempt, Except.isOk, Except.toBool,
              List.takeWhile_cons, if_true, List.mem_cons, Prod.mk.injEq, Except.ok.injEq, or_assoc,
              eq_comm (a := true)]

/-! ## After a replacement -/

/-- The nodes that a replacement tries to connect, in its order. -/
def waiting (manager : ClientManager) : List NodePath :=
  manager.interfaces.clearHandlers.nodes.filter manager.interfaces.clearHandlers.wantsHandler

/-- What the attempts come to, each made in its turn in the new tree, whether or not the
ones before it end with an exception. -/
def outcomes (manager : ClientManager) (env : ClientEnvironment) (nodes : Json) :
    List (NodePath × Except (Abort ClientError) Bool) :=
  Program.attempts (attemptAt env manager) manager.waiting (newTree env nodes).2

/-- The path of the node resolves in the new tree and the factory makes a handler for it. -/
def Connects (manager : ClientManager) (env : ClientEnvironment) (nodes : Json)
    (node : NodePath) : Prop :=
  (node, .ok true) ∈ manager.outcomes env nodes

/-- An attempt succeeds when there is a source and its factory makes a handler. -/
theorem attempt_eq_ok_true_iff {tree : PathTree} {ifaces : List ClientInterface} :
    ((attempt env path ifaces).run tree).1 = .ok true ↔
      ∃ source after, (resolveTreeNode env.codec env.fuel path).run tree =
        (.ok (some source), after) ∧
        ∃ factory, env.factoriesByInterface (interfaceName source) = some factory ∧
          factory source (after.element (source.device.getD [])) ifaces = .handler := by
  unfold attempt
  rcases hresolved : (resolveTreeNode env.codec env.fuel path).run tree with
    ⟨reason | _ | source, after⟩
  · rw [Program.run_bind_of_error (Program.run_mapError_of_error hresolved)]
    simp
  · rw [Program.run_bind_of_ok (Program.run_mapError_of_ok hresolved)]
    simp
  · rw [Program.run_bind_of_ok (Program.run_mapError_of_ok hresolved)]
    dsimp only
    unfold invokeFactory
    cases hfactory : env.factoriesByInterface (interfaceName source) with
    | none => simp [hfactory]
    | some factory =>
        simp only [Program.run_bind, Program.run_get]
        cases hproduct : factory source (after.element (source.device.getD [])) ifaces <;>
          simp [hfactory, hproduct]

/-- Each path is resolved in the new tree as the resolutions before it have left it. -/
theorem connects_iff {nodes : Json} :
    manager.Connects env nodes node ↔
      ∃ before rest, manager.waiting = before ++ node :: rest ∧
        ∃ source after, (resolveTreeNode env.codec env.fuel (getFullPath node)).run
            (Program.afterAttempts (attemptAt env manager) before (newTree env nodes).2) =
              (.ok (some source), after) ∧
          ∃ factory, env.factoriesByInterface (interfaceName source) = some factory ∧
            factory source (after.element (source.device.getD []))
              (manager.interfaces.value node).interfaces = .handler := by
  simp only [Connects, outcomes, Program.mem_attempts_iff, attemptAt, attempt_eq_ok_true_iff]

/-- The manager after a replacement, also one that ends with an exception. -/
def replaced (manager : ClientManager) (env : ClientEnvironment) (nodes : Json) : ClientManager :=
  ((replaceTree env nodes).run manager).2

/-- Among the paths with interfaces, exactly those that connect have a handler after the
replacement. -/
def Reconnected (manager : ClientManager) (env : ClientEnvironment) (nodes : Json) : Prop :=
  ∀ node, ((manager.replaced env nodes).interfaces.value node).interfaces ≠ [] →
    (((manager.replaced env nodes).interfaces.value node).handler.isSome = true ↔
      manager.Connects env nodes node)

/-- The new tree is made without an exception, and no path that connects comes after one
whose attempt ends with an exception. -/
def Undisturbed (manager : ClientManager) (env : ClientEnvironment) (nodes : Json) : Prop :=
  ∀ node, manager.Connects env nodes node →
    (newTree env nodes).1 = .ok () ∧ (node, .ok true) ∈ Program.passed (manager.outcomes env nodes)

theorem attemptAt_cleared (env : ClientEnvironment) (tree : PathTree) :
    attemptAt env (manager.cleared tree) = attemptAt env manager := by
  apply attemptAt_congr
  intro node
  show (manager.interfaces.clearHandlers.value node).interfaces = _
  rw [InterfaceTree.value_clearHandlers]

theorem interfaces_cleared (tree : PathTree) (node : NodePath) :
    ((manager.cleared tree).interfaces.value node).interfaces =
      (manager.interfaces.value node).interfaces := by
  show (manager.interfaces.clearHandlers.value node).interfaces = _
  rw [InterfaceTree.value_clearHandlers]

/-- A node after a replacement: its interfaces are as before, and it has a handler if
its attempt was reached and succeeded. -/
theorem value_replaced (manager : ClientManager) (env : ClientEnvironment) (nodes : Json)
    (node : NodePath) :
    ((manager.replaced env nodes).interfaces.value node).interfaces =
        (manager.interfaces.value node).interfaces ∧
      (((manager.replaced env nodes).interfaces.value node).handler.isSome = true ↔
        (newTree env nodes).1 = .ok () ∧
          (node, .ok true) ∈ Program.passed (manager.outcomes env nodes)) := by
  have hcleared (tree : PathTree) :
      ((manager.cleared tree).interfaces.value node).handler.isSome = false := by
    show (manager.interfaces.clearHandlers.value node).handler.isSome = false
    rw [InterfaceTree.value_clearHandlers]
    rfl
  rw [replaced, run_replaceTree]
  rcases hnew : newTree env nodes with ⟨reason | _, tree⟩
  · refine ⟨interfaces_cleared tree node, ?_⟩
    simp [hcleared]
  · have hloop := run_forEach_connectIfNeeded env (manager.cleared tree).interfaces.nodes
      (manager.cleared tree).interfaces.root.nodup_paths (manager.cleared tree) node
    rw [hcleared, attemptAt_cleared, interfaces_cleared] at hloop
    dsimp only
    rw [connectNeededCallbacks, Program.run_bind_of_ok (Program.run_get _)]
    refine ⟨hloop.1, ?_⟩
    rw [hloop.2, outcomes, hnew]
    simp [waiting, cleared]

/-- Only nodes with interfaces are tried. -/
theorem Connects.interfaces {nodes : Json} (h : manager.Connects env nodes node) :
    (manager.interfaces.value node).interfaces ≠ [] := by
  have hwaiting : node ∈ manager.waiting := Program.fst_mem_of_mem_attempts h
  have hwants := (List.mem_filter.mp hwaiting).2
  simp only [InterfaceTree.wantsHandler, InterfaceTree.value_clearHandlers, Option.isNone_none,
    Bool.true_and, Bool.not_eq_true', List.isEmpty_eq_false_iff] at hwants
  exact hwants

/-- A replacement reconnects the paths that connect exactly when it is undisturbed. -/
theorem reconnected_iff (manager : ClientManager) (env : ClientEnvironment) (nodes : Json) :
    manager.Reconnected env nodes ↔ manager.Undisturbed env nodes := by
  constructor
  · intro hreconnected node hconnects
    have ⟨hinterfaces, hhandler⟩ := value_replaced manager env nodes node
    rw [← hhandler, hreconnected node (by rw [hinterfaces]; exact hconnects.interfaces)]
    exact hconnects
  · intro hundisturbed node _
    rw [(value_replaced manager env nodes node).2]
    constructor
    · intro ⟨_, hpassed⟩
      exact (List.takeWhile_sublist _).subset hpassed
    · exact hundisturbed node

/-! ## A path that throws before one that connects -/

/-- Nothing is a JSON text, and every interface type has a factory. -/
def plainEnvironment : ClientEnvironment where
  codec := ⟨fun _ => none, fun _ => [], fun _ => [], fun _ => []⟩
  fuel := 4
  factoriesByInterface _ := some fun _ _ _ => .handler

/-- Two interfaces, of which the one with the alias was requested first. -/
def twoInterfaces : List ClientEvent :=
  [.addInterface plainEnvironment ⟨0, "/a".toList⟩,
    .addInterface plainEnvironment ⟨1, "/d/t".toList⟩]

def dName : PathName := ⟨['d'], by decide⟩

def tName : PathName := ⟨['t'], by decide⟩

theorem isName_a : IsName ['a'] := by decide

def aName : PathName := ⟨['a'], isName_a⟩

/-- A device with one interface, and an alias whose target has an empty component. -/
def emptyComponentTree : PathTree :=
  ((PathTree.empty.set [dName] (.deviceElement "n".toList "s".toList .null)).set [dName, tName]
    .interfaceElement).set [aName] (.aliasElement "/x//y".toList ALIASPRIORITY_MANUAL)

def emptyComponentNodes : Json := pathTreeToJson emptyComponentTree false

/-- The client with both interfaces. -/
def twoPaths : ClientManager :=
  ((ClientManager.addInterface plainEnvironment ⟨1, "/d/t".toList⟩).run
    ((ClientManager.addInterface plainEnvironment ⟨0, "/a".toList⟩).run .init).2).2

theorem reachable_twoPaths : clientManager.Reachable twoPaths :=
  TransitionSystem.reachableWhile_of_run .init twoInterfaces rfl

/-- The second path connects, but the loop has ended with the first. -/
theorem not_reconnected :
    ¬ twoPaths.Reconnected plainEnvironment emptyComponentNodes := by
  intro hreconnected
  have hnone : ((twoPaths.replaced plainEnvironment emptyComponentNodes).interfaces.value
      [dName, tName]).handler = none := by decide
  have hconnects : twoPaths.Connects plainEnvironment emptyComponentNodes [dName, tName] :=
    List.Mem.tail _ (List.Mem.head _)
  have hhandler := (hreconnected [dName, tName] (by decide)).mpr hconnects
  rw [hnone] at hhandler
  cases hhandler

end ClientManager

end OSVR.Client
