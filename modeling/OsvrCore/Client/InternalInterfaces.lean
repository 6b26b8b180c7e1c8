/-
# Interfaces that handlers open

A factory may request interfaces of the context that it is called from, in the
middle of the connecting of another path. Such a request enters the interface,
connects its path if it is the first there, and so calls factories again. The
handler keeps what its factory has opened; when it goes, nobody releases that.
-/

import OsvrCore.Client.EyeTrackerRemoteFactory
import OsvrCore.Client.ManagerCalls
import OsvrCore.Math.Ensures
import Mathlib.Logic.Function.Basic

set_option autoImplicit false

namespace OSVR.Client

open Common Math

/-! ## The host name in a received tree -/

/-- `boost::algorithm::ireplace_first_copy`. -/
def ireplaceFirstCopy (search format : Str) : Str → Str
  | [] => []
  | c :: rest =>
      if ((c :: rest).take search.length).map Char.toUpper = search.map Char.toUpper then
        format ++ (c :: rest).drop search.length
      else c :: ireplaceFirstCopy search format rest

def LOCALHOST : Str := "localhost".toList

/-- The body of the loop in `replaceLocalhostServers`; reading a member creates it. -/
def replaceLocalhostServer (codec : JsonCodec) (host : Str) (node : Json) :
    Except JsonError Json := do
  let type ← node.index "type".toList
  let node ← Json.setMember "type".toList type node
  if (← type.asString codec) = (PathElement.deviceElement [] [] .null).getTypeName then
    let serverRef ← node.index "server".toList
    let node ← Json.setMember "server".toList serverRef node
    let server ← serverRef.asString codec
    if LOCALHOST <:+: server then
      Json.setMember "server".toList (.str (ireplaceFirstCopy LOCALHOST host server)) node
    else return node
  else return node

def replaceLocalhostServers (codec : JsonCodec) (host : Str) : Json → Except JsonError Json
  | .arr nodes => return .arr (← nodes.mapM (replaceLocalhostServer codec host))
  | .obj members => return .obj (← members.mapM fun (name, node) =>
      return (name, ← replaceLocalhostServer codec host node))
  | nodes => return nodes

/-! ## The calls -/

/-- Members of `OSVR_ClientContextObject` and `PureClientContext`, with the interfaces
in the options of each handler that was made. -/
structure OpeningContext where
  manager : ClientManager
  interfaces : List ClientInterface
  created : ℕ
  lastNodes : Option Json
  opened : RemoteHandler → List ClientInterface

abbrev OpeningProgram (α : Type) := Program OpeningContext ClientError α

def EYETRACKER_NAME : Str := "eyetracker".toList

/-- The paths that a factory requests for a source, with the element of the device. Of
the included factories only the one for eye trackers requests any. All members it asks
for are members of one value, so that it throws before the first request or not at all. -/
def factoryOpens (source : OriginalSource) (element : PathElement) :
    Except ClientError (List Str) :=
  if interfaceName source = EYETRACKER_NAME then
    match element with
    | .deviceElement _ _ descriptor =>
        match EyeTrackerOptions.ofDescriptor descriptor with
        | .ok opts => .ok (EyeInterface.openedPaths opts (getFullPath (source.device.getD [])))
        | .error error => .error (.tree (.json error))
    | .nullElement | .sensorElement | .interfaceElement | .aliasElement _ _ | .pluginElement
    | .stringElement _ =>
        .error (.factory "boost::bad_get: failed value get using boost::get".toList)
  else .ok []

namespace OpeningContext

def init : OpeningContext := ⟨.init, [], 0, none, fun _ => []⟩

/-- Code of the manager. -/
def onManager {α : Type} (program : ManagerProgram α) : OpeningProgram α := fun context =>
  ((program.run context.manager).1, { context with manager := (program.run context.manager).2 })

section Nested

variable (env : ClientEnvironment) (opens : Str → OpeningProgram (Option ClientInterface))

/-- The requests of a factory, one after another. -/
def openAll : List Str → OpeningProgram (List ClientInterface)
  | [] => return []
  | path :: paths => do
      let iface ← opens path
      let others ← openAll paths
      return iface.toList ++ others

/-- The handler object of a factory, with what is in its options. -/
def makeHandler (opened : List ClientInterface) : OpeningProgram RemoteHandler := do
  let handler ← onManager ClientManager.makeHandler
  Program.modify fun context => { context with
    opened := Function.update context.opened handler opened }
  return handler

/-- `invokeFactory`; the environment says what comes of the factory after its requests. -/
def invokeFactory (ifaces : List ClientInterface) (source : OriginalSource) :
    OpeningProgram (Option RemoteHandler) := do
  match env.factoriesByInterface (interfaceName source) with
  | none => return none
  | some factory =>
      let element := (← Program.get).manager.tree.element (source.device.getD [])
      let paths ← Program.ofExcept (factoryOpens source element)
      let opened ← openAll opens paths
      match factory source element ifaces with
      | .handler => return some (← makeHandler opened)
      | .null => return none
      | .exception what => Program.throw (.factory what)

/-- `m_connectCallbacksOnPath`. -/
def connectCallbacksOnPath (path : Str) : OpeningProgram Bool := do
  onManager (ClientManager.eraseHandlerForPath path)
  match ← onManager (ClientManager.onTree
      ((resolveTreeNode env.codec env.fuel path).mapError .tree)) with
  | none => return false
  | some source =>
      let ifaces ← onManager (ClientManager.getInterfacesForPath path)
      match ← invokeFactory env opens ifaces source with
      | none => return false
      | some handler =>
          onManager (ClientManager.replaceHandlerForPath path handler)
          return true

def addInterface (iface : ClientInterface) : OpeningProgram Unit := do
  let node ← onManager (ClientManager.getNodeForPath iface.path)
  let added := (← Program.get).manager.interfaces.addInterfaceAt node iface
  onManager (Program.modify fun manager => { manager with interfaces := added.1 })
  if added.2 then
    let _ ← connectCallbacksOnPath env opens iface.path

/-- `getInterface`, with the requests that it leads to. -/
def getInterfaceWith (path : Str) : OpeningProgram (Option ClientInterface) := do
  if path.isEmpty then return none
  else
    let iface : ClientInterface := ⟨(← Program.get).created, path⟩
    Program.modify fun context => { context with created := context.created + 1 }
    addInterface env opens iface
    Program.modify fun context => { context with interfaces := context.interfaces ++ [iface] }
    return some iface

end Nested

/-- `getInterface`. -/
def getInterface (env : ClientEnvironment) : ℕ → Str → OpeningProgram (Option ClientInterface)
  | 0 => fun _ => Program.abort .outOfFuel
  | fuel + 1 => getInterfaceWith env (getInterface env fuel)

def releaseInterface (iface : ClientInterface) : OpeningProgram Bool := do
  if iface ∈ (← Program.get).interfaces then
    Program.modify fun context => { context with interfaces := context.interfaces.erase iface }
    onManager (ClientManager.releaseInterface iface)
    return true
  else return false

/-- The visit of one node by `visitPathsWithoutHandlers`. -/
def connectIfNeeded (env : ClientEnvironment) (node : NodePath) : OpeningProgram PUnit := do
  if (← Program.get).manager.interfaces.wantsHandler node then
    let _ ← connectCallbacksOnPath env (getInterface env env.fuel) (getFullPath node)

/-- The names of the children in the interface tree. -/
def childNames (context : OpeningContext) : NodePath → List PathName :=
  context.manager.interfaces.root.childNames

/-- `m_connectNeededCallbacks`: the tree is walked through while requests add to it. -/
def connectNeededCallbacks (env : ClientEnvironment) : OpeningProgram PUnit :=
  Program.walk childNames (connectIfNeeded env) env.fuel []

/-- `PathTreeOwner::replaceTree`, with the manager as its observer before and after. -/
def replaceTree (env : ClientEnvironment) (nodes : Json) : OpeningProgram PUnit := do
  onManager (Program.modify fun manager =>
    { manager with interfaces := manager.interfaces.clearHandlers, tree := .empty })
  onManager (ClientManager.onTree ((jsonToPathTree env.codec nodes).mapError .tree))
  connectNeededCallbacks env

/-- The handler for replacement trees, behind `DeduplicatingFunctionWrapper`. -/
def handleReplaceTree (host : Str) (env : ClientEnvironment) (nodes : Json) :
    OpeningProgram PUnit := do
  if (← Program.get).lastNodes = some nodes then return ⟨⟩
  else
    Program.modify fun context => { context with lastNodes := some nodes }
    let nodes ← (Program.ofExcept (replaceLocalhostServers env.codec host nodes)).mapError
      fun error => .tree (.json error)
    replaceTree env nodes

end OpeningContext

/-! ## What a call may come to connect -/

/-- The path trees that resolutions leave of a tree, however they end. -/
inductive Resolutions (env : ClientEnvironment) (tree : PathTree) : PathTree → Prop
  | none : Resolutions env tree tree
  | next {reached : PathTree} (prior : Resolutions env tree reached) (path : Str) :
      Resolutions env tree ((resolveTreeNode env.codec env.fuel path).run reached).2

theorem Resolutions.trans {env : ClientEnvironment} {first second third : PathTree}
    (h : Resolutions env first second) (h' : Resolutions env second third) :
    Resolutions env first third := by
  induction h' with
  | none => exact h
  | next _ path ih => exact .next ih path

/-- Connecting a path throws nothing: it is resolved without an exception, and so is its
factory called. -/
structure Quiet (env : ClientEnvironment) (tree : PathTree) (path : Str) : Prop where
  resolved : ∀ {reached reason}, Resolutions env tree reached →
    ((resolveTreeNode env.codec env.fuel path).run reached).1 = .error reason → reason = .outOfFuel
  produced : ∀ {reached source after factory}, Resolutions env tree reached →
    (resolveTreeNode env.codec env.fuel path).run reached = (.ok (some source), after) →
    env.factoriesByInterface (interfaceName source) = some factory →
      (∀ error, factoryOpens source (after.element (source.device.getD [])) ≠ .error error) ∧
        ∀ ifaces what, factory source (after.element (source.device.getD [])) ifaces ≠
          .exception what

/-- The factory for a path requests paths of the set only, and when it has requested
something it makes a handler. -/
def Fits (env : ClientEnvironment) (tree : PathTree) (paths : Str → Prop) (path : Str) : Prop :=
  ∀ reached source after factory opened, Resolutions env tree reached →
    (resolveTreeNode env.codec env.fuel path).run reached = (.ok (some source), after) →
    env.factoriesByInterface (interfaceName source) = some factory →
    factoryOpens source (after.element (source.device.getD [])) = .ok opened →
      (∀ path ∈ opened, paths path ∧ ∃ node, locateAbsolute path = ⟨node, none⟩) ∧
        (opened = [] ∨
          ∀ ifaces, factory source (after.element (source.device.getD [])) ifaces = .handler)

/-- Paths that are connected without an exception, closed under what factories request
for them. -/
structure Closed (env : ClientEnvironment) (tree : PathTree) (paths : Str → Prop) : Prop where
  full : ∀ {path node}, paths path → locateAbsolute path = ⟨node, none⟩ → paths (getFullPath node)
  quiet : ∀ {path}, paths path → Quiet env tree path
  fits : ∀ {path}, paths path → Fits env tree paths path

/-! ## Entering an interface -/

namespace ClientManager

variable {manager : ClientManager} {node query : NodePath} {iface : ClientInterface}

theorem value_entered_of_fresh (hnew : iface ∉ (manager.interfaces.value node).interfaces) :
    (manager.entered node iface).interfaces.value query =
      if query = node then
        { manager.interfaces.value node with
          interfaces := (manager.interfaces.value node).interfaces ++ [iface] }
      else manager.interfaces.value query := by
  rw [entered, InterfaceTree.addInterfaceAt, InterfaceTree.value_touch, if_neg hnew,
    InterfaceTree.value_setValue, InterfaceTree.value_touch]

theorem handler_entered : ((manager.entered node iface).interfaces.value query).handler =
    (manager.interfaces.value query).handler := by
  unfold entered InterfaceTree.addInterfaceAt
  dsimp only
  split
  · rw [InterfaceTree.value_touch]
  · rw [InterfaceTree.value_setValue, InterfaceTree.value_touch, InterfaceTree.value_touch]
    split
    next hquery => rw [hquery]
    next => rfl

theorem Sound.entered (h : manager.Sound) (node : NodePath) (iface : ClientInterface) :
    (manager.entered node iface).Sound :=
  ⟨(h.linked.touch node).addInterfaceAt node iface, by rw [handlers_entered]; exact h.made⟩

end ClientManager

/-! ## Owners -/

/-- An interface is registered in the interface tree. -/
def InterfaceTree.Holds (tree : InterfaceTree) (iface : ClientInterface) : Prop :=
  ∃ node, iface ∈ (tree.value node).interfaces

namespace OpeningContext

/-- What the handlers that are alive have opened. -/
def alive (context : OpeningContext) : List ClientInterface :=
  context.manager.interfaces.handlers.flatMap context.opened

/-- Every interface has one owner: it is in `owned`, or a handler that is alive has
opened it, or it has been entered in the interface tree and is not listed yet. -/
structure Owned (context : OpeningContext) (owned entering : List ClientInterface) : Prop where
  sound : context.manager.Sound
  placed : ∀ {node iface}, iface ∈ (context.manager.interfaces.value node).interfaces →
    locateAbsolute iface.path = ⟨node, none⟩
  listed : context.interfaces.Perm (owned ++ context.alive)
  entered : ∀ iface, context.manager.interfaces.Holds iface ↔
    iface ∈ owned ++ context.alive ++ entering
  single : (owned ++ context.alive ++ entering).Nodup
  older : ∀ iface ∈ owned ++ context.alive ++ entering, iface.id < context.created

/-- What a call does besides what it is for: it resolves paths, and only the paths of
the set get interfaces. -/
structure Grown (env : ClientEnvironment) (paths : Str → Prop) (before after : OpeningContext) :
    Prop where
  resolved : Resolutions env before.manager.tree after.manager.tree
  occupied : ∀ {node}, (before.manager.interfaces.value node).interfaces ≠ [] →
    (after.manager.interfaces.value node).interfaces ≠ []
  covered : ∀ {node}, (after.manager.interfaces.value node).interfaces ≠ [] →
    (before.manager.interfaces.value node).interfaces ≠ [] ∨ paths (getFullPath node)

/-- The nodes that have interfaces keep their handlers, or stay without. -/
def Spares (before after : OpeningContext) : Prop :=
  ∀ node, (before.manager.interfaces.value node).interfaces ≠ [] →
    (after.manager.interfaces.value node).handler = (before.manager.interfaces.value node).handler

namespace Grown

variable {env : ClientEnvironment} {paths : Str → Prop} {first second third : OpeningContext}

theorem refl (context : OpeningContext) : Grown env paths context context :=
  ⟨.none, id, .inl⟩

theorem trans (h : Grown env paths first second) (h' : Grown env paths second third) :
    Grown env paths first third where
  resolved := h.resolved.trans h'.resolved
  occupied hnode := h'.occupied (h.occupied hnode)
  covered hnode := (h'.covered hnode).elim h.covered .inr

/-- Nothing but the handlers and the path tree has changed in the manager. -/
theorem of_interfaces (hresolved : Resolutions env first.manager.tree second.manager.tree)
    (hsame : ∀ node, (second.manager.interfaces.value node).interfaces =
      (first.manager.interfaces.value node).interfaces) : Grown env paths first second where
  resolved := hresolved
  occupied hnode := by rwa [hsame]
  covered hnode := by
    rw [hsame] at hnode
    exact .inl hnode

end Grown

theorem Spares.trans {env : ClientEnvironment} {paths : Str → Prop}
    {first second third : OpeningContext} (hgrown : Grown env paths first second)
    (h : Spares first second) (h' : Spares second third) : Spares first third :=
  fun node hnode => (h' node (hgrown.occupied hnode)).trans (h node hnode)

namespace Owned

variable {context : OpeningContext} {owned entering : List ClientInterface} {node : NodePath}
  {iface : ClientInterface}

/-- Owners are a matter of the values and of the container. -/
theorem congr (h : Owned context owned entering) {manager : ClientManager}
    (hvalue : ∀ node, manager.interfaces.value node = context.manager.interfaces.value node)
    (hhandlers : manager.interfaces.handlers = context.manager.interfaces.handlers)
    (hmade : manager.made = context.manager.made) :
    Owned { context with manager } owned entering := by
  have halive : OpeningContext.alive { context with manager } = context.alive :=
    congrArg (List.flatMap context.opened) hhandlers
  constructor
  case sound =>
    exact ⟨h.sound.linked.congr hvalue hhandlers, by rw [hhandlers, hmade]; exact h.sound.made⟩
  case placed =>
    intro node iface hmem
    rw [hvalue] at hmem
    exact h.placed hmem
  case listed => rw [halive]; exact h.listed
  case entered =>
    intro iface
    simp only [halive, ← h.entered, InterfaceTree.Holds, hvalue]
  case single => rw [halive]; exact h.single
  case older => rw [halive]; exact h.older

/-- A node without interfaces has no handler. -/
theorem handler_of_empty (h : Owned context owned entering)
    (hempty : (context.manager.interfaces.value node).interfaces = []) :
    (context.manager.interfaces.value node).handler = none := by
  by_contra hsome
  exact h.sound.linked.occupied node (Option.isSome_iff_ne_none.mpr hsome) hempty

/-- The next interface is entered at the node of its path. -/
theorem enter (h : Owned context owned entering) {path : Str}
    (hpath : locateAbsolute path = ⟨node, none⟩) :
    Owned { context with
      created := context.created + 1
      manager := context.manager.entered node ⟨context.created, path⟩ } owned
        (⟨context.created, path⟩ :: entering) := by
  let iface : ClientInterface := ⟨context.created, path⟩
  have hfresh : iface ∉ owned ++ context.alive ++ entering :=
    fun hmem => Nat.lt_irrefl _ (h.older iface hmem)
  have hnew : iface ∉ (context.manager.interfaces.value node).interfaces :=
    fun hmem => hfresh ((h.entered iface).mp ⟨node, hmem⟩)
  have hvalue (query : NodePath) : (context.manager.entered node iface).interfaces.value query =
      if query = node then
        { context.manager.interfaces.value node with
          interfaces := (context.manager.interfaces.value node).interfaces ++ [iface] }
      else context.manager.interfaces.value query := ClientManager.value_entered_of_fresh hnew
  have halive : OpeningContext.alive { context with
      created := context.created + 1, manager := context.manager.entered node iface } =
        context.alive :=
    congrArg (List.flatMap context.opened) ClientManager.handlers_entered
  have hmove : (owned ++ context.alive ++ iface :: entering).Perm
      (iface :: (owned ++ context.alive ++ entering)) := List.perm_middle
  constructor
  case sound => exact h.sound.entered node iface
  case placed =>
    intro query other hmem
    rw [hvalue] at hmem
    split at hmem
    next hquery =>
      rcases List.mem_append.mp hmem with hold | hother
      · rw [hquery]
        exact h.placed hold
      · rw [List.mem_singleton.mp hother, hquery]
        exact hpath
    next => exact h.placed hmem
  case listed => rw [halive]; exact h.listed
  case entered =>
    intro other
    rw [halive, hmove.mem_iff, List.mem_cons, ← h.entered]
    apply Iff.intro
    · rintro ⟨query, hmem⟩
      rw [hvalue] at hmem
      split at hmem
      · rcases List.mem_append.mp hmem with hold | hother
        · exact .inr ⟨node, hold⟩
        · exact .inl (List.mem_singleton.mp hother)
      · exact .inr ⟨query, hmem⟩
    · rintro (rfl | ⟨query, hmem⟩)
      · exact ⟨node, by rw [hvalue, if_pos rfl]; simp⟩
      · refine ⟨query, ?_⟩
        rw [hvalue]
        split
        next hquery =>
          rw [hquery] at hmem
          exact List.mem_append_left _ hmem
        next => exact hmem
  case single =>
    rw [halive, hmove.nodup_iff]
    exact List.nodup_cons.mpr ⟨hfresh, h.single⟩
  case older =>
    intro other hmem
    rw [halive, hmove.mem_iff, List.mem_cons] at hmem
    rcases hmem with rfl | hmem
    · exact Nat.lt_succ_self _
    · exact Nat.lt_succ_of_lt (h.older other hmem)

/-- An interface that has been entered is put on the list of the context. -/
theorem list (h : Owned context owned (iface :: entering)) :
    Owned { context with interfaces := context.interfaces ++ [iface] } (owned ++ [iface])
      entering := by
  have hmove : (owned ++ [iface] ++ context.alive ++ entering).Perm
      (owned ++ context.alive ++ iface :: entering) := by
    rw [List.perm_iff_count]
    intro other
    simp only [List.count_append, List.count_cons, List.count_nil]
    omega
  constructor
  case sound => exact h.sound
  case placed => exact h.placed
  case listed =>
    refine (h.listed.append_right [iface]).trans ?_
    rw [List.append_assoc, List.append_assoc]
    exact List.perm_append_comm.append_left owned
  case entered => exact fun other => (h.entered other).trans hmove.mem_iff.symm
  case single => exact hmove.nodup_iff.mpr h.single
  case older => exact fun other hmem => h.older other (hmove.mem_iff.mp hmem)

/-- The next handler is made, with what is in its options. -/
theorem makeHandler (h : Owned context owned entering) (opened : List ClientInterface) :
    Owned { context with
      manager := { context.manager with made := context.manager.made + 1 }
      opened := Function.update context.opened context.manager.made opened } owned entering := by
  have halive : OpeningContext.alive { context with
      manager := { context.manager with made := context.manager.made + 1 }
      opened := Function.update context.opened context.manager.made opened } = context.alive := by
    apply List.flatMap_congr
    intro handler hmem
    exact Function.update_of_ne (h.sound.made handler hmem).ne opened context.opened
  constructor
  case sound =>
    exact ⟨h.sound.linked, fun handler hmem => Nat.lt_succ_of_lt (h.sound.made handler hmem)⟩
  case placed => exact h.placed
  case listed => rw [halive]; exact h.listed
  case entered => rw [halive]; exact h.entered
  case single => rw [halive]; exact h.single
  case older => rw [halive]; exact h.older

/-- A handler is set at a node without one, and what it has opened is owned by it. -/
theorem setHandler {handler : RemoteHandler}
    (h : Owned context (owned ++ context.opened handler) entering)
    (hoccupied : (context.manager.interfaces.value node).interfaces ≠ [])
    (hhandler : (context.manager.interfaces.value node).handler = none)
    (hnew : handler ∉ context.manager.interfaces.handlers)
    (hmade : handler < context.manager.made) :
    Owned { context with manager := { context.manager with
      interfaces := (context.manager.interfaces.touch node).setHandler node handler } } owned
        entering := by
  have hvalue (query : NodePath) :
      (((context.manager.interfaces.touch node).setHandler node handler).value query).interfaces =
        (context.manager.interfaces.value query).interfaces := by
    rw [InterfaceTree.value_setHandler, InterfaceTree.value_touch, InterfaceTree.value_touch]
    split
    next hquery => rw [hquery]
    next => rfl
  have hhandlers : ((context.manager.interfaces.touch node).setHandler node handler).handlers =
      context.manager.interfaces.handlers ++ [handler] := by
    rw [(h.sound.linked.touch node).handlers_setHandler_of_not_mem node hnew,
      InterfaceTree.handlers_removeHandler, InterfaceTree.value_touch, hhandler]
    rfl
  have halive : OpeningContext.alive { context with manager := { context.manager with
      interfaces := (context.manager.interfaces.touch node).setHandler node handler } } =
        context.alive ++ context.opened handler := by
    rw [alive, hhandlers, List.flatMap_append, List.flatMap_singleton]
    rfl
  have hmove : (owned ++ (context.alive ++ context.opened handler)).Perm
      (owned ++ context.opened handler ++ context.alive) := by
    rw [List.append_assoc]
    exact List.perm_append_comm.append_left owned
  constructor
  case sound =>
    refine ⟨(h.sound.linked.touch node).setHandler hnew (by rwa [InterfaceTree.value_touch]), ?_⟩
    intro other hmem
    rw [hhandlers, List.mem_append, List.mem_singleton] at hmem
    rcases hmem with hmem | rfl
    · exact h.sound.made other hmem
    · exact hmade
  case placed =>
    intro query iface hmem
    rw [hvalue] at hmem
    exact h.placed hmem
  case listed => rw [halive]; exact h.listed.trans hmove.symm
  case entered =>
    intro iface
    rw [halive, (hmove.append_right entering).mem_iff, ← h.entered]
    simp only [InterfaceTree.Holds, hvalue]
  case single => rw [halive, (hmove.append_right entering).nodup_iff]; exact h.single
  case older =>
    intro iface hmem
    rw [halive, (hmove.append_right entering).mem_iff] at hmem
    exact h.older iface hmem

end Owned

/-! ## What the calls do -/

section Calls

variable {env : ClientEnvironment} {tree : PathTree} {paths : Str → Prop}
  {opens : Str → OpeningProgram (Option ClientInterface)} {context : OpeningContext}
  {owned entering : List ClientInterface} {node : NodePath} {path : Str}

theorem run_onManager {α : Type} (program : ManagerProgram α) :
    (onManager program).run context =
      ((program.run context.manager).1,
        { context with manager := (program.run context.manager).2 }) := rfl

theorem run_onManager_of_eq {α : Type} {program : ManagerProgram α}
    {result : Except (Abort ClientError) α} {manager : ClientManager}
    (hrun : program.run context.manager = (result, manager)) :
    (onManager program).run context = (result, { context with manager }) := by
  rw [run_onManager, hrun]

/-- Code of the path tree, with its exceptions. -/
theorem run_onTree_of_error {α : Type} {program : TreeProgram α} {reason : Abort TreeError}
    {reached : PathTree} (hrun : program.run context.manager.tree = (.error reason, reached)) :
    (onManager (ClientManager.onTree (program.mapError ClientError.tree))).run context =
      (.error (reason.map .tree),
        { context with manager := { context.manager with tree := reached } }) :=
  run_onManager_of_eq (ClientManager.run_onTree_of_eq (Program.run_mapError_of_error hrun))

theorem run_onTree_of_ok {α : Type} {program : TreeProgram α} {value : α} {reached : PathTree}
    (hrun : program.run context.manager.tree = (.ok value, reached)) :
    (onManager (ClientManager.onTree (program.mapError ClientError.tree))).run context =
      (.ok value, { context with manager := { context.manager with tree := reached } }) :=
  run_onManager_of_eq (ClientManager.run_onTree_of_eq (Program.run_mapError_of_ok hrun))

/-- Requests for these paths, in the trees that resolutions leave, give an interface to
whoever asks, and spare what is there. -/
def Serves (env : ClientEnvironment) (tree : PathTree) (paths : Str → Prop)
    (opens : Str → OpeningProgram (Option ClientInterface)) : Prop :=
  ∀ {path node context owned entering}, paths path → locateAbsolute path = ⟨node, none⟩ →
    Resolutions env tree context.manager.tree → Owned context owned entering →
    Program.Ensures (opens path) context (fun result after =>
      Owned after (owned ++ result.toList) entering ∧ Grown env paths context after ∧
        Spares context after) fun _ => False

/-- The requests of a factory, one after another. -/
theorem ensures_openAll (hserves : Serves env tree paths opens) {list : List Str}
    (hlist : ∀ path ∈ list, paths path ∧ ∃ node, locateAbsolute path = ⟨node, none⟩)
    (hresolved : Resolutions env tree context.manager.tree) (h : Owned context owned entering) :
    Program.Ensures (openAll opens list) context (fun opened after =>
      Owned after (owned ++ opened) entering ∧ Grown env paths context after ∧
        Spares context after) fun _ => False := by
  induction list generalizing context owned with
  | nil => exact .pure ⟨by rwa [List.append_nil], .refl context, fun _ _ => rfl⟩
  | cons path list ih =>
      rw [List.forall_mem_cons] at hlist
      obtain ⟨⟨hpath, node, hnode⟩, hrest⟩ := hlist
      apply (hserves hpath hnode hresolved h).bind
      rintro result middle ⟨howned, hgrown, hspares⟩
      apply (ih hrest (hresolved.trans hgrown.resolved) howned).bind
      rintro others after ⟨howned', hgrown', hspares'⟩
      rw [List.append_assoc] at howned'
      exact .pure ⟨howned', hgrown.trans hgrown', hspares.trans hgrown hspares'⟩

/-- What a factory has opened is for the handler that it has made. -/
def Produced (owned entering : List ClientInterface) (after : OpeningContext) :
    Option RemoteHandler → Prop
  | none => Owned after owned entering
  | some handler => Owned after (owned ++ after.opened handler) entering ∧
      handler ∉ after.manager.interfaces.handlers ∧ handler < after.manager.made

theorem ensures_makeHandler {before : OpeningContext} {opened : List ClientInterface}
    (h : Owned context (owned ++ opened) entering) (hgrown : Grown env paths before context)
    (hspares : Spares before context) (ended : OpeningContext → Prop) :
    Program.Ensures (makeHandler opened >>= fun handler => pure (some handler)) context
      (fun result after => Grown env paths before after ∧ Spares before after ∧
        Produced owned entering after result) ended := by
  have hmake : (makeHandler opened).run context = (.ok context.manager.made, { context with
      manager := { context.manager with made := context.manager.made + 1 }
      opened := Function.update context.opened context.manager.made opened }) := rfl
  have howned : Owned { context with
      manager := { context.manager with made := context.manager.made + 1 }
      opened := Function.update context.opened context.manager.made opened }
      (owned ++ Function.update context.opened context.manager.made opened context.manager.made)
      entering := by
    rw [Function.update_self]
    exact h.makeHandler opened
  apply Program.Ensures.bind_of_run hmake
  refine .pure ⟨⟨hgrown.resolved, hgrown.occupied, hgrown.covered⟩, hspares, howned, ?_, ?_⟩
  · exact fun hmem => Nat.lt_irrefl _ (h.sound.made _ hmem)
  · exact Nat.lt_succ_self _

/-- A factory for a source that a path is resolved to. -/
theorem ensures_invokeFactory (hserves : Serves env tree paths opens)
    (hfits : Fits env tree paths path) {reached : PathTree} {source : OriginalSource}
    (hreached : Resolutions env tree reached)
    (hrun : (resolveTreeNode env.codec env.fuel path).run reached =
      (.ok (some source), context.manager.tree))
    (hresolved : Resolutions env tree context.manager.tree) (h : Owned context owned entering)
    (ifaces : List ClientInterface) :
    Program.Ensures (invokeFactory env opens ifaces source) context (fun result after =>
        Grown env paths context after ∧ Spares context after ∧ Produced owned entering after result)
      fun after => ¬ Quiet env tree path ∧ Owned after owned entering := by
  rw [invokeFactory]
  cases hfactory : env.factoriesByInterface (interfaceName source) with
  | none => exact .pure ⟨.refl context, fun _ _ => rfl, h⟩
  | some factory =>
      apply Program.Ensures.bind_of_run (Program.run_get context)
      dsimp only
      cases hopens : factoryOpens source (context.manager.tree.element (source.device.getD [])) with
      | error error =>
          apply Program.Ensures.bind_of_error (Program.run_ofExcept_error context error)
          exact fun _ => ⟨fun hquiet => (hquiet.produced hreached hrun hfactory).1 error hopens, h⟩
      | ok opened =>
          apply Program.Ensures.bind_of_run (Program.run_ofExcept_ok context opened)
          obtain ⟨hlocated, rfl | hhandler⟩ :=
            hfits reached source _ factory opened hreached hrun hfactory hopens
          · have hnothing : (openAll opens []).run context = (.ok [], context) := rfl
            apply Program.Ensures.bind_of_run hnothing
            cases hproduct : factory source
              (context.manager.tree.element (source.device.getD [])) ifaces with
            | handler =>
                exact ensures_makeHandler (by rwa [List.append_nil]) (.refl context)
                  (fun _ _ => rfl) _
            | null => exact .pure ⟨.refl context, fun _ _ => rfl, h⟩
            | exception what =>
                apply Program.Ensures.of_error (Program.run_throw context _)
                exact fun _ => ⟨fun hquiet =>
                  (hquiet.produced hreached hrun hfactory).2 ifaces what hproduct, h⟩
          · refine ((ensures_openAll hserves hlocated hresolved h).mono (fun _ _ => id)
              fun _ => False.elim).bind ?_
            rintro interfaces after ⟨howned, hgrown, hspares⟩
            rw [hhandler ifaces]
            exact ensures_makeHandler howned hgrown hspares _

/-- Connecting a path of a node that has interfaces and no handler. -/
theorem ensures_connectCallbacksOnPath (hserves : Serves env tree paths opens)
    (hfits : Fits env tree paths path) (hnode : locateAbsolute path = ⟨node, none⟩)
    (hresolved : Resolutions env tree context.manager.tree) (h : Owned context owned entering)
    (hoccupied : (context.manager.interfaces.value node).interfaces ≠ [])
    (hhandler : (context.manager.interfaces.value node).handler = none) :
    Program.Ensures (connectCallbacksOnPath env opens path) context (fun _ after =>
        Owned after owned entering ∧ Grown env paths context after ∧
          ∀ other, other ≠ node → (context.manager.interfaces.value other).interfaces ≠ [] →
            (after.manager.interfaces.value other).handler =
              (context.manager.interfaces.value other).handler)
      fun after => ¬ Quiet env tree path ∧ Owned after owned entering := by
  let cleared : InterfaceTree := (context.manager.interfaces.touch node).removeHandler node
  have hvalue (query : NodePath) :
      cleared.value query = context.manager.interfaces.value query := by
    rw [InterfaceTree.value_removeHandler, InterfaceTree.value_touch, InterfaceTree.value_touch]
    split
    next hquery => rw [hquery, ← hhandler]
    next => rfl
  have hcleared (reached : PathTree) : Owned { context with
      manager := ⟨reached, cleared, context.manager.made⟩ } owned entering := by
    apply h.congr hvalue
    · simp [cleared, InterfaceTree.handlers_removeHandler, hhandler, HandlerContainer.remove]
    · rfl
  apply Program.Ensures.bind_of_run
    (run_onManager_of_eq (ClientManager.run_eraseHandlerForPath hnode))
  rcases hrun : (resolveTreeNode env.codec env.fuel path).run context.manager.tree with
    ⟨reason | source, reached⟩
  · have htree : (onManager (ClientManager.onTree
        ((resolveTreeNode env.codec env.fuel path).mapError ClientError.tree))).run
          { context with manager := ⟨context.manager.tree, cleared, context.manager.made⟩ } =
        (.error (reason.map .tree),
          { context with manager := ⟨reached, cleared, context.manager.made⟩ }) :=
      run_onTree_of_error hrun
    apply Program.Ensures.bind_of_error htree
    intro hreason
    refine ⟨fun hquiet => hreason ?_, hcleared reached⟩
    rw [hquiet.resolved hresolved (congrArg Prod.fst hrun)]
    rfl
  · have hnext : Resolutions env context.manager.tree reached := by
      have hstep := Resolutions.next (@Resolutions.none env context.manager.tree) path
      rwa [hrun] at hstep
    have htree : (onManager (ClientManager.onTree
        ((resolveTreeNode env.codec env.fuel path).mapError ClientError.tree))).run
          { context with manager := ⟨context.manager.tree, cleared, context.manager.made⟩ } =
        (.ok source, { context with manager := ⟨reached, cleared, context.manager.made⟩ }) :=
      run_onTree_of_ok hrun
    apply Program.Ensures.bind_of_run htree
    cases source with
    | none =>
        refine .pure ⟨hcleared reached, .of_interfaces hnext fun query => ?_, fun query _ _ => ?_⟩
        · exact congrArg InterfaceTreeValue.interfaces (hvalue query)
        · exact congrArg InterfaceTreeValue.handler (hvalue query)
    | some source =>
        have hifaces : (ClientManager.getInterfacesForPath path).run
            ⟨reached, cleared, context.manager.made⟩ =
              (.ok (cleared.value node).interfaces, ⟨reached, cleared, context.manager.made⟩) := by
          rw [ClientManager.getInterfacesForPath,
            Program.run_bind_of_ok (ClientManager.run_getNodeForPath hnode)]
          simp [cleared, Program.run_bind]
        have hread : (onManager (ClientManager.getInterfacesForPath path)).run
            { context with manager := ⟨reached, cleared, context.manager.made⟩ } =
              (.ok (cleared.value node).interfaces,
                { context with manager := ⟨reached, cleared, context.manager.made⟩ }) :=
          run_onManager_of_eq hifaces
        apply Program.Ensures.bind_of_run hread
        apply (ensures_invokeFactory hserves hfits hresolved hrun (hresolved.trans hnext)
          (hcleared reached) _).bind
        rintro result after ⟨hgrown, hspares, hresult⟩
        have hgrown' : Grown env paths context after := by
          have hfirst : Grown env paths context
              { context with manager := ⟨reached, cleared, context.manager.made⟩ } :=
            .of_interfaces hnext fun query => congrArg InterfaceTreeValue.interfaces (hvalue query)
          exact hfirst.trans hgrown
        have hspares' (query : NodePath)
            (hquery : (context.manager.interfaces.value query).interfaces ≠ []) :
            (after.manager.interfaces.value query).handler =
              (context.manager.interfaces.value query).handler := by
          rw [← hvalue] at hquery
          exact (hspares query hquery).trans (congrArg InterfaceTreeValue.handler (hvalue query))
        cases result with
        | none => exact .pure ⟨hresult, hgrown', fun query _ hquery => hspares' query hquery⟩
        | some handler =>
            obtain ⟨howned, hnew, hmade⟩ := hresult
            have hset := howned.setHandler (hgrown'.occupied hoccupied)
              ((hspares' node hoccupied).trans hhandler) hnew hmade
            apply Program.Ensures.bind_of_run
              (run_onManager_of_eq (ClientManager.run_replaceHandlerForPath hnode))
            refine .pure ⟨hset, hgrown'.trans (.of_interfaces .none fun query => ?_),
              fun query hne hquery => ?_⟩
            · show (((after.manager.interfaces.touch node).setHandler node handler).value
                query).interfaces = _
              rw [InterfaceTree.value_setHandler, InterfaceTree.value_touch,
                InterfaceTree.value_touch]
              split
              next hquery => rw [hquery]
              next => rfl
            · rw [← hspares' query hquery]
              show (((after.manager.interfaces.touch node).setHandler node handler).value
                query).handler = _
              rw [InterfaceTree.value_setHandler, if_neg hne, InterfaceTree.value_touch]

/-- Getting an interface for a path that leads to a node. Its path is connected only if
the interface is the first there. -/
theorem ensures_getInterfaceWith (hclosed : Closed env tree paths)
    (hserves : Serves env tree paths opens) (hnode : locateAbsolute path = ⟨node, none⟩)
    (hpath : (context.manager.interfaces.value node).interfaces = [] → paths path)
    (hresolved : Resolutions env tree context.manager.tree) (h : Owned context owned entering) :
    Program.Ensures (getInterfaceWith env opens path) context (fun result after =>
      Owned after (owned ++ result.toList) entering ∧ Grown env paths context after ∧
        Spares context after) fun _ => False := by
  rw [getInterfaceWith]
  split
  · exact .pure ⟨by rwa [Option.toList_none, List.append_nil], .refl context, fun _ _ => rfl⟩
  · let iface : ClientInterface := ⟨context.created, path⟩
    let entered : OpeningContext := { context with
      created := context.created + 1, manager := context.manager.entered node iface }
    have hentered : Owned entered owned (iface :: entering) := h.enter hnode
    have hfirst : ((context.manager.interfaces.touch node).addInterfaceAt node iface).2 =
        (context.manager.interfaces.value node).interfaces.isEmpty := by
      rw [InterfaceTree.addInterfaceAt, InterfaceTree.value_touch]
    have hother (query : NodePath) (hquery : query ≠ node) :
        entered.manager.interfaces.value query = context.manager.interfaces.value query :=
      ClientManager.value_entered_of_ne hquery
    have hhere : (entered.manager.interfaces.value node).interfaces ≠ [] :=
      InterfaceTree.interfaces_addInterfaceAt
    have hgrown : Grown env paths context entered := by
      constructor
      case resolved => exact .none
      case occupied =>
        intro query hquery
        by_cases hsame : query = node
        · rwa [hsame]
        · rwa [hother query hsame]
      case covered =>
        intro query hquery
        by_cases hsame : query = node
        · by_cases hempty : (context.manager.interfaces.value node).interfaces = []
          · exact .inr (hsame ▸ hclosed.full (hpath hempty) hnode)
          · exact .inl (hsame ▸ hempty)
        · exact .inl (by rwa [hother query hsame] at hquery)
    apply Program.Ensures.bind_of_run (Program.run_get context)
    apply Program.Ensures.bind_of_run (Program.run_modify _ _)
    have hadd : Program.Ensures (addInterface env opens iface)
        { context with created := context.created + 1 } (fun _ after =>
          Owned after owned (iface :: entering) ∧ Grown env paths context after ∧
            Spares context after) fun _ => False := by
      apply Program.Ensures.bind_of_run (run_onManager_of_eq
        (ClientManager.run_getNodeForPath hnode))
      apply Program.Ensures.bind_of_run (Program.run_get _)
      apply Program.Ensures.bind_of_run (run_onManager_of_eq (Program.run_modify _ _))
      simp only [hfirst]
      cases hinterfaces : (context.manager.interfaces.value node).interfaces with
      | cons first rest =>
          exact .pure ⟨hentered, hgrown, fun query _ => ClientManager.handler_entered⟩
      | nil =>
          have hhandler : (entered.manager.interfaces.value node).handler = none :=
            ClientManager.handler_entered.trans (h.handler_of_empty hinterfaces)
          have hresolved' : Resolutions env tree entered.manager.tree := hresolved
          show Program.Ensures (connectCallbacksOnPath env opens path >>= fun _ =>
              pure ()) entered _ _
          have hconnect := ensures_connectCallbacksOnPath hserves
            (hclosed.fits (hpath hinterfaces)) hnode hresolved' hentered hhere hhandler
          refine (hconnect.mono (fun _ _ => id) fun _ hended =>
            hended.1 (hclosed.quiet (hpath hinterfaces))).bind ?_
          rintro _ after ⟨howned, hgrown', hspares⟩
          refine .pure ⟨howned, hgrown.trans hgrown', fun query hquery => ?_⟩
          have hne : query ≠ node := fun hsame => hquery (hsame ▸ hinterfaces)
          exact (hspares query hne (hgrown.occupied hquery)).trans ClientManager.handler_entered
    apply hadd.bind
    rintro _ after ⟨howned, hgrown', hspares⟩
    apply Program.Ensures.bind_of_run (Program.run_modify _ _)
    exact .pure ⟨howned.list, ⟨hgrown'.resolved, hgrown'.occupied, hgrown'.covered⟩, hspares⟩

end Calls

end OpeningContext

/-! ## Relations that connecting leads to -/

namespace OpeningContext

/-- The single steps of connecting a path lead to related contexts. -/
structure StepsRelate (env : ClientEnvironment) (rel : OpeningContext → OpeningContext → Prop) :
    Prop where
  refl : ∀ context, rel context context
  trans : ∀ ⦃first second third⦄, rel first second → rel second third → rel first third
  erase : ∀ path, Program.Relates rel (onManager (ClientManager.eraseHandlerForPath path))
  resolve : ∀ path, Program.Relates rel (onManager (ClientManager.onTree
    ((resolveTreeNode env.codec env.fuel path).mapError .tree)))
  collect : ∀ path, Program.Relates rel (onManager (ClientManager.getInterfacesForPath path))
  make : ∀ opened, Program.Relates rel (makeHandler opened)
  replace : ∀ path handler,
    Program.Relates rel (onManager (ClientManager.replaceHandlerForPath path handler))

namespace StepsRelate

variable {env : ClientEnvironment} {rel : OpeningContext → OpeningContext → Prop}
  {opens : Str → OpeningProgram (Option ClientInterface)}

theorem openAll (h : StepsRelate env rel) (hopens : ∀ path, Program.Relates rel (opens path))
    (list : List Str) : Program.Relates rel (OpeningContext.openAll opens list) := by
  induction list with
  | nil => exact Program.relates_pure h.refl _
  | cons path list ih =>
      apply Program.Relates.bind h.trans (hopens path)
      intro iface
      apply Program.Relates.bind h.trans ih
      exact fun others => Program.relates_pure h.refl _

theorem invokeFactory (h : StepsRelate env rel) (hopens : ∀ path, Program.Relates rel (opens path))
    (ifaces : List ClientInterface) (source : OriginalSource) :
    Program.Relates rel (OpeningContext.invokeFactory env opens ifaces source) := by
  rw [OpeningContext.invokeFactory]
  cases env.factoriesByInterface (interfaceName source) with
  | none => exact Program.relates_pure h.refl _
  | some factory =>
      apply Program.Relates.bind h.trans (Program.relates_get h.refl)
      intro context
      apply Program.Relates.bind h.trans (Program.relates_ofExcept h.refl _)
      intro list
      apply Program.Relates.bind h.trans (h.openAll hopens list)
      intro opened
      split
      · apply Program.Relates.bind h.trans (h.make opened)
        exact fun _ => Program.relates_pure h.refl _
      · exact Program.relates_pure h.refl _
      · exact Program.relates_abort h.refl _

theorem connectCallbacksOnPath (h : StepsRelate env rel)
    (hopens : ∀ path, Program.Relates rel (opens path)) (path : Str) :
    Program.Relates rel (OpeningContext.connectCallbacksOnPath env opens path) := by
  apply Program.Relates.bind h.trans (h.erase path)
  intro _
  apply Program.Relates.bind h.trans (h.resolve path)
  rintro (_ | source)
  · exact Program.relates_pure h.refl _
  · apply Program.Relates.bind h.trans (h.collect path)
    intro ifaces
    apply Program.Relates.bind h.trans (h.invokeFactory hopens ifaces source)
    rintro (_ | handler)
    · exact Program.relates_pure h.refl _
    · apply Program.Relates.bind h.trans (h.replace path handler)
      exact fun _ => Program.relates_pure h.refl _

end StepsRelate

end OpeningContext

end OSVR.Client
