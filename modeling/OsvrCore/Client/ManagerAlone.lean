/-
# A manager whose factories request nothing

The manager by itself leaves out that factories request interfaces of the context. Where
they request none, a context does with its manager what the manager does alone, so that what
is said in the end about the manager after any history holds of the manager of a context.
-/

import OsvrCore.Client.NestedRequests
import OsvrCore.Math.HiddenValue
import OsvrCore.Math.ProgramView
import OsvrCore.Math.SteadyWalk

set_option autoImplicit false

namespace OSVR.Client

open Common Math

/-! ## The nodes of the interface tree -/

theorem InterfaceTree.isSome_of_wantsHandler {tree : InterfaceTree} {node : NodePath}
    (hwants : tree.wantsHandler node = true) : (tree.root.value? node).isSome = true := by
  cases hvalue : tree.root.value? node with
  | some value => rfl
  | none =>
      rw [InterfaceTree.wantsHandler, InterfaceTree.value, hvalue, Option.getD_none] at hwants
      cases hwants

/-- Connecting a node that is there adds none. -/
theorem ClientManager.childNames_connected {manager : ClientManager} {node : NodePath}
    {tree : PathTree} {success : Bool}
    (hnode : (manager.interfaces.root.value? node).isSome = true) :
    (manager.connected node tree success).interfaces.root.childNames =
      manager.interfaces.root.childNames := by
  obtain ⟨value, hvalue⟩ := Option.isSome_iff_exists.mp hnode
  have htouch : manager.interfaces.root.touch node = manager.interfaces.root :=
    NamedTree.touch_of_value? _ hvalue
  have hset (value : InterfaceTreeValue) : (manager.interfaces.root.set node value).childNames =
      manager.interfaces.root.childNames :=
    funext (NamedTree.childNames_set _ hnode value)
  cases success with
  | false =>
      show (NamedTree.set (manager.interfaces.root.touch node) node _).childNames = _
      rw [htouch, hset]
  | true =>
      show (NamedTree.set (NamedTree.set (NamedTree.set (manager.interfaces.root.touch node) node _)
        node _) node _).childNames = _
      rw [htouch, NamedTree.set_set, NamedTree.set_set, hset]

namespace OpeningContext

variable {env : ClientEnvironment} {opens : Str → OpeningProgram (Option ClientInterface)}

theorem shows_onManager {α : Type} (program : ManagerProgram α) :
    Program.Shows OpeningContext.manager (onManager program) program := fun _ => rfl

/-- What follows the call of a factory sees a handler, or none. -/
theorem shows_invokeFactory_bind (hfactory : env.factoriesByInterface EYETRACKER_NAME = none)
    (ifaces : List ClientInterface) (source : OriginalSource) {α : Type}
    {next : Option RemoteHandler → OpeningProgram α} {connected : RemoteHandler → ManagerProgram α}
    {unconnected : ManagerProgram α}
    (hnone : Program.Shows OpeningContext.manager (next none) unconnected)
    (hsome : ∀ handler, Program.Shows OpeningContext.manager (next (some handler))
      (connected handler)) :
    Program.Shows OpeningContext.manager (invokeFactory env opens ifaces source >>= next) (do
      if ← ClientManager.onTree (Client.invokeFactory env ifaces source) then
        connected (← ClientManager.makeHandler)
      else unconnected) := by
  intro context
  have hopens (hsome : env.factoriesByInterface (interfaceName source) ≠ none)
      (element : PathElement) : factoryOpens source element = .ok [] := by
    apply if_neg
    intro hname
    exact hsome (hname ▸ hfactory)
  cases hmade : env.factoriesByInterface (interfaceName source) with
  | none =>
      have hshown : (ClientManager.onTree (Client.invokeFactory env ifaces source)).run
          context.manager = (.ok false, context.manager) := by
        simp only [Client.invokeFactory, hmade]
        rfl
      have hrun : (invokeFactory env opens ifaces source).run context = (.ok none, context) := by
        simp only [invokeFactory, hmade]
        rfl
      rw [Program.run_bind_of_ok hshown, Program.run_bind_of_ok hrun]
      exact hnone context
  | some factory =>
      have hnothing := hopens (by rw [hmade]; simp)
        (context.manager.tree.element (source.device.getD []))
      cases hproduct : factory source (context.manager.tree.element (source.device.getD []))
        ifaces with
      | handler =>
          have hshown : (ClientManager.onTree (Client.invokeFactory env ifaces source)).run
              context.manager = (.ok true, context.manager) := by
            simp only [Client.invokeFactory, hmade, ClientManager.run_onTree, Program.run_bind,
              Program.run_get, hproduct]
            rfl
          let after : OpeningContext := { context with
            manager := { context.manager with made := context.manager.made + 1 }
            opened := Function.update context.opened context.manager.made [] }
          have hrun : (invokeFactory env opens ifaces source).run context =
              (.ok (some context.manager.made), after) := by
            simp only [invokeFactory, hmade, hnothing, openAll, hproduct, Program.run_bind,
              Program.run_get, Program.run_ofExcept_ok, Program.run_pure]
            rfl
          have hmake : ClientManager.makeHandler.run context.manager =
              (.ok context.manager.made, after.manager) := rfl
          rw [Program.run_bind_of_ok hshown, Program.run_bind_of_ok hrun, if_pos rfl,
            Program.run_bind_of_ok hmake]
          exact hsome context.manager.made after
      | null =>
          have hshown : (ClientManager.onTree (Client.invokeFactory env ifaces source)).run
              context.manager = (.ok false, context.manager) := by
            simp only [Client.invokeFactory, hmade, ClientManager.run_onTree, Program.run_bind,
              Program.run_get, hproduct]
            rfl
          have hrun : (invokeFactory env opens ifaces source).run context = (.ok none, context) := by
            simp only [invokeFactory, hmade, hnothing, openAll, hproduct, Program.run_bind,
              Program.run_get, Program.run_ofExcept_ok, Program.run_pure]
          rw [Program.run_bind_of_ok hshown, Program.run_bind_of_ok hrun]
          exact hnone context
      | exception what =>
          have hshown : (ClientManager.onTree (Client.invokeFactory env ifaces source)).run
              context.manager = (.error (.thrown (.factory what)), context.manager) := by
            simp only [Client.invokeFactory, hmade, ClientManager.run_onTree, Program.run_bind,
              Program.run_get, hproduct]
            rfl
          have hrun : (invokeFactory env opens ifaces source).run context =
              (.error (.thrown (.factory what)), context) := by
            simp only [invokeFactory, hmade, hnothing, openAll, hproduct, Program.run_bind,
              Program.run_get, Program.run_ofExcept_ok, Program.run_pure]
            rfl
          rw [Program.run_bind_of_error hshown, Program.run_bind_of_error hrun]

theorem shows_connectCallbacksOnPath (hfactory : env.factoriesByInterface EYETRACKER_NAME = none)
    (path : Str) : Program.Shows OpeningContext.manager (connectCallbacksOnPath env opens path)
      (ClientManager.connectCallbacksOnPath env path) := by
  apply Program.Shows.bind (shows_onManager _)
  intro _
  apply Program.Shows.bind (shows_onManager _)
  rintro (_ | source)
  · exact .pure false
  · apply Program.Shows.bind (shows_onManager _)
    intro ifaces
    apply shows_invokeFactory_bind hfactory ifaces source
    · exact .pure false
    · intro handler
      apply Program.Shows.bind (shows_onManager _)
      exact fun _ => .pure true

theorem shows_addInterface (hfactory : env.factoriesByInterface EYETRACKER_NAME = none)
    (iface : ClientInterface) : Program.Shows OpeningContext.manager (addInterface env opens iface)
      (ClientManager.addInterface env iface) := by
  apply Program.Shows.bind (shows_onManager _)
  intro node
  apply Program.Shows.get_bind
  intro context
  apply Program.Shows.bind (shows_onManager _)
  intro _
  split
  · apply Program.Shows.bind (shows_connectCallbacksOnPath hfactory iface.path)
    exact fun _ => .pure ()
  · exact .pure ()

/-! ## Reconnecting -/

theorem shows_connectIfNeeded (hfactory : env.factoriesByInterface EYETRACKER_NAME = none)
    (node : NodePath) : Program.Shows OpeningContext.manager (connectIfNeeded env node)
      (ClientManager.connectIfNeeded env node) := by
  apply Program.Shows.get_bind
  intro context
  split
  · apply Program.Shows.bind (shows_connectCallbacksOnPath hfactory (getFullPath node))
    exact fun _ => .pure PUnit.unit
  · exact .pure PUnit.unit

/-- Connecting a node that has interfaces adds no node to their tree. -/
theorem childNames_connectIfNeeded (hfactory : env.factoriesByInterface EYETRACKER_NAME = none)
    (node : NodePath) (context : OpeningContext) :
    childNames ((connectIfNeeded env node).run context).2 = childNames context := by
  have hshown : ((ClientManager.connectIfNeeded env node).run context.manager).2 =
      ((connectIfNeeded env node).run context).2.manager :=
    congrArg Prod.snd (shows_connectIfNeeded hfactory node context)
  rw [childNames, childNames, ← hshown]
  cases hwants : context.manager.interfaces.wantsHandler node with
  | false => rw [ClientManager.run_connectIfNeeded_of_not_wants env hwants]
  | true =>
      have hnode := InterfaceTree.isSome_of_wantsHandler hwants
      rw [ClientManager.run_connectIfNeeded_of_wants env hwants]
      split
      all_goals exact ClientManager.childNames_connected hnode

theorem run_connectNeededCallbacks (hfactory : env.factoriesByInterface EYETRACKER_NAME = none)
    {context : OpeningContext}
    (hends : ((connectNeededCallbacks env).run context).1 ≠ .error .outOfFuel) :
    (ClientManager.connectNeededCallbacks env).run context.manager =
      (((connectNeededCallbacks env).run context).1,
        ((connectNeededCallbacks env).run context).2.manager) := by
  have hwalk : (connectNeededCallbacks env).run context =
      (Program.forEach (connectIfNeeded env) context.manager.interfaces.nodes).run context :=
    Program.run_walk_of_steady context.manager.interfaces.root
      (fun state (hstate : childNames state = childNames context) => hstate)
      (fun node state hstate => (childNames_connectIfNeeded hfactory node state).trans hstate)
      rfl hends
  rw [hwalk]
  exact Program.Shows.forEach (shows_connectIfNeeded hfactory) _ context

/-- A context whose factories request nothing replaces the tree as its manager does alone. -/
theorem run_replaceTree_of_alone (hfactory : env.factoriesByInterface EYETRACKER_NAME = none)
    {context : OpeningContext} {nodes : Json}
    (hends : ((replaceTree env nodes).run context).1 ≠ .error .outOfFuel) :
    (ClientManager.replaceTree env nodes).run context.manager =
      (((replaceTree env nodes).run context).1,
        ((replaceTree env nodes).run context).2.manager) := by
  let cleared : OpeningContext := { context with manager := context.manager.cleared .empty }
  have hclear : (onManager (Program.modify fun manager : ClientManager =>
      { manager with interfaces := manager.interfaces.clearHandlers, tree := .empty })).run
        context = (.ok ⟨⟩, cleared) := rfl
  have hcleared : (Program.modify fun manager : ClientManager =>
      { manager with interfaces := manager.interfaces.clearHandlers, tree := .empty } :
        ManagerProgram PUnit).run context.manager = (.ok ⟨⟩, cleared.manager) := rfl
  rw [replaceTree, Program.run_bind_of_ok hclear] at hends ⊢
  rw [ClientManager.replaceTree, Program.run_bind_of_ok hcleared]
  have hshown := shows_onManager (ClientManager.onTree
    ((jsonToPathTree env.codec nodes).mapError ClientError.tree)) cleared
  rcases hrun : (onManager (ClientManager.onTree
    ((jsonToPathTree env.codec nodes).mapError ClientError.tree))).run cleared with
      ⟨reason | _, filled⟩
  · rw [hrun] at hshown
    rw [Program.run_bind_of_error hrun, Program.run_bind_of_error hshown]
  · rw [hrun] at hshown
    rw [Program.run_bind_of_ok hrun] at hends ⊢
    rw [Program.run_bind_of_ok hshown]
    exact run_connectNeededCallbacks hfactory hends

/-! ## Runs -/

/-- One call on the manager alone leads from one manager to the other, or none has been made. -/
def OneCall (before after : ClientManager) : Prop :=
  after = before ∨ ∃ event : ClientEvent, after = (event.program.run before).2

/-- What a call leaves of the manager, unless it runs out of fuel. -/
def LeavesOneCall {α : Type} (program : OpeningProgram α) (context : OpeningContext) : Prop :=
  Program.Ensures program context (fun _ after => OneCall context.manager after.manager)
    fun after => OneCall context.manager after.manager

variable {context : OpeningContext}

theorem ensures_of_run {α : Type} {program : OpeningProgram α} {good : OpeningContext → Prop}
    (h : (program.run context).1 ≠ .error .outOfFuel → good (program.run context).2) :
    Program.Ensures program context (fun _ after => good after) good := by
  rcases hrun : program.run context with ⟨reason | value, after⟩
  · exact .of_error hrun fun hreason => by
      rw [hrun] at h
      exact h (fun hfuel => hreason (Except.error.inj hfuel))
  · rw [hrun] at h
    exact .of_run hrun (h (by rintro ⟨⟩))

theorem leavesOneCall_getInterface (hfactory : env.factoriesByInterface EYETRACKER_NAME = none)
    (fuel : ℕ) (path : Str) : LeavesOneCall (getInterface env fuel path) context := by
  cases fuel with
  | zero => exact .outOfFuel
  | succ fuel =>
      rw [LeavesOneCall, getInterface, getInterfaceWith]
      split
      · exact .pure (.inl rfl)
      · let iface : ClientInterface := ⟨context.created, path⟩
        apply Program.Ensures.bind_of_run (Program.run_get context)
        apply Program.Ensures.bind_of_run (Program.run_modify _ _)
        have hadd : Program.Ensures (addInterface env (getInterface env fuel) iface)
            { context with created := context.created + 1 }
            (fun _ after => OneCall context.manager after.manager)
            fun after => OneCall context.manager after.manager := by
          apply ensures_of_run
          intro _
          have hshown := @shows_addInterface env (getInterface env fuel) hfactory iface
            { context with created := context.created + 1 }
          exact .inr ⟨.addInterface env iface, (congrArg Prod.snd hshown).symm⟩
        apply hadd.bind
        intro _ after hafter
        apply Program.Ensures.bind_of_run (Program.run_modify _ _)
        exact .pure hafter

theorem leavesOneCall_releaseInterface (iface : ClientInterface) :
    LeavesOneCall (releaseInterface iface) context := by
  apply Program.Ensures.bind_of_run (Program.run_get context)
  split
  · apply Program.Ensures.bind_of_run (Program.run_modify _ _)
    have hrelease : Program.Ensures (onManager (ClientManager.releaseInterface iface))
        { context with interfaces := context.interfaces.erase iface }
        (fun _ after => OneCall context.manager after.manager)
        fun after => OneCall context.manager after.manager :=
      ensures_onManager _ (.inr ⟨.releaseInterface iface, rfl⟩)
    apply hrelease.bind
    exact fun _ after hafter => .pure hafter
  · exact .pure (.inl rfl)

theorem leavesOneCall_handleReplaceTree
    (hfactory : env.factoriesByInterface EYETRACKER_NAME = none) (host : Str) (nodes : Json) :
    LeavesOneCall (handleReplaceTree host env nodes) context := by
  apply Program.Ensures.bind_of_run (Program.run_get context)
  split
  · exact .pure (.inl rfl)
  · apply Program.Ensures.bind_of_run (Program.run_modify _ _)
    cases hlocal : replaceLocalhostServers env.codec host nodes with
    | error error =>
        apply Program.Ensures.bind_of_error
          (Program.run_mapError_of_error (Program.run_ofExcept_error _ _))
        exact fun _ => .inl rfl
    | ok replaced =>
        apply Program.Ensures.bind_of_run
          (Program.run_mapError_of_ok (Program.run_ofExcept_ok _ _))
        apply ensures_of_run
        intro hends
        have hshown := run_replaceTree_of_alone hfactory hends
        exact .inr ⟨.replaceTree env replaced, (congrArg Prod.snd hshown).symm⟩

end OpeningContext

/-- The factories around the event request nothing. -/
def ApplicationEvent.RequestsNothing : ApplicationEvent → Prop
  | .getInterface env _ | .replaceTree env _ => env.factoriesByInterface EYETRACKER_NAME = none
  | .releaseInterface _ => True

/-- What an application without eye trackers does is what is done to a manager alone. -/
theorem ApplicationState.reachable_manager {host : Str} {state : ApplicationState}
    (hreach : (application host).ReachableWhile (fun _ event => event.RequestsNothing) state) :
    clientManager.Reachable state.context.manager := by
  have hinvariant : (application host).Invariant (fun _ event => event.RequestsNothing)
      fun state => clientManager.Reachable state.context.manager := by
    refine ⟨.init, fun {before after event} hbefore hallowed hstep => ?_⟩
    have hcall : OpeningContext.OneCall before.context.manager after.context.manager := by
      let good (state : ApplicationState) : Prop :=
        OpeningContext.OneCall before.context.manager state.context.manager
      replace hstep : step host event before = some after := hstep
      cases event with
      | getInterface env path =>
          rw [step] at hstep
          exact ofCall_eq_some good
            (OpeningContext.leavesOneCall_getInterface hallowed env.fuel path) hstep
      | releaseInterface iface =>
          rw [step] at hstep
          obtain ⟨_, hcall⟩ := Option.ite_none_right_eq_some.mp hstep
          exact ofCall_eq_some good (OpeningContext.leavesOneCall_releaseInterface iface) hcall
      | replaceTree env nodes =>
          rw [step] at hstep
          exact ofCall_eq_some good
            (OpeningContext.leavesOneCall_handleReplaceTree hallowed host nodes) hstep
    rcases hcall with hsame | ⟨event, hevent⟩
    · rwa [hsame]
    · rw [hevent]
      exact .step hbefore trivial rfl
  exact hinvariant.reachable hreach

/-! ## After any history -/

namespace ClientManager

variable {manager : ClientManager}

/-- In every state of a client the handlers are linked, and after a replacement of the
path tree exactly the paths that connect have a handler, provided that it is
undisturbed and in no other case. A path connects when it resolves, in the new tree as the
attempts before it leave it, to a source whose factory makes a handler. The managers of
applications without eye trackers are in such states. -/
theorem linked_and_reconnected_iff (hreach : clientManager.Reachable manager)
    (env : ClientEnvironment) (nodes : Json) :
    manager.interfaces.Linked ∧
      (manager.Reconnected env nodes ↔ manager.Undisturbed env nodes) ∧
      (∀ node, manager.Connects env nodes node ↔
        ∃ before rest, manager.waiting = before ++ node :: rest ∧
          ∃ source after, (resolveTreeNode env.codec env.fuel (getFullPath node)).run
              (Program.afterAttempts (attemptAt env manager) before (newTree env nodes).2) =
                (.ok (some source), after) ∧
            ∃ factory, env.factoriesByInterface (interfaceName source) = some factory ∧
              factory source (after.element (source.device.getD []))
                (manager.interfaces.value node).interfaces = .handler) ∧
      ∀ (host : Str) (state : ApplicationState),
        (application host).ReachableWhile (fun _ event => event.RequestsNothing) state →
          clientManager.Reachable state.context.manager :=
  ⟨(sound_of_reachable hreach).linked, reconnected_iff manager env nodes,
    fun _ => connects_iff, fun _ _ => ApplicationState.reachable_manager⟩

/-- A device with one interface, and an alias to it. -/
def aliasedNodes : Json :=
  pathTreeToJson (((PathTree.empty.set [dName] (.deviceElement "n".toList "s".toList .null)).set
    [dName, tName] .interfaceElement).set [aName]
      (.aliasElement "/d/t".toList ALIASPRIORITY_MANUAL))
    false

theorem linked_and_reconnected_twoPaths :
    twoPaths.interfaces.Linked ∧ twoPaths.Reconnected plainEnvironment aliasedNodes := by
  obtain ⟨hlinked, hreconnected, -⟩ :=
    linked_and_reconnected_iff reachable_twoPaths plainEnvironment aliasedNodes
  refine ⟨hlinked, hreconnected.mpr fun node hconnects => ⟨rfl, ?_⟩⟩
  have hall : (twoPaths.outcomes plainEnvironment aliasedNodes).all (·.2.isOk) = true := by
    decide +kernel
  rwa [Program.passed, List.takeWhile_eq_self_iff.mpr (List.all_eq_true.mp hall)]

end ClientManager

end OSVR.Client
