/-
# Who owns the interfaces of a client

Every interface that a context has registered is held by the application or was opened
by a handler. A handler that goes releases nothing, and a call that is ended by an
exception leaves what it has entered; as long as neither happens, no interface is
without an owner.
-/

import OsvrCore.Client.InternalInterfaces

set_option autoImplicit false

namespace OSVR.Client

open Common Math

namespace OpeningContext

variable {env : ClientEnvironment} {tree : PathTree} {paths : Str → Prop} {context : OpeningContext}
  {owned : List ClientInterface} {iface : ClientInterface} {node : NodePath} {host : Str}
  {nodes : Json} {path : Str}

/-- The tree that was received last is the same. -/
def SameLastNodes (before after : OpeningContext) : Prop := after.lastNodes = before.lastNodes

theorem SameLastNodes.refl (context : OpeningContext) : SameLastNodes context context := rfl

theorem SameLastNodes.trans ⦃first second third : OpeningContext⦄ (h : SameLastNodes first second)
    (h' : SameLastNodes second third) : SameLastNodes first third := Eq.trans h' h

/-! ## Requests that lead to requests -/

/-- On closed paths, all requests that a request leads to are served. -/
theorem serves_getInterface (hclosed : Closed env tree paths) (fuel : ℕ) :
    Serves env tree paths (getInterface env fuel) := by
  induction fuel with
  | zero => exact fun _ _ _ _ => .outOfFuel
  | succ fuel ih =>
      exact fun hpath hnode hresolved h =>
        ensures_getInterfaceWith hclosed ih hnode (fun _ => hpath) hresolved h

/-- A request by the application. If its path is not located, nothing has been entered. -/
theorem ensures_getInterface (h : Owned context owned [])
    (hopens : ∀ {node}, locateAbsolute path = ⟨node, none⟩ →
      (context.manager.interfaces.value node).interfaces = [] →
        ∃ paths : Str → Prop, paths path ∧ Closed env context.manager.tree paths) (fuel : ℕ) :
    Program.Ensures (getInterface env fuel path) context
      (fun result after => Owned after (owned ++ result.toList) []) fun after =>
        Owned after owned [] := by
  cases fuel with
  | zero => exact .outOfFuel
  | succ fuel =>
      rcases hlocated : locateAbsolute path with ⟨node, _ | error⟩
      · have hgets : ∃ paths : Str → Prop, Closed env context.manager.tree paths ∧
            ((context.manager.interfaces.value node).interfaces = [] → paths path) := by
          by_cases hfirst : (context.manager.interfaces.value node).interfaces = []
          · obtain ⟨paths, hpath, hclosed⟩ := hopens hlocated hfirst
            exact ⟨paths, hclosed, fun _ => hpath⟩
          · exact ⟨fun _ => False, ⟨False.elim, False.elim, False.elim⟩,
              fun hempty => hfirst hempty⟩
        obtain ⟨paths, hclosed, hpath⟩ := hgets
        exact (ensures_getInterfaceWith hclosed (serves_getInterface hclosed fuel) hlocated hpath
          .none h).mono (fun _ _ hafter => hafter.1) fun _ => False.elim
      · rw [getInterface, getInterfaceWith]
        split
        · exact .pure (by rwa [Option.toList_none, List.append_nil])
        · have hadd : (addInterface env (getInterface env fuel) ⟨context.created, path⟩).run
              { context with created := context.created + 1 } =
                (.error (.thrown (.tree error)), { context with
                  created := context.created + 1
                  manager := { context.manager with
                    interfaces := context.manager.interfaces.touch node } }) := by
            rw [addInterface, Program.run_bind_of_error
              (run_onManager_of_eq (ClientManager.run_getNodeForPath_of_failure hlocated))]
          apply Program.Ensures.bind_of_run (Program.run_get context)
          apply Program.Ensures.bind_of_run (Program.run_modify _ _)
          apply Program.Ensures.bind_of_error hadd
          intro _
          have htouched : Owned { context with manager := { context.manager with
              interfaces := context.manager.interfaces.touch node } } owned [] :=
            h.congr (fun _ => InterfaceTree.value_touch) rfl rfl
          exact ⟨htouched.sound, htouched.placed, htouched.listed, htouched.entered,
            htouched.single, fun iface hmem => Nat.lt_succ_of_lt (htouched.older iface hmem)⟩

/-! ## Replacing the path tree -/

/-- Without a handler that has opened something, the handlers can be cleared. -/
theorem Owned.cleared (h : Owned context owned []) (halive : context.alive = []) (tree : PathTree) :
    Owned { context with manager := context.manager.cleared tree } owned [] := by
  have hvalue (node : NodePath) :
      ((context.manager.cleared tree).interfaces.value node).interfaces =
      (context.manager.interfaces.value node).interfaces :=
        ClientManager.interfaces_cleared tree node
  have hgone : OpeningContext.alive { context with manager := context.manager.cleared tree } =
      context.alive := by
    rw [halive]
    exact congrArg (List.flatMap context.opened) h.sound.linked.handlers_clearHandlers
  constructor
  case sound => exact h.sound.cleared tree
  case placed =>
    intro node iface hmem
    rw [hvalue] at hmem
    exact h.placed hmem
  case listed => rw [hgone]; exact h.listed
  case entered =>
    intro iface
    rw [hgone, ← h.entered]
    simp only [InterfaceTree.Holds, hvalue]
  case single => rw [hgone]; exact h.single
  case older => rw [hgone]; exact h.older

/-- Reconnecting gives every interface that is opened to the handler it is opened for,
also when an exception ends it. -/
theorem ensures_connectNeededCallbacks (hclosed : Closed env tree paths)
    (hcovered : ∀ node, (context.manager.interfaces.value node).interfaces ≠ [] →
      Fits env tree paths (getFullPath node))
    (hresolved : Resolutions env tree context.manager.tree) (h : Owned context owned []) :
    Program.Ensures (connectNeededCallbacks env) context (fun _ after => Owned after owned [])
      fun after => Owned after owned [] := by
  let good (state : OpeningContext) : Prop := Owned state owned [] ∧
    Resolutions env tree state.manager.tree ∧
      ∀ node, (state.manager.interfaces.value node).interfaces ≠ [] →
        Fits env tree paths (getFullPath node)
  have hvisit (node : NodePath) (state : OpeningContext) (hstate : good state) :
      Program.Ensures (connectIfNeeded env node) state (fun _ after => good after)
        fun after => Owned after owned [] := by
    obtain ⟨howned, hreached, hfits⟩ := hstate
    apply Program.Ensures.bind_of_run (Program.run_get state)
    split
    next hwants =>
      have hhandler := ClientManager.handler_of_wantsHandler hwants
      have hoccupied : (state.manager.interfaces.value node).interfaces ≠ [] := by
        simp only [InterfaceTree.wantsHandler, Bool.and_eq_true, Bool.not_eq_true',
          List.isEmpty_eq_false_iff] at hwants
        exact hwants.2
      have hconnect := ensures_connectCallbacksOnPath (serves_getInterface hclosed env.fuel)
        (hfits node hoccupied) (locateAbsolute_getFullPath node) hreached howned hoccupied hhandler
      refine (hconnect.mono (fun _ _ => id) fun _ hended => hended.2).bind ?_
      rintro _ after ⟨howned', hgrown, _⟩
      refine .pure ⟨howned', hreached.trans hgrown.resolved, fun other hother => ?_⟩
      rcases hgrown.covered hother with hbefore | hpath
      · exact hfits other hbefore
      · exact hclosed.fits hpath
    next => exact .pure ⟨howned, hreached, hfits⟩
  exact ((Program.ensures_walk hvisit env.fuel).1 [] context ⟨h, hresolved, hcovered⟩).mono
    (fun _ _ hafter => hafter.1) fun _ => id

/-- A replacement that destroys no handler with interfaces of its own. -/
theorem ensures_replaceTree (h : Owned context owned []) (halive : context.alive = [])
    (hclosed : (ClientManager.newTree env nodes).1 = .ok () →
      ∃ paths, Closed env (ClientManager.newTree env nodes).2 paths ∧
        ∀ node, (context.manager.interfaces.value node).interfaces ≠ [] →
          Fits env (ClientManager.newTree env nodes).2 paths (getFullPath node)) :
    Program.Ensures (replaceTree env nodes) context (fun _ after => Owned after owned [])
      fun after => Owned after owned [] := by
  apply Program.Ensures.bind_of_run (run_onManager_of_eq (Program.run_modify _ _))
  rcases hnew : ClientManager.newTree env nodes with ⟨reason | _, reached⟩
  · have htree : (onManager (ClientManager.onTree
        ((jsonToPathTree env.codec nodes).mapError ClientError.tree))).run
          { context with manager := context.manager.cleared .empty } =
        (.error (reason.map .tree), { context with manager := context.manager.cleared reached }) :=
      run_onTree_of_error hnew
    apply Program.Ensures.bind_of_error htree
    exact fun _ => h.cleared halive reached
  · have htree : (onManager (ClientManager.onTree
        ((jsonToPathTree env.codec nodes).mapError ClientError.tree))).run
          { context with manager := context.manager.cleared .empty } =
        (.ok (), { context with manager := context.manager.cleared reached }) :=
      run_onTree_of_ok hnew
    apply Program.Ensures.bind_of_run htree
    rw [hnew] at hclosed
    obtain ⟨paths, hpaths, hfits⟩ := hclosed rfl
    apply ensures_connectNeededCallbacks hpaths _ .none (h.cleared halive reached)
    intro node hnode
    apply hfits
    rwa [← ClientManager.interfaces_cleared reached node]

/-- Receiving a tree: it is the last one again, or its host names cannot be replaced, or
it replaces the tree. -/
theorem ensures_handleReplaceTree (h : Owned context owned [])
    (hreplaces : context.lastNodes ≠ some nodes → ∀ {nodes'},
      replaceLocalhostServers env.codec host nodes = .ok nodes' → context.alive = [] ∧
        ((ClientManager.newTree env nodes').1 = .ok () →
          ∃ paths, Closed env (ClientManager.newTree env nodes').2 paths ∧
            ∀ node, (context.manager.interfaces.value node).interfaces ≠ [] →
              Fits env (ClientManager.newTree env nodes').2 paths (getFullPath node))) :
    Program.Ensures (handleReplaceTree host env nodes) context (fun _ after => Owned after owned [])
      fun after => Owned after owned [] := by
  apply Program.Ensures.bind_of_run (Program.run_get context)
  split
  next => exact .pure h
  next hlast =>
    have hnoted : Owned { context with lastNodes := some nodes } owned [] :=
      ⟨h.sound, h.placed, h.listed, h.entered, h.single, h.older⟩
    apply Program.Ensures.bind_of_run (Program.run_modify _ _)
    cases hlocal : replaceLocalhostServers env.codec host nodes with
    | error error =>
        apply Program.Ensures.bind_of_error
          (Program.run_mapError_of_error (Program.run_ofExcept_error _ error))
        exact fun _ => hnoted
    | ok nodes' =>
        apply Program.Ensures.bind_of_run
          (Program.run_mapError_of_ok (Program.run_ofExcept_ok _ nodes'))
        obtain ⟨halive, hclosed⟩ := hreplaces hlast hlocal
        exact ensures_replaceTree hnoted halive hclosed

/-! ## Releasing an interface -/

theorem flatMap_remove {f : RemoteHandler → List ClientInterface} {old : Option RemoteHandler}
    (hold : ∀ handler, old = some handler → f handler = []) (handlers : List RemoteHandler) :
    (HandlerContainer.remove handlers old).flatMap f = handlers.flatMap f := by
  cases old with
  | none => rfl
  | some old =>
      induction handlers with
      | nil => rfl
      | cons handler handlers ih =>
          rw [HandlerContainer.remove, List.erase_cons]
          split
          next heq =>
            rw [beq_iff_eq.mp heq, List.flatMap_cons, hold old rfl, List.nil_append]
          next =>
            rw [List.flatMap_cons, List.flatMap_cons, ← ih]
            rfl

/-- Releasing an interface whose handler, if it goes, has opened nothing. -/
theorem Owned.release (h : Owned context owned []) (hmem : iface ∈ owned)
    (hnode : locateAbsolute iface.path = ⟨node, none⟩)
    (hidle : (context.manager.interfaces.value node).interfaces.erase iface = [] →
      ∀ handler, (context.manager.interfaces.value node).handler = some handler →
        context.opened handler = []) :
    Owned { context with
      interfaces := context.interfaces.erase iface
      manager := ((ClientManager.releaseInterface iface).run context.manager).2 }
        (owned.erase iface) [] := by
  let after := ((ClientManager.releaseInterface iface).run context.manager).2
  have hinterfaces (query : NodePath) : (after.interfaces.value query).interfaces =
      if query = node then (context.manager.interfaces.value node).interfaces.erase iface
      else (context.manager.interfaces.value query).interfaces :=
    ClientManager.interfaces_released hnode
  have halive : OpeningContext.alive { context with
      interfaces := context.interfaces.erase iface, manager := after } = context.alive := by
    have hhandlers : after.interfaces.handlers =
        if (context.manager.interfaces.value node).interfaces.erase iface = [] then
          HandlerContainer.remove context.manager.interfaces.handlers
            (context.manager.interfaces.value node).handler
        else context.manager.interfaces.handlers := ClientManager.handlers_released hnode
    show after.interfaces.handlers.flatMap context.opened = _
    rw [hhandlers]
    split
    next hlast => exact flatMap_remove (hidle hlast) _
    next => rfl
  have hsingle : (owned ++ context.alive).Nodup := by simpa using h.single
  have herased : owned.erase iface ++ context.alive = (owned ++ context.alive).erase iface :=
    (List.erase_append_left _ hmem).symm
  constructor
  case sound => exact h.sound.releaseInterface iface
  case placed =>
    intro query other hother
    rw [hinterfaces] at hother
    split at hother
    next hquery =>
      rw [hquery]
      exact h.placed (List.mem_of_mem_erase hother)
    next => exact h.placed hother
  case listed =>
    rw [halive, herased]
    exact h.listed.erase iface
  case entered =>
    intro other
    have hplace : context.manager.interfaces.Holds other ↔ other ∈ owned ++ context.alive := by
      simpa using h.entered other
    rw [halive, List.append_nil, herased, hsingle.mem_erase_iff, ← hplace]
    apply Iff.intro
    · rintro ⟨query, hother⟩
      rw [hinterfaces] at hother
      split at hother
      next hquery =>
        rw [(h.sound.linked.nodup_interfaces node).mem_erase_iff] at hother
        exact ⟨hother.1, node, hother.2⟩
      next hquery =>
        refine ⟨fun hsame => hquery ?_, query, hother⟩
        have hplaced := h.placed hother
        rw [hsame, hnode] at hplaced
        exact (congrArg Located.reached hplaced).symm
    · rintro ⟨hne, query, hother⟩
      refine ⟨query, ?_⟩
      rw [hinterfaces]
      split
      next hquery =>
        rw [hquery] at hother
        exact (h.sound.linked.nodup_interfaces node).mem_erase_iff.mpr ⟨hne, hother⟩
      next => exact hother
  case single =>
    rw [halive, List.append_nil, herased]
    exact hsingle.erase iface
  case older =>
    intro other hother
    rw [halive, List.append_nil, herased] at hother
    exact h.older other (by simpa using List.mem_of_mem_erase hother)

/-- What the manager is left with, however its code ends. -/
theorem ensures_onManager {α : Type} {program : ManagerProgram α} (good : OpeningContext → Prop)
    (h : good { context with manager := (program.run context.manager).2 }) :
    Program.Ensures (onManager program) context (fun _ after => good after) good := by
  rcases hrun : program.run context.manager with ⟨reason | value, manager⟩
  · rw [hrun] at h
    exact .of_error (run_onManager_of_eq hrun) fun _ => h
  · rw [hrun] at h
    exact .of_run (run_onManager_of_eq hrun) h

theorem ensures_releaseInterface (h : Owned context owned []) (hmem : iface ∈ owned)
    (hidle : ∀ {node}, locateAbsolute iface.path = ⟨node, none⟩ →
      (context.manager.interfaces.value node).interfaces.erase iface = [] →
        ∀ handler, (context.manager.interfaces.value node).handler = some handler →
          context.opened handler = []) :
    Program.Ensures (releaseInterface iface) context
      (fun _ after => Owned after (owned.erase iface) [])
      fun after => Owned after (owned.erase iface) [] := by
  have howner : iface ∈ owned ++ context.alive := List.mem_append_left _ hmem
  have hlisted : iface ∈ context.interfaces := h.listed.mem_iff.mpr howner
  obtain ⟨node, hplace⟩ := (h.entered iface).mpr (List.mem_append_left _ howner)
  have hnode := h.placed hplace
  apply Program.Ensures.bind_of_run (Program.run_get context)
  rw [if_pos hlisted]
  apply Program.Ensures.bind_of_run (Program.run_modify _ _)
  apply (ensures_onManager (fun after => Owned after (owned.erase iface) [])
    (h.release hmem hnode (hidle hnode))).bind
  exact fun _ after hafter => .pure hafter

/-! ## The same tree again -/

/-- No tree has been received in between, and the path tree has seen resolutions only. -/
def Unreplaced (env : ClientEnvironment) (before after : OpeningContext) : Prop :=
  SameLastNodes before after ∧ Resolutions env before.manager.tree after.manager.tree

theorem Unreplaced.refl (context : OpeningContext) : Unreplaced env context context := ⟨rfl, .none⟩

theorem Unreplaced.trans ⦃first second third : OpeningContext⦄ (h : Unreplaced env first second)
    (h' : Unreplaced env second third) : Unreplaced env first third :=
  ⟨SameLastNodes.trans h.1 h'.1, h.2.trans h'.2⟩

/-- Code of the manager that does not look at the path tree. -/
theorem relates_onManager {α : Type} {program : ManagerProgram α}
    (hprogram : ∀ manager, (program.run manager).2.tree = manager.tree) :
    Program.Relates (Unreplaced env) (onManager program) := by
  intro context
  have htree := hprogram context.manager
  apply And.intro rfl
  show Resolutions env context.manager.tree (program.run context.manager).2.tree
  rw [htree]
  exact .none

theorem relates_resolve (path : Str) :
    Program.Relates (Unreplaced env) (onManager (ClientManager.onTree
      ((resolveTreeNode env.codec env.fuel path).mapError .tree))) := by
  intro context
  apply And.intro rfl
  have hnext := Resolutions.next (@Resolutions.none env context.manager.tree) path
  rwa [← Program.snd_run_mapError] at hnext

/-- Looking up the node of a path first does not touch the path tree either. -/
theorem tree_getNodeForPath_bind {α : Type} (path : Str) {next : NodePath → ManagerProgram α}
    (hnext : ∀ node manager, ((next node).run manager).2.tree = manager.tree)
    (manager : ClientManager) :
    ((ClientManager.getNodeForPath path >>= next).run manager).2.tree = manager.tree := by
  rcases hrun : (ClientManager.getNodeForPath path).run manager with ⟨reason | node, located⟩
  · have htree : located.tree = manager.tree := by rw [← (Prod.mk.inj hrun).2]
    rwa [Program.run_bind_of_error hrun]
  · have htree : located.tree = manager.tree := by rw [← (Prod.mk.inj hrun).2]
    rw [Program.run_bind_of_ok hrun, hnext node located, htree]

/-- Connecting a path resolves paths, and receives no tree. -/
theorem stepsRelate_unreplaced : StepsRelate env (Unreplaced env) where
  refl := Unreplaced.refl
  trans := Unreplaced.trans
  erase path := relates_onManager (tree_getNodeForPath_bind path fun _ _ => rfl)
  resolve := relates_resolve
  collect path := relates_onManager (tree_getNodeForPath_bind path fun _ _ => rfl)
  make _ := fun _ => ⟨rfl, .none⟩
  replace path _ := relates_onManager (tree_getNodeForPath_bind path fun _ _ => rfl)

theorem relates_getInterfaceWith {opens : Str → OpeningProgram (Option ClientInterface)}
    (hopens : ∀ path, Program.Relates (Unreplaced env) (opens path)) (path : Str) :
    Program.Relates (Unreplaced env) (getInterfaceWith env opens path) := by
  rw [getInterfaceWith]
  split
  · exact Program.relates_pure Unreplaced.refl _
  · apply Program.Relates.bind Unreplaced.trans (Program.relates_get Unreplaced.refl)
    intro context
    have hcounted : Program.Relates (Unreplaced env) (Program.modify fun context : OpeningContext =>
        { context with created := context.created + 1 } : OpeningProgram PUnit) := fun _ =>
          ⟨rfl, .none⟩
    apply Program.Relates.bind Unreplaced.trans hcounted
    intro _
    apply Program.Relates.bind Unreplaced.trans
    · apply Program.Relates.bind Unreplaced.trans (relates_onManager fun _ => rfl)
      intro node
      apply Program.Relates.bind Unreplaced.trans (Program.relates_get Unreplaced.refl)
      intro entered
      apply Program.Relates.bind Unreplaced.trans (relates_onManager fun _ => rfl)
      intro _
      split
      · apply Program.Relates.bind Unreplaced.trans
          (stepsRelate_unreplaced.connectCallbacksOnPath hopens _)
        exact fun _ => Program.relates_pure Unreplaced.refl _
      · exact Program.relates_pure Unreplaced.refl _
    · exact fun _ _ => ⟨rfl, .none⟩

theorem relates_getInterface (fuel : ℕ) (path : Str) :
    Program.Relates (Unreplaced env) (getInterface env fuel path) := by
  induction fuel generalizing path with
  | zero => exact Program.relates_abort Unreplaced.refl _
  | succ fuel ih => exact relates_getInterfaceWith ih path

theorem relates_connectNeededCallbacks :
    Program.Relates (Unreplaced env) (connectNeededCallbacks env) := by
  apply (Program.relates_walk Unreplaced.refl Unreplaced.trans _ env.fuel).1
  intro node
  apply Program.Relates.bind Unreplaced.trans (Program.relates_get Unreplaced.refl)
  intro context
  split
  · apply Program.Relates.bind Unreplaced.trans
      (stepsRelate_unreplaced.connectCallbacksOnPath (relates_getInterface env.fuel) _)
    exact fun _ => Program.relates_pure Unreplaced.refl _
  · exact Program.relates_pure Unreplaced.refl _

theorem relates_replaceTree : Program.Relates SameLastNodes (replaceTree env nodes) := by
  have honManager {α : Type} (program : ManagerProgram α) :
      Program.Relates SameLastNodes (onManager program) := fun _ => rfl
  apply Program.Relates.bind SameLastNodes.trans (honManager _)
  intro _
  apply Program.Relates.bind SameLastNodes.trans (honManager _)
  exact fun _ context => (relates_connectNeededCallbacks context).1

/-- A tree that was received is the last one from then on, however its replacement ends. -/
theorem lastNodes_handleReplaceTree :
    ((handleReplaceTree host env nodes).run context).2.lastNodes = some nodes := by
  rw [handleReplaceTree, Program.run_bind_of_ok (Program.run_get _)]
  split
  next hlast => exact hlast
  next =>
    rw [Program.run_bind_of_ok (Program.run_modify _ _)]
    have hrest : Program.Relates SameLastNodes
        ((Program.ofExcept (replaceLocalhostServers env.codec host nodes)).mapError
          (fun error => ClientError.tree (.json error)) >>= replaceTree env) := by
      apply Program.Relates.bind SameLastNodes.trans _ fun nodes' => relates_replaceTree
      intro state
      rw [Program.snd_run_mapError]
      exact Program.relates_ofExcept SameLastNodes.refl _ state
    exact hrest _

/-- It is ignored when it is received again. -/
theorem run_handleReplaceTree_of_last (hlast : context.lastNodes = some nodes) :
    (handleReplaceTree host env nodes).run context = (.ok ⟨⟩, context) := by
  rw [handleReplaceTree, Program.run_bind_of_ok (Program.run_get _), if_pos hlast]
  rfl

end OpeningContext

/-! ## What an application does -/

/-- A context, and the interfaces that the application has been given and not released. -/
structure ApplicationState where
  context : OpeningContext
  held : List ClientInterface

inductive ApplicationEvent
  | getInterface (env : ClientEnvironment) (path : Str)
  | releaseInterface (iface : ClientInterface)
  | replaceTree (env : ClientEnvironment) (nodes : Json)

namespace ApplicationState

/-- A call has ended; nothing comes back from one that has thrown. -/
def ofCall {α : Type} (held : Option α → List ClientInterface) :
    Except (Abort ClientError) α × OpeningContext → Option ApplicationState
  | (.ok value, context) => some ⟨context, held (some value)⟩
  | (.error (.thrown _), context) => some ⟨context, held none⟩
  | (.error .outOfFuel, _) | (.error .undefined, _) => none

def step (host : Str) : ApplicationEvent → ApplicationState → Option ApplicationState
  | .getInterface env path, state =>
      ofCall (fun iface => state.held ++ iface.join.toList)
        ((OpeningContext.getInterface env env.fuel path).run state.context)
  | .releaseInterface iface, state =>
      if iface ∈ state.held then
        ofCall (fun _ => state.held.erase iface)
          ((OpeningContext.releaseInterface iface).run state.context)
      else none
  | .replaceTree env nodes, state =>
      ofCall (fun _ => state.held)
        ((OpeningContext.handleReplaceTree host env nodes).run state.context)

/-- The interfaces registered in the context and in its interface tree are those that the
application holds and those that handlers that are alive have opened. -/
structure Balanced (state : ApplicationState) : Prop where
  listed : state.context.interfaces.Perm (state.held ++ state.context.alive)
  entered : ∀ iface, state.context.manager.interfaces.Holds iface ↔
    iface ∈ state.held ++ state.context.alive

/-- The event leaves no interface without an owner: it destroys no handler that has opened
interfaces, and no exception ends a request whose interface has been entered. -/
def NoOrphans (host : Str) (state : ApplicationState) : ApplicationEvent → Prop
  | .getInterface env path => ∀ {node}, locateAbsolute path = ⟨node, none⟩ →
      (state.context.manager.interfaces.value node).interfaces = [] →
        ∃ paths : Str → Prop, paths path ∧ Closed env state.context.manager.tree paths
  | .releaseInterface iface => ∀ {node}, locateAbsolute iface.path = ⟨node, none⟩ →
      (state.context.manager.interfaces.value node).interfaces.erase iface = [] →
        ∀ handler, (state.context.manager.interfaces.value node).handler = some handler →
          state.context.opened handler = []
  | .replaceTree env nodes => state.context.lastNodes ≠ some nodes →
      ∀ {nodes'}, replaceLocalhostServers env.codec host nodes = .ok nodes' →
        state.context.alive = [] ∧ ((ClientManager.newTree env nodes').1 = .ok () →
          ∃ paths, Closed env (ClientManager.newTree env nodes').2 paths ∧
            ∀ node, (state.context.manager.interfaces.value node).interfaces ≠ [] →
              Fits env (ClientManager.newTree env nodes').2 paths (getFullPath node))

end ApplicationState

/-- The calls of an application and the trees that its context receives. -/
def application (host : Str) : TransitionSystem ApplicationState ApplicationEvent where
  init := ⟨.init, []⟩
  step := ApplicationState.step host

namespace ApplicationState

variable {host : Str} {env : ClientEnvironment} {state after : ApplicationState}
  {context : OpeningContext} {owned : List ClientInterface} {iface : ClientInterface} {path : Str}

/-- What a call ensures, its outcome has. -/
theorem ofCall_eq_some {α : Type} {held : Option α → List ClientInterface}
    {program : OpeningProgram α} (good : ApplicationState → Prop)
    (hensures : Program.Ensures program context
      (fun value after => good ⟨after, held (some value)⟩) fun after => good ⟨after, held none⟩)
    (hcall : ofCall held (program.run context) = some after) : good after := by
  rcases hrun : program.run context with ⟨reason | value, reached⟩
  · rw [Program.Ensures, hrun] at hensures
    rw [hrun] at hcall
    cases reason with
    | thrown error =>
        cases hcall
        exact hensures
    | outOfFuel => cases hcall
    | undefined => cases hcall
  · rw [Program.Ensures, hrun] at hensures
    rw [hrun] at hcall
    cases hcall
    exact hensures

/-- Every interface has an owner, who is the application or a handler that is alive. -/
theorem owned_step {event : ApplicationEvent} (h : state.context.Owned state.held [])
    (hallowed : state.NoOrphans host event) (hstep : step host event state = some after) :
    after.context.Owned after.held [] := by
  let good (state : ApplicationState) : Prop := state.context.Owned state.held []
  cases event with
  | getInterface env path =>
      rw [step] at hstep
      refine ofCall_eq_some good ?_ hstep
      refine (OpeningContext.ensures_getInterface h hallowed env.fuel).mono (fun _ _ => id) ?_
      intro reached hreached
      have hnothing : state.held ++ (none : Option (Option ClientInterface)).join.toList =
          state.held := List.append_nil _
      show reached.Owned _ []
      rwa [hnothing]
  | releaseInterface iface =>
      rw [step] at hstep
      split at hstep
      next hmem =>
        exact ofCall_eq_some good (OpeningContext.ensures_releaseInterface h hmem hallowed) hstep
      next => cases hstep
  | replaceTree env nodes =>
      rw [step] at hstep
      exact ofCall_eq_some good (OpeningContext.ensures_handleReplaceTree h hallowed) hstep

theorem owned_init : (application host).init.context.Owned (application host).init.held [] := by
  have hempty (node : NodePath) :
      (ClientManager.init.interfaces.value node).interfaces = [] := by
    rw [ClientManager.init, InterfaceTree.value_init]
    rfl
  constructor
  case sound => exact ClientManager.sound_of_reachable .init
  case placed =>
    intro node iface hmem
    have hmem' : iface ∈ (ClientManager.init.interfaces.value node).interfaces := hmem
    rw [hempty] at hmem'
    cases hmem'
  case listed => exact .refl []
  case entered =>
    intro iface
    apply Iff.intro
    · rintro ⟨node, hmem⟩
      have hmem' : iface ∈ (ClientManager.init.interfaces.value node).interfaces := hmem
      rw [hempty] at hmem'
      cases hmem'
    · intro hmem
      cases hmem
  case single => exact List.nodup_nil
  case older =>
    intro iface hmem
    cases hmem

theorem owned_of_noOrphans (hreach : (application host).ReachableWhile (NoOrphans host) state) :
    state.context.Owned state.held [] := by
  have hinvariant : (application host).Invariant (NoOrphans host)
      fun state => state.context.Owned state.held [] :=
    ⟨owned_init, fun hbefore hallowed hstep => owned_step hbefore hallowed hstep⟩
  exact hinvariant.reachable hreach

/-- However often a tree that was received is received again, nothing changes. -/
theorem run_replicate_replaceTree {nodes : Json}
    (hstep : step host (.replaceTree env nodes) state = some after) (count : ℕ) :
    (application host).runWhile (fun _ _ => True) (List.replicate count (.replaceTree env nodes))
      after = some after := by
  have hlast : after.context.lastNodes = some nodes := by
    rw [step] at hstep
    have hlater : ((OpeningContext.handleReplaceTree host env nodes).run
        state.context).2.lastNodes = some nodes := OpeningContext.lastNodes_handleReplaceTree
    rcases hrun : (OpeningContext.handleReplaceTree host env nodes).run state.context with
      ⟨reason | value, reached⟩
    · rw [hrun] at hstep hlater
      cases reason <;> cases hstep
      exact hlater
    · rw [hrun] at hstep hlater
      cases hstep
      exact hlater
  have hagain : (application host).step (.replaceTree env nodes) after = some after := by
    show step host (.replaceTree env nodes) after = some after
    rw [step, OpeningContext.run_handleReplaceTree_of_last hlast]
    rfl
  induction count with
  | zero => rfl
  | succ count ih =>
      rw [List.replicate_succ, TransitionSystem.runWhile, if_pos trivial, hagain]
      exact ih

/-- As long as no interface loses its owner, the registered interfaces are those that are
held and those that handlers that are alive have opened; and receiving the same tree again
adds none. -/
theorem balanced_of_noOrphans
    (hreach : (application host).ReachableWhile (NoOrphans host) state) :
    state.Balanced ∧ ∀ {env nodes after},
      (application host).step (.replaceTree env nodes) state = some after → ∀ count,
        (application host).runWhile (fun _ _ => True)
          (List.replicate count (.replaceTree env nodes)) after = some after := by
  have howned := owned_of_noOrphans hreach
  apply And.intro
  · constructor
    case listed => exact howned.listed
    case entered =>
      intro iface
      rw [howned.entered, List.append_nil]
  · exact fun hstep count => run_replicate_replaceTree hstep count

end ApplicationState

/-! ## An eye tracker -/

theorem Resolutions.keepsElements {env : ClientEnvironment} {tree reached : PathTree}
    (h : Resolutions env tree reached) : KeepsElements tree reached := by
  induction h with
  | none => exact fun node value hvalue _ => hvalue
  | next prior path ih =>
      intro node value hvalue hnull
      exact keepsElements_resolveTreeNode env.codec env.fuel path _ node value
        (ih node value hvalue hnull) hnull

def eyetrackerName : PathName := ⟨EYETRACKER_NAME, isName_eyetracker⟩

/-- The interfaces of an eye tracking device that are opened or that open them. -/
def eyeNames (opts : EyeTrackerOptions) : List PathName :=
  eyetrackerName :: ([EyeInterface.direction, .tracker, .location2D, .button].filter
    (EyeInterface.isOpened opts)).map EyeInterface.name

/-- In a tree that has an eye tracking device with all its interfaces, they are connected
without an exception, and each handler keeps what was opened for it. -/
theorem closed_eyeNames {env : ClientEnvironment} {tree : PathTree} {device : NodePath}
    {deviceName server : Str} {descriptor : Json} {opts : EyeTrackerOptions} {fuel : ℕ}
    (hfuel : env.fuel = fuel + 1) (hdevice : device ≠ [])
    (helement : tree.value? device = some (.deviceElement deviceName server descriptor))
    (hopts : EyeTrackerOptions.ofDescriptor descriptor = .ok opts)
    (hinterfaces : ∀ name ∈ eyeNames opts, tree.value? (device ++ [name]) = some .interfaceElement)
    (hfactories : ∀ {name factory}, env.factoriesByInterface name = some factory →
      ∀ source ifaces, factory source (.deviceElement deviceName server descriptor) ifaces =
        .handler) :
    Closed env tree fun path => ∃ name ∈ eyeNames opts,
      locateAbsolute path = ⟨device ++ [name], none⟩ := by
  have hreached {reached : PathTree} (h : Resolutions env tree reached) {path : Str}
      {name : PathName} (hname : name ∈ eyeNames opts)
      (hpath : locateAbsolute path = ⟨device ++ [name], none⟩) :
      (resolveTreeNode env.codec env.fuel path).run reached =
        (.ok (some ⟨some device, some (device ++ [name]), none, []⟩), reached) ∧
      reached.element device = .deviceElement deviceName server descriptor := by
    have hkept := h.keepsElements device _ helement (by rintro ⟨⟩)
    have hkept' := h.keepsElements (device ++ [name]) _ (hinterfaces name hname) (by rintro ⟨⟩)
    rw [hfuel]
    exact ⟨EyeInterface.run_resolveTreeNode_interface env.codec fuel hdevice hkept hpath hkept',
      by rw [PathTree.element, hkept]; rfl⟩
  have hopens (name : PathName) :
      factoryOpens ⟨some device, some (device ++ [name]), none, []⟩
        (.deviceElement deviceName server descriptor) =
        if name.1 = EYETRACKER_NAME then
          .ok (EyeInterface.openedPaths opts (getFullPath device)) else .ok [] := by
    have hlast : interfaceName ⟨some device, some (device ++ [name]), none, []⟩ = name.1 := by
      simp [interfaceName]
    rw [factoryOpens, hlast]
    simp only [hopts, Option.getD_some]
  constructor
  case full =>
    rintro path node ⟨name, hname, hpath⟩ hnode
    refine ⟨name, hname, ?_⟩
    rw [hnode] at hpath
    rw [locateAbsolute_getFullPath, hpath]
  case quiet =>
    rintro path ⟨name, hname, hpath⟩
    constructor
    case resolved =>
      intro reached reason h herror
      rw [(hreached h hname hpath).1] at herror
      cases herror
    case produced =>
      intro reached source after factory h hrun hfactory
      obtain ⟨hresolved, hhere⟩ := hreached h hname hpath
      rw [hresolved] at hrun
      cases hrun
      rw [Option.getD_some, hhere, hopens]
      apply And.intro
      · intro error
        split
        · rintro ⟨⟩
        · rintro ⟨⟩
      · intro ifaces what
        rw [hfactories hfactory]
        rintro ⟨⟩
  case fits =>
    rintro path ⟨name, hname, hpath⟩ reached source after factory opened h hrun hfactory hpaths
    obtain ⟨hresolved, hhere⟩ := hreached h hname hpath
    rw [hresolved] at hrun
    cases hrun
    rw [Option.getD_some, hhere, hopens] at hpaths
    refine ⟨?_, .inr fun ifaces => ?_⟩
    · intro path' hmem
      split at hpaths
      · cases hpaths
        obtain ⟨iface, hiface, rfl⟩ := List.mem_map.mp hmem
        have hlocated := EyeInterface.locateAbsolute_path hdevice iface
        exact ⟨⟨iface.name, List.mem_cons_of_mem _ (List.mem_map_of_mem hiface), hlocated⟩,
          _, hlocated⟩
      · cases hpaths
        cases hmem
    · rw [Option.getD_some, hhere]
      exact hfactories hfactory _ ifaces

namespace ApplicationState

/-- Nothing is a JSON text, and every interface type has a factory. -/
def eyesEnvironment : ClientEnvironment where
  codec := ⟨fun _ => none, fun _ => [], fun _ => [], fun _ => []⟩
  fuel := 12
  factoriesByInterface _ := some fun _ _ _ => .handler

/-- An eye tracker that reports directions. -/
def eyesDescriptor : Json :=
  .obj [("interfaces".toList, .obj [("eyetracker".toList, .obj [("direction".toList, .obj [])])])]

def eyesOptions : EyeTrackerOptions := ⟨true, false, false, false⟩

def eyesPath : Str := getFullPath (eyesDevice ++ [eyetrackerName])

/-- The nodes that a client receives for a server with the eye tracker. -/
def eyesNodes : Json :=
  pathTreeToJson ((((PathTree.empty.set (eyesDevice.take 1) .pluginElement).set eyesDevice
    (.deviceElement "Eyes".toList "localhost:3883".toList eyesDescriptor)).set
      (eyesDevice ++ [eyetrackerName]) .interfaceElement).set
        (eyesDevice ++ [EyeInterface.direction.name]) .interfaceElement) false

/-- The tree is received, and then the application requests the eye tracker. -/
def eyesReceived : ApplicationState :=
  ((application LOCALHOST).step (.replaceTree eyesEnvironment eyesNodes)
    (application LOCALHOST).init).getD ⟨.init, []⟩

def eyesRequested : ApplicationState :=
  ((application LOCALHOST).step (.getInterface eyesEnvironment eyesPath) eyesReceived).getD
    ⟨.init, []⟩

theorem step_eyesReceived : (application LOCALHOST).step (.replaceTree eyesEnvironment eyesNodes)
    (application LOCALHOST).init = some eyesReceived := by
  have hsome : ((application LOCALHOST).step (.replaceTree eyesEnvironment eyesNodes)
      (application LOCALHOST).init).isSome = true := by decide +kernel
  obtain ⟨state, hstate⟩ := Option.isSome_iff_exists.mp hsome
  rw [eyesReceived, hstate]
  rfl

theorem step_eyesRequested : (application LOCALHOST).step (.getInterface eyesEnvironment eyesPath)
    eyesReceived = some eyesRequested := by
  have hsome : ((application LOCALHOST).step (.getInterface eyesEnvironment eyesPath)
      eyesReceived).isSome = true := by decide +kernel
  obtain ⟨state, hstate⟩ := Option.isSome_iff_exists.mp hsome
  rw [eyesRequested, hstate]
  rfl

theorem reachable_eyesRequested :
    (application LOCALHOST).ReachableWhile (NoOrphans LOCALHOST) eyesRequested := by
  have hreceived : (application LOCALHOST).ReachableWhile (NoOrphans LOCALHOST) eyesReceived := by
    refine .step .init ?_ step_eyesReceived
    intro _ nodes _
    refine ⟨rfl, fun _ => ⟨fun _ => False, ⟨False.elim, False.elim, False.elim⟩, ?_⟩⟩
    intro node hnode
    exact absurd (congrArg InterfaceTreeValue.interfaces InterfaceTree.value_init) hnode
  refine .step hreceived ?_ step_eyesRequested
  intro node hnode _
  have hclosed : Closed eyesEnvironment eyesReceived.context.manager.tree fun path =>
      ∃ name ∈ eyeNames eyesOptions, locateAbsolute path = ⟨eyesDevice ++ [name], none⟩ := by
    have hfuel : eyesEnvironment.fuel = 11 + 1 := rfl
    have helement : eyesReceived.context.manager.tree.value? eyesDevice =
        some (.deviceElement "Eyes".toList "localhost:3883".toList eyesDescriptor) := by
      decide +kernel
    apply closed_eyeNames hfuel (by decide) helement rfl
    · decide +kernel
    · intro name factory hfactory source ifaces
      cases hfactory
      rfl
  exact ⟨_, ⟨eyetrackerName, List.mem_cons_self, locateAbsolute_getFullPath _⟩, hclosed⟩

theorem balanced_eyesRequested : eyesRequested.Balanced ∧ ∀ {env nodes after},
    (application LOCALHOST).step (.replaceTree env nodes) eyesRequested = some after → ∀ count,
      (application LOCALHOST).runWhile (fun _ _ => True)
        (List.replicate count (.replaceTree env nodes)) after = some after :=
  balanced_of_noOrphans reachable_eyesRequested

/-- The server goes away and comes back: the direction that the first handler opened stays. -/
theorem not_balanced : ¬ ∀ {state}, (application LOCALHOST).Reachable state → state.Balanced := by
  intro hbalanced
  let events : List ApplicationEvent :=
    [.replaceTree eyesEnvironment eyesNodes, .getInterface eyesEnvironment eyesPath,
      .replaceTree eyesEnvironment (pathTreeToJson .empty false),
      .replaceTree eyesEnvironment eyesNodes]
  have hcounts : ((application LOCALHOST).runWhile (fun _ _ => True) events
      (application LOCALHOST).init).map (fun state =>
        (state.context.interfaces.length, (state.held ++ state.context.alive).length)) =
          some (3, 2) := by decide +kernel
  obtain ⟨state, hrun, hlengths⟩ := Option.map_eq_some_iff.mp hcounts
  have hreach := TransitionSystem.reachableWhile_of_run .init events hrun
  have hlength := (hbalanced hreach).listed.length_eq
  rw [(Prod.mk.inj hlengths).1, (Prod.mk.inj hlengths).2] at hlength
  cases hlength

end ApplicationState

end OSVR.Client
