/-
# What a request leads to

A request for an interface may have a factory make further requests, and these connect
their paths in turn. The paths that it can come to are known before it is made, and so
is whether a handler can come of it. Nothing changes at other paths.
-/

import OsvrCore.Client.InterfaceOwnership

set_option autoImplicit false

namespace OSVR.Client

open Common Math

/-! ## What is known before a request -/

/-- The path is resolved to this source, with the element of its device, in a tree that
resolutions leave. -/
inductive ResolvesTo (env : ClientEnvironment) (tree : PathTree) (path : Str) :
    OriginalSource → PathElement → Prop
  | of_run {reached after : PathTree} {source : OriginalSource}
      (hreached : Resolutions env tree reached)
      (hrun : (resolveTreeNode env.codec env.fuel path).run reached = (.ok (some source), after)) :
      ResolvesTo env tree path source (after.element (source.device.getD []))

/-- The factory for the path may request the other one. -/
def Requests (env : ClientEnvironment) (tree : PathTree) (path other : Str) : Prop :=
  ∃ source element list, ResolvesTo env tree path source element ∧
    env.factoriesByInterface (interfaceName source) ≠ none ∧
    factoryOpens source element = .ok list ∧ other ∈ list

/-- No factory makes a handler for the path. -/
def Handlerless (env : ClientEnvironment) (tree : PathTree) (path : Str) : Prop :=
  ∀ source element factory ifaces, ResolvesTo env tree path source element →
    env.factoriesByInterface (interfaceName source) = some factory →
    factory source element ifaces ≠ .handler

namespace ClientManager

/-- The path leads to a node that has no interface. -/
def Vacant (manager : ClientManager) (path : Str) : Prop :=
  ∃ node, locateAbsolute path = ⟨node, none⟩ ∧ (manager.interfaces.value node).interfaces = []

/-- The paths that a request may come to ask for: only the first interface of a path has
it connected. -/
inductive Asks (env : ClientEnvironment) (manager : ClientManager) (first : Str) : Str → Prop
  | self : Asks env manager first first
  | next {path other : Str} (prior : Asks env manager first path) (hvacant : manager.Vacant path)
      (hrequests : Requests env manager.tree path other) : Asks env manager first other

/-- A request stays within a set of paths that is closed under what factories request. -/
theorem Asks.of_closed {env : ClientEnvironment} {manager : ClientManager} {paths : Str → Prop}
    {first path : Str} (hclosed : Closed env manager.tree paths) (hfirst : paths first)
    (hasks : manager.Asks env first path) : paths path := by
  induction hasks with
  | self => exact hfirst
  | next _ _ hrequests ih =>
      obtain ⟨source, element, list, ⟨hreached, hrun⟩, hsome, hopens, hmem⟩ := hrequests
      obtain ⟨factory, hfactory⟩ := Option.ne_none_iff_exists'.mp hsome
      exact ((hclosed.fits ih _ _ _ factory list hreached hrun hfactory hopens).1 _ hmem).1

/-- What requests for the paths of a set change, in a manager where they make no handler if
`idle`. -/
structure Requested (env : ClientEnvironment) (asked : Str → Prop) (idle : Prop)
    (before after : ClientManager) : Prop where
  sound : before.Sound → after.Sound
  resolved : Resolutions env before.tree after.tree
  occupied : ∀ {node}, (before.interfaces.value node).interfaces ≠ [] →
    (after.interfaces.value node).interfaces ≠ []
  spared : ∀ {node}, (∀ path, asked path → locateAbsolute path ≠ ⟨node, none⟩) →
    (after.interfaces.value node).interfaces = (before.interfaces.value node).interfaces
  handlers : idle → after.interfaces.handlers = before.interfaces.handlers

/-- The set is closed under what factories request, and no factory makes a handler if
`idle`. -/
structure Confines (env : ClientEnvironment) (start : ClientManager) (asked : Str → Prop)
    (idle : Prop) : Prop where
  requests : ∀ {path other}, asked path → start.Vacant path →
    Requests env start.tree path other → asked other
  handlerless : idle → ∀ {path}, asked path → start.Vacant path →
    Handlerless env start.tree path

namespace Requested

variable {env : ClientEnvironment} {asked : Str → Prop} {idle : Prop}
  {first second third : ClientManager}

theorem refl (manager : ClientManager) : Requested env asked idle manager manager where
  sound := id
  resolved := .none
  occupied := id
  spared _ := rfl
  handlers _ := rfl

theorem trans (h : Requested env asked idle first second)
    (h' : Requested env asked idle second third) : Requested env asked idle first third where
  sound := h'.sound ∘ h.sound
  resolved := h.resolved.trans h'.resolved
  occupied hnode := h'.occupied (h.occupied hnode)
  spared hnode := (h'.spared hnode).trans (h.spared hnode)
  handlers hidle := (h'.handlers hidle).trans (h.handlers hidle)

/-- Nothing but the path tree and handlers that are not set have changed. -/
theorem congr (hresolved : Resolutions env first.tree second.tree)
    (hvalue : ∀ node, second.interfaces.value node = first.interfaces.value node)
    (hhandlers : second.interfaces.handlers = first.interfaces.handlers)
    (hmade : first.made ≤ second.made) : Requested env asked idle first second where
  sound h := by
    refine ⟨h.linked.congr hvalue hhandlers, fun handler hmem => ?_⟩
    rw [hhandlers] at hmem
    exact (h.made handler hmem).trans_le hmade
  resolved := hresolved
  occupied hnode := by rwa [hvalue]
  spared _ := by rw [hvalue]
  handlers _ := hhandlers

/-- A new handler is set at a node with interfaces. -/
theorem setHandler {manager : ClientManager} {node : NodePath} {handler : RemoteHandler}
    (hnew : handler ∉ manager.interfaces.handlers) (hmade : handler < manager.made)
    (hbusy : ¬ idle) (hoccupied : (manager.interfaces.value node).interfaces ≠ []) :
    Requested env asked idle manager { manager with
      interfaces := (manager.interfaces.touch node).setHandler node handler } := by
  have hvalue (query : NodePath) :
      (((manager.interfaces.touch node).setHandler node handler).value query).interfaces =
        (manager.interfaces.value query).interfaces := by
    rw [InterfaceTree.value_setHandler, InterfaceTree.value_touch, InterfaceTree.value_touch]
    split
    next hquery => rw [hquery]
    next => rfl
  constructor
  case sound =>
    intro h
    have hlinked := h.linked.touch node
    refine ⟨hlinked.setHandler hnew (by rwa [InterfaceTree.value_touch]), ?_⟩
    intro other hmem
    rw [hlinked.handlers_setHandler_of_not_mem node hnew, List.mem_append,
      List.mem_singleton] at hmem
    rcases hmem with hmem | rfl
    · rw [InterfaceTree.handlers_removeHandler] at hmem
      exact h.made other (HandlerContainer.mem_of_mem_remove hmem)
    · exact hmade
  case resolved => exact .none
  case occupied =>
    intro query hquery
    rwa [hvalue]
  case spared => exact fun _ => hvalue _
  case handlers => exact fun hidle => absurd hidle hbusy

/-- An interface is entered at the node of a path of the set. -/
theorem entered {manager : ClientManager} {node : NodePath} {iface : ClientInterface}
    (hasked : asked iface.path) (hnode : locateAbsolute iface.path = ⟨node, none⟩) :
    Requested env asked idle manager (manager.entered node iface) where
  sound h := h.entered node iface
  resolved := .none
  occupied {query} hquery := by
    by_cases hsame : query = node
    · rw [hsame]
      exact InterfaceTree.interfaces_addInterfaceAt
    · rwa [ClientManager.value_entered_of_ne hsame]
  spared {query} hother := by
    have hne : query ≠ node := fun hsame => hother iface.path hasked (hsame ▸ hnode)
    rw [ClientManager.value_entered_of_ne hne]
  handlers _ := ClientManager.handlers_entered

end Requested

end ClientManager

/-! ## What the calls change -/

namespace OpeningContext

open ClientManager (Vacant Asks Requested Confines)

variable {env : ClientEnvironment} {asked : Str → Prop} {idle : Prop} {start : ClientManager}
  {opens : Str → OpeningProgram (Option ClientInterface)} {context : OpeningContext} {path : Str}
  {node : NodePath}

/-- From a context that requests have led to, the program leads to another one. -/
def Keeps (env : ClientEnvironment) (asked : Str → Prop) (idle : Prop) (start : ClientManager)
    {α : Type} (program : OpeningProgram α) : Prop :=
  ∀ context, Requested env asked idle start context.manager →
    Program.Ensures program context
      (fun _ after => Requested env asked idle context.manager after.manager)
      fun after => Requested env asked idle context.manager after.manager

theorem keeps_openAll (hopens : ∀ path, asked path → Keeps env asked idle start (opens path))
    (list : List Str) (hlist : ∀ path ∈ list, asked path) :
    Keeps env asked idle start (openAll opens list) := by
  induction list with
  | nil => exact fun context _ => .pure (.refl context.manager)
  | cons path list ih =>
      rw [List.forall_mem_cons] at hlist
      intro context h
      apply (hopens path hlist.1 context h).bind
      intro iface middle hmiddle
      have hrest := ih hlist.2 middle (h.trans hmiddle)
      apply (hrest.mono (fun _ _ => hmiddle.trans) fun _ => hmiddle.trans).bind
      exact fun others after hafter => .pure hafter

/-- A handler that a factory has made is not in the container yet. -/
def Produces (idle : Prop) (after : ClientManager) (result : Option RemoteHandler) : Prop :=
  ∀ handler ∈ result, handler ∉ after.interfaces.handlers ∧ handler < after.made ∧ ¬ idle

theorem requested_invokeFactory {source : OriginalSource} (hstart : start.Sound)
    (hopens : ∀ path, asked path → Keeps env asked idle start (opens path))
    (hasked : ∀ other, Requests env start.tree path other → asked other)
    (hless : idle → Handlerless env start.tree path)
    (hresolves : ResolvesTo env start.tree path source
      (context.manager.tree.element (source.device.getD [])))
    (h : Requested env asked idle start context.manager) (ifaces : List ClientInterface) :
    Program.Ensures (invokeFactory env opens ifaces source) context (fun result after =>
        Requested env asked idle context.manager after.manager ∧ Produces idle after.manager result)
      fun after => Requested env asked idle context.manager after.manager := by
  have hnone (manager : ClientManager) : Produces idle manager none := by
    rintro handler ⟨⟩
  rw [invokeFactory]
  cases hfactory : env.factoriesByInterface (interfaceName source) with
  | none => exact .pure ⟨.refl context.manager, hnone _⟩
  | some factory =>
      apply Program.Ensures.bind_of_run (Program.run_get context)
      dsimp only
      cases hlist : factoryOpens source (context.manager.tree.element (source.device.getD [])) with
      | error error =>
          apply Program.Ensures.bind_of_error (Program.run_ofExcept_error context error)
          exact fun _ => .refl context.manager
      | ok list =>
          apply Program.Ensures.bind_of_run (Program.run_ofExcept_ok context list)
          have hall (other : Str) (hmem : other ∈ list) : asked other :=
            hasked other ⟨source, _, list, hresolves, by rw [hfactory]; simp, hlist, hmem⟩
          apply (keeps_openAll hopens list hall context h).bind
          intro opened after hafter
          cases hproduct : factory source
            (context.manager.tree.element (source.device.getD [])) ifaces with
          | null => exact .pure ⟨hafter, hnone _⟩
          | exception what => exact .of_error (Program.run_throw after _) fun _ => hafter
          | handler =>
              have hmake : (makeHandler opened).run after = (.ok after.manager.made, { after with
                  manager := { after.manager with made := after.manager.made + 1 }
                  opened := Function.update after.opened after.manager.made opened }) := rfl
              apply Program.Ensures.bind_of_run hmake
              refine .pure ⟨hafter.trans (.congr .none (fun _ => rfl) rfl (Nat.le_succ _)), ?_⟩
              rintro handler ⟨⟩
              have hsound := hafter.sound (h.sound hstart)
              refine ⟨fun hmem => Nat.lt_irrefl _ (hsound.made _ hmem), Nat.lt_succ_self _, ?_⟩
              exact fun hidle => hless hidle source _ factory ifaces hresolves hfactory hproduct

/-- Connecting the path of a node that has interfaces and no handler. -/
theorem requested_connectCallbacksOnPath (hstart : start.Sound)
    (hopens : ∀ path, asked path → Keeps env asked idle start (opens path))
    (hasked : ∀ other, Requests env start.tree path other → asked other)
    (hless : idle → Handlerless env start.tree path) (hnode : locateAbsolute path = ⟨node, none⟩)
    (h : Requested env asked idle start context.manager)
    (hoccupied : (context.manager.interfaces.value node).interfaces ≠ [])
    (hhandler : (context.manager.interfaces.value node).handler = none) :
    Program.Ensures (connectCallbacksOnPath env opens path) context
      (fun _ after => Requested env asked idle context.manager after.manager)
      fun after => Requested env asked idle context.manager after.manager := by
  let cleared : InterfaceTree := (context.manager.interfaces.touch node).removeHandler node
  have hvalue (query : NodePath) :
      cleared.value query = context.manager.interfaces.value query := by
    rw [InterfaceTree.value_removeHandler, InterfaceTree.value_touch, InterfaceTree.value_touch]
    split
    next hquery => rw [hquery, ← hhandler]
    next => rfl
  have hhandlers : cleared.handlers = context.manager.interfaces.handlers := by
    simp [cleared, InterfaceTree.handlers_removeHandler, hhandler, HandlerContainer.remove]
  have hcleared {reached : PathTree} (hreached : Resolutions env context.manager.tree reached) :
      Requested env asked idle context.manager ⟨reached, cleared, context.manager.made⟩ :=
    .congr hreached hvalue hhandlers le_rfl
  apply Program.Ensures.bind_of_run
    (run_onManager_of_eq (ClientManager.run_eraseHandlerForPath hnode))
  have hnext := Resolutions.next (@Resolutions.none env context.manager.tree) path
  rcases hrun : (resolveTreeNode env.codec env.fuel path).run context.manager.tree with
    ⟨reason | source, reached⟩
  · rw [hrun] at hnext
    have htree : (onManager (ClientManager.onTree
        ((resolveTreeNode env.codec env.fuel path).mapError ClientError.tree))).run
          { context with manager := ⟨context.manager.tree, cleared, context.manager.made⟩ } =
        (.error (reason.map .tree),
          { context with manager := ⟨reached, cleared, context.manager.made⟩ }) :=
      run_onTree_of_error hrun
    exact .bind_of_error htree fun _ => hcleared hnext
  · rw [hrun] at hnext
    have htree : (onManager (ClientManager.onTree
        ((resolveTreeNode env.codec env.fuel path).mapError ClientError.tree))).run
          { context with manager := ⟨context.manager.tree, cleared, context.manager.made⟩ } =
        (.ok source, { context with manager := ⟨reached, cleared, context.manager.made⟩ }) :=
      run_onTree_of_ok hrun
    apply Program.Ensures.bind_of_run htree
    cases source with
    | none => exact .pure (hcleared hnext)
    | some source =>
        have hifaces : (ClientManager.getInterfacesForPath path).run
            ⟨reached, cleared, context.manager.made⟩ =
              (.ok (cleared.value node).interfaces, ⟨reached, cleared, context.manager.made⟩) := by
          rw [ClientManager.getInterfacesForPath,
            Program.run_bind_of_ok (ClientManager.run_getNodeForPath hnode)]
          simp [cleared, Program.run_bind]
        have hread : (onManager (ClientManager.getInterfacesForPath path)).run
            { context with manager := ⟨reached, cleared, context.manager.made⟩ } =
              (.ok (cleared.value node).interfaces,
                { context with manager := ⟨reached, cleared, context.manager.made⟩ }) :=
          run_onManager_of_eq hifaces
        apply Program.Ensures.bind_of_run hread
        have hinvoke : Program.Ensures (invokeFactory env opens (cleared.value node).interfaces
            source) { context with manager := ⟨reached, cleared, context.manager.made⟩ } _ _ :=
          requested_invokeFactory hstart hopens hasked hless (.of_run h.resolved hrun)
            (h.trans (hcleared hnext)) _
        apply (hinvoke.mono (fun _ _ => id) fun _ => (hcleared hnext).trans).bind
        rintro result after ⟨hafter, hproduces⟩
        have hrequested := (hcleared hnext).trans hafter
        cases result with
        | none => exact .pure hrequested
        | some handler =>
            obtain ⟨hnew, hmade, hbusy⟩ := hproduces handler rfl
            apply Program.Ensures.bind_of_run
              (run_onManager_of_eq (ClientManager.run_replaceHandlerForPath hnode))
            exact .pure (hrequested.trans
              (.setHandler hnew hmade hbusy (hrequested.occupied hoccupied)))

/-- Getting an interface on a path of the set. -/
theorem keeps_getInterfaceWith (hstart : start.Sound)
    (hconfines : Confines env start asked idle)
    (hopens : ∀ path, asked path → Keeps env asked idle start (opens path)) (hpath : asked path) :
    Keeps env asked idle start (getInterfaceWith env opens path) := by
  intro context h
  rw [getInterfaceWith]
  split
  · exact .pure (.refl context.manager)
  · let iface : ClientInterface := ⟨context.created, path⟩
    apply Program.Ensures.bind_of_run (Program.run_get context)
    apply Program.Ensures.bind_of_run (Program.run_modify _ _)
    have hadd : Program.Ensures (addInterface env opens iface)
        { context with created := context.created + 1 }
        (fun _ after => Requested env asked idle context.manager after.manager)
        fun after => Requested env asked idle context.manager after.manager := by
      rcases hnode : locateAbsolute path with ⟨node, _ | error⟩
      · have hentered : Requested env asked idle context.manager
            (context.manager.entered node iface) := .entered hpath hnode
        have hfirst : ((context.manager.interfaces.touch node).addInterfaceAt node iface).2 =
            (context.manager.interfaces.value node).interfaces.isEmpty := by
          rw [InterfaceTree.addInterfaceAt, InterfaceTree.value_touch]
        apply Program.Ensures.bind_of_run
          (run_onManager_of_eq (ClientManager.run_getNodeForPath hnode))
        apply Program.Ensures.bind_of_run (Program.run_get _)
        apply Program.Ensures.bind_of_run (run_onManager_of_eq (Program.run_modify _ _))
        simp only [hfirst]
        cases hinterfaces : (context.manager.interfaces.value node).interfaces with
        | cons first rest => exact .pure hentered
        | nil =>
            have hvacant : start.Vacant path := by
              refine ⟨node, hnode, ?_⟩
              by_contra hoccupied
              exact h.occupied hoccupied hinterfaces
            have hhandler : ((context.manager.entered node iface).interfaces.value node).handler =
                none := by
              rw [ClientManager.handler_entered]
              by_contra hsome
              exact (h.sound hstart).linked.occupied node (Option.isSome_iff_ne_none.mpr hsome)
                hinterfaces
            have hconnect : Program.Ensures (connectCallbacksOnPath env opens path)
                { context with
                  created := context.created + 1, manager := context.manager.entered node iface }
                _ _ :=
              requested_connectCallbacksOnPath hstart hopens
                (fun other => hconfines.requests hpath hvacant)
                (fun hidle => hconfines.handlerless hidle hpath hvacant) hnode
                (h.trans hentered) InterfaceTree.interfaces_addInterfaceAt hhandler
            show Program.Ensures (connectCallbacksOnPath env opens path >>= fun _ => pure ()) _ _ _
            apply (hconnect.mono (fun _ _ => hentered.trans) fun _ => hentered.trans).bind
            exact fun _ after hafter => .pure hafter
      · apply Program.Ensures.bind_of_error
          (run_onManager_of_eq (ClientManager.run_getNodeForPath_of_failure hnode))
        exact fun _ => .congr .none (fun _ => InterfaceTree.value_touch) rfl le_rfl
    apply hadd.bind
    intro _ after hafter
    apply Program.Ensures.bind_of_run (Program.run_modify _ _)
    exact .pure hafter

theorem keeps_getInterface (hstart : start.Sound) (hconfines : Confines env start asked idle)
    (fuel : ℕ) (path : Str) (hpath : asked path) :
    Keeps env asked idle start (getInterface env fuel path) := by
  induction fuel generalizing path with
  | zero => exact fun _ _ => .outOfFuel
  | succ fuel ih => exact keeps_getInterfaceWith hstart hconfines ih hpath

/-- What a request changes is at the paths that it may come to ask for. -/
theorem requested_getInterface (h : context.manager.Sound) (env : ClientEnvironment) (fuel : ℕ)
    (path : Str) (hless : idle → ∀ other, context.manager.Asks env path other →
      context.manager.Vacant other → Handlerless env context.manager.tree other) :
    Program.Ensures (getInterface env fuel path) context
      (fun _ after => Requested env (context.manager.Asks env path) idle context.manager
        after.manager)
      fun after => Requested env (context.manager.Asks env path) idle context.manager
        after.manager := by
  have hconfines : Confines env context.manager (context.manager.Asks env path) idle :=
    ⟨.next, fun hidle other => hless hidle other⟩
  exact keeps_getInterface h hconfines fuel path .self context (.refl context.manager)

/-! ## The handlers stay linked -/

/-- Whatever factories request. -/
theorem confines_all (env : ClientEnvironment) (start : ClientManager) :
    Confines env start (fun _ => True) False :=
  ⟨fun _ _ _ => trivial, False.elim⟩

theorem sound_connectIfNeeded (node : NodePath) (h : context.manager.Sound) :
    Program.Ensures (connectIfNeeded env node) context (fun _ after => after.manager.Sound)
      fun after => after.manager.Sound := by
  apply Program.Ensures.bind_of_run (Program.run_get context)
  split
  next hwants =>
    have hhandler := ClientManager.handler_of_wantsHandler hwants
    have hoccupied : (context.manager.interfaces.value node).interfaces ≠ [] := by
      simp only [InterfaceTree.wantsHandler, Bool.and_eq_true, Bool.not_eq_true',
        List.isEmpty_eq_false_iff] at hwants
      exact hwants.2
    have hconnect := requested_connectCallbacksOnPath h
      (fun path _ => keeps_getInterface h (confines_all env context.manager) env.fuel path trivial)
      (fun _ _ => trivial) False.elim (locateAbsolute_getFullPath node) (.refl context.manager)
      hoccupied hhandler
    apply (hconnect.mono (fun _ _ hafter => hafter.sound h) fun _ hafter => hafter.sound h).bind
    exact fun _ after hafter => .pure hafter
  next => exact .pure h

/-- A tree that is received keeps the handlers linked, however its replacement ends. -/
theorem sound_handleReplaceTree (h : context.manager.Sound) (host : Str) (env : ClientEnvironment)
    (nodes : Json) : Program.Ensures (handleReplaceTree host env nodes) context
      (fun _ after => after.manager.Sound) fun after => after.manager.Sound := by
  apply Program.Ensures.bind_of_run (Program.run_get context)
  split
  · exact .pure h
  · apply Program.Ensures.bind_of_run (Program.run_modify _ _)
    cases hlocal : replaceLocalhostServers env.codec host nodes with
    | error error =>
        apply Program.Ensures.bind_of_error
          (Program.run_mapError_of_error (Program.run_ofExcept_error _ _))
        exact fun _ => h
    | ok replaced =>
        apply Program.Ensures.bind_of_run
          (Program.run_mapError_of_ok (Program.run_ofExcept_ok _ _))
        apply Program.Ensures.bind_of_run (run_onManager_of_eq (Program.run_modify _ _))
        have htree : Program.Ensures (onManager (ClientManager.onTree
            ((jsonToPathTree env.codec replaced).mapError ClientError.tree)))
            { context with
              lastNodes := some nodes, manager := context.manager.cleared .empty }
            (fun _ after => after.manager.Sound) fun after => after.manager.Sound :=
          ensures_onManager _ (h.cleared _)
        apply htree.bind
        intro _ after hafter
        exact (Program.ensures_walk (fun node _ => sound_connectIfNeeded node) env.fuel).1 []
          after hafter

end OpeningContext

end OSVR.Client
