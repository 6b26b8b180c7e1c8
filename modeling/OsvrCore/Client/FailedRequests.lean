/-
# Requests that are ended by an exception

A request enters its interface before it connects the path. An exception in between
leaves the interface behind, in a node that is then no longer without interfaces, so
that the next request for the path does not connect it. Only a request that fails
before its interface is entered leaves nothing.
-/

import OsvrCore.Client.InternalInterfaces

set_option autoImplicit false

namespace OSVR.Client

open Common Math

namespace OpeningContext

/-- The interface tree holds the same interfaces and handlers. -/
structure SameEntries (before after : OpeningContext) : Prop where
  values : ∀ node, after.manager.interfaces.value node = before.manager.interfaces.value node
  handlers : after.manager.interfaces.handlers = before.manager.interfaces.handlers

/-- When the request for the path is ended by an exception, the interface tree is as
before, and the next request for the path that succeeds does what it would do if nothing
had been entered. -/
def LeavesNoTrace (env : ClientEnvironment) (fuel : ℕ) (path : Str) (context : OpeningContext) :
    Prop :=
  ∀ error after, (getInterface env fuel path).run context = (.error (.thrown error), after) →
    SameEntries context after ∧
      ∀ env' fuel' iface final,
        (getInterface env' fuel' path).run after = (.ok (some iface), final) →
        ∃ first, SameEntries first final ∧
          (getInterface env' fuel' path).run { after with
            manager := { after.manager with interfaces := context.manager.interfaces } } =
              (.ok (some iface), first)

/-! ## Where exceptions come from -/

/-- The factory for a source throws: it does not understand the device, or a request of
its own throws, or it throws after them. -/
inductive FactoryThrows (env : ClientEnvironment)
    (opens : Str → OpeningProgram (Option ClientInterface))
    (ifaces : List ClientInterface) (source : OriginalSource) (context : OpeningContext) : Prop
  | options {factory : SpecificFactory} {error : ClientError}
      (hfactory : env.factoriesByInterface (interfaceName source) = some factory)
      (herror : factoryOpens source (context.manager.tree.element (source.device.getD [])) =
        .error error)
  | request {factory : SpecificFactory} {front back : List Str} {path : Str}
      {opened : List ClientInterface} {reached : OpeningContext}
      (hfactory : env.factoriesByInterface (interfaceName source) = some factory)
      (hpaths : factoryOpens source (context.manager.tree.element (source.device.getD [])) =
        .ok (front ++ path :: back))
      (hrun : (openAll opens front).run context = (.ok opened, reached))
      (hthrows : Program.Throws (opens path) reached)
  | product {factory : SpecificFactory} {paths : List Str} {opened : List ClientInterface}
      {reached : OpeningContext} {what : Str}
      (hfactory : env.factoriesByInterface (interfaceName source) = some factory)
      (hpaths : factoryOpens source (context.manager.tree.element (source.device.getD [])) =
        .ok paths)
      (hrun : (openAll opens paths).run context = (.ok opened, reached))
      (hproduct : factory source (context.manager.tree.element (source.device.getD [])) ifaces =
        .exception what)

section Nested

variable {env : ClientEnvironment} {opens : Str → OpeningProgram (Option ClientInterface)}
  {context : OpeningContext} {ifaces : List ClientInterface} {source : OriginalSource}
  {path : Str} {node query : NodePath}

/-- Of several requests, one throws after the ones before it have returned. -/
theorem throws_openAll_iff {paths : List Str} : Program.Throws (openAll opens paths) context ↔
    ∃ front path back, paths = front ++ path :: back ∧ ∃ opened reached,
      (openAll opens front).run context = (.ok opened, reached) ∧
        Program.Throws (opens path) reached := by
  induction paths generalizing context with
  | nil =>
      apply Iff.intro
      · exact fun hthrows => absurd hthrows (Program.not_throws_pure _)
      · rintro ⟨front, path, back, hpaths, _⟩
        cases front <;> cases hpaths
  | cons first paths ih =>
      have hnext (iface : Option ClientInterface) {reached : OpeningContext} :
          Program.Throws (openAll opens paths >>= fun others =>
            pure (iface.toList ++ others)) reached ↔
          Program.Throws (openAll opens paths) reached := by
        rw [Program.throws_bind_iff]
        apply Iff.intro
        · rintro (hthrows | ⟨_, _, _, hpure⟩)
          · exact hthrows
          · exact absurd hpure (Program.not_throws_pure _)
        · exact .inl
      have hcons : Program.Throws (openAll opens (first :: paths)) context ↔
          Program.Throws (opens first) context ∨ ∃ iface reached,
            (opens first).run context = (.ok iface, reached) ∧
              Program.Throws (openAll opens paths) reached := by
        rw [openAll, Program.throws_bind_iff]
        simp only [hnext]
      rw [hcons]
      apply Iff.intro
      · rintro (hthrows | ⟨iface, middle, hrun, hthrows⟩)
        · exact ⟨[], first, paths, rfl, [], context, rfl, hthrows⟩
        · obtain ⟨front, path, back, rfl, opened, reached, hfront, hpath⟩ := ih.mp hthrows
          refine ⟨first :: front, path, back, rfl, iface.toList ++ opened, reached, ?_, hpath⟩
          rw [openAll, Program.run_bind_of_ok hrun, Program.run_bind_of_ok hfront]
          rfl
      · rintro ⟨_ | ⟨_, front⟩, path, back, hpaths, opened, reached, hrun, hthrows⟩
        · cases hpaths
          cases hrun
          exact .inl hthrows
        · cases hpaths
          rw [openAll, Program.run_bind_eq_ok_iff] at hrun
          obtain ⟨iface, middle, hfirst, hrun⟩ := hrun
          rw [Program.run_bind_eq_ok_iff] at hrun
          obtain ⟨others, last, hfront, hlast⟩ := hrun
          cases hlast
          exact .inr ⟨iface, middle, hfirst, ih.mpr ⟨front, path, back, rfl, others, _,
            hfront, hthrows⟩⟩

/-- The three ways in which a factory throws are all. -/
theorem throws_invokeFactory_iff : Program.Throws (invokeFactory env opens ifaces source) context ↔
    FactoryThrows env opens ifaces source context := by
  rw [invokeFactory]
  cases hfactory : env.factoriesByInterface (interfaceName source) with
  | none =>
      apply Iff.intro
      · exact fun hthrows => absurd hthrows (Program.not_throws_pure _)
      · rintro (⟨hsome, _⟩ | ⟨hsome, _⟩ | ⟨hsome, _⟩) <;> cases hfactory.symm.trans hsome
  | some factory =>
      dsimp only
      rw [Program.throws_bind_of_run (Program.run_get context)]
      cases hpaths : factoryOpens source (context.manager.tree.element (source.device.getD [])) with
      | error error =>
          apply Iff.intro
          · exact fun _ => .options hfactory hpaths
          · exact fun _ => Program.throws_of_run
              (Program.run_bind_of_error (Program.run_ofExcept_error context error))
      | ok paths =>
          rw [Program.throws_bind_of_run (Program.run_ofExcept_ok context paths),
            Program.throws_bind_iff]
          apply Iff.intro
          · rintro (hthrows | ⟨opened, reached, hrun, hthrows⟩)
            · obtain ⟨front, path, back, rfl, opened, reached, hrun, hpath⟩ :=
                throws_openAll_iff.mp hthrows
              exact .request hfactory hpaths hrun hpath
            · cases hproduct : factory source
                (context.manager.tree.element (source.device.getD [])) ifaces with
              | handler =>
                  rw [hproduct] at hthrows
                  obtain ⟨error, ⟨⟩⟩ := hthrows
              | null =>
                  rw [hproduct] at hthrows
                  exact absurd hthrows (Program.not_throws_pure _)
              | exception what => exact .product hfactory hpaths hrun hproduct
          · rintro (⟨_, herror⟩ | ⟨_, hpaths', hrun, hthrows⟩ |
              ⟨hfactory', hpaths', hrun, hproduct⟩)
            · cases hpaths.symm.trans herror
            · cases hpaths.symm.trans hpaths'
              exact .inl (throws_openAll_iff.mpr ⟨_, _, _, rfl, _, _, hrun, hthrows⟩)
            · cases hpaths.symm.trans hpaths'
              cases hfactory.symm.trans hfactory'
              refine .inr ⟨_, _, hrun, ?_⟩
              rw [hproduct]
              exact Program.throws_of_run (Program.run_throw _ _)

/-! ## The first request for a node -/

/-- The context when an interface for the path has been entered. -/
def entering (context : OpeningContext) (node : NodePath) (path : Str) : OpeningContext :=
  { context with
    created := context.created + 1
    manager := context.manager.entered node ⟨context.created, path⟩ }

/-- The same context when the path has been resolved, with no handler at the node. -/
def resolving (context : OpeningContext) (node : NodePath) (path : Str) (tree : PathTree) :
    OpeningContext :=
  { context.entering node path with
    manager :=
      ⟨tree, ((context.entering node path).manager.interfaces.touch node).removeHandler node,
        context.manager.made⟩ }

/-- Connecting the path of a first interface throws: its resolution does, or the factory
for its source. -/
inductive ConnectionThrows (env : ClientEnvironment)
    (opens : Str → OpeningProgram (Option ClientInterface)) (node : NodePath) (path : Str)
    (context : OpeningContext) : Prop
  | resolution
      (hthrows : Program.Throws (resolveTreeNode env.codec env.fuel path) context.manager.tree)
  | factory {source : OriginalSource} {tree : PathTree}
      (hrun : (resolveTreeNode env.codec env.fuel path).run context.manager.tree =
        (.ok (some source), tree))
      (hthrows : FactoryThrows env opens [⟨context.created, path⟩] source
        (context.resolving node path tree))

theorem run_getInterfaceWith_of_failure {error : TreeError} (hne : path ≠ [])
    (hpath : locateAbsolute path = ⟨node, some error⟩) :
    (getInterfaceWith env opens path).run context = (.error (.thrown (.tree error)), { context with
      created := context.created + 1
      manager :=
        { context.manager with interfaces := context.manager.interfaces.touch node } }) := by
  have hadd : (addInterface env opens ⟨context.created, path⟩).run
      { context with created := context.created + 1 } =
        (.error (.thrown (.tree error)), { context with
          created := context.created + 1
          manager := { context.manager with
            interfaces := context.manager.interfaces.touch node } }) := by
    rw [addInterface, Program.run_bind_of_error
      (run_onManager_of_eq (ClientManager.run_getNodeForPath_of_failure hpath))]
  rw [getInterfaceWith, if_neg (by rwa [List.isEmpty_iff]),
    Program.run_bind_of_ok (Program.run_get _), Program.run_bind_of_ok (Program.run_modify _ _),
    Program.run_bind_of_error hadd]

theorem second_addInterfaceAt (iface : ClientInterface) :
    ((context.manager.interfaces.touch node).addInterfaceAt node iface).2 =
      (context.manager.interfaces.value node).interfaces.isEmpty := by
  rw [InterfaceTree.addInterfaceAt, InterfaceTree.value_touch]

theorem ne_nil_of_located (hpath : locateAbsolute path = ⟨node, none⟩) : path ≠ [] := by
  rintro rfl
  cases hpath

/-- A request for a node that has interfaces connects nothing. -/
theorem run_getInterfaceWith_of_occupied (hpath : locateAbsolute path = ⟨node, none⟩)
    (hoccupied : (context.manager.interfaces.value node).interfaces ≠ []) :
    (getInterfaceWith env opens path).run context =
      (.ok (some ⟨context.created, path⟩), { context.entering node path with
        interfaces := context.interfaces ++ [⟨context.created, path⟩] }) := by
  have hadd : (addInterface env opens ⟨context.created, path⟩).run
      { context with created := context.created + 1 } = (.ok (), context.entering node path) := by
    rw [addInterface, Program.run_bind_of_ok
      (run_onManager_of_eq (ClientManager.run_getNodeForPath hpath)),
      Program.run_bind_of_ok (Program.run_get _),
      Program.run_bind_of_ok (run_onManager_of_eq (Program.run_modify _ _)),
      second_addInterfaceAt, if_neg (by rwa [List.isEmpty_iff])]
    rfl
  rw [getInterfaceWith, if_neg (by rw [List.isEmpty_iff]; exact ne_nil_of_located hpath),
    Program.run_bind_of_ok (Program.run_get _), Program.run_bind_of_ok (Program.run_modify _ _),
    Program.run_bind_of_ok hadd]
  rfl

/-- A request for a node without interfaces connects it when its own has been entered. -/
theorem run_getInterfaceWith_of_empty (hpath : locateAbsolute path = ⟨node, none⟩)
    (hempty : (context.manager.interfaces.value node).interfaces = []) :
    (getInterfaceWith env opens path).run context =
      match (connectCallbacksOnPath env opens path).run (context.entering node path) with
      | (.ok _, after) => (.ok (some ⟨context.created, path⟩), { after with
          interfaces := after.interfaces ++ [⟨context.created, path⟩] })
      | (.error reason, after) => (.error reason, after) := by
  have hadd : (addInterface env opens ⟨context.created, path⟩).run
      { context with created := context.created + 1 } =
        (connectCallbacksOnPath env opens path >>= fun _ => pure ()).run
          (context.entering node path) := by
    rw [addInterface, Program.run_bind_of_ok
      (run_onManager_of_eq (ClientManager.run_getNodeForPath hpath)),
      Program.run_bind_of_ok (Program.run_get _),
      Program.run_bind_of_ok (run_onManager_of_eq (Program.run_modify _ _)),
      second_addInterfaceAt, if_pos (by rw [hempty]; rfl)]
    rfl
  rw [getInterfaceWith, if_neg (by rw [List.isEmpty_iff]; exact ne_nil_of_located hpath),
    Program.run_bind_of_ok (Program.run_get _), Program.run_bind_of_ok (Program.run_modify _ _)]
  rcases hrun : (connectCallbacksOnPath env opens path).run (context.entering node path) with
    ⟨reason | success, after⟩
  · rw [Program.run_bind_of_error (hadd.trans (Program.run_bind_of_error hrun))]
  · rw [Program.run_bind_of_ok (hadd.trans (Program.run_bind_of_ok hrun))]
    rfl

theorem connectionThrows_iff_of_error {reason : Abort TreeError} {tree : PathTree}
    (hrun : (resolveTreeNode env.codec env.fuel path).run context.manager.tree =
      (.error reason, tree)) :
    ConnectionThrows env opens node path context ↔ ∃ error, reason = .thrown error := by
  apply Iff.intro
  · rintro (⟨error, herror⟩ | ⟨hsome, _⟩)
    · rw [hrun] at herror
      cases herror
      exact ⟨error, rfl⟩
    · cases hrun.symm.trans hsome
  · rintro ⟨error, rfl⟩
    exact .resolution (Program.throws_of_run hrun)

theorem connectionThrows_iff_of_ok {source : Option OriginalSource} {tree : PathTree}
    (hrun : (resolveTreeNode env.codec env.fuel path).run context.manager.tree =
      (.ok source, tree)) :
    ConnectionThrows env opens node path context ↔
      ∃ found, source = some found ∧ FactoryThrows env opens [⟨context.created, path⟩] found
        (context.resolving node path tree) := by
  apply Iff.intro
  · rintro (⟨error, herror⟩ | ⟨hsome, hthrows⟩)
    · rw [hrun] at herror
      cases herror
    · cases hrun.symm.trans hsome
      exact ⟨_, rfl, hthrows⟩
  · rintro ⟨found, rfl, hthrows⟩
    exact .factory hrun hthrows

/-- The factory gets the one interface that has been entered. -/
theorem run_getInterfacesForPath_resolving {tree : PathTree}
    (hpath : locateAbsolute path = ⟨node, none⟩)
    (hempty : (context.manager.interfaces.value node).interfaces = []) :
    (onManager (ClientManager.getInterfacesForPath path)).run (context.resolving node path tree) =
      (.ok [⟨context.created, path⟩], context.resolving node path tree) := by
  apply run_onManager_of_eq
  rw [ClientManager.getInterfacesForPath,
    Program.run_bind_of_ok (ClientManager.run_getNodeForPath hpath)]
  simp [resolving, entering, Program.run_bind, InterfaceTree.value_removeHandler,
    ClientManager.value_entered_of_empty _ hempty]

/-- What connecting the path of a first interface throws. -/
theorem throws_connectCallbacksOnPath_iff (hpath : locateAbsolute path = ⟨node, none⟩)
    (hempty : (context.manager.interfaces.value node).interfaces = []) :
    Program.Throws (connectCallbacksOnPath env opens path) (context.entering node path) ↔
      ConnectionThrows env opens node path context := by
  have herase :
      (onManager (ClientManager.eraseHandlerForPath path)).run (context.entering node path) =
      (.ok (), context.resolving node path context.manager.tree) :=
    run_onManager_of_eq (ClientManager.run_eraseHandlerForPath hpath)
  rw [connectCallbacksOnPath, Program.throws_bind_of_run herase]
  rcases hrun : (resolveTreeNode env.codec env.fuel path).run context.manager.tree with
    ⟨reason | source, tree⟩
  · have htree : (onManager (ClientManager.onTree
        ((resolveTreeNode env.codec env.fuel path).mapError ClientError.tree))).run
          (context.resolving node path context.manager.tree) =
        (.error (reason.map .tree), context.resolving node path tree) := run_onTree_of_error hrun
    rw [Program.throws_bind_of_error htree, connectionThrows_iff_of_error hrun]
    apply Iff.intro
    · rintro ⟨error, herror⟩
      cases reason with
      | thrown error => exact ⟨error, rfl⟩
      | undefined => cases herror
      | outOfFuel => cases herror
    · rintro ⟨error, rfl⟩
      exact ⟨.tree error, rfl⟩
  · have htree : (onManager (ClientManager.onTree
        ((resolveTreeNode env.codec env.fuel path).mapError ClientError.tree))).run
          (context.resolving node path context.manager.tree) =
        (.ok source, context.resolving node path tree) := run_onTree_of_ok hrun
    rw [Program.throws_bind_of_run htree, connectionThrows_iff_of_ok hrun]
    cases source with
    | none =>
        apply Iff.intro
        · exact fun hthrows => absurd hthrows (Program.not_throws_pure _)
        · rintro ⟨_, ⟨⟩, _⟩
    | some source =>
        dsimp only
        rw [Program.throws_bind_of_run (run_getInterfacesForPath_resolving hpath hempty),
          Program.throws_bind_iff, throws_invokeFactory_iff]
        apply Iff.intro
        · rintro (hthrows | ⟨result, reached, _, hthrows⟩)
          · exact ⟨source, rfl, hthrows⟩
          · cases result with
            | none => exact absurd hthrows (Program.not_throws_pure _)
            | some handler =>
                rw [Program.throws_bind_of_run
                  (run_onManager_of_eq (ClientManager.run_replaceHandlerForPath hpath))] at hthrows
                exact absurd hthrows (Program.not_throws_pure _)
        · rintro ⟨_, ⟨⟩, hthrows⟩
          exact .inl hthrows

/-! ## What stays behind -/

/-- The nodes that have interfaces keep some. -/
def Occupied (before after : OpeningContext) : Prop :=
  ∀ node, (before.manager.interfaces.value node).interfaces ≠ [] →
    (after.manager.interfaces.value node).interfaces ≠ []

theorem Occupied.trans ⦃first second third : OpeningContext⦄ (h : Occupied first second)
    (h' : Occupied second third) : Occupied first third := fun node hnode => h' node (h node hnode)

theorem occupied_of_interfaces {before after : OpeningContext}
    (h : ∀ node, (after.manager.interfaces.value node).interfaces =
      (before.manager.interfaces.value node).interfaces) : Occupied before after :=
  fun node hnode => by rwa [h]

theorem occupied_entering : Occupied context (context.entering node path) := by
  intro query hquery
  by_cases hsame : query = node
  · rw [hsame]
    exact InterfaceTree.interfaces_addInterfaceAt
  · rwa [entering, ClientManager.value_entered_of_ne hsame]

/-- Looking up the node of a path first leaves all values. -/
theorem interfaces_getNodeForPath_bind {α : Type} (path : Str) {next : NodePath → ManagerProgram α}
    (hnext : ∀ node manager query, (((next node).run manager).2.interfaces.value query).interfaces =
      (manager.interfaces.value query).interfaces) (manager : ClientManager) (query : NodePath) :
    ((((ClientManager.getNodeForPath path >>= next).run manager).2.interfaces.value
      query).interfaces) = (manager.interfaces.value query).interfaces := by
  have htouched :
      (((ClientManager.getNodeForPath path).run manager).2.interfaces.value query).interfaces =
      (manager.interfaces.value query).interfaces := by
    show ((manager.interfaces.touch _).value query).interfaces = _
    rw [InterfaceTree.value_touch]
  rcases hrun : (ClientManager.getNodeForPath path).run manager with ⟨reason | node, located⟩
  · rw [hrun] at htouched
    rw [Program.run_bind_of_error hrun]
    exact htouched
  · rw [hrun] at htouched
    rw [Program.run_bind_of_ok hrun, hnext, htouched]

theorem stepsRelate_occupied : StepsRelate env Occupied where
  refl _ _ := id
  trans := Occupied.trans
  erase path := by
    intro context
    apply occupied_of_interfaces
    apply interfaces_getNodeForPath_bind
    intro node manager query
    show ((manager.interfaces.removeHandler node).value query).interfaces = _
    rw [InterfaceTree.value_removeHandler]
    split
    next hquery => rw [hquery]
    next => rfl
  resolve _ _ _ := id
  collect path := by
    intro context
    apply occupied_of_interfaces
    exact interfaces_getNodeForPath_bind path (fun _ _ _ => rfl) context.manager
  make _ _ _ := id
  replace path handler := by
    intro context
    apply occupied_of_interfaces
    apply interfaces_getNodeForPath_bind
    intro node manager query
    show ((manager.interfaces.setHandler node handler).value query).interfaces = _
    rw [InterfaceTree.value_setHandler]
    split
    next hquery => rw [hquery]
    next => rfl

theorem relates_occupied_getInterface (fuel : ℕ) (path : Str) :
    Program.Relates Occupied (getInterface env fuel path) := by
  induction fuel generalizing path with
  | zero => exact fun _ _ => id
  | succ fuel ih =>
      intro context
      rw [getInterface]
      by_cases hne : path = []
      · rw [hne]
        exact fun _ => id
      · rcases hpath : locateAbsolute path with ⟨node, _ | error⟩
        · by_cases hempty : (context.manager.interfaces.value node).interfaces = []
          · rw [run_getInterfaceWith_of_empty hpath hempty]
            have hconnect : Occupied (context.entering node path)
                ((connectCallbacksOnPath env (getInterface env fuel) path).run
                  (context.entering node path)).2 :=
              stepsRelate_occupied.connectCallbacksOnPath ih path _
            rcases hrun : (connectCallbacksOnPath env (getInterface env fuel) path).run
              (context.entering node path) with ⟨reason | success, after⟩
            · rw [hrun] at hconnect
              exact occupied_entering.trans hconnect
            · rw [hrun] at hconnect
              exact occupied_entering.trans hconnect
          · rw [run_getInterfaceWith_of_occupied hpath hempty]
            exact occupied_entering
        · rw [run_getInterfaceWith_of_failure hne hpath]
          exact occupied_of_interfaces fun query => by rw [InterfaceTree.value_touch]

/-! ## Which failures leave no trace -/

/-- However a request ends, its interface is at the node that it has found. -/
theorem occupied_getInterface {fuel : ℕ} (hpath : locateAbsolute path = ⟨node, none⟩) :
    (((getInterface env (fuel + 1) path).run context).2.manager.interfaces.value
      node).interfaces ≠ [] := by
  have hentered : ((context.entering node path).manager.interfaces.value node).interfaces ≠ [] :=
    InterfaceTree.interfaces_addInterfaceAt
  rw [getInterface]
  by_cases hempty : (context.manager.interfaces.value node).interfaces = []
  · have hconnect : Occupied (context.entering node path)
        ((connectCallbacksOnPath env (getInterface env fuel) path).run
          (context.entering node path)).2 :=
      stepsRelate_occupied.connectCallbacksOnPath (relates_occupied_getInterface fuel) path _
    rw [run_getInterfaceWith_of_empty hpath hempty]
    split
    next heq =>
      rw [heq] at hconnect
      exact hconnect node hentered
    next heq =>
      rw [heq] at hconnect
      exact hconnect node hentered
  · rw [run_getInterfaceWith_of_occupied hpath hempty]
    exact hentered

/-- The next request for the path returns an interface, and connects no handler whatever
has changed in between. -/
theorem handler_after_thrown {fuel : ℕ} {error : ClientError} {after : OpeningContext}
    (hpath : locateAbsolute path = ⟨node, none⟩)
    (hrun : (getInterface env (fuel + 1) path).run context = (.error (.thrown error), after))
    (env' : ClientEnvironment) (fuel' : ℕ) :
    ∃ final, (getInterface env' (fuel' + 1) path).run after =
        (.ok (some ⟨after.created, path⟩), final) ∧
      ∀ query, (final.manager.interfaces.value query).handler =
        (after.manager.interfaces.value query).handler := by
  have hoccupied : (after.manager.interfaces.value node).interfaces ≠ [] := by
    have hleft : (((getInterface env (fuel + 1) path).run context).2.manager.interfaces.value
        node).interfaces ≠ [] := occupied_getInterface hpath
    rwa [hrun] at hleft
  rw [getInterface, run_getInterfaceWith_of_occupied hpath hoccupied]
  exact ⟨_, rfl, fun query => ClientManager.handler_entered⟩

/-- The interface of a request whose connecting throws stays entered. -/
theorem not_leavesNoTrace_of_throws {fuel : ℕ} (hpath : locateAbsolute path = ⟨node, none⟩)
    (hempty : (context.manager.interfaces.value node).interfaces = [])
    (hthrows : ConnectionThrows env (getInterface env fuel) node path context) :
    ¬ LeavesNoTrace env (fuel + 1) path context := by
  intro htrace
  obtain ⟨error, herror⟩ := (throws_connectCallbacksOnPath_iff hpath hempty).mpr hthrows
  rcases hconnect : (connectCallbacksOnPath env (getInterface env fuel) path).run
    (context.entering node path) with ⟨result, after⟩
  rw [hconnect] at herror
  cases herror
  have hrun : (getInterface env (fuel + 1) path).run context = (.error (.thrown error), after) := by
    rw [getInterface, run_getInterfaceWith_of_empty hpath hempty, hconnect]
  have hleft : (((getInterface env (fuel + 1) path).run context).2.manager.interfaces.value
      node).interfaces ≠ [] := occupied_getInterface hpath
  rw [hrun] at hleft
  apply hleft
  rw [(htrace error after hrun).1.values, hempty]

/-- Exactly when no exception comes from the connecting of a first interface, requests that
are ended by one leave nothing. -/
theorem leavesNoTrace_of_quiet_iff {fuel : ℕ} : LeavesNoTrace env (fuel + 1) path context ↔
    ∀ node, locateAbsolute path = ⟨node, none⟩ →
      (context.manager.interfaces.value node).interfaces = [] →
        ¬ ConnectionThrows env (getInterface env fuel) node path context := by
  apply Iff.intro
  · exact fun htrace node hpath hempty hthrows =>
      not_leavesNoTrace_of_throws hpath hempty hthrows htrace
  · intro hquiet error after hrun
    rw [getInterface] at hrun
    by_cases hne : path = []
    · rw [hne] at hrun
      cases hrun
    · rcases hpath : locateAbsolute path with ⟨node, _ | failure⟩
      · by_cases hempty : (context.manager.interfaces.value node).interfaces = []
        · refine absurd ?_ (hquiet node hpath hempty)
          rw [← throws_connectCallbacksOnPath_iff hpath hempty]
          rw [run_getInterfaceWith_of_empty hpath hempty] at hrun
          split at hrun
          next => cases hrun
          next hconnect =>
            cases hrun
            exact Program.throws_of_run hconnect
        · rw [run_getInterfaceWith_of_occupied hpath hempty] at hrun
          cases hrun
      · rw [run_getInterfaceWith_of_failure hne hpath] at hrun
        cases hrun
        apply And.intro
        · exact ⟨fun query => InterfaceTree.value_touch, rfl⟩
        · intro env' fuel' iface final hlater
          cases fuel' with
          | zero => cases hlater
          | succ fuel' =>
              rw [getInterface, run_getInterfaceWith_of_failure hne hpath] at hlater
              cases hlater

/-- Requests that are ended by an exception leave nothing exactly when none comes from the
connecting of a first interface. What another one leaves is an interface at its node, so that the
next request for the path returns and connects no handler. -/
theorem leavesNoTrace_iff {fuel : ℕ} :
    (LeavesNoTrace env (fuel + 1) path context ↔
      ∀ node, locateAbsolute path = ⟨node, none⟩ →
        (context.manager.interfaces.value node).interfaces = [] →
          ¬ ConnectionThrows env (getInterface env fuel) node path context) ∧
      ∀ node error after, locateAbsolute path = ⟨node, none⟩ →
        (getInterface env (fuel + 1) path).run context = (.error (.thrown error), after) →
          ∀ (env' : ClientEnvironment) (fuel' : ℕ),
            ∃ final, (getInterface env' (fuel' + 1) path).run after =
                (.ok (some ⟨after.created, path⟩), final) ∧
              ∀ query, (final.manager.interfaces.value query).handler =
                (after.manager.interfaces.value query).handler :=
  ⟨leavesNoTrace_of_quiet_iff, fun _ _ _ => handler_after_thrown⟩

end Nested

/-! ## A path that resolves to a relative one -/

/-- Nothing is a JSON text, and there are no factories. -/
def aliasEnvironment : ClientEnvironment where
  codec := ⟨fun _ => none, fun _ => [], fun _ => [], fun _ => []⟩
  fuel := 2
  factoriesByInterface _ := none

def aliasName : PathName := ⟨"hand".toList, by decide⟩

/-- A context that has received an alias with a relative path as its source. -/
def aliasContext : OpeningContext :=
  { init with manager := { ClientManager.init with
      tree := PathTree.empty.set [aliasName] (.aliasElement "tracker/0".toList 0) } }

deriving instance DecidableEq for OriginalSource

theorem not_leavesNoTrace :
    ¬ ∀ env fuel path context, LeavesNoTrace env (fuel + 1) path context := by
  intro htrace
  have hresolution : ((resolveTreeNode aliasEnvironment.codec aliasEnvironment.fuel
      (getFullPath [aliasName])).run aliasContext.manager.tree).1 =
        .error (.thrown (.pathNotAbsolute "tracker/0".toList)) := by
    decide +kernel
  have hthrows : ConnectionThrows aliasEnvironment (getInterface aliasEnvironment 0) [aliasName]
      (getFullPath [aliasName]) aliasContext := .resolution ⟨_, hresolution⟩
  exact not_leavesNoTrace_of_throws (locateAbsolute_getFullPath _)
    (congrArg InterfaceTreeValue.interfaces InterfaceTree.value_init) hthrows
      (htrace aliasEnvironment 0 (getFullPath [aliasName]) aliasContext)

end OpeningContext

end OSVR.Client
