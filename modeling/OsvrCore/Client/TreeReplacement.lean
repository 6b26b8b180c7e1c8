/-
# Replacements that throw

The owner of a client's path tree tells its observers that the tree is about to
change, throws the old tree away and then reads the new one, node after node. Nothing
of that is undone when a node cannot be read, and the wrapper that leaves out
repetitions has remembered the list before. What is kept is enough for another list.
-/

import OsvrCore.Client.InterfaceOwnership
import OsvrCore.Math.ProgramView

set_option autoImplicit false

namespace OSVR.Client

open Common Math

/-- A context with `m_valid` of the owner of its path tree. -/
structure TreeOwner where
  context : OpeningContext
  valid : Bool

abbrev OwnerProgram (α : Type) := Program TreeOwner ClientError α

namespace TreeOwner

/-- Code that does not see the flag. -/
def onContext {α : Type} (program : OpeningProgram α) : OwnerProgram α := fun owner =>
  ((program.run owner.context).1, { owner with context := (program.run owner.context).2 })

/-- `PathTreeOwner::replaceTree`, with the manager as the observer. -/
def replaceTree (env : ClientEnvironment) (nodes : Json) : OwnerProgram PUnit := do
  -- `PathTreeEvents::AboutToUpdate`
  onContext (OpeningContext.onManager (Program.modify fun manager =>
    { manager with interfaces := manager.interfaces.clearHandlers }))
  onContext (OpeningContext.onManager (Program.modify fun manager =>
    { manager with tree := .empty }))
  onContext (OpeningContext.onManager (ClientManager.onTree
    ((jsonToPathTree env.codec nodes).mapError .tree)))
  Program.modify fun owner => { owner with valid := true }
  -- `PathTreeEvents::AfterUpdate`
  onContext (OpeningContext.connectNeededCallbacks env)

/-- The handler for replacement trees, behind `DeduplicatingFunctionWrapper`, which
sets `m_last` before it calls the handler. -/
def handleReplaceTree (host : Str) (env : ClientEnvironment) (nodes : Json) :
    OwnerProgram PUnit := do
  if (← Program.get).context.lastNodes = some nodes then return ⟨⟩
  else
    Program.modify fun owner =>
      { owner with context := { owner.context with lastNodes := some nodes } }
    let nodes ← (Program.ofExcept (replaceLocalhostServers env.codec host nodes)).mapError
      fun error => .tree (.json error)
    replaceTree env nodes

/-! ## The context below -/

variable {owner : TreeOwner} {env : ClientEnvironment} {host : Str} {nodes : Json}

theorem shows_onContext {α : Type} (program : OpeningProgram α) :
    Program.Shows context (onContext program) program := fun _ => rfl

/-- To the context, a replacement is what it is without the flag. -/
theorem shows_replaceTree (env : ClientEnvironment) (nodes : Json) :
    Program.Shows context (replaceTree env nodes) (OpeningContext.replaceTree env nodes) := by
  have hread : Program.Shows context
      (onContext (OpeningContext.onManager (ClientManager.onTree
          ((jsonToPathTree env.codec nodes).mapError .tree))) >>= fun _ =>
        Program.modify (fun owner : TreeOwner => { owner with valid := true }) >>= fun _ =>
          onContext (OpeningContext.connectNeededCallbacks env))
      (OpeningContext.onManager (ClientManager.onTree
          ((jsonToPathTree env.codec nodes).mapError .tree)) >>= fun _ =>
        OpeningContext.connectNeededCallbacks env) := by
    apply (shows_onContext _).bind
    intro _
    exact Program.Shows.hidden_bind (fun _ => rfl) (shows_onContext _)
  -- the old tree and the handlers go in one step there
  intro owner
  exact hread { owner with context := { owner.context with
    manager := { owner.context.manager with
      interfaces := owner.context.manager.interfaces.clearHandlers, tree := .empty } } }

theorem shows_handleReplaceTree (host : Str) (env : ClientEnvironment) (nodes : Json) :
    Program.Shows context (handleReplaceTree host env nodes)
      (OpeningContext.handleReplaceTree host env nodes) := by
  apply Program.Shows.get_bind
  intro owner
  by_cases hlast : owner.context.lastNodes = some nodes
  · rw [if_pos hlast, if_pos hlast]
    exact .pure _
  · rw [if_neg hlast, if_neg hlast]
    apply Program.Shows.bind
    · exact Program.Shows.modify fun _ => rfl
    intro _
    cases hlocal : replaceLocalhostServers env.codec host nodes with
    | error error => exact fun _ => rfl
    | ok replaced => exact shows_replaceTree env replaced

/-! ## Reading that throws -/

/-- The owner when the handlers are gone and another path tree is there. -/
def cleared (owner : TreeOwner) (tree : PathTree) : TreeOwner :=
  { owner with context := { owner.context with manager := owner.context.manager.cleared tree } }

/-- The owner when a list has been remembered, or none. -/
def remembering (owner : TreeOwner) (last : Option Json) : TreeOwner :=
  { owner with context := { owner.context with lastNodes := last } }

/-- Clearing a second time does nothing but put the other tree there. -/
theorem cleared_cleared (owner : TreeOwner) (first second : PathTree) :
    (owner.cleared first).cleared second = owner.cleared second := by
  have hclear : owner.context.manager.interfaces.clearHandlers.clearHandlers =
      owner.context.manager.interfaces.clearHandlers := InterfaceTree.clearHandlers_clearHandlers
  simp only [cleared, ClientManager.cleared, hclear]

/-- A replacement reads the nodes into an empty tree and reconnects in what that gives. -/
theorem run_replaceTree (owner : TreeOwner) (env : ClientEnvironment) (nodes : Json) :
    (replaceTree env nodes).run owner =
      match ClientManager.newTree env nodes with
      | (.ok _, tree) => (onContext (OpeningContext.connectNeededCallbacks env)).run
          { owner.cleared tree with valid := true }
      | (.error reason, tree) => (.error (reason.map .tree), owner.cleared tree) := by
  have hcleared : (replaceTree env nodes).run owner =
      ((onContext (OpeningContext.onManager (ClientManager.onTree
          ((jsonToPathTree env.codec nodes).mapError .tree))) : OwnerProgram Unit) >>= fun _ =>
        Program.modify (fun owner : TreeOwner => { owner with valid := true }) >>= fun _ =>
          onContext (OpeningContext.connectNeededCallbacks env)).run (owner.cleared .empty) := rfl
  have hread {result : Except (Abort ClientError) Unit} {tree : PathTree}
      (hnew : ((jsonToPathTree env.codec nodes).mapError ClientError.tree).run .empty =
        (result, tree)) :
      (onContext (OpeningContext.onManager (ClientManager.onTree
        ((jsonToPathTree env.codec nodes).mapError .tree)))).run (owner.cleared .empty) =
          (result, owner.cleared tree) := by
    show ((((jsonToPathTree env.codec nodes).mapError ClientError.tree).run .empty).1,
      owner.cleared (((jsonToPathTree env.codec nodes).mapError ClientError.tree).run .empty).2) = _
    rw [hnew]
  rw [hcleared]
  rcases hnew : ClientManager.newTree env nodes with ⟨reason | _, tree⟩
  · rw [Program.run_bind_of_error (hread (Program.run_mapError_of_error hnew))]
  · rw [Program.run_bind_of_ok (hread (Program.run_mapError_of_ok hnew))]
    rfl

/-- Reading stops at the first node that throws; what came before it has been read. -/
theorem run_jsonToPathNodes_of_error {codec : JsonCodec} {list : List Json} {tree after : PathTree}
    {reason : Abort TreeError}
    (hrun : (jsonToPathNodes codec list).run tree = (.error reason, after)) :
    ∃ earlier malformed later reached, list = earlier ++ malformed :: later ∧
      (jsonToPathNodes codec earlier).run tree = (.ok (), reached) ∧
        (jsonToPathNode codec malformed).run reached = (.error reason, after) := by
  induction list generalizing tree with
  | nil => cases (Prod.mk.inj hrun).1
  | cons node list ih =>
      rw [jsonToPathNodes] at hrun
      rcases hnode : (jsonToPathNode codec node).run tree with ⟨reason' | _, next⟩
      · rw [Program.run_bind_of_error hnode] at hrun
        exact ⟨[], node, list, tree, rfl, rfl, hnode.trans hrun⟩
      · rw [Program.run_bind_of_ok hnode] at hrun
        obtain ⟨earlier, malformed, later, reached, hlist, hearlier, hmalformed⟩ := ih hrun
        refine ⟨node :: earlier, malformed, later, reached, ?_, ?_, hmalformed⟩
        · rw [hlist, List.cons_append]
        · rw [jsonToPathNodes, Program.run_bind_of_ok hnode, hearlier]

/-- A node that throws has set no element; nodes may have been created on the way to it. -/
theorem element_jsonToPathNode_of_error {codec : JsonCodec} {node : Json} {tree after : PathTree}
    {reason : Abort TreeError}
    (hrun : (jsonToPathNode codec node).run tree = (.error reason, after))
    (query : NodePath) : after.element query = tree.element query := by
  rw [jsonToPathNode] at hrun
  cases helement : jsonToPathElement codec node with
  | error error =>
      rw [helement, Program.run_bind_of_error (Program.run_ofExcept_error _ _)] at hrun
      rw [(Prod.mk.inj hrun).2]
  | ok element =>
      rw [helement, Program.run_bind_of_ok (Program.run_ofExcept_ok _ _)] at hrun
      cases hpath : (do (← node.index "path".toList).asString codec) with
      | error error =>
          rw [hpath, Program.run_bind_of_error (TreeProgram.run_ofJson_error _ _)] at hrun
          rw [(Prod.mk.inj hrun).2]
      | ok path =>
          rw [hpath, Program.run_bind_of_ok (TreeProgram.run_ofJson_ok _ _)] at hrun
          rcases hlocated : (getNodeByPath path).run tree with ⟨reason' | reached, located⟩
          · rw [Program.run_bind_of_error hlocated] at hrun
            rw [run_getNodeByPath] at hlocated
            rw [← (Prod.mk.inj hrun).2, ← (Prod.mk.inj hlocated).2, PathTree.element_touch]
          · rw [Program.run_bind_of_ok hlocated] at hrun
            cases (Prod.mk.inj hrun).1

/-! ## What a replacement that throws leaves -/

/-- Reading has thrown at a node: all handlers are gone, and the tree is what the nodes
before that one are turned into. The flag and what is registered are as before. -/
structure Torn (env : ClientEnvironment) (nodes : Json) (before after : TreeOwner) : Prop where
  valid : after.valid = before.valid
  listed : after.context.interfaces = before.context.interfaces
  values : ∀ node, after.context.manager.interfaces.value node =
    { before.context.manager.interfaces.value node with handler := none }
  handlers : before.context.manager.Sound → after.context.manager.interfaces.handlers = []
  partly : ∃ earlier malformed later reached, nodes.elements = earlier ++ malformed :: later ∧
    (jsonToPathNodes env.codec earlier).run .empty = (.ok (), reached) ∧
      ∀ node, after.context.manager.tree.element node = reached.element node

/-- Reconnecting has thrown: the new tree is there and valid. -/
structure InPlace (env : ClientEnvironment) (nodes : Json) (after : TreeOwner) : Prop where
  valid : after.valid = true
  kept : ∃ tree, ClientManager.newTree env nodes = (.ok (), tree) ∧
    KeepsElements tree after.context.manager.tree

theorem torn_of_error {reason : Abort TreeError} {tree : PathTree}
    (hnew : ClientManager.newTree env nodes = (.error reason, tree)) :
    Torn env nodes owner (owner.cleared tree) where
  valid := rfl
  listed := rfl
  values node := InterfaceTree.value_clearHandlers
  handlers hsound := hsound.linked.handlers_clearHandlers
  partly := by
    have ⟨earlier, malformed, later, reached, hlist, hearlier, hmalformed⟩ :=
      run_jsonToPathNodes_of_error hnew
    exact ⟨earlier, malformed, later, reached, hlist, hearlier,
      element_jsonToPathNode_of_error hmalformed⟩

theorem inPlace_of_ok {tree : PathTree} (hnew : ClientManager.newTree env nodes = (.ok (), tree)) :
    InPlace env nodes ((replaceTree env nodes).run owner).2 := by
  rw [run_replaceTree, hnew]
  have hconnected := @OpeningContext.relates_connectNeededCallbacks env (owner.cleared tree).context
  exact ⟨rfl, tree, hnew, hconnected.2.keepsElements⟩

/-- What a call leaves when the nodes could not be read, and when they could. -/
def Leaves (env : ClientEnvironment) (nodes : Json) (before : TreeOwner)
    (outcome : Except (Abort ClientError) PUnit × TreeOwner) : Prop :=
  match (ClientManager.newTree env nodes).1 with
  | .error reason => outcome.1 = .error (reason.map .tree) ∧ Torn env nodes before outcome.2
  | .ok _ => InPlace env nodes outcome.2

theorem leaves_replaceTree (owner : TreeOwner) (env : ClientEnvironment) (nodes : Json) :
    Leaves env nodes owner ((replaceTree env nodes).run owner) := by
  rcases hnew : ClientManager.newTree env nodes with ⟨reason | _, tree⟩
  · rw [Leaves, hnew, run_replaceTree, hnew]
    exact ⟨rfl, torn_of_error hnew⟩
  · rw [Leaves, hnew]
    exact inPlace_of_ok hnew

/-! ## What is received afterwards -/

/-- A list that differs from the last one is remembered, and then its tree is put in place. -/
theorem run_handleReplaceTree {received : Json} (hlast : owner.context.lastNodes ≠ some received)
    (hlocal : replaceLocalhostServers env.codec host received = .ok nodes) :
    (handleReplaceTree host env received).run owner =
      (replaceTree env nodes).run (owner.remembering (some received)) := by
  rw [handleReplaceTree, Program.run_bind_of_ok (Program.run_get _), if_neg hlast,
    Program.run_bind_of_ok (Program.run_modify _ _), hlocal,
    Program.run_bind_of_ok (Program.run_mapError_of_ok (Program.run_ofExcept_ok _ _))]
  rfl

/-- The same list again is dropped. -/
theorem run_handleReplaceTree_of_last {received : Json}
    (hlast : owner.context.lastNodes = some received) :
    (handleReplaceTree host env received).run owner = (.ok ⟨⟩, owner) := by
  rw [handleReplaceTree, Program.run_bind_of_ok (Program.run_get _), if_pos hlast]
  rfl

/-- How a replacement ends does not depend on an earlier one that could not be read. -/
theorem run_replaceTree_cleared (owner : TreeOwner) (tree : PathTree) (env : ClientEnvironment)
    (nodes : Json) :
    (replaceTree env nodes).run (owner.cleared tree) = (replaceTree env nodes).run owner := by
  -- the flag is set by both or kept by both
  have hvalid (next : PathTree) : (owner.cleared tree).cleared next = owner.cleared next :=
    owner.cleared_cleared tree next
  rw [run_replaceTree, run_replaceTree]
  simp only [hvalid]

/-- Another list is handled as if it were the first to be received in the state before. -/
theorem run_handleReplaceTree_cleared {received other replaced : Json} (hother : other ≠ received)
    (hlocal : replaceLocalhostServers env.codec host other = .ok replaced) (tree : PathTree) :
    (handleReplaceTree host env other).run ((owner.remembering (some received)).cleared tree) =
      (handleReplaceTree host env other).run (owner.remembering none) := by
  have hlast : ((owner.remembering (some received)).cleared tree).context.lastNodes ≠ some other :=
    fun hsome => hother (Option.some.inj hsome).symm
  have hnone : (owner.remembering none).context.lastNodes ≠ some other := fun hsome => by
    cases hsome
  rw [run_handleReplaceTree hlast hlocal, run_handleReplaceTree hnone hlocal]
  exact run_replaceTree_cleared (owner.remembering (some other)) tree env replaced

theorem lastNodes_handleReplaceTree (owner : TreeOwner) (host : Str) (env : ClientEnvironment)
    (received : Json) :
    ((handleReplaceTree host env received).run owner).2.context.lastNodes = some received := by
  have hshown := shows_handleReplaceTree host env received owner
  rw [← congrArg (fun outcome => outcome.2.lastNodes) hshown]
  exact OpeningContext.lastNodes_handleReplaceTree

/-- The list that was received has been handled; the same one again is dropped, and
after one that could not be read any other has the effect that it has without that. -/
structure Handled (host : Str) (received : Json) (before after : TreeOwner) (unread : Prop) :
    Prop where
  dropped : ∀ env, (handleReplaceTree host env received).run after = (.ok ⟨⟩, after)
  retried : unread → ∀ env other replaced, other ≠ received →
    replaceLocalhostServers env.codec host other = .ok replaced →
      (handleReplaceTree host env other).run after =
        (handleReplaceTree host env other).run (before.remembering none)

/-- A replacement that throws is not undone, but nothing that is registered is lost:
whoever owns the tree, whatever the nodes, when these cannot be read then the handlers are
gone and the tree stops there, and otherwise the new tree is in place. -/
theorem leaves_and_handled (owner : TreeOwner) (env : ClientEnvironment) (nodes : Json) :
    Leaves env nodes owner ((replaceTree env nodes).run owner) ∧
      ∀ host received, owner.context.lastNodes ≠ some received →
        replaceLocalhostServers env.codec host received = .ok nodes →
          let outcome := (handleReplaceTree host env received).run owner
          Leaves env nodes owner outcome ∧
            Handled host received owner outcome.2
              ((ClientManager.newTree env nodes).1 ≠ .ok ()) := by
  apply And.intro (leaves_replaceTree owner env nodes)
  intro host received hlast hlocal
  have hrun := run_handleReplaceTree hlast hlocal
  have hleaves := leaves_replaceTree (owner.remembering (some received)) env nodes
  have hlisted := lastNodes_handleReplaceTree owner host env received
  apply And.intro
  · -- remembering the list changes nothing that `Torn` is about
    rw [hrun]
    revert hleaves
    unfold Leaves
    split
    next => exact fun h => ⟨h.1, h.2.valid, h.2.listed, h.2.values, h.2.handlers, h.2.partly⟩
    next => exact id
  · apply Handled.mk
    · exact fun env' => run_handleReplaceTree_of_last hlisted
    · intro hunread env' other replaced hother hreplaced
      rcases hnew : ClientManager.newTree env nodes with ⟨reason | _, tree⟩
      · rw [hrun, run_replaceTree, hnew]
        exact run_handleReplaceTree_cleared hother hreplaced tree
      · rw [hnew] at hunread
        exact absurd rfl hunread

/-- A list with a device of an eye tracker, and the same with an alias that has no source. -/
def malformedNodes : Json :=
  .arr (ApplicationState.eyesNodes.elements ++
    [.obj [("path".toList, .str "/me".toList), ("type".toList, .str "AliasElement".toList)]])

/-- The owner of the tree when the application has its eye tracker. -/
def eyesOwner : TreeOwner := ⟨ApplicationState.eyesRequested.context, true⟩

/-- The handler of the eye tracker is gone after the malformed list. -/
theorem not_atomic_replaceTree :
    ¬ ∀ (owner : TreeOwner) (env : ClientEnvironment) (nodes : Json) (error : ClientError),
      ((replaceTree env nodes).run owner).1 = .error (.thrown error) →
        let after := ((replaceTree env nodes).run owner).2
        after.context.manager.tree = owner.context.manager.tree ∧ after.valid = owner.valid ∧
          after.context.manager.interfaces.handlers =
            owner.context.manager.interfaces.handlers := by
  intro hatomic
  have hthrown : ((replaceTree ApplicationState.eyesEnvironment malformedNodes).run eyesOwner).1 =
      .error (.thrown (.tree (.missingMember "source".toList))) := by decide +kernel
  have hhandlers := (hatomic eyesOwner _ _ _ hthrown).2.2
  have hgone : ((replaceTree ApplicationState.eyesEnvironment malformedNodes).run
      eyesOwner).2.context.manager.interfaces.handlers ≠
        eyesOwner.context.manager.interfaces.handlers := by decide +kernel
  exact hgone hhandlers

end TreeOwner

end OSVR.Client
