/-
# The tree a client has

A client reads the list of nodes that it was sent last, with the name of its host in the
place of `localhost`. Until the next list it only resolves paths in what it has read, so
that its tree stays that of the server, up to the servers of the devices and the sensors
it infers.
-/

import OsvrCore.Client.InterfaceOwnership
import OsvrCore.Common.ResolutionStability

set_option autoImplicit false

namespace OSVR.Common

open Math Client

/-- The element that a client makes of one of the server. -/
def PathElement.localized (host : Str) : PathElement → PathElement
  | deviceElement deviceName server descriptor =>
      deviceElement deviceName
        (if LOCALHOST <:+: server then ireplaceFirstCopy LOCALHOST host server else server)
          descriptor
  | nullElement => nullElement
  | aliasElement source priority => aliasElement source priority
  | sensorElement => sensorElement
  | interfaceElement => interfaceElement
  | pluginElement => pluginElement
  | stringElement value => stringElement value

/-- A tree is what a client makes of the other one: the name of its host is in it, and
descriptors that are strings have been parsed. -/
def Localizes (codec : JsonCodec) (host : Str) (tree mirror : PathTree) : Prop :=
  ∀ node, mirror.element node = ((tree.element node).localized host).readBack codec

/-! ## Reading a list of nodes -/

section Reading

variable {tree : PathTree} {host : Str}

/-- A written node becomes the written node of the localized element. -/
theorem replaceLocalhostServer_pathNodeToJson (codec : JsonCodec) (host : Str) (node : NodePath)
    (value : PathElement) : replaceLocalhostServer codec host (pathNodeToJson node value) =
      .ok (pathNodeToJson node (value.localized host)) := by
  cases value with
  | deviceElement deviceName server descriptor =>
      have hreplaced : replaceLocalhostServer codec host
          (pathNodeToJson node (.deviceElement deviceName server descriptor)) =
          if LOCALHOST <:+: server then
            Json.setMember "server".toList (.str (ireplaceFirstCopy LOCALHOST host server))
              (pathNodeToJson node (.deviceElement deviceName server descriptor))
          else .ok (pathNodeToJson node (.deviceElement deviceName server descriptor)) := rfl
      rw [hreplaced, PathElement.localized]
      split
      · rfl
      · rfl
  | nullElement | aliasElement _ _ | sensorElement | interfaceElement | pluginElement
  | stringElement _ => rfl

theorem replaceLocalhostServers_pathTreeToJson (codec : JsonCodec) (host : Str) (tree : PathTree) :
    replaceLocalhostServers codec host (pathTreeToJson tree false) =
      .ok (.arr ((tree.entries.filter fun entry => keeps false entry.2).map fun entry =>
        pathNodeToJson entry.1 (entry.2.localized host))) := by
  have hnodes (entries : List (NodePath × PathElement)) :
      (entries.map fun entry => pathNodeToJson entry.1 entry.2).mapM
          (replaceLocalhostServer codec host) =
        .ok (entries.map fun entry => pathNodeToJson entry.1 (entry.2.localized host)) := by
    induction entries with
    | nil => rfl
    | cons entry entries ih =>
        rw [List.map_cons, List.mapM_cons, replaceLocalhostServer_pathNodeToJson, ih]
        rfl
  rw [pathTreeToJson, replaceLocalhostServers, hnodes]
  rfl

/-- Elements that are set at other paths change nothing. -/
theorem element_setAll_of_not_mem {list : List (NodePath × PathElement)} {node : NodePath}
    (hnode : node ∉ list.map Prod.fst) :
    PathTree.element (tree.setAll list) node = tree.element node := by
  induction list generalizing tree with
  | nil => rfl
  | cons entry list ih =>
      rw [List.map_cons, List.mem_cons, not_or] at hnode
      show PathTree.element ((tree.set entry.1 entry.2).setAll list) node = tree.element node
      rw [ih hnode.2, PathTree.element_set, if_neg hnode.1]

/-- The elements of a tree that are written, changed and set in an empty tree. -/
theorem element_setAll_kept (tree : PathTree) (change : PathElement → PathElement)
    (hnull : change .nullElement = .nullElement) (node : NodePath) :
    PathTree.element (PathTree.empty.setAll ((tree.entries.filter fun entry =>
      keeps false entry.2).map fun entry => (entry.1, change entry.2))) node =
        change (tree.element node) := by
  let kept := tree.entries.filter fun entry => keeps false entry.2
  let list := kept.map fun entry => (entry.1, change entry.2)
  have hpaths : list.map Prod.fst = kept.map Prod.fst := List.map_map
  show PathTree.element (PathTree.empty.setAll list) node = change (tree.element node)
  by_cases hnode : node ∈ kept.map Prod.fst
  · obtain ⟨⟨node, value⟩, hentry, rfl⟩ := List.mem_map.mp hnode
    have hvalue := NamedTree.value?_of_mem_entries (List.mem_of_mem_filter hentry)
    have hnodup : (list.map Prod.fst).Nodup := by
      rw [hpaths]
      exact tree.nodup_paths.sublist (List.filter_sublist.map Prod.fst)
    have hset : (PathTree.empty.setAll list).value? node = some (change value) :=
      NamedTree.value?_setAll_of_mem hnodup (List.mem_map_of_mem hentry)
    rw [PathTree.element, hset, PathTree.element, hvalue]
    rfl
  · rw [element_setAll_of_not_mem (by rwa [hpaths])]
    have hgone : tree.element node = .nullElement := by
      by_contra hne
      apply hnode
      cases hvalue : tree.value? node with
      | none =>
          rw [PathTree.element, hvalue] at hne
          exact absurd rfl hne
      | some value =>
          rw [PathTree.element, hvalue, Option.getD_some, ← PathElement.isNull_iff] at hne
          have hkept : keeps false value = true := by
            rw [keeps, Bool.false_or, Bool.not_eq_true']
            exact Bool.eq_false_iff.mpr hne
          exact List.mem_map_of_mem
            (List.mem_filter.mpr ⟨NamedTree.mem_entries_of_value? hvalue, hkept⟩)
    rw [hgone, hnull]
    cases node <;> rfl

/-- What is read of the list for a tree is that tree, localized. -/
theorem exists_localizes (codec : JsonCodec) (host : Str) (tree : PathTree) :
    ∃ nodes mirror, replaceLocalhostServers codec host (pathTreeToJson tree false) = .ok nodes ∧
      (jsonToPathTree codec nodes).run .empty = (.ok (), mirror) ∧
        Localizes codec host tree mirror := by
  refine ⟨_, _, replaceLocalhostServers_pathTreeToJson codec host tree, ?_,
    element_setAll_kept tree (fun value => (value.localized host).readBack codec) rfl⟩
  have hrun := run_jsonToPathNodes codec .empty ((tree.entries.filter fun entry =>
    keeps false entry.2).map fun entry => (entry.1, entry.2.localized host))
  rw [List.map_map, List.map_map] at hrun
  exact hrun

/-- What was made of one tree can have been made of another one that is written in the same way. -/
theorem Localizes.of_element_eq {codec : JsonCodec} {other mirror : PathTree}
    (h : Localizes codec host tree mirror)
    (hsame : ∀ node, tree.element node = other.element node) :
    Localizes codec host other mirror := by
  intro node
  rw [h node, hsame node]

/-- A reader for which every text is the JSON string of it. -/
def textCodec : JsonCodec := ⟨fun text => some (.str text), fun _ => [], fun _ => [], fun _ => []⟩

/-- Trees that are written in the same way have the same elements. -/
theorem element_eq_of_pathTreeToJson_eq {other : PathTree}
    (h : pathTreeToJson tree false = pathTreeToJson other false) (node : NodePath) :
    tree.element node = other.element node := by
  have hsame (value : PathElement) : value.readBack textCodec = value := by
    cases value with
    | deviceElement deviceName server descriptor => cases descriptor <;> rfl
    | nullElement | aliasElement _ _ | sensorElement | interfaceElement | pluginElement
    | stringElement _ => rfl
  have hread (tree : PathTree) : ∃ restored,
      (jsonToPathTree textCodec (pathTreeToJson tree false)).run .empty = (.ok (), restored) ∧
        restored.element node = tree.element node := by
    refine ⟨_, run_jsonToPathNodes textCodec .empty _, ?_⟩
    rw [element_setAll_kept tree (PathElement.readBack textCodec) rfl, hsame]
  obtain ⟨restored, hrun, hnode⟩ := hread tree
  obtain ⟨restored', hrun', hnode'⟩ := hread other
  rw [h, hrun'] at hrun
  rw [← hnode, ← hnode', (Prod.mk.inj hrun).2]

end Reading

end OSVR.Common

namespace OSVR.Client

open Common Math

/-- A tree in which some paths of the other have been resolved. -/
structure ResolvedFrom (mirror tree : PathTree) : Prop where
  infers : OnlyInfers mirror tree
  resolved : Shaped mirror → Resolved mirror tree

namespace ResolvedFrom

variable {first second third : PathTree}

theorem refl (tree : PathTree) : ResolvedFrom tree tree :=
  ⟨.refl tree, fun hshaped => ⟨hshaped, fun _ => rfl, .refl tree⟩⟩

theorem trans (h : ResolvedFrom first second) (h' : ResolvedFrom second third) :
    ResolvedFrom first third where
  infers := h.infers.trans h'.infers
  resolved := by
    intro hshaped
    have hsecond := h.resolved hshaped
    have hthird := h'.resolved hsecond.shaped
    exact ⟨hthird.shaped, fun node => (hsecond.alike node).trans (hthird.alike node),
      hsecond.infers.trans hthird.infers⟩

/-- What resolves in the one resolves in the same way in the other. -/
theorem fst_run_resolveTreeNode (h : ResolvedFrom first second) (hshaped : Shaped first)
    (codec : JsonCodec) (fuel : ℕ) (path : Str) :
    ((resolveTreeNode codec fuel path).run second).1 =
      ((resolveTreeNode codec fuel path).run first).1 := by
  have hresolved := h.resolved hshaped
  exact (fst_run_resolveTreeNode_of_alike codec hshaped hresolved.shaped
    hresolved.alike fuel path).symm

end ResolvedFrom

theorem Resolutions.resolvedFrom {env : ClientEnvironment} {tree reached : PathTree}
    (h : Resolutions env tree reached) : ResolvedFrom tree reached := by
  induction h with
  | none => exact .refl tree
  | @next reached _ path ih =>
      apply ih.trans
      refine ⟨?_, fun hshaped => resolved_resolveTreeNode env.codec hshaped env.fuel path⟩
      exact relates_resolveTreeNode OnlyInfers.refl (fun _ _ _ h h' => h.trans h') onlyInfers_touch
        onlyInfers_inferred env.codec env.fuel path reached

/-- The tree of a context is what can be read of the list that it received last, up to the
paths that have been resolved in it. -/
structure Mirrors (codec : JsonCodec) (host : Str) (context : OpeningContext) : Prop where
  fresh : context.lastNodes = none → ResolvedFrom .empty context.manager.tree
  read : ∀ nodes localNodes mirror, context.lastNodes = some nodes →
    replaceLocalhostServers codec host nodes = .ok localNodes →
    (jsonToPathTree codec localNodes).run .empty = (.ok (), mirror) →
      ResolvedFrom mirror context.manager.tree

namespace Mirrors

open OpeningContext

variable {codec : JsonCodec} {host : Str} {env : ClientEnvironment} {before after : OpeningContext}

theorem init (codec : JsonCodec) (host : Str) : Mirrors codec host .init where
  fresh _ := .refl .empty
  read _ _ _ hlast := by cases hlast

theorem unreplaced (h : Mirrors codec host before) (hsame : Unreplaced env before after) :
    Mirrors codec host after where
  fresh hlast := (h.fresh (hsame.1.symm.trans hlast)).trans hsame.2.resolvedFrom
  read nodes localNodes mirror hlast hlocal hread :=
    (h.read nodes localNodes mirror (hsame.1.symm.trans hlast) hlocal hread).trans
      hsame.2.resolvedFrom

theorem handleReplaceTree (h : Mirrors env.codec host before) (nodes : Json) :
    Mirrors env.codec host ((handleReplaceTree host env nodes).run before).2 := by
  by_cases hlast : before.lastNodes = some nodes
  · rw [run_handleReplaceTree_of_last hlast]
    exact h
  · refine ⟨fun hnone => ?_, fun received localNodes mirror hreceived hlocal hread => ?_⟩
    · rw [lastNodes_handleReplaceTree] at hnone
      cases hnone
    rw [lastNodes_handleReplaceTree] at hreceived
    obtain rfl := Option.some.inj hreceived
    let cleared : OpeningContext :=
      { before with lastNodes := some nodes, manager := before.manager.cleared mirror }
    have hrun : (OpeningContext.handleReplaceTree host env nodes).run before =
        (connectNeededCallbacks env).run cleared := by
      have hemptied : (onManager (ClientManager.onTree
          ((jsonToPathTree env.codec localNodes).mapError ClientError.tree))).run
            { before with lastNodes := some nodes, manager := before.manager.cleared .empty } =
          (.ok (), cleared) := run_onTree_of_ok hread
      rw [OpeningContext.handleReplaceTree, Program.run_bind_of_ok (Program.run_get _),
        if_neg hlast, Program.run_bind_of_ok (Program.run_modify _ _), hlocal,
        Program.run_bind_of_ok (Program.run_mapError_of_ok (Program.run_ofExcept_ok _ _)),
        replaceTree, Program.run_bind_of_ok (run_onManager_of_eq (Program.run_modify _ _))]
      exact Program.run_bind_of_ok hemptied
    rw [hrun]
    exact (relates_connectNeededCallbacks cleared).2.resolvedFrom

/-- Releasing an interface does not touch the path tree. -/
theorem relates_releaseInterface (iface : ClientInterface) :
    Program.Relates (Unreplaced env) (releaseInterface iface) := by
  apply Program.Relates.bind Unreplaced.trans (Program.relates_get Unreplaced.refl)
  intro context
  split
  · have hlisted : Program.Relates (Unreplaced env) (Program.modify fun context : OpeningContext =>
        { context with interfaces := context.interfaces.erase iface } : OpeningProgram PUnit) :=
      fun _ => ⟨rfl, .none⟩
    apply hlisted.bind Unreplaced.trans
    intro _
    apply Program.Relates.bind Unreplaced.trans
    · apply relates_onManager
      apply tree_getNodeForPath_bind
      intro node manager
      rw [Program.run_bind_of_ok (Program.run_get manager),
        Program.run_bind_of_ok (Program.run_modify _ _)]
      split
      · exact tree_getNodeForPath_bind iface.path (fun _ _ => rfl) _
      · rfl
    · exact fun _ => Program.relates_pure Unreplaced.refl _
  · exact Program.relates_pure Unreplaced.refl _

end Mirrors

end OSVR.Client
