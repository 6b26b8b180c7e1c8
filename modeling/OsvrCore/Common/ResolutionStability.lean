/-
# Resolutions do not disturb each other

A resolution creates the nodes that it looks up and makes a sensor of a null element
below an interface, so it writes to the tree that it reads. What it reads is the tree
with these inferences made, and that is the same before and after it.
-/

import OsvrCore.Common.ResolveTreeNode

set_option autoImplicit false

namespace OSVR.Common

open Math

/-- Every sensor is below an interface, and every interface below a device. -/
structure Shaped (tree : PathTree) : Prop where
  sensors : ∀ {node}, tree.element node = .sensorElement →
    node ≠ [] ∧ tree.element node.dropLast = .interfaceElement
  interfaces : ∀ {node}, tree.element node = .interfaceElement →
    node ≠ [] ∧ ∃ deviceName server descriptor,
      tree.element node.dropLast = .deviceElement deviceName server descriptor

/-- The element of a node with the inference made. -/
def clarified (tree : PathTree) (node : NodePath) : PathElement :=
  if tree.element node = .nullElement ∧ node ≠ [] ∧
    tree.element node.dropLast = .interfaceElement then .sensorElement
  else tree.element node

/-- Trees that look the same to a resolution. -/
def Alike (left right : PathTree) : Prop := ∀ node, clarified left node = clarified right node

/-- Nothing but null elements appear, and sensors below interfaces in the place of these. -/
structure OnlyInfers (before after : PathTree) : Prop where
  kept : KeepsElements before after
  appeared : ∀ node value, after.value? node = some value →
    before.value? node = some value ∨ before.element node = .nullElement ∧
      (value = .nullElement ∨ value = .sensorElement ∧ node ≠ [] ∧
        before.element node.dropLast = .interfaceElement)

/-! ## Looking up and inferring -/

section Steps

variable (tree : PathTree) (node : NodePath)

theorem element_inferred_self : (inferred tree node).element node = clarified tree node := by
  unfold inferred clarified
  split
  next => rw [PathTree.element_set, if_pos rfl]
  next => rfl

theorem element_inferred_of_ne {query : NodePath} (hquery : query ≠ node) :
    (inferred tree node).element query = tree.element query := by
  unfold inferred
  split
  next => rw [PathTree.element_set, if_neg hquery]
  next => rfl

theorem alike_touch : Alike tree (tree.touch node) := by
  intro query
  simp only [clarified, PathTree.element_touch]

/-- A node whose element is inferred is not an interface before or after it. -/
theorem element_inferred_eq_interface_iff (query : NodePath) :
    (inferred tree node).element query = .interfaceElement ↔
      tree.element query = .interfaceElement := by
  by_cases hquery : query = node
  · rw [hquery, element_inferred_self, clarified]
    split
    next h => simp [h.1]
    next => rfl
  · rw [element_inferred_of_ne tree node hquery]

theorem alike_inferred : Alike tree (inferred tree node) := by
  intro query
  have hparent := element_inferred_eq_interface_iff tree node query.dropLast
  by_cases hquery : query = node
  · subst hquery
    have hself := element_inferred_self tree query
    by_cases hinfer : tree.element query = .nullElement ∧ query ≠ [] ∧
        tree.element query.dropLast = .interfaceElement
    · have hsensor : clarified tree query = .sensorElement := if_pos hinfer
      rw [hsensor] at hself ⊢
      rw [clarified, hself, if_neg fun h => by cases h.1]
    · rw [inferred, if_neg hinfer]
  · rw [clarified, clarified, element_inferred_of_ne tree node hquery]
    simp only [hparent]

end Steps

variable {tree left right : PathTree} {node : NodePath}

theorem Shaped.touch (h : Shaped tree) (node : NodePath) : Shaped (tree.touch node) := by
  constructor
  case sensors =>
    intro query hquery
    rw [PathTree.element_touch] at hquery ⊢
    exact h.sensors hquery
  case interfaces =>
    intro query hquery
    rw [PathTree.element_touch] at hquery ⊢
    exact h.interfaces hquery

theorem Shaped.inferred (h : Shaped tree) (node : NodePath) : Shaped (inferred tree node) := by
  constructor
  case sensors =>
    intro query hquery
    rw [element_inferred_eq_interface_iff]
    by_cases hnode : query = node
    · subst hnode
      rw [element_inferred_self, clarified] at hquery
      split at hquery
      next hinfer => exact hinfer.2
      next => exact h.sensors hquery
    · rw [element_inferred_of_ne tree node hnode] at hquery
      exact h.sensors hquery
  case interfaces =>
    intro query hquery
    rw [element_inferred_eq_interface_iff] at hquery
    have ⟨hroot, deviceName, server, descriptor, hdevice⟩ := h.interfaces hquery
    refine ⟨hroot, deviceName, server, descriptor, ?_⟩
    by_cases hnode : query.dropLast = node
    · rw [← hnode, element_inferred_self, clarified, if_neg fun hnull => by
        rw [hdevice] at hnull
        cases hnull.1]
      exact hdevice
    · rw [element_inferred_of_ne tree node hnode, hdevice]

theorem OnlyInfers.refl (tree : PathTree) : OnlyInfers tree tree :=
  ⟨fun _ _ hvalue _ => hvalue, fun _ _ hvalue => .inl hvalue⟩

/-- What is not null in the one tree is the same in the other. -/
theorem KeepsElements.element_eq {before after : PathTree} (h : KeepsElements before after)
    (hnode : before.element node ≠ .nullElement) : after.element node = before.element node := by
  cases hvalue : before.value? node with
  | none =>
      rw [PathTree.element, hvalue] at hnode
      exact absurd rfl hnode
  | some value =>
      have hsame : before.element node = value := by rw [PathTree.element, hvalue, Option.getD_some]
      rw [hsame] at hnode ⊢
      rw [PathTree.element, h node value hvalue hnode, Option.getD_some]

/-- No interface appears. -/
theorem OnlyInfers.element_interface {before after : PathTree} (h : OnlyInfers before after)
    (hnode : after.element node = .interfaceElement) : before.element node = .interfaceElement := by
  cases hvalue : after.value? node with
  | none =>
      rw [PathTree.element, hvalue] at hnode
      cases hnode
  | some value =>
      rw [PathTree.element, hvalue, Option.getD_some] at hnode
      rcases h.appeared node value hvalue with hsame | ⟨_, rfl | ⟨rfl, _⟩⟩
      · rw [PathTree.element, hsame, Option.getD_some, hnode]
      · cases hnode
      · cases hnode

theorem OnlyInfers.trans {first second third : PathTree} (h : OnlyInfers first second)
    (h' : OnlyInfers second third) : OnlyInfers first third where
  kept node value hvalue hnull := h'.kept node value (h.kept node value hvalue hnull) hnull
  appeared := by
    intro node value hvalue
    rcases h'.appeared node value hvalue with hsecond | ⟨hnull, hnew⟩
    · exact h.appeared node value hsecond
    · have hnull' : first.element node = .nullElement := by
        by_contra hne
        rw [h.kept.element_eq hne] at hnull
        exact hne hnull
      exact .inr ⟨hnull', hnew.imp id fun hsensor =>
        ⟨hsensor.1, hsensor.2.1, h.element_interface hsensor.2.2⟩⟩

/-- A node that there was, or a null one that has come to exist. -/
theorem value?_getD_default {value : PathElement} (h : (tree.value? node).getD default = value) :
    tree.value? node = some value ∨ tree.element node = .nullElement ∧ value = .nullElement := by
  cases hvalue : tree.value? node with
  | none =>
      rw [hvalue] at h
      rw [PathTree.element, hvalue]
      exact .inr ⟨rfl, h.symm⟩
  | some found =>
      rw [hvalue] at h
      exact .inl (congrArg some h)

theorem onlyInfers_touch (tree : PathTree) (path : NodePath) :
    OnlyInfers tree (tree.touch path) where
  kept := KeepsElements.touch tree path
  appeared := by
    intro node value hvalue
    rw [tree.value?_touch] at hvalue
    split at hvalue
    · exact (value?_getD_default (Option.some.inj hvalue)).imp id fun h => ⟨h.1, .inl h.2⟩
    · exact .inl hvalue

theorem onlyInfers_inferred (tree : PathTree) (path : NodePath) :
    OnlyInfers tree (inferred tree path) where
  kept := KeepsElements.inferred tree path
  appeared := by
    intro node value hvalue
    unfold inferred at hvalue
    split at hvalue
    next hinfer =>
      rw [tree.value?_set] at hvalue
      split at hvalue
      next hnode =>
        rw [hnode]
        exact .inr ⟨hinfer.1, .inr ⟨(Option.some.inj hvalue).symm, hinfer.2⟩⟩
      next =>
        split at hvalue
        · exact (value?_getD_default (Option.some.inj hvalue)).imp id fun h => ⟨h.1, .inl h.2⟩
        · exact .inl hvalue
    next => exact .inl hvalue

/-! ## Whole resolutions -/

/-- What a resolution leaves of the tree. -/
structure Resolved (before after : PathTree) : Prop where
  shaped : Shaped after
  alike : Alike before after
  infers : OnlyInfers before after

/-- However it ends, a resolution keeps the shape and what resolutions see. -/
theorem resolved_resolveTreeNode (codec : JsonCodec) (h : Shaped tree) (fuel : ℕ) (path : Str) :
    Resolved tree ((resolveTreeNode codec fuel path).run tree).2 := by
  have hrelates : Program.Relates (fun before after => Shaped before → Resolved before after)
      (resolveTreeNode codec fuel path) := by
    apply relates_resolveTreeNode
    · exact fun tree htree => ⟨htree, fun _ => rfl, .refl tree⟩
    · intro first second third hsecond hthird hfirst
      have h := hsecond hfirst
      have h' := hthird h.shaped
      exact ⟨h'.shaped, fun node => (h.alike node).trans (h'.alike node), h.infers.trans h'.infers⟩
    · exact fun tree node htree => ⟨htree.touch node, alike_touch tree node,
        onlyInfers_touch tree node⟩
    · exact fun tree node htree =>
        ⟨htree.inferred node, alike_inferred tree node, onlyInfers_inferred tree node⟩
  exact hrelates tree h

theorem run_decompose_device {deviceName server : Str} {descriptor : Json}
    (hnode : tree.element node = .deviceElement deviceName server descriptor)
    (source : OriginalSource) :
    (source.decompose node.reverse).run tree = (.ok { source with device := some node }, tree) := by
  cases hup : node.reverse with
  | nil =>
      obtain rfl := List.reverse_eq_nil_iff.mp hup
      rw [OriginalSource.decompose, Program.run_bind_of_ok (TreeProgram.run_valueAt tree []), hnode]
      rfl
  | cons name up =>
      have hnode' : (name :: up).reverse = node := by rw [← hup, List.reverse_reverse]
      rw [OriginalSource.decompose, hnode', Program.run_bind_of_ok
        (TreeProgram.run_valueAt tree node), hnode]
      rfl

/-- Below the root, the way up goes on from the parent. -/
theorem exists_reverse_eq_cons (hroot : node ≠ []) :
    ∃ name, node.reverse = name :: node.dropLast.reverse ∧
      (name :: node.dropLast.reverse).reverse = node := by
  have hlast := List.dropLast_append_getLast hroot
  apply Exists.intro (node.getLast hroot)
  rw [List.reverse_cons, List.reverse_reverse]
  apply And.intro _ hlast
  conv_lhs => rw [← hlast]
  rw [List.reverse_append, List.reverse_singleton, List.singleton_append]

/-- From an interface the way up ends at its device. -/
theorem run_decompose_interface (h : Shaped tree) (hnode : tree.element node = .interfaceElement)
    (source : OriginalSource) :
    (source.decompose node.reverse).run tree =
      (.ok { source with interface := some node, device := some node.dropLast }, tree) := by
  have ⟨hroot, deviceName, server, descriptor, hdevice⟩ := h.interfaces hnode
  have ⟨name, hup, hback⟩ := exists_reverse_eq_cons hroot
  rw [hup, OriginalSource.decompose, hback,
    Program.run_bind_of_ok (TreeProgram.run_valueAt tree node), hnode]
  exact run_decompose_device hdevice { source with interface := some node }

theorem run_decompose_sensor (h : Shaped tree) (hnode : tree.element node = .sensorElement)
    (source : OriginalSource) :
    (source.decompose node.reverse).run tree =
      (.ok { source with
        sensor := some node
        interface := some node.dropLast
        device := some node.dropLast.dropLast }, tree) := by
  have ⟨hroot, hinterface⟩ := h.sensors hnode
  have ⟨name, hup, hback⟩ := exists_reverse_eq_cons hroot
  rw [hup, OriginalSource.decompose, hback,
    Program.run_bind_of_ok (TreeProgram.run_valueAt tree node), hnode]
  dsimp only
  rw [Program.run_bind_of_ok (run_decompose_interface h hinterface
    { source with sensor := some node })]
  rfl

/-- Resolutions in trees that look the same to them end in the same way. -/
theorem fst_run_resolveTreeNodeImpl (codec : JsonCodec) (hleft : Shaped left)
    (hright : Shaped right)
    (halike : Alike left right) (fuel : ℕ) (path : Str) (source : OriginalSource) :
    ((resolveTreeNodeImpl codec fuel path source).run left).1 =
      ((resolveTreeNodeImpl codec fuel path source).run right).1 := by
  induction fuel generalizing path source left right with
  | zero => rfl
  | succ fuel ih =>
      cases hpath : nodeOfPath path with
      | none =>
          have hfailure (tree : PathTree) : ((getNodeByPath path).run tree).1 =
              (locateAbsolute path).result := congrArg Prod.fst (run_getNodeByPath tree path)
          unfold nodeOfPath at hpath
          split at hpath
          next => cases hpath
          next reached error hlocated =>
            rw [hlocated] at hfailure
            rw [resolveTreeNodeImpl, Program.fst_run_bind_of_error (hfailure left),
              Program.fst_run_bind_of_error (hfailure right)]
      | some node =>
          have hleft' := (hleft.touch node).inferred node
          have hright' := (hright.touch node).inferred node
          have halike' :
              Alike (inferred (left.touch node) node) (inferred (right.touch node) node) := by
            intro query
            rw [← alike_inferred (left.touch node) node query, ← alike_touch left node query,
              ← alike_inferred (right.touch node) node query, ← alike_touch right node query]
            exact halike query
          have helement : (inferred (left.touch node) node).element node =
              (inferred (right.touch node) node).element node := by
            rw [element_inferred_self, element_inferred_self, ← alike_touch left node node,
              ← alike_touch right node node]
            exact halike node
          rw [run_resolveTreeNodeImpl_succ hpath, run_resolveTreeNodeImpl_succ hpath, helement]
          cases hvalue : (inferred (right.touch node) node).element node with
          | aliasElement aliasSource priority =>
              rw [visitElement]
              cases ParsedAlias.parse codec aliasSource with
              | error error => rfl
              | ok parsed =>
                  rw [Program.run_bind_of_ok (TreeProgram.run_ofJson_ok _ _),
                    Program.run_bind_of_ok (TreeProgram.run_ofJson_ok _ _)]
                  split
                  next => rfl
                  next => exact ih hleft' hright' halike' _ _
          | interfaceElement =>
              rw [visitElement, run_decompose_interface hright' hvalue,
                run_decompose_interface hleft' (helement.trans hvalue)]
          | sensorElement =>
              rw [visitElement, run_decompose_sensor hright' hvalue,
                run_decompose_sensor hleft' (helement.trans hvalue)]
          | nullElement | deviceElement _ _ _ | pluginElement | stringElement _ => rfl

theorem fst_run_resolveTreeNode_of_alike (codec : JsonCodec) (hleft : Shaped left)
    (hright : Shaped right) (halike : Alike left right) (fuel : ℕ) (path : Str) :
    ((resolveTreeNode codec fuel path).run left).1 =
      ((resolveTreeNode codec fuel path).run right).1 := by
  have himpl := fst_run_resolveTreeNodeImpl codec hleft hright halike fuel path .empty
  rw [resolveTreeNode, Program.run_bind, Program.run_bind]
  rcases hrun : (resolveTreeNodeImpl codec fuel path .empty).run left with ⟨result, after⟩
  rcases hrun' : (resolveTreeNodeImpl codec fuel path .empty).run right with ⟨result', after'⟩
  rw [hrun, hrun'] at himpl
  obtain rfl : result = result' := himpl
  cases result with
  | error reason => rfl
  | ok source => rfl

/-! ## Sequences of resolutions -/

/-- The tree that a sequence of resolutions leaves, however each of them ends. -/
def afterResolutions (codec : JsonCodec) (calls : List (ℕ × Str)) (tree : PathTree) : PathTree :=
  calls.foldl (fun tree call => ((resolveTreeNode codec call.1 call.2).run tree).2) tree

theorem resolved_afterResolutions (codec : JsonCodec) (h : Shaped tree) (calls : List (ℕ × Str)) :
    Resolved tree (afterResolutions codec calls tree) := by
  induction calls generalizing tree with
  | nil => exact ⟨h, fun _ => rfl, .refl tree⟩
  | cons call calls ih =>
      have hfirst := resolved_resolveTreeNode codec h call.1 call.2
      have hrest := ih hfirst.shaped
      exact ⟨hrest.shaped, fun node => (hfirst.alike node).trans (hrest.alike node),
        hfirst.infers.trans hrest.infers⟩

/-- After any sequence of resolutions, a path resolves as it does before them, and the
tree has no more than null elements and inferred sensors beside what it had. -/
theorem resolveTreeNode_afterResolutions (codec : JsonCodec) (h : Shaped tree)
    (calls : List (ℕ × Str)) :
    OnlyInfers tree (afterResolutions codec calls tree) ∧
      ∀ fuel path, ((resolveTreeNode codec fuel path).run (afterResolutions codec calls tree)).1 =
        ((resolveTreeNode codec fuel path).run tree).1 := by
  have hresolved := resolved_afterResolutions codec h calls
  apply And.intro hresolved.infers
  intro fuel path
  exact (fst_run_resolveTreeNode_of_alike codec h hresolved.shaped hresolved.alike fuel path).symm

theorem isName_deviceName : IsName ['d'] := by decide

theorem isName_trackerName : IsName ['t'] := by decide

/-- A device with an interface. -/
def trackerTree : PathTree :=
  (PathTree.empty.set [⟨['d'], isName_deviceName⟩] (.deviceElement "d".toList "s".toList .null)).set
    [⟨['d'], isName_deviceName⟩, ⟨['t'], isName_trackerName⟩] .interfaceElement

theorem element_trackerTree (query : NodePath) :
    trackerTree.element query =
      if query = [⟨['d'], isName_deviceName⟩, ⟨['t'], isName_trackerName⟩] then .interfaceElement
      else if query = [⟨['d'], isName_deviceName⟩] then .deviceElement "d".toList "s".toList .null
      else .nullElement := by
  have hempty : PathTree.element .empty query = .nullElement := by cases query <;> rfl
  rw [trackerTree, PathTree.element_set, PathTree.element_set, hempty]

theorem shaped_trackerTree : Shaped trackerTree := by
  constructor
  case sensors =>
    intro node hnode
    rw [element_trackerTree] at hnode
    split at hnode
    next => cases hnode
    next =>
      split at hnode
      next => cases hnode
      next => cases hnode
  case interfaces =>
    intro node hnode
    rw [element_trackerTree] at hnode
    split at hnode
    next hinterface =>
      rw [hinterface]
      exact ⟨List.cons_ne_nil _ _, "d".toList, "s".toList, .null, rfl⟩
    next =>
      split at hnode
      next => cases hnode
      next => cases hnode

/-- No text is JSON. -/
def pathCodec : JsonCodec := ⟨fun _ => none, fun _ => [], fun _ => [], fun _ => []⟩

/-- Looking for a sensor, and for what is not there. -/
def lookups : List (ℕ × Str) := [(1, "/d/t/0".toList), (1, "/e".toList), (1, "e".toList)]

theorem resolveTreeNode_afterResolutions_trackerTree :
    OnlyInfers trackerTree (afterResolutions pathCodec lookups trackerTree) ∧
      ∀ fuel path, ((resolveTreeNode pathCodec fuel path).run
        (afterResolutions pathCodec lookups trackerTree)).1 =
          ((resolveTreeNode pathCodec fuel path).run trackerTree).1 :=
  resolveTreeNode_afterResolutions pathCodec shaped_trackerTree lookups

end OSVR.Common
