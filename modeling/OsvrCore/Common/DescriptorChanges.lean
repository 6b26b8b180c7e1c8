/-
# What a device descriptor changes

The interfaces and the semantic aliases of a descriptor are short programs run in
order. A descriptor that reports no change has nothing new, and one whose parts
are all in order is processed to the end.
-/

import OsvrCore.Common.AliasChanges
import OsvrCore.Common.ProcessDeviceDescriptor

set_option autoImplicit false

namespace OSVR.Common

open Math

/-! ## The parts of a descriptor -/

/-- Give the node of an interface an element if it has none. -/
def addInterface (devNode : NodePath) (iface : Str) : TreeProgram Bool := do
  let ifaceNode ← treePathRetrieve devNode iface false
  if (← TreeProgram.valueAt ifaceNode).isNull then
    TreeProgram.setValue ifaceNode .interfaceElement
    return true
  else return false

theorem run_addInterface_of_ok {tree found : PathTree} {devNode node : NodePath} {iface : Str}
    (hretrieve : (treePathRetrieve devNode iface false).run tree = (.ok node, found)) :
    (addInterface devNode iface).run tree =
      if (found.element node).isNull then (.ok true, found.set node .interfaceElement)
      else (.ok false, found) := by
  rw [addInterface, Program.run_bind_of_ok hretrieve,
    Program.run_bind_of_ok (TreeProgram.run_valueAt found node)]
  split <;> rfl

theorem processInterfaces_eq (devNode : NodePath) (ifaces : List Str) :
    processInterfaces devNode ifaces = Program.inOrder (ifaces.map (addInterface devNode)) := by
  induction ifaces with
  | nil => rfl
  | cons iface rest ih =>
      funext tree
      show (processInterfaces devNode (iface :: rest)).run tree =
        (Program.inOrder (addInterface devNode iface :: rest.map (addInterface devNode))).run tree
      rw [processInterfaces, ih, Program.inOrder]
      rcases hretrieve : (treePathRetrieve devNode iface false).run tree with ⟨reason | node, found⟩
      · have hfirst : (addInterface devNode iface).run tree = (.error reason, found) := by
          rw [addInterface, Program.run_bind_of_error hretrieve]
        rw [Program.run_bind_of_error hretrieve, Program.run_bind_of_error hfirst]
      · have hfirst := run_addInterface_of_ok hretrieve
        rw [Program.run_bind_of_ok hretrieve,
          Program.run_bind_of_ok (TreeProgram.run_valueAt found node)]
        split at hfirst
        next hnull =>
          rw [if_pos hnull, Program.run_bind_of_ok hfirst]
          simp only [Bool.true_or]
          rfl
        next hnull =>
          rw [if_neg hnull, Program.run_bind_of_ok hfirst]
          simp only [Bool.false_or]
          rcases hrest : (Program.inOrder (rest.map (addInterface devNode))).run found with
            ⟨reason | changed, after⟩
          · rw [Program.run_bind_of_error hrest]
          · rw [Program.run_bind_of_ok hrest]
            rfl

namespace SemanticRecursion

mutual

/-- The targets of a level with the paths of their aliases, in order. -/
def aliases (relativeSemanticPath : Str) : Json → List (Json × Str)
  | .str text => [(.str text, relativeSemanticPath)]
  | .obj members =>
      let target := (members.lookup TARGET_KEY).getD .null
      (if target.isNull then [] else [(target, relativeSemanticPath)]) ++
        memberAliases relativeSemanticPath members
  | .null | .bool _ | .int _ | .real _ | .arr _ => []

def memberAliases (relativeSemanticPath : Str) : JsonMembers → List (Json × Str)
  | [] => []
  | (memberName, value) :: rest =>
      if memberName = TARGET_KEY then memberAliases relativeSemanticPath rest
      else
        aliases (relativeSemanticPath ++ '/' :: memberName) value ++
          memberAliases relativeSemanticPath rest

end

variable (codec : JsonCodec) (devNode : NodePath)

/-- Add the aliases of a list in order. -/
def addAll (list : List (Json × Str)) : TreeProgram Bool :=
  Program.inOrder (list.map fun entry => add codec devNode entry.1 entry.2)

theorem addAll_append (front back : List (Json × Str)) :
    addAll codec devNode (front ++ back) = (do
      let changed ← addAll codec devNode front
      let others ← addAll codec devNode back
      return changed || others) := by
  rw [addAll, List.map_append, Program.inOrder_append]
  rfl

theorem addAll_singleton (target : Json) (path : Str) :
    addAll codec devNode [(target, path)] = add codec devNode target path := by
  funext tree
  show (addAll codec devNode [(target, path)]).run tree = (add codec devNode target path).run tree
  rw [addAll, List.map_cons, List.map_nil, Program.inOrder, Program.inOrder]
  rcases hrun : (add codec devNode target path).run tree with ⟨reason | changed, after⟩
  · rw [Program.run_bind_of_error hrun]
  · rw [Program.run_bind_of_ok hrun, Program.run_bind_of_ok (Program.run_pure after false)]
    simp

mutual

theorem recurse_eq (relativeSemanticPath : Str) : (level : Json) →
    recurse codec devNode relativeSemanticPath level =
      addAll codec devNode (aliases relativeSemanticPath level)
  | .str text => by rw [recurse, aliases, addAll_singleton]
  | .obj members => by
      have htarget : addTarget codec devNode members relativeSemanticPath =
          addAll codec devNode (if ((members.lookup TARGET_KEY).getD .null).isNull then [] else
            [((members.lookup TARGET_KEY).getD .null, relativeSemanticPath)]) := by
        rw [addTarget]
        split
        · rfl
        · rw [addAll_singleton]
      rw [recurse, aliases, addAll_append, htarget, recurseMembers_eq relativeSemanticPath members]
  | .null | .bool _ | .int _ | .real _ | .arr _ => by
      rw [recurse, aliases]
      rfl

theorem recurseMembers_eq (relativeSemanticPath : Str) : (members : JsonMembers) →
    recurseMembers codec devNode relativeSemanticPath members =
      addAll codec devNode (memberAliases relativeSemanticPath members)
  | [] => by
      rw [recurseMembers, memberAliases]
      rfl
  | (memberName, value) :: rest => by
      rw [recurseMembers, memberAliases]
      split
      · exact recurseMembers_eq relativeSemanticPath rest
      · rw [addAll_append, recurse_eq (relativeSemanticPath ++ '/' :: memberName) value,
          recurseMembers_eq relativeSemanticPath rest]

end

end SemanticRecursion

/-! ## Reporting no change -/

section Silent

variable {codec : JsonCodec} {readable : PathTree → Bool} {devNode : NodePath}
  {tree after : PathTree} {desc : Json}

/-- A descriptor has nothing new: its interfaces have elements, and none of its
aliases needs an update. -/
structure DescriptorQuiet (codec : JsonCodec) (devNode : NodePath) (tree : PathTree) (desc : Json) :
    Prop where
  interfaces : ∀ ifaces, desc.member? INTERFACES_KEY = .ok (some (.obj ifaces)) →
    ∀ iface ∈ ifaces.map Prod.fst, ∀ node, locate devNode iface = ⟨node, none⟩ →
      tree.element node ≠ .nullElement
  semantic : ∀ sem, desc.index SEMANTIC_KEY = .ok sem → sem.isObject = true →
    ∀ entry ∈ SemanticRecursion.aliases SEMANTIC_KEY sem,
      (planAlias codec devNode (codec.toStyledString entry.1) entry.2).Quiet
        ALIASPRIORITY_SEMANTICROUTE tree
  automatic : ∀ automatic, desc.index AUTOMATIC_KEY = .ok automatic →
    AutomaticAliases.DescriptionQuiet codec automaticOptions devNode tree automatic

theorem addInterface_silent (hnode : (tree.value? devNode).isSome = true) {iface : Str}
    (hrun : (addInterface devNode iface).run tree = (.ok false, after)) :
    Unchanged tree after ∧
      ∀ node, locate devNode iface = ⟨node, none⟩ → tree.element node ≠ .nullElement := by
  have hretrieve := run_treePathRetrieve tree devNode hnode iface
  rcases hlocated : locate devNode iface with ⟨reached, _ | error⟩
  · rw [hlocated] at hretrieve
    rw [run_addInterface_of_ok hretrieve, PathTree.element_touch] at hrun
    split at hrun
    · cases hrun
    next hnull =>
      obtain rfl := (Prod.mk.inj hrun).2
      refine ⟨.touch tree reached, fun node hnode' => ?_⟩
      obtain rfl : reached = node := (Located.mk.inj hnode').1
      simpa using hnull
  · rw [hlocated] at hretrieve
    rw [addInterface, Program.run_bind_of_error hretrieve] at hrun
    cases hrun

theorem processInterfacesFromDescriptor_silent (hnode : (tree.value? devNode).isSome = true)
    (hrun : (processInterfacesFromDescriptor devNode desc).run tree = (.ok false, after)) :
    Unchanged tree after ∧ ∀ ifaces, desc.member? INTERFACES_KEY = .ok (some (.obj ifaces)) →
      ∀ iface ∈ ifaces.map Prod.fst, ∀ node, locate devNode iface = ⟨node, none⟩ →
        tree.element node ≠ .nullElement := by
  obtain ⟨member, middle, hfirst, hrest⟩ := Program.run_bind_eq_ok_iff.mp hrun
  obtain ⟨hmember, rfl⟩ := AutomaticAliases.ofJson_eq_ok hfirst
  split at hrest
  next ifaces =>
    rw [processInterfaces_eq] at hrest
    obtain ⟨hsame, hall⟩ := Program.inOrder_silent Unchanged.refl Unchanged.trans
      (fun _ _ hnode hrel => hrel.grows.isSome_value? hnode)
      (fun program hprogram state after hnode hrun => by
        obtain ⟨iface, -, rfl⟩ := List.mem_map.mp hprogram
        exact (addInterface_silent hnode hrun).1) hnode hrest
    refine ⟨hsame, fun ifaces' hmember' iface hiface node hlocated => ?_⟩
    cases hmember.symm.trans hmember'
    obtain ⟨before, later, hbefore, hlater⟩ := hall _ (List.mem_map_of_mem hiface)
    rw [← hbefore.element]
    exact (addInterface_silent (hbefore.grows.isSome_value? hnode) hlater).2 node hlocated
  next hother =>
    obtain rfl := (Prod.mk.inj hrest).2
    exact ⟨.refl _, fun ifaces hmember' =>
      absurd (Except.ok.inj (hmember.symm.trans hmember')) (hother ifaces)⟩

theorem processSemanticFromDescriptor_silent (hnode : (tree.value? devNode).isSome = true)
    (hrun : (processSemanticFromDescriptor codec devNode desc).run tree = (.ok false, after)) :
    Unchanged tree after ∧ ∀ sem, desc.index SEMANTIC_KEY = .ok sem → sem.isObject = true →
      ∀ entry ∈ SemanticRecursion.aliases SEMANTIC_KEY sem,
        (planAlias codec devNode (codec.toStyledString entry.1) entry.2).Quiet
          ALIASPRIORITY_SEMANTICROUTE tree := by
  have hplan {state state' : PathTree} (hstate : (state.value? devNode).isSome = true)
      {entry : Json × Str} (hrun : (SemanticRecursion.add codec devNode entry.1 entry.2).run state =
        (.ok false, state')) :
      Unchanged state state' ∧
      (planAlias codec devNode (codec.toStyledString entry.1) entry.2).Quiet
        ALIASPRIORITY_SEMANTICROUTE state :=
    AliasPlan.execute_eq_false
      ((run_addAliasFromSourceAndRelativeDest codec state devNode hstate _ _ _).symm.trans hrun)
  obtain ⟨sem, middle, hfirst, hrest⟩ := Program.run_bind_eq_ok_iff.mp hrun
  obtain ⟨hsem, rfl⟩ := AutomaticAliases.ofJson_eq_ok hfirst
  split at hrest
  next =>
    rw [SemanticRecursion.recurse_eq, SemanticRecursion.addAll] at hrest
    obtain ⟨hsame, hall⟩ := Program.inOrder_silent Unchanged.refl Unchanged.trans
      (fun _ _ hnode hrel => hrel.grows.isSome_value? hnode)
      (fun program hprogram state after hnode hrun => by
        obtain ⟨entry, -, rfl⟩ := List.mem_map.mp hprogram
        exact (hplan hnode hrun).1) hnode hrest
    refine ⟨hsame, fun sem' hsem' _ entry hentry => ?_⟩
    obtain rfl := Except.ok.inj (hsem.symm.trans hsem')
    obtain ⟨before, later, hbefore, hlater⟩ := hall _ (List.mem_map_of_mem hentry)
    exact (hplan (hbefore.grows.isSome_value? hnode) hlater).2.of_unchanged hbefore
  next hobject =>
    obtain rfl := (Prod.mk.inj hrest).2
    refine ⟨.refl _, fun sem' hsem' hobject' => ?_⟩
    obtain rfl := Except.ok.inj (hsem.symm.trans hsem')
    exact absurd hobject' hobject

/-- A descriptor that reports no change has nothing new. -/
theorem processDeviceDescriptorFromExistingDevice_silent
    (hnode : (tree.value? devNode).isSome = true) {fuel : ℕ}
    (hrun : (processDeviceDescriptorFromExistingDevice codec readable fuel devNode desc).run tree =
      (.ok false, after)) : Unchanged tree after ∧ DescriptorQuiet codec devNode tree desc := by
  obtain ⟨interfaces, first, hinterfaces, hrest⟩ := Program.run_bind_eq_ok_iff.mp hrun
  obtain ⟨semantic, second, hsemantic, hrest⟩ := Program.run_bind_eq_ok_iff.mp hrest
  obtain ⟨automatic, third, hautomatic, hreport⟩ := Program.run_bind_eq_ok_iff.mp hrest
  obtain ⟨hreported, rfl⟩ := Prod.mk.inj hreport
  obtain ⟨⟨rfl, rfl⟩, rfl⟩ : (interfaces = false ∧ semantic = false) ∧ automatic = false := by
    simpa using hreported
  obtain ⟨hsame, hquiet⟩ := processInterfacesFromDescriptor_silent hnode hinterfaces
  have hnode' := hsame.grows.isSome_value? hnode
  obtain ⟨hsame', hquiet'⟩ := processSemanticFromDescriptor_silent hnode' hsemantic
  obtain ⟨description, middle, hindex, hprocess⟩ := Program.run_bind_eq_ok_iff.mp hautomatic
  obtain ⟨hdescription, rfl⟩ := AutomaticAliases.ofJson_eq_ok hindex
  obtain ⟨hsame'', hquiet''⟩ :=
    AutomaticAliases.process_silent (hsame'.grows.isSome_value? hnode') hprocess
  refine ⟨(hsame.trans hsame').trans hsame'', ⟨hquiet, fun sem hsem hobject entry hentry =>
    (hquiet' sem hsem hobject entry hentry).of_unchanged hsame, fun automatic hautomatic => ?_⟩⟩
  obtain rfl := Except.ok.inj (hdescription.symm.trans hautomatic)
  exact hquiet''.of_unchanged (hsame.trans hsame')

end Silent

/-! ## Descriptors in order -/

section Meets

variable {codec : JsonCodec} {readable : PathTree → Bool} {devNode : NodePath}
  {condition : PathTree → Str → Json → Prop} {tree : PathTree} {desc : Json}

/-- A descriptor is an object or null, its interfaces have valid paths, its semantic
aliases have valid paths and sources, and its automatic aliases meet a condition in
the tree that the other parts have left. -/
structure DescriptorMeets (codec : JsonCodec) (readable : PathTree → Bool) (devNode : NodePath)
    (condition : PathTree → Str → Json → Prop) (tree : PathTree) (desc : Json) : Prop where
  members : ∀ error, desc.member? INTERFACES_KEY ≠ .error error
  interfaces : ∀ ifaces, desc.member? INTERFACES_KEY = .ok (some (.obj ifaces)) →
    ∀ iface ∈ ifaces.map Prod.fst, (locate devNode iface).failure = none
  semantic : ∀ sem, desc.index SEMANTIC_KEY = .ok sem → sem.isObject = true →
    ∀ entry ∈ SemanticRecursion.aliases SEMANTIC_KEY sem, ∀ error,
      (planAlias codec devNode (codec.toStyledString entry.1) entry.2).outcome ≠ .error error
  automatic : ∀ interfaces first semantic second automatic,
    (processInterfacesFromDescriptor devNode desc).run tree = (.ok interfaces, first) →
      (processSemanticFromDescriptor codec devNode desc).run first = (.ok semantic, second) →
      desc.index AUTOMATIC_KEY = .ok automatic →
      AutomaticAliases.EntriesMeet codec automaticOptions readable devNode
        (fun _ => False) condition automatic second

theorem addInterface_ok (hnode : (tree.value? devNode).isSome = true) {iface : Str}
    (hfound : (locate devNode iface).failure = none) :
    ∃ changed after, (addInterface devNode iface).run tree = (.ok changed, after) ∧
      (after.value? devNode).isSome = true := by
  have hretrieve := run_treePathRetrieve tree devNode hnode iface
  rcases hlocated : locate devNode iface with ⟨reached, _ | error⟩
  · rw [hlocated] at hretrieve
    have hthere : ((tree.touch reached).value? devNode).isSome = true :=
      (NamedTree.Grows.touch tree reached).isSome_value? hnode
    have hrun := run_addInterface_of_ok hretrieve
    split at hrun
    · exact ⟨true, _, hrun, (NamedTree.Grows.set _ reached _).isSome_value? hthere⟩
    · exact ⟨false, _, hrun, hthere⟩
  · rw [hlocated] at hfound
    cases hfound

theorem processInterfacesFromDescriptor_ok (hnode : (tree.value? devNode).isSome = true)
    (h : DescriptorMeets codec readable devNode condition tree desc) :
    ∃ changed after, (processInterfacesFromDescriptor devNode desc).run tree =
      (.ok changed, after) ∧ (after.value? devNode).isSome = true := by
  rw [processInterfacesFromDescriptor]
  cases hmember : desc.member? INTERFACES_KEY with
  | error error => exact absurd hmember (h.members error)
  | ok member =>
      rw [Program.run_bind_of_ok (TreeProgram.run_ofJson_ok tree member)]
      split
      next ifaces =>
        rw [processInterfaces_eq]
        refine Program.inOrder_ok (fun program hprogram state hstate => ?_) hnode
        obtain ⟨iface, hiface, rfl⟩ := List.mem_map.mp hprogram
        exact addInterface_ok hstate (h.interfaces ifaces hmember iface hiface)
      next => exact ⟨false, tree, rfl, hnode⟩

/-- What can be looked at for a member can be indexed. -/
theorem index_ne_error (h : ∀ error, desc.member? INTERFACES_KEY ≠ .error error) (name : Str)
    (error : JsonError) : desc.index name ≠ .error error := by
  cases desc with
  | null | obj _ => simp [Json.index, Json.member?, Except.map]
  | bool _ | int _ | real _ | str _ | arr _ => exact absurd rfl (h (.wrongType .isMember))

theorem processSemanticFromDescriptor_ok {before : PathTree}
    (hnode : (tree.value? devNode).isSome = true)
    (h : DescriptorMeets codec readable devNode condition before desc) :
    ∃ changed after, (processSemanticFromDescriptor codec devNode desc).run tree =
      (.ok changed, after) ∧ (after.value? devNode).isSome = true := by
  rw [processSemanticFromDescriptor]
  cases hsem : desc.index SEMANTIC_KEY with
  | error error => exact absurd hsem (index_ne_error h.members _ error)
  | ok sem =>
      rw [Program.run_bind_of_ok (TreeProgram.run_ofJson_ok tree sem)]
      split
      next hobject =>
        rw [SemanticRecursion.recurse_eq, SemanticRecursion.addAll]
        refine Program.inOrder_ok (fun program hprogram state hstate => ?_) hnode
        obtain ⟨entry, hentry, rfl⟩ := List.mem_map.mp hprogram
        have hplan := run_addAliasFromSourceAndRelativeDest codec state devNode hstate
          (codec.toStyledString entry.1) entry.2 ALIASPRIORITY_SEMANTICROUTE
        rcases hrun : (SemanticRecursion.add codec devNode entry.1 entry.2).run state with
          ⟨reason | changed, after⟩
        · obtain ⟨error, herror, -⟩ := AliasPlan.execute_eq_error
            (congrArg Prod.fst (hplan.symm.trans hrun))
          exact absurd herror (h.semantic sem hsem hobject entry hentry error)
        · refine ⟨changed, after, rfl, ?_⟩
          have hgrows := AliasPlan.grows_execute
            (planAlias codec devNode (codec.toStyledString entry.1) entry.2)
            ALIASPRIORITY_SEMANTICROUTE state
          rw [hplan.symm.trans hrun] at hgrows
          exact hgrows.isSome_value? hstate
      next => exact ⟨false, tree, rfl, hnode⟩

/-- The processing of a descriptor that is in order comes down to its automatic
aliases. -/
theorem run_processDeviceDescriptorFromExistingDevice
    (hnode : (tree.value? devNode).isSome = true)
    (h : DescriptorMeets codec readable devNode condition tree desc) :
    ∃ early automatic middle, (middle.value? devNode).isSome = true ∧
      AutomaticAliases.EntriesMeet codec automaticOptions readable devNode
        (fun _ => False) condition automatic middle ∧
      ∀ fuel,
        (processDeviceDescriptorFromExistingDevice codec readable fuel devNode desc).run tree = (do
          let changed ← automaticOptions.process codec readable fuel devNode automatic
          return early || changed : TreeProgram Bool).run middle := by
  obtain ⟨interfaces, first, hfirst, hnode'⟩ := processInterfacesFromDescriptor_ok hnode h
  obtain ⟨semantic, second, hsecond, hnode''⟩ := processSemanticFromDescriptor_ok hnode' h
  cases hindex : desc.index AUTOMATIC_KEY with
  | error error => exact absurd hindex (index_ne_error h.members _ error)
  | ok automatic =>
      refine ⟨interfaces || semantic, automatic, second, hnode'',
        h.automatic interfaces first semantic second automatic hfirst hsecond hindex,
        fun fuel => ?_⟩
      rw [processDeviceDescriptorFromExistingDevice, Program.run_bind_of_ok hfirst,
        Program.run_bind_of_ok hsecond, processAutomaticFromDescriptor, hindex]
      rfl

/-- A descriptor in order, with safe automatic aliases, is processed to the end. -/
theorem processDeviceDescriptorFromExistingDevice_returns
    (hnode : (tree.value? devNode).isSome = true)
    (h : DescriptorMeets codec readable devNode
      (AutomaticAliases.EntrySafe codec automaticOptions devNode) tree desc) :
    ∃ changed after, Program.Returns
      (fun fuel => processDeviceDescriptorFromExistingDevice codec readable fuel devNode desc) tree
      changed after := by
  obtain ⟨early, automatic, middle, hmiddle, hentries, hreduced⟩ :=
    run_processDeviceDescriptorFromExistingDevice hnode h
  obtain ⟨changed, after, hprocess⟩ := AutomaticAliases.process_returns hmiddle hentries
  obtain ⟨fuel, hfuel⟩ := hprocess.map (early || ·)
  exact ⟨early || changed, after, fuel, fun more hmore => (hreduced more).trans (hfuel more hmore)⟩

end Meets

/-! ## The descriptor of a named device -/

namespace PathTree

variable (tree : PathTree) (devNode : NodePath)

/-- Make sure that a node has a device element. -/
def withDevice (devName : Str) : PathTree :=
  if hasDevice devNode tree then tree.touch devNode
  else (tree.touch devNode).set devNode (newDeviceElement devName)

/-- Replace the descriptor of a device. -/
def withDescriptor (descriptor : Json) : PathTree :=
  tree.set devNode ((tree.element devNode).setDescriptor descriptor)

theorem isSome_value?_withDescriptor (descriptor : Json) :
    (NamedTree.value? (tree.withDescriptor devNode descriptor) devNode).isSome = true := by
  simp [withDescriptor, NamedTree.value?_set]

theorem withDevice_of_hasDevice {devNode : NodePath} {tree : PathTree}
    (h : hasDevice devNode tree = true) (devName : Str) :
    tree.withDevice devNode devName = tree.touch devNode := by
  rw [withDevice, if_pos h]

end PathTree

section Device

variable {codec : JsonCodec} {tree : PathTree} {devNode : NodePath}

theorem run_setUpDevice (tree : PathTree) (devNode : NodePath) (devName : Str) :
    (setUpDevice devNode devName).run (tree.touch devNode) =
      (.ok (!hasDevice devNode tree), tree.withDevice devNode devName) := by
  rw [setUpDevice, Program.run_bind_of_ok (TreeProgram.run_valueAt _ devNode),
    PathTree.element_touch, PathTree.withDevice, hasDevice]
  cases tree.element devNode <;> rfl

/-- What happens from the node of a device on. -/
def processForNode (codec : JsonCodec) (fuel : ℕ) (devNode : NodePath) (changed : Bool)
    (normalized : Except JsonError Str) : TreeProgram Bool := do
  let normalizedDescriptor ← TreeProgram.ofJson normalized
  match codec.parse normalizedDescriptor with
  | none => return changed
  | some descriptor =>
      let devElt ← TreeProgram.valueAt devNode
      if descriptor = devElt.descriptor ∧ changed = false then return changed
      else
        TreeProgram.setValue devNode (devElt.setDescriptor descriptor)
        let processed ← processDeviceDescriptorFromExistingDevice codec (hasDevice devNode) fuel
          devNode descriptor
        return changed || processed

theorem run_processForNode_parsed {normalized : Str} {descriptor : Json}
    (hparse : codec.parse normalized = some descriptor) (fuel : ℕ) (changed : Bool)
    (tree : PathTree) :
    (processForNode codec fuel devNode changed (.ok normalized)).run tree =
      if descriptor = (tree.element devNode).descriptor ∧ changed = false then (.ok changed, tree)
      else
        (do
          let processed ← processDeviceDescriptorFromExistingDevice codec (hasDevice devNode) fuel
            devNode descriptor
          return changed || processed : TreeProgram Bool).run
            (tree.withDescriptor devNode descriptor) := by
  rw [processForNode, Program.run_bind_of_ok (TreeProgram.run_ofJson_ok tree normalized), hparse]
  simp only []
  rw [Program.run_bind_of_ok (TreeProgram.run_valueAt tree devNode)]
  split <;> rfl

/-- The descriptor of a named device is processed at the node of its name. -/
theorem run_processDeviceDescriptorForPathTree (codec : JsonCodec) (tree : PathTree)
    {deviceName : Str} (hname : deviceName ≠ []) (fuel : ℕ) (jsonDescriptor : Str) :
    (processDeviceDescriptorForPathTree codec fuel deviceName jsonDescriptor).run tree =
      match locateAbsolute ('/' :: trimDeviceName deviceName) with
      | ⟨reached, some error⟩ => (.error (.thrown error), tree.touch reached)
      | ⟨devNode, none⟩ =>
          (processForNode codec fuel devNode (!hasDevice devNode tree)
            (normalizeDeviceDescriptor codec jsonDescriptor)).run
              (tree.withDevice devNode (trimDeviceName deviceName)) := by
  have hget := run_getNodeByPath tree ('/' :: trimDeviceName deviceName)
  rw [processDeviceDescriptorForPathTree, if_neg (by simpa using hname)]
  simp only []
  rcases hlocated : locateAbsolute ('/' :: trimDeviceName deviceName) with ⟨devNode, _ | error⟩
  · rw [hlocated] at hget
    rw [Program.run_bind_of_ok hget, Program.run_bind_of_ok (run_setUpDevice tree devNode _)]
    rfl
  · rw [hlocated] at hget
    rw [Program.run_bind_of_error hget]

end Device

end OSVR.Common
