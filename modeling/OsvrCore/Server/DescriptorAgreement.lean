/-
# Two ways to add a device

A device can be added by the owner of the server, with its path and its
descriptor, or by a descriptor that the device itself sends. Both end in the same
processing of the descriptor at the node of the device, but only the second
normalizes the descriptor before.
-/

import OsvrCore.Common.DescriptorParts
import OsvrCore.Server.ServerTree

set_option autoImplicit false

namespace OSVR.Server

open Math Common

/-- The parts of the descriptor that `addExternalDevice` processes at the node of the
device; a name with a leading separator makes a path that leads nowhere. -/
def externalParts (codec : JsonCodec) (deviceName descriptor : Str) : DescriptorParts :=
  if deviceName.head? = some '/' then .empty
  else
    match codec.parse descriptor with
    | some descriptorVal => descriptorVal.parts
    | none => .empty

/-- The parts of the descriptor that `processDeviceDescriptorForPathTree` processes. -/
def receivedParts (codec : JsonCodec) (jsonDescriptor : Str) : DescriptorParts :=
  match normalizeDeviceDescriptor codec jsonDescriptor with
  | .error _ => .empty
  | .ok normalizedDescriptor =>
      match codec.parse normalizedDescriptor with
      | some descriptor => descriptor.parts
      | none => .empty

/-- What `addExternalDevice` leaves, with the name of the device after a separator as path. -/
def externalTree (codec : JsonCodec) (fuel : ℕ) (state : ServerState)
    (deviceName vrpnName server descriptor : Str) : PathTree :=
  ((ServerImpl.addExternalDevice codec fuel ('/' :: deviceName) vrpnName server descriptor).run
    state).2.tree

/-- The descriptor that is received is read while it is there, and both ways leave the same
nodes with the same elements below the node of the device. -/
def DescriptorsAgree (codec : JsonCodec) (fuel : ℕ) (state : ServerState)
    (deviceName vrpnName server descriptor : Str) (devNode : NodePath) : Prop :=
  let received :=
    (processDeviceDescriptorForPathTree codec fuel deviceName descriptor).run state.tree
  received.1 ≠ .error .undefined ∧
    ∀ query, devNode <+: query → query ≠ devNode →
      (externalTree codec fuel state deviceName vrpnName server descriptor).value? query =
        received.2.value? query

section Agreement

variable {codec : JsonCodec} {fuel : ℕ} {state : ServerState}
  {deviceName vrpnName server descriptor : Str} {devNode : NodePath}

/-- What `addExternalDevice` does to the tree. -/
theorem tree_addExternalDevice (codec : JsonCodec) (fuel : ℕ) (state : ServerState)
    (path vrpnName server descriptor : Str) :
    ((ServerImpl.addExternalDevice codec fuel path vrpnName server descriptor).run state).2.tree =
      match codec.parse descriptor, locateAbsolute path with
      | none, _ => state.tree
      | some _, ⟨reached, some _⟩ => state.tree.touch reached
      | some descriptorVal, ⟨node, none⟩ =>
          ((processDeviceDescriptorFromExistingDevice codec (fun _ => true) fuel node
            descriptorVal).run (state.tree.set node (.deviceElement vrpnName server
              descriptorVal))).2 := by
  unfold ServerImpl.addExternalDevice
  cases hparse : codec.parse descriptor with
  | none => rfl
  | some descriptorVal =>
      have hget := run_getNodeByPath state.tree path
      rcases hlocated : locateAbsolute path with ⟨node, _ | error⟩
      · rw [hlocated] at hget
        have hset : (ServerProgram.onTree (TreeProgram.setValue node
            (.deviceElement vrpnName server descriptorVal))).run
              { state with tree := state.tree.touch node } =
            (.ok (), { state with
              tree := state.tree.set node (.deviceElement vrpnName server descriptorVal) }) := by
          rw [← state.tree.set_touch List.prefix_rfl]
          rfl
        have hdirty (before : ServerState) : ServerProgram.setDirty.run before =
            (.ok (), { before with treeDirty := true }) := rfl
        rw [Program.run_bind_of_ok (ServerProgram.run_onTree hget), Program.run_bind_of_ok hset,
          Program.run_bind_of_ok (hdirty _)]
        rcases hprocess : (processDeviceDescriptorFromExistingDevice codec (fun _ => true) fuel node
          descriptorVal).run (state.tree.set node (.deviceElement vrpnName server descriptorVal))
          with ⟨reason | changed, after⟩
        · rw [Program.run_bind_of_error (ServerProgram.run_onTree hprocess)]
          exact (congrArg Prod.snd hprocess).symm
        · rw [Program.run_bind_of_ok (ServerProgram.run_onTree hprocess)]
          exact (congrArg Prod.snd hprocess).symm
      · rw [hlocated] at hget
        rw [Program.run_bind_of_error (ServerProgram.run_onTree hget)]

/-- A second separator at the start of a path is an empty component. -/
theorem locateAbsolute_separators {rest : Str} (hrest : rest ≠ []) :
    ∃ error, locateAbsolute ('/' :: '/' :: rest) = ⟨[], some error⟩ := by
  have htrimmed : ∃ text, trimTrailing ('/' :: rest) = '/' :: text := by
    have ⟨second, more, heq⟩ := List.exists_cons_of_ne_nil hrest
    unfold trimTrailing
    rw [heq]
    split
    · exact ⟨_, List.dropLast_cons_cons⟩
    · exact ⟨_, rfl⟩
  have ⟨text, htext⟩ := htrimmed
  refine ⟨.emptyPathComponent ('/' :: text), ?_⟩
  simp [locateAbsolute, locate, htext, components, follow]

/-- Setting the value of a node leaves what is below it. -/
theorem value?_set_below (tree : PathTree) (element : PathElement) {query : NodePath}
    (hbelow : devNode <+: query) (hne : query ≠ devNode) :
    (tree.set devNode element).value? query = tree.value? query := by
  rw [NamedTree.value?_set, if_neg hne, if_neg]
  intro habove
  exact hne (habove.eq_of_length_le hbelow.length_le)

/-- Without parts nothing happens. -/
theorem run_processParts_empty (codec : JsonCodec) (readable : PathTree → Bool) (fuel : ℕ)
    (devNode : NodePath) (tree : PathTree) :
    (processParts codec readable fuel devNode .empty).run tree = (.ok false, tree) := rfl

/-- Below the node of a new device, `addExternalDevice` leaves what its parts come to. -/
theorem value?_externalTree (codec : JsonCodec) (fuel : ℕ) (state : ServerState)
    (vrpnName server descriptor : Str)
    (hpath : locateAbsolute ('/' :: trimDeviceName deviceName) = ⟨devNode, none⟩)
    (hmissing : state.tree.value? devNode = none) :
    ∃ element : PathElement, element.isDevice = true ∧ ∀ query, devNode <+: query →
    query ≠ devNode →
      (externalTree codec fuel state deviceName vrpnName server descriptor).value? query =
        NamedTree.value? ((processParts codec (fun _ => true) fuel devNode
          (externalParts codec deviceName descriptor)).run
            (state.tree.set devNode element)).2 query := by
  refine ⟨.deviceElement vrpnName server ((codec.parse descriptor).getD .null), rfl, ?_⟩
  intro query hbelow hne
  unfold externalTree externalParts
  rw [tree_addExternalDevice]
  cases hparse : codec.parse descriptor with
  | none =>
      have hparts : (if deviceName.head? = some '/' then DescriptorParts.empty
          else DescriptorParts.empty) = .empty := ite_self _
      dsimp only
      rw [hparts, run_processParts_empty, value?_set_below _ _ hbelow hne]
  | some descriptorVal =>
      by_cases hslash : deviceName.head? = some '/'
      · have ⟨rest, heq⟩ := List.head?_eq_some_iff.mp hslash
        have hrest : rest ≠ [] := by
          intro hnil
          -- then the node of the device would be the root
          rw [heq, hnil] at hpath
          cases hpath
          cases hmissing
        have ⟨error, hlocated⟩ := locateAbsolute_separators hrest
        rw [if_pos hslash, heq, hlocated, run_processParts_empty, value?_set_below _ _ hbelow hne]
        exact congrArg (fun tree => NamedTree.value? tree query) state.tree.touch_root
      · rw [trimDeviceName, if_neg hslash] at hpath
        rw [if_neg hslash, hpath]
        exact congrArg (fun tree => NamedTree.value? tree query)
          (run_process_parts codec (fun _ => true) fuel devNode descriptorVal _).1

theorem isDevice_newDeviceElement (devName : Str) (descriptor : Json) :
    (newDeviceElement devName).isDevice = true ∧
      ((newDeviceElement devName).setDescriptor descriptor).isDevice = true := by
  unfold newDeviceElement
  split <;> exact ⟨rfl, rfl⟩

/-- Below the node of a new device, `processDeviceDescriptorForPathTree` leaves what its
parts come to. -/
theorem value?_received (codec : JsonCodec) (fuel : ℕ) (state : ServerState) (descriptor : Str)
    (hpath : locateAbsolute ('/' :: trimDeviceName deviceName) = ⟨devNode, none⟩)
    (hmissing : state.tree.value? devNode = none) :
    ∃ element : PathElement, element.isDevice = true ∧
      let received :=
        (processDeviceDescriptorForPathTree codec fuel deviceName descriptor).run state.tree
      let parts := (processParts codec (hasDevice devNode) fuel devNode
        (receivedParts codec descriptor)).run (state.tree.set devNode element)
      (received.1 = .error .undefined → parts.1 = .error .undefined) ∧
        received.2 = parts.2 := by
  have hname : deviceName ≠ [] := by
    intro hnil
    rw [hnil] at hpath
    cases hpath
    cases hmissing
  have hdevice : hasDevice devNode state.tree = false := by
    simp [hasDevice, PathTree.element, hmissing, PathElement.default_eq, PathElement.isDevice]
  have hwith : state.tree.withDevice devNode (trimDeviceName deviceName) =
      state.tree.set devNode (newDeviceElement (trimDeviceName deviceName)) := by
    rw [PathTree.withDevice, hdevice, if_neg Bool.false_ne_true,
      NamedTree.set_touch _ List.prefix_rfl]
  have hrun : (processDeviceDescriptorForPathTree codec fuel deviceName descriptor).run state.tree =
      (processForNode codec fuel devNode true (normalizeDeviceDescriptor codec descriptor)).run
        (state.tree.set devNode (newDeviceElement (trimDeviceName deviceName))) := by
    rw [run_processDeviceDescriptorForPathTree codec state.tree hname, hpath]
    dsimp only
    rw [hdevice, hwith]
    rfl
  have hnever {value : Bool} : (.ok value : Except (Abort TreeError) Bool) = .error .undefined →
      (.ok false : Except (Abort TreeError) Bool) = .error .undefined := by
    intro heq
    cases heq
  rw [hrun]
  cases hnormal : normalizeDeviceDescriptor codec descriptor with
  | error error =>
      have hparts : receivedParts codec descriptor = .empty := by rw [receivedParts, hnormal]
      refine ⟨newDeviceElement (trimDeviceName deviceName),
        (isDevice_newDeviceElement _ .null).1, ?_⟩
      rw [hparts, processForNode, Program.run_bind_of_error (TreeProgram.run_ofJson_error _ error)]
      constructor
      · intro heq
        cases heq
      · rfl
  | ok normalized =>
      cases hparse : codec.parse normalized with
      | none =>
          have hparts : receivedParts codec descriptor = .empty := by
            simp only [receivedParts, hnormal, hparse]
          refine ⟨newDeviceElement (trimDeviceName deviceName),
            (isDevice_newDeviceElement _ .null).1, ?_⟩
          rw [hparts, processForNode, Program.run_bind_of_ok
            (TreeProgram.run_ofJson_ok _ normalized), hparse]
          exact ⟨hnever, rfl⟩
      | some received =>
          have hparts : receivedParts codec descriptor = received.parts := by
            simp only [receivedParts, hnormal, hparse]
          refine ⟨(newDeviceElement (trimDeviceName deviceName)).setDescriptor received,
            (isDevice_newDeviceElement _ received).2, ?_⟩
          have hset : PathTree.withDescriptor
              (state.tree.set devNode (newDeviceElement (trimDeviceName deviceName)))
                devNode received =
              state.tree.set devNode
                ((newDeviceElement (trimDeviceName deviceName)).setDescriptor received) := by
            rw [PathTree.withDescriptor, PathTree.element_set, if_pos rfl, NamedTree.set_set]
          obtain ⟨htree, hundefined⟩ :=
            run_process_parts codec (hasDevice devNode) fuel devNode received
            (state.tree.set devNode
              ((newDeviceElement (trimDeviceName deviceName)).setDescriptor received))
          rw [hparts, run_processForNode_parsed hparse, if_neg (by simp), hset]
          rcases hprocess :
            (processDeviceDescriptorFromExistingDevice codec (hasDevice devNode) fuel devNode
              received).run (state.tree.set devNode
                ((newDeviceElement (trimDeviceName deviceName)).setDescriptor received)) with
            ⟨reason | processed, after⟩
          · rw [hprocess] at htree hundefined
            rw [Program.run_bind_of_error hprocess]
            constructor
            · intro heq
              exact hundefined (congrArg Except.error (Except.error.inj heq))
            · exact htree
          · rw [hprocess] at htree
            rw [Program.run_bind_of_ok hprocess]
            constructor
            · intro heq
              cases heq
            · exact htree

/-- The normalization leaves what is read of the descriptor as it is, and the device element
stays while it is read. -/
def SameDescriptor (codec : JsonCodec) (tree : PathTree) (deviceName descriptor : Str)
    (devNode : NodePath) : Prop :=
  receivedParts codec descriptor = externalParts codec deviceName descriptor ∧
    ∀ element : PathElement, element.isDevice = true →
      KeepsDevice codec devNode (receivedParts codec descriptor) (tree.set devNode element)

/-- A node below one that is not there has no element. -/
theorem element_below_missing {tree : PathTree} (hmissing : tree.value? devNode = none)
    {query : NodePath} (hbelow : devNode <+: query) : tree.element query = .nullElement := by
  have hnone : tree.value? query = none := by
    by_contra hsome
    have habove := tree.isSome_value?_of_above hbelow (Option.isSome_iff_ne_none.mpr hsome)
    rw [hmissing] at habove
    cases habove
  rw [PathTree.element, hnone]
  rfl

/-- Equal descriptors are processed alike below the node of the device. -/
theorem descriptorsAgree_of_same
    (hpath : locateAbsolute ('/' :: trimDeviceName deviceName) = ⟨devNode, none⟩)
    (hmissing : state.tree.value? devNode = none)
    (hsame : SameDescriptor codec state.tree deviceName descriptor devNode) :
    DescriptorsAgree codec fuel state deviceName vrpnName server descriptor devNode := by
  have ⟨hparts, hkeeps⟩ := hsame
  have ⟨external, hexternal, hleft⟩ :=
    value?_externalTree codec fuel state vrpnName server descriptor hpath hmissing
  have ⟨received, hreceived, hundefined, hright⟩ :=
    value?_received codec fuel state descriptor hpath hmissing
  have hrespects := respects_processParts codec devNode fuel (receivedParts codec descriptor)
  have hrun := run_processParts_of_keepsDevice fuel (hkeeps received hreceived)
  constructor
  · intro heq
    have hprocess := hundefined heq
    rw [hrun] at hprocess
    exact hrespects.defined _ hprocess
  · intro query hbelow hne
    have hdiffer : DeviceDiffers devNode (state.tree.set devNode external)
        (state.tree.set devNode received) :=
      .inr ⟨external, received, by rw [NamedTree.value?_set, if_pos rfl], hexternal, hreceived,
        (NamedTree.set_set _ _ _ _).symm⟩
    rw [hleft query hbelow hne, hright, hrun, ← hparts]
    exact (hrespects.related hdiffer).value?_eq hne

/-- An interface is described by both descriptors or by neither, except where an alias has
taken its place. -/
def InterfacesAgree (codec : JsonCodec) (fuel : ℕ) (tree : PathTree) (deviceName descriptor : Str)
    (devNode : NodePath) : Prop :=
  let received := (processDeviceDescriptorForPathTree codec fuel deviceName descriptor).run tree
  ∀ query, devNode <+: query → query ≠ devNode →
    (∀ source priority, received.2.element query ≠ .aliasElement source priority) →
    (query ∈ interfaceNodes devNode (externalParts codec deviceName descriptor).interfaces ↔
      query ∈ interfaceNodes devNode (receivedParts codec descriptor).interfaces)

theorem interfacesAgree_of_descriptorsAgree
    (hpath : locateAbsolute ('/' :: trimDeviceName deviceName) = ⟨devNode, none⟩)
    (hmissing : state.tree.value? devNode = none)
    (hagree : DescriptorsAgree codec fuel state deviceName vrpnName server descriptor devNode) :
    InterfacesAgree codec fuel state.tree deviceName descriptor devNode := by
  intro query hbelow hne halias
  have ⟨external, _, hleft⟩ :=
    value?_externalTree codec fuel state vrpnName server descriptor hpath hmissing
  have ⟨received, _, _, hright⟩ := value?_received codec fuel state descriptor hpath hmissing
  have hthere (element : PathElement) :
      (NamedTree.value? (state.tree.set devNode element) devNode).isSome = true := by
    rw [NamedTree.value?_set, if_pos rfl]
    rfl
  have hnull (element : PathElement) :
      PathTree.element (state.tree.set devNode element) query = .nullElement := by
    rw [PathTree.element_set, if_neg hne, element_below_missing hmissing hbelow]
  have hsame : PathTree.element ((processParts codec (fun _ => true) fuel devNode
      (externalParts codec deviceName descriptor)).run (state.tree.set devNode external)).2 query =
      PathTree.element ((processDeviceDescriptorForPathTree codec fuel deviceName descriptor).run
        state.tree).2 query := by
    unfold PathTree.element
    rw [← hleft query hbelow hne, hagree.2 query hbelow hne]
  have hexternal := element_processParts (hthere external) _ (hnull external)
    (by rw [hsame]; exact halias)
  rw [hright] at halias
  have hreceived := element_processParts (hthere received) _ (hnull received) halias
  rw [hsame, hright, hreceived] at hexternal
  by_cases hfirst :
    query ∈ interfaceNodes devNode (externalParts codec deviceName descriptor).interfaces
  all_goals
    by_cases hsecond : query ∈ interfaceNodes devNode (receivedParts codec descriptor).interfaces
    all_goals simp [hfirst, hsecond] at hexternal ⊢

/-- The two ways agree when the descriptor is the same after the normalization and stays
readable; and where they agree, the normalization has added and removed no interface but
those whose nodes have become aliases. -/
theorem descriptors_agree (codec : JsonCodec) (fuel : ℕ) (state : ServerState)
    (deviceName vrpnName server descriptor : Str) (devNode : NodePath)
    (hpath : locateAbsolute ('/' :: trimDeviceName deviceName) = ⟨devNode, none⟩)
    (hmissing : state.tree.value? devNode = none) :
    (SameDescriptor codec state.tree deviceName descriptor devNode →
      DescriptorsAgree codec fuel state deviceName vrpnName server descriptor devNode) ∧
    (DescriptorsAgree codec fuel state deviceName vrpnName server descriptor devNode →
      InterfacesAgree codec fuel state.tree deviceName descriptor devNode) :=
  ⟨descriptorsAgree_of_same hpath hmissing, interfacesAgree_of_descriptorsAgree hpath hmissing⟩

end Agreement

/-! ## An eyetracker -/

/-- An eyetracker with a direction. -/
def eyeTracker : JsonMembers :=
  [("eyetracker".toList, .obj [("count".toList, .int 1), ("direction".toList, .bool true)])]

def eyeTrackerText : Str :=
  "\x7b\"interfaces\":\x7b\"eyetracker\":\x7b\"count\":1,\"direction\":true\x7d\x7d\x7d".toList

def normalizedText : Str :=
  "\x7b\n   \"interfaces\" : \x7b\n      \"direction\" : \x7b\n         \"count\" : 1\n".toList ++
    "      \x7d,\n      \"eyetracker\" : \x7b\n         \"count\" : 1,\n".toList ++
    "         \"direction\" : true\n      \x7d\n   \x7d\n\x7d\n".toList

/-- The library on these two texts. -/
def eyeTrackerCodec : JsonCodec where
  parse text :=
    if text = eyeTrackerText then some (.obj [(INTERFACES_KEY, .obj eyeTracker)])
    else if text = normalizedText then
      some (.obj [(INTERFACES_KEY,
        .obj ((DIRECTION_KEY, .obj [(COUNT_KEY, .int 1)]) :: eyeTracker))])
    else none
  write _ := []
  toStyledString _ := normalizedText
  realText _ := []

def emptyServer : ServerState := ⟨.empty, false, .null⟩

def eName : PathName := ⟨['e'], by decide⟩

theorem parse_eyeTracker :
    eyeTrackerCodec.parse eyeTrackerText = some (.obj [(INTERFACES_KEY, .obj eyeTracker)]) := by
  simp [eyeTrackerCodec]

theorem parse_normalizedText :
    eyeTrackerCodec.parse normalizedText = some (.obj [(INTERFACES_KEY,
      .obj ((DIRECTION_KEY, .obj [(COUNT_KEY, .int 1)]) :: eyeTracker))]) := by
  have hne : normalizedText ≠ eyeTrackerText := by decide
  simp [eyeTrackerCodec, hne]

theorem receivedParts_eyeTracker :
    receivedParts eyeTrackerCodec eyeTrackerText =
        ⟨[DIRECTION_KEY, EYETRACKER_KEY], .null, .null⟩ ∧
      receivedParts eyeTrackerCodec normalizedText =
        ⟨[DIRECTION_KEY, EYETRACKER_KEY], .null, .null⟩ := by
  have hnormal {text : Str} (htext : text = eyeTrackerText ∨ text = normalizedText) :
      normalizeDeviceDescriptor eyeTrackerCodec text = .ok normalizedText := by
    rcases htext with rfl | rfl
    · rw [normalizeDeviceDescriptor, parse_eyeTracker]
      rfl
    · rw [normalizeDeviceDescriptor, parse_normalizedText]
      rfl
  rw [receivedParts, receivedParts, hnormal (.inl rfl), hnormal (.inr rfl)]
  dsimp only
  rw [parse_normalizedText]
  exact ⟨rfl, rfl⟩

theorem externalParts_eyeTracker :
    externalParts eyeTrackerCodec ['e'] eyeTrackerText = ⟨[EYETRACKER_KEY], .null, .null⟩ := by
  rw [externalParts, if_neg (by decide), parse_eyeTracker]
  rfl

def directionNode : NodePath := [eName, ⟨['d', 'i', 'r', 'e', 'c', 't', 'i', 'o', 'n'], by decide⟩]

def eyeTrackerNode : NodePath :=
  [eName, ⟨['e', 'y', 'e', 't', 'r', 'a', 'c', 'k', 'e', 'r'], by decide⟩]

theorem interfaceNodes_eyeTracker :
    interfaceNodes [eName] [EYETRACKER_KEY] = [eyeTrackerNode] ∧
      interfaceNodes [eName] [DIRECTION_KEY, EYETRACKER_KEY] = [directionNode, eyeTrackerNode] := by
  have hkey : EYETRACKER_KEY = ['e', 'y', 'e', 't', 'r', 'a', 'c', 'k', 'e', 'r'] := rfl
  have hkey' : DIRECTION_KEY = ['d', 'i', 'r', 'e', 'c', 't', 'i', 'o', 'n'] := rfl
  rw [hkey, hkey']
  exact ⟨rfl, rfl⟩

/-- A descriptor that has been normalized is not changed any more. -/
theorem sameDescriptor_normalizedText :
    SameDescriptor eyeTrackerCodec .empty ['e'] normalizedText [eName] := by
  have hexternal : externalParts eyeTrackerCodec ['e'] normalizedText =
      ⟨[DIRECTION_KEY, EYETRACKER_KEY], .null, .null⟩ := by
    rw [externalParts, if_neg (by decide), parse_normalizedText]
    rfl
  rw [SameDescriptor, receivedParts_eyeTracker.2, hexternal]
  exact ⟨rfl, fun _ _ _ _ _ _ _ _ => trivial⟩

theorem descriptors_agree_eyeTracker :
    DescriptorsAgree eyeTrackerCodec 1 emptyServer ['e'] ['e'] ['s'] normalizedText [eName] ∧
      InterfacesAgree eyeTrackerCodec 1 .empty ['e'] normalizedText [eName] := by
  obtain ⟨hagree, hinterfaces⟩ :=
    descriptors_agree eyeTrackerCodec 1 emptyServer ['e'] ['e'] ['s'] normalizedText [eName] rfl rfl
  have hboth := hagree sameDescriptor_normalizedText
  exact ⟨hboth, hinterfaces hboth⟩

/-- Only the descriptor that the device sends comes to have a direction interface. -/
theorem not_descriptorsAgree :
    emptyServer.tree.value? [eName] = none ∧
      ¬ DescriptorsAgree eyeTrackerCodec 1 emptyServer ['e'] ['e'] ['s']
        eyeTrackerText [eName] := by
  refine ⟨rfl, ?_⟩
  intro hagree
  have hpath : locateAbsolute ('/' :: trimDeviceName ['e']) = ⟨[eName], none⟩ := rfl
  have ⟨external, _, hleft⟩ := value?_externalTree eyeTrackerCodec 1 emptyServer ['e'] ['s']
    eyeTrackerText hpath rfl
  have ⟨received, _, _, hright⟩ := value?_received eyeTrackerCodec 1 emptyServer eyeTrackerText
    hpath rfl
  have hsame := hagree.2 directionNode (by decide) (by decide)
  rw [hleft _ (by decide) (by decide), hright, externalParts_eyeTracker, receivedParts_eyeTracker.1]
    at hsame
  have hthere (element : PathElement) :
      (NamedTree.value? (emptyServer.tree.set [eName] element) [eName]).isSome = true := by
    rw [NamedTree.value?_set, if_pos rfl]
    rfl
  have hnull (element : PathElement) :
      PathTree.element (emptyServer.tree.set [eName] element) directionNode = .nullElement := by
    rw [PathTree.element_set, if_neg (by decide)]
    rfl
  have hnone := element_processParts_interfaces eyeTrackerCodec (fun _ => true) 1 (hthere external)
    [EYETRACKER_KEY] directionNode
  have hsome :=
    element_processParts_interfaces eyeTrackerCodec (hasDevice [eName]) 1 (hthere received)
    [DIRECTION_KEY, EYETRACKER_KEY] directionNode
  rw [hnull, interfaceNodes_eyeTracker.1, if_neg (by decide)] at hnone
  rw [hnull, interfaceNodes_eyeTracker.2, if_pos (by decide)] at hsome
  have helement := hnone.symm.trans ((congrArg (Option.getD · default) hsame).trans hsome)
  cases helement

end OSVR.Server
