/-
# What messages can do to the server

A message whose handling throws ends the thread of the server. The other
messages are handled to the end, and those that are malformed leave no trace.
-/

import OsvrCore.Server.ServerTree

set_option autoImplicit false

namespace OSVR.Server

open Math Common AutomaticAliases ServerProgram ServerImpl

namespace ServerImpl

/-- Updates in a row. -/
def updates (codec : JsonCodec) (fuel : ℕ) : List (List ServerMessage) → ServerProgram Unit
  | [] => return ()
  | messages :: rest => do
      update codec fuel messages
      updates codec fuel rest

end ServerImpl

section Definitions

variable (codec : JsonCodec)

/-! ## Malformed messages -/

/-- A route that is no JSON, no description of aliases, or all of whose entries
are passed over. -/
def malformedRoute (route : Str) : Bool :=
  match convertRouteToAlias codec ((codec.parse route).getD .null) with
  | .ok val => descriptionSkipped codec {} (applyPriorityToAlias val ALIASPRIORITY_MANUAL)
  | .error _ => false

/-- A descriptor that is no JSON. -/
def malformedDescriptor (jsonDescriptor : Str) : Bool := (codec.parse jsonDescriptor).isNone

/-- What is well formed in a message. -/
def wellFormedPart : ServerMessage → Option ServerMessage
  | .updatedRoute payload =>
      if malformedRoute codec payload then none else some (.updatedRoute payload)
  | .deviceDescriptors devices =>
      some (.deviceDescriptors (devices.filter fun device => !malformedDescriptor codec device.2))
  | .ping => some .ping

/-! ## The conditions -/

/-- No entry of a route fails or goes on for ever. -/
def RouteSafe (route : Str) (tree : PathTree) : Prop :=
  ∃ val, convertRouteToAlias codec ((codec.parse route).getD .null) = .ok val ∧
    EntriesMeet codec {} (fun _ => true) [] (fun _ => False) (EntrySafe codec {} [])
      (applyPriorityToAlias val ALIASPRIORITY_MANUAL) tree

/-- The name of a device leads to a node, its descriptor can be normalized and is
in order, unless it is there already; and a malformed descriptor is the one of a
known device. -/
def DeviceSafe (deviceName jsonDescriptor : Str) (tree : PathTree) : Prop :=
  deviceName ≠ [] ∧ ∃ devNode normalized,
    locateAbsolute ('/' :: trimDeviceName deviceName) = ⟨devNode, none⟩ ∧
    normalizeDeviceDescriptor codec jsonDescriptor = .ok normalized ∧
    (malformedDescriptor codec jsonDescriptor = true → hasDevice devNode tree = true) ∧
    ∀ descriptor, codec.parse normalized = some descriptor →
      ¬ (hasDevice devNode tree = true ∧ descriptor = (tree.element devNode).descriptor) →
      DescriptorMeets codec (hasDevice devNode) devNode (EntrySafe codec automaticOptions devNode)
        ((tree.withDevice devNode (trimDeviceName deviceName)).withDescriptor devNode descriptor)
        descriptor

/-- The conditions on the descriptors of devices, each in the state it is handled in. -/
def DevicesSafe : List (Str × Str) → ServerState → Prop
  | [], _ => True
  | (deviceName, descriptor) :: rest, state =>
      (descriptor ≠ [] → DeviceSafe codec deviceName descriptor state.tree) ∧
      ∀ fuel after, (handleDeviceDescriptor codec fuel deviceName descriptor).run state =
        (.ok (), after) → DevicesSafe rest after

/-- The condition on a message. -/
def MessageSafe (message : ServerMessage) (state : ServerState) : Prop :=
  match message with
  | .updatedRoute payload => RouteSafe codec payload state.tree
  | .deviceDescriptors devices => DevicesSafe codec devices state
  | .ping => True

/-- The conditions on messages, each in the state it is handled in. -/
def MessagesSafe : List ServerMessage → ServerState → Prop
  | [], _ => True
  | message :: rest, state =>
      MessageSafe codec message state ∧
      ∀ fuel after, (handleMessage codec fuel message).run state = (.ok (), after) →
        MessagesSafe rest after

/-- The conditions on the messages of updates in a row. -/
def UpdatesSafe : List (List ServerMessage) → ServerState → Prop
  | [], _ => True
  | messages :: rest, state =>
      MessagesSafe codec messages state ∧
      ∀ fuel after, (update codec fuel messages).run state = (.ok (), after) →
      UpdatesSafe rest after

end Definitions

/-! ## Handling to the end -/

section Returns

open Program (Returns)

variable {codec : JsonCodec} {state : ServerState}

theorem noteChange_returns {program : ℕ → TreeProgram Bool} {changed : Bool} {tree : PathTree}
    (h : Returns program state.tree changed tree) :
    Returns (fun fuel => noteChange (program fuel)) state changed
      { state with tree := tree, treeDirty := state.treeDirty || changed } := by
  obtain ⟨fuel, hfuel⟩ := h
  refine ⟨fuel, fun more hmore => ?_⟩
  show (noteChange (program more)).run state = _
  rw [noteChange, Program.run_bind_of_ok (run_onTree (hfuel more hmore))]
  rfl

theorem addAliasFromRoute_returns {route : Str} (h : RouteSafe codec route state.tree) :
    ∃ changed tree, Returns
      (fun fuel => addAliasFromRoute codec fuel [] route ALIASPRIORITY_MANUAL) state.tree changed
      tree := by
  obtain ⟨val, hval, hentries⟩ := h
  obtain ⟨changed, tree, hprocess⟩ := process_returns rfl hentries
  refine ⟨changed, tree, ?_⟩
  unfold addAliasFromRoute
  rw [hval]
  exact Returns.bind (.const (TreeProgram.run_ofJson_ok _ val)) hprocess

/-- A malformed route that does not throw does nothing. -/
theorem addAliasFromRoute_malformed {route : Str} (h : RouteSafe codec route state.tree)
    (hmalformed : malformedRoute codec route = true) :
    Returns (fun fuel => addAliasFromRoute codec fuel [] route ALIASPRIORITY_MANUAL) state.tree
      false state.tree := by
  obtain ⟨val, hval, hentries⟩ := h
  rw [malformedRoute, hval] at hmalformed
  unfold addAliasFromRoute
  rw [hval]
  exact Returns.bind (.const (TreeProgram.run_ofJson_ok _ val))
    ⟨0, fun more _ => run_process_skipped more hentries hmalformed⟩

theorem processDeviceDescriptorForPathTree_returns {deviceName jsonDescriptor : Str}
    {tree : PathTree} (h : DeviceSafe codec deviceName jsonDescriptor tree) :
    ∃ changed after, Returns
      (fun fuel => processDeviceDescriptorForPathTree codec fuel deviceName jsonDescriptor) tree
      changed after := by
  obtain ⟨hname, devNode, normalized, hlocated, hnormalized, -, hparsed⟩ := h
  have hrun := fun fuel =>
    run_processDeviceDescriptorForPathTree codec tree hname fuel jsonDescriptor
  simp only [hlocated, hnormalized] at hrun
  cases hparse : codec.parse normalized with
  | none =>
      refine ⟨!hasDevice devNode tree, tree.withDevice devNode (trimDeviceName deviceName), 0,
        fun more _ => (hrun more).trans ?_⟩
      rw [processForNode, Program.run_bind_of_ok (TreeProgram.run_ofJson_ok _ normalized), hparse]
      rfl
  | some descriptor =>
      by_cases hsame : hasDevice devNode tree = true ∧
          descriptor = (tree.element devNode).descriptor
      · refine ⟨!hasDevice devNode tree, tree.withDevice devNode (trimDeviceName deviceName), 0,
          fun more _ => (hrun more).trans ?_⟩
        rw [run_processForNode_parsed hparse, if_pos]
        rw [PathTree.withDevice_of_hasDevice hsame.1, PathTree.element_touch]
        exact ⟨hsame.2, by simp [hsame.1]⟩
      · have hnode := (tree.withDevice devNode (trimDeviceName deviceName)
          ).isSome_value?_withDescriptor devNode descriptor
        obtain ⟨changed, after, hprocess⟩ := processDeviceDescriptorFromExistingDevice_returns hnode
          (hparsed descriptor hparse hsame)
        obtain ⟨fuel, hfuel⟩ := hprocess.map (!hasDevice devNode tree || ·)
        refine ⟨!hasDevice devNode tree || changed, after, fuel,
          fun more hmore => (hrun more).trans ?_⟩
        rw [run_processForNode_parsed hparse, if_neg]
        · exact hfuel more hmore
        · rintro ⟨hdescriptor, hdevice⟩
          have hdevice : hasDevice devNode tree = true := by simpa using hdevice
          rw [PathTree.withDevice_of_hasDevice hdevice, PathTree.element_touch] at hdescriptor
          exact hsame ⟨hdevice, hdescriptor⟩

/-- The node of a device is there. -/
theorem touch_of_hasDevice {devNode : NodePath} {tree : PathTree}
    (h : hasDevice devNode tree = true) : tree.touch devNode = tree := by
  have helement : tree.element devNode ≠ .nullElement := by
    intro hnull
    rw [hasDevice, hnull] at h
    cases h
  obtain ⟨value, hvalue⟩ := Option.isSome_iff_exists.mp (isSome_value?_of_element helement)
  exact tree.touch_of_value? hvalue

/-- A malformed descriptor of a known device does nothing. -/
theorem processDeviceDescriptorForPathTree_malformed {deviceName jsonDescriptor : Str}
    {tree : PathTree} (h : DeviceSafe codec deviceName jsonDescriptor tree)
    (hmalformed : malformedDescriptor codec jsonDescriptor = true) :
    Returns (fun fuel => processDeviceDescriptorForPathTree codec fuel deviceName jsonDescriptor)
      tree false tree := by
  obtain ⟨hname, devNode, normalized, hlocated, hnormalized, hknown, -⟩ := h
  have hdevice := hknown hmalformed
  have hparse : codec.parse jsonDescriptor = none := by simpa [malformedDescriptor] using hmalformed
  obtain rfl : jsonDescriptor = normalized := by
    rw [normalizeDeviceDescriptor, hparse] at hnormalized
    exact Except.ok.inj hnormalized
  refine ⟨0, fun more _ => ?_⟩
  rw [run_processDeviceDescriptorForPathTree codec tree hname]
  simp only [hlocated, hnormalized, PathTree.withDevice_of_hasDevice hdevice,
    touch_of_hasDevice hdevice, hdevice, Bool.not_true]
  rw [processForNode, Program.run_bind_of_ok (TreeProgram.run_ofJson_ok _ _), hparse]
  rfl

/-- A change that is none leaves the state as it is. -/
theorem noteChange_returns_false {program : ℕ → TreeProgram Bool}
    (h : Returns program state.tree false state.tree) :
    Returns (fun fuel => noteChange (program fuel)) state false state := by
  simpa using noteChange_returns h

theorem handleUpdatedRoute_returns {payload : Str} (h : RouteSafe codec payload state.tree) :
    ∃ after, Returns (fun fuel => handleUpdatedRoute codec fuel payload) state () after := by
  obtain ⟨changed, tree, hroute⟩ := addAliasFromRoute_returns h
  exact ⟨_, (noteChange_returns hroute).map fun _ => ()⟩

theorem handleUpdatedRoute_malformed {payload : Str} (h : RouteSafe codec payload state.tree)
    (hmalformed : malformedRoute codec payload = true) :
    Returns (fun fuel => handleUpdatedRoute codec fuel payload) state () state :=
  (noteChange_returns_false (addAliasFromRoute_malformed h hmalformed)).map fun _ => ()

theorem handleDeviceDescriptor_returns {deviceName descriptor : Str}
    (h : descriptor ≠ [] → DeviceSafe codec deviceName descriptor state.tree) :
    ∃ after, Returns (fun fuel => handleDeviceDescriptor codec fuel deviceName descriptor) state ()
      after := by
  unfold handleDeviceDescriptor
  split
  · exact ⟨state, .const rfl⟩
  next hdescriptor =>
    obtain ⟨changed, tree, hdevice⟩ :=
      processDeviceDescriptorForPathTree_returns (h (by simpa using hdescriptor))
    exact ⟨_, (noteChange_returns hdevice).map fun _ => ()⟩

theorem handleDeviceDescriptor_malformed {deviceName descriptor : Str}
    (h : descriptor ≠ [] → DeviceSafe codec deviceName descriptor state.tree)
    (hmalformed : malformedDescriptor codec descriptor = true) :
    Returns (fun fuel => handleDeviceDescriptor codec fuel deviceName descriptor)
      state () state := by
  unfold handleDeviceDescriptor
  split
  · exact .const rfl
  next hdescriptor =>
    exact (noteChange_returns_false (processDeviceDescriptorForPathTree_malformed
      (h (by simpa using hdescriptor)) hmalformed)).map fun _ => ()

/-- The descriptors of devices are handled to the end, and without the malformed
ones the same comes out. -/
theorem handleDeviceDescriptors_returns {devices : List (Str × Str)}
    (h : DevicesSafe codec devices state) :
    ∃ after, Returns (fun fuel => handleDeviceDescriptors codec fuel devices) state () after ∧
      Returns (fun fuel => handleDeviceDescriptors codec fuel
        (devices.filter fun device => !malformedDescriptor codec device.2)) state () after := by
  induction devices generalizing state with
  | nil => exact ⟨state, .const rfl, .const rfl⟩
  | cons device rest ih =>
      obtain ⟨hdevice, hrest⟩ := h
      obtain ⟨middle, hfirst⟩ := handleDeviceDescriptor_returns hdevice
      obtain ⟨after, hall, hkept⟩ := ih (by
        obtain ⟨fuel, hfuel⟩ := hfirst
        exact hrest fuel middle (hfuel fuel le_rfl))
      refine ⟨after, hfirst.bind hall, ?_⟩
      rw [List.filter_cons]
      cases hmalformed : malformedDescriptor codec device.2 with
      | true =>
          obtain ⟨-, rfl⟩ := (handleDeviceDescriptor_malformed hdevice hmalformed).unique hfirst
          simpa using hkept
      | false =>
          simp only [Bool.not_false, ↓reduceIte]
          exact hfirst.bind hkept

/-- Messages are handled to the end, and without what is malformed the same comes out. -/
theorem handleMessages_returns {messages : List ServerMessage}
    (h : MessagesSafe codec messages state) :
    ∃ after, Returns (fun fuel => handleMessages codec fuel messages) state () after ∧
      Returns (fun fuel => handleMessages codec fuel (messages.filterMap (wellFormedPart codec)))
        state () after := by
  induction messages generalizing state with
  | nil => exact ⟨state, .const rfl, .const rfl⟩
  | cons message rest ih =>
      obtain ⟨hmessage, hrest⟩ := h
      have hnext {middle : ServerState}
          (hfirst : Returns (fun fuel => handleMessage codec fuel message) state () middle) :
          MessagesSafe codec rest middle := by
        obtain ⟨fuel, hfuel⟩ := hfirst
        exact hrest fuel middle (hfuel fuel le_rfl)
      cases message with
      | updatedRoute payload =>
          obtain ⟨middle, hfirst⟩ := handleUpdatedRoute_returns hmessage
          obtain ⟨after, hall, hkept⟩ := ih (hnext hfirst)
          refine ⟨after, hfirst.bind hall, ?_⟩
          cases hmalformed : malformedRoute codec payload with
          | true =>
              obtain ⟨-, rfl⟩ := (handleUpdatedRoute_malformed hmessage hmalformed).unique hfirst
              simpa [wellFormedPart, hmalformed] using hkept
          | false =>
              simp only [List.filterMap_cons, wellFormedPart, hmalformed, Bool.false_eq_true,
                ↓reduceIte]
              exact hfirst.bind hkept
      | deviceDescriptors devices =>
          obtain ⟨middle, hfirst, hfirst'⟩ := handleDeviceDescriptors_returns hmessage
          obtain ⟨after, hall, hkept⟩ := ih (hnext hfirst)
          exact ⟨after, hfirst.bind hall, hfirst'.bind hkept⟩
      | ping =>
          have hfirst : Returns (fun fuel => handleMessage codec fuel .ping) state ()
              { state with treeDirty := state.treeDirty || true } := .const rfl
          obtain ⟨after, hall, hkept⟩ := ih (hnext hfirst)
          exact ⟨after, hfirst.bind hall, hfirst.bind hkept⟩

/-- What an update does when its messages have been handled. -/
theorem update_returns {messages : List ServerMessage} {middle : ServerState}
    (h : Returns (fun fuel => handleMessages codec fuel messages) state () middle) :
    Returns (fun fuel => update codec fuel messages) state ()
      (if middle.treeDirty then ⟨middle.tree, false, pathTreeToJson middle.tree false⟩
        else middle) := by
  refine h.bind (.const ?_)
  rw [Program.run_bind_of_ok (Program.run_get middle)]
  split <;> rfl

end Returns

/-- Updates whose messages meet the conditions end normally, and without what is
malformed in the messages the same comes out. -/
theorem updates_end_normally (codec : JsonCodec) (messages : List (List ServerMessage))
    (state : ServerState) (h : UpdatesSafe codec messages state) :
    ∃ after, Program.Returns (fun fuel => updates codec fuel messages) state () after ∧
      Program.Returns
        (fun fuel => updates codec fuel (messages.map (List.filterMap (wellFormedPart codec))))
          state ()
        after := by
  induction messages generalizing state with
  | nil => exact ⟨state, .const rfl, .const rfl⟩
  | cons first rest ih =>
      obtain ⟨hfirst, hrest⟩ := h
      obtain ⟨middle, hall, hkept⟩ := handleMessages_returns hfirst
      have hupdate := update_returns hall
      obtain ⟨after, hall', hkept'⟩ := ih _ (by
        obtain ⟨fuel, hfuel⟩ := hupdate
        exact hrest fuel _ (hfuel fuel le_rfl))
      exact ⟨after, hupdate.bind hall', (update_returns hkept).bind hkept'⟩

/-! ## Routes between plain paths -/

section Plain

variable {codec : JsonCodec} {dest source : NodePath}

theorem getFullPath_ne_of_head {key : Str} (hkey : key.head? ≠ some '/') (node : NodePath) :
    getFullPath node ≠ key := by
  rintro rfl
  exact hkey (getFullPath_head node)

/-- An alias from one plain path to another is safe in every tree. -/
theorem entrySafe_getFullPath (hparse : codec.parse (getFullPath source) = none)
    (hplain : doesPathContainWildcard (getFullPath source) = false) (opts : AliasProcessorOptions)
    (devNode : NodePath) (tree : PathTree) :
    EntrySafe codec opts devNode tree (getFullPath dest) (.str (getFullPath source)) := by
  have hsource :
      ParsedAlias.parse codec (getFullPath source) = .ok ⟨.str (getFullPath source), true⟩ := by
    rw [ParsedAlias.parse, hparse]
  have habsolute : isPathAbsolute (getFullPath source) = true := by
    simpa using isPathAbsolute_getFullPath source []
  refine ⟨fun _ => ⟨fun error herror => (by cases herror), fun parsedSource hparsed _ => ?_⟩,
    fun _ parsedSource hparsed _ hwildcard => ?_⟩ <;>
    obtain rfl := (Except.ok.inj hparsed).symm
  · rw [SourceSpared, if_neg (by
      show ¬ doesPathContainWildcard (getFullPath source) = true
      simp [hplain])]
    intro error herror
    rw [planAlias, locate_getFullPath] at herror
    have hparsed' : ParsedAlias.parse codec
        (ParsedAlias.getAlias codec ⟨.str (getFullPath source), true⟩) =
          .ok ⟨.str (getFullPath source), true⟩ := hsource
    have hleaf : ParsedAlias.getLeaf ⟨.str (getFullPath source), true⟩ = getFullPath source := rfl
    simp only [hparsed', ParsedAlias.isValid, Json.isNull, hleaf, habsolute, Bool.not_false,
      Bool.not_true, Bool.false_eq_true, ↓reduceIte, reduceCtorEq] at herror
  · exact absurd (hplain.symm.trans hwildcard) (by simp)

/-- A route from one plain path to another is safe in every tree. -/
theorem routeSafe_getFullPath (dest source : NodePath) {route : Str}
    (hroute : codec.parse route = some (.obj [(getFullPath dest, .str (getFullPath source))]))
    (hparse : codec.parse (getFullPath source) = none)
    (hplain : doesPathContainWildcard (getFullPath source) = false) (tree : PathTree) :
    RouteSafe codec route tree := by
  have hdestination : DESTINATION_KEY ≠ getFullPath dest :=
    (getFullPath_ne_of_head (by decide) dest).symm
  have hsource : SOURCE_KEY ≠ getFullPath dest := (getFullPath_ne_of_head (by decide) dest).symm
  refine ⟨.obj [(getFullPath dest, .str (getFullPath source))], ?_, ?_, ?_⟩
  · rw [hroute, Option.getD_some, convertRouteToAlias]
    simp only [Json.lookup_cons, if_neg hdestination, if_neg hsource, List.lookup_nil]
    rfl
  · intro error herror
    simp [objectPriority, Json.member?, Json.lookup_insertMember, bind, Except.bind, Json.asInt,
      ALIASPRIORITY_MANUAL, pure, Except.pure] at herror
  · intro priority keys _ hkeys
    obtain rfl := (Except.ok.inj hkeys).symm
    refine MembersMeet.of_forall (fun _ => rfl) (fun key hmem hkey text htext tree => ?_) tree
    obtain ⟨value, hvalue, -⟩ := exists_lookup_of_mem hmem
    obtain rfl : value = text := by
      simpa [applyPriorityToAlias, Json.index, Json.member?, Except.map, hvalue] using htext
    rw [Json.lookup_insertMember, if_neg (Ne.symm hkey), Json.lookup_cons] at hvalue
    split at hvalue
    next hpath =>
      obtain rfl := Option.some.inj hvalue
      rw [hpath]
      exact entrySafe_getFullPath hparse hplain {} [] tree
    next => cases hvalue

end Plain

/-! ## A route with an empty path component -/

def emptyComponentRoute : Str := "\x7b\"/a//b\":\"/c\"\x7d".toList

def plainRoute : Str := "\x7b\"/a\":\"/c\"\x7d".toList

/-- A reader that knows two routes. -/
def routeCodec : JsonCodec where
  parse text :=
    if text = emptyComponentRoute then some (.obj [("/a//b".toList, .str "/c".toList)])
    else if text = plainRoute then some (.obj [("/a".toList, .str "/c".toList)]) else none
  write _ := []
  toStyledString _ := []
  realText _ := []

/-- The tree with one device. -/
def deviceTree : PathTree :=
  PathTree.empty.set [⟨"dev".toList, by decide⟩]
    (.deviceElement "dev".toList "localhost".toList .null)

/-- The exception for the empty component leaves the update. -/
theorem updates_emptyComponentRoute :
    ¬ ∀ (codec : JsonCodec) (messages : List (List ServerMessage)) (state : ServerState),
      ∃ after, Program.Returns (fun fuel => updates codec fuel messages) state () after := by
  intro hall
  obtain ⟨after, fuel, hfuel⟩ := hall routeCodec [[.updatedRoute emptyComponentRoute]]
    ⟨.empty, false, .null⟩
  have hthrows : ((updates routeCodec fuel [[.updatedRoute emptyComponentRoute]]).run
      ⟨.empty, false, .null⟩).1 = .error (.thrown (.emptyPathComponent "a//b".toList)) := rfl
  rw [hfuel fuel le_rfl] at hthrows
  cases hthrows

/-- A descriptor that is no JSON and a route that is none, before a plain route. -/
theorem updates_end_normally_plainRoute :
    ∃ after, Program.Returns (fun fuel => updates routeCodec fuel
        [[.deviceDescriptors [("dev".toList, "x".toList)], .updatedRoute "x".toList],
          [.updatedRoute plainRoute]]) ⟨deviceTree, false, .null⟩ () after ∧
      Program.Returns (fun fuel => updates routeCodec fuel
        [[.deviceDescriptors []], [.updatedRoute plainRoute]])
        ⟨deviceTree, false, .null⟩ () after := by
  refine updates_end_normally routeCodec
    [[.deviceDescriptors [("dev".toList, "x".toList)], .updatedRoute "x".toList],
      [.updatedRoute plainRoute]] ⟨deviceTree, false, .null⟩
    ⟨⟨⟨fun _ => ?_, fun _ _ _ => trivial⟩, fun _ _ _ => ⟨?_, fun _ _ _ => trivial⟩⟩,
      fun _ _ _ => ⟨⟨?_, fun _ _ _ => trivial⟩, fun _ _ _ => trivial⟩⟩
  · exact ⟨by decide, [⟨"dev".toList, by decide⟩], "x".toList, rfl, rfl, fun _ => rfl,
      fun _ hparse => by cases hparse⟩
  · exact ⟨.null, rfl, trivial⟩
  · exact routeSafe_getFullPath [⟨"a".toList, by decide⟩] [⟨"c".toList, by decide⟩] rfl rfl
      (by decide) _

end OSVR.Server
