/-
# When the clients have the current tree

Most of what changes the tree reports it, so that the next update sends the tree.
Two things do not: a new descriptor for a known device that brings nothing else
with it, and whatever was changed before an exception.
-/

import OsvrCore.Server.ServerTree

set_option autoImplicit false

namespace OSVR.Server

open Math Common AutomaticAliases ServerProgram ServerImpl

/-- Unless the tree is going to be sent, it is the tree that was sent last. -/
def ServerState.Sent (state : ServerState) : Prop :=
  state.treeDirty = false → pathTreeToJson state.tree false = state.sent

/-! ## The conditions -/

section Conditions

variable (codec : JsonCodec)

/-- The processing of aliases only fails while nothing has changed. -/
def AliasesSpared (opts : AliasProcessorOptions) (val : Json) (tree : PathTree) : Prop :=
  EntriesMeet codec opts (fun _ => true) [] (Unchanged tree)
    (EntrySpared codec opts [] (Unchanged tree)) val tree

/-- The processing of a route only fails while nothing has changed. -/
def RouteSpared (route : Str) (tree : PathTree) : Prop :=
  ∀ val, convertRouteToAlias codec ((codec.parse route).getD .null) = .ok val →
    AliasesSpared codec {} (applyPriorityToAlias val ALIASPRIORITY_MANUAL) tree

/-- The processing of a descriptor only fails while nothing has changed, and a
descriptor that replaces another one brings something else that is new. -/
def DeviceSpared (deviceName jsonDescriptor : Str) (tree : PathTree) : Prop :=
  ∀ devNode, locateAbsolute ('/' :: trimDeviceName deviceName) = ⟨devNode, none⟩ →
    (∀ error, normalizeDeviceDescriptor codec jsonDescriptor = .error error →
      hasDevice devNode tree = true) ∧
    ∀ normalized descriptor, normalizeDeviceDescriptor codec jsonDescriptor = .ok normalized →
      codec.parse normalized = some descriptor →
      ¬ (hasDevice devNode tree = true ∧ descriptor = (tree.element devNode).descriptor) →
      let described := (tree.withDevice devNode (trimDeviceName deviceName)).withDescriptor devNode
        descriptor
      DescriptorMeets codec (hasDevice devNode) devNode
          (EntrySpared codec automaticOptions devNode fun _ => False) described descriptor ∧
        (hasDevice devNode tree = true → ¬ DescriptorQuiet codec devNode described descriptor)

/-- The conditions on the descriptors of devices, each in the state it is handled in. -/
def DevicesSpared : List (Str × Str) → ServerState → Prop
  | [], _ => True
  | (deviceName, descriptor) :: rest, state =>
      (descriptor ≠ [] → state.treeDirty = false →
        DeviceSpared codec deviceName descriptor state.tree) ∧
      ∀ fuel after, (handleDeviceDescriptor codec fuel deviceName descriptor).run state =
        (.ok (), after) → DevicesSpared rest after

/-- The condition on a message. -/
def MessageSpared (message : ServerMessage) (state : ServerState) : Prop :=
  match message with
  | .updatedRoute payload => state.treeDirty = false → RouteSpared codec payload state.tree
  | .deviceDescriptors devices => DevicesSpared codec devices state
  | .ping => True

/-- The conditions on messages, each in the state it is handled in. -/
def MessagesSpared : List ServerMessage → ServerState → Prop
  | [], _ => True
  | message :: rest, state =>
      MessageSpared codec message state ∧
      ∀ fuel after, (handleMessage codec fuel message).run state = (.ok (), after) →
        MessagesSpared rest after

/-- The condition on a call. -/
def CallSpared (call : ServerCall) (state : ServerState) : Prop :=
  match call with
  | .addRoute route => state.treeDirty = false → RouteSpared codec route state.tree
  | .addAliases aliases priority =>
      state.treeDirty = false → AliasesSpared codec (aliasesOptions priority) aliases state.tree
  | .update messages => MessagesSpared codec messages state
  | .addAlias _ _ _ | .addExternalDevice _ _ _ _ | .addString _ _ => True

end Conditions

/-! ## What each call does -/

section Calls

variable {codec : JsonCodec} {tree : PathTree}

theorem unchanged_stable (tree : PathTree) ⦃before after : PathTree⦄ (h : Unchanged before after)
    (hbefore : Unchanged tree before) : Unchanged tree after := hbefore.trans h

theorem addAliasFromRoute_accounts (fuel : ℕ) {route : Str} (h : RouteSpared codec route tree) :
    Program.Accounts Unchanged (· ≠ .outOfFuel) (Unchanged tree)
      (addAliasFromRoute codec fuel [] route ALIASPRIORITY_MANUAL) tree :=
  ofJson_accounts Unchanged.refl Unchanged.trans (fun _ _ => .refl tree) fun val hval =>
    process_spared (unchanged_stable tree) rfl fuel (h val hval)

theorem addAliasAt_accounts (path source : Str) (priority : AliasPriority) :
    Program.Accounts Unchanged (· ≠ .outOfFuel) (Unchanged tree)
      (addAliasAt codec path source priority) tree := by
  have hget := run_getNodeByPath tree path
  refine .bind Unchanged.trans (fun node after hrun => ?_) fun reason after hrun _ => ?_
  · obtain rfl := (Prod.mk.inj (hget.symm.trans hrun)).2
    refine ⟨.touch tree _, ofJson_accounts Unchanged.refl Unchanged.trans
      (fun _ _ => .touch tree _) fun newSource _ => ?_⟩
    split
    · exact .pure_false Unchanged.refl
    · split
      · exact .pure_false Unchanged.refl
      · have himpl := run_addAliasImpl (tree.touch (locateAbsolute path).reached) node
          (newSource.getAlias codec) priority
        refine ⟨fun after hsilent => ?_, fun reason after hfailed => ?_⟩ <;>
          split at himpl
        · cases himpl.symm.trans hsilent
        · obtain rfl := (Prod.mk.inj (himpl.symm.trans hsilent)).2
          exact .refl _
        · cases himpl.symm.trans hfailed
        · cases himpl.symm.trans hfailed
  · obtain rfl := (Prod.mk.inj (hget.symm.trans hrun)).2
    exact .touch tree _

/-- What is done at the node of a device reports a change that the node or the
descriptor brings, and only fails while nothing has changed. -/
theorem processForNode_accounts (fuel : ℕ) {devNode : NodePath} {devName : Str}
    {normalized : Except JsonError Str}
    (herror : ∀ error, normalized = .error error → hasDevice devNode tree = true)
    (hparsed : ∀ text descriptor, normalized = .ok text → codec.parse text = some descriptor →
      ¬ (hasDevice devNode tree = true ∧ descriptor = (tree.element devNode).descriptor) →
      let described := (tree.withDevice devNode devName).withDescriptor devNode descriptor
      DescriptorMeets codec (hasDevice devNode) devNode
          (EntrySpared codec automaticOptions devNode fun _ => False) described descriptor ∧
        (hasDevice devNode tree = true → ¬ DescriptorQuiet codec devNode described descriptor))
    {result : Except (Abort TreeError) Bool} {after : PathTree}
    (hrun : (processForNode codec fuel devNode (!hasDevice devNode tree) normalized).run
      (tree.withDevice devNode devName) = (result, after)) :
    (result = .ok false → Unchanged tree after) ∧
      ∀ reason, result = .error reason → reason ≠ .outOfFuel → Unchanged tree after := by
  have htouched (hdevice : hasDevice devNode tree = true) :
      Unchanged tree (tree.withDevice devNode devName) := by
    rw [PathTree.withDevice_of_hasDevice hdevice]
    exact .touch tree devNode
  cases hnormalized : normalized with
  | error error =>
      rw [hnormalized, processForNode,
        Program.run_bind_of_error (TreeProgram.run_ofJson_error _ error)] at hrun
      obtain ⟨rfl, rfl⟩ := Prod.mk.inj hrun
      exact ⟨fun h => (by cases h), fun _ _ _ => htouched (herror error hnormalized)⟩
  | ok text =>
      rw [hnormalized] at hrun
      cases hparse : codec.parse text with
      | none =>
          rw [processForNode, Program.run_bind_of_ok (TreeProgram.run_ofJson_ok _ text),
            hparse] at hrun
          obtain ⟨rfl, rfl⟩ := Prod.mk.inj hrun
          exact ⟨fun h => htouched (by simpa using h), fun _ h => by cases h⟩
      | some descriptor =>
          rw [run_processForNode_parsed hparse] at hrun
          split at hrun
          next hsame =>
            obtain ⟨rfl, rfl⟩ := Prod.mk.inj hrun
            exact ⟨fun _ => htouched (by simpa using hsame.2), fun _ h => by cases h⟩
          next hnew =>
            have hnew' : ¬ (hasDevice devNode tree = true ∧
                descriptor = (tree.element devNode).descriptor) := by
              rintro ⟨hdevice, hsame⟩
              refine hnew ⟨?_, by simp [hdevice]⟩
              rw [PathTree.withDevice_of_hasDevice hdevice, PathTree.element_touch]
              exact hsame
            obtain ⟨hmeets, hloud⟩ := hparsed text descriptor hnormalized hparse hnew'
            have hnode := (tree.withDevice devNode devName).isSome_value?_withDescriptor devNode
              descriptor
            obtain ⟨early, automatic, middle, hmiddle, hentries, hreduced⟩ :=
              run_processDeviceDescriptorFromExistingDevice hnode hmeets
            have hspared := process_spared unchanged_nowhere hmiddle fuel hentries
            rcases hprocess : (automaticOptions.process codec (hasDevice devNode) fuel devNode
              automatic).run middle with ⟨reason | changed, last⟩
            · have hfailed := hreduced fuel
              rw [Program.run_bind_of_error hprocess] at hfailed
              rw [Program.run_bind_of_error hfailed] at hrun
              obtain ⟨rfl, rfl⟩ := Prod.mk.inj hrun
              refine ⟨fun h => (by cases h), fun reason' h hreason => ?_⟩
              obtain rfl := Except.error.inj h
              exact (hspared.failed reason last hprocess hreason).elim
            · have hdone := hreduced fuel
              rw [Program.run_bind_of_ok hprocess] at hdone
              have hdone' :
                  (processDeviceDescriptorFromExistingDevice codec (hasDevice devNode) fuel devNode
                    descriptor).run ((tree.withDevice devNode devName).withDescriptor devNode
                      descriptor) = (.ok (early || changed), last) := hdone
              rw [Program.run_bind_of_ok hdone'] at hrun
              obtain ⟨rfl, rfl⟩ := Prod.mk.inj hrun
              refine ⟨fun h => ?_, fun _ h => by cases h⟩
              obtain ⟨hdevice, hquiet⟩ :
                hasDevice devNode tree = true ∧ (early || changed) = false := by
                simpa using h
              rw [hquiet] at hdone'
              exact absurd (processDeviceDescriptorFromExistingDevice_silent hnode hdone').2
                (hloud hdevice)

/-- The descriptor of a named device reports what changes. -/
theorem processDeviceDescriptorForPathTree_accounts (fuel : ℕ) {deviceName jsonDescriptor : Str}
    (h : DeviceSpared codec deviceName jsonDescriptor tree) :
    Program.Accounts Unchanged (· ≠ .outOfFuel) (Unchanged tree)
      (processDeviceDescriptorForPathTree codec fuel deviceName jsonDescriptor) tree := by
  by_cases hname : deviceName = []
  · subst hname
    refine ⟨fun after hrun => ?_, fun reason after hrun _ => ?_⟩
    · cases hrun
    · obtain rfl := (Prod.mk.inj hrun).2
      exact .refl _
  have hrun := run_processDeviceDescriptorForPathTree codec tree hname fuel jsonDescriptor
  rcases hlocated : locateAbsolute ('/' :: trimDeviceName deviceName) with ⟨devNode, _ | error⟩ <;>
    simp only [hlocated] at hrun
  · obtain ⟨herror, hparsed⟩ := h devNode hlocated
    exact ⟨fun after hsilent => (processForNode_accounts fuel herror hparsed
        (hrun.symm.trans hsilent)).1 rfl,
      fun reason after hfailed hreason => (processForNode_accounts fuel herror hparsed
        (hrun.symm.trans hfailed)).2 reason rfl hreason⟩
  · refine ⟨fun after hsilent => ?_, fun reason after hfailed _ => ?_⟩
    · cases hrun.symm.trans hsilent
    · obtain rfl := (Prod.mk.inj (hrun.symm.trans hfailed)).2
      exact .touch tree devNode

end Calls

/-! ## The flag -/

section Flag

variable {codec : JsonCodec} {state : ServerState}

/-- A program keeps what the flag says about the tree, however it ends. -/
def KeepsSent {α : Type} (program : ServerProgram α) (state : ServerState) : Prop :=
  state.Sent → ∀ result after, program.run state = (result, after) → result ≠ .error .outOfFuel →
    after.Sent

theorem KeepsSent.bind {α β : Type} {program : ServerProgram α} {next : α → ServerProgram β}
    (hfirst : KeepsSent program state)
    (hnext : ∀ value after, program.run state = (.ok value, after) → KeepsSent (next value) after) :
    KeepsSent (program >>= next) state := by
  intro hsent result after hrun hreason
  rcases hprogram : program.run state with ⟨reason | value, middle⟩
  · rw [Program.run_bind_of_error hprogram] at hrun
    obtain ⟨rfl, rfl⟩ := Prod.mk.inj hrun
    exact hfirst hsent _ _ hprogram (fun h => hreason (by rw [Except.error.inj h]))
  · rw [Program.run_bind_of_ok hprogram] at hrun
    exact hnext value middle hprogram (hfirst hsent _ _ hprogram (by simp)) result
      after hrun hreason

theorem KeepsSent.pure {α : Type} (value : α) :
    KeepsSent (Pure.pure value : ServerProgram α) state := by
  intro hsent result after hrun _
  obtain rfl := (Prod.mk.inj hrun).2
  exact hsent

theorem Sent.of_unchanged {tree : PathTree} (hsent : state.Sent)
    (h : state.treeDirty = false → Unchanged state.tree tree) :
    ServerState.Sent { state with tree := tree } :=
  fun hclean => (h hclean).written.trans (hsent hclean)

/-- What accounts for its changes, unless the tree is sent anyway, can note them. -/
theorem keepsSent_noteChange {program : TreeProgram Bool}
    (h : state.treeDirty = false → Program.Accounts Unchanged (· ≠ .outOfFuel)
      (Unchanged state.tree) program state.tree) : KeepsSent (noteChange program) state := by
  intro hsent result after hrun hreason
  rcases hprogram : program.run state.tree with ⟨reason | changed, tree⟩
  · rw [noteChange, Program.run_bind_of_error (run_onTree hprogram)] at hrun
    obtain ⟨rfl, rfl⟩ := Prod.mk.inj hrun
    exact Sent.of_unchanged hsent fun hclean => (h hclean).failed reason tree hprogram
      fun hfuel => hreason (by rw [hfuel])
  · rw [noteChange, Program.run_bind_of_ok (run_onTree hprogram)] at hrun
    obtain rfl := (Prod.mk.inj hrun).2
    cases changed with
    | true =>
        intro hclean
        simp at hclean
    | false =>
        have hsame := Sent.of_unchanged hsent fun hclean => (h hclean).silent tree hprogram
        intro hclean
        exact hsame (by simpa using hclean)

theorem keepsSent_of_dirty {α : Type} {program : ServerProgram α}
    (h : (program.run state).2.treeDirty = true) : KeepsSent program state := by
  intro _ result after hrun _ hclean
  rw [hrun] at h
  exact absurd (h.symm.trans hclean) (by simp)

/-- Looking up a node changes nothing that is sent. -/
theorem keepsSent_getNodeByPath (path : Str) : KeepsSent (onTree (getNodeByPath path)) state := by
  intro hsent result after hrun _
  have hget := run_onTree (run_getNodeByPath state.tree path)
  obtain rfl := (Prod.mk.inj (hget.symm.trans hrun)).2
  exact Sent.of_unchanged hsent fun _ => .touch state.tree _

theorem keepsSent_addExternalDevice (fuel : ℕ) (path deviceName server descriptor : Str) :
    KeepsSent (addExternalDevice codec fuel path deviceName server descriptor) state := by
  unfold addExternalDevice
  split
  · exact .pure ()
  next descriptorVal _ =>
    refine (keepsSent_getNodeByPath path).bind fun node found _ => keepsSent_of_dirty ?_
    have hset : (onTree (TreeProgram.setValue node
        (.deviceElement deviceName server descriptorVal))).run found =
          (.ok (), { found with
            tree := found.tree.set node (.deviceElement deviceName server descriptorVal) }) := rfl
    have hdirty (before : ServerState) :
        setDirty.run before = (.ok (), { before with treeDirty := true }) := rfl
    rw [Program.run_bind_of_ok hset, Program.run_bind_of_ok (hdirty _), Program.run_bind]
    -- the rest only handles the tree
    split
    next hprocess => exact congrArg (fun run => run.2.treeDirty) hprocess.symm
    next hprocess => exact congrArg (fun run => run.2.treeDirty) hprocess.symm

theorem keepsSent_addString (path value : Str) : KeepsSent (addString path value) state := by
  refine (keepsSent_getNodeByPath path).bind fun node found _ => ?_
  have hvalue := run_onTree (TreeProgram.run_valueAt found.tree node)
  refine KeepsSent.bind (fun hsent result after hrun _ => ?_) fun element after hrun => ?_
  · obtain rfl := (Prod.mk.inj (hvalue.symm.trans hrun)).2
    exact hsent
  · split
    · exact keepsSent_of_dirty rfl
    · exact .pure false

/-- Discarding a result changes nothing. -/
theorem KeepsSent.discard {α : Type} {program : ServerProgram α} (h : KeepsSent program state) :
    KeepsSent (do let _ ← program) state :=
  h.bind fun _ _ _ => .pure ()

theorem keepsSent_addRoute (fuel : ℕ) {route : Str}
    (h : state.treeDirty = false → RouteSpared codec route state.tree) :
    KeepsSent (addRoute codec fuel route) state :=
  keepsSent_noteChange fun hclean => addAliasFromRoute_accounts fuel (h hclean)

theorem keepsSent_handleDeviceDescriptor (fuel : ℕ) {deviceName descriptor : Str}
    (h : descriptor ≠ [] → state.treeDirty = false →
      DeviceSpared codec deviceName descriptor state.tree) :
    KeepsSent (handleDeviceDescriptor codec fuel deviceName descriptor) state := by
  unfold handleDeviceDescriptor
  split
  · exact .pure ()
  next hdescriptor =>
    refine KeepsSent.discard (keepsSent_noteChange fun hclean => ?_)
    exact processDeviceDescriptorForPathTree_accounts fuel (h (by simpa using hdescriptor) hclean)

theorem keepsSent_handleDeviceDescriptors (fuel : ℕ) {devices : List (Str × Str)}
    (h : DevicesSpared codec devices state) :
    KeepsSent (handleDeviceDescriptors codec fuel devices) state := by
  induction devices generalizing state with
  | nil => exact .pure ()
  | cons device rest ih =>
      exact (keepsSent_handleDeviceDescriptor fuel h.1).bind fun _ after hrun =>
        ih (h.2 fuel after hrun)

theorem keepsSent_handleMessage (fuel : ℕ) {message : ServerMessage}
    (h : MessageSpared codec message state) :
    KeepsSent (handleMessage codec fuel message) state := by
  cases message with
  | updatedRoute payload => exact (keepsSent_addRoute fuel h).discard
  | deviceDescriptors devices => exact keepsSent_handleDeviceDescriptors fuel h
  | ping => exact keepsSent_of_dirty (by simp [handleMessage, queueTreeSend, addDirty])

theorem keepsSent_handleMessages (fuel : ℕ) {messages : List ServerMessage}
    (h : MessagesSpared codec messages state) :
    KeepsSent (handleMessages codec fuel messages) state := by
  induction messages generalizing state with
  | nil => exact .pure ()
  | cons message rest ih =>
      exact (keepsSent_handleMessage fuel h.1).bind fun _ after hrun => ih (h.2 fuel after hrun)

/-- An update leaves a tree that has been sent, or has stopped in a handler. -/
theorem keepsSent_update (fuel : ℕ) {messages : List ServerMessage}
    (h : MessagesSpared codec messages state) : KeepsSent (update codec fuel messages) state := by
  refine (keepsSent_handleMessages fuel h).bind fun _ middle _ => ?_
  intro hsent result after hrun _
  rw [Program.run_bind_of_ok (Program.run_get middle)] at hrun
  split at hrun
  · obtain rfl := (Prod.mk.inj hrun).2
    exact fun _ => rfl
  · obtain rfl := (Prod.mk.inj hrun).2
    exact hsent

theorem keepsSent_perform (fuel : ℕ) {call : ServerCall} (h : CallSpared codec call state) :
    KeepsSent (perform codec fuel call) state := by
  cases call with
  | addRoute route => exact (keepsSent_addRoute fuel h).discard
  | addAlias path source priority =>
      exact (keepsSent_noteChange fun _ => addAliasAt_accounts path source priority).discard
  | addAliases aliases priority =>
      exact (keepsSent_noteChange fun hclean =>
        process_spared (unchanged_stable state.tree) rfl fuel (h hclean)).discard
  | addExternalDevice path deviceName server descriptor =>
      exact keepsSent_addExternalDevice fuel path deviceName server descriptor
  | addString path value => exact (keepsSent_addString path value).discard
  | update messages => exact keepsSent_update fuel h

end Flag

/-- In every run whose calls meet the conditions, the clients have the current
tree whenever the server is not going to send it. -/
theorem sent_of_not_treeDirty (codec : JsonCodec) (tree : PathTree) {state : ServerState}
    (hreach : (serverSystem codec tree).ReachableWhile
      (fun before label => CallSpared codec label.1 before) state)
    (hclean : state.treeDirty = false) : pathTreeToJson state.tree false = state.sent := by
  have hinvariant : (serverSystem codec tree).Invariant
      (fun before label => CallSpared codec label.1 before) ServerState.Sent := by
    refine ⟨fun _ => rfl, fun {before after label} hsent hspared hstep => ?_⟩
    obtain ⟨result, hrun, hreason⟩ := serverSystem_step hstep
    exact keepsSent_perform label.2 hspared hsent result after hrun hreason
  exact hinvariant.reachable hreach hclean

/-! ## A descriptor that is not sent -/

/-- A descriptor that only names a vendor. -/
def vendorText (vendor : Char) : Str := "\x7b\"vendor\":\"".toList ++ [vendor] ++ "\"\x7d".toList

def vendorDescriptor (vendor : Char) : Json := .obj [("vendor".toList, .str [vendor])]

/-- A reader that knows two descriptors. -/
def vendorCodec : JsonCodec where
  parse text :=
    if text = vendorText 'a' then some (vendorDescriptor 'a')
    else if text = vendorText 'b' then some (vendorDescriptor 'b') else none
  write _ := []
  toStyledString _ := []
  realText _ := []

theorem isName_vendorDevice : IsName "dev".toList := by decide

/-- The tree with one device of a vendor. -/
def vendorTree (vendor : Char) : PathTree :=
  PathTree.empty.set [⟨"dev".toList, isName_vendorDevice⟩]
    (.deviceElement "dev".toList "localhost".toList (vendorDescriptor vendor))

/-- A device reports a descriptor, and in the next update another one. -/
def vendorCalls : List (ServerCall × ℕ) :=
  [(.update [.deviceDescriptors [("dev".toList, vendorText 'a')]], 1),
    (.update [.deviceDescriptors [("dev".toList, vendorText 'b')]], 1)]

theorem runWhile_vendorCalls :
    (serverSystem vendorCodec .empty).runWhile (fun _ _ => True) vendorCalls
        (serverSystem vendorCodec .empty).init =
      some ⟨vendorTree 'b', false, pathTreeToJson (vendorTree 'a') false⟩ := rfl

/-- The second descriptor is in the tree, the first one at the clients, and the
tree is not going to be sent. -/
theorem not_sent_of_not_treeDirty :
    ¬ ∀ (codec : JsonCodec) (tree : PathTree) (state : ServerState),
      (serverSystem codec tree).Reachable state → state.treeDirty = false →
        pathTreeToJson state.tree false = state.sent := by
  intro hall
  have hreach := TransitionSystem.reachableWhile_of_run .init _ runWhile_vendorCalls
  exact absurd (hall vendorCodec .empty _ hreach rfl) (by decide)

/-- The tree with one string. -/
def stringTree : PathTree :=
  PathTree.empty.set [⟨"a".toList, by decide⟩] (.stringElement "x".toList)

/-- A string, a message that is no route, and a new client: the tree is sent. -/
theorem sent_of_not_treeDirty_stringTree :
    ∃ sent, pathTreeToJson stringTree false = sent ∧
      (serverSystem vendorCodec .empty).ReachableWhile
        (fun before label => CallSpared vendorCodec label.1 before) ⟨stringTree, false, sent⟩ := by
  have hadd : (serverSystem vendorCodec .empty).step (.addString "/a".toList "x".toList, 0)
      ⟨.empty, false, pathTreeToJson .empty false⟩ =
        some ⟨stringTree, true, pathTreeToJson .empty false⟩ := rfl
  have hupdate : (serverSystem vendorCodec .empty).step
      (.update [.updatedRoute "x".toList, .ping], 0)
      ⟨stringTree, true, pathTreeToJson .empty false⟩ =
        some ⟨stringTree, false, pathTreeToJson stringTree false⟩ := rfl
  have hreach : (serverSystem vendorCodec .empty).ReachableWhile
      (fun before label => CallSpared vendorCodec label.1 before)
      ⟨stringTree, false, pathTreeToJson stringTree false⟩ := by
    refine .step (.step .init ?_ hadd) ?_ hupdate
    · exact trivial
    · exact ⟨fun hclean => (by cases hclean), fun _ _ _ => ⟨trivial, fun _ _ _ => trivial⟩⟩
  exact ⟨_, sent_of_not_treeDirty vendorCodec .empty hreach rfl, hreach⟩

end OSVR.Server
