/-
# When a device survives its descriptor

The interfaces and the semantic aliases of a descriptor never touch the node of the
device.  An automatic alias can lead anywhere, also to that node, and then takes the
place of the device element that its description is read from.
-/

import OsvrCore.Common.DescriptorParts
import OsvrCore.Math.ProgramRequests

set_option autoImplicit false

namespace OSVR.Common

open Math

/-! ## What the automatic aliases ask for -/

/-- The node that a plan sets an alias at, if it sets one. -/
def AliasPlan.targets (plan : AliasPlan) : List NodePath :=
  match plan.outcome with
  | .ok (some (target, _)) => [target]
  | .ok none | .error _ => []

namespace AutomaticAliases

section Requests

variable (codec : JsonCodec) (opts : AliasProcessorOptions) (readable : PathTree → Bool)
  (devNode : NodePath)

/-- The visit of a node asks for an alias if the node has an element. -/
def visitRequests (path : Str) (parsedSource : ParsedAlias) (start node : NodePath)
    (tree : PathTree) : List NodePath :=
  if (tree.element node).isNull then []
  else (copyPlan codec devNode path parsedSource start node).targets

/-- A source asks for one alias, or for one at each visit of its wildcard. -/
def sourceRequests (fuel : ℕ) (path : Str) (parsedSource : ParsedAlias) (priority : AliasPriority) :
    PathTree → List NodePath :=
  if !opts.permitRelativeSource && !isPathAbsolute parsedSource.getLeaf then fun _ => []
  else if !doesPathContainWildcard parsedSource.getLeaf then
    fun _ => (planAlias codec devNode (parsedSource.getAlias codec) path).targets
  else
    Program.askAfter (treePathRetrieve devNode (wildcardStem parsedSource.getLeaf) false)
      fun start => NamedTree.traverseRequests
        (visitWildcard (fun node relPath => processSingleEntry codec devNode
          (path ++ '/' :: relPath) (copiedSource codec parsedSource node) priority) start)
        (visitRequests codec devNode path parsedSource start) fuel start

def entryRequests (fuel : ℕ) (path : Str) (source : Json) (priority : AliasPriority) :
    PathTree → List NodePath :=
  if !opts.permitRelativePath && !isPathAbsolute path then fun _ => []
  else
    Program.askAfter (TreeProgram.ofJson (ParsedAlias.parseValue codec source)) fun parsedSource =>
      sourceRequests codec opts devNode fuel path parsedSource priority

def membersRequests (fuel : ℕ) (obj : Json) (priority : AliasPriority) :
    List Str → PathTree → List NodePath
  | [] => fun _ => []
  | key :: keys =>
      if PRIORITY_KEY = key then membersRequests fuel obj priority keys
      else
        Program.askAfter (checkReadable readable) fun _ =>
          Program.askAfter (TreeProgram.ofJson (obj.index key)) fun source =>
            Program.askThen (entryRequests codec opts devNode fuel key source priority)
              (processEntry codec opts devNode fuel key source priority)
              fun _ => membersRequests fuel obj priority keys

def objectRequests (fuel : ℕ) (obj : Json) : PathTree → List NodePath :=
  Program.askAfter (TreeProgram.ofJson (objectPriority opts obj)) fun priority =>
    Program.askAfter (TreeProgram.ofJson obj.getMemberNames) fun keys =>
      membersRequests codec opts readable devNode fuel obj priority keys

def elementRequests (fuel : ℕ) (elt : Json) : PathTree → List NodePath :=
  if elt.isObject then objectRequests codec opts readable devNode fuel elt else fun _ => []

def arrayRequests (fuel : ℕ) : List Json → PathTree → List NodePath
  | [] => fun _ => []
  | elt :: rest =>
      Program.askAfter (checkReadable readable) fun _ =>
        Program.askThen (elementRequests codec opts readable devNode fuel elt)
          (processElement codec opts readable devNode fuel elt) fun _ => arrayRequests fuel rest

/-- The nodes an alias description asks for aliases at, each in the tree that what comes
before it has left. -/
def requests (fuel : ℕ) (val : Json) : PathTree → List NodePath :=
  match val with
  | .arr items => arrayRequests codec opts readable devNode fuel items
  | .obj members => objectRequests codec opts readable devNode fuel (.obj members)
  | .null | .bool _ | .int _ | .real _ | .str _ => fun _ => []

end Requests

/-! ## Keeping an element -/

/-- A node has a certain element. -/
abbrev Holds (node : NodePath) (element : PathElement) (tree : PathTree) : Prop :=
  tree.element node = element

/-- A step neither takes the element away nor brings it back. -/
def HoldsAlike (node : NodePath) (element : PathElement) (before after : PathTree) : Prop :=
  Holds node element after ↔ Holds node element before

namespace HoldsAlike

variable {node : NodePath} {element : PathElement}

theorem refl (tree : PathTree) : HoldsAlike node element tree tree := Iff.rfl

theorem trans ⦃first second third : PathTree⦄ (h : HoldsAlike node element first second)
    (h' : HoldsAlike node element second third) : HoldsAlike node element first third :=
  Iff.trans h' h

theorem touch (tree : PathTree) (path : NodePath) :
    HoldsAlike node element tree (tree.touch path) := by
  rw [HoldsAlike, Holds, PathTree.element_touch]

end HoldsAlike

section Keeping

variable {codec : JsonCodec} {opts : AliasProcessorOptions} {readable : PathTree → Bool}
  {devNode : NodePath} {element : PathElement}

theorem isSome_value?_of_holds (helement : element.isDevice = true) {tree : PathTree}
    (h : Holds devNode element tree) : (tree.value? devNode).isSome = true := by
  apply isSome_value?_of_element
  intro hnull
  rw [Holds, hnull] at h
  rw [← h] at helement
  cases helement

/-- Aliases never bring a device element back. -/
theorem not_holds_of_onlyAliases (helement : element.isDevice = true) {before after : PathTree}
    (h : OnlyAliases before after) (hlost : ¬ Holds devNode element before) :
    ¬ Holds devNode element after := by
  intro hafter
  rcases h devNode with hsame | ⟨source, priority, halias⟩
  · exact hlost (hsame.symm.trans hafter)
  · rw [Holds, halias] at hafter
    rw [← hafter] at helement
    cases helement

/-- A device element makes way for every alias. -/
theorem holds_execute_iff (helement : element.isDevice = true) (plan : AliasPlan)
    (priority : AliasPriority) {tree : PathTree} (h : Holds devNode element tree) :
    Holds devNode element (plan.execute priority tree).2 ↔ devNode ∉ plan.targets := by
  have hfound : Holds devNode element (tree.touchAll plan.lookups) :=
    (tree.element_touchAll plan.lookups devNode).trans h
  unfold AliasPlan.execute AliasPlan.targets
  rcases plan.outcome with error | _ | ⟨target, source⟩
  · simpa using hfound
  · simpa using hfound
  · by_cases htarget : devNode = target
    · have hneeds : aliasNeedsUpdate (tree.element target) source priority = true := by
        rw [← htarget, show tree.element devNode = element from h]
        cases element with
        | deviceElement _ _ _ => rfl
        | _ => cases helement
      have hgone : PathElement.aliasElement source priority ≠ element := by
        intro halias
        rw [← halias] at helement
        cases helement
      simp [hneeds, htarget, Holds, PathTree.element_set, hgone]
    · have hother : Holds devNode element
          ((tree.touchAll plan.lookups).set target (.aliasElement source priority)) := by
        rw [Holds, PathTree.element_set, if_neg htarget]
        exact hfound
      simp only [List.mem_singleton, htarget, not_false_eq_true, iff_true]
      split
      · exact hother
      · exact hfound

section LosesBy

variable (codec opts readable devNode) (helement : element.isDevice = true)

include helement

theorem losesBy_processSingleEntry (path source : Str) (priority : AliasPriority) :
    Program.LosesBy (Holds devNode element) devNode
      (fun _ => (planAlias codec devNode source path).targets)
      (processSingleEntry codec devNode path source priority) where
  kept tree hholds := by
    have hrun := run_addAliasFromSourceAndRelativeDest codec tree devNode
      (isSome_value?_of_holds helement hholds) source path priority
    rw [processSingleEntry, hrun]
    exact holds_execute_iff helement _ priority hholds
  lost tree := not_holds_of_onlyAliases helement
    (relates_processSingleEntry codec devNode OnlyAliases.refl OnlyAliases.trans OnlyAliases.touch
      OnlyAliases.set path source priority tree)

theorem losesBy_visitWildcard (path : Str) (parsedSource : ParsedAlias) (priority : AliasPriority)
    (start node : NodePath) :
    Program.LosesBy (Holds devNode element) devNode
      (visitRequests codec devNode path parsedSource start node)
      (visitWildcard (fun node relPath => processSingleEntry codec devNode (path ++ '/' :: relPath)
        (copiedSource codec parsedSource node) priority) start node) := by
  have hentry := losesBy_processSingleEntry codec devNode helement
    (path ++ '/' :: relativePath start node) (copiedSource codec parsedSource node) priority
  constructor
  · intro tree hholds
    rw [visitWildcard, Program.run_bind_of_ok (TreeProgram.run_valueAt tree node), visitRequests]
    split
    · simpa using hholds
    · exact hentry.kept tree hholds
  · intro tree hlost
    rw [visitWildcard, Program.run_bind_of_ok (TreeProgram.run_valueAt tree node)]
    split
    · exact hlost
    · exact hentry.lost tree hlost

omit helement in
theorem losesBy_ofJson {α : Type} (result : Except JsonError α) :
    Program.LosesBy (Holds devNode element) devNode (fun _ => []) (TreeProgram.ofJson result) := by
  cases result with
  | error error => exact .of_abort _
  | ok value => exact .of_pure value

omit helement in
theorem losesBy_checkReadable :
    Program.LosesBy (Holds devNode element) devNode (fun _ => []) (checkReadable readable) := by
  apply Program.LosesBy.of_relates
  intro tree
  rw [checkReadable, Program.run_bind_of_ok (Program.run_get tree)]
  split <;> exact Iff.rfl

omit helement in
theorem losesBy_treePathRetrieve (node : NodePath) (path : Str) :
    Program.LosesBy (Holds devNode element) devNode (fun _ => [])
      (treePathRetrieve node path false) :=
  .of_relates (relates_treePathRetrieve HoldsAlike.refl HoldsAlike.trans HoldsAlike.touch node path
    false)

theorem losesBy_processEntry (fuel : ℕ) (path : Str) (source : Json) (priority : AliasPriority) :
    Program.LosesBy (Holds devNode element) devNode
      (entryRequests codec opts devNode fuel path source priority)
      (processEntry codec opts devNode fuel path source priority) := by
  rw [processEntry_eq, entryRequests]
  split
  · exact .of_pure false
  · apply (losesBy_ofJson devNode _).bind_after
    intro parsedSource
    unfold sourceRequests processSource
    split
    · exact .of_pure false
    · split
      · exact losesBy_processSingleEntry codec devNode helement _ _ _
      · apply (losesBy_treePathRetrieve devNode _ _).bind_after
        intro start
        have hvisit := losesBy_visitWildcard codec devNode helement path
          parsedSource priority start
        exact (NamedTree.losesBy_traverse hvisit fuel).1 start

theorem losesBy_processMembers (fuel : ℕ) (obj : Json) (priority : AliasPriority)
    (keys : List Str) :
    Program.LosesBy (Holds devNode element) devNode
      (membersRequests codec opts readable devNode fuel obj priority keys)
      (processMembers codec opts readable devNode fuel obj priority keys) := by
  induction keys with
  | nil => exact .of_pure false
  | cons key keys ih =>
      rw [membersRequests, processMembers]
      split
      · exact ih
      · apply (losesBy_checkReadable readable devNode).bind_after
        intro _
        apply (losesBy_ofJson devNode _).bind_after
        intro source
        apply (losesBy_processEntry codec opts devNode helement fuel key source priority).bind
        intro changed
        exact ih.bind_pure _

theorem losesBy_processElement (fuel : ℕ) (elt : Json) :
    Program.LosesBy (Holds devNode element) devNode
      (elementRequests codec opts readable devNode fuel elt)
      (processElement codec opts readable devNode fuel elt) := by
  unfold elementRequests processElement
  split
  · apply (losesBy_ofJson devNode _).bind_after
    intro priority
    apply (losesBy_ofJson devNode _).bind_after
    intro keys
    exact losesBy_processMembers codec opts readable devNode helement fuel elt priority keys
  · exact .of_pure false

theorem losesBy_processArray (fuel : ℕ) (items : List Json) :
    Program.LosesBy (Holds devNode element) devNode
      (arrayRequests codec opts readable devNode fuel items)
      (processArray codec opts readable devNode fuel items) := by
  induction items with
  | nil => exact (losesBy_checkReadable readable devNode).bind_pure fun _ => false
  | cons elt rest ih =>
      apply (losesBy_checkReadable readable devNode).bind_after
      intro _
      apply (losesBy_processElement codec opts readable devNode helement fuel elt).bind
      intro changed
      exact ih.bind_pure _

/-- A description takes a device element away exactly when it asks for an alias at its node. -/
theorem losesBy_process (fuel : ℕ) (val : Json) :
    Program.LosesBy (Holds devNode element) devNode (requests codec opts readable devNode fuel val)
      (opts.process codec readable fuel devNode val) := by
  cases val with
  | arr items => exact losesBy_processArray codec opts readable devNode helement fuel items
  | obj members =>
      exact losesBy_processElement codec opts readable devNode helement fuel (.obj members)
  | null | bool _ | int _ | real _ | str _ => exact .of_pure false

end LosesBy
end Keeping
end AutomaticAliases

/-! ## The parts before the automatic aliases -/

section Parts

open AutomaticAliases

variable {codec : JsonCodec} {readable : PathTree → Bool} {devNode : NodePath}
  {element : PathElement}

/-- An interface only gets an element where there is none. -/
theorem relates_addInterface (helement : element.isDevice = true) (iface : Str) :
    Program.Relates (HoldsAlike devNode element) (addInterface devNode iface) := by
  apply Program.Relates.bind HoldsAlike.trans
    (relates_treePathRetrieve HoldsAlike.refl HoldsAlike.trans HoldsAlike.touch devNode iface false)
  intro node tree
  rw [Program.run_bind_of_ok (TreeProgram.run_valueAt tree node)]
  split
  next hnull =>
    rw [PathElement.isNull_iff] at hnull
    show HoldsAlike devNode element tree (tree.set node .interfaceElement)
    rw [HoldsAlike, Holds, PathTree.element_set]
    split
    next hnode =>
      rw [Holds, hnode, hnull]
      cases element with
      | deviceElement _ _ _ => simp
      | _ => cases helement
    next => exact Iff.rfl
  next => exact .refl tree

theorem relates_processInterfaces (devNode : NodePath) (helement : element.isDevice = true)
    (ifaces : List Str) :
    Program.Relates (HoldsAlike devNode element) (processInterfaces devNode ifaces) := by
  rw [processInterfaces_eq]
  apply Program.relates_inOrder HoldsAlike.refl HoldsAlike.trans
  intro program hprogram
  have ⟨iface, _, heq⟩ := List.mem_map.mp hprogram
  rw [← heq]
  exact relates_addInterface helement iface

/-- A path that begins with a name leads below the node it starts from. -/
theorem locate_name_append (node : NodePath) (name : PathName) {rest : Str}
    (hrest : rest = [] ∨ rest.head? = some '/') :
    ∃ below failure, locate node (name.1 ++ rest) = ⟨node ++ name :: below, failure⟩ := by
  have ⟨hempty, hsep, hhere, hparent⟩ := name.2
  have htrimmed : ∃ rest', trimTrailing (name.1 ++ rest) = name.1 ++ rest' ∧
      (rest' = [] ∨ rest'.head? = some '/') := by
    unfold trimTrailing
    split
    next hlast =>
      rcases hrest with rfl | hhead
      · rw [List.append_nil] at hlast
        exact absurd (List.mem_of_getLast? (beq_iff_eq.mp hlast)) hsep
      · have ⟨more, hmore⟩ := List.head?_eq_some_iff.mp hhead
        refine ⟨rest.dropLast, List.dropLast_append_of_ne_nil (by simp [hmore]), ?_⟩
        rw [hmore]
        cases more with
        | nil => exact .inl rfl
        | cons c more => exact .inr rfl
    next => exact ⟨rest, rfl, hrest⟩
  have ⟨rest', htrim, hrest'⟩ := htrimmed
  have hcomponents : ∃ others, components (name.1 ++ rest') = name.component :: others := by
    rcases hrest' with rfl | hhead
    · rw [List.append_nil]
      exact ⟨[], components_of_not_mem hsep⟩
    · have ⟨more, hmore⟩ := List.head?_eq_some_iff.mp hhead
      rw [hmore]
      exact ⟨components more, components_append hsep more⟩
  have ⟨others, hothers⟩ := hcomponents
  have ⟨c, more, hname⟩ := List.exists_cons_of_ne_nil hempty
  have hc : c ≠ '/' := by
    intro heq
    rw [hname, heq] at hsep
    exact hsep List.mem_cons_self
  have hfollow :
      follow (trimTrailing (name.1 ++ rest)) (components (trimTrailing (name.1 ++ rest))) =
        (follow (trimTrailing (name.1 ++ rest)) others).below name := by
    rw [htrim, hothers, follow]
    simp [PathName.component, hempty, hhere, hparent]
  have hlocate : locate node (name.1 ++ rest) =
      ((follow (trimTrailing (name.1 ++ rest)) others).below name).from_ node := by
    rw [← hfollow, hname, List.cons_append, locate, if_neg hc]
  exact ⟨_, _, hlocate⟩

/-- The name of the node the semantic aliases are below. -/
def semanticName : PathName := ⟨SEMANTIC_KEY, by decide⟩

mutual

/-- The path of a semantic alias goes on from the path of its level. -/
theorem path_of_mem_aliases (path : Str) : (level : Json) →
    ∀ entry ∈ SemanticRecursion.aliases path level,
      ∃ rest, entry.2 = path ++ rest ∧ (rest = [] ∨ rest.head? = some '/')
  | .str text => by
      intro entry hentry
      rw [SemanticRecursion.aliases, List.mem_singleton] at hentry
      exact ⟨[], by simp [hentry], .inl rfl⟩
  | .obj members => by
      intro entry hentry
      rw [SemanticRecursion.aliases, List.mem_append] at hentry
      rcases hentry with htarget | hmember
      · split at htarget
        · cases htarget
        · rw [List.mem_singleton] at htarget
          exact ⟨[], by simp [htarget], .inl rfl⟩
      · exact path_of_mem_memberAliases path members entry hmember
  | .null | .bool _ | .int _ | .real _ | .arr _ => by
      intro entry hentry
      rw [SemanticRecursion.aliases] at hentry
      cases hentry

theorem path_of_mem_memberAliases (path : Str) : (members : JsonMembers) →
    ∀ entry ∈ SemanticRecursion.memberAliases path members,
      ∃ rest, entry.2 = path ++ rest ∧ (rest = [] ∨ rest.head? = some '/')
  | [] => by
      intro entry hentry
      rw [SemanticRecursion.memberAliases] at hentry
      cases hentry
  | (memberName, value) :: others => by
      intro entry hentry
      rw [SemanticRecursion.memberAliases] at hentry
      split at hentry
      · exact path_of_mem_memberAliases path others entry hentry
      · rcases List.mem_append.mp hentry with hvalue | hother
        · have ⟨rest, heq, _⟩ := path_of_mem_aliases (path ++ '/' :: memberName) value entry hvalue
          exact ⟨'/' :: memberName ++ rest, by simp [heq], .inr rfl⟩
        · exact path_of_mem_memberAliases path others entry hother

end

/-- An alias goes where its path leads. -/
theorem eq_of_mem_targets {source dest : Str} {target : NodePath}
    (h : target ∈ (planAlias codec devNode source dest).targets) :
    target = (locate devNode dest).reached := by
  unfold AliasPlan.targets at h
  split at h
  next reached found houtcome =>
    rw [List.mem_singleton] at h
    rw [h]
    unfold planAlias at houtcome
    dsimp only at houtcome
    split at houtcome
    · cases houtcome
    · cases houtcome
    · split at houtcome
      · cases houtcome
      · split at houtcome
        · cases houtcome
          rfl
        · dsimp only at houtcome
          split at houtcome <;> cases houtcome
          rfl
  next => cases h
  next => cases h

/-- Semantic aliases stay below the device. -/
theorem relates_processSemantic_holds (codec : JsonCodec) (devNode : NodePath)
    (helement : element.isDevice = true) (semantic : Json) :
    Program.Relates (HoldsAlike devNode element) (processSemantic codec devNode semantic) := by
  unfold processSemantic
  split
  · rw [SemanticRecursion.recurse_eq]
    apply Program.relates_inOrder HoldsAlike.refl HoldsAlike.trans
    intro program hprogram tree
    have ⟨entry, hentry, heq⟩ := List.mem_map.mp hprogram
    have ⟨rest, hpath, hrest⟩ := path_of_mem_aliases SEMANTIC_KEY semantic entry hentry
    have ⟨below, failure, hlocated⟩ := locate_name_append devNode semanticName hrest
    have hadd := losesBy_processSingleEntry codec devNode helement entry.2
      (codec.toStyledString entry.1) ALIASPRIORITY_SEMANTICROUTE
    have hsilent :
        devNode ∉ (planAlias codec devNode (codec.toStyledString entry.1) entry.2).targets := by
      intro hmem
      have htarget := eq_of_mem_targets hmem
      rw [hpath, show SEMANTIC_KEY = semanticName.1 from rfl, hlocated] at htarget
      simpa using congrArg List.length htarget
    rw [← heq]
    by_cases hholds : Holds devNode element tree
    · exact iff_of_true ((hadd.kept tree hholds).mpr hsilent) hholds
    · exact iff_of_false (hadd.lost tree hholds) hholds
  · exact HoldsAlike.refl

variable (codec readable devNode)

/-- The nodes the automatic aliases of a descriptor are asked for at. -/
def automaticRequests (fuel : ℕ) (parts : DescriptorParts) : PathTree → List NodePath :=
  Program.askAfter (processInterfaces devNode parts.interfaces) fun _ =>
    Program.askAfter (processSemantic codec devNode parts.semantic) fun _ =>
      requests codec automaticOptions readable devNode fuel parts.automatic

variable {codec readable devNode}

theorem losesBy_processParts (helement : element.isDevice = true) (fuel : ℕ)
    (parts : DescriptorParts) :
    Program.LosesBy (Holds devNode element) devNode
      (automaticRequests codec readable devNode fuel parts)
      (processParts codec readable fuel devNode parts) := by
  have hinterfaces := relates_processInterfaces devNode helement parts.interfaces
  have hsemantic := relates_processSemantic_holds codec devNode helement parts.semantic
  have hautomatic := losesBy_process codec automaticOptions readable devNode helement fuel
    parts.automatic
  apply (Program.LosesBy.of_relates hinterfaces).bind_after
  intro interfaces
  apply (Program.LosesBy.of_relates hsemantic).bind_after
  intro semantic
  exact hautomatic.bind_pure (interfaces || semantic || ·)

end Parts

/-! ## The device of a descriptor -/

section Device

variable (codec : JsonCodec) (fuel : ℕ) (deviceName jsonDescriptor : Str)

/-- The server of the device at a node: that of its element, or the host in its name. -/
def deviceServer (tree : PathTree) (devNode : NodePath) (devName : Str) : Str :=
  match tree.element devNode with
  | .deviceElement _ server _ => server
  | .nullElement | .aliasElement _ _ | .sensorElement | .interfaceElement | .pluginElement
  | .stringElement _ =>
      if '@' ∈ devName then (devName.dropWhile (· ≠ '@')).tail else "localhost".toList

/-- The node of the named device has a device element with the server of the device and the
normalized descriptor. -/
def CarriesDescriptor (tree after : PathTree) : Prop :=
  ∀ devNode normalized descriptor, deviceName ≠ [] →
    locateAbsolute ('/' :: trimDeviceName deviceName) = ⟨devNode, none⟩ →
    normalizeDeviceDescriptor codec jsonDescriptor = .ok normalized →
    codec.parse normalized = some descriptor →
    ∃ devName, after.element devNode =
      .deviceElement devName (deviceServer tree devNode (trimDeviceName deviceName)) descriptor

/-- No automatic alias is asked for at the node of the device, unless the descriptor is not
processed because it is known. -/
def AliasesSpareDevice (tree : PathTree) : Prop :=
  ∀ devNode normalized descriptor, deviceName ≠ [] →
    locateAbsolute ('/' :: trimDeviceName deviceName) = ⟨devNode, none⟩ →
    normalizeDeviceDescriptor codec jsonDescriptor = .ok normalized →
    codec.parse normalized = some descriptor →
    ¬ (hasDevice devNode tree = true ∧ descriptor = (tree.element devNode).descriptor) →
    devNode ∉ automaticRequests codec (hasDevice devNode) devNode fuel descriptor.parts
      ((tree.withDevice devNode (trimDeviceName deviceName)).withDescriptor devNode descriptor)

end Device

section Survival

variable {codec : JsonCodec} {tree : PathTree} {devNode : NodePath}

/-- The element that a device is given, or has. -/
theorem element_withDevice (tree : PathTree) (devNode : NodePath) (devName : Str) :
    ∃ name descriptor, (tree.withDevice devNode devName).element devNode =
      .deviceElement name (deviceServer tree devNode devName) descriptor ∧
        (hasDevice devNode tree = true → descriptor = (tree.element devNode).descriptor) := by
  unfold PathTree.withDevice
  cases helement : tree.element devNode with
  | deviceElement name server descriptor =>
      have hdevice : hasDevice devNode tree = true := by
        rw [hasDevice, helement]
        rfl
      rw [if_pos hdevice, PathTree.element_touch, helement]
      exact ⟨name, descriptor, by simp [deviceServer, helement], fun _ => rfl⟩
  | _ =>
      have hdevice : hasDevice devNode tree = false := by
        rw [hasDevice, helement]
        rfl
      rw [hdevice, if_neg Bool.false_ne_true, PathTree.element_set, if_pos rfl, deviceServer,
        helement, newDeviceElement]
      split
      · exact ⟨_, _, rfl, fun h => by cases h⟩
      · exact ⟨_, _, rfl, fun h => by cases h⟩

/-- Where the descriptor of a named device leads. -/
theorem snd_run_processDeviceDescriptor (tree : PathTree)
    {deviceName jsonDescriptor normalized : Str} {descriptor : Json} (hname : deviceName ≠ [])
    (hlocated : locateAbsolute ('/' :: trimDeviceName deviceName) = ⟨devNode, none⟩)
    (hnormalized : normalizeDeviceDescriptor codec jsonDescriptor = .ok normalized)
    (hparse : codec.parse normalized = some descriptor) (fuel : ℕ) :
    ((processDeviceDescriptorForPathTree codec fuel deviceName jsonDescriptor).run tree).2 =
      if hasDevice devNode tree = true ∧ descriptor = (tree.element devNode).descriptor then
        tree.withDevice devNode (trimDeviceName deviceName)
      else
        ((processParts codec (hasDevice devNode) fuel devNode descriptor.parts).run
          ((tree.withDevice devNode (trimDeviceName deviceName)).withDescriptor devNode
            descriptor)).2 := by
  have hknown : (descriptor = ((tree.withDevice devNode (trimDeviceName deviceName)).element
        devNode).descriptor ∧ (!hasDevice devNode tree) = false) ↔
      (hasDevice devNode tree = true ∧ descriptor = (tree.element devNode).descriptor) := by
    rw [Bool.not_eq_false', and_comm]
    apply and_congr_right
    intro hdevice
    rw [PathTree.withDevice_of_hasDevice hdevice, PathTree.element_touch]
  rw [run_processDeviceDescriptorForPathTree codec tree hname, hlocated]
  dsimp only
  rw [hnormalized, run_processForNode_parsed hparse]
  split
  next hsame => rw [if_pos (hknown.mp hsame)]
  next hnew =>
    rw [if_neg fun hsame => hnew (hknown.mpr hsame), Program.snd_run_bind_pure]
    exact (run_process_parts codec (hasDevice devNode) fuel devNode descriptor _).1

/-- The device element that a descriptor is put into stays exactly when no automatic alias is
asked for at its node. -/
theorem element_processParts_device_iff {name server : Str} {descriptor : Json}
    {parts : DescriptorParts}
    (helement : tree.element devNode = .deviceElement name server descriptor) (fuel : ℕ) :
    (∃ devName, PathTree.element
        ((processParts codec (hasDevice devNode) fuel devNode parts).run tree).2 devNode =
          .deviceElement devName server descriptor) ↔
      devNode ∉ automaticRequests codec (hasDevice devNode) devNode fuel parts tree := by
  have hloses (devName : Str) : Program.LosesBy
      (AutomaticAliases.Holds devNode (.deviceElement devName server descriptor)) devNode
      (automaticRequests codec (hasDevice devNode) devNode fuel parts)
      (processParts codec (hasDevice devNode) fuel devNode parts) :=
    losesBy_processParts rfl fuel parts
  rw [← (hloses name).kept tree helement]
  apply Iff.intro
  · rintro ⟨devName, hafter⟩
    by_cases hsame : devName = name
    · rwa [hsame] at hafter
    · -- an element with another name cannot have come from anywhere
      refine absurd hafter ((hloses devName).lost tree fun hholds => hsame ?_)
      rw [AutomaticAliases.Holds, helement] at hholds
      injection hholds with heq
      exact heq.symm
  · intro hholds
    exact ⟨name, hholds⟩

/-- However the processing of a descriptor ends, the device carries the normalized descriptor
exactly when no automatic alias was asked for at its node. -/
theorem carriesDescriptor_iff (codec : JsonCodec) (fuel : ℕ) (deviceName jsonDescriptor : Str)
    (tree : PathTree) :
    CarriesDescriptor codec deviceName jsonDescriptor tree
        ((processDeviceDescriptorForPathTree codec fuel deviceName jsonDescriptor).run tree).2 ↔
      AliasesSpareDevice codec fuel deviceName jsonDescriptor tree := by
  unfold CarriesDescriptor AliasesSpareDevice
  apply forall_congr'
  intro devNode
  apply forall₃_congr
  intro normalized descriptor hname
  apply forall₃_congr
  intro hlocated hnormalized hparse
  have ⟨name, old, helement, hold⟩ := element_withDevice tree devNode (trimDeviceName deviceName)
  have hdescribed : ((tree.withDevice devNode (trimDeviceName deviceName)).withDescriptor devNode
      descriptor).element devNode = .deviceElement name
        (deviceServer tree devNode (trimDeviceName deviceName)) descriptor := by
    rw [PathTree.withDescriptor, PathTree.element_set, if_pos rfl, helement]
    rfl
  rw [snd_run_processDeviceDescriptor tree hname hlocated hnormalized hparse fuel]
  split
  next hknown =>
    have hsame : descriptor = old := hknown.2.trans (hold hknown.1).symm
    rw [helement, hsame]
    exact iff_of_true ⟨name, rfl⟩ fun hnew => absurd ⟨hknown.1, hsame ▸ hknown.2⟩ hnew
  next hnew =>
    rw [element_processParts_device_iff hdescribed fuel]
    exact (imp_iff_right hnew).symm

end Survival

/-! ## An alias at the device itself -/

/-- A descriptor whose only alias is at the node of the device. -/
def selfAliasText : Str := "\x7b\"automaticAliases\":\x7b\".\":\"/x\"\x7d\x7d".toList

def selfAliasDescriptor : Json :=
  .obj [("automaticAliases".toList, .obj [(".".toList, .str "/x".toList)])]

/-- A reader that knows one descriptor. -/
def selfAliasCodec : JsonCodec where
  parse text := if text = selfAliasText then some selfAliasDescriptor else none
  write _ := []
  toStyledString _ := []
  realText _ := []

theorem isName_dev : IsName "dev".toList := by decide

/-- The alias takes the place of the device element. -/
theorem not_carriesDescriptor_selfAlias :
    ¬ ∀ (codec : JsonCodec) (fuel : ℕ) (deviceName jsonDescriptor : Str) (tree : PathTree),
      let outcome :=
        (processDeviceDescriptorForPathTree codec fuel deviceName jsonDescriptor).run tree
      outcome.1 ≠ .error .outOfFuel →
        CarriesDescriptor codec deviceName jsonDescriptor tree outcome.2 := by
  intro hall
  let outcome :=
    (processDeviceDescriptorForPathTree selfAliasCodec 1 "dev".toList selfAliasText).run .empty
  have hends : outcome.1 ≠ .error .outOfFuel := by decide +kernel
  have hafter : PathTree.element outcome.2 [⟨"dev".toList, isName_dev⟩] =
      .aliasElement "/x".toList ALIASPRIORITY_AUTOMATIC := by decide +kernel
  have ⟨devName, hcarries⟩ := hall selfAliasCodec 1 "dev".toList selfAliasText .empty hends
    [⟨"dev".toList, isName_dev⟩] selfAliasText selfAliasDescriptor (by decide) rfl rfl rfl
  cases hafter.symm.trans hcarries

end OSVR.Common
