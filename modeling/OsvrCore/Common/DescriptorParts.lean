/-
# The parts of a device descriptor

The processing of a descriptor reads the names of its interfaces and its semantic
and automatic sections, and nothing of the device element but that it is no null
element and no alias. Two device elements with the same parts are therefore
processed alike, as long as the descriptor stays readable.
-/

import OsvrCore.Common.DescriptorChanges
import OsvrCore.Math.HiddenValue

set_option autoImplicit false

namespace OSVR.Common

open Math

/-- What is read of a descriptor. -/
structure DescriptorParts where
  interfaces : List Str
  semantic : Json
  automatic : Json
  deriving DecidableEq

namespace DescriptorParts

def empty : DescriptorParts := ⟨[], .null, .null⟩

end DescriptorParts

namespace Json

/-- The parts of a descriptor; where the accessors throw nothing is read. -/
def parts : Json → DescriptorParts
  | .obj members =>
      { interfaces := (JsonMembers.objectAt members INTERFACES_KEY).map Prod.fst
        semantic := (members.lookup SEMANTIC_KEY).getD .null
        automatic := (members.lookup AUTOMATIC_KEY).getD .null }
  | .null | .bool _ | .int _ | .real _ | .str _ | .arr _ => .empty

end Json

section Definitions

variable (codec : JsonCodec) (readable : PathTree → Bool) (fuel : ℕ) (devNode : NodePath)

/-- The semantic part. -/
def processSemantic (semantic : Json) : TreeProgram Bool :=
  if semantic.isObject then SemanticRecursion.recurse codec devNode SEMANTIC_KEY semantic
  else return false

/-- The three parts one after the other. -/
def processParts (parts : DescriptorParts) : TreeProgram Bool := do
  let interfaces ← processInterfaces devNode parts.interfaces
  let semantic ← processSemantic codec devNode parts.semantic
  let automatic ← automaticOptions.process codec readable fuel devNode parts.automatic
  return interfaces || semantic || automatic

theorem processInterfacesFromDescriptor_obj (members : JsonMembers) :
    processInterfacesFromDescriptor devNode (.obj members) =
      processInterfaces devNode (Json.obj members).parts.interfaces := by
  have hmember : (Json.obj members).member? INTERFACES_KEY =
      .ok (members.lookup INTERFACES_KEY) := rfl
  rw [processInterfacesFromDescriptor, hmember]
  simp only [Json.parts, JsonMembers.objectAt]
  cases members.lookup INTERFACES_KEY with
  | none => rfl
  | some value => cases value <;> rfl

theorem process_obj (members : JsonMembers) :
    processDeviceDescriptorFromExistingDevice codec readable fuel devNode (.obj members) =
      processParts codec readable fuel devNode (Json.obj members).parts := by
  unfold processDeviceDescriptorFromExistingDevice processParts
  rw [processInterfacesFromDescriptor_obj]
  rfl

/-- A descriptor is processed as its parts are. -/
theorem run_process_parts (desc : Json) (tree : PathTree) :
    ((processDeviceDescriptorFromExistingDevice codec readable fuel devNode desc).run tree).2 =
        ((processParts codec readable fuel devNode desc.parts).run tree).2 ∧
      (((processDeviceDescriptorFromExistingDevice codec readable fuel devNode desc).run tree).1 =
        .error .undefined →
        ((processParts codec readable fuel devNode desc.parts).run tree).1 =
          .error .undefined) := by
  cases desc with
  | obj members =>
      rw [process_obj]
      exact ⟨rfl, id⟩
  | null =>
      constructor
      · rfl
      · intro hundefined
        cases hundefined
  | _ =>
      constructor
      · rfl
      · intro hundefined
        cases hundefined

end Definitions

/-! ## Device elements that are treated alike -/

/-- The same trees, or trees with different device elements at one node. -/
abbrev DeviceDiffers (devNode : NodePath) : PathTree → PathTree → Prop :=
  NamedTree.DifferAt devNode fun element => element.isDevice = true

section Alike

variable {devNode : NodePath} {left right : PathTree}

/-- Elements are the same or both devices. -/
theorem DeviceDiffers.element (h : DeviceDiffers devNode left right) (node : NodePath) :
    left.element node = right.element node ∨
      ((left.element node).isDevice = true ∧ (right.element node).isDevice = true) := by
  unfold PathTree.element
  by_cases hnode : node = devNode
  · rw [hnode]
    rcases h.value?_path with heq | ⟨old, value, hold, hvalue, hdevice, hdevice'⟩
    · exact .inl (by rw [heq])
    · rw [hold, hvalue]
      exact .inr ⟨hdevice, hdevice'⟩
  · exact .inl (by rw [h.value?_eq hnode])

theorem isNull_eq (h : DeviceDiffers devNode left right) (node : NodePath) :
    (left.element node).isNull = (right.element node).isNull := by
  have hdevice {element : PathElement} (h : element.isDevice = true) : element.isNull = false := by
    cases element <;> first | rfl | cases h
  rcases h.element node with heq | ⟨hleft, hright⟩
  · rw [heq]
  · rw [hdevice hleft, hdevice hright]

theorem aliasNeedsUpdate_eq (h : DeviceDiffers devNode left right) (node : NodePath) (source : Str)
    (priority : AliasPriority) :
    aliasNeedsUpdate (left.element node) source priority =
      aliasNeedsUpdate (right.element node) source priority := by
  have hdevice {element : PathElement} (h : element.isDevice = true) :
      aliasNeedsUpdate element source priority = true := by
    cases element <;> first | rfl | cases h
  rcases h.element node with heq | ⟨hleft, hright⟩
  · rw [heq]
  · rw [hdevice hleft, hdevice hright]

end Alike

section Respects

variable (codec : JsonCodec) (devNode : NodePath)

theorem respects_treePathRetrieve (node : NodePath) (path : Str) (permitParent : Bool) :
    Program.Respects (DeviceDiffers devNode) (treePathRetrieve node path permitParent) := by
  have hcomponent (policy : RetrievePolicy) (text : Str) (from_ : NodePath)
      (component : Component) : Program.Respects (DeviceDiffers devNode)
        (retrieveComponent TreeProgram.getOrCreateChildByName policy text from_ component) := by
    unfold retrieveComponent
    split
    · exact .of_throw _
    · split
      · exact .of_pure _
      · split
        · split
          · exact .of_throw _
          · split
            · exact .of_throw _
            · exact .of_pure _
        · apply Program.Respects.bind
          · apply Program.Respects.of_modify
            intro left right hrel
            exact hrel.touch _
          · intro _
            exact .of_pure _
  have hcomponents (policy : RetrievePolicy) (text : Str) (list : List Component)
      (from_ : NodePath) : Program.Respects (DeviceDiffers devNode)
        (retrieveComponents TreeProgram.getOrCreateChildByName policy text from_ list) := by
    induction list generalizing from_ with
    | nil => exact .of_pure _
    | cons component rest ih => exact (hcomponent policy text from_ component).bind ih
  unfold treePathRetrieve treePathRetrieveImplementation
  split
  · exact .of_pure _
  · split
    · split
      · exact .of_throw _
      · split
        · exact .of_pure _
        · exact hcomponents _ _ _ _
    · exact hcomponents _ _ _ _

theorem respects_ofJson {α : Type} (result : Except JsonError α) :
    Program.Respects (DeviceDiffers devNode) (TreeProgram.ofJson result) := .of_ofExcept _

/-- Nodes get values alike. -/
theorem respects_setValue (node : NodePath) (value : PathElement) :
    Program.Respects (DeviceDiffers devNode) (TreeProgram.setValue node value) := by
  apply Program.Respects.of_modify
  intro left right hrel
  exact hrel.set node value

theorem respects_addAliasImpl (node : NodePath) (source : Str) (priority : AliasPriority) :
    Program.Respects (DeviceDiffers devNode) (addAliasImpl node source priority) := by
  have hset := (respects_setValue devNode node (.aliasElement source priority)).bind
    fun _ => .of_pure true
  apply Program.Respects.of_run_ite (run_addAliasImpl · node source priority) _
    hset (.of_pure false)
  intro left right hrel
  exact aliasNeedsUpdate_eq hrel node source priority

theorem respects_addAliasFromSourceAndRelativeDest (node : NodePath) (source dest : Str)
    (priority : AliasPriority) : Program.Respects (DeviceDiffers devNode)
      (addAliasFromSourceAndRelativeDest codec node source dest priority) := by
  apply (respects_treePathRetrieve devNode node dest false).bind
  intro aliasNode
  apply (respects_ofJson devNode _).bind
  intro newSource
  split
  · exact .of_pure _
  · apply Program.Respects.bind _ fun _ => respects_addAliasImpl devNode _ _ _
    unfold getAbsolutePath
    split
    · exact .of_pure _
    · apply (respects_treePathRetrieve devNode node _ false).bind
      intro _
      exact .of_pure _

theorem respects_addInterface (iface : Str) :
    Program.Respects (DeviceDiffers devNode) (addInterface devNode iface) := by
  apply (respects_treePathRetrieve devNode devNode iface false).bind
  intro ifaceNode
  have hset := (respects_setValue devNode ifaceNode .interfaceElement).bind fun _ => .of_pure true
  have hnull ⦃left right : PathTree⦄ (hrel : DeviceDiffers devNode left right) :
      (left.element ifaceNode).isNull = (right.element ifaceNode).isNull := isNull_eq hrel ifaceNode
  apply Program.Respects.of_run_ite _ hnull hset (.of_pure false)
  intro tree
  rw [Program.run_bind_of_ok (TreeProgram.run_valueAt tree ifaceNode)]
  split <;> rfl

theorem respects_processInterfaces (ifaces : List Str) :
    Program.Respects (DeviceDiffers devNode) (processInterfaces devNode ifaces) := by
  rw [processInterfaces_eq]
  apply Program.Respects.inOrder
  intro program hprogram
  have ⟨iface, _, heq⟩ := List.mem_map.mp hprogram
  rw [← heq]
  exact respects_addInterface devNode iface

theorem respects_processSemantic (semantic : Json) :
    Program.Respects (DeviceDiffers devNode) (processSemantic codec devNode semantic) := by
  unfold processSemantic
  split
  · rw [SemanticRecursion.recurse_eq]
    apply Program.Respects.inOrder
    intro program hprogram
    have ⟨entry, _, heq⟩ := List.mem_map.mp hprogram
    rw [← heq]
    exact respects_addAliasFromSourceAndRelativeDest codec devNode devNode _ _ _
  · exact .of_pure _

theorem respects_visitWildcard {functor : NodePath → Str → TreeProgram Bool}
    (hfunctor : ∀ node relPath, Program.Respects (DeviceDiffers devNode) (functor node relPath))
    (startingNode node : NodePath) :
    Program.Respects (DeviceDiffers devNode) (visitWildcard functor startingNode node) := by
  have hnull ⦃left right : PathTree⦄ (hrel : DeviceDiffers devNode left right) :
      (left.element node).isNull = (right.element node).isNull := isNull_eq hrel node
  apply Program.Respects.of_run_ite _ hnull (.of_pure false)
    (hfunctor node (relativePath startingNode node))
  intro tree
  rw [visitWildcard, Program.run_bind_of_ok (TreeProgram.run_valueAt tree node)]
  split <;> rfl

theorem respects_processEntry (opts : AliasProcessorOptions) (fuel : ℕ) (path : Str) (source : Json)
    (priority : AliasPriority) : Program.Respects (DeviceDiffers devNode)
      (AutomaticAliases.processEntry codec opts devNode fuel path source priority) := by
  rw [AutomaticAliases.processEntry_eq]
  split
  · exact .of_pure _
  · apply (respects_ofJson devNode _).bind
    intro parsedSource
    unfold AutomaticAliases.processSource
    split
    · exact .of_pure _
    · split
      · exact respects_addAliasFromSourceAndRelativeDest codec devNode devNode _ _ _
      · apply (respects_treePathRetrieve devNode devNode _ false).bind
        intro start
        apply (NamedTree.respects_traverse _ fuel).1 start
        intro node
        apply respects_visitWildcard
        intro _ _
        exact respects_addAliasFromSourceAndRelativeDest codec devNode devNode _ _ _

theorem respects_processMembers (opts : AliasProcessorOptions) (fuel : ℕ) (obj : Json)
    (priority : AliasPriority) (keys : List Str) : Program.Respects (DeviceDiffers devNode)
      (AutomaticAliases.processMembers codec opts (fun _ => true) devNode fuel obj
        priority keys) := by
  induction keys with
  | nil => exact .of_pure _
  | cons key keys ih =>
      rw [AutomaticAliases.processMembers]
      split
      · exact ih
      · apply Program.Respects.bind (.of_pure ())
        intro _
        apply (respects_ofJson devNode _).bind
        intro source
        apply (respects_processEntry codec devNode opts fuel key source priority).bind
        intro changed
        apply ih.bind
        intro others
        exact .of_pure _

theorem respects_processElement (opts : AliasProcessorOptions) (fuel : ℕ) (elt : Json) :
    Program.Respects (DeviceDiffers devNode)
      (AutomaticAliases.processElement codec opts (fun _ => true) devNode fuel elt) := by
  unfold AutomaticAliases.processElement
  split
  · apply (respects_ofJson devNode _).bind
    intro priority
    apply (respects_ofJson devNode _).bind
    intro keys
    exact respects_processMembers codec devNode opts fuel elt priority keys
  · exact .of_pure _

theorem respects_processArray (opts : AliasProcessorOptions) (fuel : ℕ) (items : List Json) :
    Program.Respects (DeviceDiffers devNode)
      (AutomaticAliases.processArray codec opts (fun _ => true) devNode fuel items) := by
  induction items with
  | nil =>
      apply Program.Respects.bind (.of_pure ())
      intro _
      exact .of_pure _
  | cons elt rest ih =>
      apply Program.Respects.bind (.of_pure ())
      intro _
      apply (respects_processElement codec devNode opts fuel elt).bind
      intro changed
      apply ih.bind
      intro others
      exact .of_pure _

theorem respects_process (opts : AliasProcessorOptions) (fuel : ℕ) (val : Json) :
    Program.Respects (DeviceDiffers devNode)
      (opts.process codec (fun _ => true) fuel devNode val) := by
  cases val with
  | arr items => exact respects_processArray codec devNode opts fuel items
  | obj members => exact respects_processElement codec devNode opts fuel (.obj members)
  | null | bool _ | int _ | real _ | str _ => exact .of_pure _

/-- A copy of a descriptor is processed alike for every device element. -/
theorem respects_processParts (fuel : ℕ) (parts : DescriptorParts) :
    Program.Respects (DeviceDiffers devNode)
      (processParts codec (fun _ => true) fuel devNode parts) := by
  apply (respects_processInterfaces devNode parts.interfaces).bind
  intro interfaces
  apply (respects_processSemantic codec devNode parts.semantic).bind
  intro semantic
  apply (respects_process codec devNode automaticOptions fuel parts.automatic).bind
  intro automatic
  exact .of_pure _

end Respects

/-! ## Descriptors that stay readable -/

section Readable

open AutomaticAliases

variable {codec : JsonCodec} {opts : AliasProcessorOptions} {readable : PathTree → Bool}
  {devNode : NodePath} {condition : PathTree → Str → Json → Prop} {tree : PathTree} {fuel : ℕ}

theorem run_checkReadable_bind (h : readable tree = true) (next : Unit → TreeProgram Bool) :
    (checkReadable readable >>= next).run tree = (next ()).run tree := by
  have hrun : (checkReadable readable).run tree = (.ok (), tree) := by
    rw [checkReadable, Program.run_bind_of_ok (Program.run_get tree), if_pos h]
    rfl
  rw [Program.run_bind_of_ok hrun]

/-- Programs that run alike from one state, followed by programs that do. -/
theorem run_bind_congr {α β : Type} {first first' : TreeProgram α} {next next' : α → TreeProgram β}
    (hfirst : first.run tree = first'.run tree)
    (hnext : ∀ value after, first.run tree = (.ok value, after) →
      (next value).run after = (next' value).run after) :
    (first >>= next).run tree = (first' >>= next').run tree := by
  rcases hrun : first.run tree with ⟨reason | value, after⟩
  · rw [Program.run_bind_of_error hrun, Program.run_bind_of_error (hfirst.symm.trans hrun)]
  · rw [Program.run_bind_of_ok hrun, Program.run_bind_of_ok (hfirst.symm.trans hrun)]
    exact hnext value after hrun

theorem run_processMembers_of_readable {obj : Json} {priority : AliasPriority} {keys : List Str}
    (h : MembersMeet codec opts readable devNode (fun _ => False) condition obj
      priority keys tree) :
    (processMembers codec opts readable devNode fuel obj priority keys).run tree =
      (processMembers codec opts (fun _ => true) devNode fuel obj priority keys).run tree := by
  induction keys generalizing tree with
  | nil => rfl
  | cons key keys ih =>
      rw [MembersMeet] at h
      rw [processMembers, processMembers]
      split at h
      next hkey =>
        rw [if_pos hkey, if_pos hkey]
        exact ih h
      next hkey =>
        have hreadable : readable tree = true := by
          by_contra hgone
          exact h.1 (by simpa using hgone)
        rw [if_neg hkey, if_neg hkey, run_checkReadable_bind hreadable, run_checkReadable_bind rfl]
        apply run_bind_congr rfl
        intro source middle hsource
        cases hindex : obj.index key with
        | error error =>
            rw [hindex] at hsource
            cases hsource
        | ok value =>
            rw [hindex] at hsource
            cases hsource
            apply run_bind_congr rfl
            intro changed after hrun
            apply run_bind_congr (ih ((h.2 source hindex).2 fuel changed after hrun))
            intro _ _ _
            rfl

theorem run_processObject_of_readable {obj : Json}
    (h : ObjectMeets codec opts readable devNode (fun _ => False) condition obj tree) :
    (processObject codec opts readable devNode fuel obj).run tree =
      (processObject codec opts (fun _ => true) devNode fuel obj).run tree := by
  apply run_bind_congr rfl
  intro priority middle hpriority
  cases hresult : objectPriority opts obj with
  | error error =>
      rw [hresult] at hpriority
      cases hpriority
  | ok value =>
      rw [hresult] at hpriority
      cases hpriority
      apply run_bind_congr rfl
      intro keys after hkeys
      cases hnames : obj.getMemberNames with
      | error error =>
          rw [hnames] at hkeys
          cases hkeys
      | ok names =>
          rw [hnames] at hkeys
          cases hkeys
          exact run_processMembers_of_readable (h.2 _ _ hresult hnames)

theorem run_processArray_of_readable {items : List Json}
    (h : ArrayMeets codec opts readable devNode (fun _ => False) condition items tree) :
    (processArray codec opts readable devNode fuel items).run tree =
      (processArray codec opts (fun _ => true) devNode fuel items).run tree := by
  induction items generalizing tree with
  | nil =>
      have hreadable : readable tree = true := by
        by_contra hgone
        exact h (by simpa using hgone)
      rw [processArray, processArray, run_checkReadable_bind hreadable, run_checkReadable_bind rfl]
  | cons elt rest ih =>
      have hreadable : readable tree = true := by
        by_contra hgone
        exact h.1 (by simpa using hgone)
      rw [processArray, processArray, run_checkReadable_bind hreadable, run_checkReadable_bind rfl]
      apply run_bind_congr
      · unfold processElement
        split
        next hobject => exact run_processObject_of_readable (h.2.1 hobject)
        next => rfl
      · intro changed after hrun
        apply run_bind_congr (ih (h.2.2 fuel changed after hrun))
        intro _ _ _
        rfl

/-- A description that stays readable is processed like a copy of it. -/
theorem run_process_of_readable {val : Json}
    (h : EntriesMeet codec opts readable devNode (fun _ => False) condition val tree) :
    (opts.process codec readable fuel devNode val).run tree =
      (opts.process codec (fun _ => true) fuel devNode val).run tree := by
  cases val with
  | arr items => exact run_processArray_of_readable h
  | obj members => exact run_processObject_of_readable h
  | null | bool _ | int _ | real _ | str _ => rfl

/-- No automatic alias takes the place of the device element while there is still something
to be read of the descriptor. -/
def KeepsDevice (codec : JsonCodec) (devNode : NodePath) (parts : DescriptorParts)
    (tree : PathTree) : Prop :=
  ∀ interfaces first semantic second,
    (processInterfaces devNode parts.interfaces).run tree = (.ok interfaces, first) →
    (processSemantic codec devNode parts.semantic).run first = (.ok semantic, second) →
    EntriesMeet codec automaticOptions (hasDevice devNode) devNode (fun _ => False)
      (fun _ _ _ => True) parts.automatic second

theorem run_processParts_of_keepsDevice (fuel : ℕ) {parts : DescriptorParts}
    (h : KeepsDevice codec devNode parts tree) :
    (processParts codec (hasDevice devNode) fuel devNode parts).run tree =
      (processParts codec (fun _ => true) fuel devNode parts).run tree := by
  apply run_bind_congr rfl
  intro interfaces first hinterfaces
  apply run_bind_congr rfl
  intro semantic second hsemantic
  apply run_bind_congr (run_process_of_readable
    (h interfaces first semantic second hinterfaces hsemantic))
  intro _ _ _
  rfl

end Readable

/-! ## Where interface elements come from -/

/-- The nodes that the loop over the interface names gets to. -/
def interfaceNodes (devNode : NodePath) : List Str → List NodePath
  | [] => []
  | iface :: rest =>
      match locate devNode iface with
      | ⟨node, none⟩ => node :: interfaceNodes devNode rest
      | ⟨_, some _⟩ => []

/-- Null elements of these nodes become interface elements, and nothing else changes. -/
theorem element_processInterfaces {devNode : NodePath} {tree : PathTree}
    (hnode : (tree.value? devNode).isSome = true) (ifaces : List Str) (query : NodePath) :
    PathTree.element ((processInterfaces devNode ifaces).run tree).2 query =
      if query ∈ interfaceNodes devNode ifaces ∧ tree.element query = .nullElement then
        .interfaceElement
      else tree.element query := by
  induction ifaces generalizing tree with
  | nil => simp [processInterfaces, interfaceNodes]
  | cons iface rest ih =>
      have hretrieve := run_treePathRetrieve tree devNode hnode iface
      rw [processInterfaces]
      rcases hlocated : locate devNode iface with ⟨reached, _ | error⟩
      · rw [hlocated] at hretrieve
        have hthere : ((tree.touch reached).value? devNode).isSome = true :=
          (NamedTree.Grows.touch tree reached).isSome_value? hnode
        rw [Program.run_bind_of_ok hretrieve,
          Program.run_bind_of_ok (TreeProgram.run_valueAt _ reached), PathTree.element_touch]
        simp only [interfaceNodes, hlocated, List.mem_cons]
        cases hnull : (tree.element reached).isNull with
        | true =>
            have hset : (TreeProgram.setValue reached .interfaceElement).run (tree.touch reached) =
                (.ok (), (tree.touch reached).set reached .interfaceElement) := rfl
            rw [if_pos rfl, Program.run_bind_of_ok hset]
            have hlater := ih ((NamedTree.Grows.set (tree.touch reached) reached
              .interfaceElement).isSome_value? hthere)
            rw [PathElement.isNull_iff] at hnull
            rcases hrest : (processInterfaces devNode rest).run
              ((tree.touch reached).set reached .interfaceElement) with ⟨reason | changed, after⟩
            all_goals
              rw [hrest, PathTree.element_set, PathTree.element_touch] at hlater
              first
                | rw [Program.run_bind_of_error hrest, hlater]
                | rw [Program.run_bind_of_ok hrest, Program.run_pure, hlater]
              by_cases hquery : query = reached
              · simp [hquery, hnull]
              · simp [hquery]
        | false =>
            have hlater := ih hthere
            have hquery (heq : query = reached) : tree.element query ≠ .nullElement := by
              intro hnone
              rw [← heq, hnone] at hnull
              cases hnull
            rw [if_neg Bool.false_ne_true, hlater, PathTree.element_touch]
            by_cases heq : query = reached
            · simp [hquery heq]
            · simp [heq]
      · rw [hlocated] at hretrieve
        rw [Program.run_bind_of_error hretrieve, PathTree.element_touch]
        simp [interfaceNodes, hlocated]

/-- Every element stays or is replaced by an alias. -/
def OnlyAliases (before after : PathTree) : Prop :=
  ∀ node, after.element node = before.element node ∨
    ∃ source priority, after.element node = .aliasElement source priority

namespace OnlyAliases

theorem refl (tree : PathTree) : OnlyAliases tree tree := fun _ => .inl rfl

theorem trans ⦃first second third : PathTree⦄ (h : OnlyAliases first second)
    (h' : OnlyAliases second third) : OnlyAliases first third := by
  intro node
  rcases h' node with hsame | halias
  · rw [hsame]
    exact h node
  · exact .inr halias

theorem touch (tree : PathTree) (path : NodePath) : OnlyAliases tree (tree.touch path) :=
  fun node => .inl (tree.element_touch path node)

theorem set (tree : PathTree) (path : NodePath) (source : Str) (priority : AliasPriority) :
    OnlyAliases tree (tree.set path (.aliasElement source priority)) := by
  intro node
  rw [PathTree.element_set]
  split
  · exact .inr ⟨source, priority, rfl⟩
  · exact .inl rfl

end OnlyAliases

section Interfaces

variable {codec : JsonCodec} {readable : PathTree → Bool} {fuel : ℕ} {devNode : NodePath}
  {tree : PathTree}

theorem relates_processSemantic (semantic : Json) :
    Program.Relates OnlyAliases (processSemantic codec devNode semantic) := by
  unfold processSemantic
  split
  · rw [SemanticRecursion.recurse_eq]
    apply Program.relates_inOrder OnlyAliases.refl OnlyAliases.trans
    intro program hprogram
    have ⟨entry, _, heq⟩ := List.mem_map.mp hprogram
    rw [← heq]
    exact AutomaticAliases.relates_processSingleEntry codec devNode OnlyAliases.refl
      OnlyAliases.trans OnlyAliases.touch OnlyAliases.set _ _ _
  · exact OnlyAliases.refl

/-- After the interfaces only aliases are added. -/
theorem onlyAliases_processParts (codec : JsonCodec) (readable : PathTree → Bool) (fuel : ℕ)
    (devNode : NodePath) (tree : PathTree) (parts : DescriptorParts) :
    OnlyAliases ((processInterfaces devNode parts.interfaces).run tree).2
      ((processParts codec readable fuel devNode parts).run tree).2 := by
  have hrest (interfaces : Bool) : Program.Relates OnlyAliases (do
      let semantic ← processSemantic codec devNode parts.semantic
      let automatic ← automaticOptions.process codec readable fuel devNode parts.automatic
      return interfaces || semantic || automatic : TreeProgram Bool) := by
    apply Program.Relates.bind OnlyAliases.trans (relates_processSemantic parts.semantic)
    intro semantic
    apply Program.Relates.bind OnlyAliases.trans
      (AutomaticAliases.relates_process codec automaticOptions readable devNode OnlyAliases.refl
        OnlyAliases.trans OnlyAliases.touch OnlyAliases.set fuel parts.automatic)
    intro automatic
    exact OnlyAliases.refl
  unfold processParts
  rcases hrun : (processInterfaces devNode parts.interfaces).run tree with
    ⟨reason | interfaces, after⟩
  · rw [Program.run_bind_of_error hrun]
    exact .refl after
  · rw [Program.run_bind_of_ok hrun]
    exact hrest interfaces after

/-- A null element that the interfaces are the first to fill ends as an interface element
exactly when it is at one of their nodes, unless an alias takes its place. -/
theorem element_processParts (hnode : (tree.value? devNode).isSome = true) (parts : DescriptorParts)
    {query : NodePath} (hnull : tree.element query = .nullElement)
    (halias : ∀ source priority,
      PathTree.element ((processParts codec readable fuel devNode parts).run tree).2 query ≠
        .aliasElement source priority) :
    PathTree.element ((processParts codec readable fuel devNode parts).run tree).2 query =
      if query ∈ interfaceNodes devNode parts.interfaces then .interfaceElement
      else .nullElement := by
  rcases onlyAliases_processParts codec readable fuel devNode tree parts query with hsame |
    ⟨source, priority, heq⟩
  · rw [hsame, element_processInterfaces hnode, hnull]
    simp
  · exact absurd heq (halias source priority)

/-- A descriptor that only has interfaces does nothing else. -/
theorem element_processParts_interfaces (codec : JsonCodec) (readable : PathTree → Bool) (fuel : ℕ)
    (hnode : (tree.value? devNode).isSome = true)
    (ifaces : List Str) (query : NodePath) :
    PathTree.element ((processParts codec readable fuel devNode ⟨ifaces, .null, .null⟩).run tree).2
        query =
      if query ∈ interfaceNodes devNode ifaces ∧ tree.element query = .nullElement then
        .interfaceElement
      else tree.element query := by
  rw [← element_processInterfaces hnode]
  unfold processParts
  rcases hrun : (processInterfaces devNode ifaces).run tree with ⟨reason | changed, after⟩
  · rw [Program.run_bind_of_error hrun]
  · rw [Program.run_bind_of_ok hrun]
    rfl

end Interfaces

end OSVR.Common
