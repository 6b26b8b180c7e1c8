/-
# The entries of an alias description

Every entry is a step of its own: what it does depends on the tree that the
entries before it have left. Properties of a whole description are put together
from properties of its entries.
-/

import OsvrCore.Common.AliasProcessor

set_option autoImplicit false

namespace OSVR.Common

open Math

namespace AutomaticAliases

variable (codec : JsonCodec) (opts : AliasProcessorOptions) (readable : PathTree → Bool)
  (devNode : NodePath)

/-- The source that a wildcard entry gives the alias of a visited node. -/
def copiedSource (parsedSource : ParsedAlias) (node : NodePath) : Str :=
  if parsedSource.simple then getFullPath node
  else (parsedSource.setLeaf (getFullPath node)).getAlias codec

/-- The plan of a wildcard entry for a visited node. -/
def copyPlan (path : Str) (parsedSource : ParsedAlias) (startingNode node : NodePath) : AliasPlan :=
  planAlias codec devNode (copiedSource codec parsedSource node)
    (path ++ '/' :: relativePath startingNode node)

/-- What is done with the source of an entry whose path is permitted. -/
def processSource (fuel : ℕ) (path : Str) (parsedSource : ParsedAlias) (priority : AliasPriority) :
    TreeProgram Bool :=
  if !opts.permitRelativeSource && !isPathAbsolute parsedSource.getLeaf then return false
  else if !doesPathContainWildcard parsedSource.getLeaf then
    processSingleEntry codec devNode path (parsedSource.getAlias codec) priority
  else
    applyWildcard fuel devNode parsedSource.getLeaf fun node relPath =>
      processSingleEntry codec devNode (path ++ '/' :: relPath)
        (copiedSource codec parsedSource node) priority

theorem processEntry_eq (fuel : ℕ) (path : Str) (source : Json) (priority : AliasPriority) :
    processEntry codec opts devNode fuel path source priority =
      if !opts.permitRelativePath && !isPathAbsolute path then return false
      else TreeProgram.ofJson (ParsedAlias.parseValue codec source) >>= fun parsedSource =>
        processSource codec opts devNode fuel path parsedSource priority := by
  unfold processEntry processSource
  split
  · rfl
  · congr 1
    funext parsedSource
    cases hsimple : parsedSource.simple <;> simp [copiedSource, hsimple]

/-- An entry that the options let through. -/
theorem run_processEntry_of_permitted {codec : JsonCodec} {opts : AliasProcessorOptions}
    {devNode : NodePath} {path : Str} {source : Json} {parsedSource : ParsedAlias}
    (hpath : (opts.permitRelativePath || isPathAbsolute path) = true)
    (hparse : ParsedAlias.parseValue codec source = .ok parsedSource)
    (hleaf : (opts.permitRelativeSource || isPathAbsolute parsedSource.getLeaf) = true) (fuel : ℕ)
    (priority : AliasPriority) (tree : PathTree) :
    (processEntry codec opts devNode fuel path source priority).run tree =
      (if !doesPathContainWildcard parsedSource.getLeaf then
        processSingleEntry codec devNode path (parsedSource.getAlias codec) priority
      else
        applyWildcard fuel devNode parsedSource.getLeaf fun node relPath =>
          processSingleEntry codec devNode (path ++ '/' :: relPath)
            (copiedSource codec parsedSource node) priority).run tree := by
  have hpermitted : (!opts.permitRelativePath && !isPathAbsolute path) = false := by
    rw [← Bool.not_or, hpath]
    rfl
  have hpermitted' :
      (!opts.permitRelativeSource && !isPathAbsolute parsedSource.getLeaf) = false := by
    rw [← Bool.not_or, hleaf]
    rfl
  rw [processEntry_eq, hpermitted, hparse]
  simp only [Bool.false_eq_true, ↓reduceIte]
  rw [Program.run_bind_of_ok (TreeProgram.run_ofJson_ok tree parsedSource), processSource,
    hpermitted']
  rfl

section Relates

variable {rel : PathTree → PathTree → Prop} (hrefl : ∀ tree, rel tree tree)
  (htrans : ∀ ⦃first second third⦄, rel first second → rel second third → rel first third)
  (htouch : ∀ (tree : PathTree) path, rel tree (tree.touch path))
  (hset : ∀ (tree : PathTree) node source priority,
    rel tree (tree.set node (.aliasElement source priority)))

include hrefl htrans htouch hset

/-- The processing of aliases does nothing but create nodes and set aliases. -/
theorem relates_processSingleEntry (path source : Str) (priority : AliasPriority) :
    Program.Relates rel (processSingleEntry codec devNode path source priority) := by
  have hretrieve := relates_treePathRetrieve hrefl htrans htouch
  have hadd (node : NodePath) (text : Str) :
      Program.Relates rel (addAliasImpl node text priority) := by
    refine Program.Relates.bind htrans hrefl fun element => ?_
    split
    · exact fun tree => hset tree _ _ _
    · exact hrefl
  refine Program.Relates.bind htrans (hretrieve _ _ _) fun aliasNode =>
    Program.Relates.bind htrans (Program.relates_ofExcept hrefl _) fun newSource => ?_
  split
  · exact hrefl
  · refine Program.Relates.bind htrans ?_ fun _ => hadd _ _
    unfold getAbsolutePath
    split
    · exact hrefl
    · exact Program.Relates.bind htrans (hretrieve _ _ _) fun _ => hrefl

omit htouch hset in
theorem relates_visitWildcard {functor : NodePath → Str → TreeProgram Bool}
    (hfunctor : ∀ node relPath, Program.Relates rel (functor node relPath))
    (start node : NodePath) :
    Program.Relates rel (visitWildcard functor start node) := by
  refine Program.Relates.bind htrans hrefl fun element => ?_
  split
  · exact hrefl
  · exact hfunctor _ _

theorem relates_processEntry (fuel : ℕ) (path : Str) (source : Json) (priority : AliasPriority) :
    Program.Relates rel (processEntry codec opts devNode fuel path source priority) := by
  rw [processEntry_eq]
  split
  · exact hrefl
  · refine Program.Relates.bind htrans (Program.relates_ofExcept hrefl _) fun parsedSource => ?_
    unfold processSource
    split
    · exact hrefl
    · split
      · exact relates_processSingleEntry codec devNode hrefl htrans htouch hset _ _ _
      · exact Program.Relates.bind htrans (relates_treePathRetrieve hrefl htrans htouch _ _ _)
          fun start =>
            have hsingle := fun _ _ =>
              relates_processSingleEntry codec devNode hrefl htrans htouch hset _ _ _
            (NamedTree.relates_traverse hrefl htrans
              (relates_visitWildcard hrefl htrans hsingle start) fuel).1 start

theorem relates_processMembers (fuel : ℕ) (obj : Json) (priority : AliasPriority)
    (keys : List Str) :
    Program.Relates rel (processMembers codec opts readable devNode fuel obj priority keys) := by
  induction keys with
  | nil => exact hrefl
  | cons key keys ih =>
      rw [processMembers]
      split
      · exact ih
      · refine Program.Relates.bind htrans (Program.Relates.bind htrans hrefl ?_)
          fun _ => Program.Relates.bind htrans (Program.relates_ofExcept hrefl _)
            fun source => Program.Relates.bind htrans
              (relates_processEntry codec opts devNode hrefl htrans htouch hset fuel
                key source priority)
              fun _ => Program.Relates.bind htrans ih fun _ => hrefl
        intro tree
        split <;> exact hrefl

theorem relates_processElement (fuel : ℕ) (elt : Json) :
    Program.Relates rel (processElement codec opts readable devNode fuel elt) := by
  unfold processElement
  split
  · exact Program.Relates.bind htrans (Program.relates_ofExcept hrefl _) fun priority =>
      Program.Relates.bind htrans (Program.relates_ofExcept hrefl _) fun keys =>
        relates_processMembers codec opts readable devNode hrefl htrans htouch hset
          fuel elt priority keys
  · exact hrefl

theorem relates_processArray (fuel : ℕ) (items : List Json) :
    Program.Relates rel (processArray codec opts readable devNode fuel items) := by
  have hcheck : Program.Relates rel (checkReadable readable) := by
    have hread : Program.Relates rel (Program.get : TreeProgram PathTree) := hrefl
    apply Program.Relates.bind htrans hread
    intro tree
    split <;> exact hrefl
  induction items with
  | nil => exact Program.Relates.bind htrans hcheck fun _ => hrefl
  | cons elt rest ih =>
      apply Program.Relates.bind htrans hcheck
      intro _
      apply Program.Relates.bind htrans
        (relates_processElement codec opts readable devNode hrefl htrans htouch hset fuel elt)
      intro _
      exact Program.Relates.bind htrans ih fun _ => hrefl

theorem relates_process (fuel : ℕ) (val : Json) :
    Program.Relates rel (opts.process codec readable fuel devNode val) := by
  cases val with
  | arr items =>
      exact relates_processArray codec opts readable devNode hrefl htrans htouch hset fuel items
  | obj members =>
      exact relates_processElement codec opts readable devNode hrefl htrans htouch hset fuel
        (.obj members)
  | null | bool _ | int _ | real _ | str _ => exact hrefl

end Relates

section Grows

/-- Visits that each process one alias. -/
theorem grows_visitEntries (dest source : NodePath → Str → Str) (priority : AliasPriority)
    (start node : NodePath) :
    Program.Relates NamedTree.Grows (visitWildcard (fun node relPath => processSingleEntry codec
      devNode (dest node relPath) (source node relPath) priority) start node) :=
  relates_visitWildcard NamedTree.Grows.refl NamedTree.Grows.trans
    (fun _ _ => relates_processSingleEntry codec devNode NamedTree.Grows.refl NamedTree.Grows.trans
      NamedTree.Grows.touch (fun tree _ _ _ => .set tree _ _) _ _ priority) start node

theorem grows_processEntry (fuel : ℕ) (path : Str) (source : Json) (priority : AliasPriority) :
    Program.Relates NamedTree.Grows (processEntry codec opts devNode fuel path source priority) :=
  relates_processEntry codec opts devNode NamedTree.Grows.refl NamedTree.Grows.trans
    NamedTree.Grows.touch (fun tree _ _ _ => .set tree _ _) fuel path source priority

theorem grows_processElement (fuel : ℕ) (elt : Json) :
    Program.Relates NamedTree.Grows (processElement codec opts readable devNode fuel elt) :=
  relates_processElement codec opts readable devNode NamedTree.Grows.refl NamedTree.Grows.trans
    NamedTree.Grows.touch (fun tree _ _ _ => .set tree _ _) fuel elt

omit devNode in
/-- Nodes stay during a program that only lets the tree grow. -/
theorem isSome_value?_of_run {α : Type} {program : TreeProgram α} {tree after : PathTree}
    {result : Except (Abort TreeError) α} (h : Program.Relates NamedTree.Grows program)
    (hrun : program.run tree = (result, after)) {node : NodePath}
    (hnode : (tree.value? node).isSome = true) : (after.value? node).isSome = true := by
  have hgrows := h tree
  rw [hrun] at hgrows
  exact hgrows.isSome_value? hnode

end Grows

section Wildcard

variable {devNode} {path : Str} {tree : PathTree}

/-- A wildcard whose stem is found is the traversal from there. -/
theorem run_applyWildcard_of_located (hnode : (tree.value? devNode).isSome = true)
    {start : NodePath} (hlocated : locate devNode (wildcardStem path) = ⟨start, none⟩) (fuel : ℕ)
    (functor : NodePath → Str → TreeProgram Bool) :
    (applyWildcard fuel devNode path functor).run tree =
      (NamedTree.traverse (visitWildcard functor start) fuel start).run (tree.touch start) := by
  have hstem := run_treePathRetrieve tree devNode hnode (wildcardStem path)
  rw [hlocated] at hstem
  rw [applyWildcard, Program.run_bind_of_ok hstem]

/-- A stem that is not found ends the processing. -/
theorem run_applyWildcard_of_failure (hnode : (tree.value? devNode).isSome = true)
    {reached : NodePath} {error : TreeError}
    (hlocated : locate devNode (wildcardStem path) = ⟨reached, some error⟩) (fuel : ℕ)
    (functor : NodePath → Str → TreeProgram Bool) :
    (applyWildcard fuel devNode path functor).run tree =
      (.error (.thrown error), tree.touch reached) := by
  have hstem := run_treePathRetrieve tree devNode hnode (wildcardStem path)
  rw [hlocated] at hstem
  rw [applyWildcard, Program.run_bind_of_error hstem]

end Wildcard

theorem fuelMonotone_applyWildcard (node : NodePath) (path : Str)
    (functor : NodePath → Str → TreeProgram Bool) :
    Program.FuelMonotone fun fuel => applyWildcard fuel node path functor :=
  (Program.FuelMonotone.const _).bind fun start => NamedTree.fuelMonotone_traverse _ start

theorem fuelMonotone_processSource (path : Str) (parsedSource : ParsedAlias)
    (priority : AliasPriority) : Program.FuelMonotone fun fuel =>
      processSource codec opts devNode fuel path parsedSource priority := by
  unfold processSource
  split
  · exact .const _
  · split
    · exact .const _
    · exact fuelMonotone_applyWildcard _ _ _

theorem fuelMonotone_processEntry (path : Str) (source : Json) (priority : AliasPriority) :
    Program.FuelMonotone fun fuel =>
      processEntry codec opts devNode fuel path source priority := by
  simp only [processEntry_eq]
  split
  · exact .const _
  · exact (Program.FuelMonotone.const _).bind fun parsedSource =>
      fuelMonotone_processSource codec opts devNode path parsedSource priority

theorem fuelMonotone_processMembers (obj : Json) (priority : AliasPriority) (keys : List Str) :
    Program.FuelMonotone fun fuel =>
      processMembers codec opts readable devNode fuel obj priority keys := by
  induction keys with
  | nil => exact .const _
  | cons key keys ih =>
      simp only [processMembers]
      split
      · exact ih
      · exact (Program.FuelMonotone.const _).bind fun _ => (Program.FuelMonotone.const _).bind
          fun source => (fuelMonotone_processEntry codec opts devNode key source priority).bind
            fun _ => ih.bind fun _ => .const _

theorem fuelMonotone_processObject (obj : Json) :
    Program.FuelMonotone fun fuel => processObject codec opts readable devNode fuel obj :=
  (Program.FuelMonotone.const _).bind fun priority => (Program.FuelMonotone.const _).bind
    fun keys => fuelMonotone_processMembers codec opts readable devNode obj priority keys

theorem fuelMonotone_processElement (elt : Json) :
    Program.FuelMonotone fun fuel => processElement codec opts readable devNode fuel elt := by
  unfold processElement
  split
  · exact fuelMonotone_processObject codec opts readable devNode elt
  · exact .const _

theorem fuelMonotone_processArray (items : List Json) :
    Program.FuelMonotone fun fuel => processArray codec opts readable devNode fuel items := by
  induction items with
  | nil => exact .const _
  | cons elt rest ih =>
      simp only [processArray]
      exact (Program.FuelMonotone.const _).bind fun _ =>
        (fuelMonotone_processElement codec opts readable devNode elt).bind fun _ =>
          ih.bind fun _ => .const _

theorem fuelMonotone_process (val : Json) :
    Program.FuelMonotone fun fuel => opts.process codec readable fuel devNode val := by
  cases val with
  | arr items => exact fuelMonotone_processArray codec opts readable devNode items
  | obj members => exact fuelMonotone_processObject codec opts readable devNode (.obj members)
  | null | bool _ | int _ | real _ | str _ => exact .const _

/-! ## The entries one after the other -/

section Meets

variable (spared : PathTree → Prop) (condition : PathTree → Str → Json → Prop)

/-- The condition holds of every entry of an object, each in the tree that the
entries before it have left; and the tree is spared where an entry cannot be read. -/
def MembersMeet (obj : Json) (priority : AliasPriority) : List Str → PathTree → Prop
  | [], _ => True
  | key :: keys, tree =>
      if PRIORITY_KEY = key then MembersMeet obj priority keys tree
      else
        (readable tree = false → spared tree) ∧
          ∀ source, obj.index key = .ok source →
            condition tree key source ∧
              ∀ fuel changed after,
                (processEntry codec opts devNode fuel key source priority).run tree =
                  (.ok changed, after) →
                MembersMeet obj priority keys after

/-- The same for an object, whose priority may be no number. -/
def ObjectMeets (obj : Json) (tree : PathTree) : Prop :=
  (∀ error, objectPriority opts obj = .error error → spared tree) ∧
    ∀ priority keys, objectPriority opts obj = .ok priority → obj.getMemberNames = .ok keys →
      MembersMeet codec opts readable devNode spared condition obj priority keys tree

/-- The same for the objects of an array. -/
def ArrayMeets : List Json → PathTree → Prop
  | [], tree => readable tree = false → spared tree
  | elt :: rest, tree =>
      (readable tree = false → spared tree) ∧
        (elt.isObject = true → ObjectMeets codec opts readable devNode spared condition elt tree) ∧
          ∀ fuel changed after,
            (processElement codec opts readable devNode fuel elt).run tree = (.ok changed, after) →
            ArrayMeets rest after

/-- The condition holds of every entry of an alias description. -/
def EntriesMeet (val : Json) (tree : PathTree) : Prop :=
  match val with
  | .arr items => ArrayMeets codec opts readable devNode spared condition items tree
  | .obj members => ObjectMeets codec opts readable devNode spared condition (.obj members) tree
  | .null | .bool _ | .int _ | .real _ | .str _ => True

end Meets

/-- Conditions that hold in every tree. -/
theorem MembersMeet.of_forall {codec : JsonCodec} {opts : AliasProcessorOptions}
    {readable : PathTree → Bool} {devNode : NodePath} {spared : PathTree → Prop}
    {condition : PathTree → Str → Json → Prop} (hreadable : ∀ tree, readable tree = true)
    {obj : Json}
    {priority : AliasPriority} {keys : List Str}
    (h : ∀ key ∈ keys, PRIORITY_KEY ≠ key → ∀ source, obj.index key = .ok source →
      ∀ tree, condition tree key source) (tree : PathTree) :
    MembersMeet codec opts readable devNode spared condition obj priority keys tree := by
  induction keys generalizing tree with
  | nil => trivial
  | cons key keys ih =>
      rw [List.forall_mem_cons] at h
      rw [MembersMeet]
      split
      · exact ih h.2 tree
      next hkey =>
        refine ⟨fun hgone => ?_, fun source hsource => ⟨h.1 hkey source hsource tree,
          fun _ _ after _ => ih h.2 after⟩⟩
        rw [hreadable] at hgone
        cases hgone

section Mono

variable {codec opts readable devNode} {spared spared' : PathTree → Prop}
  {condition condition' : PathTree → Str → Json → Prop}
  (hspared : ∀ tree, spared tree → spared' tree)
  (hcondition : ∀ tree path source, condition tree path source → condition' tree path source)

include hspared hcondition

theorem MembersMeet.mono {obj : Json} {priority : AliasPriority} {keys : List Str} {tree : PathTree}
    (h : MembersMeet codec opts readable devNode spared condition obj priority keys tree) :
    MembersMeet codec opts readable devNode spared' condition' obj priority keys tree := by
  induction keys generalizing tree with
  | nil => exact h
  | cons key keys ih =>
      rw [MembersMeet] at h ⊢
      split at h
      next hkey =>
        rw [if_pos hkey]
        exact ih h
      next hkey =>
        rw [if_neg hkey]
        refine ⟨fun hgone => hspared _ (h.1 hgone), fun source hsource => ?_⟩
        obtain ⟨hentry, hrest⟩ := h.2 source hsource
        exact ⟨hcondition _ _ _ hentry, fun fuel changed after hrun =>
          ih (hrest fuel changed after hrun)⟩

theorem ObjectMeets.mono {obj : Json} {tree : PathTree}
    (h : ObjectMeets codec opts readable devNode spared condition obj tree) :
    ObjectMeets codec opts readable devNode spared' condition' obj tree :=
  ⟨fun error herror => hspared _ (h.1 error herror), fun priority keys hpriority hkeys =>
    (h.2 priority keys hpriority hkeys).mono hspared hcondition⟩

theorem ArrayMeets.mono {items : List Json} {tree : PathTree}
    (h : ArrayMeets codec opts readable devNode spared condition items tree) :
    ArrayMeets codec opts readable devNode spared' condition' items tree := by
  induction items generalizing tree with
  | nil => exact fun hgone => hspared _ (h hgone)
  | cons elt rest ih =>
      exact ⟨fun hgone => hspared _ (h.1 hgone),
        fun hobject => (h.2.1 hobject).mono hspared hcondition, fun fuel changed after hrun =>
          ih (h.2.2 fuel changed after hrun)⟩

theorem EntriesMeet.mono {val : Json} {tree : PathTree}
    (h : EntriesMeet codec opts readable devNode spared condition val tree) :
    EntriesMeet codec opts readable devNode spared' condition' val tree := by
  cases val with
  | arr items => exact ArrayMeets.mono hspared hcondition h
  | obj members => exact ObjectMeets.mono hspared hcondition h
  | null | bool _ | int _ | real _ | str _ => trivial

end Mono

/-! ## Accounting for a whole description -/

section Accounts

variable {codec opts readable devNode} {rel : PathTree → PathTree → Prop}
  {fails : Abort TreeError → Prop} {spared : PathTree → Prop}
  {condition : PathTree → Str → Json → Prop}
  (hrefl : ∀ tree, rel tree tree)
  (htrans : ∀ ⦃first second third⦄, rel first second → rel second third → rel first third)
  (hentry : ∀ (tree : PathTree) fuel path source priority, (tree.value? devNode).isSome = true →
    condition tree path source → Program.Accounts rel fails spared
      (processEntry codec opts devNode fuel path source priority) tree)

include hrefl htrans

theorem checkReadable_accounts {tree : PathTree} {next : Unit → TreeProgram Bool}
    (hreadable : readable tree = false → spared tree)
    (hnext : Program.Accounts rel fails spared (next ()) tree) :
    Program.Accounts rel fails spared (checkReadable readable >>= next) tree := by
  have hread : (Program.get : TreeProgram PathTree).run tree = (.ok tree, tree) := rfl
  refine Program.Accounts.bind htrans (fun _ after hrun => ?_) fun _ after hrun _ => ?_
  all_goals
    rw [checkReadable, Program.run_bind_of_ok hread] at hrun
    split at hrun
  · obtain rfl : tree = after := (Prod.mk.inj hrun).2
    exact ⟨hrefl tree, hnext⟩
  · cases hrun
  · cases hrun
  next hgone =>
    obtain rfl : tree = after := (Prod.mk.inj hrun).2
    exact hreadable (by simpa using hgone)

theorem ofJson_accounts {α : Type} {tree : PathTree} {result : Except JsonError α}
    {next : α → TreeProgram Bool} (herror : ∀ error, result = .error error → spared tree)
    (hnext : ∀ value, result = .ok value → Program.Accounts rel fails spared (next value) tree) :
    Program.Accounts rel fails spared (TreeProgram.ofJson result >>= next) tree := by
  refine Program.Accounts.bind htrans (fun _ after hrun => ?_) fun _ after hrun _ => ?_
  · cases result with
    | error error => cases hrun
    | ok value =>
        obtain ⟨hvalue, rfl⟩ := Prod.mk.inj hrun
        obtain rfl := Except.ok.inj hvalue
        exact ⟨hrefl _, hnext _ rfl⟩
  · cases result with
    | error error =>
        cases hrun
        exact herror error rfl
    | ok value => cases hrun

include hentry

theorem processMembers_accounts {fuel : ℕ} {obj : Json} (hobject : obj.isObject = true)
    {priority : AliasPriority} {keys : List Str} {tree : PathTree}
    (hnode : (tree.value? devNode).isSome = true)
    (hmeet : MembersMeet codec opts readable devNode spared condition obj priority keys tree) :
    Program.Accounts rel fails spared
      (processMembers codec opts readable devNode fuel obj priority keys) tree := by
  induction keys generalizing tree with
  | nil => exact .pure_false hrefl
  | cons key keys ih =>
      rw [MembersMeet] at hmeet
      rw [processMembers]
      split at hmeet
      next hkey =>
        rw [if_pos hkey]
        exact ih hnode hmeet
      next hkey =>
        rw [if_neg hkey]
        refine checkReadable_accounts hrefl htrans hmeet.1
          (ofJson_accounts hrefl htrans (fun error herror => ?_) fun source hsource => ?_)
        · cases obj with
          | obj members => simp [Json.index, Json.member?, Except.map] at herror
          | _ => cases hobject
        · obtain ⟨hcondition, hrest⟩ := hmeet.2 source hsource
          refine Program.Accounts.bind_or htrans
            (hentry tree fuel key source priority hnode hcondition)
            fun changed after hrun => ih ?_ (hrest fuel changed after hrun)
          exact isSome_value?_of_run
            (grows_processEntry codec opts devNode fuel key source priority) hrun hnode

theorem processObject_accounts {fuel : ℕ} {obj : Json} (hobject : obj.isObject = true)
    {tree : PathTree} (hnode : (tree.value? devNode).isSome = true)
    (hmeet : ObjectMeets codec opts readable devNode spared condition obj tree) :
    Program.Accounts rel fails spared
      (processObject codec opts readable devNode fuel obj) tree := by
  refine ofJson_accounts hrefl htrans hmeet.1 fun priority hpriority =>
    ofJson_accounts hrefl htrans (fun error herror => ?_) fun keys hkeys =>
      processMembers_accounts hrefl htrans hentry hobject hnode
        (hmeet.2 priority keys hpriority hkeys)
  cases obj with
  | obj members => cases herror
  | _ => cases hobject

theorem processArray_accounts {fuel : ℕ} {items : List Json} {tree : PathTree}
    (hnode : (tree.value? devNode).isSome = true)
    (hmeet : ArrayMeets codec opts readable devNode spared condition items tree) :
    Program.Accounts rel fails spared
      (processArray codec opts readable devNode fuel items) tree := by
  induction items generalizing tree with
  | nil => exact checkReadable_accounts hrefl htrans hmeet (.pure_false hrefl)
  | cons elt rest ih =>
      refine checkReadable_accounts hrefl htrans hmeet.1 (Program.Accounts.bind_or htrans ?_
        fun changed after hrun => ih ?_ (hmeet.2.2 fuel changed after hrun))
      · unfold processElement
        split
        next hobject =>
          exact processObject_accounts hrefl htrans hentry hobject hnode (hmeet.2.1 hobject)
        next => exact .pure_false hrefl
      · exact isSome_value?_of_run (grows_processElement codec opts readable devNode fuel elt) hrun
          hnode

/-- A description accounts for what it does when each of its entries does. -/
theorem process_accounts {fuel : ℕ} {val : Json} {tree : PathTree}
    (hnode : (tree.value? devNode).isSome = true)
    (hmeet : EntriesMeet codec opts readable devNode spared condition val tree) :
    Program.Accounts rel fails spared (opts.process codec readable fuel devNode val) tree := by
  cases val with
  | arr items => exact processArray_accounts hrefl htrans hentry hnode hmeet
  | obj members => exact processObject_accounts hrefl htrans hentry rfl hnode hmeet
  | null => exact .pure_false hrefl
  | bool b => exact .pure_false hrefl
  | int n => exact .pure_false hrefl
  | real q => exact .pure_false hrefl
  | str text => exact .pure_false hrefl

end Accounts

end AutomaticAliases
end OSVR.Common
