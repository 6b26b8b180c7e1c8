/-
# The order of alias priorities

The priority of a description is any integer, and it is kept modulo 256. So of two
descriptions for one node the greater one has its way only if it is still greater after
that, and a priority that is no 32-bit number ends the processing. What is stored is what
is written and read.
-/

import OsvrCore.Common.AliasOptions
import OsvrCore.Common.AliasPriorities
import OsvrCore.Common.PathTreeSerialization

set_option autoImplicit false

namespace OSVR.Common

open Math

/-! ## Programs that turn the element of a node into another one -/

/-- In a tree with the node of the device, the program returns, and the element of a node
becomes what the function makes of it. -/
def Turns (devNode node : NodePath) (f : PathElement → PathElement)
    (program : ℕ → TreeProgram Bool) : Prop :=
  ∀ tree : PathTree, (tree.value? devNode).isSome = true → ∃ changed after,
    Program.Returns program tree changed after ∧ (after.value? devNode).isSome = true ∧
      after.element node = f (tree.element node)

namespace Turns

variable {devNode node : NodePath} {f g : PathElement → PathElement}
  {first second : ℕ → TreeProgram Bool}

theorem pure_false (devNode node : NodePath) : Turns devNode node id fun _ => pure false :=
  fun tree hnode => ⟨false, tree, .const rfl, hnode, rfl⟩

theorem bind_or (hfirst : Turns devNode node f first) (hsecond : Turns devNode node g second) :
    Turns devNode node (g ∘ f) fun fuel =>
      first fuel >>= fun changed => second fuel >>= fun others => pure (changed || others) := by
  intro tree hnode
  obtain ⟨changed, middle, hreturns, hmiddle, helement⟩ := hfirst tree hnode
  obtain ⟨others, after, hrest, hafter, helement'⟩ := hsecond middle hmiddle
  refine ⟨changed || others, after, hreturns.bind (hrest.map (changed || ·)), hafter, ?_⟩
  rw [helement', helement, Function.comp_apply]

/-- First a computation that only reads. -/
theorem bind_read {α : Type} {read : TreeProgram α} {value : α} {next : ℕ → α → TreeProgram Bool}
    (hread : ∀ tree : PathTree, read.run tree = (.ok value, tree))
    (hnext : Turns devNode node f fun fuel => next fuel value) :
    Turns devNode node f fun fuel => read >>= next fuel := by
  intro tree hnode
  obtain ⟨changed, after, hreturns, hafter, helement⟩ := hnext tree hnode
  exact ⟨changed, after, (Program.Returns.const (hread tree)).bind hreturns, hafter, helement⟩

end Turns

/-- What an element becomes when the alias is asked for at its node. -/
def AliasRequest.offeredTo (request : AliasRequest) (element : PathElement) : PathElement :=
  if aliasNeedsUpdate element request.source request.priority then request.element else element

theorem AliasRequest.offeredTo_offeredTo (request : AliasRequest) (element : PathElement) :
    request.offeredTo (request.offeredTo element) = request.offeredTo element := by
  by_cases hupdate : aliasNeedsUpdate element request.source request.priority = true
  · have hself := aliasNeedsUpdate_self request.source request.priority
    simp [AliasRequest.offeredTo, hupdate, AliasRequest.element, hself]
  · simp [AliasRequest.offeredTo, hupdate]

namespace AutomaticAliases

section Definitions

variable (codec : JsonCodec) (opts : AliasProcessorOptions) (devNode : NodePath)

/-- The plan of an entry that the options let through and that has no wildcard. -/
def simplePlan? (path : Str) (source : Json) : Option AliasPlan :=
  if opts.permitRelativePath || isPathAbsolute path then
    match ParsedAlias.parseValue codec source with
    | .error _ => none
    | .ok parsedSource =>
        if (opts.permitRelativeSource || isPathAbsolute parsedSource.getLeaf) &&
            !doesPathContainWildcard parsedSource.getLeaf then
          some (planAlias codec devNode (parsedSource.getAlias codec) path)
        else none
  else none

/-- The entry asks for an alias of the node to the source. -/
def MakesAlias (node : NodePath) (source : Str) (entry : Str × Json) : Prop :=
  ∃ plan, simplePlan? codec opts devNode entry.1 entry.2 = some plan ∧
    plan.outcome = .ok (some (node, source))

/-- With any priority, the processing of the entry comes to its end and leaves the node alone. -/
def SparesNode (node : NodePath) (entry : Str × Json) : Prop :=
  ∀ priority, Turns devNode node id fun fuel =>
    processEntry codec opts devNode fuel entry.1 entry.2 priority

/-- An object of a priority that describes an alias of the node to the source, and maybe
aliases of other nodes. -/
structure AliasObject (node : NodePath) (source : Str) (priority : Int) (members : JsonMembers) :
    Prop where
  lookup : members.lookup PRIORITY_KEY = some (.int priority)
  makes : ∃ entry ∈ Json.aliasEntries members, MakesAlias codec opts devNode node source entry
  others : ∀ entry ∈ Json.aliasEntries members,
    MakesAlias codec opts devNode node source entry ∨ SparesNode codec opts devNode node entry

/-- The objects are processed one after the other. -/
def processInOrder (objects : List JsonMembers) (fuel : ℕ) : TreeProgram Bool :=
  Program.inOrder (objects.map fun members =>
    opts.process codec (fun _ => true) fuel devNode (.obj members))

end Definitions

variable {codec : JsonCodec} {opts : AliasProcessorOptions} {devNode node : NodePath} {source : Str}
  {entry : Str × Json} {tree : PathTree}

/-! ## Entries -/

theorem run_processEntry_simple {path : Str} {value : Json} {plan : AliasPlan}
    (hplan : simplePlan? codec opts devNode path value = some plan)
    (hnode : (tree.value? devNode).isSome = true) (fuel : ℕ) (priority : AliasPriority) :
    (processEntry codec opts devNode fuel path value priority).run tree =
      plan.execute priority tree := by
  unfold simplePlan? at hplan
  split at hplan
  next hpath =>
    split at hplan
    next => cases hplan
    next parsedSource hparse =>
      split at hplan
      next hleaf =>
        obtain rfl := Option.some.inj hplan
        obtain ⟨hleaf, hwildcard⟩ := (Bool.and_eq_true _ _).mp hleaf
        rw [run_processEntry_of_permitted hpath hparse hleaf, hwildcard]
        exact run_addAliasFromSourceAndRelativeDest codec tree devNode hnode _ _ priority
      next => cases hplan
  next => cases hplan

/-- A plan that does not fail turns the element of a node as it asks for. -/
theorem turns_execute {plan : AliasPlan} {priority : AliasPriority} {f : PathElement → PathElement}
    {program : ℕ → TreeProgram Bool}
    (hrun : ∀ tree : PathTree, (tree.value? devNode).isSome = true → ∀ fuel,
      (program fuel).run tree = plan.execute priority tree)
    {alias_ : Option (NodePath × Str)} (houtcome : plan.outcome = .ok alias_)
    (hf : ∀ tree : PathTree, (PathTree.element (plan.execute priority tree).2 node) =
      f (tree.element node)) : Turns devNode node f program := by
  intro tree hnode
  rcases hexecute : plan.execute priority tree with ⟨reason | changed, after⟩
  · obtain ⟨error, herror, -⟩ := AliasPlan.execute_eq_error (congrArg Prod.fst hexecute)
    rw [houtcome] at herror
    cases herror
  · refine ⟨changed, after, ⟨0, fun fuel _ => (hrun tree hnode fuel).trans hexecute⟩, ?_, ?_⟩
    · have hgrows := plan.grows_execute priority tree
      rw [hexecute] at hgrows
      exact hgrows.isSome_value? hnode
    · have helement := hf tree
      rwa [hexecute] at helement

/-- The alias that a plan asks for is offered to its node. -/
theorem element_execute_self {plan : AliasPlan}
    (houtcome : plan.outcome = .ok (some (node, source)))
    (priority : AliasPriority) (tree : PathTree) :
    PathTree.element (plan.execute priority tree).2 node =
      AliasRequest.offeredTo ⟨source, priority⟩ (tree.element node) := by
  rw [AliasPlan.execute, houtcome, AliasRequest.offeredTo]
  dsimp only
  split
  · rw [PathTree.element_set, if_pos rfl]
    rfl
  · rw [PathTree.element_touchAll]

/-- Other nodes keep their elements. -/
theorem element_execute_other {plan : AliasPlan} {alias_ : Option (NodePath × Str)}
    (houtcome : plan.outcome = .ok alias_) (hother : ∀ target ∈ alias_, target.1 ≠ node)
    (priority : AliasPriority) (tree : PathTree) :
    PathTree.element (plan.execute priority tree).2 node = tree.element node := by
  rw [AliasPlan.execute, houtcome]
  rcases alias_ with _ | ⟨target, source⟩
  · exact PathTree.element_touchAll tree plan.lookups node
  · dsimp only
    split
    · rw [PathTree.element_set, if_neg (Ne.symm (hother _ rfl)), PathTree.element_touchAll]
    · rw [PathTree.element_touchAll]

theorem MakesAlias.turns (h : MakesAlias codec opts devNode node source entry)
    (priority : AliasPriority) :
    Turns devNode node (AliasRequest.offeredTo ⟨source, priority⟩) fun fuel =>
      processEntry codec opts devNode fuel entry.1 entry.2 priority := by
  obtain ⟨plan, hplan, houtcome⟩ := h
  exact turns_execute (fun tree hnode fuel => run_processEntry_simple hplan hnode fuel priority)
    houtcome (element_execute_self houtcome priority)

/-- Entries that are passed over leave every node alone. -/
theorem SparesNode.of_entrySkipped (node : NodePath)
    (h : entrySkipped codec opts entry.1 entry.2 = true) :
    SparesNode codec opts devNode node entry := fun _ tree hnode =>
  ⟨false, tree, ⟨0, fun fuel _ => run_processEntry_skipped fuel h⟩, hnode, rfl⟩

/-- Entries that ask for an alias elsewhere, or for none, leave the node alone. -/
theorem SparesNode.of_simplePlan {plan : AliasPlan} {alias_ : Option (NodePath × Str)}
    (hplan : simplePlan? codec opts devNode entry.1 entry.2 = some plan)
    (houtcome : plan.outcome = .ok alias_) (hother : ∀ target ∈ alias_, target.1 ≠ node) :
    SparesNode codec opts devNode node entry := fun priority =>
  turns_execute (fun _ hnode fuel => run_processEntry_simple hplan hnode fuel priority)
    houtcome (element_execute_other houtcome hother priority)

/-! ## Objects -/

/-- Entries that each ask for the alias or leave the node alone: together they offer the alias,
if one of them asks for it. -/
theorem turns_processMembers {members : JsonMembers} (priority : AliasPriority) {keys : List Str}
    (hkeys : ∀ key ∈ keys, PRIORITY_KEY ≠ key →
      MakesAlias codec opts devNode node source (key, (members.lookup key).getD .null) ∨
        SparesNode codec opts devNode node (key, (members.lookup key).getD .null)) :
    ∃ f, Turns devNode node f (fun fuel =>
        processMembers codec opts (fun _ => true) devNode fuel (.obj members) priority keys) ∧
      (f = id ∨ f = AliasRequest.offeredTo ⟨source, priority⟩) ∧
      ∀ key ∈ keys, PRIORITY_KEY ≠ key →
        MakesAlias codec opts devNode node source (key, (members.lookup key).getD .null) →
        f = AliasRequest.offeredTo ⟨source, priority⟩ := by
  induction keys with
  | nil => exact ⟨id, .pure_false devNode node, .inl rfl, by simp⟩
  | cons key keys ih =>
      rw [List.forall_mem_cons] at hkeys
      obtain ⟨f, hrest, hf, hmakes⟩ := ih hkeys.2
      by_cases hname : PRIORITY_KEY = key
      · refine ⟨f, by simpa only [processMembers, if_pos hname] using hrest, hf, ?_⟩
        rw [List.forall_mem_cons]
        exact ⟨fun hne => absurd hname hne, hmakes⟩
      · have hentry (g : PathElement → PathElement)
            (hfirst : Turns devNode node g fun fuel => processEntry codec opts devNode fuel key
              ((members.lookup key).getD .null) priority) :
            Turns devNode node (f ∘ g) fun fuel => processMembers codec opts (fun _ => true) devNode
              fuel (.obj members) priority (key :: keys) := by
          have hread (tree : PathTree) : (checkReadable fun _ => true).run tree = (.ok (), tree) :=
            rfl
          have hindex (tree : PathTree) : (TreeProgram.ofJson (Json.index key (.obj members))).run
              tree = (.ok ((members.lookup key).getD .null), tree) := rfl
          simp only [processMembers, if_neg hname]
          exact .bind_read hread (.bind_read hindex (hfirst.bind_or hrest))
        have hidempotent := AliasRequest.offeredTo_offeredTo ⟨source, priority⟩
        by_cases hmade :
            MakesAlias codec opts devNode node source (key, (members.lookup key).getD .null)
        · have hoffered : f ∘ AliasRequest.offeredTo ⟨source, priority⟩ =
              AliasRequest.offeredTo ⟨source, priority⟩ := by
            rcases hf with rfl | rfl
            · rfl
            · exact funext hidempotent
          exact ⟨_, hentry _ (hmade.turns priority), .inr hoffered, fun _ _ _ _ => hoffered⟩
        · have hspares := (hkeys.1 hname).resolve_left hmade
          refine ⟨f, hentry id (hspares priority), hf, ?_⟩
          rw [List.forall_mem_cons]
          exact ⟨fun _ hmade' => absurd hmade' hmade, hmakes⟩

theorem mem_aliasEntries_iff {members : JsonMembers} :
    entry ∈ Json.aliasEntries members ↔
      entry.1 ∈ members.map Prod.fst ∧ PRIORITY_KEY ≠ entry.1 ∧
        entry.2 = (members.lookup entry.1).getD .null := by
  simp only [Json.aliasEntries, List.mem_map, List.mem_filter, decide_eq_true_eq]
  apply Iff.intro
  · rintro ⟨member, ⟨hmem, hname⟩, rfl⟩
    exact ⟨⟨member, hmem, rfl⟩, hname, rfl⟩
  · rintro ⟨⟨member, hmem, hfst⟩, hname, hvalue⟩
    refine ⟨member, ⟨hmem, hfst ▸ hname⟩, ?_⟩
    rw [hfst, ← hvalue]

/-- The integers that `asInt` gives as they are. -/
def InIntRange (n : Int) : Prop := -2147483648 ≤ n ∧ n ≤ 2147483647

instance (n : Int) : Decidable (InIntRange n) := inferInstanceAs (Decidable (_ ∧ _))

theorem objectPriority_of_lookup {members : JsonMembers} {priority : Int}
    (hlookup : members.lookup PRIORITY_KEY = some (.int priority)) (hrange : InIntRange priority) :
    objectPriority opts (.obj members) = .ok (UInt8.ofInt priority) := by
  rw [objectPriority, Json.member?, hlookup]
  have hasInt : (Json.int priority).asInt = .ok priority := if_pos hrange
  show (do return UInt8.ofInt (← (Json.int priority).asInt)) = _
  rw [hasInt]
  rfl

theorem objectPriority_of_not_inIntRange {members : JsonMembers} {priority : Int}
    (hlookup : members.lookup PRIORITY_KEY = some (.int priority))
    (hrange : ¬ InIntRange priority) :
    objectPriority opts (.obj members) = .error .outOfIntRange := by
  rw [objectPriority, Json.member?, hlookup]
  have hasInt : (Json.int priority).asInt = .error .outOfIntRange := if_neg hrange
  show (do return UInt8.ofInt (← (Json.int priority).asInt)) = _
  rw [hasInt]
  rfl

/-- An alias object offers its alias with the priority modulo 256. -/
theorem AliasObject.turns {priority : Int} {members : JsonMembers}
    (h : AliasObject codec opts devNode node source priority members)
    (hrange : InIntRange priority) :
    Turns devNode node (AliasRequest.offeredTo ⟨source, UInt8.ofInt priority⟩) fun fuel =>
      opts.process codec (fun _ => true) fuel devNode (.obj members) := by
  have hpriority : objectPriority opts (.obj members) = .ok (UInt8.ofInt priority) :=
    objectPriority_of_lookup h.lookup hrange
  have hkeys : ∀ key ∈ members.map Prod.fst, PRIORITY_KEY ≠ key →
      MakesAlias codec opts devNode node source (key, (members.lookup key).getD .null) ∨
        SparesNode codec opts devNode node (key, (members.lookup key).getD .null) :=
    fun key hkey hname => h.others _ (mem_aliasEntries_iff.mpr ⟨hkey, hname, rfl⟩)
  obtain ⟨f, hturns, -, hmakes⟩ := turns_processMembers (UInt8.ofInt priority) hkeys
  obtain ⟨⟨key, value⟩, hentry, hmade⟩ := h.makes
  obtain ⟨hkey, hname, hvalue⟩ := mem_aliasEntries_iff.mp hentry
  dsimp only at hkey hname hvalue
  subst hvalue
  obtain rfl := hmakes key hkey hname hmade
  simp only [AliasProcessorOptions.process, processObject, hpriority, Json.getMemberNames]
  exact .bind_read (fun _ => rfl) (.bind_read (fun _ => rfl) hturns)

/-- A priority that is no 32-bit number ends the processing before it begins. -/
theorem AliasObject.run_of_not_inIntRange {priority : Int} {members : JsonMembers}
    (h : AliasObject codec opts devNode node source priority members)
    (hrange : ¬ InIntRange priority) (fuel : ℕ) :
    (opts.process codec (fun _ => true) fuel devNode (.obj members)).run tree =
      (.error (.thrown (.json .outOfIntRange)), tree) := by
  rw [AliasProcessorOptions.process, processObject,
    objectPriority_of_not_inIntRange h.lookup hrange]
  rfl

/-- An array of objects is processed like the objects one after the other. -/
theorem run_process_arr (objects : List JsonMembers) (fuel : ℕ) :
    (opts.process codec (fun _ => true) fuel devNode (.arr (objects.map .obj))).run tree =
      (processInOrder codec opts devNode objects fuel).run tree := by
  have hread (tree : PathTree) : (checkReadable fun _ => true).run tree = (.ok (), tree) := rfl
  show (processArray codec opts (fun _ => true) devNode fuel (objects.map .obj)).run tree = _
  induction objects generalizing tree with
  | nil => exact Program.run_bind_of_ok (hread tree)
  | cons members rest ih =>
      rw [List.map_cons, processArray, Program.run_bind_of_ok (hread tree), processInOrder,
        List.map_cons, Program.inOrder]
      rcases hrun :
        (processObject codec opts (fun _ => true) devNode fuel (.obj members)).run tree with
        ⟨reason | changed, middle⟩
      · exact (Program.run_bind_of_error hrun).trans (Program.run_bind_of_error hrun).symm
      · refine (Program.run_bind_of_ok hrun).trans (.trans ?_ (Program.run_bind_of_ok hrun).symm)
        rw [Program.run_bind, ih, Program.run_bind]
        rfl

/-! ## Two objects for one node -/

section Definitions

variable (codec : JsonCodec) (opts : AliasProcessorOptions) (devNode : NodePath)

/-- When the tree is written and read, the alias is there again with its priority. -/
def Survives (tree : PathTree) (node : NodePath) (source : Str) (priority : AliasPriority) : Prop :=
  ∀ keepNulls, ∃ restored : PathTree,
    (jsonToPathTree codec (pathTreeToJson tree keepNulls)).run .empty = (.ok (), restored) ∧
      restored.element node = .aliasElement source priority

/-- The objects are processed to the end, and leave an alias of the node to the source that
survives with its priority. -/
def LeavesAlias (tree : PathTree) (objects : List JsonMembers) (node : NodePath) (source : Str) :
    Prop :=
  ∃ changed after priority,
    Program.Returns (processInOrder codec opts devNode objects) tree changed after ∧
      after.element node = .aliasElement source priority ∧
        Survives codec after node source priority

/-- The source of the second object stays, whichever object comes first. -/
def KeepsPriorityOrder (tree : PathTree) (low high : JsonMembers) (node : NodePath) (source : Str) :
    Prop :=
  LeavesAlias codec opts devNode tree [low, high] node source ∧
    LeavesAlias codec opts devNode tree [high, low] node source

end Definitions

theorem survives_of_element {priority : AliasPriority}
    (helement : tree.element node = .aliasElement source priority) :
    Survives codec tree node source priority := by
  intro keepNulls
  obtain ⟨restored, hrun, hrestored⟩ := value?_jsonToPathTree codec tree keepNulls
  refine ⟨restored, hrun, ?_⟩
  cases hvalue : tree.value? node with
  | none =>
      rw [PathTree.element, hvalue] at helement
      cases helement
  | some value =>
      rw [PathTree.element, hvalue] at helement
      obtain rfl : value = .aliasElement source priority := helement
      have hkeeps : keeps keepNulls (.aliasElement source priority) = true := by
        cases keepNulls <;> rfl
      rw [PathTree.element, hrestored node _ hvalue hkeeps]
      rfl

/-- What `static_cast<uint8_t>` keeps of an integer. -/
theorem toNat_ofInt (n : Int) : (UInt8.ofInt n).toNat = (n % 256).toNat := by
  rw [UInt8.ofInt, UInt8.toNat_ofNat']
  omega

/-- Of two requests for a node without an alias, the second is kept unless it is the lesser. -/
theorem offeredTo_offeredTo_of_not_alias {element : PathElement}
    (hnode : element.aliasSource? = none) (first second : AliasRequest) :
    second.offeredTo (first.offeredTo element) =
      (if second.rank < first.rank then first else second).element := by
  have hfirst : first.offeredTo element = first.element := by
    cases element <;> simp_all [AliasRequest.offeredTo, aliasNeedsUpdate, PathElement.aliasSource?]
  rw [hfirst, AliasRequest.offeredTo, AliasCall.element_keepLatest, keepLatest]
  split <;> rfl

variable {first second : JsonMembers} {other wanted : Str} {p q : Int}

/-- Objects that are processed to the end have priorities that are read. -/
theorem inIntRange_of_returns (hfirst : AliasObject codec opts devNode node source p first)
    (hsecond : AliasObject codec opts devNode node other q second) {changed : Bool}
    {after : PathTree}
    (h : Program.Returns (processInOrder codec opts devNode [first, second]) tree changed after) :
    InIntRange p ∧ InIntRange q := by
  obtain ⟨fuel, hfuel⟩ := h
  obtain ⟨changedFirst, middle, hrun, hrest⟩ := Program.run_bind_eq_ok_iff.mp (hfuel fuel le_rfl)
  obtain ⟨_, _, hrunSecond, -⟩ := Program.run_bind_eq_ok_iff.mp hrest
  obtain ⟨changedSecond, last, hrunSecond, -⟩ := Program.run_bind_eq_ok_iff.mp hrunSecond
  apply And.intro
  · by_contra hrange
    rw [hfirst.run_of_not_inIntRange hrange] at hrun
    cases hrun
  · by_contra hrange
    rw [hsecond.run_of_not_inIntRange hrange] at hrunSecond
    cases hrunSecond

/-- Of two objects that are processed one after the other, the second has its way unless its
priority modulo 256 is the lesser. -/
theorem leavesAlias_iff (hdevice : (tree.value? devNode).isSome = true)
    (hnode : (tree.element node).aliasSource? = none)
    (hfirst : AliasObject codec opts devNode node source p first)
    (hsecond : AliasObject codec opts devNode node other q second) :
    LeavesAlias codec opts devNode tree [first, second] node wanted ↔
      (InIntRange p ∧ InIntRange q) ∧ wanted = if q % 256 < p % 256 then source else other := by
  have hturns (hp : InIntRange p) (hq : InIntRange q) :=
    (hfirst.turns hp).bind_or ((hsecond.turns hq).bind_or (.pure_false devNode node)) tree hdevice
  have hrank : (UInt8.ofInt q).toNat < (UInt8.ofInt p).toNat ↔ q % 256 < p % 256 := by
    rw [toNat_ofInt, toNat_ofInt]
    omega
  have hkept := offeredTo_offeredTo_of_not_alias hnode ⟨source, UInt8.ofInt p⟩
    ⟨other, UInt8.ofInt q⟩
  simp only [AliasRequest.rank, hrank] at hkept
  apply Iff.intro
  · rintro ⟨changed, after, priority, hreturns, helement, -⟩
    obtain ⟨hp, hq⟩ := inIntRange_of_returns hfirst hsecond hreturns
    refine ⟨⟨hp, hq⟩, ?_⟩
    obtain ⟨_, _, hreturns', -, helement'⟩ := hturns hp hq
    obtain ⟨-, rfl⟩ := hreturns.unique hreturns'
    have hsame := helement.symm.trans (helement'.trans hkept)
    split at hsame
    next hless =>
      rw [if_pos hless]
      exact (PathElement.aliasElement.inj hsame).1
    next hless =>
      rw [if_neg hless]
      exact (PathElement.aliasElement.inj hsame).1
  · rintro ⟨⟨hp, hq⟩, rfl⟩
    obtain ⟨changed, after, hreturns, -, helement⟩ := hturns hp hq
    have hsame := helement.trans hkept
    split at hsame
    next hless =>
      rw [if_pos hless]
      exact ⟨changed, after, _, hreturns, hsame, survives_of_element hsame⟩
    next hless =>
      rw [if_neg hless]
      exact ⟨changed, after, _, hreturns, hsame, survives_of_element hsame⟩

/-- Two alias objects for a node without an alias keep the order of their priorities exactly
if both priorities are read and are in that order modulo 256, or the sources are the same. An
array of objects is processed like the objects one after the other. -/
theorem keepsPriorityOrder_iff (hdevice : (tree.value? devNode).isSome = true)
    (hnode : (tree.element node).aliasSource? = none)
    (hlow : AliasObject codec opts devNode node source p first)
    (hhigh : AliasObject codec opts devNode node other q second) :
    (KeepsPriorityOrder codec opts devNode tree first second node other ↔
      (InIntRange p ∧ InIntRange q) ∧ (p % 256 < q % 256 ∨ source = other)) ∧
    ∀ objects fuel,
      (opts.process codec (fun _ => true) fuel devNode (.arr (objects.map .obj))).run tree =
        (processInOrder codec opts devNode objects fuel).run tree := by
  refine ⟨?_, run_process_arr⟩
  rw [KeepsPriorityOrder, leavesAlias_iff hdevice hnode hlow hhigh,
    leavesAlias_iff hdevice hnode hhigh hlow]
  apply Iff.intro
  · rintro ⟨⟨hranges, -⟩, -, hkept⟩
    refine ⟨hranges, ?_⟩
    split at hkept
    next hless => exact .inl hless
    next => exact .inr hkept.symm
  · rintro ⟨⟨hp, hq⟩, hless | rfl⟩
    · rw [if_neg (Int.not_lt.mpr hless.le), if_pos hless]
      exact ⟨⟨⟨hp, hq⟩, rfl⟩, ⟨hq, hp⟩, rfl⟩
    · simp [hp, hq]

/-- An alias of `/eye` to `/left`. -/
def leftObject (priority : Int) : JsonMembers :=
  [(PRIORITY_KEY, .int priority), ("/eye".toList, .str "/left".toList)]

/-- An alias of `/eye` to `/right`, with an entry that is passed over and one for `/mouth`. -/
def rightObject (priority : Int) : JsonMembers :=
  [(PRIORITY_KEY, .int priority), ("/eye".toList, .str "/right".toList),
    ("/mouth".toList, .str "/middle".toList), ("eye".toList, .str "/left".toList)]

open AliasCall in
theorem aliasObject_left (priority : Int) :
    AliasObject plainCodec {} [] eyeNode "/left".toList priority (leftObject priority) where
  lookup := rfl
  makes := ⟨("/eye".toList, .str "/left".toList), List.mem_cons_self, _, rfl, rfl⟩
  others entry hentry := by
    obtain rfl : entry = ("/eye".toList, .str "/left".toList) := List.mem_singleton.mp hentry
    exact .inl ⟨_, rfl, rfl⟩

open AliasCall in
theorem aliasObject_right (priority : Int) :
    AliasObject plainCodec {} [] eyeNode "/right".toList priority (rightObject priority) where
  lookup := rfl
  makes := ⟨("/eye".toList, .str "/right".toList), List.mem_cons_self, _, rfl, rfl⟩
  others entry hentry := by
    have hentries : entry = ("/eye".toList, .str "/right".toList) ∨
        entry = ("/mouth".toList, .str "/middle".toList) ∨
        entry = ("eye".toList, .str "/left".toList) := by
      simpa using show entry ∈ [("/eye".toList, Json.str "/right".toList),
        ("/mouth".toList, .str "/middle".toList), ("eye".toList, .str "/left".toList)] from hentry
    rcases hentries with rfl | rfl | rfl
    · exact .inl ⟨_, rfl, rfl⟩
    · refine .inr (.of_simplePlan rfl rfl fun target htarget => ?_)
      obtain rfl := Option.some.inj htarget
      decide
    · exact .inr (.of_entrySkipped _ rfl)

open AliasCall in
theorem keepsPriorityOrder_oneTwo :
    KeepsPriorityOrder plainCodec {} [] .empty (leftObject 1) (rightObject 2) eyeNode
      "/right".toList :=
  (keepsPriorityOrder_iff rfl rfl (aliasObject_left 1) (aliasObject_right 2)).1.mpr
    ⟨⟨by decide, by decide⟩, .inl (by decide)⟩

open AliasCall in
/-- The priority 256 is read as 0, so that the alias of priority 1 stays. -/
theorem not_keepsPriorityOrder_256 :
    (1 : Int) < 256 ∧ ¬ KeepsPriorityOrder plainCodec {} [] .empty (leftObject 1)
      (rightObject 256) eyeNode "/right".toList := by
  refine ⟨by decide, fun h => ?_⟩
  have hleaves := (leavesAlias_iff rfl rfl (aliasObject_left 1) (aliasObject_right 256)).mp h.1
  exact absurd hleaves.2 (by decide)

end AutomaticAliases

end OSVR.Common
