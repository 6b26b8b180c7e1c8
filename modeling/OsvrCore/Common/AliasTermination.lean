/-
# When the processing of aliases ends

A traversal for a wildcard may meet the aliases that it has added. The nodes it
can come to are the nodes with an element below the stem and, again and again,
the aliases made for them, except where the branch of an alias comes before the
branch it was made from, and up to the first of the elements below the stem for
which no alias can be planned. The processing ends when these nodes are finitely
many, and otherwise it comes to an alias that it has added.
-/

import OsvrCore.Common.AliasEntries
import Mathlib.Data.Set.Finite.Lattice

set_option autoImplicit false

namespace OSVR.Common

open Math

/-! ## The nodes a wildcard comes to -/

/-- A node with an element whose visit throws. -/
def Throwing (tree : PathTree) (start : NodePath) (plan : NodePath → AliasPlan) (node : NodePath) :
    Prop :=
  start <+: node ∧ tree.element node ≠ .nullElement ∧ ∃ error, (plan node).outcome = .error error

/-- The nodes whose aliases a traversal from `start` may make: the nodes that have
an element, and the aliases made on the way, before a visit throws, that it has not
passed. -/
inductive Copied (tree : PathTree) (start : NodePath) (plan : NodePath → AliasPlan) :
    NodePath → Prop
  | original {node : NodePath} {value : PathElement} (below : start <+: node)
      (found : tree.value? node = some value) (element : value ≠ .nullElement) :
      Copied tree start plan node
  | copy {node target : NodePath} {source : Str} (prior : Copied tree start plan node)
      (reached : tree.ComesTo (Throwing tree start plan) node)
      (planned : (plan node).outcome = .ok (some (target, source))) (below : start <+: target)
      (ahead : ¬ tree.Passed node target) : Copied tree start plan target

theorem Copied.within {tree : PathTree} {start node : NodePath} {plan : NodePath → AliasPlan}
    (h : Copied tree start plan node) : start <+: node := by
  cases h <;> assumption

section Wildcard

variable {tree : PathTree} {start : NodePath} {plan : NodePath → AliasPlan}
  {functor : NodePath → Str → TreeProgram Bool} {priority : AliasPriority}
  {fails : Abort TreeError → Prop}

/-- What a traversal from `start` expects below `start`: elements at copied nodes,
those whose visits throw among them, and no node that was neither there nor is
created for a copied node. -/
def WildcardExpected (tree : PathTree) (start : NodePath) (plan : NodePath → AliasPlan)
    (node : NodePath) (value : PathElement) : Prop :=
  start <+: node →
    (value ≠ .nullElement → Copied tree start plan node) ∧
      (Throwing tree start plan node → value ≠ .nullElement) ∧
      ((tree.value? node).isSome = true ∨
        ∃ origin, Copied tree start plan origin ∧ ∃ path ∈ (plan origin).paths, node <+: path)

/-- An element that was there is expected. -/
theorem wildcardExpected_of_value? {node : NodePath} {value : PathElement}
    (hvalue : tree.value? node = some value) : WildcardExpected tree start plan node value := by
  refine fun hbelow => ⟨fun helement => .original hbelow hvalue helement, ?_,
    .inl (by simp [hvalue])⟩
  rintro ⟨-, helement, -⟩
  rwa [PathTree.element, hvalue] at helement

/-- Nothing below the start has been passed there. -/
theorem comesTo_start (tree : PathTree) (start : NodePath) (plan : NodePath → AliasPlan) :
    tree.ComesTo (Throwing tree start plan) start := by
  rintro stop ⟨⟨rest, rfl⟩, -, -⟩ hpassed
  rcases rest with _ | ⟨name, rest⟩
  · exact List.append_nil start
  · exact absurd ⟨rest, by simp⟩ (hpassed.not_below name)

/-- The traversal makes an alias ahead of it, for an element that was there at a node that
had none, and comes to both unless it comes to another such alias before. -/
def AddsAhead (tree : PathTree) (start : NodePath) (plan : NodePath → AliasPlan) : Prop :=
  ∃ node target source, start <+: node ∧ tree.element node ≠ .nullElement ∧
    tree.ComesTo (Throwing tree start plan) node ∧
    (plan node).outcome = .ok (some (target, source)) ∧ start <+: target ∧
    tree.element target = .nullElement ∧ ¬ tree.Passed node target ∧
    tree.ComesTo (Throwing tree start plan) target

/-- What is needed for infinitely many aliases. -/
theorem addsAhead_of_infinite (hinfinite : ¬ {node | Copied tree start plan node}.Finite) :
    AddsAhead tree start plan := by
  by_contra hnone
  apply hinfinite
  -- Without one, all copied nodes had elements or are the aliases of such nodes.
  have hthere : {node | tree.element node ≠ .nullElement}.Finite := by
    refine ((tree.entries.map Prod.fst).toFinset.finite_toSet).subset fun node hnode => ?_
    obtain ⟨value, hvalue⟩ := Option.isSome_iff_exists.mp (isSome_value?_of_element hnode)
    rw [Finset.mem_coe, List.mem_toFinset]
    exact List.mem_map_of_mem (NamedTree.mem_entries_of_value? hvalue)
  let targetOf (node : NodePath) : NodePath :=
    ((plan node).outcome.toOption.join.map Prod.fst).getD node
  refine (hthere.union (hthere.image targetOf)).subset fun node hcopied => ?_
  have hcases : tree.element node ≠ .nullElement ∨
      ¬ tree.ComesTo (Throwing tree start plan) node ∧
        ∃ origin, tree.element origin ≠ .nullElement ∧ targetOf origin = node := by
    induction hcopied with
    | original below found element => exact .inl (by rwa [PathTree.element, found])
    | @copy prior target source hprior reached planned below ahead ih =>
        have horigin : tree.element prior ≠ .nullElement := ih.resolve_right fun h => h.1 reached
        by_cases htarget : tree.element target = .nullElement
        · refine .inr ⟨fun hcomes => hnone ?_, prior, horigin,
            by simp [targetOf, planned, Except.toOption]⟩
          exact ⟨prior, target, source, hprior.within, horigin, reached, planned, below, htarget,
            ahead, hcomes⟩
        · exact .inl htarget
  rcases hcases with helement | ⟨_, origin, horigin, rfl⟩
  · exact .inl helement
  · exact .inr ⟨origin, horigin, rfl⟩

/-- Finitely many copied nodes need finitely many nodes. -/
theorem exists_wildcardNodes (hfinite : {node | Copied tree start plan node}.Finite) :
    ∃ nodes : Finset NodePath, ∀ node value, start <+: node →
      WildcardExpected tree start plan node value → node ∈ nodes := by
  have hthere : {node | (tree.value? node).isSome = true}.Finite := by
    refine ((tree.entries.map Prod.fst).toFinset.finite_toSet).subset fun node hnode => ?_
    obtain ⟨value, hvalue⟩ := Option.isSome_iff_exists.mp hnode
    rw [Finset.mem_coe, List.mem_toFinset]
    exact List.mem_map_of_mem (NamedTree.mem_entries_of_value? hvalue)
  have hcreated : (⋃ origin ∈ {node | Copied tree start plan node},
      {node | ∃ path ∈ (plan origin).paths, node <+: path}).Finite := by
    refine hfinite.biUnion fun origin _ => ?_
    refine (((plan origin).paths.flatMap List.inits).toFinset.finite_toSet).subset ?_
    rintro node ⟨path, hpath, hbegins⟩
    rw [Finset.mem_coe, List.mem_toFinset, List.mem_flatMap]
    exact ⟨path, hpath, (List.mem_inits node path).mpr hbegins⟩
  refine ⟨(hthere.union hcreated).toFinset, fun node value hbelow hexpected => ?_⟩
  rw [Set.Finite.mem_toFinset]
  rcases (hexpected hbelow).2.2 with hold | ⟨origin, horigin, hpath⟩
  · exact .inl hold
  · exact .inr (Set.mem_biUnion horigin hpath)

/-- One visit of a wildcard's traversal. -/
theorem visitRule_wildcard
    (hplan : ∀ {state : PathTree} {node : NodePath}, NamedTree.Grows tree state →
      (functor node (relativePath start node)).run state = (plan node).execute priority state)
    (hspared : ∀ node error, Copied tree start plan node → (plan node).outcome = .error error →
      ¬ fails (.thrown error)) :
    NamedTree.VisitRule (visitWildcard functor start) tree (WildcardExpected tree start plan)
      (Throwing tree start plan) fails start where
  advance {state node value} hbelow hcomes hgrows hvalue hexpected := by
    have helement : (TreeProgram.valueAt node).run state = (.ok value, state) := by
      simp [PathTree.element, hvalue]
    rw [visitWildcard, Program.run_bind_of_ok helement]
    cases hnull : value.isNull with
    | true => exact .refl state
    | false =>
        have hcopied := (hexpected hbelow).1 (by simp [← PathElement.isNull_iff, hnull])
        simp only [Bool.false_eq_true, ↓reduceIte, hplan hgrows]
        refine ⟨(plan node).grows_execute priority state, fun path new hnew => ?_⟩
        have hvalue?_new := AliasPlan.value?_execute hnew
        by_cases hkept : state.value? path = some new
        · exact .inl hkept
        by_cases hpassed : tree.Passed node path
        · exact .inr (.inr ⟨node, rfl, hpassed⟩)
        refine .inr (.inl fun hinside => ?_)
        rcases hvalue?_new.resolve_left hkept with ⟨hnone, rfl, created, hcreated, hbegins⟩ |
          ⟨target, source, houtcome, rfl, rfl⟩
        · refine ⟨fun h => absurd rfl h, fun hthrowing => ?_,
            .inr ⟨node, hcopied, created, hcreated, hbegins⟩⟩
          have hthere := hgrows.isSome_value? (isSome_value?_of_element hthrowing.2.1)
          rw [hnone] at hthere
          cases hthere
        · exact ⟨fun _ => .copy hcopied hcomes houtcome hinside hpassed, fun _ => by simp,
            .inr ⟨node, hcopied, path, by simp [AliasPlan.paths, houtcome], List.prefix_rfl⟩⟩
  avoids {state node value} hbelow hgrows hvalue hexpected reason hreason := by
    have helement : (TreeProgram.valueAt node).run state = (.ok value, state) := by
      simp [PathTree.element, hvalue]
    rw [visitWildcard, Program.run_bind_of_ok helement] at hreason
    cases hnull : value.isNull with
    | true => simp [hnull] at hreason
    | false =>
        have hcopied := (hexpected hbelow).1 (by simp [← PathElement.isNull_iff, hnull])
        simp only [hnull, Bool.false_eq_true, ↓reduceIte, hplan hgrows] at hreason
        obtain ⟨error, houtcome, rfl⟩ := AliasPlan.execute_eq_error hreason
        exact hspared node error hcopied houtcome
  halts {state node value} hbelow hgrows hvalue hexpected hthrowing reported after := by
    have helement : (TreeProgram.valueAt node).run state = (.ok value, state) := by
      simp [PathTree.element, hvalue]
    obtain ⟨error, houtcome⟩ := hthrowing.2.2
    have hnull : value.isNull = false := by
      simpa [← PathElement.isNull_iff] using (hexpected hbelow).2.1 hthrowing
    rw [visitWildcard, Program.run_bind_of_ok helement]
    simp only [hnull, Bool.false_eq_true, ↓reduceIte, hplan hgrows, AliasPlan.execute, houtcome]
    exact fun hok => by cases hok
  known hthrowing := isSome_value?_of_element hthrowing.2.1

/-- A wildcard's traversal ends for some fuel when it can only come to finitely
many nodes. -/
theorem traverse_wildcard_ends (plan : NodePath → AliasPlan)
    (functor : NodePath → Str → TreeProgram Bool) (priority : AliasPriority)
    (fails : Abort TreeError → Prop)
    (hplan : ∀ {state : PathTree} {node : NodePath}, NamedTree.Grows tree state →
      (functor node (relativePath start node)).run state = (plan node).execute priority state)
    (hstart : (tree.value? start).isSome = true)
    (hspared : ∀ node error, Copied tree start plan node → (plan node).outcome = .error error →
      ¬ fails (.thrown error))
    (hfinite : {node | Copied tree start plan node}.Finite) :
    ∃ fuel, ∀ reason,
      ((NamedTree.traverse (visitWildcard functor start) fuel start).run tree).1 = .error reason →
        ¬ fails reason := by
  obtain ⟨nodes, hnodes⟩ := exists_wildcardNodes hfinite
  have hrule := (visitRule_wildcard hplan hspared).traverse (fun _ => hnodes)
    (NamedTree.traverseFuel nodes start)
  refine ⟨NamedTree.traverseFuel nodes start, ?_⟩
  obtain ⟨_, havoids, _⟩ := hrule start tree List.prefix_rfl (comesTo_start tree start plan)
    (.refl tree) hstart (fun node value _ hvalue => wildcardExpected_of_value? hvalue)
    fun _ => le_rfl
  exact havoids

end Wildcard

/-! ## Entries -/

namespace AutomaticAliases

section Bounded

variable (codec : JsonCodec) (opts : AliasProcessorOptions) (devNode : NodePath)

/-- A wildcard entry comes to finitely many nodes in a tree. -/
def Bounded (tree : PathTree) (path : Str) (source : Json) : Prop :=
  (opts.permitRelativePath || isPathAbsolute path) = true →
    ∀ parsedSource, ParsedAlias.parseValue codec source = .ok parsedSource →
      (opts.permitRelativeSource || isPathAbsolute parsedSource.getLeaf) = true →
      doesPathContainWildcard parsedSource.getLeaf = true →
      ∀ start, locate devNode (wildcardStem parsedSource.getLeaf) = ⟨start, none⟩ →
        {node | Copied (tree.touch start) start (copyPlan codec devNode path parsedSource start)
          node}.Finite

end Bounded

variable {codec : JsonCodec} {opts : AliasProcessorOptions} (readable : PathTree → Bool)
  {devNode : NodePath} {tree : PathTree}

theorem processSingleEntry_ne_outOfFuel (hnode : (tree.value? devNode).isSome = true)
    (path source : Str) (priority : AliasPriority) :
    ((processSingleEntry codec devNode path source priority).run tree).1 ≠ .error .outOfFuel := by
  rw [processSingleEntry, run_addAliasFromSourceAndRelativeDest codec tree devNode hnode]
  intro h
  obtain ⟨error, -, herror⟩ := AliasPlan.execute_eq_error h
  simp at herror

/-- A wildcard entry ends when it comes to finitely many nodes. -/
theorem applyWildcard_ends (hnode : (tree.value? devNode).isSome = true) (path : Str)
    (parsedSource : ParsedAlias) (priority : AliasPriority)
    (hfinite : ∀ start, locate devNode (wildcardStem parsedSource.getLeaf) = ⟨start, none⟩ →
      {node | Copied (tree.touch start) start (copyPlan codec devNode path parsedSource start)
        node}.Finite) :
    Program.Ends (fun fuel => applyWildcard fuel devNode parsedSource.getLeaf fun node relPath =>
      processSingleEntry codec devNode (path ++ '/' :: relPath)
        (copiedSource codec parsedSource node) priority) tree := by
  rcases hlocated : locate devNode (wildcardStem parsedSource.getLeaf) with ⟨reached, _ | error⟩
  · obtain ⟨fuel, hfuel⟩ := traverse_wildcard_ends
      (copyPlan codec devNode path parsedSource reached)
      (fun node relPath => processSingleEntry codec devNode (path ++ '/' :: relPath)
        (copiedSource codec parsedSource node) priority) priority (· = .outOfFuel)
      (fun hgrows => run_addAliasFromSourceAndRelativeDest codec _ devNode
        (((NamedTree.Grows.touch tree reached).trans hgrows).isSome_value? hnode) _ _ priority)
      (by simp [NamedTree.value?_touch]) (by simp) (hfinite reached hlocated)
    refine ⟨fuel, fun hreason => hfuel _ ?_ rfl⟩
    rwa [run_applyWildcard_of_located hnode hlocated] at hreason
  · refine ⟨0, fun hreason => ?_⟩
    rw [run_applyWildcard_of_failure hnode hlocated] at hreason
    cases hreason

/-- A reading that gives a value changes nothing. -/
theorem ofJson_eq_ok {α : Type} {result : Except JsonError α} {value : α} {after : PathTree}
    (hrun : (TreeProgram.ofJson result).run tree = (.ok value, after)) :
    result = .ok value ∧ after = tree := by
  cases result with
  | error error => cases hrun
  | ok found =>
      cases hrun
      exact ⟨rfl, rfl⟩

theorem checkReadable_eq_ok {readable : PathTree → Bool} {value : Unit} {after : PathTree}
    (hrun : (checkReadable readable).run tree = (.ok value, after)) : after = tree := by
  rw [checkReadable, Program.run_bind_of_ok (Program.run_get tree)] at hrun
  split at hrun
  · exact (Prod.mk.inj hrun).2.symm
  · cases hrun

/-- What starts with a reading ends when the rest does. -/
theorem ends_ofJson_bind {α : Type} {result : Except JsonError α} {next : ℕ → α → TreeProgram Bool}
    (h : ∀ value, result = .ok value → Program.Ends (fun fuel => next fuel value) tree) :
    Program.Ends (fun fuel => TreeProgram.ofJson result >>= next fuel) tree := by
  cases result with
  | error error => exact ⟨0, by simp [Program.run_bind]⟩
  | ok value => exact h value rfl

theorem ends_checkReadable_bind {readable : PathTree → Bool} {next : ℕ → TreeProgram Bool}
    (h : Program.Ends next tree) :
    Program.Ends (fun fuel => checkReadable readable >>= fun _ => next fuel) tree := by
  simp only [Program.Ends, checkReadable, Program.run_bind, Program.run_get]
  cases readable tree with
  | true => exact h
  | false => exact ⟨0, by simp⟩

theorem processEntry_ends (hnode : (tree.value? devNode).isSome = true) {path : Str} {source : Json}
    (priority : AliasPriority) (hbounded : Bounded codec opts devNode tree path source) :
    Program.Ends (fun fuel => processEntry codec opts devNode fuel path source priority) tree := by
  simp only [processEntry_eq]
  split
  · exact ⟨0, by simp⟩
  next hpath =>
    apply ends_ofJson_bind
    intro parsedSource hparse
    unfold processSource
    split
    · exact ⟨0, by simp⟩
    next hleaf =>
      split
      · exact ⟨0, processSingleEntry_ne_outOfFuel hnode _ _ priority⟩
      next hwildcard =>
        apply applyWildcard_ends hnode path parsedSource priority
        exact hbounded (by simpa [or_iff_not_imp_left] using hpath) parsedSource hparse
          (by simpa [or_iff_not_imp_left] using hleaf) (by simpa using hwildcard)

theorem processMembers_ends {obj : Json} {priority : AliasPriority} {keys : List Str}
    (hnode : (tree.value? devNode).isSome = true)
    (hmeet : MembersMeet codec opts readable devNode (fun _ => True)
      (Bounded codec opts devNode) obj priority keys tree) :
    Program.Ends (fun fuel => processMembers codec opts readable devNode fuel obj priority keys)
      tree := by
  induction keys generalizing tree with
  | nil => exact ⟨0, by simp [processMembers]⟩
  | cons key keys ih =>
      rw [MembersMeet] at hmeet
      simp only [processMembers]
      split at hmeet
      next hkey =>
        simp only [hkey, ↓reduceIte]
        exact ih hnode hmeet
      next hkey =>
        simp only [hkey, ↓reduceIte]
        apply ends_checkReadable_bind
        apply ends_ofJson_bind
        intro source hsource
        obtain ⟨hbounded, hrest⟩ := hmeet.2 source hsource
        apply (processEntry_ends hnode priority hbounded).bind_or
          (fuelMonotone_processEntry codec opts devNode key source priority)
          (fuelMonotone_processMembers codec opts readable devNode obj priority keys)
        intro fuel changed final hentry
        have hgrows := grows_processEntry codec opts devNode fuel key source priority
        exact ih (isSome_value?_of_run hgrows hentry hnode) (hrest fuel changed final hentry)

theorem processObject_ends {obj : Json} (hnode : (tree.value? devNode).isSome = true)
    (hmeet : ObjectMeets codec opts readable devNode (fun _ => True) (Bounded codec opts devNode)
      obj tree) :
    Program.Ends (fun fuel => processObject codec opts readable devNode fuel obj) tree := by
  apply ends_ofJson_bind
  intro priority hpriority
  apply ends_ofJson_bind
  intro keys hkeys
  exact processMembers_ends readable hnode (hmeet.2 priority keys hpriority hkeys)

theorem processElement_ends {elt : Json} (hnode : (tree.value? devNode).isSome = true)
    (hmeet : elt.isObject = true →
      ObjectMeets codec opts readable devNode (fun _ => True) (Bounded codec opts devNode) elt
        tree) :
    Program.Ends (fun fuel => processElement codec opts readable devNode fuel elt) tree := by
  unfold processElement
  split
  next hobject => exact processObject_ends readable hnode (hmeet hobject)
  next => exact ⟨0, by simp⟩

theorem processArray_ends {items : List Json} (hnode : (tree.value? devNode).isSome = true)
    (hmeet : ArrayMeets codec opts readable devNode (fun _ => True)
      (Bounded codec opts devNode) items tree) :
    Program.Ends (fun fuel => processArray codec opts readable devNode fuel items) tree := by
  induction items generalizing tree with
  | nil =>
      apply ends_checkReadable_bind
      exact ⟨0, by simp⟩
  | cons elt rest ih =>
      apply ends_checkReadable_bind
      apply (processElement_ends readable hnode hmeet.2.1).bind_or
        (fuelMonotone_processElement codec opts readable devNode elt)
        (fuelMonotone_processArray codec opts readable devNode rest)
      intro fuel changed final helement
      have hgrows := grows_processElement codec opts readable devNode fuel elt
      exact ih (isSome_value?_of_run hgrows helement hnode) (hmeet.2.2 fuel changed final helement)

/-- A description ends when its entries come to finitely many nodes. -/
theorem process_ends_of_bounded {val : Json} (hnode : (tree.value? devNode).isSome = true)
    (hmeet : EntriesMeet codec opts readable devNode (fun _ => True)
      (Bounded codec opts devNode) val tree) :
    Program.Ends (fun fuel => opts.process codec readable fuel devNode val) tree := by
  cases val with
  | arr items => exact processArray_ends readable hnode hmeet
  | obj members => exact processObject_ends readable hnode hmeet
  | null => exact ⟨0, by simp [AliasProcessorOptions.process]⟩
  | bool b => exact ⟨0, by simp [AliasProcessorOptions.process]⟩
  | int n => exact ⟨0, by simp [AliasProcessorOptions.process]⟩
  | real q => exact ⟨0, by simp [AliasProcessorOptions.process]⟩
  | str text => exact ⟨0, by simp [AliasProcessorOptions.process]⟩

end AutomaticAliases

open AutomaticAliases in
/-- `process` ends for every tree, option and value when every wildcard entry, in
the tree that it is applied to, comes to finitely many nodes. An entry for which they
are not finitely many comes to an alias that it has added itself. -/
theorem AliasProcessorOptions.process_ends (opts : AliasProcessorOptions) (codec : JsonCodec)
    (readable : PathTree → Bool) (tree : PathTree) (node : NodePath)
    (hnode : (tree.value? node).isSome = true) (val : Json) :
    (EntriesMeet codec opts readable node (fun _ => True) (Bounded codec opts node) val tree →
        Program.Ends (fun fuel => opts.process codec readable fuel node val) tree) ∧
      ∀ (current : PathTree) path source, ¬ Bounded codec opts node current path source →
        ∃ parsedSource start, ParsedAlias.parseValue codec source = .ok parsedSource ∧
          locate node (wildcardStem parsedSource.getLeaf) = ⟨start, none⟩ ∧
          AddsAhead (current.touch start) start (copyPlan codec node path parsedSource start) := by
  apply And.intro
  · exact process_ends_of_bounded readable hnode
  · intro current path source hunbounded
    by_contra hnone
    refine hunbounded fun _ parsedSource hparse _ _ start hlocated => ?_
    by_contra hinfinite
    exact hnone ⟨parsedSource, start, hparse, hlocated, addsAhead_of_infinite hinfinite⟩

/-! ## A wildcard that copies into its own subtree -/

section BelowStem

open AutomaticAliases

variable {codec : JsonCodec} {devNode stem : NodePath} {name : PathName} {rest : NodePath}

/-- The copies of a stem whose aliases go below the stem itself. -/
def copies (stem below : NodePath) (n : ℕ) : NodePath :=
  stem ++ (List.replicate n below).flatten

theorem copies_succ (stem below : NodePath) (n : ℕ) :
    copies stem below (n + 1) = copies stem below n ++ below := by
  simp [copies, List.replicate_succ']

/-- The part of the full path of a visited node that the wildcard stands for. -/
theorem relativePath_append {stem : NodePath} (hstem : stem ≠ []) (below : NodePath) :
    relativePath stem (stem ++ below) = (below.flatMap fun name => '/' :: name.1).drop 1 := by
  rw [relativePath, getFullPath_append hstem, List.drop_append]
  simp

/-- The alias of a node below the stem goes below the other path. -/
theorem locate_copy (hstem : stem ≠ []) {dest : NodePath} (hdest : dest ≠ []) (below : NodePath) :
    locate devNode (getFullPath dest ++ '/' :: relativePath stem (stem ++ below)) =
      ⟨dest ++ below, none⟩ := by
  rw [relativePath_append hstem]
  rcases below with _ | ⟨name, below⟩
  · simpa using locate_getFullPath_separator devNode hdest
  · rw [List.flatMap_cons, List.cons_append, List.drop_succ_cons, List.drop_zero]
    have hpath : getFullPath dest ++ '/' :: (name.1 ++ below.flatMap fun name => '/' :: name.1) =
        getFullPath (dest ++ name :: below) := by
      simp [getFullPath_append hdest]
    rw [hpath]
    exact locate_getFullPath devNode _

/-- The plan for a node below the stem when full paths are no JSON texts. -/
theorem copyPlan_getFullPath (devNode : NodePath) (hstem : stem ≠ []) {dest : NodePath}
    (hdest : dest ≠ []) (below : NodePath)
    (hparse : codec.parse (getFullPath (stem ++ below)) = none) (leaf : Str) :
    copyPlan codec devNode (getFullPath dest) ⟨.str leaf, true⟩ stem (stem ++ below) =
      ⟨[dest ++ below], .ok (some (dest ++ below, getFullPath (stem ++ below)))⟩ := by
  have hsource : ParsedAlias.parse codec (getFullPath (stem ++ below)) =
      .ok ⟨.str (getFullPath (stem ++ below)), true⟩ := by
    rw [ParsedAlias.parse, hparse]
  have habsolute : isPathAbsolute (getFullPath (stem ++ below)) = true := by
    simp [isPathAbsolute, getFullPath_head]
  rw [copyPlan, copiedSource, if_pos rfl, planAlias, locate_copy hstem hdest, hsource]
  simp only [ParsedAlias.isValid, Json.isNull, Bool.not_false, Bool.not_true, Bool.false_eq_true,
    ↓reduceIte, ParsedAlias.getLeaf, Json.leaf, habsolute]
  rfl

/-- The description that makes an alias below one node for every node below another. -/
def wildcardAlias (dest stem : NodePath) : Json :=
  .obj [(getFullPath dest, .str (getFullPath stem ++ WILDCARD_SUFFIX))]

theorem isPathAbsolute_getFullPath (node : NodePath) (text : Str) :
    isPathAbsolute (getFullPath node ++ text) = true := by
  simp [isPathAbsolute, getFullPath_head]

theorem wildcardStem_append (path : Str) : wildcardStem (path ++ WILDCARD_SUFFIX) = path := by
  simp [wildcardStem, List.rdrop_append_length]

/-- The functor for the one entry of `wildcardAlias`. -/
def wildcardFunctor (codec : JsonCodec) (devNode dest : NodePath) (priority : AliasPriority)
    (node : NodePath) (relPath : Str) : TreeProgram Bool :=
  processSingleEntry codec devNode (getFullPath dest ++ '/' :: relPath) (getFullPath node) priority

theorem processEntry_wildcardAlias (opts : AliasProcessorOptions) (fuel : ℕ) (dest stem : NodePath)
    (priority : AliasPriority) :
    processEntry codec opts devNode fuel (getFullPath dest)
        (.str (getFullPath stem ++ WILDCARD_SUFFIX)) priority =
      applyWildcard fuel devNode (getFullPath stem ++ WILDCARD_SUFFIX)
        (wildcardFunctor codec devNode dest priority) := by
  have hwildcard : doesPathContainWildcard (getFullPath stem ++ WILDCARD_SUFFIX) = true := by
    simp [doesPathContainWildcard]
  have hpath := isPathAbsolute_getFullPath dest []
  rw [List.append_nil] at hpath
  rw [processEntry_eq, hpath]
  simp only [Bool.not_true, Bool.and_false, Bool.false_eq_true, ↓reduceIte]
  show processSource codec opts devNode fuel (getFullPath dest)
    ⟨.str (getFullPath stem ++ WILDCARD_SUFFIX), true⟩ priority = _
  have hleaf : ParsedAlias.getLeaf ⟨.str (getFullPath stem ++ WILDCARD_SUFFIX), true⟩ =
      getFullPath stem ++ WILDCARD_SUFFIX := rfl
  rw [processSource, hleaf, isPathAbsolute_getFullPath, hwildcard]
  simp only [Bool.not_true, Bool.and_false, Bool.false_eq_true, ↓reduceIte, copiedSource]
  rfl

theorem getFullPath_ne_priority (node : NodePath) : getFullPath node ≠ PRIORITY_KEY := by
  intro hequal
  have hhead := getFullPath_head node
  rw [hequal] at hhead
  cases hhead

theorem index_wildcardAlias (dest stem : NodePath) :
    (wildcardAlias dest stem).index (getFullPath dest) =
      .ok (.str (getFullPath stem ++ WILDCARD_SUFFIX)) := by
  simp [wildcardAlias, Json.index, Json.member?, Except.map]

/-- The description of one wildcard does not end when its traversal does not. -/
theorem process_wildcardAlias (opts : AliasProcessorOptions) (fuel : ℕ) {tree : PathTree}
    (hnode : (tree.value? devNode).isSome = true) (dest stem : NodePath)
    (hends : ((NamedTree.traverse (visitWildcard
      (wildcardFunctor codec devNode dest opts.defaultPriority) stem) fuel stem).run
        (tree.touch stem)).1 = .error .outOfFuel) :
    ((opts.process codec (fun _ => true) fuel devNode (wildcardAlias dest stem)).run tree).1 =
      .error .outOfFuel := by
  have hkey := getFullPath_ne_priority dest
  have hpriority : objectPriority opts (wildcardAlias dest stem) = .ok opts.defaultPriority := by
    have hmember : (wildcardAlias dest stem).member? PRIORITY_KEY = .ok none := by
      simp [wildcardAlias, Json.member?, Json.lookup_cons, Ne.symm hkey]
    rw [objectPriority, hmember]
    rfl
  have hlocated : locate devNode (wildcardStem (getFullPath stem ++ WILDCARD_SUFFIX)) =
      ⟨stem, none⟩ := by
    rw [wildcardStem_append, locate_getFullPath]
  show ((processObject codec opts (fun _ => true) devNode fuel
    (wildcardAlias dest stem)).run tree).1 = _
  rw [processObject, hpriority, Program.run_bind_of_ok (TreeProgram.run_ofJson_ok tree _)]
  show ((processMembers codec opts (fun _ => true) devNode fuel (wildcardAlias dest stem)
    opts.defaultPriority [getFullPath dest]).run tree).1 = _
  rw [processMembers, if_neg (Ne.symm hkey), index_wildcardAlias]
  show (((processEntry codec opts devNode fuel (getFullPath dest)
    (.str (getFullPath stem ++ WILDCARD_SUFFIX)) opts.defaultPriority) >>= _).run tree).1 = _
  refine Program.fst_run_bind_of_error ?_
  rw [processEntry_wildcardAlias, run_applyWildcard_of_located hnode hlocated]
  exact hends

/-- After a plan with an alias its node has an element. -/
theorem element_execute_ne_null {plan : AliasPlan} {target : NodePath} {source : Str}
    (houtcome : plan.outcome = .ok (some (target, source))) (priority : AliasPriority)
    (tree : PathTree) :
    PathTree.element (plan.execute priority tree).2 target ≠ .nullElement := by
  simp only [AliasPlan.execute, houtcome]
  split
  · rw [PathTree.element_set, if_pos rfl]
    simp
  next hneeds =>
    rw [PathTree.element_touchAll]
    intro hnull
    simp [hnull, aliasNeedsUpdate] at hneeds

/-- The traversal for a wildcard whose aliases go below its own stem never ends
when the stem has an element. -/
theorem traverse_below_stem (hstem : stem ≠ []) {tree : PathTree}
    (hnode : (tree.value? devNode).isSome = true) (helement : tree.element stem ≠ .nullElement)
    (hparse : ∀ below, codec.parse (getFullPath (stem ++ below)) = none) (priority : AliasPriority)
    (fuel : ℕ) :
    ((NamedTree.traverse (visitWildcard
      (wildcardFunctor codec devNode (stem ++ name :: rest) priority) stem) fuel stem).run tree).1 =
        .error .outOfFuel := by
  let visit := visitWildcard (wildcardFunctor codec devNode (stem ++ name :: rest) priority) stem
  let Marked (tree : PathTree) (node : NodePath) : Prop :=
    (∃ n, node = copies stem (name :: rest) n) ∧ tree.element node ≠ .nullElement
  have hdest : stem ++ name :: rest ≠ [] := by simp
  have hrun {state : PathTree} (hgrows : NamedTree.Grows tree state) (below : NodePath)
      (hvalue : state.element (stem ++ below) ≠ .nullElement) :
      (visit (stem ++ below)).run state =
        AliasPlan.execute ⟨[stem ++ name :: rest ++ below],
          .ok (some (stem ++ name :: rest ++ below, getFullPath (stem ++ below)))⟩
            priority state := by
    have hplan := run_addAliasFromSourceAndRelativeDest codec state devNode
      (hgrows.isSome_value? hnode) (getFullPath (stem ++ below))
      (getFullPath (stem ++ name :: rest) ++ '/' :: relativePath stem (stem ++ below)) priority
    simp only [visit, visitWildcard]
    rw [Program.run_bind_of_ok (TreeProgram.run_valueAt state _), if_neg (by simpa using hvalue)]
    have hcopy := copyPlan_getFullPath devNode hstem hdest below (hparse below) []
    rw [copyPlan, copiedSource, if_pos rfl] at hcopy
    exact hplan.trans (by rw [hcopy])
  have hskip {state : PathTree} {node : NodePath} (hvalue : state.element node = .nullElement) :
      (visit node).run state = (.ok false, state) := by
    simp only [visit, visitWildcard]
    rw [Program.run_bind_of_ok (TreeProgram.run_valueAt state _), if_pos (by simpa using hvalue)]
    rfl
  have hgrow : ∀ node, Program.Relates NamedTree.Grows (visit node) :=
    grows_visitEntries codec devNode _ _ _ stem
  have hkeep : ∀ node, Program.Relates (fun before after => ∀ marked, Marked before marked →
      Marked after marked) (visit node) := by
    intro node
    refine relates_visitWildcard (fun _ _ h => h)
      (fun _ _ _ h h' marked hm => h' marked (h marked hm))
      (fun _ _ => relates_processSingleEntry codec devNode (fun _ _ h => h)
        (fun _ _ _ h h' marked hm => h' marked (h marked hm)) ?_ ?_ _ _ _) stem node
    · exact fun state path marked hm => ⟨hm.1, by rw [PathTree.element_touch]; exact hm.2⟩
    · intro state path source prio marked hm
      refine ⟨hm.1, ?_⟩
      rw [PathTree.element_set]
      split
      · simp
      · exact hm.2
  have hvisit : NamedTree.VisitRule visit tree (fun _ _ => True) (fun _ => False) (· ≠ .outOfFuel)
      stem := by
    refine ⟨fun {state node _} _ _ _ _ _ => ⟨hgrow node state, fun _ _ _ => .inr (.inl trivial)⟩,
      ?_, fun _ _ _ _ h => h.elim, False.elim⟩
    intro state node value hbelow hgrows _ _ reason hreason
    obtain ⟨below, rfl⟩ := hbelow
    by_cases hnull : PathTree.element state (stem ++ below) = .nullElement
    · simp [hskip hnull] at hreason
    · rw [hrun hgrows below hnull] at hreason
      obtain ⟨error, herror, -⟩ := AliasPlan.execute_eq_error hreason
      simp at herror
  have hexists : ∀ {state : PathTree} {node}, Marked state node →
      (state.value? node).isSome = true := by
    rintro state node ⟨-, hvalue⟩
    by_contra hnone
    simp [PathTree.element, Option.not_isSome_iff_eq_none.mp hnone,
      PathElement.default_eq] at hvalue
  refine (NamedTree.traverse_outOfFuel hvisit hgrow hexists hkeep ?_ fuel).1 stem tree
    List.prefix_rfl (.refl tree) ⟨stem, List.prefix_rfl, ⟨0, by simp [copies]⟩, helement⟩
  · rintro state node - hgrows ⟨⟨n, rfl⟩, hvalue⟩
    have hnext : copies stem (name :: rest) (n + 1) =
        stem ++ name :: rest ++ (List.replicate n (name :: rest)).flatten := by
      simp [copies, List.replicate_succ]
    refine ⟨name, copies stem (name :: rest) (n + 1), ?_, ⟨n + 1, rfl⟩, ?_⟩
    · rw [copies_succ]
      exact ⟨rest, by simp⟩
    · rw [copies, hrun hgrows _ hvalue, hnext]
      exact element_execute_ne_null rfl priority state

/-- A wildcard between two subtrees of which none contains the other is bounded. -/
theorem wildcardAlias_meets (opts : AliasProcessorOptions) (readable : PathTree → Bool)
    (tree : PathTree) {dest : NodePath} (hstem : stem ≠ []) (hdest : dest ≠ [])
    (habove : ¬ dest <+: stem) (hbelow : ¬ stem <+: dest)
    (hparse : ∀ below, codec.parse (getFullPath (stem ++ below)) = none) :
    EntriesMeet codec opts readable devNode (fun _ => True) (Bounded codec opts devNode)
      (wildcardAlias dest stem) tree := by
  have hbounded : Bounded codec opts devNode tree (getFullPath dest)
      (.str (getFullPath stem ++ WILDCARD_SUFFIX)) := by
    intro _ parsedSource hparsed _ _ start hstart
    obtain rfl := (Except.ok.inj hparsed).symm
    obtain rfl : start = stem := by
      have hlocated : locate devNode (wildcardStem (getFullPath stem ++ WILDCARD_SUFFIX)) =
          ⟨start, none⟩ := hstart
      rw [wildcardStem_append, locate_getFullPath] at hlocated
      exact (Located.mk.inj hlocated).1.symm
    -- no alias goes below the stem, so only what was there is copied
    refine (((tree.touch start).entries.map Prod.fst).toFinset.finite_toSet).subset ?_
    intro node hcopied
    rw [Finset.mem_coe, List.mem_toFinset]
    cases hcopied with
    | original _ found _ => exact List.mem_map_of_mem (NamedTree.mem_entries_of_value? found)
    | copy prior _ planned below _ =>
        obtain ⟨rest, rfl⟩ := prior.within
        rw [copyPlan_getFullPath devNode hstem hdest rest (hparse rest)] at planned
        obtain ⟨rfl, -⟩ : dest ++ rest = node ∧ _ := by simpa using planned
        rcases List.prefix_or_prefix_of_prefix below (List.prefix_append dest rest) with h | h
        · exact absurd h hbelow
        · exact absurd h habove
  refine ⟨fun _ _ => trivial, fun priority keys _ hkeys => ?_⟩
  obtain rfl : keys = [getFullPath dest] := (Except.ok.inj hkeys).symm
  rw [MembersMeet, if_neg (Ne.symm (getFullPath_ne_priority dest))]
  refine ⟨fun _ => trivial, fun source hsource => ?_⟩
  obtain rfl : .str (getFullPath stem ++ WILDCARD_SUFFIX) = source := by
    exact Except.ok.inj ((index_wildcardAlias dest stem).symm.trans hsource)
  exact ⟨hbounded, fun _ _ _ _ => trivial⟩

end BelowStem

/-- A sensor at `/a`. -/
def sensorTree : PathTree := PathTree.empty.set [⟨['a'], by decide⟩] .sensorElement

/-- The description that makes aliases below `/a/d` for all of `/a` is never done. -/
theorem process_sensorTree_never_ends :
    ¬ ∀ (opts : AliasProcessorOptions) (codec : JsonCodec) (tree : PathTree) (node : NodePath)
      (val : Json), (tree.value? node).isSome = true →
        Program.Ends (fun fuel => opts.process codec (fun _ => true) fuel node val) tree := by
  intro hall
  let codec : JsonCodec := ⟨fun _ => none, fun _ => [], fun _ => [], fun _ => []⟩
  let a : PathName := ⟨['a'], by decide⟩
  let d : PathName := ⟨['d'], by decide⟩
  have hsensor : PathTree.element (sensorTree.touch [a]) [a] ≠ .nullElement := by decide
  obtain ⟨fuel, hfuel⟩ := hall {} codec sensorTree [] (wildcardAlias ([a] ++ [d]) [a]) rfl
  have hends : ((NamedTree.traverse (visitWildcard
      (wildcardFunctor codec [] ([a] ++ [d]) ALIASPRIORITY_AUTOMATIC) [a]) fuel [a]).run
        (sensorTree.touch [a])).1 = .error .outOfFuel :=
    traverse_below_stem (by simp) rfl hsensor (fun _ => rfl) ALIASPRIORITY_AUTOMATIC fuel
  exact hfuel (process_wildcardAlias {} fuel rfl _ _ hends)

/-- The description that makes aliases below `/m` for all of `/a` is done. -/
theorem process_sensorTree_ends :
    Program.Ends (fun fuel => AliasProcessorOptions.process {}
      ⟨fun _ => none, fun _ => [], fun _ => [], fun _ => []⟩ (fun _ => true) fuel []
      (wildcardAlias [⟨['m'], by decide⟩] [⟨['a'], by decide⟩])) sensorTree :=
  (AliasProcessorOptions.process_ends {} _ _ sensorTree [] rfl _).1
    (wildcardAlias_meets {} _ sensorTree (by simp) (by simp) (by decide) (by decide) fun _ => rfl)

end OSVR.Common
