/-
# What an alias description changes

Lookups create nodes without an element, which are not written when the tree is
sent. A description that reports no change has done nothing else, and then every
alias it asks for was there before.
-/

import OsvrCore.Common.AliasTermination
import OsvrCore.Common.PathTreeSerialization

set_option autoImplicit false

namespace OSVR.Common

open Math

/-- From one tree to another, only nodes without an element have been created. -/
structure Unchanged (before after : PathTree) : Prop where
  grows : NamedTree.Grows before after
  element : ∀ node, after.element node = before.element node
  written : pathTreeToJson after false = pathTreeToJson before false

namespace Unchanged

theorem refl (tree : PathTree) : Unchanged tree tree := ⟨.refl tree, fun _ => rfl, rfl⟩

theorem trans ⦃first second third : PathTree⦄ (h : Unchanged first second)
    (h' : Unchanged second third) : Unchanged first third :=
  ⟨h.grows.trans h'.grows, fun node => (h'.element node).trans (h.element node),
    h'.written.trans h.written⟩

theorem touch (tree : PathTree) (path : NodePath) : Unchanged tree (tree.touch path) := by
  refine ⟨.touch tree path, tree.element_touch path, ?_⟩
  rw [pathTreeToJson, tree.filter_entries_touch (keeps false) rfl, pathTreeToJson]

theorem touchAll (tree : PathTree) (paths : List NodePath) :
    Unchanged tree (tree.touchAll paths) := by
  induction paths generalizing tree with
  | nil => exact .refl tree
  | cons path paths ih => exact (touch tree path).trans (ih _)

end Unchanged

namespace AliasPlan

variable {plan : AliasPlan} {priority : AliasPriority} {tree after : PathTree}

/-- A plan has nothing to do: its alias needs no update. -/
def Quiet (plan : AliasPlan) (priority : AliasPriority) (tree : PathTree) : Prop :=
  ∀ target source, plan.outcome = .ok (some (target, source)) →
    aliasNeedsUpdate (tree.element target) source priority = false

theorem Quiet.of_unchanged (hunchanged : Unchanged tree after) (h : plan.Quiet priority after) :
    plan.Quiet priority tree := by
  intro target source houtcome
  rw [← hunchanged.element target]
  exact h target source houtcome

/-- A plan that reports no change had nothing to do. -/
theorem execute_eq_false (h : plan.execute priority tree = (.ok false, after)) :
    Unchanged tree after ∧ plan.Quiet priority tree := by
  have hfound := Unchanged.touchAll tree plan.lookups
  unfold execute at h
  rcases houtcome : plan.outcome with error | _ | ⟨target, source⟩ <;> simp only [houtcome] at h
  · cases h
  · obtain rfl := (Prod.mk.inj h).2
    refine ⟨hfound, fun target source halias => ?_⟩
    rw [houtcome] at halias
    cases halias
  · split at h
    · cases h
    next hneeds =>
      obtain rfl := (Prod.mk.inj h).2
      refine ⟨hfound, fun target' source' halias => ?_⟩
      rw [houtcome] at halias
      cases halias
      simpa using hneeds

/-- A plan that fails has only looked up nodes. -/
theorem unchanged_of_execute_error {reason : Abort TreeError}
    (h : plan.execute priority tree = (.error reason, after)) : Unchanged tree after := by
  have hfound := Unchanged.touchAll tree plan.lookups
  unfold execute at h
  rcases houtcome : plan.outcome with error | _ | ⟨target, source⟩ <;> simp only [houtcome] at h
  · obtain rfl := (Prod.mk.inj h).2
    exact hfound
  · cases h
  · split at h <;> cases h

end AliasPlan

namespace AutomaticAliases

variable {codec : JsonCodec} {opts : AliasProcessorOptions} {readable : PathTree → Bool}
  {devNode : NodePath} {tree after : PathTree}

/-! ## Reporting no change -/

section Silent

theorem relates_treePathRetrieve_unchanged (node : NodePath) (path : Str) :
    Program.Relates Unchanged (treePathRetrieve node path false) :=
  relates_treePathRetrieve Unchanged.refl Unchanged.trans Unchanged.touch node path false

/-- An alias request that reports no change has only looked up nodes, also where
its start node does not exist. -/
theorem processSingleEntry_silent (path source : Str) (priority : AliasPriority)
    (hrun : (processSingleEntry codec devNode path source priority).run tree = (.ok false, after)) :
    Unchanged tree after := by
  have hretrieve := relates_treePathRetrieve_unchanged devNode
  obtain ⟨aliasNode, middle, hnode, hrest⟩ := Program.run_bind_eq_ok_iff.mp hrun
  have hfirst : Unchanged tree middle := by simpa [hnode] using hretrieve path tree
  obtain ⟨newSource, middle', hparse, hadd⟩ := Program.run_bind_eq_ok_iff.mp hrest
  obtain rfl := (ofJson_eq_ok hparse).2
  refine hfirst.trans ?_
  split at hadd
  · obtain rfl := (Prod.mk.inj hadd).2
    exact .refl _
  · obtain ⟨absSource, last, habsolute, himpl⟩ := Program.run_bind_eq_ok_iff.mp hadd
    have hsecond : Unchanged middle' last := by
      unfold getAbsolutePath at habsolute
      split at habsolute
      · obtain rfl := (Prod.mk.inj habsolute).2
        exact .refl _
      · obtain ⟨reached, last', hreached, hpure⟩ := Program.run_bind_eq_ok_iff.mp habsolute
        obtain rfl := (Prod.mk.inj hpure).2
        simpa [hreached] using hretrieve newSource.getLeaf middle'
    rw [run_addAliasImpl] at himpl
    split at himpl
    · cases himpl
    · obtain rfl := (Prod.mk.inj himpl).2
      exact hsecond

theorem visitWildcard_silent {functor : NodePath → Str → TreeProgram Bool}
    (hfunctor : ∀ node relPath (before after : PathTree),
      (functor node relPath).run before = (.ok false, after) → Unchanged before after)
    (start node : NodePath)
    (hrun : (visitWildcard functor start node).run tree = (.ok false, after)) :
    Unchanged tree after := by
  rw [visitWildcard, Program.run_bind_of_ok (TreeProgram.run_valueAt tree node)] at hrun
  split at hrun
  · obtain rfl := (Prod.mk.inj hrun).2
    exact .refl _
  · exact hfunctor _ _ _ _ hrun

/-- Nothing the source of an entry asks for needs an update. -/
def SourceQuiet (codec : JsonCodec) (devNode : NodePath) (priority : AliasPriority)
    (tree : PathTree) (path : Str) (parsedSource : ParsedAlias) : Prop :=
  if doesPathContainWildcard parsedSource.getLeaf = true then
    ∀ start node, locate devNode (wildcardStem parsedSource.getLeaf) = ⟨start, none⟩ →
      start <+: node → tree.element node ≠ .nullElement →
      (copyPlan codec devNode path parsedSource start node).Quiet priority tree
  else (planAlias codec devNode (parsedSource.getAlias codec) path).Quiet priority tree

/-- An entry is passed over, or nothing it asks for needs an update. -/
def EntryQuiet (codec : JsonCodec) (opts : AliasProcessorOptions) (devNode : NodePath)
    (priority : AliasPriority) (tree : PathTree) (path : Str) (source : Json) : Prop :=
  (opts.permitRelativePath || isPathAbsolute path) = true →
    ∀ parsedSource, ParsedAlias.parseValue codec source = .ok parsedSource →
      (opts.permitRelativeSource || isPathAbsolute parsedSource.getLeaf) = true →
      SourceQuiet codec devNode priority tree path parsedSource

theorem EntryQuiet.of_unchanged {priority : AliasPriority} {path : Str} {source : Json}
    (hunchanged : Unchanged tree after)
    (h : EntryQuiet codec opts devNode priority after path source) :
    EntryQuiet codec opts devNode priority tree path source := by
  intro hpath parsedSource hparse hleaf
  have hquiet := h hpath parsedSource hparse hleaf
  unfold SourceQuiet at hquiet ⊢
  split at hquiet
  next hwildcard =>
    rw [if_pos hwildcard]
    intro start node hstart hbelow helement
    exact (hquiet start node hstart hbelow (by rwa [hunchanged.element])).of_unchanged hunchanged
  next hsingle =>
    rw [if_neg hsingle]
    exact hquiet.of_unchanged hunchanged

/-- A wildcard that reports no change has visited every node with an element, and
every alias was there. -/
theorem applyWildcard_silent (hnode : (tree.value? devNode).isSome = true) {fuel : ℕ} {path : Str}
    {parsedSource : ParsedAlias} {priority : AliasPriority}
    (hrun : (applyWildcard fuel devNode parsedSource.getLeaf fun node relPath =>
      processSingleEntry codec devNode (path ++ '/' :: relPath)
        (copiedSource codec parsedSource node) priority).run tree = (.ok false, after)) :
    Unchanged tree after ∧
      ∀ start node, locate devNode (wildcardStem parsedSource.getLeaf) = ⟨start, none⟩ →
        start <+: node → tree.element node ≠ .nullElement →
        (copyPlan codec devNode path parsedSource start node).Quiet priority tree := by
  rcases hlocated : locate devNode (wildcardStem parsedSource.getLeaf) with ⟨start, _ | error⟩
  · rw [run_applyWildcard_of_located hnode hlocated] at hrun
    let functor (node : NodePath) (relPath : Str) : TreeProgram Bool :=
      processSingleEntry codec devNode (path ++ '/' :: relPath)
        (copiedSource codec parsedSource node) priority
    have hvisit (node : NodePath) (state state' : PathTree)
        (h : (visitWildcard functor start node).run state = (.ok false, state')) :
        Unchanged state state' :=
      visitWildcard_silent (fun _ _ _ _ => processSingleEntry_silent _ _ priority) start node h
    have hgrow (node : NodePath) :
        Program.Relates NamedTree.Grows (visitWildcard functor start node) :=
      grows_visitEntries codec devNode _ _ priority start node
    have hsilent : Program.Accounts Unchanged (fun _ => False) (fun _ => True)
        (NamedTree.traverse (visitWildcard functor start) fuel start) (tree.touch start) :=
      (NamedTree.accounts_traverse Unchanged.refl Unchanged.trans
        (fun node state => ⟨hvisit node state, fun _ _ _ h => h.elim⟩) id fuel).1 start _
    have hfirst := Unchanged.touch tree start
    refine ⟨hfirst.trans (hsilent.silent after hrun), fun start' node hstart hbelow helement => ?_⟩
    obtain rfl : start = start' := (Located.mk.inj hstart).1
    have hthere : ((tree.touch start).value? node).isSome = true :=
      hfirst.grows.isSome_value? (isSome_value?_of_element helement)
    obtain ⟨before, later, hbefore, hvisited⟩ := (NamedTree.visited_of_traverse Unchanged.refl
      Unchanged.trans hgrow hvisit fuel).1 start (tree.touch start) after hrun node hbelow hthere
    have hsame : Unchanged tree before := hfirst.trans hbefore
    rw [visitWildcard, Program.run_bind_of_ok (TreeProgram.run_valueAt before node),
      if_neg (by simpa [hsame.element] using helement)] at hvisited
    have hplan := run_addAliasFromSourceAndRelativeDest codec before devNode
      (hsame.grows.isSome_value? hnode) (copiedSource codec parsedSource node)
      (path ++ '/' :: relativePath start node) priority
    exact (AliasPlan.execute_eq_false (hplan.symm.trans hvisited)).2.of_unchanged hsame
  · rw [run_applyWildcard_of_failure hnode hlocated] at hrun
    cases hrun

/-- The source of an entry that reports no change had nothing to do. -/
theorem processSource_silent (hnode : (tree.value? devNode).isSome = true) {fuel : ℕ} {path : Str}
    {parsedSource : ParsedAlias} {priority : AliasPriority}
    (hrun : (processSource codec opts devNode fuel path parsedSource priority).run tree =
      (.ok false, after)) :
    Unchanged tree after ∧
      ((opts.permitRelativeSource || isPathAbsolute parsedSource.getLeaf) = true →
        SourceQuiet codec devNode priority tree path parsedSource) := by
  unfold processSource at hrun
  split at hrun
  next hleaf =>
    obtain rfl := (Prod.mk.inj hrun).2
    refine ⟨.refl _, fun hpermitted => ?_⟩
    simp only [Bool.and_eq_true, Bool.not_eq_true'] at hleaf
    simp [hleaf] at hpermitted
  next =>
    split at hrun
    next hsingle =>
      have hplan := run_addAliasFromSourceAndRelativeDest codec tree devNode hnode
        (parsedSource.getAlias codec) path priority
      obtain ⟨hsame, hquiet⟩ := AliasPlan.execute_eq_false (hplan.symm.trans hrun)
      refine ⟨hsame, fun _ => ?_⟩
      rwa [SourceQuiet, if_neg (by simpa using hsingle)]
    next hwildcard =>
      obtain ⟨hsame, hquiet⟩ := applyWildcard_silent hnode hrun
      refine ⟨hsame, fun _ => ?_⟩
      rwa [SourceQuiet, if_pos (by simpa using hwildcard)]

/-- An entry that reports no change had nothing to do. -/
theorem processEntry_silent (hnode : (tree.value? devNode).isSome = true) {fuel : ℕ} {path : Str}
    {source : Json} {priority : AliasPriority}
    (hrun : (processEntry codec opts devNode fuel path source priority).run tree =
      (.ok false, after)) :
    Unchanged tree after ∧ EntryQuiet codec opts devNode priority tree path source := by
  rw [processEntry_eq] at hrun
  split at hrun
  next hpath =>
    obtain rfl := (Prod.mk.inj hrun).2
    refine ⟨.refl _, fun hpermitted => ?_⟩
    simp only [Bool.and_eq_true, Bool.not_eq_true'] at hpath
    simp [hpath] at hpermitted
  next =>
    obtain ⟨parsedSource, middle, hparse, hrest⟩ := Program.run_bind_eq_ok_iff.mp hrun
    obtain ⟨hsource, rfl⟩ := ofJson_eq_ok hparse
    obtain ⟨hsame, hquiet⟩ := processSource_silent hnode hrest
    refine ⟨hsame, fun _ parsedSource' hsource' => ?_⟩
    obtain rfl := Except.ok.inj (hsource.symm.trans hsource')
    exact hquiet

/-- Nothing the entries of an object ask for needs an update. -/
def ObjectQuiet (codec : JsonCodec) (opts : AliasProcessorOptions) (devNode : NodePath)
    (tree : PathTree) (obj : Json) : Prop :=
  ∀ priority keys, objectPriority opts obj = .ok priority → obj.getMemberNames = .ok keys →
    ∀ key ∈ keys, PRIORITY_KEY ≠ key → ∀ source, obj.index key = .ok source →
      EntryQuiet codec opts devNode priority tree key source

/-- Nothing an alias description asks for needs an update. -/
def DescriptionQuiet (codec : JsonCodec) (opts : AliasProcessorOptions) (devNode : NodePath)
    (tree : PathTree) (val : Json) : Prop :=
  match val with
  | .arr items =>
      ∀ elt ∈ items, elt.isObject = true → ObjectQuiet codec opts devNode tree elt
  | .obj members => ObjectQuiet codec opts devNode tree (.obj members)
  | .null | .bool _ | .int _ | .real _ | .str _ => True

theorem ObjectQuiet.of_unchanged {obj : Json} (hunchanged : Unchanged tree after)
    (h : ObjectQuiet codec opts devNode after obj) : ObjectQuiet codec opts devNode tree obj :=
  fun priority keys hpriority hkeys key hkey hname source hsource =>
    (h priority keys hpriority hkeys key hkey hname source hsource).of_unchanged hunchanged

theorem DescriptionQuiet.of_unchanged {val : Json} (hunchanged : Unchanged tree after)
    (h : DescriptionQuiet codec opts devNode after val) :
    DescriptionQuiet codec opts devNode tree val := by
  cases val with
  | arr items => exact fun elt helt hobject => (h elt helt hobject).of_unchanged hunchanged
  | obj members => exact ObjectQuiet.of_unchanged hunchanged h
  | null | bool _ | int _ | real _ | str _ => trivial

theorem processMembers_silent (hnode : (tree.value? devNode).isSome = true) {fuel : ℕ} {obj : Json}
    {priority : AliasPriority} {keys : List Str}
    (hrun : (processMembers codec opts readable devNode fuel obj priority keys).run tree =
      (.ok false, after)) :
    Unchanged tree after ∧ ∀ key ∈ keys, PRIORITY_KEY ≠ key → ∀ source, obj.index key = .ok source →
      EntryQuiet codec opts devNode priority tree key source := by
  induction keys generalizing tree with
  | nil =>
      obtain rfl := (Prod.mk.inj hrun).2
      exact ⟨.refl _, fun key hkey => by cases hkey⟩
  | cons first keys ih =>
      rw [processMembers] at hrun
      split at hrun
      next hpriority =>
        obtain ⟨hsame, hquiet⟩ := ih hnode hrun
        refine ⟨hsame, fun key hkey hname => ?_⟩
        rcases List.mem_cons.mp hkey with rfl | hkey
        · exact absurd hpriority hname
        · exact hquiet key hkey hname
      next =>
        obtain ⟨_, middle, hcheck, hrest⟩ := Program.run_bind_eq_ok_iff.mp hrun
        obtain rfl := checkReadable_eq_ok hcheck
        obtain ⟨source, middle', hindex, hentry⟩ := Program.run_bind_eq_ok_iff.mp hrest
        obtain ⟨hsource, rfl⟩ := ofJson_eq_ok hindex
        obtain ⟨last, hfirst, hothers⟩ := Program.run_or_eq_false.mp hentry
        obtain ⟨hsame, hquiet⟩ := processEntry_silent hnode hfirst
        obtain ⟨hsame', hquiet'⟩ := ih (hsame.grows.isSome_value? hnode) hothers
        refine ⟨hsame.trans hsame', fun key hkey hname source' hsource' => ?_⟩
        rcases List.mem_cons.mp hkey with rfl | hkey
        · obtain rfl := Except.ok.inj (hsource.symm.trans hsource')
          exact hquiet
        · exact (hquiet' key hkey hname source' hsource').of_unchanged hsame

theorem processObject_silent (hnode : (tree.value? devNode).isSome = true) {fuel : ℕ} {obj : Json}
    (hrun : (processObject codec opts readable devNode fuel obj).run tree = (.ok false, after)) :
    Unchanged tree after ∧ ObjectQuiet codec opts devNode tree obj := by
  obtain ⟨priority, middle, hfirst, hrest⟩ := Program.run_bind_eq_ok_iff.mp hrun
  obtain ⟨hpriority, rfl⟩ := ofJson_eq_ok hfirst
  obtain ⟨keys, middle', hsecond, hmembers⟩ := Program.run_bind_eq_ok_iff.mp hrest
  obtain ⟨hkeys, rfl⟩ := ofJson_eq_ok hsecond
  obtain ⟨hsame, hquiet⟩ := processMembers_silent hnode hmembers
  refine ⟨hsame, fun priority' keys' hpriority' hkeys' => ?_⟩
  obtain rfl := Except.ok.inj (hpriority.symm.trans hpriority')
  obtain rfl := Except.ok.inj (hkeys.symm.trans hkeys')
  exact hquiet

theorem processArray_silent (hnode : (tree.value? devNode).isSome = true) {fuel : ℕ}
    {items : List Json}
    (hrun : (processArray codec opts readable devNode fuel items).run tree = (.ok false, after)) :
    Unchanged tree after ∧
      ∀ elt ∈ items, elt.isObject = true → ObjectQuiet codec opts devNode tree elt := by
  induction items generalizing tree with
  | nil =>
      obtain ⟨_, middle, hcheck, hrest⟩ := Program.run_bind_eq_ok_iff.mp hrun
      obtain rfl := checkReadable_eq_ok hcheck
      obtain rfl := (Prod.mk.inj hrest).2
      exact ⟨.refl _, fun elt helt => by cases helt⟩
  | cons first rest ih =>
      obtain ⟨_, middle, hcheck, hrest⟩ := Program.run_bind_eq_ok_iff.mp hrun
      obtain rfl := checkReadable_eq_ok hcheck
      obtain ⟨last, hfirst, hothers⟩ := Program.run_or_eq_false.mp hrest
      have helement : Unchanged middle last ∧
          (first.isObject = true → ObjectQuiet codec opts devNode middle first) := by
        unfold processElement at hfirst
        split at hfirst
        next =>
          obtain ⟨hsame, hquiet⟩ := processObject_silent hnode hfirst
          exact ⟨hsame, fun _ => hquiet⟩
        next hobject =>
          obtain rfl := (Prod.mk.inj hfirst).2
          exact ⟨.refl _, fun h => absurd h hobject⟩
      obtain ⟨hsame, hquiet⟩ := helement
      obtain ⟨hsame', hquiet'⟩ := ih (hsame.grows.isSome_value? hnode) hothers
      refine ⟨hsame.trans hsame', fun elt helt hobject => ?_⟩
      rcases List.mem_cons.mp helt with rfl | helt
      · exact hquiet hobject
      · exact (hquiet' elt helt hobject).of_unchanged hsame

/-- A description that reports no change had nothing to do. -/
theorem process_silent (hnode : (tree.value? devNode).isSome = true) {fuel : ℕ} {val : Json}
    (hrun : (opts.process codec readable fuel devNode val).run tree = (.ok false, after)) :
    Unchanged tree after ∧ DescriptionQuiet codec opts devNode tree val := by
  cases val with
  | arr items => exact processArray_silent hnode hrun
  | obj members => exact processObject_silent hnode hrun
  | null | bool _ | int _ | real _ | str _ =>
      obtain rfl := (Prod.mk.inj hrun).2
      exact ⟨.refl _, trivial⟩

end Silent

/-! ## Failing -/

section Spared

variable (codec : JsonCodec) (opts : AliasProcessorOptions) (devNode : NodePath)
  (spared : PathTree → Prop)

/-- The aliases of a source only fail where the tree is spared. The aliases of a
wildcard do not fail, or all of them do, so that the first one does. -/
def SourceSpared (tree : PathTree) (path : Str) (parsedSource : ParsedAlias) : Prop :=
  if doesPathContainWildcard parsedSource.getLeaf = true then
    (∀ start error, locate devNode (wildcardStem parsedSource.getLeaf) = ⟨start, some error⟩ →
        spared tree) ∧
      ∀ start, locate devNode (wildcardStem parsedSource.getLeaf) = ⟨start, none⟩ →
        (∀ node error, Copied (tree.touch start) start
            (copyPlan codec devNode path parsedSource start) node →
            (copyPlan codec devNode path parsedSource start node).outcome ≠ .error error) ∨
          spared tree ∧
            ∀ node, ∃ error, (copyPlan codec devNode path parsedSource start node).outcome =
              .error error
  else ∀ error,
    (planAlias codec devNode (parsedSource.getAlias codec) path).outcome =
      .error error → spared tree

/-- An entry only fails where the tree is spared. -/
def EntrySpared (tree : PathTree) (path : Str) (source : Json) : Prop :=
  (opts.permitRelativePath || isPathAbsolute path) = true →
    (∀ error, ParsedAlias.parseValue codec source = .error error → spared tree) ∧
      ∀ parsedSource, ParsedAlias.parseValue codec source = .ok parsedSource →
        (opts.permitRelativeSource || isPathAbsolute parsedSource.getLeaf) = true →
        SourceSpared codec devNode spared tree path parsedSource

variable {codec opts devNode spared} (hstable : ∀ ⦃before after⦄, Unchanged before after →
  spared before → spared after)

include hstable

theorem applyWildcard_spared (hnode : (tree.value? devNode).isSome = true) {fuel : ℕ} {path : Str}
    {parsedSource : ParsedAlias} {priority : AliasPriority} {reason : Abort TreeError}
    (hwildcard : doesPathContainWildcard parsedSource.getLeaf = true)
    (hspared : SourceSpared codec devNode spared tree path parsedSource)
    (hrun : (applyWildcard fuel devNode parsedSource.getLeaf fun node relPath =>
      processSingleEntry codec devNode (path ++ '/' :: relPath)
        (copiedSource codec parsedSource node) priority).run tree = (.error reason, after))
    (hreason : reason ≠ .outOfFuel) : spared after := by
  rw [SourceSpared, if_pos hwildcard] at hspared
  obtain ⟨hfailed, hcopies⟩ := hspared
  rcases hlocated : locate devNode (wildcardStem parsedSource.getLeaf) with ⟨start, _ | error⟩
  · rw [run_applyWildcard_of_located hnode hlocated] at hrun
    have hfirst := Unchanged.touch tree start
    let functor (node : NodePath) (relPath : Str) : TreeProgram Bool :=
      processSingleEntry codec devNode (path ++ '/' :: relPath)
        (copiedSource codec parsedSource node) priority
    have hplan {state : PathTree} {node : NodePath}
        (hgrows : NamedTree.Grows (tree.touch start) state) :
        (functor node (relativePath start node)).run state =
          (copyPlan codec devNode path parsedSource start node).execute priority state :=
      run_addAliasFromSourceAndRelativeDest codec _ devNode
        ((hfirst.grows.trans hgrows).isSome_value? hnode) _ _ priority
    rcases hcopies start hlocated with hnone | ⟨hspared, hall⟩
    · -- no visit fails, so the traversal can only run out of fuel
      have hrule : NamedTree.VisitRule (visitWildcard functor start) (tree.touch start)
          (WildcardExpected (tree.touch start) start
            (copyPlan codec devNode path parsedSource start))
          (Throwing (tree.touch start) start (copyPlan codec devNode path parsedSource start))
          (· ≠ .outOfFuel) start := visitRule_wildcard hplan
        (fun node error hcopied houtcome => absurd houtcome (hnone node error hcopied))
      have hends := hrule.traverse_of_fuel_spared (by simp) fuel start (tree.touch start)
        List.prefix_rfl (comesTo_start _ _ _) (.refl _) (by simp [NamedTree.value?_touch])
        (fun node value _ hvalue => wildcardExpected_of_value? hvalue)
      exact absurd hreason (hends.2 reason (by rw [hrun]))
    · -- the first visit of an element fails, and the others have looked at nothing
      let rel (before after : PathTree) : Prop :=
        NamedTree.Grows (tree.touch start) before → Unchanged before after
      have hrel : ∀ ⦃first second third⦄, rel first second → rel second third → rel first third :=
        fun _ _ _ h h' hgrows => (h hgrows).trans (h' (hgrows.trans (h hgrows).grows))
      have hvisit (node : NodePath) : Program.Relates rel (visitWildcard functor start node) := by
        intro state hgrows
        rw [visitWildcard, Program.run_bind_of_ok (TreeProgram.run_valueAt state node)]
        split
        · exact .refl state
        · obtain ⟨error, herror⟩ := hall node
          have hfailed : ((copyPlan codec devNode path parsedSource start node).execute priority
              state).1 = .error (.thrown error) := by rw [AliasPlan.execute, herror]
          rw [hplan hgrows]
          exact AliasPlan.unchanged_of_execute_error (Prod.ext hfailed rfl)
      have hvisits := (NamedTree.relates_traverse (fun before _ => .refl before) hrel hvisit fuel).1
        start (tree.touch start) (.refl _)
      have hvisits' : Unchanged (tree.touch start) after := by rwa [hrun] at hvisits
      exact hstable (hfirst.trans hvisits') hspared
  · rw [run_applyWildcard_of_failure hnode hlocated] at hrun
    obtain rfl := (Prod.mk.inj hrun).2
    exact hstable (.touch tree start) (hfailed start error hlocated)

theorem processSource_spared (hnode : (tree.value? devNode).isSome = true) {fuel : ℕ} {path : Str}
    {parsedSource : ParsedAlias} {priority : AliasPriority} {reason : Abort TreeError}
    (hspared : (opts.permitRelativeSource || isPathAbsolute parsedSource.getLeaf) = true →
      SourceSpared codec devNode spared tree path parsedSource)
    (hrun : (processSource codec opts devNode fuel path parsedSource priority).run tree =
      (.error reason, after)) (hreason : reason ≠ .outOfFuel) : spared after := by
  unfold processSource at hrun
  split at hrun
  · cases hrun
  next hleaf =>
    have hspared := hspared (by simpa [or_iff_not_imp_left] using hleaf)
    split at hrun
    next hsingle =>
      rw [SourceSpared, if_neg (by simpa using hsingle)] at hspared
      have hplan := run_addAliasFromSourceAndRelativeDest codec tree devNode hnode
        (parsedSource.getAlias codec) path priority
      have hfailed := hplan.symm.trans hrun
      obtain ⟨error, houtcome, -⟩ := AliasPlan.execute_eq_error (congrArg Prod.fst hfailed)
      exact hstable (AliasPlan.unchanged_of_execute_error hfailed) (hspared error houtcome)
    next hwildcard =>
      exact applyWildcard_spared hstable hnode (by simpa using hwildcard) hspared hrun hreason

/-- An entry accounts for what it does: without a change reported it had nothing
to do, and it only fails where the tree is spared. -/
theorem processEntry_accounts (hnode : (tree.value? devNode).isSome = true) (fuel : ℕ) (path : Str)
    (source : Json) (priority : AliasPriority)
    (hspared : EntrySpared codec opts devNode spared tree path source) :
    Program.Accounts Unchanged (· ≠ .outOfFuel) spared
      (processEntry codec opts devNode fuel path source priority) tree := by
  refine ⟨fun after hrun => (processEntry_silent hnode hrun).1, fun reason after hrun hreason => ?_⟩
  rw [processEntry_eq] at hrun
  split at hrun
  · cases hrun
  next hpath =>
    obtain ⟨hparse, hsource⟩ := hspared (by simpa [or_iff_not_imp_left] using hpath)
    cases hparsed : ParsedAlias.parseValue codec source with
    | error error =>
        rw [hparsed, Program.run_bind_of_error (TreeProgram.run_ofJson_error tree error)] at hrun
        obtain rfl := (Prod.mk.inj hrun).2
        exact hparse error hparsed
    | ok parsedSource =>
        rw [hparsed, Program.run_bind_of_ok (TreeProgram.run_ofJson_ok tree parsedSource)] at hrun
        exact processSource_spared hstable hnode (hsource parsedSource hparsed) hrun hreason

/-- A description whose entries only fail where the tree is spared only fails there. -/
theorem process_spared (hnode : (tree.value? devNode).isSome = true) (fuel : ℕ) {val : Json}
    (hmeet : EntriesMeet codec opts readable devNode spared
      (EntrySpared codec opts devNode spared) val tree) :
    Program.Accounts Unchanged (· ≠ .outOfFuel) spared
      (opts.process codec readable fuel devNode val) tree :=
  process_accounts Unchanged.refl Unchanged.trans
    (fun _ fuel path source priority hnode hspared =>
      processEntry_accounts hstable hnode fuel path source priority hspared) hnode hmeet

end Spared

/-- Nothing is spared: no failure at all. -/
theorem unchanged_nowhere ⦃before after : PathTree⦄ (_ : Unchanged before after) :
    (fun _ : PathTree => False) before → (fun _ : PathTree => False) after := id

/-! ## Descriptions that are processed to the end -/

section Safe

variable {codec : JsonCodec} {opts : AliasProcessorOptions} {readable : PathTree → Bool}
  {devNode : NodePath} {tree : PathTree}

/-- An entry that cannot fail and comes to finitely many nodes. -/
def EntrySafe (codec : JsonCodec) (opts : AliasProcessorOptions) (devNode : NodePath)
    (tree : PathTree) (path : Str) (source : Json) : Prop :=
  EntrySpared codec opts devNode (fun _ => False) tree path source ∧
    Bounded codec opts devNode tree path source

/-- A description whose entries are safe is processed to the end. -/
theorem process_returns (hnode : (tree.value? devNode).isSome = true) {val : Json}
    (hmeet : EntriesMeet codec opts readable devNode (fun _ => False) (EntrySafe codec opts devNode)
      val tree) :
    ∃ changed after, Program.Returns (fun fuel => opts.process codec readable fuel devNode val) tree
      changed after := by
  have hends := process_ends_of_bounded readable hnode
    (hmeet.mono (fun _ _ => trivial) fun _ _ _ h => h.2)
  refine hends.returns (fuelMonotone_process codec opts readable devNode val)
    fun fuel reason after hrun => ?_
  have hspared := process_spared unchanged_nowhere hnode fuel
    (hmeet.mono (fun _ h => h) fun _ _ _ h => h.1)
  by_contra hreason
  exact hspared.failed reason after hrun hreason

/-- An entry that is passed over. -/
def entrySkipped (codec : JsonCodec) (opts : AliasProcessorOptions) (path : Str) (source : Json) :
    Bool :=
  (!opts.permitRelativePath && !isPathAbsolute path) ||
    match ParsedAlias.parseValue codec source with
    | .ok parsedSource => !opts.permitRelativeSource && !isPathAbsolute parsedSource.getLeaf
    | .error _ => false

/-- An object all of whose entries are passed over. -/
def objectSkipped (codec : JsonCodec) (opts : AliasProcessorOptions) (members : JsonMembers) :
    Bool :=
  members.all fun entry => PRIORITY_KEY = entry.1 || entrySkipped codec opts entry.1 entry.2

/-- A description all of whose entries are passed over. -/
def descriptionSkipped (codec : JsonCodec) (opts : AliasProcessorOptions) : Json → Bool
  | .arr items => items.all fun elt =>
      match elt with
      | .obj members => objectSkipped codec opts members
      | .null | .bool _ | .int _ | .real _ | .str _ | .arr _ => true
  | .obj members => objectSkipped codec opts members
  | .null | .bool _ | .int _ | .real _ | .str _ => true

theorem run_processEntry_skipped (fuel : ℕ) {path : Str} {source : Json} {priority : AliasPriority}
    (h : entrySkipped codec opts path source = true) :
    (processEntry codec opts devNode fuel path source priority).run tree = (.ok false, tree) := by
  rw [processEntry_eq]
  split
  · rfl
  next hpath =>
    rw [entrySkipped, Bool.or_eq_true, or_iff_right hpath] at h
    split at h
    next parsedSource hparse =>
      rw [hparse, Program.run_bind_of_ok (TreeProgram.run_ofJson_ok tree parsedSource),
        processSource, if_pos h]
      rfl
    next => cases h

theorem run_processMembers_skipped (fuel : ℕ) {obj : Json} (hobject : obj.isObject = true)
    {priority : AliasPriority} {keys : List Str}
    (h : ∀ key ∈ keys, PRIORITY_KEY ≠ key → ∀ source, obj.index key = .ok source →
      entrySkipped codec opts key source = true) :
    (processMembers codec opts (fun _ => true) devNode fuel obj priority keys).run tree =
      (.ok false, tree) := by
  induction keys with
  | nil => rfl
  | cons key keys ih =>
      rw [List.forall_mem_cons] at h
      rw [processMembers]
      split
      · exact ih h.2
      next hkey =>
        have hread : (checkReadable fun _ => true).run tree = (.ok (), tree) := rfl
        obtain ⟨source, hsource⟩ : ∃ source, obj.index key = .ok source := by
          cases obj with
          | obj members => exact ⟨_, rfl⟩
          | _ => cases hobject
        rw [Program.run_bind_of_ok hread, hsource,
          Program.run_bind_of_ok (TreeProgram.run_ofJson_ok tree source),
          Program.run_bind_of_ok (run_processEntry_skipped fuel (h.1 hkey source hsource)),
          Program.run_bind_of_ok (ih h.2)]
        rfl

/-- The members of an object are what its names are looked up for. -/
theorem exists_lookup_of_mem {members : JsonMembers} {key : Str} (h : key ∈ members.map Prod.fst) :
    ∃ value, members.lookup key = some value ∧ (key, value) ∈ members := by
  induction members with
  | nil => cases h
  | cons entry rest ih =>
      obtain ⟨name, value⟩ := entry
      rw [Json.lookup_cons]
      by_cases hname : key = name
      · exact ⟨value, if_pos hname, by rw [hname]; exact List.mem_cons_self⟩
      · obtain ⟨found, hfound, hmem⟩ := ih (by simpa [hname] using h)
        exact ⟨found, (if_neg hname).trans hfound, List.mem_cons_of_mem _ hmem⟩

theorem run_processObject_skipped (fuel : ℕ) {members : JsonMembers}
    (hpriority : ∀ error, objectPriority opts (.obj members) ≠ .error error)
    (h : objectSkipped codec opts members = true) :
    (processObject codec opts (fun _ => true) devNode fuel (.obj members)).run tree =
      (.ok false, tree) := by
  cases hobject : objectPriority opts (.obj members) with
  | error error => exact absurd hobject (hpriority error)
  | ok priority =>
      rw [processObject, hobject, Program.run_bind_of_ok (TreeProgram.run_ofJson_ok tree priority),
        Json.getMemberNames, Program.run_bind_of_ok (TreeProgram.run_ofJson_ok tree _)]
      refine run_processMembers_skipped fuel rfl fun key hkey hname source hsource => ?_
      obtain ⟨value, hvalue, hmem⟩ := exists_lookup_of_mem hkey
      obtain rfl : value = source := by
        simpa [Json.index, Json.member?, Except.map, hvalue] using hsource
      have hentry := List.all_eq_true.mp h (key, value) hmem
      simpa [hname] using hentry

theorem run_processArray_skipped (fuel : ℕ) {condition : PathTree → Str → Json → Prop}
    {items : List Json}
    (hmeet : ArrayMeets codec opts (fun _ => true) devNode (fun _ => False) condition items tree)
    (h : descriptionSkipped codec opts (.arr items) = true) :
    (processArray codec opts (fun _ => true) devNode fuel items).run tree = (.ok false, tree) := by
  have hread : (checkReadable fun _ => true).run tree = (.ok (), tree) := rfl
  induction items with
  | nil =>
      rw [processArray, Program.run_bind_of_ok hread]
      rfl
  | cons elt rest ih =>
      rw [descriptionSkipped, List.all_cons, Bool.and_eq_true] at h
      obtain ⟨-, hobject, hrest⟩ := hmeet
      have helement : (processElement codec opts (fun _ => true) devNode fuel elt).run tree =
          (.ok false, tree) := by
        cases elt with
        | obj members => exact run_processObject_skipped fuel (hobject rfl).1 h.1
        | null | bool _ | int _ | real _ | str _ | arr _ => rfl
      rw [processArray, Program.run_bind_of_ok hread, Program.run_bind_of_ok helement,
        Program.run_bind_of_ok (ih (hrest fuel false tree helement) h.2)]
      rfl

/-- A description all of whose entries are passed over does nothing. -/
theorem run_process_skipped (fuel : ℕ) {condition : PathTree → Str → Json → Prop} {val : Json}
    (hmeet : EntriesMeet codec opts (fun _ => true) devNode (fun _ => False) condition val tree)
    (h : descriptionSkipped codec opts val = true) :
    (opts.process codec (fun _ => true) fuel devNode val).run tree = (.ok false, tree) := by
  cases val with
  | arr items => exact run_processArray_skipped fuel hmeet h
  | obj members => exact run_processObject_skipped fuel hmeet.1 h
  | null | bool _ | int _ | real _ | str _ => rfl

end Safe

end AutomaticAliases
end OSVR.Common
