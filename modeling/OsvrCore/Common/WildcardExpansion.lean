/-
# What a wildcard entry expands to

The entry `D : S/*` makes one alias below the node of `D` for each node with an
element below the node of `S`. With the two subtrees apart, the aliases go where
the traversal does not come, so every node is visited once and the aliases do not
meet each other.
-/

import OsvrCore.Common.AliasChanges
import OsvrCore.Common.PathSpelling

set_option autoImplicit false

namespace OSVR.Common

open Math AutomaticAliases

/-! ## Where an alias goes -/

/-- Components that lead to a node and names below it. -/
theorem follow_append_names {path path' : Str} {list : List Component} {node : NodePath}
    (h : follow path list = ⟨node, none⟩) (names : NodePath) :
    follow path' (list ++ names.map PathName.component) = ⟨node ++ names, none⟩ := by
  induction list generalizing node with
  | nil =>
      obtain rfl : [] = node := (Located.mk.inj h).1
      exact follow_names path' names
  | cons component list ih =>
      rw [List.cons_append]
      rw [follow] at h ⊢
      split at h
      · cases h
      next hempty =>
        rw [dif_neg hempty]
        split at h
        next hhere =>
          rw [dif_pos hhere]
          exact ih h
        next hhere =>
          rw [dif_neg hhere]
          split at h
          · cases h
          next hparent =>
            rw [dif_neg hparent]
            rcases hrest : follow path list with ⟨reached, failure⟩
            rw [hrest] at h
            cases h
            rw [ih hrest]
            rfl

/-- Names after a path, with a separator between them also where there are none. -/
theorem follow_below {path : Str} {node : NodePath}
    (h : follow path (components path) = ⟨node, none⟩) (names : NodePath) {text : Str}
    (htext :
      text = trimTrailing (path ++ '/' :: (names.flatMap fun name => '/' :: name.1).drop 1)) :
    follow text (components text) = ⟨node ++ names, none⟩ := by
  rw [trimTrailing_append _ (List.cons_ne_nil _ _)] at htext
  rcases names with _ | ⟨name, rest⟩
  · have htrim : trimTrailing ['/'] = [] := by decide
    obtain rfl : text = path := by simpa [htrim] using htext
    simpa using h
  · have hdrop : (List.flatMap (fun name => '/' :: name.1) (name :: rest)).drop 1 =
        joined name rest := by
      simp [joined]
    have htrim := trimTrailing_append ['/'] (joined_ne_nil name rest)
    rw [List.singleton_append, trimTrailing_joined, List.singleton_append] at htrim
    rw [hdrop, htrim] at htext
    have hcomponents : components text = components path ++
        (name :: rest).map PathName.component := by
      rw [htext, components_cut, components_joined]
    rw [hcomponents]
    exact follow_append_names h (name :: rest)

/-- The alias for a node goes as far below the destination as the node is below
the stem. -/
theorem locate_below {devNode dest stem : NodePath} {path : Str} (hpath : path ≠ [])
    (hlast : path.getLast? ≠ some '/') (hdest : locate devNode path = ⟨dest, none⟩)
    (hstem : stem ≠ []) (below : NodePath) :
    locate devNode (path ++ '/' :: relativePath stem (stem ++ below)) = ⟨dest ++ below, none⟩ := by
  rw [relativePath_append hstem]
  obtain ⟨c, rest, rfl⟩ := List.exists_cons_of_ne_nil hpath
  by_cases hc : c = '/'
  · have hrest : rest ≠ [] := by
      rintro rfl
      exact hlast (by rw [hc]; rfl)
    rw [List.getLast?_cons_of_ne_nil hrest] at hlast
    rw [locate, if_pos hc, if_neg (by simpa using hrest), trimTrailing_of_getLast? hlast] at hdest
    rw [List.cons_append, locate, if_pos hc, if_neg (by simp)]
    exact follow_below hdest below rfl
  · rw [locate, if_neg hc, trimTrailing_of_getLast? hlast] at hdest
    rcases hfollow : follow (c :: rest) (components (c :: rest)) with ⟨node, failure⟩
    rw [hfollow] at hdest
    cases hdest
    rw [List.cons_append, locate, if_neg hc]
    simp only [follow_below hfollow below rfl, ← List.cons_append]
    simp [Located.from_]

/-! ## The plan for a visited node -/

section Plan

variable {codec : JsonCodec} {devNode dest stem : NodePath} {path : Str} {source : Json}
  {parsedSource : ParsedAlias}

/-- With or without a transform, a visited node becomes the leaf of the source. -/
theorem copiedSource_eq (hparse : ParsedAlias.parseValue codec source = .ok parsedSource)
    (hleaf : parsedSource.getLeaf ≠ []) (node : NodePath) :
    copiedSource codec parsedSource node =
      (parsedSource.setLeaf (getFullPath node)).getAlias codec := by
  rw [copiedSource]
  split
  next hsimple =>
    rcases ParsedAlias.value_of_simple codec hparse hsimple with hnull | ⟨text, htext⟩
    · exact absurd (by simp [ParsedAlias.getLeaf, hnull, Json.leaf]) hleaf
    · simp [ParsedAlias.getAlias, ParsedAlias.setLeaf, htext, Json.setLeaf]
  next => rfl

/-- The plan for a visited node makes one alias, and looks up nothing else. -/
theorem copyPlan_eq (hparse : ParsedAlias.parseValue codec source = .ok parsedSource)
    (hleaf : parsedSource.getLeaf ≠ []) (hpath : path ≠ []) (hlast : path.getLast? ≠ some '/')
    (hdest : locate devNode path = ⟨dest, none⟩) (hstem : stem ≠ []) (below : NodePath)
    (hlegible : (parsedSource.setLeaf (getFullPath (stem ++ below))).Legible codec) :
    copyPlan codec devNode path parsedSource stem (stem ++ below) =
      ⟨[dest ++ below],
        .ok (some (dest ++ below, copiedSource codec parsedSource (stem ++ below)))⟩ := by
  obtain ⟨simple, hread⟩ := ParsedAlias.parse_getAlias codec hparse hlegible
  have hcopied := copiedSource_eq hparse hleaf (stem ++ below)
  have hvalue := Json.leaf_setLeaf_str (getFullPath (stem ++ below)) parsedSource.value
  have hagain := Json.setLeaf_setLeaf_str (getFullPath (stem ++ below))
    (getFullPath (stem ++ below)) parsedSource.value
  have hvalid :
      (parsedSource.value.setLeaf (.str (getFullPath (stem ++ below)))).isNull = false := by
    cases hnull : parsedSource.value.setLeaf (.str (getFullPath (stem ++ below))) with
    | null =>
        rw [hnull] at hvalue
        cases hvalue
    | _ => rfl
  have hgetLeaf : ParsedAlias.getLeaf ⟨parsedSource.value.setLeaf
      (.str (getFullPath (stem ++ below))), simple⟩ = getFullPath (stem ++ below) := by
    rw [ParsedAlias.getLeaf, hvalue]
  have habsolute : isPathAbsolute (getFullPath (stem ++ below)) = true := by
    simp [isPathAbsolute, getFullPath_head]
  rw [copyPlan, planAlias, locate_below hpath hlast hdest hstem, hcopied, hread]
  simp only [ParsedAlias.isValid, hvalid, hgetLeaf, habsolute, Bool.not_false, Bool.not_true,
    Bool.false_eq_true, ↓reduceIte, ParsedAlias.setLeaf, hagain]
  rfl

end Plan

/-! ## Entries whose subtrees are apart -/

/-- The entry `D : S/*` in a tree: the source is `S/*`, possibly inside a transform,
`S` and `D` lead to nodes of which none is below the other, and the reader takes
the aliases for what they are. -/
structure WildcardEntry (codec : JsonCodec) (devNode : NodePath) (tree : PathTree) (path : Str)
    (source : Json) (parsedSource : ParsedAlias) (stem dest : NodePath) : Prop where
  parsed : ParsedAlias.parseValue codec source = .ok parsedSource
  leaf : ∃ stemPath, parsedSource.getLeaf = stemPath ++ WILDCARD_SUFFIX ∧
    isPathAbsolute stemPath = true ∧ locate devNode stemPath = ⟨stem, none⟩
  nonempty : path ≠ []
  untrailed : path.getLast? ≠ some '/'
  destination : locate devNode path = ⟨dest, none⟩
  notAbove : ¬ stem <+: dest
  notBelow : ¬ dest <+: stem
  legible : ∀ node, stem <+: node → tree.element node ≠ .nullElement →
    (parsedSource.setLeaf (getFullPath node)).Legible codec

namespace WildcardEntry

variable {codec : JsonCodec} {opts : AliasProcessorOptions} {devNode stem dest : NodePath}
  {tree : PathTree} {path : Str} {source : Json} {parsedSource : ParsedAlias}
  {priority : AliasPriority}

/-- No node is below both. -/
theorem apart (h : WildcardEntry codec devNode tree path source parsedSource stem dest)
    (below : NodePath) : ¬ stem <+: dest ++ below := by
  intro hinside
  rcases List.prefix_or_prefix_of_prefix hinside
    (List.prefix_append dest below) with habove | hbelow
  · exact h.notAbove habove
  · exact h.notBelow hbelow

theorem stem_ne_nil (h : WildcardEntry codec devNode tree path source parsedSource stem dest) :
    stem ≠ [] := by
  rintro rfl
  exact h.notAbove List.nil_prefix

theorem leaf_ne_nil (h : WildcardEntry codec devNode tree path source parsedSource stem dest) :
    parsedSource.getLeaf ≠ [] := by
  obtain ⟨stemPath, hleaf, _, _⟩ := h.leaf
  rw [hleaf]
  exact List.append_ne_nil_of_right_ne_nil _ (by decide)

/-- The plan for every visited node. -/
theorem plan (h : WildcardEntry codec devNode tree path source parsedSource stem dest)
    {below : NodePath} (helement : tree.element (stem ++ below) ≠ .nullElement) :
    copyPlan codec devNode path parsedSource stem (stem ++ below) =
      ⟨[dest ++ below],
        .ok (some (dest ++ below, copiedSource codec parsedSource (stem ++ below)))⟩ :=
  copyPlan_eq h.parsed h.leaf_ne_nil h.nonempty h.untrailed h.destination h.stem_ne_nil below
    (h.legible _ (List.prefix_append stem below) helement)

end WildcardEntry

/-! ## The traversal -/

section Traversal

variable {codec : JsonCodec} {devNode stem dest : NodePath} {tree : PathTree} {path : Str}
  {source : Json} {parsedSource : ParsedAlias} {priority : AliasPriority}

/-- What is done with a visited node. -/
def copyAlias (codec : JsonCodec) (devNode : NodePath) (path : Str) (parsedSource : ParsedAlias)
    (priority : AliasPriority) (node : NodePath) (relPath : Str) : TreeProgram Bool :=
  processSingleEntry codec devNode (path ++ '/' :: relPath) (copiedSource codec parsedSource node)
    priority

/-- A wildcard entry that is not passed over looks up its stem and is the traversal
from there. -/
theorem run_processEntry_permitted {opts : AliasProcessorOptions}
    (hnode : (tree.value? devNode).isSome = true) (priority : AliasPriority)
    (hpath : (opts.permitRelativePath || isPathAbsolute path) = true)
    (hparse : ParsedAlias.parseValue codec source = .ok parsedSource)
    (hleaf : (opts.permitRelativeSource || isPathAbsolute parsedSource.getLeaf) = true)
    (hwildcard : doesPathContainWildcard parsedSource.getLeaf = true) (fuel : ℕ) :
    (processEntry codec opts devNode fuel path source priority).run tree =
      match locate devNode (wildcardStem parsedSource.getLeaf) with
      | ⟨start, none⟩ =>
          (NamedTree.traverse (visitWildcard (copyAlias codec devNode path parsedSource priority)
            start) fuel start).run (tree.touch start)
      | ⟨reached, some error⟩ => (.error (.thrown error), tree.touch reached) := by
  rw [run_processEntry_of_permitted hpath hparse hleaf, hwildcard]
  rcases hlocated : locate devNode (wildcardStem parsedSource.getLeaf) with ⟨reached, _ | error⟩
  · exact run_applyWildcard_of_located hnode hlocated fuel _
  · exact run_applyWildcard_of_failure hnode hlocated fuel _

/-- Below the stem every element is what it was. -/
structure Intact (tree : PathTree) (stem : NodePath) (state : PathTree) : Prop where
  grows : NamedTree.Grows tree state
  element : ∀ node, stem <+: node → state.element node = tree.element node

/-- A node has become the alias for the node that is as far below the stem. -/
def Aliased (codec : JsonCodec) (tree : PathTree) (parsedSource : ParsedAlias)
    (stem dest : NodePath)
    (priority : AliasPriority) (before after : PathTree) (node : NodePath) : Prop :=
  ∃ below, node = dest ++ below ∧ tree.element (stem ++ below) ≠ .nullElement ∧
    aliasNeedsUpdate (before.element node) (copiedSource codec parsedSource (stem ++ below))
      priority = true ∧
    after.element node =
      .aliasElement (copiedSource codec parsedSource (stem ++ below)) priority

/-- The traversal leaves what is below the stem, and elsewhere makes aliases. -/
def Expanding (codec : JsonCodec) (tree : PathTree) (parsedSource : ParsedAlias)
    (stem dest : NodePath) (priority : AliasPriority) (before after : PathTree) : Prop :=
  Intact tree stem before → Intact tree stem after ∧ ∀ node,
    after.element node = before.element node ∨
      Aliased codec tree parsedSource stem dest priority before after node

theorem aliasNeedsUpdate_self (text : Str) (priority : AliasPriority) :
    aliasNeedsUpdate (.aliasElement text priority) text priority = false := by
  simp [aliasNeedsUpdate]

theorem Expanding.refl (state : PathTree) :
    Expanding codec tree parsedSource stem dest priority state state :=
  fun hintact => ⟨hintact, fun _ => .inl rfl⟩

/-- An alias that has been made is not replaced. -/
theorem Expanding.trans ⦃first second third : PathTree⦄
    (h : Expanding codec tree parsedSource stem dest priority first second)
    (h' : Expanding codec tree parsedSource stem dest priority second third) :
    Expanding codec tree parsedSource stem dest priority first third := by
  intro hintact
  obtain ⟨hsecond, hfirst⟩ := h hintact
  obtain ⟨hthird, hlater⟩ := h' hsecond
  refine ⟨hthird, fun node => ?_⟩
  rcases hfirst node with hsame | ⟨below, rfl, helement, hneeds, hmade⟩
  · rcases hlater node with hsame' | ⟨below, hnode, helement, hneeds, hmade⟩
    · exact .inl (hsame'.trans hsame)
    · rw [hsame] at hneeds
      exact .inr ⟨below, hnode, helement, hneeds, hmade⟩
  · rcases hlater (dest ++ below) with hsame' | ⟨other, hother, _, hneeds', _⟩
    · exact .inr ⟨below, rfl, helement, hneeds, hsame'.trans hmade⟩
    · obtain rfl := List.append_cancel_left hother
      rw [hmade, aliasNeedsUpdate_self] at hneeds'
      cases hneeds'

theorem Aliased.element_eq {before after : PathTree} {below : NodePath}
    (h : Aliased codec tree parsedSource stem dest priority before after (dest ++ below)) :
    after.element (dest ++ below) =
      .aliasElement (copiedSource codec parsedSource (stem ++ below)) priority := by
  obtain ⟨other, hother, _, _, hmade⟩ := h
  obtain rfl := List.append_cancel_left hother
  exact hmade

theorem intact_touch (tree : PathTree) (stem : NodePath) : Intact tree stem (tree.touch stem) :=
  ⟨.touch tree stem, fun node _ => PathTree.element_touch tree stem node⟩

variable (h : WildcardEntry codec devNode tree path source parsedSource stem dest)
  (hnode : (tree.value? devNode).isSome = true)

include h hnode

/-- One visit of a node with an element. -/
theorem run_visit {state : PathTree} (hintact : Intact tree stem state) {below : NodePath}
    (helement : tree.element (stem ++ below) ≠ .nullElement) :
    (visitWildcard (copyAlias codec devNode path parsedSource priority) stem (stem ++ below)).run
        state =
      AliasPlan.execute ⟨[dest ++ below],
        .ok (some (dest ++ below, copiedSource codec parsedSource (stem ++ below)))⟩ priority
        state := by
  have hsame := hintact.element (stem ++ below) (List.prefix_append stem below)
  rw [visitWildcard, Program.run_bind_of_ok (TreeProgram.run_valueAt state _),
    if_neg (by simpa [hsame] using helement), ← h.plan helement]
  exact run_addAliasFromSourceAndRelativeDest codec state devNode
    (hintact.grows.isSome_value? hnode) _ _ priority

/-- What a visit leaves behind. -/
theorem expanding_visit (node : NodePath) (state : PathTree) (reported : Bool) (after : PathTree)
    (hbelow : stem <+: node)
    (hrun : (visitWildcard (copyAlias codec devNode path parsedSource priority) stem node).run
      state = (.ok reported, after)) :
    Expanding codec tree parsedSource stem dest priority state after := by
  intro hintact
  obtain ⟨below, rfl⟩ := hbelow
  have hsame := hintact.element (stem ++ below) (List.prefix_append stem below)
  by_cases helement : tree.element (stem ++ below) = .nullElement
  · have hskip : (visitWildcard (copyAlias codec devNode path parsedSource priority) stem
        (stem ++ below)).run state = (.ok false, state) := by
      rw [visitWildcard, Program.run_bind_of_ok (TreeProgram.run_valueAt state _),
        if_pos (by simp [hsame, helement])]
      rfl
    rw [hskip] at hrun
    obtain rfl := (Prod.mk.inj hrun).2
    exact Expanding.refl state hintact
  · rw [run_visit h hnode hintact helement] at hrun
    have hfound := PathTree.element_touchAll state [dest ++ below]
    simp only [AliasPlan.execute] at hrun
    split at hrun
    next hneeds =>
      obtain rfl := (Prod.mk.inj hrun).2
      have hset (query : NodePath) := PathTree.element_set (state.touchAll [dest ++ below])
        (dest ++ below) query (.aliasElement (copiedSource codec parsedSource (stem ++ below))
          priority)
      refine ⟨⟨hintact.grows.trans ((PathTree.grows_touchAll state _).trans (.set _ _ _)), ?_⟩, ?_⟩
      · intro query hquery
        have hother : query ≠ dest ++ below := by
          rintro rfl
          exact h.apart below hquery
        rw [hset, if_neg hother, hfound, hintact.element query hquery]
      · intro query
        rw [hset]
        by_cases hquery : query = dest ++ below
        · refine .inr ⟨below, hquery, helement, ?_, ?_⟩
          · rw [hquery]
            exact hneeds
          · rw [hset, if_pos hquery]
        · rw [if_neg hquery, hfound]
          exact .inl rfl
    next =>
      obtain rfl := (Prod.mk.inj hrun).2
      refine ⟨⟨hintact.grows.trans (PathTree.grows_touchAll state _), fun query hquery => ?_⟩,
        fun query => .inl (hfound query)⟩
      rw [hfound, hintact.element query hquery]

/-- The alias is there after the visit of its node, whether or not it was before. -/
theorem element_after_visit {state after : PathTree} {reported : Bool} {below : NodePath}
    (hintact : Intact tree stem state) (helement : tree.element (stem ++ below) ≠ .nullElement)
    (hneeds : aliasNeedsUpdate (tree.element (dest ++ below))
      (copiedSource codec parsedSource (stem ++ below)) priority = true)
    (hbefore : state.element (dest ++ below) = tree.element (dest ++ below) ∨
      state.element (dest ++ below) =
        .aliasElement (copiedSource codec parsedSource (stem ++ below)) priority)
    (hrun : (visitWildcard (copyAlias codec devNode path parsedSource priority) stem
      (stem ++ below)).run state = (.ok reported, after)) :
    after.element (dest ++ below) =
      .aliasElement (copiedSource codec parsedSource (stem ++ below)) priority := by
  rw [run_visit h hnode hintact helement] at hrun
  simp only [AliasPlan.execute] at hrun
  rcases hbefore with hold | hmade
  · rw [hold, if_pos hneeds] at hrun
    obtain rfl := (Prod.mk.inj hrun).2
    rw [PathTree.element_set, if_pos rfl]
  · rw [hmade, aliasNeedsUpdate_self, if_neg (by simp)] at hrun
    obtain rfl := (Prod.mk.inj hrun).2
    rw [PathTree.element_touchAll, hmade]

/-- A traversal that is done has made every alias that needs to be made, and
nothing else. -/
theorem element_after_traverse {fuel : ℕ} {reported : Bool} {after : PathTree}
    (hrun : (NamedTree.traverse (visitWildcard (copyAlias codec devNode path parsedSource priority)
      stem) fuel stem).run (tree.touch stem) = (.ok reported, after)) :
    (∀ below, tree.element (stem ++ below) ≠ .nullElement →
      aliasNeedsUpdate (tree.element (dest ++ below))
        (copiedSource codec parsedSource (stem ++ below)) priority = true →
      after.element (dest ++ below) =
        .aliasElement (copiedSource codec parsedSource (stem ++ below)) priority) ∧
    ∀ node, after.element node = tree.element node ∨
      Aliased codec tree parsedSource stem dest priority tree after node := by
  have hgrow (node : NodePath) : Program.Relates NamedTree.Grows
      (visitWildcard (copyAlias codec devNode path parsedSource priority) stem node) :=
    grows_visitEntries codec devNode _ _ priority stem node
  have hstart := intact_touch tree stem
  have hthere {node : NodePath} (helement : tree.element node ≠ .nullElement) :
      ((tree.touch stem).value? node).isSome = true :=
    hstart.grows.isSome_value? (isSome_value?_of_element helement)
  obtain ⟨hall, hvisited⟩ := (NamedTree.visits_of_traverse Expanding.refl Expanding.trans
    (fun _ => True) (fun _ _ _ => ⟨trivial, trivial⟩) stem hgrow
    (fun node state reported after hbelow _ => expanding_visit h hnode node state reported after
      hbelow) fuel).1 stem _ reported after List.prefix_rfl trivial hrun
  apply And.intro
  · intro below helement hneeds
    obtain ⟨before, visited, later, hbefore, _, hvisit, hafter⟩ :=
      hvisited (stem ++ below) (List.prefix_append stem below) (hthere helement)
    obtain ⟨hintact, hold⟩ := hbefore hstart
    have hmade := element_after_visit h hnode hintact helement hneeds
      ((hold (dest ++ below)).imp (fun hsame => hsame.trans (PathTree.element_touch tree stem _))
        Aliased.element_eq) hvisit
    have hlater := expanding_visit h hnode _ before visited later (List.prefix_append stem below)
      hvisit hintact
    rcases (hafter hlater.1).2 (dest ++ below) with hsame | haliased
    · exact hsame.trans hmade
    · exact haliased.element_eq
  · intro node
    have htouch := PathTree.element_touch tree stem node
    rcases (hall hstart).2 node with hsame | ⟨below, hbelow, helement, hneeds, hmade⟩
    · exact .inl (hsame.trans htouch)
    · rw [htouch] at hneeds
      exact .inr ⟨below, hbelow, helement, hneeds, hmade⟩

/-- The traversal ends: what it copies was there before, and no visit fails. -/
theorem traverse_returns (priority : AliasPriority) : ∃ reported after, Program.Returns
    (fun fuel => NamedTree.traverse
      (visitWildcard (copyAlias codec devNode path parsedSource priority) stem) fuel stem)
    (tree.touch stem) reported after := by
  have hcopied {node : NodePath} (hcopy : Copied (tree.touch stem) stem
      (copyPlan codec devNode path parsedSource stem) node) :
      stem <+: node ∧ tree.element node ≠ .nullElement := by
    induction hcopy with
    | @original node value below found element =>
        refine ⟨below, ?_⟩
        rw [← PathTree.element_touch tree stem, PathTree.element, found]
        exact element
    | copy _ _ planned below _ ih =>
        obtain ⟨⟨rest, rfl⟩, helement⟩ := ih
        rw [h.plan helement] at planned
        cases planned
        exact absurd below (h.apart rest)
  have hends := traverse_wildcard_ends (copyPlan codec devNode path parsedSource stem)
    (copyAlias codec devNode path parsedSource priority) priority (fun _ => True)
    (fun hgrows => run_addAliasFromSourceAndRelativeDest codec _ devNode
      (((NamedTree.Grows.touch tree stem).trans hgrows).isSome_value? hnode) _ _ priority)
    (by simp [NamedTree.value?_touch])
    (fun node error hcopy houtcome _ => by
      obtain ⟨⟨rest, rfl⟩, helement⟩ := hcopied hcopy
      rw [h.plan helement] at houtcome
      cases houtcome)
    (((tree.entries.map Prod.fst).toFinset.finite_toSet).subset fun node hcopy => by
      have hthere := isSome_value?_of_element (hcopied hcopy).2
      obtain ⟨value, hvalue⟩ := Option.isSome_iff_exists.mp hthere
      rw [Finset.mem_coe, List.mem_toFinset]
      exact List.mem_map_of_mem (NamedTree.mem_entries_of_value? hvalue))
  obtain ⟨fuel, hfuel⟩ := hends
  have hmono := NamedTree.fuelMonotone_traverse
    (visitWildcard (copyAlias codec devNode path parsedSource priority) stem) stem
  rcases hrun : (NamedTree.traverse
    (visitWildcard (copyAlias codec devNode path parsedSource priority) stem) fuel stem).run
      (tree.touch stem) with ⟨reason | reported, after⟩
  · exact absurd trivial (hfuel reason (by rw [hrun]))
  · refine ⟨reported, after, fuel, fun more hmore => ?_⟩
    exact (hmono fuel more hmore _ (by rw [hrun]; simp)).trans hrun

/-- A permitted wildcard entry is the traversal from its stem. -/
theorem run_processEntry_wildcard {opts : AliasProcessorOptions}
    (hpath : (opts.permitRelativePath || isPathAbsolute path) = true) (fuel : ℕ) :
    (processEntry codec opts devNode fuel path source priority).run tree =
      (NamedTree.traverse (visitWildcard (copyAlias codec devNode path parsedSource priority) stem)
        fuel stem).run (tree.touch stem) := by
  obtain ⟨stemPath, hleaf, habsolute, hstem⟩ := h.leaf
  have hleafAbsolute : isPathAbsolute parsedSource.getLeaf = true := by
    have hne : stemPath ≠ [] := by
      rintro rfl
      cases habsolute
    rw [hleaf, isPathAbsolute, List.head?_append_of_ne_nil _ hne]
    exact habsolute
  have hwildcard : doesPathContainWildcard parsedSource.getLeaf = true := by
    simp [hleaf, doesPathContainWildcard]
  have hrun := run_processEntry_permitted hnode priority hpath h.parsed
    (by simp [hleafAbsolute]) hwildcard fuel
  rw [hleaf, wildcardStem_append, hstem] at hrun
  exact hrun

/-- A permitted wildcard entry returns, and has made exactly the aliases that need
to be made. -/
theorem processEntry_returns (opts : AliasProcessorOptions) (priority : AliasPriority)
    (hpath : (opts.permitRelativePath || isPathAbsolute path) = true) : ∃ changed after,
    Program.Returns (fun fuel => processEntry codec opts devNode fuel path source priority) tree
      changed after ∧
    (∀ below, tree.element (stem ++ below) ≠ .nullElement →
      aliasNeedsUpdate (tree.element (dest ++ below))
        (copiedSource codec parsedSource (stem ++ below)) priority = true →
      after.element (dest ++ below) =
        .aliasElement (copiedSource codec parsedSource (stem ++ below)) priority) ∧
    ∀ node, after.element node = tree.element node ∨
      Aliased codec tree parsedSource stem dest priority tree after node := by
  obtain ⟨changed, after, fuel, hreturns⟩ := traverse_returns h hnode priority
  refine ⟨changed, after, ⟨fuel, fun more hmore => ?_⟩, ?_⟩
  · rw [run_processEntry_wildcard h hnode hpath]
    exact hreturns more hmore
  · exact element_after_traverse h hnode (hreturns fuel le_rfl)

end Traversal

/-! ## The entry `D : S/*` -/

/-- What the entry is to leave behind: an alias for each node below the stem with
an element, unless an alias with a higher priority is in its place, and every
other element as it was. -/
structure Expanded (codec : JsonCodec) (tree after : PathTree) (parsedSource : ParsedAlias)
    (stem dest : NodePath) (priority : AliasPriority) : Prop where
  made : ∀ below, tree.element (stem ++ below) ≠ .nullElement →
    (∀ text old, tree.element (dest ++ below) = .aliasElement text old → old ≤ priority) →
    after.element (dest ++ below) =
      .aliasElement (copiedSource codec parsedSource (stem ++ below)) priority
  leaf : ∀ below, tree.element (stem ++ below) ≠ .nullElement → ∃ alias_,
    ParsedAlias.parse codec (copiedSource codec parsedSource (stem ++ below)) = .ok alias_ ∧
      alias_.getLeaf = getFullPath (stem ++ below) ∧
      alias_.value = parsedSource.value.setLeaf (.str (getFullPath (stem ++ below)))
  kept : ∀ node, (∀ below, node = dest ++ below → tree.element (stem ++ below) = .nullElement ∨
      ∃ text old, tree.element node = .aliasElement text old ∧ priority < old) →
    after.element node = tree.element node

/-- An alias that needs no update has the priority and the source, or a higher
priority. -/
theorem aliasNeedsUpdate_eq_false {element : PathElement} {text : Str} {priority : AliasPriority}
    (h : aliasNeedsUpdate element text priority = false) :
    ∃ old oldPriority, element = .aliasElement old oldPriority ∧
      (priority < oldPriority ∨ old = text ∧ oldPriority = priority) := by
  cases element with
  | aliasElement old oldPriority =>
      refine ⟨old, oldPriority, rfl, ?_⟩
      simp only [aliasNeedsUpdate, Bool.or_eq_false_iff, decide_eq_false_iff_not, gt_iff_lt,
        Bool.and_eq_false_iff, beq_eq_false_iff_ne, bne_eq_false_iff_eq] at h
      obtain ⟨hle, hsame⟩ := h
      rcases UInt8.lt_or_eq_of_le (UInt8.not_lt.mp hle) with hlt | heq
      · exact .inl hlt
      · rcases hsame with hne | htext
        · exact absurd heq hne
        · exact .inr ⟨htext.symm, heq.symm⟩
  | _ => simp [aliasNeedsUpdate] at h

/-- With all options permitted, the entry `D : S/*` leaves behind what it is to
leave behind. -/
theorem processEntry_expanded (codec : JsonCodec) (devNode : NodePath) (tree : PathTree)
    (hnode : (tree.value? devNode).isSome = true) (path : Str) (source : Json)
    (parsedSource : ParsedAlias) (stem dest : NodePath)
    (h : WildcardEntry codec devNode tree path source parsedSource stem dest)
    (defaultPriority priority : AliasPriority) : ∃ changed after,
    Program.Returns (fun fuel => processEntry codec ⟨true, true, true, defaultPriority⟩ devNode fuel
      path source priority) tree changed after ∧
    Expanded codec tree after parsedSource stem dest priority := by
  obtain ⟨changed, after, hreturns, hmade, hother⟩ :=
    processEntry_returns h hnode ⟨true, true, true, defaultPriority⟩ priority rfl
  refine ⟨changed, after, hreturns, ⟨?_, ?_, ?_⟩⟩
  · intro below helement hold
    by_cases hneeds : aliasNeedsUpdate (tree.element (dest ++ below))
        (copiedSource codec parsedSource (stem ++ below)) priority = true
    · exact hmade below helement hneeds
    · obtain ⟨old, oldPriority, halias, hcase⟩ :=
        aliasNeedsUpdate_eq_false (by simpa using hneeds)
      have hle := hold old oldPriority halias
      rcases hcase with hlt | ⟨rfl, rfl⟩
      · exact absurd hlt (UInt8.not_lt.mpr hle)
      · rcases hother (dest ++ below) with hsame | haliased
        · exact hsame.trans halias
        · exact haliased.element_eq
  · intro below helement
    obtain ⟨simple, hparse⟩ := ParsedAlias.parse_getAlias codec h.parsed
      (h.legible _ (List.prefix_append stem below) helement)
    rw [copiedSource_eq h.parsed h.leaf_ne_nil]
    refine ⟨_, hparse, ?_, rfl⟩
    rw [ParsedAlias.getLeaf, Json.leaf_setLeaf_str]
  · intro node hkept
    rcases hother node with hsame | ⟨below, hbelow, helement, hneeds, _⟩
    · exact hsame
    · rcases hkept below hbelow with hnull | ⟨text, old, halias, hlt⟩
      · exact absurd hnull helement
      · rw [halias] at hneeds
        have hgreater : old < priority := by
          simpa [aliasNeedsUpdate, UInt8.ne_of_lt hlt] using hneeds
        exact absurd (UInt8.le_of_lt hlt) (UInt8.not_le.mpr hgreater)

/-- A reader that takes one path for a comment and a number, as the JSON reader
does, and no other text for JSON. -/
def commentReader : JsonCodec :=
  ⟨fun text => if text = "/*a*/1".toList then some (.int 1) else none, fun _ => [], fun _ => [],
    fun _ => []⟩

theorem isName_comment : IsName "*a*".toList := by decide

theorem isName_one : IsName "1".toList := by decide

theorem isName_m : IsName "m".toList := by decide

theorem isName_c : IsName "c".toList := by decide

/-- The nodes at `/*a*`, at `/m` and at `/c`. -/
def commentNode : NodePath := [⟨"*a*".toList, isName_comment⟩]

def plainNode : NodePath := [⟨"m".toList, isName_m⟩]

def otherNode : NodePath := [⟨"c".toList, isName_c⟩]

def oneName : PathName := ⟨"1".toList, isName_one⟩

/-- A sensor at `/*a*/1` and one at `/m/1`. -/
def twoSensors : PathTree :=
  (PathTree.empty.set (commentNode ++ [oneName]) .sensorElement).set (plainNode ++ [oneName])
    .sensorElement

/-- A rotation around a leaf. -/
def turned (leaf : Str) : Json := .obj [(CHILD_KEY, .str leaf), ("rotate".toList, .str "x".toList)]

/-- A library that writes nothing of a rotation but its leaf, after a mark. -/
def turnedCodec : JsonCodec where
  parse
    | '!' :: leaf => some (turned leaf)
    | _ => none
  write value := '!' :: ParsedAlias.getLeaf ⟨value, false⟩
  toStyledString _ := []
  realText _ := []

/-- A device at `/m` with an interface and a sensor, and an alias at `/c/1`. -/
def turnedTree : PathTree :=
  (((PathTree.empty.set plainNode (.deviceElement "m".toList "s".toList .null)).set
    (plainNode ++ [oneName]) .interfaceElement).set (plainNode ++ [oneName, oneName])
      .sensorElement).set (otherNode ++ [oneName]) (.aliasElement "/x".toList ALIASPRIORITY_MANUAL)

theorem wildcardEntry_turned : WildcardEntry turnedCodec [] turnedTree "/c".toList
    (turned "/m/*".toList) ⟨turned "/m/*".toList, false⟩ plainNode otherNode where
  parsed := rfl
  leaf := ⟨"/m".toList, rfl, rfl, rfl⟩
  nonempty := by decide
  untrailed := by decide
  destination := rfl
  notAbove := by decide
  notBelow := by decide
  legible node hbelow helement := by
    simp only [turnedTree, PathTree.element_set] at helement
    split_ifs at helement with halias hsensor hinterface hdevice
    · subst halias
      exact absurd hbelow (by decide)
    · subst hsensor
      rfl
    · subst hinterface
      rfl
    · subst hdevice
      rfl
    · exact absurd (by cases node <;> rfl) helement

/-- All of `/m` below `/c`, turned, but for the place of an alias with a higher priority. -/
theorem processEntry_expanded_turned : ∃ changed after,
    Program.Returns (fun fuel => processEntry turnedCodec ⟨true, true, true, 0⟩ [] fuel
      "/c".toList (turned "/m/*".toList) ALIASPRIORITY_AUTOMATIC) turnedTree changed after ∧
    Expanded turnedCodec turnedTree after ⟨turned "/m/*".toList, false⟩ plainNode otherNode
      ALIASPRIORITY_AUTOMATIC ∧
    after.element (otherNode ++ [oneName, oneName]) =
      .aliasElement "!/m/1/1".toList ALIASPRIORITY_AUTOMATIC ∧
    after.element (otherNode ++ [oneName]) = .aliasElement "/x".toList ALIASPRIORITY_MANUAL := by
  obtain ⟨changed, after, hreturns, hexpanded⟩ :=
    processEntry_expanded turnedCodec [] turnedTree rfl
    _ _ _ _ _ wildcardEntry_turned 0 ALIASPRIORITY_AUTOMATIC
  refine ⟨changed, after, hreturns, hexpanded, ?_, ?_⟩
  · refine hexpanded.made [oneName, oneName] (by decide) fun text old hold => ?_
    have hnull : turnedTree.element (otherNode ++ [oneName, oneName]) = .nullElement := by decide
    rw [hnull] at hold
    cases hold
  · refine hexpanded.kept _ fun below hbelow => .inr ⟨_, _, rfl, by decide⟩

/-- What a run with enough fuel leaves at a node is what the entry leaves there. -/
theorem element_of_returns {codec : JsonCodec} {opts : AliasProcessorOptions} {devNode : NodePath}
    {tree after : PathTree} {path : Str} {source : Json} {priority : AliasPriority} {changed : Bool}
    (h : Program.Returns (fun fuel => processEntry codec opts devNode fuel path source priority)
      tree changed after) (fuel : ℕ)
    (hfuel : ((processEntry codec opts devNode fuel path source priority).run tree).1 ≠
      .error .outOfFuel) (node : NodePath) :
    PathTree.element ((processEntry codec opts devNode fuel path source priority).run tree).2 node =
      after.element node := by
  rw [h.run_eq (fuelMonotone_processEntry codec opts devNode path source priority) hfuel]

/-- The node at `/*a*/1` gets no alias below `/m`; and an entry without a
destination makes the alias for `/m/1` below the root and not below its device. -/
theorem not_expanded :
    (locate [] "/*a*".toList = ⟨commentNode, none⟩ ∧ locate [] "/c".toList = ⟨otherNode, none⟩ ∧
      ¬ ∃ changed after, Program.Returns (fun fuel => processEntry commentReader
          ⟨true, true, true, 0⟩ [] fuel "/c".toList (.str "/*a*/*".toList) 1) twoSensors changed
          after ∧
        Expanded commentReader twoSensors after ⟨.str "/*a*/*".toList, true⟩
          commentNode otherNode 1) ∧
    (locate commentNode "/m".toList = ⟨plainNode, none⟩ ∧
      locate commentNode [] = ⟨commentNode, none⟩ ∧
      ¬ ∃ changed after,
        Program.Returns (fun fuel => processEntry commentReader
          ⟨true, true, true, 0⟩ commentNode fuel [] (.str "/m/*".toList) 1)
          twoSensors changed after ∧
        Expanded commentReader twoSensors after ⟨.str "/m/*".toList, true⟩ plainNode
          commentNode 1) := by
  have hsensor (node : NodePath) (text : Str) (old : AliasPriority)
      (hnode : twoSensors.element node = .sensorElement ∨ twoSensors.element node = .nullElement) :
      twoSensors.element node ≠ .aliasElement text old := by
    rcases hnode with h | h <;> simp [h]
  refine ⟨⟨rfl, rfl, ?_⟩, rfl, rfl, ?_⟩
  · rintro ⟨changed, after, hreturns, hexpanded⟩
    have hmade := hexpanded.made [oneName] (by decide)
      (fun text old h => absurd h (hsensor _ text old (by decide)))
    rw [← element_of_returns hreturns 9 (by decide +kernel)] at hmade
    revert hmade
    decide +kernel
  · rintro ⟨changed, after, hreturns, hexpanded⟩
    have hmade := hexpanded.made [oneName] (by decide)
      (fun text old h => absurd h (hsensor _ text old (by decide)))
    rw [← element_of_returns hreturns 9 (by decide +kernel)] at hmade
    revert hmade
    decide +kernel

end OSVR.Common
