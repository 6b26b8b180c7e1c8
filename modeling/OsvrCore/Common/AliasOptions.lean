/-
# What the options of alias processing enforce

An entry with a relative path or a relative source is passed over when the option
for it is off. A wildcard is only reported: the entry goes on as if the option were
on. Descriptions without such an entry before the first one that throws are processed
as if the forbidden entries were not there.
-/

import OsvrCore.Common.WildcardExpansion
import Mathlib.Data.List.ReduceOption

set_option autoImplicit false

namespace OSVR.Common

open Math

/-! ## Entries and the options they need -/

/-- The entries of an object: its members, without the one that sets the priority. -/
def Json.aliasEntries (members : JsonMembers) : List (Str × Json) :=
  (members.filter fun member => PRIORITY_KEY ≠ member.1).map fun member =>
    (member.1, (members.lookup member.1).getD .null)

namespace AutomaticAliases

section Definitions

variable (codec : JsonCodec) (opts : AliasProcessorOptions)

/-- An entry that needs an option that is off. -/
def entryForbidden (path : Str) (source : Json) : Bool :=
  (!opts.permitRelativePath && !isPathAbsolute path) ||
    match ParsedAlias.parseValue codec source with
    | .ok parsedSource =>
        (!opts.permitRelativeSource && !isPathAbsolute parsedSource.getLeaf) ||
          (!opts.permitWildcard && doesPathContainWildcard parsedSource.getLeaf)
    | .error _ => false

/-- A forbidden entry that no check stops: all that it needs and does not have is
the wildcard. -/
def entryBypasses (path : Str) (source : Json) : Bool :=
  entryForbidden codec opts path source && !entrySkipped codec opts path source

/-- An entry without a wildcard that no check stops and that throws, whatever the tree. -/
def entryThrows (devNode : NodePath) (path : Str) (source : Json) : Bool :=
  (opts.permitRelativePath || isPathAbsolute path) &&
    match ParsedAlias.parseValue codec source with
    | .error _ => true
    | .ok parsedSource =>
        (opts.permitRelativeSource || isPathAbsolute parsedSource.getLeaf) &&
          !doesPathContainWildcard parsedSource.getLeaf &&
          match (planAlias codec devNode (parsedSource.getAlias codec) path).outcome with
          | .error _ => true
          | .ok _ => false

/-- What is done with an object: its priority is read, which may throw, and then its
entries are processed. -/
def objectSteps (members : JsonMembers) : List (Option (Str × Json)) :=
  match objectPriority opts (.obj members) with
  | .error _ => [none]
  | .ok _ => (Json.aliasEntries members).map some

/-- What is done with an element of an array. -/
def elementSteps : Json → List (Option (Str × Json))
  | .obj members => objectSteps opts members
  | .null | .bool _ | .int _ | .real _ | .str _ | .arr _ => []

/-- What is done with an alias description. -/
def descriptionSteps : Json → List (Option (Str × Json))
  | .arr items => items.flatMap (elementSteps opts)
  | .obj members => objectSteps opts members
  | .null | .bool _ | .int _ | .real _ | .str _ => []

/-- A step that does not throw in every tree. -/
def stepCalm (devNode : NodePath) : Option (Str × Json) → Bool
  | none => false
  | some entry => !entryThrows codec opts devNode entry.1 entry.2

/-- The entries of a description before the first step that throws. -/
def reachedEntries (devNode : NodePath) (val : Json) : List (Str × Json) :=
  ((descriptionSteps opts val).takeWhile (stepCalm codec opts devNode)).reduceOption

/-- Whether the member of an object with a name may stay. -/
def permittedName (members : JsonMembers) (name : Str) : Bool :=
  PRIORITY_KEY = name || !entryForbidden codec opts name ((members.lookup name).getD .null)

/-- The members of an object that may stay. -/
def permittedMembers (members : JsonMembers) : JsonMembers :=
  members.filter fun member => permittedName codec opts members member.1

/-- An element of an array without the forbidden entries. -/
def permittedElement : Json → Json
  | .obj members => .obj (permittedMembers codec opts members)
  | .null => .null
  | .bool b => .bool b
  | .int n => .int n
  | .real q => .real q
  | .str text => .str text
  | .arr items => .arr items

/-- A description without its forbidden entries. -/
def permittedPart : Json → Json
  | .arr items => .arr (items.map (permittedElement codec opts))
  | .obj members => .obj (permittedMembers codec opts members)
  | .null => .null
  | .bool b => .bool b
  | .int n => .int n
  | .real q => .real q
  | .str text => .str text

/-- In any tree, an entry adds and changes no alias. -/
def EntryConfined (devNode : NodePath) (path : Str) (source : Json) : Prop :=
  ∀ (tree : PathTree), (tree.value? devNode).isSome = true → ∀ fuel priority node text old,
    PathTree.element ((processEntry codec opts devNode fuel path source priority).run tree).2 node =
        .aliasElement text old ↔
      tree.element node = .aliasElement text old

/-- A wildcard entry that has no plan for an alias, whatever node is below its stem. -/
def WildcardIdle (devNode : NodePath) (path : Str) (source : Json) : Prop :=
  ∀ parsedSource start, ParsedAlias.parseValue codec source = .ok parsedSource →
    locate devNode (wildcardStem parsedSource.getLeaf) = ⟨start, none⟩ → ∀ below target text,
      (copyPlan codec devNode path parsedSource start (start ++ below)).outcome ≠
        .ok (some (target, text))

end Definitions

variable {codec : JsonCodec} {opts : AliasProcessorOptions} {devNode : NodePath} {tree : PathTree}

/-- The entry that gets through is a wildcard whose path and leaf are permitted. -/
theorem entryBypasses_iff {path : Str} {source : Json} :
    entryBypasses codec opts path source = true ↔
      (opts.permitRelativePath || isPathAbsolute path) = true ∧ ∃ parsedSource,
        ParsedAlias.parseValue codec source = .ok parsedSource ∧
          (opts.permitRelativeSource || isPathAbsolute parsedSource.getLeaf) = true ∧
          doesPathContainWildcard parsedSource.getLeaf = true ∧ opts.permitWildcard = false := by
  rw [entryBypasses, entryForbidden, entrySkipped, ← Bool.not_or]
  generalize (opts.permitRelativePath || isPathAbsolute path) = permitted
  cases ParsedAlias.parseValue codec source with
  | error error => cases permitted <;> simp
  | ok parsedSource =>
      simp only [← Bool.not_or, Except.ok.injEq, exists_eq_left']
      generalize hleaf : (opts.permitRelativeSource || isPathAbsolute parsedSource.getLeaf) = leaf
      cases permitted <;> cases leaf <;> simp [and_comm]

/-- A forbidden entry that does not get through is passed over. -/
theorem entrySkipped_of_forbidden {path : Str} {source : Json}
    (hforbidden : entryForbidden codec opts path source = true)
    (hbypass : entryBypasses codec opts path source = false) :
    entrySkipped codec opts path source = true := by
  rw [entryBypasses, hforbidden] at hbypass
  simpa using hbypass

/-! ## A wildcard that gets through -/

section Wildcard

variable {path : Str} {source : Json} {parsedSource : ParsedAlias} {priority : AliasPriority}

/-- A visit carries out the plan for its node. -/
theorem run_copyAlias (hnode : (tree.value? devNode).isSome = true) (start node : NodePath)
    (helement : (tree.element node).isNull = false) :
    (visitWildcard (copyAlias codec devNode path parsedSource priority) start node).run tree =
      (copyPlan codec devNode path parsedSource start node).execute priority tree := by
  rw [visitWildcard, Program.run_bind_of_ok (TreeProgram.run_valueAt tree node), helement]
  exact run_addAliasFromSourceAndRelativeDest codec tree devNode hnode _ _ priority

/-- Without a plan for an alias, a visit only looks up nodes. -/
theorem unchanged_visit (hnode : (tree.value? devNode).isSome = true) (start node : NodePath)
    (hidle : ∀ target text, (copyPlan codec devNode path parsedSource start node).outcome ≠
      .ok (some (target, text))) :
    Unchanged tree ((visitWildcard (copyAlias codec devNode path parsedSource priority) start
      node).run tree).2 := by
  cases hnull : (tree.element node).isNull with
  | true =>
      rw [visitWildcard, Program.run_bind_of_ok (TreeProgram.run_valueAt tree node), hnull]
      exact .refl tree
  | false =>
      rw [run_copyAlias hnode start node hnull, AliasPlan.execute]
      split
      · exact .touchAll tree _
      · exact .touchAll tree _
      next target text houtcome => exact absurd houtcome (hidle target text)

/-- An idle wildcard leaves every element as it was. -/
theorem confined_of_idle (hidle : WildcardIdle codec devNode path source)
    (hbypass : entryBypasses codec opts path source = true) :
    EntryConfined codec opts devNode path source := by
  obtain ⟨hpath, parsedSource, hparse, hleaf, hwildcard, _⟩ := entryBypasses_iff.mp hbypass
  intro tree hnode fuel priority node text old
  have hunchanged : Unchanged tree
      ((processEntry codec opts devNode fuel path source priority).run tree).2 := by
    rw [run_processEntry_permitted hnode priority hpath hparse hleaf hwildcard]
    rcases hlocated : locate devNode (wildcardStem parsedSource.getLeaf) with ⟨start, _ | error⟩
    · refine (NamedTree.keeps_traverse start (fun node state hbelow hstate => ?_) fuel).1 start _
        List.prefix_rfl (.touch tree start)
      obtain ⟨below, rfl⟩ := hbelow
      exact Unchanged.trans hstate (unchanged_visit (hstate.grows.isSome_value? hnode) start _
        (hidle parsedSource start hparse hlocated below))
    · exact .touch tree start
  rw [hunchanged.element node]

/-- A tree in which a traversal from a stem comes first to a sensor below it. -/
def oneSensorBelow (devNode start below : NodePath) : PathTree :=
  NamedTree.touch
    (NamedTree.touch (PathTree.empty.set (start ++ below) .sensorElement) devNode) start

theorem element_oneSensorBelow (start below node : NodePath) :
    (oneSensorBelow devNode start below).element node =
      if node = start ++ below then .sensorElement else .nullElement := by
  rw [oneSensorBelow, PathTree.element_touch, PathTree.element_touch, PathTree.element_set]
  cases node <;> rfl

/-- The first children lead to the sensor. -/
theorem childNames_oneSensorBelow (start front rest : NodePath) (name : PathName) :
    ((oneSensorBelow devNode start (front ++ name :: rest)).childNames (start ++ front))[0]? =
      some name := by
  have hchain :=
    NamedTree.childNames_set_leaf (default : PathElement) .sensorElement (start ++ front) name rest
  have hgrows :
      NamedTree.Grows (PathTree.empty.set (start ++ (front ++ name :: rest)) .sensorElement)
      (oneSensorBelow devNode start (front ++ name :: rest)) :=
    NamedTree.Grows.trans (NamedTree.Grows.touch _ devNode) (NamedTree.Grows.touch _ start)
  obtain ⟨more, hmore⟩ := hgrows (start ++ front)
  rw [← List.append_assoc] at hmore
  rw [← hmore]
  exact congrArg (fun names => (names ++ more)[0]?) hchain

/-- A node that is an alias stays one. -/
def AliasStays (target : NodePath) (before after : PathTree) : Prop :=
  (∃ text old, before.element target = .aliasElement text old) →
    ∃ text old, after.element target = .aliasElement text old

theorem relates_visit_aliasStays (target start node : NodePath) :
    Program.Relates (AliasStays target)
    (visitWildcard (copyAlias codec devNode path parsedSource priority) start node) := by
  have htrans ⦃first second third : PathTree⦄ (h : AliasStays target first second)
      (h' : AliasStays target second third) :
      AliasStays target first third := fun hfirst => h' (h hfirst)
  apply relates_visitWildcard (fun _ h => h) htrans
  intro node relPath
  apply relates_processSingleEntry codec devNode (fun _ h => h) htrans
  · intro tree path
    rw [AliasStays, PathTree.element_touch]
    exact id
  · intro tree node text priority halias
    rw [PathTree.element_set]
    split
    · exact ⟨text, priority, rfl⟩
    · exact halias

/-- A wildcard with a plan for an alias makes one in some tree. -/
theorem idle_of_confined (hconfined : EntryConfined codec opts devNode path source)
    (hbypass : entryBypasses codec opts path source = true) :
    WildcardIdle codec devNode path source := by
  obtain ⟨hpath, parsedSource, hparse, hleaf, hwildcard, _⟩ := entryBypasses_iff.mp hbypass
  intro parsedSource' start hparse' hlocated below target text houtcome
  obtain rfl := Except.ok.inj (hparse.symm.trans hparse')
  let tree := oneSensorBelow devNode start below
  have hnode : (tree.value? devNode).isSome = true :=
    (NamedTree.Grows.touch _ start).isSome_value? (by simp [NamedTree.value?_touch])
  have hnoalias (node : NodePath) : ∀ text old, tree.element node ≠ .aliasElement text old := by
    intro text old
    rw [element_oneSensorBelow]
    split <;> simp
  have hmade : ∃ text old, PathTree.element ((visitWildcard
      (copyAlias codec devNode path parsedSource 0) start (start ++ below)).run tree).2 target =
        .aliasElement text old := by
    have helement : (tree.element (start ++ below)).isNull = false := by
      rw [element_oneSensorBelow, if_pos rfl]
      rfl
    have hneeds : aliasNeedsUpdate (tree.element target) text 0 = true := by
      rw [element_oneSensorBelow]
      split <;> rfl
    rw [run_copyAlias hnode start _ helement, AliasPlan.execute, houtcome]
    simp only [hneeds, ↓reduceIte]
    exact ⟨text, 0, by simp [PathTree.element_set]⟩
  have hfirst (front : NodePath) (name : PathName) (rest : NodePath)
      (hbelow : below = front ++ name :: rest) :
      (visitWildcard (copyAlias codec devNode path parsedSource 0) start
          (start ++ front)).run tree = (.ok false, tree) ∧
        (tree.childNames (start ++ front))[0]? = some name := by
    apply And.intro
    · have helement : tree.element (start ++ front) = .nullElement := by
        simp [tree, element_oneSensorBelow, hbelow]
      rw [visitWildcard, Program.run_bind_of_ok (TreeProgram.run_valueAt tree _), helement]
      rfl
    · subst hbelow
      exact childNames_oneSensorBelow start front rest name
  obtain ⟨fuel, made, old, hafter⟩ := NamedTree.reaches_traverse
    (relates_visit_aliasStays target start · · ·) below start hfirst hmade
  have hsame : NamedTree.touch tree start = tree := NamedTree.touch_touch _ List.prefix_rfl
  have hrun := run_processEntry_permitted hnode 0 hpath hparse hleaf hwildcard fuel
  rw [hlocated] at hrun
  simp only [hsame] at hrun
  rw [← hrun] at hafter
  exact hnoalias target made old ((hconfined tree hnode fuel 0 target made old).mp hafter)

end Wildcard

/-! ## The permitted entries -/

section Permitted

/-- Members that are kept by their names are looked up as before. -/
theorem lookup_filter (keep : Str → Bool) (members : JsonMembers) {query : Str}
    (hkeep : keep query = true) :
    (members.filter fun member => keep member.1).lookup query = members.lookup query := by
  induction members with
  | nil => rfl
  | cons member members ih =>
      obtain ⟨name, value⟩ := member
      rw [List.filter_cons, Json.lookup_cons]
      split
      · rw [Json.lookup_cons, ih]
      next hdropped =>
        have hname : query ≠ name := by
          rintro rfl
          exact hdropped hkeep
        rw [if_neg hname, ih]

/-- An entry that reports no change and leaves the tree as it is does not show. -/
theorem run_or_of_silent {program next : TreeProgram Bool}
    (h : program.run tree = (.ok false, tree)) :
    (program >>= fun changed => next >>= fun others => pure (changed || others)).run tree =
      next.run tree := by
  rw [Program.run_bind_of_ok h]
  rcases hnext : next.run tree with ⟨reason | others, after⟩
  · rw [Program.run_bind_of_error hnext]
  · rw [Program.run_bind_of_ok hnext]
    rfl

/-- What comes next has to do the same only where it is come to. -/
theorem run_or_congr {program next other : TreeProgram Bool}
    (h : ∀ changed after, program.run tree = (.ok changed, after) →
      next.run after = other.run after) :
    (program >>= fun changed => next >>= fun others => pure (changed || others)).run tree =
      (program >>= fun changed => other >>= fun others => pure (changed || others)).run tree := by
  rcases hrun : program.run tree with ⟨reason | changed, after⟩
  · rw [Program.run_bind_of_error hrun, Program.run_bind_of_error hrun]
  · rw [Program.run_bind_of_ok hrun, Program.run_bind_of_ok hrun, Program.run_bind,
      Program.run_bind, h changed after hrun]

/-- A part that fails, or what comes next does, wherever it is come to. -/
theorem fails_or {program next : TreeProgram Bool}
    (h : ∀ changed after, program.run tree = (.ok changed, after) →
      ∃ reason, (next.run after).1 = .error reason) :
    ∃ reason, ((program >>= fun changed => next >>= fun others =>
      pure (changed || others)).run tree).1 = .error reason := by
  rcases hrun : program.run tree with ⟨reason | changed, after⟩
  · exact ⟨reason, by rw [Program.run_bind_of_error hrun]⟩
  · obtain ⟨reason, hreason⟩ := h changed after hrun
    refine ⟨reason, ?_⟩
    rw [Program.run_bind_of_ok hrun]
    exact Program.fst_run_bind_of_error hreason

theorem processEntry_throws (hnode : (tree.value? devNode).isSome = true) (fuel : ℕ) {path : Str}
    {source : Json} (priority : AliasPriority)
    (h : entryThrows codec opts devNode path source = true) :
    ∃ reason, ((processEntry codec opts devNode fuel path source priority).run tree).1 =
      .error reason := by
  rw [entryThrows, Bool.and_eq_true] at h
  obtain ⟨hpath, h⟩ := h
  cases hparse : ParsedAlias.parseValue codec source with
  | error error =>
      rw [processEntry_eq, hparse]
      have hpermitted : (!opts.permitRelativePath && !isPathAbsolute path) = false := by
        rw [← Bool.not_or, hpath]
        rfl
      rw [hpermitted]
      exact ⟨_, Program.fst_run_bind_of_error rfl⟩
  | ok parsedSource =>
      rw [hparse] at h
      simp only [Bool.and_eq_true] at h
      obtain ⟨⟨hleaf, hsingle⟩, hfails⟩ := h
      rw [run_processEntry_of_permitted hpath hparse hleaf, if_pos hsingle, processSingleEntry,
        run_addAliasFromSourceAndRelativeDest codec tree devNode hnode, AliasPlan.execute]
      split at hfails
      next error houtcome => exact ⟨.thrown error, by rw [houtcome]⟩
      next => cases hfails

/-- An entry that throws is none that is forbidden. -/
theorem entryForbidden_of_throws {path : Str} {source : Json}
    (h : entryThrows codec opts devNode path source = true) :
    entryForbidden codec opts path source = false := by
  rw [entryThrows, Bool.and_eq_true] at h
  obtain ⟨hpath, h⟩ := h
  rw [entryForbidden, ← Bool.not_or, hpath]
  split at h
  next error hparse => rw [hparse]; rfl
  next parsedSource hparse =>
    simp only [Bool.and_eq_true, Bool.not_eq_true'] at h
    obtain ⟨⟨hleaf, hsingle⟩, _⟩ := h
    rw [hparse]
    simp only [← Bool.not_or, hleaf, hsingle, Bool.and_false, Bool.or_false]
    rfl

/-- The member with this name, if it is an entry, does not throw. -/
def calmKey (codec : JsonCodec) (opts : AliasProcessorOptions) (devNode : NodePath)
    (value : Str → Json) (key : Str) : Bool :=
  PRIORITY_KEY = key || !entryThrows codec opts devNode key (value key)

/-- The loop over the members does the same without those that are passed over; those
behind one that throws do not count. -/
theorem processMembers_filter (fuel : ℕ) {obj kept : Json} (priority : AliasPriority)
    (keep : Str → Bool) {value : Str → Json} {keys : List Str}
    (hindex : ∀ key ∈ keys, obj.index key = .ok (value key))
    (hkept : ∀ key ∈ keys, keep key = true → kept.index key = .ok (value key))
    (hthrows : ∀ key ∈ keys, calmKey codec opts devNode value key = false → keep key = true)
    (hdropped : ∀ key ∈ keys.takeWhile (calmKey codec opts devNode value), keep key = false →
      PRIORITY_KEY ≠ key ∧ entrySkipped codec opts key (value key) = true)
    (hnode : (tree.value? devNode).isSome = true) :
    (processMembers codec opts (fun _ => true) devNode fuel obj priority keys).run tree =
      (processMembers codec opts (fun _ => true) devNode fuel kept priority
        (keys.filter keep)).run tree := by
  induction keys generalizing tree with
  | nil => rfl
  | cons key keys ih =>
      rw [List.forall_mem_cons] at hindex hkept hthrows
      rw [List.takeWhile_cons] at hdropped
      have hread : (checkReadable fun _ => true).run tree = (.ok (), tree) := rfl
      cases hkeep : keep key with
      | true =>
          rw [List.filter_cons_of_pos hkeep, processMembers, processMembers]
          split
          next hname =>
            have hcalm : calmKey codec opts devNode value key = true := by simp [calmKey, hname]
            rw [if_pos hcalm, List.forall_mem_cons] at hdropped
            exact ih hindex.2 hkept.2 hthrows.2 hdropped.2 hnode
          next hname =>
            have hrest : ∀ changed after,
                (processEntry codec opts devNode fuel key (value key) priority).run tree =
                  (.ok changed, after) →
                (processMembers codec opts (fun _ => true) devNode fuel obj priority
                    keys).run after =
                  (processMembers codec opts (fun _ => true) devNode fuel kept priority
                    (keys.filter keep)).run after := by
              intro changed after hentry
              have hcalm : calmKey codec opts devNode value key = true := by
                by_contra hthrown
                have hthrown' : entryThrows codec opts devNode key (value key) = true := by
                  simpa [calmKey, hname] using hthrown
                obtain ⟨reason, hreason⟩ := processEntry_throws hnode fuel priority hthrown'
                rw [hentry] at hreason
                cases hreason
              rw [if_pos hcalm, List.forall_mem_cons] at hdropped
              exact ih hindex.2 hkept.2 hthrows.2 hdropped.2
                (isSome_value?_of_run (grows_processEntry codec opts devNode fuel key _ priority)
                  hentry hnode)
            rw [hindex.1, hkept.1 hkeep, Program.run_bind_of_ok hread, Program.run_bind_of_ok hread,
              Program.run_bind_of_ok (TreeProgram.run_ofJson_ok tree _),
              Program.run_bind_of_ok (TreeProgram.run_ofJson_ok tree _)]
            exact run_or_congr hrest
      | false =>
          have hcalm : calmKey codec opts devNode value key = true := by
            by_contra hthrown
            rw [hthrows.1 (by simpa using hthrown)] at hkeep
            cases hkeep
          rw [if_pos hcalm, List.forall_mem_cons] at hdropped
          obtain ⟨hname, hskipped⟩ := hdropped.1 hkeep
          have hentry : (processEntry codec opts devNode fuel key (value key) priority).run tree =
              (.ok false, tree) := run_processEntry_skipped fuel hskipped
          rw [List.filter_cons_of_neg (by simp [hkeep]), ← ih hindex.2 hkept.2 hthrows.2 hdropped.2
            hnode, processMembers, if_neg hname, hindex.1, Program.run_bind_of_ok hread,
            Program.run_bind_of_ok (TreeProgram.run_ofJson_ok tree _)]
          exact run_or_of_silent hentry

/-- A member that throws makes the loop fail. -/
theorem processMembers_fails (fuel : ℕ) {obj : Json} (priority : AliasPriority)
    {value : Str → Json} {keys : List Str}
    (hindex : ∀ key ∈ keys, obj.index key = .ok (value key))
    (h : ∃ key ∈ keys, calmKey codec opts devNode value key = false)
    (hnode : (tree.value? devNode).isSome = true) :
    ∃ reason, ((processMembers codec opts (fun _ => true) devNode fuel obj priority keys).run
      tree).1 = .error reason := by
  induction keys generalizing tree with
  | nil =>
      obtain ⟨key, hmem, _⟩ := h
      cases hmem
  | cons key keys ih =>
      rw [List.forall_mem_cons] at hindex
      rw [List.exists_mem_cons_iff] at h
      have hread : (checkReadable fun _ => true).run tree = (.ok (), tree) := rfl
      rw [processMembers]
      split
      next hname =>
        exact ih hindex.2 (h.resolve_left (by simp [calmKey, hname])) hnode
      next hname =>
        rw [hindex.1, Program.run_bind_of_ok hread,
          Program.run_bind_of_ok (TreeProgram.run_ofJson_ok tree _)]
        apply fails_or
        intro changed after hentry
        rcases h with hhead | htail
        · have hthrown : entryThrows codec opts devNode key (value key) = true := by
            simpa [calmKey, hname] using hhead
          obtain ⟨reason, hreason⟩ := processEntry_throws hnode fuel priority hthrown
          rw [hentry] at hreason
          cases hreason
        · exact ih hindex.2 htail (isSome_value?_of_run
            (grows_processEntry codec opts devNode fuel key _ priority) hentry hnode)

/-- The values that the names of an object are looked up as. -/
theorem index_members {members : JsonMembers} {key : Str} (hkey : key ∈ members.map Prod.fst) :
    Json.index key (.obj members) = .ok ((members.lookup key).getD .null) := by
  obtain ⟨value, hvalue, -⟩ := exists_lookup_of_mem hkey
  rw [Json.index, Json.member?, hvalue]
  rfl

/-- The steps of an object, by its names. -/
theorem mem_takeWhile_aliasEntries {value : Str → Json} {keys : List Str} {key : Str}
    (hkey : key ∈ keys.takeWhile (calmKey codec opts devNode value)) (hname : PRIORITY_KEY ≠ key) :
    some (key, value key) ∈ (((keys.filter (PRIORITY_KEY ≠ ·)).map
      fun key => some (key, value key)).takeWhile (stepCalm codec opts devNode)) := by
  induction keys with
  | nil => cases hkey
  | cons first keys ih =>
      rw [List.takeWhile_cons] at hkey
      split at hkey
      next hcalm =>
        by_cases hfirst : PRIORITY_KEY = first
        · rw [List.filter_cons_of_neg (by simpa using hfirst)]
          rcases List.mem_cons.mp hkey with rfl | hkey
          · exact absurd hfirst hname
          · exact ih hkey
        · have hstep : stepCalm codec opts devNode (some (first, value first)) = true := by
            simpa [calmKey, hfirst, stepCalm] using hcalm
          rw [List.filter_cons_of_pos (by simpa using hfirst), List.map_cons, List.takeWhile_cons,
            if_pos hstep]
          rcases List.mem_cons.mp hkey with rfl | hkey
          · exact List.mem_cons_self
          · exact List.mem_cons_of_mem _ (ih hkey)
      next => cases hkey

theorem aliasEntries_eq (members : JsonMembers) :
    (Json.aliasEntries members).map some =
      ((members.map Prod.fst).filter (PRIORITY_KEY ≠ ·)).map
        fun key => some (key, (members.lookup key).getD .null) := by
  rw [Json.aliasEntries, List.filter_map, List.map_map, List.map_map]
  rfl

/-- An object is processed as if its forbidden entries were not there. -/
theorem processObject_permitted (fuel : ℕ) {members : JsonMembers}
    (h : ∀ entry, some entry ∈ (objectSteps opts members).takeWhile (stepCalm codec opts devNode) →
      entryBypasses codec opts entry.1 entry.2 = false)
    (hnode : (tree.value? devNode).isSome = true) :
    (processObject codec opts (fun _ => true) devNode fuel (.obj members)).run tree =
      (processObject codec opts (fun _ => true) devNode fuel
        (.obj (permittedMembers codec opts members))).run tree := by
  let keep := permittedName codec opts members
  let value (key : Str) : Json := (members.lookup key).getD .null
  have hlookup (key : Str) (hkeep : keep key = true) :
      (permittedMembers codec opts members).lookup key = members.lookup key :=
    lookup_filter keep members hkeep
  have hpriority : objectPriority opts (.obj (permittedMembers codec opts members)) =
      objectPriority opts (.obj members) := by
    have hmember : Json.member? PRIORITY_KEY (.obj (permittedMembers codec opts members)) =
        Json.member? PRIORITY_KEY (.obj members) :=
      congrArg Except.ok (hlookup PRIORITY_KEY (by simp [keep, permittedName]))
    rw [objectPriority, hmember]
    rfl
  have hnames : (permittedMembers codec opts members).map Prod.fst =
      (members.map Prod.fst).filter keep := by
    rw [List.filter_map]
    rfl
  rw [processObject, processObject, hpriority]
  cases hread : objectPriority opts (.obj members) with
  | error error => rfl
  | ok priority =>
      rw [Program.run_bind_of_ok (TreeProgram.run_ofJson_ok tree priority),
        Program.run_bind_of_ok (TreeProgram.run_ofJson_ok tree priority)]
      show (processMembers codec opts (fun _ => true) devNode fuel (.obj members) priority
          (members.map Prod.fst)).run tree =
        (processMembers codec opts (fun _ => true) devNode fuel
          (.obj (permittedMembers codec opts members)) priority
          ((permittedMembers codec opts members).map Prod.fst)).run tree
      rw [hnames]
      apply processMembers_filter fuel priority keep
        (fun key hkey => index_members hkey) _ _ _ hnode
      · intro key hkey hkeep
        have hmem : key ∈ (permittedMembers codec opts members).map Prod.fst := by
          rw [hnames]
          exact List.mem_filter.mpr ⟨hkey, hkeep⟩
        rw [index_members hmem, hlookup key hkeep]
      · intro key _ hthrown
        simp only [calmKey, Bool.or_eq_false_iff, decide_eq_false_iff_not,
          Bool.not_eq_false'] at hthrown
        simp only [keep, permittedName]
        rw [entryForbidden_of_throws hthrown.2]
        simp
      · intro key hkey hdropped
        have hdropped' : PRIORITY_KEY ≠ key ∧ entryForbidden codec opts key (value key) = true := by
          simpa [keep, permittedName, value] using hdropped
        refine ⟨hdropped'.1, entrySkipped_of_forbidden hdropped'.2 (h (key, value key) ?_)⟩
        rw [objectSteps, hread, aliasEntries_eq]
        exact mem_takeWhile_aliasEntries hkey hdropped'.1

/-- A step that throws makes the processing of an object fail. -/
theorem processObject_fails (fuel : ℕ) {members : JsonMembers}
    (h : ∃ step ∈ objectSteps opts members, stepCalm codec opts devNode step = false)
    (hnode : (tree.value? devNode).isSome = true) :
    ∃ reason, ((processObject codec opts (fun _ => true) devNode fuel (.obj members)).run tree).1 =
      .error reason := by
  rw [processObject]
  cases hread : objectPriority opts (.obj members) with
  | error error => exact ⟨_, Program.fst_run_bind_of_error rfl⟩
  | ok priority =>
      rw [Program.run_bind_of_ok (TreeProgram.run_ofJson_ok tree priority)]
      rw [objectSteps, hread, aliasEntries_eq] at h
      obtain ⟨step, hstep, hthrown⟩ := h
      obtain ⟨key, hkey, rfl⟩ := List.mem_map.mp hstep
      obtain ⟨hmem, hname⟩ := List.mem_filter.mp hkey
      apply processMembers_fails fuel priority (fun key hkey => index_members hkey) _ hnode
      have hname' : PRIORITY_KEY ≠ key := by simpa using hname
      exact ⟨key, hmem, by simpa [calmKey, stepCalm, hname'] using hthrown⟩

theorem processArray_permitted (fuel : ℕ) {items : List Json}
    (h : ∀ entry, some entry ∈ (items.flatMap (elementSteps opts)).takeWhile
      (stepCalm codec opts devNode) → entryBypasses codec opts entry.1 entry.2 = false)
    (hnode : (tree.value? devNode).isSome = true) :
    (processArray codec opts (fun _ => true) devNode fuel items).run tree =
      (processArray codec opts (fun _ => true) devNode fuel
        (items.map (permittedElement codec opts))).run tree := by
  induction items generalizing tree with
  | nil => rfl
  | cons elt rest ih =>
      rw [List.flatMap_cons, List.takeWhile_append] at h
      have hread : (checkReadable fun _ => true).run tree = (.ok (), tree) := rfl
      have helement : (processElement codec opts (fun _ => true) devNode fuel elt).run tree =
          (processElement codec opts (fun _ => true) devNode fuel
            (permittedElement codec opts elt)).run tree := by
        cases elt with
        | obj members =>
            refine processObject_permitted fuel (fun entry hentry => h entry ?_) hnode
            split
            next => exact List.mem_append_left _ ((List.takeWhile_sublist _).subset hentry)
            next => exact hentry
        | null | bool _ | int _ | real _ | str _ | arr _ => rfl
      rw [List.map_cons, processArray, processArray, Program.run_bind_of_ok hread,
        Program.run_bind_of_ok hread, Program.run_bind, helement, ← Program.run_bind]
      apply run_or_congr
      intro changed after hrun
      have hafter : (after.value? devNode).isSome = true :=
        isSome_value?_of_run
          (grows_processElement codec opts (fun _ => true) devNode fuel _) hrun hnode
      refine ih (fun entry hentry => h entry ?_) hafter
      -- The element has not thrown, so that all of its steps are taken.
      have hcalm : ∀ step ∈ elementSteps opts elt, stepCalm codec opts devNode step = true := by
        intro step hstep
        by_contra hthrown
        cases elt with
        | obj members =>
            have hsteps : ∃ step ∈ objectSteps opts members,
                stepCalm codec opts devNode step = false :=
              ⟨step, hstep, by simpa using hthrown⟩
            obtain ⟨reason, hreason⟩ := processObject_fails fuel hsteps hnode
            have hfailed : ((processElement codec opts (fun _ => true) devNode fuel
              (permittedElement codec opts (.obj members))).run tree).1 = .error reason := by
                rw [← helement]
                exact hreason
            rw [hrun] at hfailed
            cases hfailed
        | null | bool _ | int _ | real _ | str _ | arr _ => cases hstep
      rw [List.takeWhile_eq_self_iff.mpr hcalm, if_pos rfl]
      exact List.mem_append_right _ hentry

/-- Without an entry that gets through, before the first that throws, a description is
processed as if its forbidden entries were not there. -/
theorem process_permittedPart (fuel : ℕ) {val : Json}
    (h : ∀ entry ∈ reachedEntries codec opts devNode val,
      entryBypasses codec opts entry.1 entry.2 = false)
    (hnode : (tree.value? devNode).isSome = true) :
    (opts.process codec (fun _ => true) fuel devNode val).run tree =
      (opts.process codec (fun _ => true) fuel devNode
        (permittedPart codec opts val)).run tree := by
  simp only [reachedEntries, List.reduceOption_mem_iff] at h
  cases val with
  | arr items => exact processArray_permitted fuel h hnode
  | obj members => exact processObject_permitted fuel h hnode
  | null | bool _ | int _ | real _ | str _ => rfl

end Permitted

/-! ## The options on a description -/

/-- The forbidden entries of a description that are reached are confined exactly if
those that get through have no plan for an alias. If none gets through, the permitted
entries have exactly the effect they have without the forbidden ones. -/
theorem forbidden_entries_iff (codec : JsonCodec) (opts : AliasProcessorOptions)
    (devNode : NodePath) (val : Json) :
    ((∀ entry ∈ reachedEntries codec opts devNode val,
        entryForbidden codec opts entry.1 entry.2 = true →
        EntryConfined codec opts devNode entry.1 entry.2) ↔
      ∀ entry ∈ reachedEntries codec opts devNode val,
        entryBypasses codec opts entry.1 entry.2 = true →
        WildcardIdle codec devNode entry.1 entry.2) ∧
    ((∀ entry ∈ reachedEntries codec opts devNode val,
        entryBypasses codec opts entry.1 entry.2 = false) →
      ∀ fuel (tree : PathTree), (tree.value? devNode).isSome = true →
        (opts.process codec (fun _ => true) fuel devNode val).run tree =
          (opts.process codec (fun _ => true) fuel devNode
            (permittedPart codec opts val)).run tree) := by
  apply And.intro
  · apply Iff.intro
    · intro h entry hentry hbypass
      have hforbidden : entryForbidden codec opts entry.1 entry.2 = true := by
        rw [entryBypasses, Bool.and_eq_true] at hbypass
        exact hbypass.1
      exact idle_of_confined (h entry hentry hforbidden) hbypass
    · intro h entry hentry hforbidden
      cases hbypass : entryBypasses codec opts entry.1 entry.2 with
      | true => exact confined_of_idle (h entry hentry hbypass) hbypass
      | false =>
          intro tree _ fuel priority node text old
          rw [run_processEntry_skipped fuel (entrySkipped_of_forbidden hforbidden hbypass)]
  · exact fun h fuel tree hnode => process_permittedPart fuel h hnode

/-- Behind a priority that is no number, or an entry that throws, nothing is reached. -/
example :
    reachedEntries commentReader {} []
        (.obj [(PRIORITY_KEY, .str "high".toList), ("/c".toList, .str "/m/*".toList)]) = [] ∧
      reachedEntries commentReader {} []
        (.obj [("/a//b".toList, .str "/x".toList), ("/c".toList, .str "/m/*".toList)]) = [] := by
  decide

/-- With the default options, `/c : /m/*` is forbidden, and it still makes an alias. -/
theorem not_confined :
    reachedEntries commentReader {} [] (.obj [("/c".toList, .str "/m/*".toList)]) =
        [("/c".toList, .str "/m/*".toList)] ∧
      entryForbidden commentReader {} "/c".toList (.str "/m/*".toList) = true ∧
      ¬ EntryConfined commentReader {} [] "/c".toList (.str "/m/*".toList) ∧
      ¬ ∀ fuel (tree : PathTree), (tree.value? []).isSome = true →
        (AliasProcessorOptions.process {} commentReader (fun _ => true) fuel []
            (.obj [("/c".toList, .str "/m/*".toList)])).run tree =
          (AliasProcessorOptions.process {} commentReader (fun _ => true) fuel []
            (permittedPart commentReader {}
              (.obj [("/c".toList, .str "/m/*".toList)]))).run tree := by
  refine ⟨by decide, by decide, fun hconfined => ?_, fun hsame => ?_⟩
  · have hmade := (hconfined twoSensors rfl 9 0 (otherNode ++ [oneName]) "/m/1".toList 0).mp
      (by decide +kernel)
    revert hmade
    decide
  · have hreported := congrArg Prod.fst (hsame 9 twoSensors rfl)
    revert hreported
    decide +kernel

end AutomaticAliases

end OSVR.Common
