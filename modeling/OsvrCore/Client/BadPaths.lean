/-
# Paths whose alias cannot be parsed

Resolving such a path fails in one of two ways. An alias source that is not
valid gives no result and the loop over the paths goes on; a leaf that is no
absolute path of names throws, and the loop ends there. The module compares a
replacement of the path tree with one where the path has no interface.
-/

import OsvrCore.Client.ClientInterfaceObjectManager

set_option autoImplicit false

namespace OSVR.Client

open Common Math

/-- The source of an alias that is parsed without an exception and is not valid. -/
def GivesUp (codec : JsonCodec) (source : Str) : Prop :=
  ∃ parsed, ParsedAlias.parse codec source = .ok parsed ∧ parsed.isValid = false

/-- The aliases from a node on lead to one whose source names no node. -/
def BadTarget (env : ClientEnvironment) (tree : PathTree) (node : NodePath) (source : Str) : Prop :=
  ∃ hops last, hops < env.fuel ∧ Orbit.nth (aliasLink env.codec tree) hops node = some last ∧
    (tree.value? last).bind PathElement.aliasSource? = some source ∧
    (leafOfSource env.codec source).bind nodeOfPath = none

/-- A bad target stays bad while other paths are resolved. -/
theorem BadTarget.congr {env : ClientEnvironment} {left right : PathTree} {node : NodePath}
    {source : Str} (h : BadTarget env left node source)
    (hsame : SameAliases left right) : BadTarget env right node source := by
  have ⟨hops, last, hfuel, hlast, halias, hbad⟩ := h
  rw [hsame.aliasLink_eq] at hlast
  rw [hsame last] at halias
  exact ⟨hops, last, hfuel, hlast, halias, hbad⟩

/-! ## Resolving a bad path -/

section Resolution

variable {codec : JsonCodec} {tree : PathTree} {path source : Str} {node : NodePath}

/-- An alias is there before it is looked up, and is not inferred to be anything else. -/
theorem run_resolve_alias {priority : AliasPriority} (hpath : nodeOfPath path = some node)
    (halias : tree.value? node = some (.aliasElement source priority)) (fuel : ℕ)
    (found : OriginalSource) :
    (resolveTreeNodeImpl codec (fuel + 1) path found).run tree =
      match ParsedAlias.parse codec source with
      | .error error => (.error (.thrown (.json error)), tree)
      | .ok parsed =>
          if parsed.isValid then
            (resolveTreeNodeImpl codec fuel parsed.getLeaf
              (if parsed.simple then found else found.nestTransform parsed.value)).run tree
          else (.ok found, tree) := by
  have hnode : (getNodeByPath path).run tree = (.ok node, tree) := by
    rw [run_getNodeByPath]
    unfold nodeOfPath at hpath
    split at hpath
    next reached hlocated =>
      cases hpath
      rw [hlocated, tree.touch_of_value? halias]
      rfl
    next => cases hpath
  have hinfer : (ifNullTryInferFromParent node).run tree = (.ok (), tree) := by
    simp [ifNullTryInferFromParent, TreeProgram.valueAt, Program.run_bind, halias]
  have hvalue :
      (TreeProgram.valueAt node).run tree = (.ok (.aliasElement source priority), tree) := by
    simp [TreeProgram.valueAt, Program.run_bind, halias]
  rw [resolveTreeNodeImpl, Program.run_bind_of_ok hnode, Program.run_bind_of_ok hinfer,
    Program.run_bind_of_ok hvalue, visitElement]
  cases hparse : ParsedAlias.parse codec source with
  | error error => rw [Program.run_bind_of_error (TreeProgram.run_ofJson_error tree error)]
  | ok parsed =>
      rw [Program.run_bind_of_ok (TreeProgram.run_ofJson_ok tree parsed)]
      cases hvalid : parsed.isValid with
      | false => simp [hvalid]
      | true => simp [hvalid]

/-- The element of a node with an alias source. -/
theorem exists_alias (h : (tree.value? node).bind PathElement.aliasSource? = some source) :
    ∃ priority, tree.value? node = some (.aliasElement source priority) := by
  have ⟨element, hvalue, hsource⟩ := Option.bind_eq_some_iff.mp h
  cases element with
  | aliasElement aliasSource priority =>
      cases hsource
      exact ⟨priority, hvalue⟩
  | _ => cases hsource

/-- A leaf that names no node throws. -/
theorem resolve_of_bad_leaf (hpath : nodeOfPath path = none) (fuel : ℕ) (found : OriginalSource) :
    ∃ reason, ((resolveTreeNodeImpl codec fuel path found).run tree).1 = .error reason := by
  cases fuel with
  | zero => exact ⟨.outOfFuel, rfl⟩
  | succ fuel =>
      have hrun := run_getNodeByPath tree path
      unfold nodeOfPath at hpath
      split at hpath
      next => cases hpath
      next reached error hlocated =>
        rw [hlocated] at hrun
        exact ⟨.thrown error, by rw [resolveTreeNodeImpl, Program.run_bind_of_error hrun]⟩

/-- How a source that names no node ends a resolution. -/
def EndsBadly (codec : JsonCodec) (source : Str) (tree : PathTree)
    (outcome : Except (Abort TreeError) OriginalSource × PathTree) : Prop :=
  (GivesUp codec source ∧ ∃ found : OriginalSource, found.isResolved = false ∧
    outcome = (.ok found, tree)) ∨
  (¬ GivesUp codec source ∧ ∃ reason, outcome.1 = .error reason)

theorem resolve_at_bad_source {priority : AliasPriority} (hpath : nodeOfPath path = some node)
    (halias : tree.value? node = some (.aliasElement source priority))
    (hbad : (leafOfSource codec source).bind nodeOfPath = none) (fuel : ℕ) (found : OriginalSource)
    (hfound : found.isResolved = false) :
    EndsBadly codec source tree ((resolveTreeNodeImpl codec (fuel + 1) path found).run tree) := by
  rw [run_resolve_alias hpath halias]
  unfold leafOfSource at hbad
  cases hparse : ParsedAlias.parse codec source with
  | error error =>
      refine .inr ⟨?_, _, rfl⟩
      intro ⟨parsed, hparsed, _⟩
      rw [hparse] at hparsed
      cases hparsed
  | ok parsed =>
      dsimp only
      rw [hparse] at hbad
      cases hvalid : parsed.isValid with
      | false => exact .inl ⟨⟨parsed, hparse, hvalid⟩, found, hfound, rfl⟩
      | true =>
          refine .inr ⟨?_, ?_⟩
          · intro ⟨other, hother, hinvalid⟩
            rw [hparse] at hother
            cases hother
            rw [hvalid] at hinvalid
            cases hinvalid
          · apply resolve_of_bad_leaf
            simpa [hvalid] using hbad

/-- Transforms on the way do not resolve a source. -/
theorem isResolved_nestTransform (found : OriginalSource) (transform : Json) :
    (found.nestTransform transform).isResolved = found.isResolved := rfl

/-- The aliases on the way to a bad source are followed, in a tree that stays as it is. -/
theorem resolve_badTarget {hops fuel : ℕ} {last : NodePath} (hfuel : hops < fuel)
    (hpath : nodeOfPath path = some node)
    (hlast : Orbit.nth (aliasLink codec tree) hops node = some last)
    (halias : (tree.value? last).bind PathElement.aliasSource? = some source)
    (hbad : (leafOfSource codec source).bind nodeOfPath = none) (found : OriginalSource)
    (hfound : found.isResolved = false) :
    EndsBadly codec source tree ((resolveTreeNodeImpl codec fuel path found).run tree) := by
  induction hops generalizing fuel path node found with
  | zero =>
      cases hlast
      have ⟨fuel, hsucc⟩ := Nat.exists_eq_succ_of_ne_zero (Nat.ne_zero_of_lt hfuel)
      have ⟨priority, hvalue⟩ := exists_alias halias
      rw [hsucc]
      exact resolve_at_bad_source hpath hvalue hbad fuel found hfound
  | succ hops ih =>
      have ⟨fuel, hsucc⟩ := Nat.exists_eq_succ_of_ne_zero (Nat.ne_zero_of_lt hfuel)
      have ⟨next, hlink, hrest⟩ := Option.bind_eq_some_iff.mp hlast
      have ⟨leaf, hleaf, hnext⟩ := Option.bind_eq_some_iff.mp hlink
      have ⟨first, hfirst, hparsed⟩ := Option.bind_eq_some_iff.mp hleaf
      have ⟨priority, hvalue⟩ := exists_alias hfirst
      rw [hsucc, run_resolve_alias hpath hvalue]
      unfold leafOfSource at hparsed
      cases hparse : ParsedAlias.parse codec first with
      | error error =>
          rw [hparse] at hparsed
          cases hparsed
      | ok parsed =>
          simp only [hparse, Option.ite_none_right_eq_some, Option.some.injEq] at hparsed
          dsimp only
          rw [if_pos hparsed.1, hparsed.2]
          apply ih (Nat.lt_of_succ_lt_succ (hsucc ▸ hfuel)) hnext hrest
          split
          · exact hfound
          · rw [isResolved_nestTransform, hfound]

end Resolution

namespace ClientManager

variable {manager : ClientManager} {env : ClientEnvironment} {nodes : Json} {node : NodePath}
  {source : Str}

/-! ## The attempt at a bad path -/

theorem relates_attemptAt (manager : ClientManager) (env : ClientEnvironment) (node : NodePath) :
    Program.Relates SameAliases (attemptAt env manager node) := by
  unfold attemptAt attempt
  apply SameAliases.relates_bind
  · intro tree
    rw [Program.snd_run_mapError]
    exact sameAliases_resolveTreeNode env.codec env.fuel (getFullPath node) tree
  · intro found tree
    cases found with
    | none => exact .refl tree
    | some found =>
        dsimp only
        unfold invokeFactory
        cases env.factoriesByInterface (interfaceName found) with
        | none => exact .refl tree
        | some factory =>
            rw [Program.run_bind_of_ok (Program.run_get tree)]
            cases factory found (tree.element (found.device.getD []))
              (manager.interfaces.value node).interfaces <;> exact .refl tree

/-- The attempt at a bad path makes no handler: it leaves the tree as it was, or throws. -/
theorem attemptAt_badTarget (manager : ClientManager) {tree : PathTree}
    (h : BadTarget env tree node source) :
    (GivesUp env.codec source ∧ (attemptAt env manager node).run tree = (.ok false, tree)) ∨
      (¬ GivesUp env.codec source ∧
        ∃ reason, ((attemptAt env manager node).run tree).1 = .error reason) := by
  have ⟨hops, last, hfuel, hlast, halias, hbad⟩ := h
  have hpath : nodeOfPath (getFullPath node) = some node := by
    simp [nodeOfPath, locateAbsolute_getFullPath]
  unfold attemptAt attempt
  rcases resolve_badTarget hfuel hpath hlast halias hbad .empty rfl with
    ⟨hgives, found, hfound, hrun⟩ | ⟨hthrows, reason, hrun⟩
  · refine .inl ⟨hgives, ?_⟩
    have hresolved : (resolveTreeNode env.codec env.fuel (getFullPath node)).run tree =
        (.ok none, tree) := by
      rw [resolveTreeNode, Program.run_bind_of_ok hrun, hfound]
      rfl
    rw [Program.run_bind_of_ok (Program.run_mapError_of_ok hresolved)]
    rfl
  · refine .inr ⟨hthrows, reason.map .tree, ?_⟩
    apply Program.fst_run_bind_of_error
    have hresolved : ((resolveTreeNode env.codec env.fuel (getFullPath node)).run tree).1 =
        .error reason := Program.fst_run_bind_of_error hrun
    rcases hrun' : (resolveTreeNode env.codec env.fuel (getFullPath node)).run tree with
      ⟨result, after⟩
    rw [hrun'] at hresolved
    cases hresolved
    rw [Program.run_mapError_of_error hrun']

/-! ## The client without the bad path -/

/-- The client where a node has neither interfaces nor a handler. -/
def vacated (manager : ClientManager) (node : NodePath) : ClientManager :=
  { manager with interfaces := (manager.interfaces.removeHandler node).setValue node default }

/-- After the replacement every other path has a handler exactly as it would if the node
had no interface. -/
def Isolates (manager : ClientManager) (env : ClientEnvironment) (nodes : Json)
    (node : NodePath) : Prop :=
  ∀ other, other ≠ node →
    (((manager.replaced env nodes).interfaces.value other).handler.isSome = true ↔
      (((manager.vacated node).replaced env nodes).interfaces.value other).handler.isSome = true)

/-- A path that comes after the node in the order of the interface tree would be reached
and would connect if the node had no interface. -/
def Shadows (manager : ClientManager) (env : ClientEnvironment) (nodes : Json)
    (node : NodePath) : Prop :=
  ∃ before after other, manager.waiting = before ++ node :: after ∧ (newTree env nodes).1 = .ok () ∧
    Program.AllPass (Program.attempts (attemptAt env manager) before (newTree env nodes).2) ∧
    (other, .ok true) ∈ Program.passed (Program.attempts (attemptAt env manager) after
      (Program.afterAttempts (attemptAt env manager) before (newTree env nodes).2))

theorem value_vacated {other : NodePath} (hne : other ≠ node) :
    (manager.vacated node).interfaces.value other = manager.interfaces.value other := by
  unfold vacated
  rw [InterfaceTree.value_setValue, if_neg hne, InterfaceTree.value_removeHandler, if_neg hne]

theorem waiting_eq (manager : ClientManager) :
    manager.waiting = manager.interfaces.nodes.filter fun node =>
      !(manager.interfaces.value node).interfaces.isEmpty := by
  unfold waiting
  rw [InterfaceTree.nodes_clearHandlers]
  apply List.filter_congr
  intro node _
  simp [InterfaceTree.wantsHandler, InterfaceTree.value_clearHandlers]

theorem nodup_waiting (manager : ClientManager) : manager.waiting.Nodup := by
  rw [waiting_eq]
  exact (NamedTree.nodup_paths _).filter _

/-- A node with interfaces is tried. -/
theorem mem_waiting (hinterfaces : (manager.interfaces.value node).interfaces ≠ []) :
    node ∈ manager.waiting := by
  rw [waiting_eq, List.mem_filter]
  constructor
  · by_contra hnode
    rw [InterfaceTree.value_of_not_mem_nodes hnode] at hinterfaces
    exact hinterfaces rfl
  · simpa using hinterfaces

theorem waiting_vacated (hinterfaces : (manager.interfaces.value node).interfaces ≠ []) :
    (manager.vacated node).waiting = manager.waiting.filter (· ≠ node) := by
  have hnode : node ∈ manager.interfaces.nodes := by
    have hmem := mem_waiting hinterfaces
    rw [waiting_eq] at hmem
    exact (List.mem_filter.mp hmem).1
  have hnodes : (manager.vacated node).interfaces.nodes = manager.interfaces.nodes := by
    unfold vacated
    have hremoved := InterfaceTree.nodes_removeHandler hnode
    rw [InterfaceTree.nodes_setValue (by rw [hremoved]; exact hnode), hremoved]
  rw [waiting_eq, waiting_eq, hnodes, List.filter_filter]
  apply List.filter_congr
  intro other _
  by_cases hother : other = node
  · have hempty : ((manager.vacated node).interfaces.value node).interfaces = [] := by
      unfold vacated
      rw [InterfaceTree.value_setValue, if_pos rfl]
      rfl
    rw [hother, hempty]
    simp
  · rw [value_vacated hother]
    simp [hother]

/-- The order of the paths when one of them has no interface. -/
theorem waiting_vacated_of_split (hinterfaces : (manager.interfaces.value node).interfaces ≠ [])
    {before after : List NodePath} (hsplit : manager.waiting = before ++ node :: after) :
    (manager.vacated node).waiting = before ++ after ∧ node ∉ before ∧ node ∉ after := by
  have hnodup := manager.nodup_waiting
  rw [hsplit, List.nodup_middle, List.nodup_cons, List.mem_append, not_or] at hnodup
  have ⟨⟨hbefore, hafter⟩, _⟩ := hnodup
  refine ⟨?_, hbefore, hafter⟩
  rw [waiting_vacated hinterfaces, hsplit, List.filter_append, List.filter_cons_of_neg (by simp)]
  congr 1
  all_goals
    rw [List.filter_eq_self]
    intro other hother
    rw [decide_eq_true_iff]
    intro heq
    rw [heq] at hother
    contradiction

/-! ## Isolation -/

/-- The attempts before and after a node, made as if it had no interface. -/
theorem outcomes_vacated (hinterfaces : (manager.interfaces.value node).interfaces ≠ [])
    {before after : List NodePath} (hsplit : manager.waiting = before ++ node :: after) :
    (manager.vacated node).outcomes env nodes =
      Program.attempts (attemptAt env manager) before (newTree env nodes).2 ++
        Program.attempts (attemptAt env manager) after
          (Program.afterAttempts (attemptAt env manager) before (newTree env nodes).2) := by
  have ⟨hwaiting, hbefore, hafter⟩ := waiting_vacated_of_split hinterfaces hsplit
  have hsame : ∀ other ∈ before ++ after,
      attemptAt env (manager.vacated node) other = attemptAt env manager other := by
    intro other hother
    have hne : other ≠ node := by
      intro heq
      rw [heq, List.mem_append] at hother
      exact hother.elim hbefore hafter
    rw [attemptAt, attemptAt, value_vacated hne]
  rw [outcomes, hwaiting, (Program.attempts_congr hsame).1, Program.attempts_append]

/-- The attempt at the node comes between them. -/
theorem outcomes_of_split {before after : List NodePath}
    (hsplit : manager.waiting = before ++ node :: after) :
    let reached := Program.afterAttempts (attemptAt env manager) before (newTree env nodes).2
    manager.outcomes env nodes =
      Program.attempts (attemptAt env manager) before (newTree env nodes).2 ++
        (node, ((attemptAt env manager node).run reached).1) ::
          Program.attempts (attemptAt env manager) after
            ((attemptAt env manager node).run reached).2 := by
  dsimp only
  rw [outcomes, hsplit, Program.attempts_append]
  rfl

/-- The node is bad also when its turn comes. -/
theorem badTarget_afterAttempts (hbad : BadTarget env (newTree env nodes).2 node source)
    (before : List NodePath) :
    BadTarget env (Program.afterAttempts (attemptAt env manager) before (newTree env nodes).2)
      node source := by
  apply hbad.congr
  exact Program.relates_afterAttempts SameAliases.refl
    (fun first second third hfirst hsecond => hfirst.trans hsecond) (relates_attemptAt manager env)
    before _

/-- Which other paths have a handler after the replacement, with the bad path and without it. -/
theorem isSome_handler_replaced (hinterfaces : (manager.interfaces.value node).interfaces ≠ [])
    {before after : List NodePath} (hsplit : manager.waiting = before ++ node :: after)
    (hbad : BadTarget env (newTree env nodes).2 node source) {other : NodePath}
    (hother : other ≠ node) :
    let reached := Program.afterAttempts (attemptAt env manager) before (newTree env nodes).2
    let first := Program.attempts (attemptAt env manager) before (newTree env nodes).2
    let second := Program.attempts (attemptAt env manager) after reached
    ((((manager.vacated node).replaced env nodes).interfaces.value other).handler.isSome = true ↔
        (newTree env nodes).1 = .ok () ∧ ((other, .ok true) ∈ Program.passed first ∨
          Program.AllPass first ∧ (other, .ok true) ∈ Program.passed second)) ∧
      (((manager.replaced env nodes).interfaces.value other).handler.isSome = true ↔
        (newTree env nodes).1 = .ok () ∧ ((other, .ok true) ∈ Program.passed first ∨
          GivesUp env.codec source ∧ Program.AllPass first ∧
            (other, .ok true) ∈ Program.passed second)) := by
  dsimp only
  constructor
  · rw [(value_replaced _ env nodes other).2, outcomes_vacated hinterfaces hsplit,
      Program.mem_passed_append]
  · rw [(value_replaced _ env nodes other).2, outcomes_of_split hsplit, Program.mem_passed_append,
      Program.mem_passed_cons]
    rcases attemptAt_badTarget manager (badTarget_afterAttempts hbad before) with
      ⟨hgives, hrun⟩ | ⟨hthrows, reason, hrun⟩
    · rw [hrun]
      simp [Except.isOk, Except.toBool, hgives, hother]
    · rw [hrun]
      simp [Except.isOk, Except.toBool, hthrows]

/-- A bad path makes no difference to the others exactly when its alias gives up without an
exception, or no path behind it would be reached and connect. -/
theorem isolates_iff (manager : ClientManager) (env : ClientEnvironment) (nodes : Json)
    (node : NodePath) (source : Str) (hinterfaces : (manager.interfaces.value node).interfaces ≠ [])
    (hbad : BadTarget env (newTree env nodes).2 node source) :
    manager.Isolates env nodes node ↔
      (GivesUp env.codec source ∨ ¬ manager.Shadows env nodes node) := by
  constructor
  · intro hisolates
    by_cases hgives : GivesUp env.codec source
    · exact .inl hgives
    · refine .inr ?_
      intro ⟨before, after, other, hsplit, hnew, hfirst, hsecond⟩
      have ⟨_, hbefore, hafter⟩ := waiting_vacated_of_split hinterfaces hsplit
      have hbehind : other ∈ after :=
        Program.fst_mem_of_mem_attempts ((List.takeWhile_sublist _).subset hsecond)
      have hother : other ≠ node := fun heq => hafter (heq ▸ hbehind)
      have ⟨hwithout, hwith⟩ := isSome_handler_replaced hinterfaces hsplit hbad hother
      have hhandler := (hisolates other hother).mpr (hwithout.mpr ⟨hnew, .inr ⟨hfirst, hsecond⟩⟩)
      rcases (hwith.mp hhandler).2 with hpassed | ⟨habsurd, _⟩
      · -- the paths are different, so the one behind the node is not one before it
        have hahead : other ∈ before :=
          Program.fst_mem_of_mem_attempts ((List.takeWhile_sublist _).subset hpassed)
        have hnodup := manager.nodup_waiting
        rw [hsplit] at hnodup
        exact List.disjoint_of_nodup_append hnodup hahead (List.mem_cons_of_mem node hbehind)
      · exact hgives habsurd
  · intro hharmless other hother
    have ⟨before, after, hsplit⟩ := List.append_of_mem (mem_waiting hinterfaces)
    have ⟨hwithout, hwith⟩ := isSome_handler_replaced hinterfaces hsplit hbad hother
    rw [hwith, hwithout]
    apply and_congr_right
    intro hnew
    rcases hharmless with hgives | hshadows
    · simp [hgives]
    · have hbehind : ¬ (Program.AllPass (Program.attempts (attemptAt env manager) before
          (newTree env nodes).2) ∧ (other, .ok true) ∈ Program.passed (Program.attempts
            (attemptAt env manager) after (Program.afterAttempts (attemptAt env manager) before
              (newTree env nodes).2))) := by
        intro ⟨hfirst, hsecond⟩
        exact hshadows ⟨before, after, other, hsplit, hnew, hfirst, hsecond⟩
      simp [hbehind]

/-! ## A target with an empty component -/

theorem badTarget_emptyComponent :
    BadTarget plainEnvironment (newTree plainEnvironment emptyComponentNodes).2 [aName]
      "/x//y".toList :=
  ⟨0, [aName], by decide, rfl, by decide, by decide⟩

/-- The bad path is requested last, so that none comes behind it. -/
def badPathLast : ClientManager :=
  ((ClientManager.addInterface plainEnvironment ⟨1, "/a".toList⟩).run
    ((ClientManager.addInterface plainEnvironment ⟨0, "/d/t".toList⟩).run .init).2).2

theorem isolates_badPathLast :
    badPathLast.Isolates plainEnvironment emptyComponentNodes [aName] := by
  refine (isolates_iff badPathLast plainEnvironment emptyComponentNodes [aName] "/x//y".toList
    (by decide) badTarget_emptyComponent).mpr (.inr ?_)
  rintro ⟨before, after, other, hsplit, -, -, hpassed⟩
  have hwaiting : badPathLast.waiting = [[dName, tName]] ++ [[aName]] := by decide
  have hlast : after = [] := by
    rw [hwaiting] at hsplit
    match before with
    | [] => exact absurd (List.cons.inj hsplit).1 (by decide)
    | [_] => exact (List.cons.inj (List.cons.inj hsplit).2).2.symm
    | _ :: _ :: _ => simp at hsplit
  rw [hlast] at hpassed
  cases hpassed

/-- The other path has a handler only if nobody asked for the one with the bad target. -/
theorem not_isolates :
    BadTarget plainEnvironment (newTree plainEnvironment emptyComponentNodes).2 [aName]
        "/x//y".toList ∧
      ¬ twoPaths.Isolates plainEnvironment emptyComponentNodes [aName] := by
  refine ⟨badTarget_emptyComponent, ?_⟩
  intro hisolates
  have hwithout : (((twoPaths.vacated [aName]).replaced plainEnvironment
      emptyComponentNodes).interfaces.value [dName, tName]).handler.isSome = true :=
    (value_replaced _ _ _ _).2.mpr ⟨rfl, List.Mem.head _⟩
  have hwith : ((twoPaths.replaced plainEnvironment emptyComponentNodes).interfaces.value
      [dName, tName]).handler.isSome = false := by decide
  rw [(hisolates [dName, tName] (by decide)).mpr hwithout] at hwith
  cases hwith

end ClientManager

end OSVR.Client
