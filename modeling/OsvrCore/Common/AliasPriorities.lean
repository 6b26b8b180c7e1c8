/-
# Aliases that are added one after another

Any number of aliases may be added to one node. The node keeps the one of the
highest priority, and of those the last. What a call asks for does not depend on the
tree, so that a whole sequence of calls is a fold over their requests.
-/

import OsvrCore.Common.ResolveTreeNode
import OsvrCore.Math.LatestMax
import Mathlib.Algebra.Order.Group.Unbundled.Int

set_option autoImplicit false

namespace OSVR.Common

open Math

/-- A call that adds an alias. Its node is one that the caller has looked up. -/
inductive AliasCall
  | addAlias (node : NodePath) (source : Str) (priority : AliasPriority)
  | addAliasFromSourceAndRelativeDest (node : NodePath) (source dest : Str)
      (priority : AliasPriority)

/-- A source in the form that it is stored in, with its priority. -/
structure AliasRequest where
  source : Str
  priority : AliasPriority
  deriving DecidableEq

namespace AliasRequest

def element (request : AliasRequest) : PathElement := .aliasElement request.source request.priority

/-- Requests are compared by their priorities. -/
def rank (request : AliasRequest) : ℕ := request.priority.toNat

end AliasRequest

namespace AliasCall

variable (codec : JsonCodec)

def node : AliasCall → NodePath
  | addAlias node _ _ => node
  | addAliasFromSourceAndRelativeDest node _ _ _ => node

def source : AliasCall → Str
  | addAlias _ source _ => source
  | addAliasFromSourceAndRelativeDest _ source _ _ => source

def priority : AliasCall → AliasPriority
  | addAlias _ _ priority => priority
  | addAliasFromSourceAndRelativeDest _ _ _ priority => priority

def program : AliasCall → TreeProgram Bool
  | addAlias node source priority => Common.addAlias codec node source priority
  | addAliasFromSourceAndRelativeDest node source dest priority =>
      Common.addAliasFromSourceAndRelativeDest codec node source dest priority

/-- A call in a tree that has its node. -/
def perform (call : AliasCall) (tree : PathTree) : Except (Abort TreeError) Bool × PathTree :=
  (call.program codec).run (tree.touch call.node)

/-- The tree after some calls; one that throws leaves the tree as it is then. -/
def performAll (calls : List AliasCall) (tree : PathTree) : PathTree :=
  calls.foldl (fun tree call => (call.perform codec tree).2) tree

/-- What a call looks up and asks for. -/
def plan : AliasCall → AliasPlan
  | addAlias node source _ =>
      { lookups := []
        outcome :=
          match ParsedAlias.parse codec source with
          | .error error => .error (.json error)
          | .ok newSource =>
              if newSource.isValid && isPathAbsolute newSource.getLeaf then
                .ok (some (node, newSource.getAlias codec))
              else .ok none }
  | addAliasFromSourceAndRelativeDest node source dest _ => planAlias codec node source dest

/-- The alias that a call asks for at a node, if it does not throw and its source is parsed, and
absolute for `addAlias`. -/
def requestAt (node : NodePath) (call : AliasCall) : Option AliasRequest :=
  match (call.plan codec).outcome with
  | .ok (some (target, source)) => if target = node then some ⟨source, call.priority⟩ else none
  | .ok none | .error _ => none

def requestsAt (node : NodePath) (calls : List AliasCall) : List AliasRequest :=
  calls.filterMap (requestAt codec node)

/-- The source is parsed, and is absolute for `addAlias`. -/
def sourceAccepted (call : AliasCall) : Bool :=
  match ParsedAlias.parse codec call.source with
  | .error _ => false
  | .ok newSource =>
      newSource.isValid &&
        match call with
        | addAlias _ _ _ => isPathAbsolute newSource.getLeaf
        | addAliasFromSourceAndRelativeDest _ _ _ _ => true

/-- The node that a call adds its alias to. -/
def target : AliasCall → Option NodePath
  | addAlias node _ _ => some node
  | addAliasFromSourceAndRelativeDest node _ dest _ =>
      match locate node dest with
      | ⟨reached, none⟩ => some reached
      | ⟨_, some _⟩ => none

/-! ## One call -/

variable {codec} {call : AliasCall} {calls : List AliasCall} {tree : PathTree} {node : NodePath}

theorem run_addAlias (source : Str) (priority : AliasPriority) :
    (Common.addAlias codec node source priority).run tree =
      ((addAlias node source priority).plan codec).execute priority tree := by
  rw [Common.addAlias, plan]
  cases hparse : ParsedAlias.parse codec source with
  | error error =>
      rw [Program.run_bind_of_error (TreeProgram.run_ofJson_error tree error)]
      rfl
  | ok newSource =>
      rw [Program.run_bind_of_ok (TreeProgram.run_ofJson_ok tree newSource)]
      cases hvalid : newSource.isValid with
      | false => simp [hvalid, AliasPlan.execute, PathTree.touchAll]
      | true =>
          cases hleaf : isPathAbsolute newSource.getLeaf with
          | false => simp [hvalid, hleaf, AliasPlan.execute, PathTree.touchAll]
          | true =>
              simp [hvalid, hleaf, AliasPlan.execute, PathTree.touchAll, run_addAliasImpl]

/-- A call carries out its plan. -/
theorem perform_eq (call : AliasCall) (tree : PathTree) :
    call.perform codec tree = (call.plan codec).execute call.priority (tree.touch call.node) := by
  cases call with
  | addAlias node source priority => exact run_addAlias source priority
  | addAliasFromSourceAndRelativeDest node source dest priority =>
      apply run_addAliasFromSourceAndRelativeDest
      simp [AliasCall.node, NamedTree.value?_touch]

theorem fst_perform_ne_error_iff : (∀ tree reason, (call.perform codec tree).1 ≠ .error reason) ↔
    ∃ alias_, (call.plan codec).outcome = .ok alias_ := by
  simp only [perform_eq, AliasPlan.execute]
  cases (call.plan codec).outcome with
  | error error =>
      apply iff_of_false
      · exact fun h => h .empty (.thrown error) rfl
      · rintro ⟨alias_, halias⟩
        cases halias
  | ok alias_ =>
      apply iff_of_true
      · intro tree reason
        split
        next hout => cases hout
        next => exact fun h => nomatch h
        next =>
          split
          · exact fun h => nomatch h
          · exact fun h => nomatch h
      · exact ⟨alias_, rfl⟩

/-- The calls that ask for an alias at a node are those to that node that are accepted: they do not
throw, and their source is parsed and, for `addAlias`, absolute. -/
theorem isSome_requestAt_iff : (call.requestAt codec node).isSome = true ↔
    call.target = some node ∧ call.sourceAccepted codec = true ∧
      ∀ tree reason, (call.perform codec tree).1 ≠ .error reason := by
  rw [fst_perform_ne_error_iff, requestAt]
  cases call with
  | addAlias base source priority =>
      simp only [plan, target, sourceAccepted, AliasCall.source, Option.some_inj]
      cases ParsedAlias.parse codec source with
      | error error => simp
      | ok newSource =>
          dsimp only
          cases newSource.isValid && isPathAbsolute newSource.getLeaf <;>
            by_cases hnode : base = node <;> simp [hnode]
  | addAliasFromSourceAndRelativeDest base source dest priority =>
      simp only [plan, target, sourceAccepted, AliasCall.source, planAlias]
      rcases locate base dest with ⟨reached, _ | failure⟩
      · cases ParsedAlias.parse codec source with
        | error error => simp
        | ok newSource =>
            dsimp only
            cases newSource.isValid with
            | false => simp
            | true =>
                cases isPathAbsolute newSource.getLeaf with
                | true => by_cases hnode : reached = node <;> simp [hnode]
                | false =>
                    rcases locate base newSource.getLeaf with ⟨leaf, _ | failure⟩
                    · by_cases hnode : reached = node <;> simp [hnode]
                    · simp
      · simp

/-- The element of a node after a call is the old one or the alias that is asked for there. -/
theorem element_perform : PathTree.element (call.perform codec tree).2 node =
    match call.requestAt codec node with
    | none => tree.element node
    | some request =>
        if aliasNeedsUpdate (tree.element node) request.source request.priority then request.element
        else tree.element node := by
  rw [perform_eq, AliasPlan.execute, requestAt]
  cases (call.plan codec).outcome with
  | error error => simp [PathTree.element_touchAll, PathTree.element_touch]
  | ok alias_ =>
      cases alias_ with
      | none => simp [PathTree.element_touchAll, PathTree.element_touch]
      | some alias_ =>
          obtain ⟨target, source⟩ := alias_
          dsimp only
          rw [PathTree.element_touch]
          by_cases htarget : target = node
          · subst htarget
            rw [if_pos rfl]
            dsimp only
            split
            · rw [PathTree.element_set, if_pos rfl]
              rfl
            · rw [PathTree.element_touchAll, PathTree.element_touch]
          · rw [if_neg htarget]
            split
            · rw [PathTree.element_set, if_neg (Ne.symm htarget), PathTree.element_touchAll,
                PathTree.element_touch]
            · rw [PathTree.element_touchAll, PathTree.element_touch]

/-- An alias that needs to be updated is another one. -/
theorem element_ne_of_aliasNeedsUpdate {element : PathElement} {request : AliasRequest}
    (h : aliasNeedsUpdate element request.source request.priority = true) :
    request.element ≠ element := by
  rintro rfl
  simp [aliasNeedsUpdate, AliasRequest.element] at h

/-- A call returns true exactly if some element has changed. -/
theorem perform_eq_true_iff : (call.perform codec tree).1 = .ok true ↔
    ∃ node, PathTree.element (call.perform codec tree).2 node ≠ tree.element node := by
  have hresult : (call.perform codec tree).1 = .ok true ↔ ∃ target source,
      (call.plan codec).outcome = .ok (some (target, source)) ∧
        aliasNeedsUpdate (tree.element target) source call.priority = true := by
    rw [perform_eq, AliasPlan.execute]
    cases (call.plan codec).outcome with
    | error error => simp
    | ok alias_ =>
        cases alias_ with
        | none => simp
        | some alias_ =>
            obtain ⟨target, source⟩ := alias_
            dsimp only
            rw [PathTree.element_touch]
            split
            next hupdate => simp [hupdate]
            next hupdate => simp [hupdate]
  rw [hresult]
  apply Iff.intro
  · rintro ⟨target, source, houtcome, hupdate⟩
    have hrequest : call.requestAt codec target = some ⟨source, call.priority⟩ := by
      simp [requestAt, houtcome]
    refine ⟨target, ?_⟩
    rw [element_perform, hrequest]
    dsimp only
    rw [if_pos hupdate]
    exact @element_ne_of_aliasNeedsUpdate _ ⟨source, call.priority⟩ hupdate
  · rintro ⟨node, hchanged⟩
    rw [element_perform] at hchanged
    cases hrequest : call.requestAt codec node with
    | none => simp [hrequest] at hchanged
    | some request =>
        rw [hrequest] at hchanged
        dsimp only at hchanged
        split at hchanged
        next hupdate =>
          rw [requestAt] at hrequest
          split at hrequest
          next target source houtcome =>
            split at hrequest
            next htarget =>
              obtain rfl := Option.some_inj.mp hrequest
              subst htarget
              exact ⟨target, source, houtcome, hupdate⟩
            next => cases hrequest
          all_goals cases hrequest
        next => exact absurd rfl hchanged

/-! ## All the calls -/

/-- Against an alias, a request is kept as the last of the greatest. -/
theorem element_keepLatest (kept request : AliasRequest) :
    (if aliasNeedsUpdate kept.element request.source request.priority then request.element
      else kept.element) =
      ((keepLatest AliasRequest.rank (some kept) request).map AliasRequest.element).getD
        .nullElement := by
  rcases kept with ⟨oldSource, oldPriority⟩
  rcases request with ⟨source, priority⟩
  simp only [AliasRequest.element, aliasNeedsUpdate, keepLatest, AliasRequest.rank]
  rcases lt_trichotomy priority.toNat oldPriority.toNat with hless | hequal | hgreater
  · have hnot : ¬priority > oldPriority := by
      rw [gt_iff_lt, UInt8.lt_iff_toNat_lt]
      exact Nat.lt_asymm hless
    have hne : priority ≠ oldPriority := by
      rintro rfl
      exact Nat.lt_irrefl _ hless
    simp [hless, hnot, hne, AliasRequest.element]
  · obtain rfl := UInt8.toNat_inj.mp hequal
    by_cases hsource : source = oldSource <;> simp [hsource, AliasRequest.element]
  · have hgt : priority > oldPriority := UInt8.lt_iff_toNat_lt.mpr hgreater
    simp [Nat.lt_asymm hgreater, hgt, AliasRequest.element]

/-- The final alias is the last of the requests with the highest priority. -/
theorem element_performAll (hnode : (tree.element node).aliasSource? = none)
    (codec : JsonCodec) (calls : List AliasCall) :
    PathTree.element (performAll codec calls tree) node =
      match latestMax AliasRequest.rank (requestsAt codec node calls) with
      | none => tree.element node
      | some request => request.element := by
  induction calls using List.reverseRecOn with
  | nil => rfl
  | append_singleton calls call ih =>
      have hstep : performAll codec (calls ++ [call]) tree =
          (call.perform codec (performAll codec calls tree)).2 := by
        rw [performAll, List.foldl_append]
        rfl
      have hrequests : requestsAt codec node (calls ++ [call]) =
          requestsAt codec node calls ++ (call.requestAt codec node).toList := by
        rw [requestsAt, List.filterMap_append]
        cases hcall : call.requestAt codec node <;> simp [requestsAt, hcall]
      rw [hstep, element_perform, ih, hrequests]
      cases call.requestAt codec node with
      | none => rw [Option.toList_none, List.append_nil]
      | some request =>
          rw [Option.toList_some, latestMax_concat]
          dsimp only
          cases latestMax AliasRequest.rank (requestsAt codec node calls) with
          | none =>
              have hupdate :
                  aliasNeedsUpdate (tree.element node) request.source request.priority = true := by
                cases helement : tree.element node <;>
                  simp_all [aliasNeedsUpdate, PathElement.aliasSource?]
              rw [if_pos hupdate]
              rfl
          | some kept =>
              dsimp only
              rw [element_keepLatest, keepLatest]
              split <;> rfl

theorem priority_of_requestAt {request : AliasRequest}
    (h : call.requestAt codec node = some request) : request.priority = call.priority := by
  rw [requestAt] at h
  split at h
  next =>
    split at h
    next =>
      obtain rfl := Option.some_inj.mp h
      rfl
    next => cases h
  all_goals cases h

/-- Requests of calls with different priorities are told apart by their priorities. -/
theorem eq_of_rank_eq (hdistinct : (calls.map priority).Nodup) {first second : AliasRequest}
    (hfirst : first ∈ requestsAt codec node calls) (hsecond : second ∈ requestsAt codec node calls)
    (hrank : first.rank = second.rank) : first = second := by
  obtain ⟨call, hcall, hrequest⟩ := List.mem_filterMap.mp hfirst
  obtain ⟨call', hcall', hrequest'⟩ := List.mem_filterMap.mp hsecond
  have hpriority : call.priority = call'.priority := by
    rw [← priority_of_requestAt hrequest, ← priority_of_requestAt hrequest']
    exact UInt8.toNat_inj.mp hrank
  obtain rfl := List.inj_on_of_nodup_map hdistinct hcall hcall' hpriority
  exact Option.some_inj.mp (hrequest.symm.trans hrequest')

/-- The order of calls with different priorities does not matter. -/
theorem element_performAll_perm (hnode : (tree.element node).aliasSource? = none)
    {other : List AliasCall} (hperm : calls.Perm other) (hdistinct : (calls.map priority).Nodup) :
    PathTree.element (performAll codec calls tree) node =
      PathTree.element (performAll codec other tree) node := by
  have hlatest := latestMax_perm (hperm.filterMap (requestAt codec node))
    fun first hfirst second hsecond => eq_of_rank_eq hdistinct hfirst hsecond
  rw [element_performAll hnode, element_performAll hnode, requestsAt, requestsAt, hlatest]

/-- Aliases that are added one after another to a node without one: the last of the accepted calls
with the highest priority has its way, a call returns true when it changes an element, and with
different priorities the order does not matter. The calls that ask for an alias at the node are
the accepted ones: those to it that do not throw and have a source that is parsed, and absolute for
`addAlias`. -/
theorem performAll_fold (codec : JsonCodec) (calls : List AliasCall) (tree : PathTree)
    (node : NodePath) (hnode : (tree.element node).aliasSource? = none) :
    (requestsAt codec node calls = [] ∧
        PathTree.element (performAll codec calls tree) node = tree.element node ∨
      ∃ request, IsLatestMax AliasRequest.rank (requestsAt codec node calls) request ∧
        PathTree.element (performAll codec calls tree) node = request.element) ∧
    (∀ (call : AliasCall) (before : PathTree), (call.perform codec before).1 = .ok true ↔
      ∃ changed, PathTree.element (call.perform codec before).2 changed ≠ before.element changed) ∧
    (∀ other, calls.Perm other → (calls.map priority).Nodup →
      PathTree.element (performAll codec calls tree) node =
        PathTree.element (performAll codec other tree) node) ∧
    ∀ call : AliasCall, (call.requestAt codec node).isSome = true ↔
      call.target = some node ∧ call.sourceAccepted codec = true ∧
        ∀ before reason, (call.perform codec before).1 ≠ .error reason := by
  apply And.intro
  · have hfold := element_performAll hnode codec calls
    cases hlatest : latestMax AliasRequest.rank (requestsAt codec node calls) with
    | none =>
        rw [hlatest] at hfold
        exact .inl ⟨latestMax_eq_none_iff.mp hlatest, hfold⟩
    | some request =>
        rw [hlatest] at hfold
        exact .inr ⟨request, latestMax_eq_some_iff.mp hlatest, hfold⟩
  · exact ⟨fun _ _ => perform_eq_true_iff, fun _ hperm => element_performAll_perm hnode hperm,
      fun _ => isSome_requestAt_iff⟩

/-- A reader for which no text is JSON. -/
def plainCodec : JsonCodec := ⟨fun _ => none, fun _ => [], fun _ => [], fun _ => []⟩

theorem isName_eye : IsName "eye".toList := by decide

/-- The node at `/eye`. -/
def eyeNode : NodePath := [⟨"eye".toList, isName_eye⟩]

/-- Two manual aliases, with an automatic one between them. -/
def threeAliases : List AliasCall :=
  [.addAlias eyeNode "/left".toList ALIASPRIORITY_MANUAL,
    .addAliasFromSourceAndRelativeDest [] "middle".toList "eye".toList ALIASPRIORITY_AUTOMATIC,
    .addAlias eyeNode "/right".toList ALIASPRIORITY_MANUAL]

theorem performAll_fold_threeAliases :
    (PathTree.element .empty eyeNode).aliasSource? = none ∧
    (requestsAt plainCodec eyeNode threeAliases = [] ∧
        PathTree.element (performAll plainCodec threeAliases .empty) eyeNode =
          PathTree.element .empty eyeNode ∨
      ∃ request, IsLatestMax AliasRequest.rank
        (requestsAt plainCodec eyeNode threeAliases) request ∧
        PathTree.element (performAll plainCodec threeAliases .empty) eyeNode = request.element) :=
  ⟨rfl, (performAll_fold plainCodec threeAliases .empty eyeNode rfl).1⟩

/-- A relative source with an empty component is accepted as a source, but the call throws. -/
theorem not_max_of_sourceAccepted :
    ¬∀ (codec : JsonCodec) (calls : List AliasCall) (tree : PathTree)
    (node : NodePath), (tree.element node).aliasSource? = none →
      ∀ call ∈ calls, call.target = some node → call.sourceAccepted codec = true →
        ∃ source priority,
          PathTree.element (performAll codec calls tree) node = .aliasElement source priority ∧
            call.priority ≤ priority := by
  intro h
  obtain ⟨source, priority, helement, -⟩ := h plainCodec
    [.addAliasFromSourceAndRelativeDest [] "a//b".toList "eye".toList ALIASPRIORITY_MANUAL] .empty
    eyeNode rfl _ List.mem_cons_self (by decide) (by decide)
  have hnull : PathTree.element (performAll plainCodec [.addAliasFromSourceAndRelativeDest []
      "a//b".toList "eye".toList ALIASPRIORITY_MANUAL] .empty) eyeNode = .nullElement := by
    decide +kernel
  rw [hnull] at helement
  cases helement

end AliasCall
end OSVR.Common
