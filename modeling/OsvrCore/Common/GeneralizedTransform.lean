/-
# Transforms around transforms

A transform is a chain of objects, each the child of the one before, with a leaf at
its end. The levels are taken apart when a transform is nested and put together again
around another leaf; nesting one transform after the other puts the second one in the
place of the first one's leaf. A resolution nests what the aliases on its way say.
-/

import OsvrCore.Common.JsonOrder
import OsvrCore.Common.ResolveTreeNode

set_option autoImplicit false

namespace OSVR.Common

open Math

/-- `GeneralizedTransform`: the levels from the outermost to the innermost one. -/
abbrev GeneralizedTransform := List Json

namespace GeneralizedTransform

def empty : GeneralizedTransform := []

def nest (levels : GeneralizedTransform) (transform : Json) : GeneralizedTransform :=
  levels ++ transform.transformLevels

/-- `recompose`, from the innermost level outwards. -/
def recompose : GeneralizedTransform → Json → Except JsonError Json
  | [], leaf => .ok leaf
  | level :: inner, leaf => do
      let state ← recompose inner leaf
      if state.isNull then return level else Json.setMember CHILD_KEY state level

/-- `get` with a leaf. -/
def get (levels : GeneralizedTransform) (leaf : Str) : Except JsonError Json :=
  recompose levels (if leaf.isEmpty then .null else .str leaf)

end GeneralizedTransform

namespace OriginalSource

/-- `m_getPath`. -/
def getPath (source : OriginalSource) : Str :=
  match source.sensor <|> source.interface <|> source.device with
  | some node => getFullPath node
  | none => []

/-- `getTransformJson`. -/
def getTransformJson (source : OriginalSource) : Except JsonError Json :=
  GeneralizedTransform.get source.transform source.getPath

end OriginalSource

/-! ## Chains of objects -/

namespace Json

/-- Objects that are linked through the child key and end in something else. -/
inductive Chain : Json → Prop
  | leaf {value : Json} (hleaf : value.isObject = false) : Chain value
  | level {members : List (Str × Json)} {child : Json}
      (hchild : members.lookup CHILD_KEY = some child) (inner : Chain child) : Chain (.obj members)

section Members

variable {members : List (Str × Json)} {child : Json}

theorem transformLevelsIn_eq (members : List (Str × Json)) :
    transformLevelsIn members = (members.lookup CHILD_KEY).map transformLevels :=
  eq_map_lookup (by rw [transformLevelsIn]) (fun _ _ _ => by rw [transformLevelsIn]) members

/-- In an object, the leaf is set by assigning the child. -/
theorem setLeafIn_of_lookup (hordered : Ascending members)
    (hchild : members.lookup CHILD_KEY = some child) (new : Json) :
    setLeafIn members new = some (insertMember CHILD_KEY (child.setLeaf new) members) := by
  induction members with
  | nil => cases hchild
  | cons member rest ih =>
      obtain ⟨key, value⟩ := member
      rw [lookup_cons] at hchild
      by_cases hkey : key = CHILD_KEY
      · rw [if_pos hkey.symm] at hchild
        rw [setLeafIn, if_pos hkey, insertMember, if_pos hkey, Option.some.inj hchild, hkey]
      · rw [if_neg (Ne.symm hkey)] at hchild
        have hparts := List.pairwise_cons.mp hordered
        -- the names before the child come before it in the order
        have hlt : ¬ CHILD_KEY < key := fun hlt =>
          Std.lt_irrefl (Std.lt_trans hlt (hparts.1 _ (Ascending.mem_of_lookup hchild)))
        rw [setLeafIn, if_neg hkey, ih hparts.2 hchild, insertMember, if_neg hkey, if_neg hlt]
        rfl

theorem lookup_filter_ne (members : List (Str × Json)) (name query : Str) :
    (members.filter fun member => member.1 != name).lookup query =
      if query = name then none else members.lookup query := by
  induction members with
  | nil => rw [List.filter_nil, List.lookup_nil, ite_self]
  | cons member rest ih =>
      obtain ⟨key, value⟩ := member
      by_cases hkey : key = name
      · rw [List.filter_cons_of_neg (by simp [hkey]), ih, lookup_cons, hkey]
        split
        next => rfl
        next => rfl
      · rw [List.filter_cons_of_pos (by simp [hkey]), lookup_cons, lookup_cons, ih]
        by_cases hquery : query = key
        · rw [if_pos hquery, if_neg (hquery ▸ hkey), if_pos hquery]
        · rw [if_neg hquery, if_neg hquery]

/-- A child is put back where it was taken out. -/
theorem insertMember_filter (hordered : Ascending members) (name : Str) (value : Json) :
    insertMember name value (members.filter fun member => member.1 != name) =
      insertMember name value members := by
  have hfilter : Ascending (members.filter fun member => member.1 != name) := hordered.filter _
  apply (hfilter.insertMember name value).ext (hordered.insertMember name value)
  intro query
  rw [lookup_insertMember, lookup_insertMember, lookup_filter_ne]
  split
  next => rfl
  next => rfl

end Members

theorem isNull_setLeaf {inner : Json} (hinner : inner.isNull = false) (value : Json) :
    (value.setLeaf inner).isNull = false := by
  cases value with
  | obj members =>
      rw [setLeaf]
      cases setLeafIn members inner with
      | none => exact hinner
      | some changed => rfl
  | null | bool _ | int _ | real _ | str _ | arr _ => exact hinner

theorem Chain.transformLevels_of_leaf {value : Json} (hleaf : value.isObject = false) :
    value.transformLevels = [] := by
  cases value with
  | obj members => cases hleaf
  | null | bool _ | int _ | real _ | str _ | arr _ => rfl

theorem Chain.setLeaf_of_leaf {value : Json} (hleaf : value.isObject = false) (new : Json) :
    value.setLeaf new = new := by
  cases value with
  | obj members => cases hleaf
  | null | bool _ | int _ | real _ | str _ | arr _ => rfl

end Json

/-! ## Nesting -/

namespace GeneralizedTransform

open Json

/-- The inner levels are put together first. -/
theorem recompose_append {outer inner : GeneralizedTransform} {leaf state : Json}
    (hinner : recompose inner leaf = .ok state) :
    recompose (outer ++ inner) leaf = recompose outer state := by
  induction outer with
  | nil => exact hinner
  | cons level outer ih => rw [List.cons_append, recompose, recompose, ih]

/-- The levels of a transform around something are the transform with that as its leaf. -/
theorem recompose_transformLevels {transform : Json} (hchain : transform.Chain)
    (hordered : transform.Ordered) {inner : Json} (hinner : inner.isNull = false) :
    recompose transform.transformLevels inner = .ok (transform.setLeaf inner) := by
  induction hchain with
  | leaf hleaf => rw [Chain.transformLevels_of_leaf hleaf, Chain.setLeaf_of_leaf hleaf, recompose]
  | @level members child hchild _ ih =>
      have hstate := ih (OrderedMembers.of_lookup hordered.2 hchild)
      rw [transformLevels, transformLevelsIn_eq, hchild, Option.map_some]
      dsimp only
      rw [recompose, hstate, setLeaf, setLeafIn_of_lookup hordered.1 hchild]
      simp only [bind, Except.bind, isNull_setLeaf hinner child, Bool.false_eq_true, if_false,
        setMember, insertMember_filter hordered.1]
      rfl

/-- Each of the transforms in the place of the leaf of the one before. -/
def compose (transforms : List Json) (leaf : Json) : Json :=
  transforms.foldr (fun transform inner => transform.setLeaf inner) leaf

theorem isNull_compose {leaf : Json} (hleaf : leaf.isNull = false) (transforms : List Json) :
    (compose transforms leaf).isNull = false := by
  induction transforms with
  | nil => exact hleaf
  | cons transform transforms ih => exact isNull_setLeaf ih transform

/-- Any number of transforms, nested one after another, compose. -/
theorem recompose_flatMap {transforms : List Json}
    (htransforms : ∀ transform ∈ transforms, transform.Chain ∧ transform.Ordered) {leaf : Json}
    (hleaf : leaf.isNull = false) :
    recompose (transforms.flatMap transformLevels) leaf = .ok (compose transforms leaf) := by
  induction transforms with
  | nil => rfl
  | cons transform transforms ih =>
      rw [List.forall_mem_cons] at htransforms
      have ⟨hchain, hordered⟩ := htransforms.1
      rw [List.flatMap_cons, recompose_append (ih htransforms.2)]
      exact recompose_transformLevels hchain hordered (isNull_compose hleaf transforms)

theorem get_of_ne_nil (levels : GeneralizedTransform) {leaf : Str} (hleaf : leaf ≠ []) :
    levels.get leaf = recompose levels (.str leaf) := by
  rw [get, List.isEmpty_eq_false_iff.mpr hleaf, if_neg Bool.false_ne_true]

/-- Nesting a second transform puts it in the place of the first one's leaf. -/
theorem get_nest_nest {first second : Json} (hfirst : first.Chain ∧ first.Ordered)
    (hsecond : second.Chain ∧ second.Ordered) {leaf : Str} (hleaf : leaf ≠ []) :
    ((empty.nest first).nest second).get leaf =
      .ok (first.setLeaf (second.setLeaf (.str leaf))) := by
  have hlevels : (empty.nest first).nest second = [first, second].flatMap transformLevels := by
    simp [nest, empty]
  rw [get_of_ne_nil _ hleaf, hlevels]
  apply recompose_flatMap _ rfl
  rw [List.forall_mem_cons, List.forall_mem_singleton]
  exact ⟨hfirst, hsecond⟩

end GeneralizedTransform

/-! ## Chains of aliases -/

/-- From one path to another there are so many aliases, with these transforms in the
order of the way. -/
inductive AliasChain (codec : JsonCodec) (tree : PathTree) (last : Str) : Str → ℕ → List Json → Prop
  | landed : AliasChain codec tree last last 0 []
  | through {path : Str} {node : NodePath} {source : Str} {parsed : ParsedAlias} {count : ℕ}
      {transforms : List Json} (hnode : nodeOfPath path = some node)
      (hsource : (tree.value? node).bind PathElement.aliasSource? = some source)
      (hparse : ParsedAlias.parse codec source = .ok parsed) (hvalid : parsed.isValid = true)
      (rest : AliasChain codec tree last parsed.getLeaf count transforms) :
      AliasChain codec tree last path (count + 1)
        ((if parsed.simple then [] else [parsed.value]) ++ transforms)

namespace OriginalSource

/-- The source with transforms inside the ones it has. -/
def nestAll (source : OriginalSource) (transforms : List Json) : OriginalSource :=
  transforms.foldl nestTransform source

theorem nestAll_eq (source : OriginalSource) (transforms : List Json) :
    source.nestAll transforms =
      { source with transform := source.transform ++ transforms.flatMap Json.transformLevels } := by
  induction transforms generalizing source with
  | nil => simp [nestAll]
  | cons transform transforms ih =>
      have hnext := ih (source.nestTransform transform)
      rw [nestAll] at hnext
      rw [nestAll, List.foldl_cons, hnext]
      simp [nestTransform]

end OriginalSource

/-- The aliases are followed, and what they say is nested. -/
theorem AliasChain.run {codec : JsonCodec} {tree other : PathTree} {last path : Str} {count : ℕ}
    {transforms : List Json} (h : AliasChain codec tree last path count transforms)
    (hsame : SameAliases tree other) :
    ∃ after, SameAliases tree after ∧ ∀ fuel source,
      (resolveTreeNodeImpl codec (fuel + count) path source).run other =
        (resolveTreeNodeImpl codec fuel last (source.nestAll transforms)).run after := by
  induction h generalizing other with
  | landed => exact ⟨other, hsame, fun _ _ => rfl⟩
  | @through path node aliasSource parsed count transforms hnode hsource hparse hvalid _ ih =>
      have htouched : ((other.touch node).value? node).isSome = true := by
        simp [NamedTree.value?_touch]
      have hsame' := (hsame.trans (SameAliases.touch other node)).trans
        (SameAliases.inferred (other.touch node) node)
      have hvalue := value?_inferred htouched
      have halias := hsame' node
      rw [hsource, hvalue, Option.bind_some] at halias
      obtain ⟨after, hafter, hrun⟩ := ih hsame'
      refine ⟨after, hafter, fun fuel source => ?_⟩
      rw [← Nat.add_assoc, run_resolveTreeNodeImpl_succ hnode]
      generalize (inferred (other.touch node) node).element node = element at halias
      cases element with
      | aliasElement found priority =>
          obtain rfl := Option.some.inj halias
          rw [visitElement, hparse, Program.run_bind_of_ok (TreeProgram.run_ofJson_ok _ _), hvalid,
            Bool.not_true, if_neg Bool.false_ne_true, hrun]
          cases parsed.simple with
          | true => rfl
          | false => rfl
      | _ => cases halias

/-! ## Where a chain ends -/

/-- The same result, with other transforms. -/
def withTransform (transform : List Json) (source : OriginalSource) : OriginalSource :=
  { source with transform }

/-- Going up from a node leaves the transforms alone. -/
theorem run_decompose_withTransform (transform : List Json) (source : OriginalSource)
    (up : List PathName) (tree : PathTree) :
    (((withTransform transform source).decompose up).run tree).1 =
      ((source.decompose up).run tree).1.map (withTransform transform) := by
  induction up generalizing source with
  | nil =>
      simp only [OriginalSource.decompose, Program.run_bind, TreeProgram.run_valueAt]
      split <;> rfl
  | cons name up ih =>
      simp only [OriginalSource.decompose, Program.run_bind, TreeProgram.run_valueAt]
      split
      · have habove := ih { source with sensor := some (name :: up).reverse }
        have hsensor : { withTransform transform source with sensor := some (name :: up).reverse } =
            withTransform transform { source with sensor := some (name :: up).reverse } := rfl
        rw [hsensor]
        rcases hrun : (OriginalSource.decompose (withTransform transform
          { source with sensor := some (name :: up).reverse }) up).run tree with ⟨result, after⟩
        rcases hrun' : (OriginalSource.decompose { source with sensor := some (name :: up).reverse }
          up).run tree with ⟨result', after'⟩
        rw [hrun, hrun'] at habove
        obtain rfl : result = result'.map (withTransform transform) := habove
        cases result' with
        | error reason =>
            rw [Program.run_bind_of_error hrun, Program.run_bind_of_error hrun']
            rfl
        | ok above =>
            rw [Program.run_bind_of_ok hrun, Program.run_bind_of_ok hrun']
            have hinterface : (withTransform transform above).interface = above.interface := rfl
            rw [hinterface]
            cases above.interface.isNone with
            | true => rfl
            | false => rfl
      · exact ih { source with interface := some (name :: up).reverse }
      all_goals rfl

/-- The path leads to no further alias. -/
def Lands (tree : PathTree) (last : Str) : Prop :=
  ∀ node, nodeOfPath last = some node → (tree.value? node).bind PathElement.aliasSource? = none

/-- Where no alias is met, the transforms are neither looked at nor changed. -/
theorem run_resolveTreeNodeImpl_of_lands (codec : JsonCodec) {tree : PathTree} {last : Str}
    (hlands : Lands tree last) (fuel : ℕ) (transform : List Json) (source : OriginalSource) :
    ((resolveTreeNodeImpl codec (fuel + 1) last (withTransform transform source)).run tree).1 =
      ((resolveTreeNodeImpl codec (fuel + 1) last source).run tree).1.map
        (withTransform transform) := by
  cases hnode : nodeOfPath last with
  | none =>
      have hfailure : ∃ reason, ((getNodeByPath last).run tree).1 = .error reason := by
        unfold nodeOfPath at hnode
        split at hnode
        next => cases hnode
        next reached error hlocated =>
          rw [run_getNodeByPath, hlocated]
          exact ⟨_, rfl⟩
      have ⟨reason, hreason⟩ := hfailure
      rw [resolveTreeNodeImpl, resolveTreeNodeImpl, Program.fst_run_bind_of_error hreason,
        Program.fst_run_bind_of_error hreason]
      rfl
  | some node =>
      have hsame :=
        (SameAliases.touch tree node).trans (SameAliases.inferred (tree.touch node) node)
      have hvalue := value?_inferred
        (show ((tree.touch node).value? node).isSome = true by simp [NamedTree.value?_touch])
      have halias := hlands node hnode
      rw [hsame node, hvalue, Option.bind_some] at halias
      rw [run_resolveTreeNodeImpl_succ hnode, run_resolveTreeNodeImpl_succ hnode]
      generalize (inferred (tree.touch node) node).element node = element at halias
      cases element with
      | aliasElement found priority => cases halias
      | sensorElement => exact run_decompose_withTransform transform source _ _
      | interfaceElement => exact run_decompose_withTransform transform source _ _
      | nullElement | deviceElement _ _ _ | pluginElement | stringElement _ => rfl

theorem fst_run_resolveTreeNode (codec : JsonCodec) (fuel : ℕ) (path : Str) (tree : PathTree) :
    ((resolveTreeNode codec fuel path).run tree).1 =
      ((resolveTreeNodeImpl codec fuel path .empty).run tree).1.map fun source =>
        if source.isResolved then some source else none := by
  rw [resolveTreeNode, Program.run_bind]
  rcases (resolveTreeNodeImpl codec fuel path .empty).run tree with ⟨reason | source, after⟩
  · rfl
  · rfl

/-- A path resolves as the end of its chain of aliases does, with the transforms of the
aliases on the way. -/
theorem fst_run_resolveTreeNode_of_chain {codec : JsonCodec} {tree : PathTree} {last path : Str}
    {count : ℕ} {transforms : List Json} (h : AliasChain codec tree last path count transforms)
    (hlands : Lands tree last) :
    ∃ reached, SameAliases tree reached ∧ ∀ fuel,
      ((resolveTreeNode codec (fuel + 1 + count) path).run tree).1 =
        ((resolveTreeNode codec (fuel + 1) last).run reached).1.map
          (Option.map (withTransform (transforms.flatMap Json.transformLevels))) := by
  have ⟨reached, hsame, hrun⟩ := h.run (.refl tree)
  refine ⟨reached, hsame, fun fuel => ?_⟩
  have hlands' : Lands reached last := fun node hnode => by
    rw [← hsame node]
    exact hlands node hnode
  have hnested : OriginalSource.empty.nestAll transforms =
      withTransform (transforms.flatMap Json.transformLevels) .empty := by
    rw [OriginalSource.nestAll_eq]
    rfl
  rw [fst_run_resolveTreeNode, fst_run_resolveTreeNode, hrun, hnested,
    run_resolveTreeNodeImpl_of_lands codec hlands']
  rcases ((resolveTreeNodeImpl codec (fuel + 1) last .empty).run reached).1 with reason | source
  · rfl
  · have hresolved : (withTransform (transforms.flatMap Json.transformLevels) source).isResolved =
        source.isResolved := rfl
    simp only [Except.map, hresolved]
    cases source.isResolved with
    | true => rfl
    | false => rfl

/-! ## The transforms of aliases -/

namespace Json

mutual

/-- What has something else than an object at its leaf is a chain. -/
theorem chain_of_leaf : (value : Json) → value.leaf.isObject = false → value.Chain
  | .obj members, h => by
      have hin := chain_of_leafIn members
      rw [leaf, leafIn_eq] at h
      cases hchild : members.lookup CHILD_KEY with
      | none =>
          rw [hchild] at h
          cases h
      | some child =>
          rw [hchild] at h
          exact .level hchild (hin child hchild h)
  | .null, _ | .bool _, _ | .int _, _ | .real _, _ | .str _, _ | .arr _, _ => .leaf rfl

theorem chain_of_leafIn : (members : List (Str × Json)) → ∀ child,
    members.lookup CHILD_KEY = some child → child.leaf.isObject = false → child.Chain
  | [], _, h, _ => by cases h
  | (key, value) :: rest, child, h, hleaf => by
      rw [lookup_cons] at h
      split at h
      next =>
        obtain rfl := Option.some.inj h
        exact chain_of_leaf value hleaf
      next => exact chain_of_leafIn rest child h hleaf

end

theorem Ascending.of_names {left right : List (Str × Json)} (h : Ascending left)
    (hnames : right.map Prod.fst = left.map Prod.fst) : Ascending right := by
  have hleft : (left.map Prod.fst).Pairwise (· < ·) := List.pairwise_map.mpr h
  rw [← hnames] at hleft
  exact List.pairwise_map.mp hleft

mutual

theorem Ordered.setLeaf_str (text : Str) : (value : Json) → value.Ordered →
    (value.setLeaf (.str text)).Ordered
  | .obj members, h => by
      have hin := OrderedMembers.setLeafIn_str text members h.2
      rw [setLeaf]
      cases hset : setLeafIn members (.str text) with
      | none => exact trivial
      | some changed => exact ⟨h.1.of_names (names_setLeafIn hset), hin changed hset⟩
  | .null, _ | .bool _, _ | .int _, _ | .real _, _ | .str _, _ | .arr _, _ => trivial

theorem OrderedMembers.setLeafIn_str (text : Str) : (members : List (Str × Json)) →
    OrderedMembers members → ∀ changed, setLeafIn members (.str text) = some changed →
      OrderedMembers changed
  | [], _, _, hset => by cases hset
  | (key, value) :: rest, h, changed, hset => by
      rw [setLeafIn] at hset
      split at hset
      next =>
        obtain rfl := Option.some.inj hset
        exact ⟨Ordered.setLeaf_str text value h.1, h.2⟩
      next =>
        obtain ⟨tail, htail, rfl⟩ := Option.map_eq_some_iff.mp hset
        exact ⟨h.1, OrderedMembers.setLeafIn_str text rest h.2 tail htail⟩

end

mutual

theorem Ordered.stripSource : (value : Json) → value.Ordered → value.stripSource.Ordered
  | .obj members, h => by
      have hin := OrderedMembers.stripSourceIn members h.2
      rw [Json.stripSource]
      cases hstrip : stripSourceIn members with
      | none => exact h
      | some inner => exact hin inner hstrip
  | .arr _, h => h
  | .null, _ | .bool _, _ | .int _, _ | .real _, _ | .str _, _ => trivial

theorem OrderedMembers.stripSourceIn : (members : List (Str × Json)) → OrderedMembers members →
    ∀ inner, Json.stripSourceIn members = some inner → inner.Ordered
  | [], _, _, hstrip => by cases hstrip
  | (key, value) :: rest, h, inner, hstrip => by
      rw [Json.stripSourceIn] at hstrip
      split at hstrip
      next => exact Option.some.inj hstrip ▸ Ordered.stripSource value h.1
      next => exact OrderedMembers.stripSourceIn rest h.2 inner hstrip

end

end Json

namespace ParsedAlias

theorem ordered_parseTransform {codec : JsonCodec} {val : Json} {parsed : ParsedAlias}
    (hordered : val.Ordered) (h : parseTransform codec val = .ok parsed) :
    parsed.value.Ordered := by
  rcases parseTransform_eq_ok h with ⟨_, _, rfl⟩ | rfl | ⟨route, _, rfl⟩
  · exact hordered
  · exact trivial
  · exact Json.Ordered.setLeaf_str route val hordered

theorem ordered_parse {codec : JsonCodec} (hreader : codec.ReadsOrdered) {source : Str}
    {parsed : ParsedAlias} (h : parse codec source = .ok parsed) : parsed.value.Ordered := by
  unfold parse at h
  split at h
  next => exact Except.ok.inj h ▸ trivial
  next val hval =>
    have hstripped := Json.Ordered.stripSource val (hreader source val hval)
    rcases parseValue_eq_ok h with ⟨_, _, rfl⟩ | rfl | ⟨members, hobject, htransform⟩
    · exact trivial
    · exact trivial
    · rw [hobject] at hstripped
      exact ordered_parseTransform hstripped htransform

/-- The transform of an alias is a chain with a path at its leaf. -/
theorem chain_parse {codec : JsonCodec} {source : Str} {parsed : ParsedAlias}
    (h : parse codec source = .ok parsed) : parsed.value.Chain := by
  apply Json.chain_of_leaf
  rcases hasLeaf_parse codec h with hnull | ⟨text, hleaf⟩
  · rw [hnull]
    rfl
  · rw [hleaf]
    rfl

end ParsedAlias

theorem AliasChain.transforms {codec : JsonCodec} (hreader : codec.ReadsOrdered) {tree : PathTree}
    {last path : Str} {count : ℕ} {transforms : List Json}
    (h : AliasChain codec tree last path count transforms) :
    ∀ transform ∈ transforms, transform.Chain ∧ transform.Ordered := by
  induction h with
  | landed => exact fun _ hmem => (List.not_mem_nil hmem).elim
  | @through _ _ _ parsed _ _ _ _ hparse _ _ ih =>
      intro transform hmem
      rcases List.mem_append.mp hmem with hfirst | hrest
      · cases hsimple : parsed.simple with
        | true =>
            rw [hsimple, if_pos rfl] at hfirst
            cases hfirst
        | false =>
            rw [hsimple, if_neg Bool.false_ne_true, List.mem_singleton] at hfirst
            rw [hfirst]
            exact ⟨ParsedAlias.chain_parse hparse, ParsedAlias.ordered_parse hreader hparse⟩
      · exact ih transform hrest

theorem OriginalSource.getPath_ne_nil {source : OriginalSource} (h : source.isResolved = true) :
    source.getPath ≠ [] := by
  have hfull (node : NodePath) : getFullPath node ≠ [] := by
    intro hnil
    have hhead := getFullPath_head node
    rw [hnil] at hhead
    cases hhead
  obtain ⟨device, hdevice⟩ := Option.isSome_iff_exists.mp (Bool.and_eq_true_iff.mp h).1
  rw [getPath, hdevice]
  cases source.sensor with
  | some node => exact hfull node
  | none =>
      cases source.interface with
      | some node => exact hfull node
      | none => exact hfull device

theorem isResolved_of_run {codec : JsonCodec} {fuel : ℕ} {path : Str} {tree after : PathTree}
    {source : OriginalSource}
    (hrun : (resolveTreeNode codec fuel path).run tree = (.ok (some source), after)) :
    source.isResolved = true := by
  have hresult := fst_run_resolveTreeNode codec fuel path tree
  rw [hrun] at hresult
  generalize ((resolveTreeNodeImpl codec fuel path .empty).run tree).1 = landed at hresult
  rcases landed with reason | found
  · cases hresult
  · cases hfound : found.isResolved with
    | true =>
        simp only [Except.map, hfound, if_true] at hresult
        exact Option.some.inj (Except.ok.inj hresult) ▸ hfound
    | false =>
        simp only [Except.map, hfound, Bool.false_eq_true, if_false] at hresult
        cases Except.ok.inj hresult

/-- Nesting composes, and a path that leads through aliases resolves as their end does,
with the composition of their transforms, the first alias outermost. -/
theorem nest_compose_along_aliases {codec : JsonCodec} (hreader : codec.ReadsOrdered) :
    (∀ (first second : Json) (leaf : Str), first.Chain ∧ first.Ordered →
      second.Chain ∧ second.Ordered → leaf ≠ [] →
        ((GeneralizedTransform.empty.nest first).nest second).get leaf =
          .ok (first.setLeaf (second.setLeaf (.str leaf)))) ∧
    ∀ (tree : PathTree) (last path : Str) (count : ℕ) (transforms : List Json),
      AliasChain codec tree last path count transforms → Lands tree last →
        (∃ reached, SameAliases tree reached ∧ ∀ fuel,
          ((resolveTreeNode codec (fuel + 1 + count) path).run tree).1 =
            ((resolveTreeNode codec (fuel + 1) last).run reached).1.map
              (Option.map (withTransform (transforms.flatMap Json.transformLevels)))) ∧
        ∀ fuel source after,
          (resolveTreeNode codec (fuel + 1 + count) path).run tree = (.ok (some source), after) →
            source.getTransformJson =
              .ok (GeneralizedTransform.compose transforms (.str source.getPath)) := by
  apply And.intro
  · intro first second leaf hfirst hsecond hleaf
    exact GeneralizedTransform.get_nest_nest hfirst hsecond hleaf
  · intro tree last path count transforms hchain hlands
    have ⟨reached, hsame, houtcome⟩ := fst_run_resolveTreeNode_of_chain hchain hlands
    apply And.intro ⟨reached, hsame, houtcome⟩
    intro fuel source after hrun
    have htransform : source.transform = transforms.flatMap Json.transformLevels := by
      have hresult := houtcome fuel
      rw [hrun] at hresult
      generalize ((resolveTreeNode codec (fuel + 1) last).run reached).1 = landed at hresult
      rcases landed with reason | _ | found
      · cases hresult
      · cases hresult
      · obtain rfl : source = withTransform _ found := Option.some.inj (Except.ok.inj hresult)
        rfl
    have hpath := OriginalSource.getPath_ne_nil (isResolved_of_run hrun)
    rw [OriginalSource.getTransformJson, GeneralizedTransform.get_of_ne_nil _ hpath, htransform]
    exact GeneralizedTransform.recompose_flatMap (hchain.transforms hreader) rfl

/-- A rotation of another path, and a translation of a tracker. -/
def rotateText : Str := "\x7b\"child\":\"/s\",\"rotate\":\"x\"\x7d".toList

def rotate : Json := .obj [(CHILD_KEY, .str "/s".toList), ("rotate".toList, .str "x".toList)]

def translateText : Str := "\x7b\"child\":\"/d/t\",\"translate\":1\x7d".toList

def translate : Json := .obj [(CHILD_KEY, .str "/d/t".toList), ("translate".toList, .int 1)]

def transformCodec : JsonCodec where
  parse text :=
    if text = rotateText then some rotate else if text = translateText then some translate else none
  write _ := []
  toStyledString _ := []
  realText _ := []

theorem readsOrdered_transformCodec : transformCodec.ReadsOrdered := by
  intro text value hparse
  simp only [transformCodec] at hparse
  split at hparse
  next =>
    obtain rfl := Option.some.inj hparse
    simp [rotate, Json.Ordered, Json.OrderedMembers, Json.Ascending, CHILD_KEY]
    decide
  next =>
    split at hparse
    next =>
      obtain rfl := Option.some.inj hparse
      simp [translate, Json.Ordered, Json.OrderedMembers, Json.Ascending, CHILD_KEY]
      decide
    next => cases hparse

theorem isName_me : IsName "me".toList := by decide

def meNode : NodePath := [⟨"me".toList, isName_me⟩]

def sNode : NodePath := [⟨"s".toList, by decide⟩]

def dNode : NodePath := [⟨"d".toList, by decide⟩]

/-- A device with a tracker that two aliases lead to. -/
def rotatedTree : PathTree :=
  (((PathTree.empty.set dNode (.deviceElement "d".toList "s".toList .null)).set
    (dNode ++ [⟨"t".toList, by decide⟩]) .interfaceElement).set sNode
      (.aliasElement translateText ALIASPRIORITY_MANUAL)).set meNode
        (.aliasElement rotateText ALIASPRIORITY_MANUAL)

theorem nest_compose_along_aliases_rotatedTree :
    ∃ source after, (resolveTreeNode transformCodec 3 "/me".toList).run rotatedTree =
        (.ok (some source), after) ∧
      source.getTransformJson = .ok (.obj [
        (CHILD_KEY, .obj [(CHILD_KEY, .str "/d/t".toList), ("translate".toList, .int 1)]),
        ("rotate".toList, .str "x".toList)]) := by
  have hrotate : ParsedAlias.parse transformCodec rotateText = .ok ⟨rotate, false⟩ := by
    simp [ParsedAlias.parse, transformCodec]
    rfl
  have htranslate : ParsedAlias.parse transformCodec translateText = .ok ⟨translate, false⟩ := by
    have hne : translateText ≠ rotateText := by decide
    simp [ParsedAlias.parse, transformCodec, hne]
    rfl
  have hchain : AliasChain transformCodec rotatedTree "/d/t".toList "/me".toList 2
      [rotate, translate] := by
    have hme : nodeOfPath "/me".toList = some meNode := rfl
    have hs : nodeOfPath "/s".toList = some sNode := rfl
    apply AliasChain.through hme rfl hrotate rfl
    exact AliasChain.through hs rfl htranslate rfl .landed
  have hlands : Lands rotatedTree "/d/t".toList := by
    intro node hnode
    obtain rfl := Option.some.inj hnode
    rfl
  have hcompose := ((nest_compose_along_aliases readsOrdered_transformCodec).2 _ _ _ _ _ hchain
    hlands).2
  have hpath :
      (((resolveTreeNode transformCodec 3 "/me".toList).run rotatedTree).1.toOption.bind id).map
      OriginalSource.getPath = some "/d/t".toList := by decide +kernel
  rcases hrun : (resolveTreeNode transformCodec 3 "/me".toList).run rotatedTree with
    ⟨_ | _ | source, after⟩
  · rw [hrun] at hpath
    cases hpath
  · rw [hrun] at hpath
    cases hpath
  · rw [hrun] at hpath
    refine ⟨source, after, rfl, ?_⟩
    rw [hcompose 0 source after hrun, Option.some.inj hpath]
    rfl

end OSVR.Common
