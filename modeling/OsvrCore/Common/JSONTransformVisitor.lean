/-
# Transformations from JSON

A transform is read from a chain of objects, each the child of the one before. Every level
is a change of basis or has translations and rotations on either side, and each goes around
what the levels inside it give. So a chain in the place of another one's leaf is a
transformation inside the other.

The rotation matrix of an angle and an axis is left open, and numbers are exact.
-/

import OsvrCore.Common.GeneralizedTransform
import OsvrCore.Common.RouteContainer
import OsvrCore.Common.Transform

set_option autoImplicit false

namespace OSVR.Common

open Math Matrix

variable {K : Type} [CommRing K]

/-! ## One level -/

/-- What is thrown: by the JSON library, or with a message. -/
inductive TransformError
  | json (error : JsonError)
  | message (text : Str)
  deriving DecidableEq

/-- Numbers, angles and rotations. -/
structure LevelArithmetic (K : Type) where
  ofRat : Rat → K
  degreesToRadians : K → K
  /-- `toRotationMatrix` of an `Eigen::AngleAxisd`. -/
  toRotationMatrix : K → (Fin 3 → K) → Matrix (Fin 3) (Fin 3) K

def AXIS_NAMES : Str := "XYZ".toList

def MINUS : Char := '-'

def DEGREES_KEY : Str := "degrees".toList
def RADIANS_KEY : Str := "radians".toList
def TRANSLATE_KEY : Str := "posttranslate".toList
def PRETRANSLATE_KEY : Str := "translate".toList
def ROTATE_KEY : Str := "postrotate".toList
def PREROTATE_KEY : Str := "rotate".toList
def AXIS_KEY : Str := "axis".toList
def CHANGE_BASIS_KEY : Str := "changeBasis".toList
def X_KEY : Str := "x".toList
def Y_KEY : Str := "y".toList
def Z_KEY : Str := "z".toList

/-- `boost::algorithm::is_space`. -/
def isSpace (char : Char) : Bool :=
  [' ', '\t', '\n', '\x0b', '\x0c', '\r'].contains char

/-- `asFloat`. -/
def Json.asFloat : Json → Except TransformError Rat
  | .null => .ok 0
  | .bool b => .ok (if b then 1 else 0)
  | .int n => .ok n
  | .real q => .ok q
  | .str _ | .arr _ | .obj _ => .error (.message "Value is not convertible to float.".toList)

/-- `operator[]`. -/
def Json.memberOf (name : Str) (value : Json) : Except TransformError Json :=
  (value.index name).mapError TransformError.json

section Levels

variable (arithmetic : LevelArithmetic K) (codec : JsonCodec)

/-- A vector as the name of an axis, with its sign, or as an array of numbers. -/
def vectorFromJson (v : Json) : Except TransformError (Fin 3 → K) :=
  match v with
  | .str inVal =>
      let val := inVal.map Char.toUpper
      let isAxis := fun char => AXIS_NAMES.contains char
      let isMinus := fun char => char == MINUS
      if inVal.isEmpty then
        .error (.message "Empty string can't be turned into a vector!".toList)
      else if !(val.all fun char => isAxis char || isMinus char || isSpace char) ||
          val.countP isAxis != 1 || decide (1 < val.countP isMinus) then
        .error (.message ("Cannot turn the specified string into a vector: ".toList ++ inVal))
      else
        let factor : K := if val.any isMinus then -1 else 1
        match val.find? isAxis with
        | some char => .ok fun axis => if axis.val = AXIS_NAMES.idxOf char then factor else 0
        -- One of the characters is an axis.
        | none => .error (.message
            ("Could not convert JSON to vector: ".toList ++ codec.toStyledString v))
  | .arr items =>
      if items.length ≠ 3 then
        .error (.message "Vector size wrong when converting from JSON!".toList)
      else
        (items.mapM Json.asFloat).map fun numbers axis => arithmetic.ofRat (numbers.getD axis 0)
  | .null | .bool _ | .int _ | .real _ | .obj _ => .error (.message
      ("Could not convert JSON to vector: ".toList ++ codec.toStyledString v))

def angleAsRadians (rotation : Json) : Except TransformError K := do
  let degrees ← rotation.memberOf DEGREES_KEY
  if degrees.isNumeric then
    return arithmetic.degreesToRadians (arithmetic.ofRat (← degrees.asFloat))
  let radians ← rotation.memberOf RADIANS_KEY
  if radians.isNumeric then
    return arithmetic.ofRat (← radians.asFloat)
  throw (.message "Cannot have a rotation with either degrees or radians!".toList)

/-- The rotation matrix of an angle about an axis. -/
def rotationFromJson (rotate : Json) : Except TransformError (Matrix (Fin 3) (Fin 3) K) := do
  let angle ← angleAsRadians arithmetic rotate
  let axis ← vectorFromJson arithmetic codec (← rotate.memberOf AXIS_KEY)
  return arithmetic.toRotationMatrix angle axis

def changeBasisFromJson (changeBasis : Json) : Except TransformError (Transform K) := do
  let newX ← vectorFromJson arithmetic codec (← changeBasis.memberOf X_KEY)
  let newY ← vectorFromJson arithmetic codec (← changeBasis.memberOf Y_KEY)
  let newZ ← vectorFromJson arithmetic codec (← changeBasis.memberOf Z_KEY)
  return (((ChangeOfBasis.new.setNewX newX).setNewY newY).setNewZ newZ).get

/-- A member of a level, where it has one. -/
def optional {α : Type} (convert : Json → Except TransformError α) :
    Option Json → Except TransformError (Option α)
  | none => .ok none
  | some value => (convert value).map some

/-- The matrix of a position and an orientation, each the identity when it is missing; nothing
when both are. -/
def positionOrientation (position : Option (Fin 3 → K))
    (orientation : Option (Matrix (Fin 3) (Fin 3) K)) : Option (Matrix4 K) :=
  if position.isSome || orientation.isSome then
    some (affineMatrix (orientation.getD 1) (position.getD 0))
  else none

/-- The translations and rotations of a level, on either side. -/
def handlePositions (t : Transform K) (members : JsonMembers) :
    Except TransformError (Transform K) := do
  let position ← optional (vectorFromJson arithmetic codec) (members.lookup TRANSLATE_KEY)
  let preposition ← optional (vectorFromJson arithmetic codec) (members.lookup PRETRANSLATE_KEY)
  let orientation ← optional (rotationFromJson arithmetic codec) (members.lookup ROTATE_KEY)
  let preorientation ← optional (rotationFromJson arithmetic codec) (members.lookup PREROTATE_KEY)
  let t := match positionOrientation position orientation with
    | some xform => t.concatPost xform
    | none => t
  let t := match positionOrientation preposition preorientation with
    | some xform => t.concatPre xform
    | none => t
  return t

def handleLevel (t : Transform K) (v : Json) : Except TransformError (Transform K) :=
  match v with
  | .obj members =>
      match members.lookup CHANGE_BASIS_KEY with
      | some changeBasis => (changeBasisFromJson arithmetic codec changeBasis).map t.transform
      | none => handlePositions arithmetic codec t members
  -- This is a non-object leaf node.
  | .null | .bool _ | .int _ | .real _ | .str _ | .arr _ => .ok t

end Levels

/-! ## The visitor -/

namespace Json

mutual

/-- The levels from the root to the leaf. -/
def visitedLevels : Json → List Json
  | .obj members => .obj members :: (visitedLevelsIn members).getD []
  | .null => [.null]
  | .bool b => [.bool b]
  | .int n => [.int n]
  | .real q => [.real q]
  | .str s => [.str s]
  | .arr items => [.arr items]

def visitedLevelsIn : List (Str × Json) → Option (List Json)
  | [] => none
  | (key, value) :: rest =>
      if key = CHILD_KEY then some (visitedLevels value) else visitedLevelsIn rest

end

end Json

structure JSONTransformVisitor (K : Type) where
  transform : Transform K
  leaf : Json

/-- The constructor; the levels are handled from the last one back to the root. -/
def JSONTransformVisitor.new (arithmetic : LevelArithmetic K) (codec : JsonCodec) (root : Json) :
    Except TransformError (JSONTransformVisitor K) :=
  (root.visitedLevels.reverse.foldlM (handleLevel arithmetic codec) Transform.identity).map
    fun transform => { transform := transform, leaf := root.leaf }

/-- `getCurrentTransform` of the handler of a tracker. -/
def getCurrentTransform (transform roomToWorldTransform : Transform K) : Transform K :=
  transform.transform roomToWorldTransform

/-! ## One level as a transformation -/

section Levels

variable (arithmetic : LevelArithmetic K) (codec : JsonCodec)

/-- What a level puts around what there is. -/
def levelTransform (v : Json) : Except TransformError (Transform K) :=
  handleLevel arithmetic codec Transform.identity v

theorem handlePositions_eq (t : Transform K) (members : JsonMembers) :
    handlePositions arithmetic codec t members =
      (handlePositions arithmetic codec Transform.identity members).map (t * ·) := by
  rw [handlePositions, handlePositions]
  cases optional (vectorFromJson arithmetic codec) (members.lookup TRANSLATE_KEY) with
  | error failure => rfl
  | ok position =>
  cases optional (vectorFromJson arithmetic codec) (members.lookup PRETRANSLATE_KEY) with
  | error failure => rfl
  | ok preposition =>
  cases optional (rotationFromJson arithmetic codec) (members.lookup ROTATE_KEY) with
  | error failure => rfl
  | ok orientation =>
  cases optional (rotationFromJson arithmetic codec) (members.lookup PREROTATE_KEY) with
  | error failure => rfl
  | ok preorientation =>
      apply congrArg Except.ok
      cases positionOrientation position orientation <;>
        cases positionOrientation preposition preorientation <;>
          ext1 <;> simp [Transform.concatPost, Transform.concatPre, Transform.identity]

/-- A level is put around any transformation in the same way, and fails for all or none. -/
theorem handleLevel_eq (t : Transform K) (v : Json) :
    handleLevel arithmetic codec t v = (levelTransform arithmetic codec v).map (t * ·) := by
  rw [levelTransform]
  cases v with
  | obj members =>
      rw [handleLevel, handleLevel]
      cases members.lookup CHANGE_BASIS_KEY with
      | some changeBasis =>
          cases hbasis : changeBasisFromJson arithmetic codec changeBasis with
          | error failure => simp [hbasis, Except.map]
          | ok basis =>
              simp [hbasis, Except.map, Transform.transform_eq, Transform.identity_eq]
      | none => exact handlePositions_eq arithmetic codec t members
  | null | bool _ | int _ | real _ | str _ | arr _ =>
      simp [handleLevel, Except.map, Transform.identity_eq]

/-- A level does not look at its child. -/
theorem levelTransform_congr {members others : JsonMembers}
    (h : ∀ key, key ≠ CHILD_KEY → others.lookup key = members.lookup key) :
    levelTransform arithmetic codec (.obj others) =
      levelTransform arithmetic codec (.obj members) := by
  rw [levelTransform, levelTransform, handleLevel, handleLevel, handlePositions, handlePositions,
    h CHANGE_BASIS_KEY (by decide), h TRANSLATE_KEY (by decide), h PRETRANSLATE_KEY (by decide),
    h ROTATE_KEY (by decide), h PREROTATE_KEY (by decide)]

theorem levelTransform_of_leaf {v : Json} (h : v.isObject = false) :
    levelTransform arithmetic codec v = .ok 1 := by
  cases v with
  | obj members => cases h
  | null | bool _ | int _ | real _ | str _ | arr _ => rfl

/-- The transformations of the levels, from the root to the leaf. -/
def levelTransforms (root : Json) : List (Except TransformError (Transform K)) :=
  root.visitedLevels.map (levelTransform arithmetic codec)

/-- The visitor multiplies the levels, the innermost one first. -/
theorem JSONTransformVisitor.new_eq (root : Json) :
    JSONTransformVisitor.new arithmetic codec root =
      ((levelTransforms arithmetic codec root).reverse.mapM id).map fun levels =>
        { transform := levels.prod, leaf := root.leaf } := by
  have hstep : handleLevel arithmetic codec =
      fun t v => (levelTransform arithmetic codec v).map (t * ·) := by
    funext t v
    exact handleLevel_eq arithmetic codec t v
  have hlevels : (levelTransforms arithmetic codec root).reverse.mapM id =
      root.visitedLevels.reverse.mapM (levelTransform arithmetic codec) := by
    rw [levelTransforms, ← List.map_reverse, List.mapM_map]
    rfl
  rw [JSONTransformVisitor.new, hstep, foldlM_mul, hlevels]
  cases root.visitedLevels.reverse.mapM (levelTransform arithmetic codec) with
  | error failure => rfl
  | ok levels => simp only [Except.map, Transform.identity_eq, one_mul]

end Levels

/-! ## Chains in the place of a leaf -/

namespace Json

theorem visitedLevelsIn_eq (members : JsonMembers) :
    visitedLevelsIn members = (members.lookup CHILD_KEY).map visitedLevels :=
  eq_map_lookup (by rw [visitedLevelsIn]) (fun _ _ _ => by rw [visitedLevelsIn]) members

theorem visitedLevels_of_leaf {v : Json} (h : v.isObject = false) : v.visitedLevels = [v] := by
  cases v with
  | obj members => cases h
  | null | bool _ | int _ | real _ | str _ | arr _ => rfl

theorem visitedLevels_of_lookup {members : JsonMembers} {child : Json}
    (hchild : members.lookup CHILD_KEY = some child) :
    visitedLevels (.obj members) = .obj members :: child.visitedLevels := by
  rw [visitedLevels, visitedLevelsIn_eq, hchild, Option.map_some, Option.getD_some]

/-- Setting the leaf of an object changes its child only. -/
theorem setLeafIn_of_lookup_eq {members : JsonMembers} {child : Json}
    (hchild : members.lookup CHILD_KEY = some child) (new : Json) :
    ∃ changed, setLeafIn members new = some changed ∧
      changed.lookup CHILD_KEY = some (child.setLeaf new) ∧
      ∀ key, key ≠ CHILD_KEY → changed.lookup key = members.lookup key := by
  induction members with
  | nil => cases hchild
  | cons member rest ih =>
      obtain ⟨key, value⟩ := member
      rw [lookup_cons] at hchild
      by_cases hkey : key = CHILD_KEY
      · rw [if_pos hkey.symm] at hchild
        refine ⟨(key, value.setLeaf new) :: rest, by rw [setLeafIn, if_pos hkey], ?_, ?_⟩
        · rw [lookup_cons, if_pos hkey.symm, Option.some.inj hchild]
        · intro query hquery
          rw [lookup_cons, lookup_cons, if_neg (hkey ▸ hquery), if_neg (hkey ▸ hquery)]
      · rw [if_neg (Ne.symm hkey)] at hchild
        obtain ⟨changed, hchanged, hlookup, hothers⟩ := ih hchild
        refine ⟨(key, value) :: changed, by rw [setLeafIn, if_neg hkey, hchanged]; rfl, ?_, ?_⟩
        · rw [lookup_cons, if_neg (Ne.symm hkey), hlookup]
        · intro query hquery
          rw [lookup_cons, lookup_cons, hothers query hquery]

theorem leaf_of_lookup {members : JsonMembers} {child : Json}
    (hchild : members.lookup CHILD_KEY = some child) : leaf (.obj members) = child.leaf := by
  rw [leaf, leafIn_eq, hchild, Option.map_some, Option.getD_some]

/-- The leaf of a chain around another value is the leaf of that. -/
theorem leaf_setLeaf {outer : Json} (houter : outer.Chain) (inner : Json) :
    (outer.setLeaf inner).leaf = inner.leaf := by
  induction houter with
  | leaf hleaf => rw [Chain.setLeaf_of_leaf hleaf]
  | @level members child hchild _ ih =>
      obtain ⟨changed, hchanged, hlookup, _⟩ := setLeafIn_of_lookup_eq hchild inner
      rw [setLeaf, hchanged, Option.map_some, Option.getD_some, leaf_of_lookup hlookup, ih]

/-- A chain has the same levels around any leaf, of which its own adds nothing. -/
theorem Chain.levelTransforms_eq (arithmetic : LevelArithmetic K) (codec : JsonCodec)
    {outer : Json} (houter : outer.Chain) :
    ∃ levels, levelTransforms arithmetic codec outer = levels ++ [.ok 1] ∧
      ∀ inner, levelTransforms arithmetic codec (outer.setLeaf inner) =
        levels ++ levelTransforms arithmetic codec inner := by
  induction houter with
  | @leaf value hleaf =>
      refine ⟨[], ?_, fun inner => ?_⟩
      · rw [levelTransforms, visitedLevels_of_leaf hleaf, List.map_singleton,
          levelTransform_of_leaf arithmetic codec hleaf, List.nil_append]
      · rw [Chain.setLeaf_of_leaf hleaf, List.nil_append]
  | @level members child hchild _ ih =>
      obtain ⟨levels, hlevels, hinner⟩ := ih
      refine ⟨levelTransform arithmetic codec (.obj members) :: levels, ?_, fun inner => ?_⟩
      · rw [levelTransforms, visitedLevels_of_lookup hchild, List.map_cons, ← levelTransforms,
          hlevels, List.cons_append]
      · obtain ⟨changed, hchanged, hlookup, hothers⟩ := setLeafIn_of_lookup_eq hchild inner
        rw [setLeaf, hchanged, Option.map_some, Option.getD_some, levelTransforms,
          visitedLevels_of_lookup hlookup, List.map_cons, ← levelTransforms, hinner,
          levelTransform_congr arithmetic codec hothers, List.cons_append]

end Json

namespace JSONTransformVisitor

variable (arithmetic : LevelArithmetic K) (codec : JsonCodec)

/-- The visitor of a chain around another value: what the value gives, with the chain's levels
around it. -/
theorem new_setLeaf {outer : Json} (houter : outer.Chain) (inner : Json) :
    new arithmetic codec (outer.setLeaf inner) = do
      let visited ← new arithmetic codec inner
      let around ← new arithmetic codec outer
      return { transform := visited.transform * around.transform, leaf := visited.leaf } := by
  obtain ⟨levels, hlevels, hinner⟩ := houter.levelTransforms_eq arithmetic codec
  rw [new_eq, new_eq, new_eq, hinner, hlevels, Json.leaf_setLeaf houter, List.reverse_append,
    List.reverse_append, List.mapM_append]
  cases (levelTransforms arithmetic codec inner).reverse.mapM id with
  | error failure => rfl
  | ok first =>
      simp only [List.reverse_singleton, List.singleton_append, List.mapM_cons]
      cases levels.reverse.mapM id with
      | error failure => rfl
      | ok second => simp [Except.map, bind, Except.bind, pure, Except.pure]

/-- The transformation of a value is the product of its levels, the innermost one first. A chain
around another value is accepted when both are, and it does to every pose what the chain does to
what the value does to it; the room is outside of all. -/
theorem nested_composes {outer : Json} (houter : outer.Chain) (inner : Json) :
    (∀ root, new arithmetic codec root =
      ((levelTransforms arithmetic codec root).reverse.mapM id).map fun levels =>
        { transform := levels.prod, leaf := root.leaf }) ∧
    ((∃ nested, new arithmetic codec (outer.setLeaf inner) = .ok nested) ↔
      (∃ around, new arithmetic codec outer = .ok around) ∧
        ∃ within, new arithmetic codec inner = .ok within) ∧
    ∀ nested around within, new arithmetic codec (outer.setLeaf inner) = .ok nested →
      new arithmetic codec outer = .ok around → new arithmetic codec inner = .ok within →
      nested.leaf = within.leaf ∧
      (∀ pose, nested.transform.transformPose pose =
        around.transform.transformPose (within.transform.transformPose pose)) ∧
      ∀ roomToWorld pose,
        (getCurrentTransform nested.transform roomToWorld).transformPose pose =
          roomToWorld.transformPose (nested.transform.transformPose pose) := by
  refine ⟨new_eq arithmetic codec, ?_⟩
  rw [new_setLeaf arithmetic codec houter inner]
  apply And.intro
  · cases new arithmetic codec inner with
    | error failure =>
        apply iff_of_false
        · rintro ⟨_, hnested⟩
          cases hnested
        · rintro ⟨_, _, hinner⟩
          cases hinner
    | ok within =>
        cases new arithmetic codec outer with
        | error failure =>
            apply iff_of_false
            · rintro ⟨_, hnested⟩
              cases hnested
            · rintro ⟨⟨_, houter⟩, _⟩
              cases houter
        | ok around => exact iff_of_true ⟨_, rfl⟩ ⟨⟨_, rfl⟩, _, rfl⟩
  · intro nested around within hnested haround hwithin
    rw [haround, hwithin] at hnested
    cases hnested
    refine ⟨rfl, fun pose => ?_, fun roomToWorld pose => ?_⟩
    · simp only [Transform.transformPose_eq]
      exact TwoSided.act_mul within.transform around.transform pose
    · simp only [Transform.transformPose_eq]
      exact TwoSided.act_mul _ roomToWorld pose

end JSONTransformVisitor

/-- Whole numbers, without rotations. -/
def wholeNumbers : LevelArithmetic ℤ :=
  { ofRat := Rat.num, degreesToRadians := id, toRotationMatrix := fun _ _ => 1 }

/-- A codec that knows no texts. -/
def silentCodec : JsonCodec :=
  { parse := fun _ => none, write := fun _ => [], toStyledString := fun _ => []
    realText := fun _ => [] }

/-- A translation along the first axis. -/
def translated : Json := .obj [(CHILD_KEY, .str []), (TRANSLATE_KEY, .str ['x'])]

/-- The axes `x` and `y` are exchanged, and `z` changes its sign. -/
def exchangedBasis : Json :=
  .obj [(CHANGE_BASIS_KEY,
    .obj [(X_KEY, .str ['y']), (Y_KEY, .str ['x']), (Z_KEY, .str ['-', 'z'])])]

/-- The position 5, 7, 9 is first exchanged, and then translated. -/
theorem JSONTransformVisitor.nested_composes_translated :
    ∃ nested, new wholeNumbers silentCodec (translated.setLeaf exchangedBasis) = .ok nested ∧
      translationPart (nested.transform.transformPose
          (affineMatrix 1 fun axis => 5 + 2 * axis.val)) =
        fun axis => [8, 5, -9].getD axis.val 0 := by
  have hchain : translated.Chain := .level rfl (.leaf rfl)
  obtain ⟨-, haccepted, hcomposes⟩ :=
    nested_composes wholeNumbers silentCodec hchain exchangedBasis
  obtain ⟨nested, hnested⟩ := haccepted.mpr ⟨⟨_, rfl⟩, ⟨_, rfl⟩⟩
  refine ⟨nested, hnested, ?_⟩
  rw [(hcomposes nested _ _ hnested rfl rfl).2.1]
  decide

end OSVR.Common
