/-
# Alias sources

The source of an alias is an absolute path or a chain of transforms around one,
as JSON text. Parsing strips the wrapping, accepts one old form of a route, and
gives access to the innermost string, the leaf.
-/

import OsvrCore.Common.JsonValue
import Mathlib.Data.List.DropRight

set_option autoImplicit false

namespace OSVR.Common

def CHILD_KEY : Str := "child".toList
def SOURCE_KEY : Str := "source".toList

namespace Json

mutual

/-- `m_leaf`: follow the child members inwards. -/
def leaf : Json → Json
  | .obj members => (leafIn members).getD (.obj members)
  | .null => .null
  | .bool b => .bool b
  | .int n => .int n
  | .real q => .real q
  | .str s => .str s
  | .arr items => .arr items

def leafIn : List (Str × Json) → Option Json
  | [] => none
  | (key, value) :: rest => if key = CHILD_KEY then some (leaf value) else leafIn rest

end

mutual

/-- Replace what `leaf` reads. -/
def setLeaf : (val new : Json) → Json
  | .obj members, new => ((setLeafIn members new).map .obj).getD new
  | .null, new | .bool _, new | .int _, new | .real _, new | .str _, new | .arr _, new => new

def setLeafIn : List (Str × Json) → Json → Option (List (Str × Json))
  | [], _ => none
  | (key, value) :: rest, new =>
      if key = CHILD_KEY then some ((key, setLeaf value new) :: rest)
      else (setLeafIn rest new).map ((key, value) :: ·)

end

mutual

/-- Remove the outer levels that only have a source. -/
def stripSource : Json → Json
  | .obj members => (stripSourceIn members).getD (.obj members)
  | .null => .null
  | .bool b => .bool b
  | .int n => .int n
  | .real q => .real q
  | .str s => .str s
  | .arr items => .arr items

def stripSourceIn : List (Str × Json) → Option Json
  | [] => none
  | (key, value) :: rest =>
      if key = SOURCE_KEY then some (stripSource value) else stripSourceIn rest

end

end Json

/-- `getPathFromOldRouteSource`. The front of an empty name reads as the
terminating null, which is no separator. -/
def getPathFromOldRouteSource (codec : JsonCodec) : Json → Except JsonError Str
  | .obj members =>
      match members.lookup "tracker".toList with
      | none => .ok []
      | some trackerValue => do
          let tracker ← trackerValue.asString codec
          let sensor ←
            match members.lookup "sensor".toList with
            | none => pure []
            | some sensorValue => do
                let number ← sensorValue.asInt
                pure ('/' :: (toString number).toList)
          return (if tracker.head? = some '/' then [] else ['/']) ++ tracker ++ "/tracker".toList ++
            sensor
  | .null | .bool _ | .int _ | .real _ | .str _ | .arr _ => .ok []

/-- `ParsedAlias`. A null value marks a source that could not be handled. -/
structure ParsedAlias where
  value : Json
  simple : Bool

namespace ParsedAlias

def isValid (alias_ : ParsedAlias) : Bool := !alias_.value.isNull

/-- `getLeaf`; the leaf of a parsed alias is a string or null, for which
`asString` gives the string or the empty one. -/
def getLeaf (alias_ : ParsedAlias) : Str :=
  match alias_.value.leaf with
  | .str leaf => leaf
  | .null | .bool _ | .int _ | .real _ | .arr _ | .obj _ => []

def setLeaf (leaf : Str) (alias_ : ParsedAlias) : ParsedAlias :=
  { alias_ with value := alias_.value.setLeaf (.str leaf) }

/-- Remove the line ends a writer adds. -/
def trimLineEnds (text : Str) : Str := text.rdropWhile fun c => c == '\n' || c == '\r'

/-- `getAlias`. -/
def getAlias (codec : JsonCodec) (alias_ : ParsedAlias) : Str :=
  match alias_.value with
  | .str source => source
  | value => trimLineEnds (codec.write value)

/-- The part of `m_parse` for an object without a source. -/
def parseTransform (codec : JsonCodec) (val : Json) : Except JsonError ParsedAlias :=
  match val.leaf with
  | .str _ => .ok ⟨val, false⟩
  | leaf => do
      let trackerEquiv ← getPathFromOldRouteSource codec leaf
      if trackerEquiv.isEmpty then return ⟨.null, false⟩
      else return ⟨val.setLeaf (.str trackerEquiv), false⟩

/-- `m_parse` of a JSON value. -/
def parseValue (codec : JsonCodec) (val : Json) : Except JsonError ParsedAlias :=
  match val.stripSource with
  | .str source => .ok ⟨.str source, true⟩
  | .obj members => parseTransform codec (.obj members)
  | .null | .bool _ | .int _ | .real _ | .arr _ => .ok ⟨.null, true⟩

/-- `m_parse` of a string: what is not JSON is taken as it is. -/
def parse (codec : JsonCodec) (src : Str) : Except JsonError ParsedAlias :=
  match codec.parse src with
  | none => .ok ⟨.str src, true⟩
  | some val => parseValue codec val

end ParsedAlias

/-! ## The leaf -/

namespace Json

theorem leafIn_eq (members : List (Str × Json)) :
    leafIn members = (members.lookup CHILD_KEY).map leaf :=
  eq_map_lookup (by rw [leafIn]) (fun _ _ _ => by rw [leafIn]) members

theorem leafIn_eq_none {members : List (Str × Json)} (h : CHILD_KEY ∉ members.map Prod.fst) :
    leafIn members = none := by
  rw [leafIn_eq, lookup_eq_none h, Option.map_none]

mutual

/-- What was set as a leaf is read back. -/
theorem leaf_setLeaf_str (text : Str) : (val : Json) → (val.setLeaf (.str text)).leaf = .str text
  | .obj members => by
      cases hset : setLeafIn members (.str text) with
      | none => simp [setLeaf, hset, leaf]
      | some changed =>
          have hleaf := leafIn_setLeafIn_str text members changed hset
          simp [setLeaf, hset, leaf, hleaf]
  | .null | .bool _ | .int _ | .real _ | .str _ | .arr _ => by simp [setLeaf, leaf]

theorem leafIn_setLeafIn_str (text : Str) : (members changed : List (Str × Json)) →
    setLeafIn members (.str text) = some changed → leafIn changed = some (.str text)
  | [], _, h => by simp [setLeafIn] at h
  | (key, value) :: rest, changed, h => by
      rw [setLeafIn] at h
      split at h
      next hkey =>
        cases h
        simp [leafIn, hkey, leaf_setLeaf_str text value]
      next hkey =>
        obtain ⟨tail, htail, rfl⟩ := Option.map_eq_some_iff.mp h
        simp [leafIn, hkey, leafIn_setLeafIn_str text rest tail htail]

end

theorem setLeafIn_eq_none_iff {members : List (Str × Json)} {new : Json} :
    setLeafIn members new = none ↔ CHILD_KEY ∉ members.map Prod.fst := by
  induction members with
  | nil => simp [setLeafIn]
  | cons entry rest ih =>
      obtain ⟨key, value⟩ := entry
      by_cases hkey : key = CHILD_KEY
      · simp [setLeafIn, hkey]
      · rw [setLeafIn, if_neg hkey, Option.map_eq_none_iff, ih]
        simp [Ne.symm hkey]

/-- Setting the leaf keeps the names of the members. -/
theorem names_setLeafIn {members changed : List (Str × Json)} {new : Json}
    (h : setLeafIn members new = some changed) :
    changed.map Prod.fst = members.map Prod.fst := by
  induction members generalizing changed with
  | nil => cases h
  | cons entry rest ih =>
      obtain ⟨key, value⟩ := entry
      rw [setLeafIn] at h
      split at h
      · cases h
        rfl
      · obtain ⟨tail, htail, rfl⟩ := Option.map_eq_some_iff.mp h
        simp [ih htail]

mutual

/-- The leaf that was set last is the one that counts. -/
theorem setLeaf_setLeaf_str (first second : Str) : (val : Json) →
    (val.setLeaf (.str first)).setLeaf (.str second) = val.setLeaf (.str second)
  | .obj members => by
      cases hset : setLeafIn members (.str first) with
      | none =>
          have hnone : setLeafIn members (.str second) = none :=
            setLeafIn_eq_none_iff.mpr (setLeafIn_eq_none_iff.mp hset)
          simp [setLeaf, hset, hnone]
      | some changed =>
          have hsame := setLeafIn_setLeafIn_str first second members changed hset
          simp [setLeaf, hset, hsame]
  | .null | .bool _ | .int _ | .real _ | .str _ | .arr _ => by simp [setLeaf]

theorem setLeafIn_setLeafIn_str (first second : Str) : (members changed : List (Str × Json)) →
    setLeafIn members (.str first) = some changed →
      setLeafIn changed (.str second) = setLeafIn members (.str second)
  | [], _, h => by simp [setLeafIn] at h
  | (key, value) :: rest, changed, h => by
      rw [setLeafIn] at h
      split at h
      next hkey =>
        cases h
        simp [setLeafIn, hkey, setLeaf_setLeaf_str first second value]
      next hkey =>
        obtain ⟨tail, htail, rfl⟩ := Option.map_eq_some_iff.mp h
        simp [setLeafIn, hkey, setLeafIn_setLeafIn_str first second rest tail htail]

end

/-! ## The source -/

theorem stripSourceIn_eq_none {members : List (Str × Json)}
    (h : SOURCE_KEY ∉ members.map Prod.fst) : stripSourceIn members = none := by
  have hwalk : stripSourceIn members = (members.lookup SOURCE_KEY).map stripSource :=
    eq_map_lookup (by rw [stripSourceIn]) (fun _ _ _ => by rw [stripSourceIn]) members
  rw [hwalk, lookup_eq_none h, Option.map_none]

mutual

/-- What is left of an object has no source. -/
theorem not_mem_of_stripSource : (val : Json) → (members : List (Str × Json)) →
    val.stripSource = .obj members → SOURCE_KEY ∉ members.map Prod.fst
  | .obj outer, members, h => by
      cases hstrip : stripSourceIn outer with
      | none =>
          rw [stripSource, hstrip] at h
          cases h
          exact not_mem_of_stripSourceIn_none outer hstrip
      | some inner =>
          rw [stripSource, hstrip] at h
          exact not_mem_of_stripSourceIn outer members (hstrip.trans (congrArg some h))
  | .null, _, h | .bool _, _, h | .int _, _, h | .real _, _, h | .str _, _, h | .arr _, _, h => by
      simp [stripSource] at h

theorem not_mem_of_stripSourceIn : (outer members : List (Str × Json)) →
    stripSourceIn outer = some (.obj members) → SOURCE_KEY ∉ members.map Prod.fst
  | [], _, h => by simp [stripSourceIn] at h
  | (key, value) :: rest, members, h => by
      rw [stripSourceIn] at h
      split at h
      · exact not_mem_of_stripSource value members (Option.some.inj h)
      · exact not_mem_of_stripSourceIn rest members h

theorem not_mem_of_stripSourceIn_none : (members : List (Str × Json)) →
    stripSourceIn members = none → SOURCE_KEY ∉ members.map Prod.fst
  | [], _ => by simp
  | (key, value) :: rest, h => by
      rw [stripSourceIn] at h
      split at h
      next => cases h
      next hkey =>
        simpa [Ne.symm hkey] using not_mem_of_stripSourceIn_none rest h

end

end Json

namespace ParsedAlias

/-- An object is a transform with a leaf, or cannot be handled, or has an old route
where its leaf should be. -/
theorem parseTransform_eq_ok {codec : JsonCodec} {val : Json} {alias_ : ParsedAlias}
    (h : parseTransform codec val = .ok alias_) :
    (∃ text, val.leaf = .str text ∧ alias_ = ⟨val, false⟩) ∨ alias_ = ⟨.null, false⟩ ∨
      ∃ route, getPathFromOldRouteSource codec val.leaf = .ok route ∧
        alias_ = ⟨val.setLeaf (.str route), false⟩ := by
  rw [parseTransform] at h
  split at h
  next text hleaf => exact .inl ⟨text, hleaf, (Except.ok.inj h).symm⟩
  next =>
    obtain ⟨route, hroute, h⟩ := exists_of_bind_eq_ok h
    split at h
    · exact .inr (.inl (Except.ok.inj h).symm)
    · exact .inr (.inr ⟨route, hroute, (Except.ok.inj h).symm⟩)

theorem simple_parseTransform {codec : JsonCodec} {val : Json} {alias_ : ParsedAlias}
    (h : parseTransform codec val = .ok alias_) : alias_.simple = false := by
  rcases parseTransform_eq_ok h with ⟨_, _, rfl⟩ | rfl | ⟨_, _, rfl⟩ <;> rfl

/-- A value without a source and without an object in its place cannot be handled. -/
theorem parseValue_eq_ok {codec : JsonCodec} {val : Json} {alias_ : ParsedAlias}
    (h : parseValue codec val = .ok alias_) :
    (∃ path, val.stripSource = .str path ∧ alias_ = ⟨.str path, true⟩) ∨ alias_ = ⟨.null, true⟩ ∨
      ∃ members, val.stripSource = .obj members ∧
      parseTransform codec (.obj members) = .ok alias_ := by
  rw [parseValue] at h
  split at h
  next path hpath => exact .inl ⟨path, hpath, (Except.ok.inj h).symm⟩
  next members hmembers => exact .inr (.inr ⟨members, hmembers, h⟩)
  all_goals exact .inr (.inl (Except.ok.inj h).symm)

variable (codec : JsonCodec)

/-- A parsed alias is null or its leaf is a string. -/
def HasLeaf (alias_ : ParsedAlias) : Prop :=
  alias_.value = .null ∨ ∃ text, alias_.value.leaf = .str text

theorem hasLeaf_parseTransform {val : Json} {alias_ : ParsedAlias}
    (h : parseTransform codec val = .ok alias_) : alias_.HasLeaf := by
  rcases parseTransform_eq_ok h with ⟨text, hleaf, rfl⟩ | rfl | ⟨route, _, rfl⟩
  · exact .inr ⟨text, hleaf⟩
  · exact .inl rfl
  · exact .inr ⟨route, Json.leaf_setLeaf_str route val⟩

theorem hasLeaf_parseValue {val : Json} {alias_ : ParsedAlias}
    (h : parseValue codec val = .ok alias_) : alias_.HasLeaf := by
  rcases parseValue_eq_ok h with ⟨source, _, rfl⟩ | rfl | ⟨members, _, htransform⟩
  · exact .inr ⟨source, rfl⟩
  · exact .inl rfl
  · exact hasLeaf_parseTransform codec htransform

theorem hasLeaf_parse {src : Str} {alias_ : ParsedAlias} (h : parse codec src = .ok alias_) :
    alias_.HasLeaf := by
  unfold parse at h
  split at h
  · cases h
    exact .inr ⟨src, rfl⟩
  · exact hasLeaf_parseValue codec h

/-- A parsed alias without a transform is a string or null. -/
theorem value_of_simple {val : Json} {alias_ : ParsedAlias} (h : parseValue codec val = .ok alias_)
    (hsimple : alias_.simple = true) : alias_.value = .null ∨ ∃ text, alias_.value = .str text := by
  rcases parseValue_eq_ok h with ⟨source, _, rfl⟩ | rfl | ⟨members, _, htransform⟩
  · exact .inr ⟨source, rfl⟩
  · exact .inl rfl
  · rw [simple_parseTransform htransform] at hsimple
    cases hsimple

/-- A parsed alias that is an object has no source around it. -/
theorem not_mem_of_parseValue {val : Json} {alias_ : ParsedAlias}
    (h : parseValue codec val = .ok alias_) {members : List (Str × Json)}
    (hvalue : alias_.value = .obj members) : SOURCE_KEY ∉ members.map Prod.fst := by
  rcases parseValue_eq_ok h with ⟨_, _, rfl⟩ | rfl | ⟨outer, hstrip, htransform⟩
  · cases hvalue
  · cases hvalue
  · have houter := Json.not_mem_of_stripSource val outer hstrip
    rcases parseTransform_eq_ok htransform with ⟨_, _, rfl⟩ | rfl | ⟨route, _, rfl⟩
    · cases hvalue
      exact houter
    · cases hvalue
    · rw [Json.setLeaf] at hvalue
      cases hset : Json.setLeafIn outer (.str route) with
      | none =>
          rw [hset] at hvalue
          cases hvalue
      | some changed =>
          rw [hset] at hvalue
          cases hvalue
          rwa [Json.names_setLeafIn hset]

/-- The reader takes the text of an alias for what it is: a path is no JSON text,
and the transform that was written is read back. -/
def Legible (alias_ : ParsedAlias) : Prop :=
  match alias_.value with
  | .str source => codec.parse source = none
  | value => codec.parse (trimLineEnds (codec.write value)) = some value

/-- The text of an alias with another leaf is parsed to the same alias. -/
theorem parse_getAlias {val : Json} {alias_ : ParsedAlias}
    (h : parseValue codec val = .ok alias_) {leaf : Str}
    (hlegible : (alias_.setLeaf leaf).Legible codec) :
    ∃ simple, parse codec ((alias_.setLeaf leaf).getAlias codec) =
      .ok ⟨alias_.value.setLeaf (.str leaf), simple⟩ := by
  have hsetLeaf : (alias_.setLeaf leaf).value = alias_.value.setLeaf (.str leaf) := rfl
  have hleaf := Json.leaf_setLeaf_str leaf alias_.value
  have hvalue : alias_.value.setLeaf (.str leaf) = .str leaf ∨
      ∃ members, alias_.value.setLeaf (.str leaf) = .obj members ∧
        SOURCE_KEY ∉ members.map Prod.fst := by
    cases hobject : alias_.value with
    | obj members =>
        rw [Json.setLeaf]
        cases hset : Json.setLeafIn members (.str leaf) with
        | none => exact .inl rfl
        | some changed =>
            refine .inr ⟨changed, rfl, ?_⟩
            rw [Json.names_setLeafIn hset]
            exact not_mem_of_parseValue codec h hobject
    | null | bool _ | int _ | real _ | str _ | arr _ => exact .inl rfl
  rw [Legible, hsetLeaf] at hlegible
  rw [getAlias, hsetLeaf]
  rcases hvalue with hstring | ⟨members, hobject, hsource⟩
  · rw [hstring] at hlegible ⊢
    refine ⟨true, ?_⟩
    rw [parse, show codec.parse leaf = none from hlegible]
  · rw [hobject] at hlegible hleaf ⊢
    refine ⟨false, ?_⟩
    have hread : codec.parse (trimLineEnds (codec.write (.obj members))) = some (.obj members) :=
      hlegible
    have hstrip : (Json.obj members).stripSource = .obj members := by
      rw [Json.stripSource, Json.stripSourceIn_eq_none hsource]
      rfl
    simp only [parse, hread, parseValue, hstrip, parseTransform, hleaf]

end ParsedAlias
end OSVR.Common
