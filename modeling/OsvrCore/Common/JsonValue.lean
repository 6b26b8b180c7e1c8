/-
# JSON values

The values of the JSON library and the accessors the code uses, with the cases
in which an accessor throws. Reading and writing text is a parameter.
-/

import Mathlib.Logic.Basic

set_option autoImplicit false

namespace OSVR.Common

/-- Byte strings. -/
abbrev Str := List Char

/-- `Json::Value`. Members of an object are kept in the order of their names. -/
inductive Json
  | null
  | bool (b : Bool)
  | int (n : Int)
  | real (q : Rat)
  | str (s : Str)
  | arr (items : List Json)
  | obj (members : List (Str × Json))

/-- Members of an object. -/
abbrev JsonMembers := List (Str × Json)

namespace Json

instance : Inhabited Json := ⟨.null⟩

mutual

def decEq : (left right : Json) → Decidable (left = right)
  | .null, .null => .isTrue rfl
  | .bool b, .bool c => decidable_of_iff (b = c) (by simp)
  | .int m, .int n => decidable_of_iff (m = n) (by simp)
  | .real p, .real q => decidable_of_iff (p = q) (by simp)
  | .str s, .str t => decidable_of_iff (s = t) (by simp)
  | .arr xs, .arr ys =>
      match decEqItems xs ys with
      | .isTrue h => .isTrue (by rw [h])
      | .isFalse h => .isFalse (by simpa using h)
  | .obj xs, .obj ys =>
      match decEqMembers xs ys with
      | .isTrue h => .isTrue (by rw [h])
      | .isFalse h => .isFalse (by simpa using h)
  | .null, .bool _ | .null, .int _ | .null, .real _ | .null, .str _ | .null, .arr _
  | .null, .obj _ | .bool _, .null | .bool _, .int _ | .bool _, .real _ | .bool _, .str _
  | .bool _, .arr _ | .bool _, .obj _ | .int _, .null | .int _, .bool _ | .int _, .real _
  | .int _, .str _ | .int _, .arr _ | .int _, .obj _ | .real _, .null | .real _, .bool _
  | .real _, .int _ | .real _, .str _ | .real _, .arr _ | .real _, .obj _ | .str _, .null
  | .str _, .bool _ | .str _, .int _ | .str _, .real _ | .str _, .arr _ | .str _, .obj _
  | .arr _, .null | .arr _, .bool _ | .arr _, .int _ | .arr _, .real _ | .arr _, .str _
  | .arr _, .obj _ | .obj _, .null | .obj _, .bool _ | .obj _, .int _ | .obj _, .real _
  | .obj _, .str _ | .obj _, .arr _ => .isFalse (by simp)

def decEqItems : (left right : List Json) → Decidable (left = right)
  | [], [] => .isTrue rfl
  | x :: xs, y :: ys =>
      match decEq x y, decEqItems xs ys with
      | .isTrue h, .isTrue hs => .isTrue (by rw [h, hs])
      | .isFalse h, _ => .isFalse (fun heq => h (List.cons.inj heq).1)
      | _, .isFalse hs => .isFalse (fun heq => hs (List.cons.inj heq).2)
  | [], _ :: _ | _ :: _, [] => .isFalse (by simp)

def decEqMembers : (left right : List (Str × Json)) → Decidable (left = right)
  | [], [] => .isTrue rfl
  | (k, x) :: xs, (l, y) :: ys =>
      if hkey : k = l then
        match decEq x y, decEqMembers xs ys with
        | .isTrue h, .isTrue hs => .isTrue (by rw [hkey, h, hs])
        | .isFalse h, _ => .isFalse (fun heq => h (Prod.mk.inj (List.cons.inj heq).1).2)
        | _, .isFalse hs => .isFalse (fun heq => hs (List.cons.inj heq).2)
      else .isFalse (fun heq => hkey (Prod.mk.inj (List.cons.inj heq).1).1)
  | [], _ :: _ | _ :: _, [] => .isFalse (by simp)

end

instance : DecidableEq Json := decEq

/-- The accessors that throw on some types. -/
inductive Accessor
  | asString
  | asInt
  | asBool
  | isMember
  | index
  | getMemberNames
  deriving DecidableEq, Repr

end Json

/-- The exceptions of the JSON library. -/
inductive JsonError
  | wrongType (accessor : Json.Accessor)
  | outOfIntRange
  deriving DecidableEq, Repr

/-- `Json::Reader`, `Json::FastWriter`, `toStyledString` and the text of a real
number. Reading fails with `none`. -/
structure JsonCodec where
  parse : Str → Option Json
  write : Json → Str
  toStyledString : Json → Str
  realText : Rat → Str

namespace Json

def isNull : Json → Bool
  | .null => true
  | _ => false

def isString : Json → Bool
  | .str _ => true
  | _ => false

def isObject : Json → Bool
  | .obj _ => true
  | _ => false

/-- `asString`; containers throw. -/
def asString (codec : JsonCodec) : Json → Except JsonError Str
  | .null => .ok []
  | .bool b => .ok (if b then "true".toList else "false".toList)
  | .int n => .ok (toString n).toList
  | .real q => .ok (codec.realText q)
  | .str s => .ok s
  | .arr _ | .obj _ => .error (.wrongType .asString)

/-- `asInt`, for a 32-bit `int`; a real number is truncated towards zero. -/
def asInt : Json → Except JsonError Int
  | .null => .ok 0
  | .bool b => .ok (if b then 1 else 0)
  | .int n => if -2147483648 ≤ n ∧ n ≤ 2147483647 then .ok n else .error .outOfIntRange
  | .real q =>
      if -2147483648 ≤ q ∧ q ≤ 2147483647 then .ok (q.num.tdiv q.den) else .error .outOfIntRange
  | .str _ | .arr _ | .obj _ => .error (.wrongType .asInt)

def asBool : Json → Except JsonError Bool
  | .null => .ok false
  | .bool b => .ok b
  | .int n => .ok (n != 0)
  | .real q => .ok (q != 0)
  | .str _ | .arr _ | .obj _ => .error (.wrongType .asBool)

/-- The member of a null value or an object; a missing one is `none`. -/
def member? (name : Str) : Json → Except JsonError (Option Json)
  | .null => .ok none
  | .obj members => .ok (members.lookup name)
  | .bool _ | .int _ | .real _ | .str _ | .arr _ => .error (.wrongType .isMember)

def isMember (name : Str) (value : Json) : Except JsonError Bool :=
  (value.member? name).map Option.isSome

/-- `operator[]` of a constant value: a missing member reads as null. -/
def index (name : Str) (value : Json) : Except JsonError Json :=
  (value.member? name).map (Option.getD · .null)

def getMemberNames : Json → Except JsonError (List Str)
  | .null => .ok []
  | .obj members => .ok (members.map Prod.fst)
  | .bool _ | .int _ | .real _ | .str _ | .arr _ => .error (.wrongType .getMemberNames)

/-- What an iteration over a value visits. -/
def elements : Json → List Json
  | .arr items => items
  | .obj members => members.map Prod.snd
  | .null | .bool _ | .int _ | .real _ | .str _ => []

/-- Assign a member, at its place in the order of the names. -/
def insertMember (name : Str) (value : Json) : List (Str × Json) → List (Str × Json)
  | [] => [(name, value)]
  | (key, old) :: rest =>
      if key = name then (name, value) :: rest
      else if name < key then (name, value) :: (key, old) :: rest
      else (key, old) :: insertMember name value rest

/-- Assignment through the other `operator[]`: a null value becomes an object. -/
def setMember (name : Str) (value : Json) : Json → Except JsonError Json
  | .null => .ok (.obj [(name, value)])
  | .obj members => .ok (.obj (insertMember name value members))
  | .bool _ | .int _ | .real _ | .str _ | .arr _ => .error (.wrongType .index)

theorem lookup_cons (name query : Str) (value : Json) (rest : List (Str × Json)) :
    ((name, value) :: rest).lookup query =
      if query = name then some value else rest.lookup query := by
  by_cases hquery : query = name
  · simp [hquery]
  · have hbeq : (query == name) = false := by simpa using hquery
    simp [List.lookup_cons, hbeq, hquery]

/-- What walks through the members until it finds a name reads the member of that name. -/
theorem eq_map_lookup {α : Type} {name : Str} {read : Json → α}
    {walk : List (Str × Json) → Option α} (hnil : walk [] = none)
    (hcons : ∀ key value rest, walk ((key, value) :: rest) =
      if key = name then some (read value) else walk rest) (members : List (Str × Json)) :
    walk members = (members.lookup name).map read := by
  induction members with
  | nil => exact hnil
  | cons member rest ih =>
      obtain ⟨key, value⟩ := member
      rw [hcons, lookup_cons]
      by_cases hkey : key = name
      · rw [if_pos hkey, if_pos hkey.symm, Option.map_some]
      · rw [if_neg hkey, if_neg (Ne.symm hkey), ih]

theorem lookup_eq_none {name : Str} {members : List (Str × Json)}
    (h : name ∉ members.map Prod.fst) : members.lookup name = none := by
  rw [List.lookup_eq_none_iff]
  intro member hmem
  rw [bne_iff_ne]
  rintro rfl
  exact h (List.mem_map_of_mem hmem)

theorem lookup_insertMember (name query : Str) (value : Json) (members : List (Str × Json)) :
    (insertMember name value members).lookup query =
      if query = name then some value else members.lookup query := by
  induction members with
  | nil => simp [insertMember, lookup_cons]
  | cons entry rest ih =>
      obtain ⟨key, old⟩ := entry
      unfold insertMember
      by_cases hkey : key = name
      · subst hkey
        by_cases hquery : query = key <;> simp [lookup_cons, hquery]
      · by_cases hlt : name < key
        · simp [hkey, hlt, lookup_cons]
        · by_cases hquery : query = key
          · subst hquery
            simp [hkey, hlt]
          · simp [lookup_cons, hkey, hlt, hquery, ih]

end Json

/-- A reading that goes on after another one succeeds only if both do. -/
theorem exists_of_bind_eq_ok {α β ε : Type} {first : Except ε α} {next : α → Except ε β}
    {result : β} (h : (first >>= next) = .ok result) :
    ∃ value, first = .ok value ∧ next value = .ok result := by
  cases first with
  | error error => cases h
  | ok value => exact ⟨value, rfl, h⟩

theorem exists_of_map_eq_ok {α β ε : Type} {first : Except ε α} {f : α → β} {result : β}
    (h : first.map f = .ok result) : ∃ value, first = .ok value ∧ f value = result := by
  cases first with
  | error error => cases h
  | ok value => exact ⟨value, rfl, Except.ok.inj h⟩

end OSVR.Common
