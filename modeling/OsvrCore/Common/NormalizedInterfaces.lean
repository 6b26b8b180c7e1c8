/-
# What normalizing does to the interfaces

Every interface named for an eye tracker is given a count if it has none, and the
interfaces that it enables are put in place of those that are declared under the
same names. Looking a name up in the result tells which of these has happened.
-/

import OsvrCore.Common.JsonOrder
import OsvrCore.Common.NormalizeDeviceDescriptor

set_option autoImplicit false

namespace OSVR.Common

/-! ## One eye tracker -/

def isEyeTracker (name : Str) : Bool := iequals name EYETRACKER_KEY

/-- The members of an interface when its count has been looked for. -/
def counted (found : JsonMembers) : JsonMembers :=
  if (found.lookup COUNT_KEY).isSome then found else Json.insertMember COUNT_KEY .null found

/-- An interface of an eye tracker as it is written back, and the interfaces that it enables. -/
def breakDown (iface : Json) : Except JsonError (JsonMembers × JsonMembers) := do
  let found ← indexedMembers iface
  let count ← (((counted found).lookup COUNT_KEY).getD .null).asInt
  if count = 0 then return (counted found, [])
  else return (counted found, ← augmentInterfaces count (counted found) [])

def overlay (augInterfaces currInterfaces : JsonMembers) : JsonMembers :=
  if augInterfaces.isEmpty then currInterfaces else appendCurrentIface augInterfaces currInterfaces

/-- What `normalizeForEyeTracker` does to the interfaces. -/
def expandInterface (name : Str) (interfaces : JsonMembers) : Except JsonError JsonMembers := do
  let parts ← breakDown ((interfaces.lookup name).getD .null)
  return overlay parts.2 (Json.insertMember name (.obj parts.1) interfaces)

def expandInterfaces : List Str → JsonMembers → Except JsonError JsonMembers
  | [], interfaces => .ok interfaces
  | name :: rest, interfaces => do expandInterfaces rest (← expandInterface name interfaces)

theorem normalizeForEyeTracker_eq (descriptor : JsonMembers) (name : Str) :
    normalizeForEyeTracker descriptor name =
      (expandInterface name (descriptor.objectAt INTERFACES_KEY)).map fun interfaces =>
        Json.insertMember INTERFACES_KEY (.obj interfaces) descriptor := by
  have hiface (found : JsonMembers) : (if (found.lookup COUNT_KEY).isSome then found
      else Json.insertMember COUNT_KEY .null found) = counted found := rfl
  rw [normalizeForEyeTracker, expandInterface, breakDown]
  cases indexedMembers (((descriptor.objectAt INTERFACES_KEY).lookup name).getD .null) with
  | error error => rfl
  | ok found =>
      simp only [bind, Except.bind, hiface]
      cases (((counted found).lookup COUNT_KEY).getD .null).asInt with
      | error error => rfl
      | ok count =>
          by_cases hcount : count = 0
          · simp only [hcount, if_true]
            rfl
          · simp only [hcount, if_false]
            cases augmentInterfaces count (counted found) [] with
            | error error => rfl
            | ok augInterfaces =>
                cases hempty : augInterfaces.isEmpty with
                | true => simp [overlay, pure, Except.pure, Except.map, hempty]
                | false =>
                    simp [overlay, pure, Except.pure, Except.map, hempty,
                      Json.insertMember_insertMember]

/-- The passes over the names change the interfaces, and nothing else. -/
theorem normalizeInterfaces_eq {descriptor interfaces : JsonMembers}
    (hordered : Json.Ascending descriptor)
    (hinterfaces : descriptor.lookup INTERFACES_KEY = some (.obj interfaces)) (names : List Str) :
    normalizeInterfaces names descriptor =
      (expandInterfaces (names.filter isEyeTracker) interfaces).map fun interfaces =>
        Json.insertMember INTERFACES_KEY (.obj interfaces) descriptor := by
  induction names generalizing descriptor interfaces with
  | nil =>
      rw [normalizeInterfaces, List.filter_nil, expandInterfaces, Except.map,
        hordered.insertMember_of_lookup hinterfaces]
  | cons name names ih =>
      rw [normalizeInterfaces]
      cases hname : iequals name EYETRACKER_KEY with
      | false =>
          rw [List.filter_cons_of_neg (by simp [isEyeTracker, hname]), if_neg Bool.false_ne_true,
            ih hordered hinterfaces]
      | true =>
          have hat : descriptor.objectAt INTERFACES_KEY = interfaces := by
            rw [JsonMembers.objectAt, hinterfaces]
          rw [List.filter_cons_of_pos (by simp [isEyeTracker, hname]), if_pos rfl,
            normalizeForEyeTracker_eq, hat, expandInterfaces]
          cases expandInterface name interfaces with
          | error error => rfl
          | ok expanded =>
              have hnext := ih (hordered.insertMember INTERFACES_KEY (.obj expanded))
                (by rw [Json.lookup_insertMember, if_pos rfl])
              simp only [Json.insertMember_insertMember] at hnext
              exact hnext

/-! ## Lookups after one pass -/

/-- What is an object in the one stays, and the rest comes from the other. -/
theorem lookup_appendCurrentIface {currInterfaces : JsonMembers}
    (hcurr : Json.Ascending currInterfaces) (augInterfaces : JsonMembers) (query : Str) :
    (appendCurrentIface augInterfaces currInterfaces).lookup query =
      if (augInterfaces.lookup query).any Json.isObject then augInterfaces.lookup query
      else (currInterfaces.lookup query).or (augInterfaces.lookup query) := by
  induction currInterfaces generalizing augInterfaces with
  | nil =>
      rw [List.lookup_nil, Option.none_or, ite_self]
      rfl
  | cons member rest ih =>
      obtain ⟨name, value⟩ := member
      have hnone := hcurr.lookup_tail_eq_none
      have hstep := ih (List.pairwise_cons.mp hcurr).2
        (if (augInterfaces.lookup name).any Json.isObject then augInterfaces
          else Json.insertMember name value augInterfaces)
      rw [appendCurrentIface, List.foldl_cons]
      rw [appendCurrentIface] at hstep
      rw [hstep, Json.lookup_cons]
      by_cases hquery : query = name
      · subst hquery
        rw [hnone, if_pos rfl]
        cases hobject : (augInterfaces.lookup query).any Json.isObject with
        | true => simp [hobject]
        | false => simp [Json.lookup_insertMember]
      · rw [if_neg hquery]
        cases hobject : (augInterfaces.lookup name).any Json.isObject with
        | true => rw [if_pos rfl]
        | false => rw [if_neg Bool.false_ne_true, Json.lookup_insertMember, if_neg hquery]

theorem ascending_appendCurrentIface {augInterfaces : JsonMembers}
    (haug : Json.Ascending augInterfaces) (currInterfaces : JsonMembers) :
    Json.Ascending (appendCurrentIface augInterfaces currInterfaces) := by
  induction currInterfaces generalizing augInterfaces with
  | nil => exact haug
  | cons member rest ih =>
      rw [appendCurrentIface, List.foldl_cons]
      split
      next => exact ih haug
      next => exact ih (haug.insertMember _ _)

/-! ## The interfaces that are derived -/

/-- The name of the interface that an enabled one adds. -/
def derivedKey (subIface : Str) : Option Str :=
  if iequals subIface LOCATION2D_KEY then some LOCATION2D_KEY
  else if iequals subIface DIRECTION_KEY then some DIRECTION_KEY
  else if iequals subIface TRACKER_KEY then some TRACKER_KEY
  else if iequals subIface BUTTON_KEY then some BUTTON_KEY
  else none

/-- The interface that is added under a name. -/
def derivedEntry (count : Int) (key : Str) : JsonMembers :=
  if key = TRACKER_KEY then
    [(BOUNDED_KEY, .bool true), (COUNT_KEY, .int count), (ORIENTATION_KEY, .bool false),
      (POSITION_KEY, .bool true)]
  else [(COUNT_KEY, .int count)]

/-- What has been added so far is as it is derived. -/
def Derived (count : Int) (augInterfaces : JsonMembers) : Prop :=
  ∀ key value, augInterfaces.lookup key = some value → value = .obj (derivedEntry count key)

theorem lookup_setNested (members : JsonMembers) (name inner query : Str) (value : Json) :
    (members.setNested name inner value).lookup query =
      if query = name then some (.obj (Json.insertMember inner value (members.objectAt name)))
      else members.lookup query := Json.lookup_insertMember _ _ _ _

theorem objectAt_setNested (members : JsonMembers) (name inner : Str) (value : Json) :
    (members.setNested name inner value).objectAt name =
      Json.insertMember inner value (members.objectAt name) := by
  rw [JsonMembers.objectAt, lookup_setNested, if_pos rfl]

theorem Derived.objectAt {count : Int} {augInterfaces : JsonMembers}
    (h : Derived count augInterfaces) (key : Str) :
    augInterfaces.objectAt key = [] ∨ augInterfaces.objectAt key = derivedEntry count key := by
  rw [JsonMembers.objectAt]
  cases hkey : augInterfaces.lookup key with
  | none => exact .inl rfl
  | some value =>
      rw [h key value hkey]
      exact .inr rfl

/-- The entry of an interface with a count only, whether it is there or not. -/
theorem insertMember_count {count : Int} {augInterfaces : JsonMembers} {key : Str}
    (h : Derived count augInterfaces) (hkey : key ≠ TRACKER_KEY) :
    Json.insertMember COUNT_KEY (.int count) (augInterfaces.objectAt key) =
      derivedEntry count key := by
  rcases h.objectAt key with hempty | hentry
  · rw [hempty, derivedEntry, if_neg hkey]
    rfl
  · rw [hentry, derivedEntry, if_neg hkey]
    rfl

/-- The entry of the tracker, whether it is there or not. -/
theorem insertMember_tracker {count : Int} {augInterfaces : JsonMembers}
    (h : Derived count augInterfaces) :
    Json.insertMember COUNT_KEY (.int count) (Json.insertMember BOUNDED_KEY (.bool true)
      (Json.insertMember ORIENTATION_KEY (.bool false) (Json.insertMember POSITION_KEY (.bool true)
        (augInterfaces.objectAt TRACKER_KEY)))) = derivedEntry count TRACKER_KEY := by
  -- the order of the four keys, as far as the insertions compare them
  have hcount : BOUNDED_KEY ≠ COUNT_KEY ∧ ¬COUNT_KEY < BOUNDED_KEY ∧
      ORIENTATION_KEY ≠ COUNT_KEY ∧ COUNT_KEY < ORIENTATION_KEY := by decide
  have hbounded : ORIENTATION_KEY ≠ BOUNDED_KEY ∧ BOUNDED_KEY < ORIENTATION_KEY := by decide
  have horientation : BOUNDED_KEY ≠ ORIENTATION_KEY ∧ ¬ORIENTATION_KEY < BOUNDED_KEY ∧
      COUNT_KEY ≠ ORIENTATION_KEY ∧ ¬ORIENTATION_KEY < COUNT_KEY ∧
      POSITION_KEY ≠ ORIENTATION_KEY ∧ ORIENTATION_KEY < POSITION_KEY := by decide
  have hposition : BOUNDED_KEY ≠ POSITION_KEY ∧ ¬POSITION_KEY < BOUNDED_KEY ∧
      COUNT_KEY ≠ POSITION_KEY ∧ ¬POSITION_KEY < COUNT_KEY ∧
      ORIENTATION_KEY ≠ POSITION_KEY ∧ ¬POSITION_KEY < ORIENTATION_KEY := by decide
  rw [derivedEntry, if_pos rfl]
  rcases h.objectAt TRACKER_KEY with hempty | hentry
  · rw [hempty]
    simp only [Json.insertMember, hcount, hbounded, horientation, if_true, if_false]
  · rw [hentry, derivedEntry, if_pos rfl]
    simp only [Json.insertMember, hcount, horientation, hposition, if_true, if_false]

theorem lookup_augmentInterface {count : Int} {augInterfaces : JsonMembers}
    (h : Derived count augInterfaces) (subIface query : Str) :
    (augmentInterface count subIface augInterfaces).lookup query =
      if derivedKey subIface = some query then some (.obj (derivedEntry count query))
      else augInterfaces.lookup query := by
  have hcount {key : Str} (hkey : key ≠ TRACKER_KEY) :
      (augInterfaces.setNested key COUNT_KEY (.int count)).lookup query =
        if some key = some query then some (.obj (derivedEntry count query))
        else augInterfaces.lookup query := by
    rw [lookup_setNested, insertMember_count h hkey]
    by_cases hquery : query = key
    · rw [if_pos hquery, if_pos (congrArg some hquery.symm), hquery]
    · rw [if_neg hquery, if_neg fun heq => hquery (Option.some.inj heq).symm]
  unfold augmentInterface derivedKey
  split
  next => exact hcount (by decide)
  next =>
    split
    next => exact hcount (by decide)
    next =>
      split
      next =>
        rw [lookup_setNested, objectAt_setNested, objectAt_setNested, objectAt_setNested,
          insertMember_tracker h, lookup_setNested, lookup_setNested, lookup_setNested]
        by_cases hquery : query = TRACKER_KEY
        · rw [if_pos hquery, if_pos (congrArg some hquery.symm), hquery]
        · rw [if_neg hquery, if_neg hquery, if_neg hquery, if_neg hquery,
            if_neg fun heq => hquery (Option.some.inj heq).symm]
      next =>
        split
        next => exact hcount (by decide)
        next => rfl

theorem Derived.augmentInterface {count : Int} {augInterfaces : JsonMembers}
    (h : Derived count augInterfaces) (subIface : Str) :
    Derived count (augmentInterface count subIface augInterfaces) := by
  intro key value hvalue
  rw [lookup_augmentInterface h] at hvalue
  split at hvalue
  next => exact (Option.some.inj hvalue).symm
  next => exact h key value hvalue

/-- An interface enables the sub-interface of a name. -/
def enables (iface : JsonMembers) (key : Str) : Bool :=
  iface.any fun detail =>
    (match detail.2.asBool with
      | .ok enabled => enabled
      | .error _ => false) && derivedKey detail.1 == some key

theorem lookup_augmentInterfaces {count : Int} {iface augInterfaces after : JsonMembers}
    (h : Derived count augInterfaces)
    (hrun : augmentInterfaces count iface augInterfaces = .ok after)
    (query : Str) :
    after.lookup query =
      if enables iface query then some (.obj (derivedEntry count query))
      else augInterfaces.lookup query := by
  induction iface generalizing augInterfaces with
  | nil =>
      obtain rfl := Except.ok.inj hrun
      rfl
  | cons detail rest ih =>
      obtain ⟨subIface, value⟩ := detail
      have ⟨enabled, henabled, hrest⟩ := exists_of_bind_eq_ok hrun
      rw [enables, List.any_cons, henabled]
      dsimp only
      cases enabled with
      | false => exact ih h hrest
      | true =>
          have hlookup := ih (h.augmentInterface subIface) hrest
          rw [lookup_augmentInterface h] at hlookup
          rw [hlookup, Bool.true_and]
          by_cases hkey : derivedKey subIface = some query
          · rw [if_pos hkey, ite_self, beq_iff_eq.mpr hkey, Bool.true_or, if_pos rfl]
          · rw [if_neg hkey, beq_eq_false_iff_ne.mpr hkey, Bool.false_or, enables]

/-- The count with which an interface of an eye tracker derives another. -/
def derivedCount (iface : Json) (key : Str) : Option Int :=
  match iface with
  | .obj members =>
      match ((members.lookup COUNT_KEY).getD .null).asInt with
      | .ok count => if count ≠ 0 ∧ enables members key = true then some count else none
      | .error _ => none
  | .null | .bool _ | .int _ | .real _ | .str _ | .arr _ => none

/-- The members of a value that is written to. -/
def writtenMembers : Json → JsonMembers
  | .obj members => members
  | .null | .bool _ | .int _ | .real _ | .str _ | .arr _ => []

theorem lookup_count_counted (found : JsonMembers) :
    ((counted found).lookup COUNT_KEY).getD .null = (found.lookup COUNT_KEY).getD .null := by
  rw [counted]
  cases hcount : found.lookup COUNT_KEY with
  | none =>
      rw [Option.isSome_none, if_neg Bool.false_ne_true, Json.lookup_insertMember, if_pos rfl]; rfl
  | some count => rw [Option.isSome_some, if_pos rfl, hcount]

theorem counted_of_isSome {found : JsonMembers} (h : (found.lookup COUNT_KEY).isSome = true) :
    counted found = found := if_pos h

/-- The count is there, then. -/
theorem isSome_lookup_counted (found : JsonMembers) :
    ((counted found).lookup COUNT_KEY).isSome = true := by
  rw [counted]
  split
  next h => exact h
  next =>
    rw [Json.lookup_insertMember, if_pos rfl]
    rfl

theorem indexedMembers_eq_ok {iface : Json} {found : JsonMembers}
    (h : indexedMembers iface = .ok found) : found = writtenMembers iface := by
  cases iface with
  | null => exact (Except.ok.inj h).symm
  | obj members => exact (Except.ok.inj h).symm
  | bool _ | int _ | real _ | str _ | arr _ => cases h

/-- The count of an interface with members, if it can be read. -/
def countOf (members : JsonMembers) : Except JsonError Int :=
  ((members.lookup COUNT_KEY).getD .null).asInt

theorem derivedCount_of_zero {iface : Json} (h : countOf (writtenMembers iface) = .ok 0)
    (key : Str) : derivedCount iface key = none := by
  cases iface with
  | obj members =>
      have hcount : ((members.lookup COUNT_KEY).getD .null).asInt = .ok 0 := h
      simp [derivedCount, hcount]
  | null | bool _ | int _ | real _ | str _ | arr _ => rfl

/-- With a count that is not zero, the interface is an object that has it. -/
theorem exists_of_countOf {iface : Json} {count : Int}
    (h : countOf (writtenMembers iface) = .ok count) (hcount : count ≠ 0) :
    ∃ members, iface = .obj members ∧ (members.lookup COUNT_KEY).isSome = true := by
  have hnull (hnone : (writtenMembers iface).lookup COUNT_KEY = none) : False := by
    rw [countOf, hnone] at h
    exact hcount (Except.ok.inj h).symm
  cases iface with
  | obj members =>
      exact ⟨members, rfl, Option.isSome_iff_ne_none.mpr hnull⟩
  | null | bool _ | int _ | real _ | str _ | arr _ => exact (hnull rfl).elim

/-- What breaking down an interface comes to. -/
theorem breakDown_cases {iface : Json} {parts : JsonMembers × JsonMembers}
    (hrun : breakDown iface = .ok parts) :
    parts.1 = counted (writtenMembers iface) ∧
      ∃ count, countOf (writtenMembers iface) = .ok count ∧
        ((count = 0 ∧ parts.2 = []) ∨
          (count ≠ 0 ∧ augmentInterfaces count (counted (writtenMembers iface)) [] =
            .ok parts.2)) := by
  have ⟨found, hfound, hcounted⟩ := exists_of_bind_eq_ok hrun
  have ⟨count, hcount, hrest⟩ := exists_of_bind_eq_ok hcounted
  rw [indexedMembers_eq_ok hfound] at hcount hrest
  rw [lookup_count_counted] at hcount
  split at hrest
  next hzero =>
    rw [← Except.ok.inj hrest]
    exact ⟨rfl, count, hcount, .inl ⟨hzero, rfl⟩⟩
  next hzero =>
    have ⟨after, haug, hparts⟩ := exists_of_bind_eq_ok hrest
    rw [← Except.ok.inj hparts]
    exact ⟨rfl, count, hcount, .inr ⟨hzero, haug⟩⟩

theorem breakDown_eq_ok {iface : Json} {parts : JsonMembers × JsonMembers}
    (hrun : breakDown iface = .ok parts) :
    parts.1 = counted (writtenMembers iface) ∧
      ∀ query, parts.2.lookup query =
        (derivedCount iface query).map fun count => .obj (derivedEntry count query) := by
  have ⟨hwritten, count, hcount, hderived⟩ := breakDown_cases hrun
  apply And.intro hwritten
  intro query
  rcases hderived with ⟨hzero, hnone⟩ | ⟨hzero, haug⟩
  · rw [hnone, derivedCount_of_zero (hzero ▸ hcount)]
    rfl
  · have ⟨members, hiface, hsome⟩ := exists_of_countOf hcount hzero
    rw [hiface] at hcount haug ⊢
    rw [show counted (writtenMembers (.obj members)) = members from counted_of_isSome hsome] at haug
    have hlookup := lookup_augmentInterfaces (fun _ _ h => by cases h) haug query
    have hread : ((members.lookup COUNT_KEY).getD .null).asInt = .ok count := hcount
    rw [hlookup, derivedCount, hread]
    simp only [hzero, ne_eq, not_false_iff, true_and]
    split
    next => rfl
    next => rfl

/-- What has been written back is broken down in the same way again. -/
theorem breakDown_counted {iface : Json} {parts : JsonMembers × JsonMembers}
    (hrun : breakDown iface = .ok parts) : breakDown (.obj parts.1) = .ok parts := by
  have hsame : counted (counted (writtenMembers iface)) = counted (writtenMembers iface) :=
    counted_of_isSome (isSome_lookup_counted _)
  have ⟨found, hfound, hcounted⟩ := exists_of_bind_eq_ok hrun
  rw [indexedMembers_eq_ok hfound] at hcounted
  rw [(breakDown_cases hrun).1, breakDown, indexedMembers]
  simp only [bind, Except.bind, hsame]
  exact hcounted

theorem ascending_augmentInterface {augInterfaces : JsonMembers} (h : Json.Ascending augInterfaces)
    (count : Int) (subIface : Str) :
    Json.Ascending (augmentInterface count subIface augInterfaces) := by
  have hset {members : JsonMembers} (hmembers : Json.Ascending members) (name inner : Str)
      (value : Json) : Json.Ascending (members.setNested name inner value) :=
    hmembers.insertMember name _
  unfold augmentInterface
  repeat' split
  · exact hset h _ _ _
  · exact hset h _ _ _
  · exact hset (hset (hset (hset h _ _ _) _ _ _) _ _ _) _ _ _
  · exact hset h _ _ _
  · exact h

theorem ascending_augmentInterfaces {count : Int} {iface augInterfaces after : JsonMembers}
    (h : Json.Ascending augInterfaces)
    (hrun : augmentInterfaces count iface augInterfaces = .ok after) : Json.Ascending after := by
  induction iface generalizing augInterfaces with
  | nil => exact Except.ok.inj hrun ▸ h
  | cons detail rest ih =>
      have ⟨enabled, _, hrest⟩ := exists_of_bind_eq_ok hrun
      cases enabled with
      | false => exact ih h hrest
      | true => exact ih (ascending_augmentInterface h count detail.1) hrest

theorem ascending_breakDown {iface : Json} {parts : JsonMembers × JsonMembers}
    (hrun : breakDown iface = .ok parts) : Json.Ascending parts.2 := by
  have ⟨_, count, _, hderived⟩ := breakDown_cases hrun
  rcases hderived with ⟨_, hnone⟩ | ⟨_, haug⟩
  · rw [hnone]
    exact .nil
  · exact ascending_augmentInterfaces .nil haug

/-! ## All eye trackers -/

theorem derivedKey_of_derivedCount {iface : Json} {key : Str} {count : Int}
    (h : derivedCount iface key = some count) : ∃ subIface, derivedKey subIface = some key := by
  cases iface with
  | obj members =>
      rw [derivedCount] at h
      split at h
      next =>
        split at h
        next henables =>
          have ⟨detail, _, hdetail⟩ := List.any_eq_true.mp henables.2
          exact ⟨detail.1, beq_iff_eq.mp (Bool.and_eq_true_iff.mp hdetail).2⟩
        next => cases h
      next => cases h
  | null | bool _ | int _ | real _ | str _ | arr _ => cases h

/-- No interface of an eye tracker is derived. -/
theorem isEyeTracker_of_derivedKey {subIface key : Str} (h : derivedKey subIface = some key) :
    isEyeTracker key = false := by
  unfold derivedKey at h
  repeat' split at h
  · exact Option.some.inj h ▸ by decide
  · exact Option.some.inj h ▸ by decide
  · exact Option.some.inj h ▸ by decide
  · exact Option.some.inj h ▸ by decide
  · cases h

theorem derivedCount_of_isEyeTracker (iface : Json) {name : Str}
    (hname : isEyeTracker name = true) : derivedCount iface name = none := by
  cases hcount : derivedCount iface name with
  | none => rfl
  | some count =>
      have ⟨subIface, hsub⟩ := derivedKey_of_derivedCount hcount
      rw [isEyeTracker_of_derivedKey hsub] at hname
      cases hname

/-- The interface of a name, for reading. -/
def ifaceAt (interfaces : JsonMembers) (name : Str) : Json := (interfaces.lookup name).getD .null

theorem lookup_overlay {augInterfaces currInterfaces : JsonMembers} {iface : Json}
    (haug : ∀ query, augInterfaces.lookup query =
      (derivedCount iface query).map fun count => .obj (derivedEntry count query))
    (hcurr : Json.Ascending currInterfaces) (query : Str) :
    (overlay augInterfaces currInterfaces).lookup query =
      ((derivedCount iface query).map fun count => .obj (derivedEntry count query)).or
        (currInterfaces.lookup query) := by
  rw [overlay, ← haug query]
  cases augInterfaces with
  | nil => rfl
  | cons first rest =>
      rw [List.isEmpty_cons, if_neg Bool.false_ne_true, lookup_appendCurrentIface hcurr, haug query]
      cases derivedCount iface query with
      | none => simp
      | some count => rfl

/-- What expanding one eye tracker does: its entry has a count, and what it derives is there. -/
theorem expandInterface_eq_ok {name : Str} {interfaces after : JsonMembers}
    (hordered : Json.Ascending interfaces) (hname : isEyeTracker name = true)
    (hrun : expandInterface name interfaces = .ok after) :
    (∃ parts, breakDown (ifaceAt interfaces name) = .ok parts) ∧ Json.Ascending after ∧
      ∀ query, after.lookup query =
        if query = name then some (.obj (counted (writtenMembers (ifaceAt interfaces name))))
        else ((derivedCount (ifaceAt interfaces name) query).map fun count =>
          .obj (derivedEntry count query)).or (interfaces.lookup query) := by
  have ⟨parts, hparts, hafter⟩ := exists_of_bind_eq_ok hrun
  have ⟨hiface, haug⟩ := breakDown_eq_ok hparts
  have hcurr := hordered.insertMember name (.obj parts.1)
  rw [← Except.ok.inj hafter]
  apply And.intro ⟨parts, hparts⟩
  apply And.intro
  · rw [overlay]
    split
    next => exact hcurr
    next => exact ascending_appendCurrentIface (ascending_breakDown hparts) _
  · intro query
    rw [lookup_overlay haug hcurr, Json.lookup_insertMember, hiface, ifaceAt]
    split
    next hquery =>
      rw [hquery, derivedCount_of_isEyeTracker _ hname]
      rfl
    next => rfl

/-- The count with which the interfaces of these names derive another; the last one counts. -/
def derivedFrom (interfaces : JsonMembers) : List Str → Str → Option Int
  | [], _ => none
  | name :: rest, key =>
      (derivedFrom interfaces rest key).or (derivedCount (ifaceAt interfaces name) key)

theorem derivedFrom_congr {interfaces others : JsonMembers} {names : List Str} {key : Str}
    (h : ∀ name ∈ names, derivedCount (ifaceAt interfaces name) key =
      derivedCount (ifaceAt others name) key) :
    derivedFrom interfaces names key = derivedFrom others names key := by
  induction names with
  | nil => rfl
  | cons name names ih =>
      rw [List.forall_mem_cons] at h
      rw [derivedFrom, derivedFrom, ih h.2, h.1]

theorem derivedFrom_of_isEyeTracker (interfaces : JsonMembers) (names : List Str) {name : Str}
    (hname : isEyeTracker name = true) : derivedFrom interfaces names name = none := by
  induction names with
  | nil => rfl
  | cons first names ih =>
      rw [derivedFrom, ih, derivedCount_of_isEyeTracker _ hname, Option.none_or]

/-- What expanding eye trackers one after another does to each name. -/
structure BrokenDown (names : List Str) (interfaces after : JsonMembers) : Prop where
  brokenDown : ∀ name ∈ names, ∃ parts, breakDown (ifaceAt interfaces name) = .ok parts
  ordered : Json.Ascending after
  lookup_name : ∀ name ∈ names,
    after.lookup name = some (.obj (counted (writtenMembers (ifaceAt interfaces name))))
  lookup_other : ∀ query ∉ names,
    after.lookup query = ((derivedFrom interfaces names query).map fun count =>
      .obj (derivedEntry count query)).or (interfaces.lookup query)

theorem expanded_of_eq_ok {names : List Str} {interfaces after : JsonMembers}
    (hnames : ∀ name ∈ names, isEyeTracker name = true) (hnodup : names.Nodup)
    (hordered : Json.Ascending interfaces) (hrun : expandInterfaces names interfaces = .ok after) :
    BrokenDown names interfaces after := by
  induction names generalizing interfaces with
  | nil =>
      obtain rfl := Except.ok.inj hrun
      exact ⟨fun _ h => (List.not_mem_nil h).elim, hordered, fun _ h => (List.not_mem_nil h).elim,
        fun _ _ => rfl⟩
  | cons name names ih =>
      rw [List.forall_mem_cons] at hnames
      have ⟨hfresh, hnodup'⟩ := List.nodup_cons.mp hnodup
      have ⟨expanded, hfirst, hlater⟩ := exists_of_bind_eq_ok hrun
      have ⟨hparts, hordered', hlookup⟩ := expandInterface_eq_ok hordered hnames.1 hfirst
      have hrest := ih hnames.2 hnodup' hordered' hlater
      -- the entries of the other eye trackers have not been touched
      have hsame (other : Str) (hother : other ∈ names) :
          ifaceAt expanded other = ifaceAt interfaces other := by
        have hne : other ≠ name := fun heq => hfresh (heq ▸ hother)
        rw [ifaceAt, hlookup, if_neg hne, derivedCount_of_isEyeTracker _ (hnames.2 other hother)]
        rfl
      have hderived (query : Str) :
          derivedFrom expanded names query = derivedFrom interfaces names query := by
        apply derivedFrom_congr
        intro other hother
        rw [hsame other hother]
      constructor
      case brokenDown =>
        intro other hother
        rcases List.mem_cons.mp hother with rfl | hother
        · exact hparts
        · have hbroken := hrest.brokenDown other hother
          rwa [hsame other hother] at hbroken
      case ordered => exact hrest.ordered
      case lookup_name =>
        intro other hother
        rcases List.mem_cons.mp hother with rfl | hother
        · rw [hrest.lookup_other other hfresh, derivedFrom_of_isEyeTracker _ _ hnames.1, hlookup,
            if_pos rfl]
          rfl
        · rw [hrest.lookup_name other hother, hsame other hother]
      case lookup_other =>
        intro query hquery
        rw [List.mem_cons, not_or] at hquery
        rw [hrest.lookup_other query hquery.2, hderived, hlookup, if_neg hquery.1, derivedFrom,
          ← Option.or_assoc]
        cases derivedFrom interfaces names query with
        | none => rfl
        | some count => rfl

/-- Names whose interfaces can be broken down can be expanded. -/
theorem exists_expandInterfaces {names : List Str} {interfaces : JsonMembers}
    (hnames : ∀ name ∈ names, isEyeTracker name = true) (hnodup : names.Nodup)
    (hordered : Json.Ascending interfaces)
    (hparts : ∀ name ∈ names, ∃ parts, breakDown (ifaceAt interfaces name) = .ok parts) :
    ∃ after, expandInterfaces names interfaces = .ok after := by
  induction names generalizing interfaces with
  | nil => exact ⟨interfaces, rfl⟩
  | cons name names ih =>
      rw [List.forall_mem_cons] at hnames hparts
      have ⟨hfresh, hnodup'⟩ := List.nodup_cons.mp hnodup
      have ⟨parts, hbroken⟩ := hparts.1
      have hfirst : expandInterface name interfaces =
          .ok (overlay parts.2 (Json.insertMember name (.obj parts.1) interfaces)) := by
        rw [expandInterface, ← ifaceAt, hbroken]
        rfl
      have ⟨_, hordered', hlookup⟩ := expandInterface_eq_ok hordered hnames.1 hfirst
      have hrest := ih hnames.2 hnodup' hordered' (by
        intro other hother
        have hne : other ≠ name := fun heq => hfresh (heq ▸ hother)
        rw [ifaceAt, hlookup, if_neg hne, derivedCount_of_isEyeTracker _ (hnames.2 other hother)]
        exact hparts.2 other hother)
      rw [expandInterfaces, hfirst]
      exact hrest

end OSVR.Common
