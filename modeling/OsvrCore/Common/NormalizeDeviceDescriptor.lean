/-
# Normalizing device descriptors

An eyetracker interface is broken down into the interfaces it consists of. All
of this is done on the parsed text, before the path tree is touched.
-/

import OsvrCore.Common.JsonValue

set_option autoImplicit false

namespace OSVR.Common

def INTERFACES_KEY : Str := "interfaces".toList
def EYETRACKER_KEY : Str := "eyetracker".toList
def LOCATION2D_KEY : Str := "location2D".toList
def DIRECTION_KEY : Str := "direction".toList
def TRACKER_KEY : Str := "tracker".toList
def BUTTON_KEY : Str := "button".toList
def COUNT_KEY : Str := "count".toList
def POSITION_KEY : Str := "position".toList
def ORIENTATION_KEY : Str := "orientation".toList
def BOUNDED_KEY : Str := "bounded".toList

/-- `boost::iequals`. -/
def iequals (left right : Str) : Bool := left.map Char.toLower == right.map Char.toLower

namespace JsonMembers

/-- The members of a member that is an object; anything else has none. -/
def objectAt (members : JsonMembers) (name : Str) : JsonMembers :=
  match members.lookup name with
  | some (.obj inner) => inner
  | some .null | some (.bool _) | some (.int _) | some (.real _) | some (.str _) | some (.arr _)
  | none => []

/-- Assign a member of a member. -/
def setNested (members : JsonMembers) (name inner : Str) (value : Json) : JsonMembers :=
  Json.insertMember name (.obj (Json.insertMember inner value (members.objectAt name))) members

end JsonMembers

/-- `appendCurrentIface`. -/
def appendCurrentIface (augInterface currInterface : JsonMembers) : JsonMembers :=
  currInterface.foldl (fun aug detail =>
    if (aug.lookup detail.1).any Json.isObject then aug
    else Json.insertMember detail.1 detail.2 aug)
    augInterface

/-- What one enabled subinterface adds. -/
def augmentInterface (count : Int) (subIface : Str) (augInterfaces : JsonMembers) : JsonMembers :=
  if iequals subIface LOCATION2D_KEY then
    augInterfaces.setNested LOCATION2D_KEY COUNT_KEY (.int count)
  else if iequals subIface DIRECTION_KEY then
    augInterfaces.setNested DIRECTION_KEY COUNT_KEY (.int count)
  else if iequals subIface TRACKER_KEY then
    (((augInterfaces.setNested TRACKER_KEY POSITION_KEY (.bool true)).setNested TRACKER_KEY
      ORIENTATION_KEY (.bool false)).setNested TRACKER_KEY BOUNDED_KEY (.bool true)).setNested
      TRACKER_KEY COUNT_KEY (.int count)
  else if iequals subIface BUTTON_KEY then
    augInterfaces.setNested BUTTON_KEY COUNT_KEY (.int count)
  else augInterfaces

/-- The loop of `normalizeForEyeTracker` over the details of the interface. -/
def augmentInterfaces (count : Int) : (iface augInterfaces : JsonMembers) →
    Except JsonError JsonMembers
  | [], augInterfaces => .ok augInterfaces
  | (subIface, value) :: rest, augInterfaces => do
      let enabled ← value.asBool
      augmentInterfaces count rest
        (if enabled then augmentInterface count subIface augInterfaces else augInterfaces)

/-- The members of a value that is indexed for writing: null becomes an object. -/
def indexedMembers : Json → Except JsonError JsonMembers
  | .null => .ok []
  | .obj members => .ok members
  | .bool _ | .int _ | .real _ | .str _ | .arr _ => .error (.wrongType .index)

/-- `normalizeForEyeTracker`; looking for the count creates it. -/
def normalizeForEyeTracker (descriptor : JsonMembers) (ifaceName : Str) :
    Except JsonError JsonMembers := do
  let currInterfaces := descriptor.objectAt INTERFACES_KEY
  let found ← indexedMembers ((currInterfaces.lookup ifaceName).getD .null)
  let iface :=
    if (found.lookup COUNT_KEY).isSome then found else Json.insertMember COUNT_KEY .null found
  let currInterfaces := Json.insertMember ifaceName (.obj iface) currInterfaces
  let descriptor := Json.insertMember INTERFACES_KEY (.obj currInterfaces) descriptor
  let count ← ((iface.lookup COUNT_KEY).getD .null).asInt
  if count = 0 then return descriptor
  else
    let augInterfaces ← augmentInterfaces count iface []
    if augInterfaces.isEmpty then return descriptor
    else
      return Json.insertMember INTERFACES_KEY
        (.obj (appendCurrentIface augInterfaces currInterfaces)) descriptor

/-- The loop over the interface names. -/
def normalizeInterfaces : List Str → JsonMembers → Except JsonError JsonMembers
  | [], descriptor => .ok descriptor
  | ifaceName :: rest, descriptor =>
      if iequals ifaceName EYETRACKER_KEY then do
        normalizeInterfaces rest (← normalizeForEyeTracker descriptor ifaceName)
      else normalizeInterfaces rest descriptor

/-- `normalizeDeviceDescriptor`. -/
def normalizeDeviceDescriptor (codec : JsonCodec) (jsonDescriptor : Str) : Except JsonError Str :=
  match codec.parse jsonDescriptor with
  | none => .ok jsonDescriptor
  | some descriptor => do
      match ← descriptor.member? INTERFACES_KEY, descriptor with
      | some (.obj ifaceNames), .obj members =>
          let normalized ← normalizeInterfaces (ifaceNames.map Prod.fst) members
          return codec.toStyledString (.obj normalized)
      | _, _ => return jsonDescriptor

/-- The value that is written for a descriptor, if one is. -/
def normalizedDescriptor (descriptor : Json) : Except JsonError (Option Json) := do
  match ← descriptor.member? INTERFACES_KEY, descriptor with
  | some (.obj ifaceNames), .obj members =>
      return some (.obj (← normalizeInterfaces (ifaceNames.map Prod.fst) members))
  | _, _ => return none

theorem normalizeDeviceDescriptor_eq {codec : JsonCodec} {jsonDescriptor : Str} {descriptor : Json}
    (hparse : codec.parse jsonDescriptor = some descriptor) :
    normalizeDeviceDescriptor codec jsonDescriptor =
      (normalizedDescriptor descriptor).map fun written =>
        (written.map codec.toStyledString).getD jsonDescriptor := by
  rw [normalizeDeviceDescriptor, hparse, normalizedDescriptor]
  dsimp only
  cases descriptor.member? INTERFACES_KEY with
  | error error => rfl
  | ok value =>
      simp only [bind, Except.bind]
      split
      next ifaceNames members =>
        cases normalizeInterfaces (ifaceNames.map Prod.fst) members <;> rfl
      next => rfl

end OSVR.Common
