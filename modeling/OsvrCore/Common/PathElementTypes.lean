/-
# Path elements

The value of a node of the path tree, one constructor for each element type in
the order of the variant's type list.
-/

import OsvrCore.Common.JsonValue

set_option autoImplicit false

namespace OSVR.Common

/-- `AliasPriority`. -/
abbrev AliasPriority := UInt8

def ALIASPRIORITY_AUTOMATIC : AliasPriority := 127
def ALIASPRIORITY_SEMANTICROUTE : AliasPriority := 128
def ALIASPRIORITY_MANUAL : AliasPriority := 255

/-- `elements::PathElement`. -/
inductive PathElement
  | nullElement
  | aliasElement (source : Str) (priority : AliasPriority)
  | sensorElement
  | interfaceElement
  | deviceElement (deviceName server : Str) (descriptor : Json)
  | pluginElement
  | stringElement (value : Str)
  deriving DecidableEq

namespace PathElement

/-- A node that is only created has a `NullElement`. -/
instance : Inhabited PathElement := ⟨nullElement⟩

theorem default_eq : (default : PathElement) = nullElement := rfl

def isNull : PathElement → Bool
  | nullElement => true
  | aliasElement _ _ | sensorElement | interfaceElement | deviceElement _ _ _ | pluginElement
  | stringElement _ => false

@[simp] theorem isNull_iff {element : PathElement} :
    element.isNull = true ↔ element = nullElement := by
  cases element <;> simp [isNull]

/-- `getTypeName`. -/
def getTypeName : PathElement → Str
  | nullElement => "NullElement".toList
  | aliasElement _ _ => "AliasElement".toList
  | sensorElement => "SensorElement".toList
  | interfaceElement => "InterfaceElement".toList
  | deviceElement _ _ _ => "DeviceElement".toList
  | pluginElement => "PluginElement".toList
  | stringElement _ => "StringElement".toList

end PathElement
end OSVR.Common
