/-
# Device descriptors in the path tree

A descriptor turns the node of its device into a device element, and creates the
interfaces and aliases it describes.
-/

import OsvrCore.Common.AliasProcessor
import OsvrCore.Common.NormalizeDeviceDescriptor

set_option autoImplicit false

namespace OSVR.Common

open Math

def TARGET_KEY : Str := "$target".toList
def SEMANTIC_KEY : Str := "semantic".toList
def AUTOMATIC_KEY : Str := "automaticAliases".toList

/-- The loop of `processInterfacesFromDescriptor`. -/
def processInterfaces (devNode : NodePath) : List Str → TreeProgram Bool
  | [] => return false
  | iface :: rest => do
      let ifaceNode ← treePathRetrieve devNode iface false
      if (← TreeProgram.valueAt ifaceNode).isNull then
        TreeProgram.setValue ifaceNode .interfaceElement
        let _ ← processInterfaces devNode rest
        return true
      else processInterfaces devNode rest

/-- `processInterfacesFromDescriptor`. -/
def processInterfacesFromDescriptor (devNode : NodePath) (desc : Json) : TreeProgram Bool := do
  match ← TreeProgram.ofJson (desc.member? INTERFACES_KEY) with
  | some (.obj ifaces) => processInterfaces devNode (ifaces.map Prod.fst)
  | _ => return false

namespace SemanticRecursion

variable (codec : JsonCodec) (devNode : NodePath)

/-- `m_add`. -/
def add (currentLevel : Json) (relativeSemanticPath : Str) : TreeProgram Bool :=
  addAliasFromSourceAndRelativeDest codec devNode (codec.toStyledString currentLevel)
    relativeSemanticPath ALIASPRIORITY_SEMANTICROUTE

/-- The target of a level, if there is one. -/
def addTarget (members : JsonMembers) (relativeSemanticPath : Str) : TreeProgram Bool :=
  let target := (members.lookup TARGET_KEY).getD .null
  if target.isNull then return false else add codec devNode target relativeSemanticPath

mutual

/-- `m_recurse`. -/
def recurse (relativeSemanticPath : Str) : Json → TreeProgram Bool
  | .str text => add codec devNode (.str text) relativeSemanticPath
  | .obj members => do
      let changed ← addTarget codec devNode members relativeSemanticPath
      let below ← recurseMembers relativeSemanticPath members
      return changed || below
  | .null | .bool _ | .int _ | .real _ | .arr _ => return false

def recurseMembers (relativeSemanticPath : Str) : JsonMembers → TreeProgram Bool
  | [] => return false
  | (memberName, value) :: rest => do
      if memberName = TARGET_KEY then recurseMembers relativeSemanticPath rest
      else
        let changed ← recurse (relativeSemanticPath ++ '/' :: memberName) value
        let others ← recurseMembers relativeSemanticPath rest
        return changed || others

end

end SemanticRecursion

/-- `processSemanticFromDescriptor`. Its aliases go below the node of the device,
so the descriptor stays readable. -/
def processSemanticFromDescriptor (codec : JsonCodec) (devNode : NodePath) (desc : Json) :
    TreeProgram Bool := do
  let sem ← TreeProgram.ofJson (desc.index SEMANTIC_KEY)
  if sem.isObject then SemanticRecursion.recurse codec devNode SEMANTIC_KEY sem else return false

/-- The options for automatic aliases. -/
def automaticOptions : AliasProcessorOptions where
  permitRelativePath := true
  permitRelativeSource := true
  permitWildcard := true
  defaultPriority := ALIASPRIORITY_AUTOMATIC

/-- `processAutomaticFromDescriptor`. -/
def processAutomaticFromDescriptor (codec : JsonCodec) (readable : PathTree → Bool) (fuel : ℕ)
    (devNode : NodePath) (desc : Json) : TreeProgram Bool := do
  let automatic ← TreeProgram.ofJson (desc.index AUTOMATIC_KEY)
  automaticOptions.process codec readable fuel devNode automatic

/-- `processDeviceDescriptorFromExistingDevice`. -/
def processDeviceDescriptorFromExistingDevice (codec : JsonCodec) (readable : PathTree → Bool)
    (fuel : ℕ) (devNode : NodePath) (desc : Json) : TreeProgram Bool := do
  let interfaces ← processInterfacesFromDescriptor devNode desc
  let semantic ← processSemanticFromDescriptor codec devNode desc
  let automatic ← processAutomaticFromDescriptor codec readable fuel devNode desc
  return interfaces || semantic || automatic

/-- The name of a device without its leading separator. -/
def trimDeviceName (deviceName : Str) : Str :=
  if deviceName.head? = some '/' then deviceName.tail else deviceName

/-- The element for a new device: a host may follow the name. -/
def newDeviceElement (devName : Str) : PathElement :=
  if '@' ∈ devName then
    .deviceElement (devName.takeWhile (· ≠ '@')) (devName.dropWhile (· ≠ '@')).tail .null
  else .deviceElement devName "localhost".toList .null

/-- Make sure that a node has a device element; the result says whether it had none. -/
def setUpDevice (devNode : NodePath) (devName : Str) : TreeProgram Bool := do
  match ← TreeProgram.valueAt devNode with
  | .deviceElement _ _ _ => return false
  | .nullElement | .aliasElement _ _ | .sensorElement | .interfaceElement | .pluginElement
  | .stringElement _ =>
      TreeProgram.setValue devNode (newDeviceElement devName)
      return true

namespace PathElement

/-- `getDescriptor`. -/
def descriptor : PathElement → Json
  | deviceElement _ _ descriptor => descriptor
  | nullElement | aliasElement _ _ | sensorElement | interfaceElement | pluginElement
  | stringElement _ => .null

/-- Assignment to `getDescriptor`. -/
def setDescriptor (descriptor : Json) : PathElement → PathElement
  | deviceElement deviceName server _ => deviceElement deviceName server descriptor
  | nullElement => nullElement
  | aliasElement source priority => aliasElement source priority
  | sensorElement => sensorElement
  | interfaceElement => interfaceElement
  | pluginElement => pluginElement
  | stringElement value => stringElement value

def isDevice : PathElement → Bool
  | deviceElement _ _ _ => true
  | nullElement | aliasElement _ _ | sensorElement | interfaceElement | pluginElement
  | stringElement _ => false

end PathElement

/-- The descriptor of a device element lives as long as the element. -/
def hasDevice (devNode : NodePath) (tree : PathTree) : Bool := (tree.element devNode).isDevice

/-- `processDeviceDescriptorForPathTree`. -/
def processDeviceDescriptorForPathTree (codec : JsonCodec) (fuel : ℕ)
    (deviceName jsonDescriptor : Str) : TreeProgram Bool := do
  if deviceName.isEmpty then Program.throw .outOfRange
  else
    let devName := trimDeviceName deviceName
    let devNode ← getNodeByPath ('/' :: devName)
    let changed ← setUpDevice devNode devName
    let normalizedDescriptor ← TreeProgram.ofJson (normalizeDeviceDescriptor codec jsonDescriptor)
    match codec.parse normalizedDescriptor with
    | none => return changed
    | some descriptor =>
        let devElt ← TreeProgram.valueAt devNode
        if descriptor = devElt.descriptor ∧ changed = false then return changed
        else
          TreeProgram.setValue devNode (devElt.setDescriptor descriptor)
          let processed ← processDeviceDescriptorFromExistingDevice codec (hasDevice devNode) fuel
            devNode descriptor
          return changed || processed

end OSVR.Common
