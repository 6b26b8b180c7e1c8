/-
# The path tree of the server

The server changes its tree for its owner, for the devices and for the clients,
and keeps a flag that says whether it has to send the tree. An update delivers
messages and then sends the tree if the flag is set.
-/

import OsvrCore.Common.DescriptorChanges
import OsvrCore.Math.Transition

set_option autoImplicit false

namespace OSVR.Server

open Math Common

/-- The fields of `ServerImpl` that concern the tree, and the JSON of the last
replacement tree that the clients got. -/
structure ServerState where
  tree : PathTree
  treeDirty : Bool
  sent : Json

/-- Code that runs in the server thread, or while that thread is kept out. -/
abbrev ServerProgram (α : Type) := Program ServerState TreeError α

namespace ServerProgram

/-- Code that only handles the tree. -/
def onTree {α : Type} (program : TreeProgram α) : ServerProgram α := fun state =>
  ((program.run state.tree).1, { state with tree := (program.run state.tree).2 })

theorem run_onTree {α : Type} {program : TreeProgram α} {state : ServerState}
    {result : Except (Abort TreeError) α} {tree : PathTree}
    (h : program.run state.tree = (result, tree)) :
    (onTree program).run state = (result, { state with tree := tree }) := by
  show ((program.run state.tree).1, { state with tree := (program.run state.tree).2 }) = _
  rw [h]

/-- `m_treeDirty += change`. -/
def addDirty (change : Bool) : ServerProgram Unit :=
  Program.modify fun state => { state with treeDirty := state.treeDirty || change }

/-- `m_treeDirty.set()`. -/
def setDirty : ServerProgram Unit :=
  Program.modify fun state => { state with treeDirty := true }

/-- Change the tree, and remember that it has changed if that is what is reported. -/
def noteChange (program : TreeProgram Bool) : ServerProgram Bool := do
  let change ← onTree program
  addDirty change
  return change

end ServerProgram

/-- The messages that a server handles during an update. -/
inductive ServerMessage
  | updatedRoute (payload : Str)
  | deviceDescriptors (devices : List (Str × Str))
  | ping

/-- What the owner of a server calls. -/
inductive ServerCall
  | addRoute (routingDirective : Str)
  | addAlias (path source : Str) (priority : AliasPriority)
  | addAliases (aliases : Json) (priority : AliasPriority)
  | addExternalDevice (path deviceName server descriptor : Str)
  | addString (path value : Str)
  | update (messages : List ServerMessage)

namespace ServerImpl

open ServerProgram

variable (codec : JsonCodec) (fuel : ℕ)

/-- `m_addRoute`. -/
def addRoute (routingDirective : Str) : ServerProgram Bool :=
  noteChange (addAliasFromRoute codec fuel [] routingDirective ALIASPRIORITY_MANUAL)

/-- The tree part of `m_addAlias`. -/
def addAliasAt (path source : Str) (priority : AliasPriority) : TreeProgram Bool := do
  let node ← getNodeByPath path
  Common.addAlias codec node source priority

/-- `m_addAlias`. -/
def addAlias (path source : Str) (priority : AliasPriority) : ServerProgram Bool :=
  noteChange (addAliasAt codec path source priority)

/-- The options of `m_addAliases`. -/
def aliasesOptions (priority : AliasPriority) : AliasProcessorOptions where
  permitWildcard := true
  defaultPriority := priority

/-- `m_addAliases`. -/
def addAliases (aliases : Json) (priority : AliasPriority) : ServerProgram Bool :=
  noteChange ((aliasesOptions priority).process codec (fun _ => true) fuel [] aliases)

/-- `addExternalDevice`. The descriptor is read from a copy of the element. -/
def addExternalDevice (path deviceName server descriptor : Str) : ServerProgram Unit :=
  match codec.parse descriptor with
  | none => return ()
  | some descriptorVal => do
      let node ← onTree (getNodeByPath path)
      onTree (TreeProgram.setValue node (.deviceElement deviceName server descriptorVal))
      setDirty
      let _ ← onTree (processDeviceDescriptorFromExistingDevice codec (fun _ => true) fuel node
        descriptorVal)

/-- `addString`. -/
def addString (path value : Str) : ServerProgram Bool := do
  let node ← onTree (getNodeByPath path)
  if .stringElement value ≠ (← onTree (TreeProgram.valueAt node)) then
    setDirty
    onTree (TreeProgram.setValue node (.stringElement value))
    return true
  else return false

/-- `m_handleUpdatedRoute`. -/
def handleUpdatedRoute (payload : Str) : ServerProgram Unit := do
  let _ ← addRoute codec fuel payload

/-- The body of the loop of `m_handleDeviceDescriptors`. -/
def handleDeviceDescriptor (deviceName descriptor : Str) : ServerProgram Unit :=
  if descriptor.isEmpty then return ()
  else do
    let _ ← noteChange (processDeviceDescriptorForPathTree codec fuel deviceName descriptor)

/-- `m_handleDeviceDescriptors`, for the names and descriptors of the devices. -/
def handleDeviceDescriptors : List (Str × Str) → ServerProgram Unit
  | [] => return ()
  | (deviceName, descriptor) :: rest => do
      handleDeviceDescriptor codec fuel deviceName descriptor
      handleDeviceDescriptors rest

/-- `m_queueTreeSend`. -/
def queueTreeSend : ServerProgram Unit := addDirty true

def handleMessage : ServerMessage → ServerProgram Unit
  | .updatedRoute payload => handleUpdatedRoute codec fuel payload
  | .deviceDescriptors devices => handleDeviceDescriptors codec fuel devices
  | .ping => queueTreeSend

/-- The handlers that run while the connection and the devices are processed. -/
def handleMessages : List ServerMessage → ServerProgram Unit
  | [] => return ()
  | message :: rest => do
      handleMessage codec fuel message
      handleMessages rest

/-- `m_sendTree`. -/
def sendTree : ServerProgram Unit :=
  Program.modify fun state => { state with sent := pathTreeToJson state.tree false }

/-- `m_update`. -/
def update (messages : List ServerMessage) : ServerProgram Unit := do
  handleMessages codec fuel messages
  if (← Program.get).treeDirty then
    sendTree
    Program.modify fun state => { state with treeDirty := false }
  else return ()

/-- One call of the owner, whose result is of no interest here. -/
def perform : ServerCall → ServerProgram Unit
  | .addRoute routingDirective => do let _ ← addRoute codec fuel routingDirective
  | .addAlias path source priority => do let _ ← addAlias codec path source priority
  | .addAliases aliases priority => do let _ ← addAliases codec fuel aliases priority
  | .addExternalDevice path deviceName server descriptor =>
      addExternalDevice codec fuel path deviceName server descriptor
  | .addString path value => do let _ ← addString path value
  | .update messages => update codec fuel messages

end ServerImpl

/-- A server that has just sent its tree, and the calls it gets. A call that ends
with an exception leaves the state it has reached; a call takes enough fuel to end. -/
def serverSystem (codec : JsonCodec) (tree : PathTree) :
    TransitionSystem ServerState (ServerCall × ℕ) where
  init := ⟨tree, false, pathTreeToJson tree false⟩
  step label state :=
    match (ServerImpl.perform codec label.2 label.1).run state with
    | (.error .outOfFuel, _) => none
    | (_, after) => some after

theorem serverSystem_step {codec : JsonCodec} {tree : PathTree} {label : ServerCall × ℕ}
    {before after : ServerState} (h : (serverSystem codec tree).step label before = some after) :
    ∃ result, (ServerImpl.perform codec label.2 label.1).run before = (result, after) ∧
      result ≠ .error .outOfFuel := by
  have hstep : (match (ServerImpl.perform codec label.2 label.1).run before with
    | (.error .outOfFuel, _) => none
    | (_, after) => some after) = some after := h
  split at hstep
  next => cases hstep
  next result after' hreason hrun =>
    obtain rfl := Option.some.inj hstep
    refine ⟨result, hrun, ?_⟩
    rintro rfl
    exact hreason rfl

end OSVR.Server
