/-
# Eye trackers on a client

The factory for eye trackers opens an interface for each kind of data that the
device has, on a path without a sensor. The handler puts together its reports from
what these interfaces have when an eye is notified.
-/

import OsvrCore.Common.InterfaceState
import OsvrCore.Common.ResolveTreeNode
import OsvrCore.Math.Reactive

set_option autoImplicit false

namespace OSVR.Common

/-- `getSensorNumberAsChannelCount`; whether a name is a number is up to the cast. -/
def OriginalSource.getSensorNumber (lexicalCast : Str → Option ℕ) (source : OriginalSource) :
    Option ℕ :=
  source.sensor.bind fun node => node.getLast?.bind fun name => lexicalCast name.1

end OSVR.Common

namespace OSVR.Client

open Common Math Util

universe u v

/-! ## The factory -/

/-- The flags of `EyeTrackerRemoteHandler::Options`. -/
structure EyeTrackerOptions where
  reportDirection : Bool
  reportBasePoint : Bool
  reportLocation2D : Bool
  reportBlink : Bool
  deriving DecidableEq

/-- What the descriptor of a device says about its eye tracker. -/
def EyeTrackerOptions.ofDescriptor (descriptor : Json) : Except JsonError EyeTrackerOptions := do
  let eyetracker ← (← descriptor.index "interfaces".toList).index "eyetracker".toList
  return {
    reportDirection := ← eyetracker.isMember "direction".toList
    reportBasePoint := ← eyetracker.isMember "tracker".toList
    reportLocation2D := ← eyetracker.isMember "location2D".toList
    reportBlink := ← eyetracker.isMember "button".toList }

/-- The interfaces that the factory opens, in this order. -/
inductive EyeInterface
  | direction
  | tracker
  | location2D
  | button
  deriving DecidableEq

namespace EyeInterface

def isOpened (opts : EyeTrackerOptions) : EyeInterface → Bool
  | direction => opts.reportDirection
  | tracker => opts.reportBasePoint
  | location2D => opts.reportLocation2D
  | button => opts.reportBlink

theorem isName_direction : IsName "direction".toList := by decide

theorem isName_tracker : IsName "tracker".toList := by decide

theorem isName_location2D : IsName "location2D".toList := by decide

theorem isName_button : IsName "button".toList := by decide

/-- The name of the interface's node. -/
def name : EyeInterface → PathName
  | direction => ⟨"direction".toList, isName_direction⟩
  | tracker => ⟨"tracker".toList, isName_tracker⟩
  | location2D => ⟨"location2D".toList, isName_location2D⟩
  | button => ⟨"button".toList, isName_button⟩

/-- What is appended to the path of the device. No sensor number is. -/
def suffix : EyeInterface → Str
  | direction => "/direction".toList
  | tracker => "/tracker/".toList
  | location2D => "/location2D/".toList
  | button => "/button/".toList

def path (devicePath : Str) (iface : EyeInterface) : Str := devicePath ++ iface.suffix

/-- The paths that are opened for a device, one after another. -/
def openedPaths (opts : EyeTrackerOptions) (devicePath : Str) : List Str :=
  ([direction, tracker, location2D, button].filter (isOpened opts)).map (path devicePath)

/-- The source of an opened interface: no sensor, so that every sensor is reported. -/
def source (device : NodePath) (iface : EyeInterface) : OriginalSource where
  device := some device
  interface := some (device ++ [iface.name])
  sensor := none
  transform := []

/-- The path that is opened leads to the interface of the device, with or without a separator at
its end. -/
theorem locateAbsolute_path {device : NodePath} (hdevice : device ≠ []) (iface : EyeInterface) :
    locateAbsolute (iface.path (getFullPath device)) = ⟨device ++ [iface.name], none⟩ := by
  have hne : device ++ [iface.name] ≠ [] := List.append_ne_nil_of_left_ne_nil hdevice _
  have hfull : getFullPath (device ++ [iface.name]) = getFullPath device ++
      '/' :: iface.name.1 := by
    rw [getFullPath_append hdevice]
    simp
  have hplain := locateAbsolute_getFullPath (device ++ [iface.name])
  have hslash := locateAbsolute_getFullPath_separator hne
  rw [hfull] at hplain hslash
  cases iface with
  | direction => exact hplain
  | _ =>
      rw [List.append_assoc] at hslash
      exact hslash

/-- An interface right below a device is resolved to that device without a sensor. -/
theorem run_resolveTreeNode_interface (codec : JsonCodec) (fuel : ℕ) {tree : PathTree}
    {device : NodePath} (hdevice : device ≠ []) {deviceName server : Str} {descriptor : Json}
    (helement : tree.value? device = some (.deviceElement deviceName server descriptor))
    {path : Str} {name : PathName} (hpath : locateAbsolute path = ⟨device ++ [name], none⟩)
    (hinterface : tree.value? (device ++ [name]) = some .interfaceElement) :
    (resolveTreeNode codec (fuel + 1) path).run tree =
      (.ok (some ⟨some device, some (device ++ [name]), none, []⟩), tree) := by
  have hnode : (getNodeByPath path).run tree = (.ok (device ++ [name]), tree) := by
    rw [run_getNodeByPath, hpath]
    exact Prod.ext rfl (tree.touch_of_value? hinterface)
  have hup : (device ++ [name]).reverse = name :: device.reverse := by simp
  obtain ⟨last, front, hfront⟩ := List.exists_cons_of_ne_nil (List.reverse_ne_nil_iff.mpr hdevice)
  have hdown : (last :: front).reverse = device := by rw [← hfront, List.reverse_reverse]
  have hboth : (name :: last :: front).reverse = device ++ [name] := by
    rw [List.reverse_cons, hdown]
  have himpl : (resolveTreeNodeImpl codec (fuel + 1) path .empty).run tree =
      (.ok ⟨some device, some (device ++ [name]), none, []⟩, tree) := by
    rw [resolveTreeNodeImpl, Program.run_bind_of_ok hnode]
    simp [ifNullTryInferFromParent, TreeProgram.valueAt, Program.run_bind, hinterface, visitElement,
      hup, hfront, OriginalSource.decompose, hboth, hdown, helement, OriginalSource.empty]
  rw [resolveTreeNode, Program.run_bind_of_ok himpl]
  rfl

end EyeInterface

/-! ## The handler -/

/-- What a handler is made with: the sensor of its own source, and which of the interfaces that
were opened have a handler of theirs. -/
structure EyeTrackerSetup where
  opts : EyeTrackerOptions
  device : NodePath
  source : OriginalSource
  served : EyeInterface → Bool
  lexicalCast : Str → Option ℕ

namespace EyeTrackerSetup

/-- Messages for a sensor pass a handler that is for this sensor or for all. -/
def passes (setup : EyeTrackerSetup) (source : OriginalSource) (sensor : ℕ) : Bool :=
  match source.getSensorNumber setup.lexicalCast with
  | none => true
  | some number => number == sensor

/-- Messages reach an opened interface through its handler. -/
def reaches (setup : EyeTrackerSetup) (iface : EyeInterface) : Bool :=
  iface.isOpened setup.opts && setup.served iface

end EyeTrackerSetup

/-- The messages of an eye tracking device. A tracker message is given with the position that the
tracker's handler reports for it. -/
inductive EyeDeviceMessage (α : Type u)
  | direction (report : SensorReport (Vec3 α))
  | tracker (report : SensorReport (Vec3 α))
  | location (report : SensorReport (Vec2 α))
  | button (report : SensorReport UInt8)
  | buttonStates (timestamp : TimeValue) (states : List UInt8)
  | eyeNotification (sensor : ℕ) (timestamp : TimeValue)

namespace EyeDeviceMessage

variable {α : Type u}

def directions : EyeDeviceMessage α → List (SensorReport (Vec3 α))
  | direction report => [report]
  | _ => []

def positions : EyeDeviceMessage α → List (SensorReport (Vec3 α))
  | tracker report => [report]
  | _ => []

def locations : EyeDeviceMessage α → List (SensorReport (Vec2 α))
  | location report => [report]
  | _ => []

/-- All states at once are reported one by one. -/
def buttons : EyeDeviceMessage α → List (SensorReport UInt8)
  | button report => [report]
  | buttonStates timestamp states =>
      states.zipIdx.map fun (state, sensor) => ⟨sensor, timestamp, state⟩
  | _ => []

end EyeDeviceMessage

/-- What the interfaces of an eye tracker have. -/
structure EyeTrackerState (α : Type u) where
  dirIface : StateMapValue (Vec3 α)
  trackerIface : StateMapValue (Vec3 α)
  locationIface : StateMapValue (Vec2 α)
  buttonIface : StateMapValue UInt8

/-- The reports to the application. What is not valid in a 3D report is absent. -/
inductive EyeReport (α : Type u)
  | eyeTracker3D (sensor : ℕ) (direction basePoint : Option (Vec3 α))
  | eyeTracker2D (sensor : ℕ) (state : Vec2 α)
  | eyeTrackerBlink (sensor : ℕ) (state : UInt8)
  deriving DecidableEq

namespace EyeTrackerState

variable {α : Type u} (setup : EyeTrackerSetup)

def init : EyeTrackerState α := ⟨none, none, none, none⟩

/-- What an interface has after its handler has seen a message. -/
def receive {β : Type v} (iface : EyeInterface) (entry : StateMapValue β)
    (reports : List (SensorReport β)) : StateMapValue β :=
  if setup.reaches iface then
    entry.setStateFromReports
      (reports.filter fun report => setup.passes (iface.source setup.device) report.sensor)
  else entry

def receiveAll (state : EyeTrackerState α) (message : EyeDeviceMessage α) : EyeTrackerState α where
  dirIface := receive setup .direction state.dirIface message.directions
  trackerIface := receive setup .tracker state.trackerIface message.positions
  locationIface := receive setup .location2D state.locationIface message.locations
  buttonIface := receive setup .button state.buttonIface message.buttons

/-- `m_handleEyeTracking3d`; an empty report is not sent. -/
def handleEyeTracking3d (state : EyeTrackerState α) (sensor : ℕ) : List (EyeReport α) :=
  let direction := if setup.opts.reportDirection then state.dirIface.getState else none
  let basePoint := if setup.opts.reportBasePoint then state.trackerIface.getState else none
  if !(basePoint.isSome || direction.isSome) then [] else [.eyeTracker3D sensor direction basePoint]

/-- `m_handleEyeTracking2d`. -/
def handleEyeTracking2d (state : EyeTrackerState α) (sensor : ℕ) : List (EyeReport α) :=
  if !setup.opts.reportLocation2D then []
  else
    match state.locationIface.getState with
    | none => []
    | some location => [.eyeTracker2D sensor location]

def handleEyeBlink (state : EyeTrackerState α) (sensor : ℕ) : List (EyeReport α) :=
  if !setup.opts.reportBlink then []
  else
    match state.buttonIface.getState with
    | none => []
    | some button => [.eyeTrackerBlink sensor button]

/-- `m_handleEyeTracking`: the reports for a notification that matches the filter. -/
def handleEyeTracking (state : EyeTrackerState α) (sensor : ℕ) : List (EyeReport α) :=
  if !setup.passes setup.source sensor then []
  else state.handleEyeTracking3d setup sensor ++ state.handleEyeTracking2d setup sensor ++
    state.handleEyeBlink setup sensor

end EyeTrackerState

/-- An eye tracker's handler with its interfaces: every report comes with the time of its
notification. -/
def eyeTracker (α : Type u) (setup : EyeTrackerSetup) :
    ReactiveSystem (EyeTrackerState α) (EyeDeviceMessage α) (List (TimeValue × EyeReport α)) where
  init := .init
  step state message :=
    (state.receiveAll setup message,
      match message with
      | .eyeNotification sensor timestamp =>
          (state.handleEyeTracking setup sensor).map fun report => (timestamp, report)
      | _ => [])

/-! ## Whose data a report has -/

/-- What a sensor has reported last. -/
def lastReported {β : Type v} (sensor : ℕ) (reports : List (SensorReport β)) : Option β :=
  ((reports.filter fun report => report.sensor == sensor).getLast?).map SensorReport.state

/-- The newest report of all sensors says what the sensor has reported last. -/
def NewestIsOwn {β : Type v} (sensor : ℕ) (reports : List (SensorReport β)) : Prop :=
  ∀ newest, IsLatestMax SensorReport.time reports newest →
    lastReported sensor reports = some newest.state

section Reports

variable {α : Type u}

/-- The values in a report are what its sensor has reported last. -/
def EyeReport.Own (before : List (EyeDeviceMessage α)) : EyeReport α → Prop
  | eyeTracker3D sensor direction basePoint =>
      (∀ value ∈ direction,
        lastReported sensor (before.flatMap EyeDeviceMessage.directions) = some value) ∧
      ∀ value ∈ basePoint,
        lastReported sensor (before.flatMap EyeDeviceMessage.positions) = some value
  | eyeTracker2D sensor state =>
      lastReported sensor (before.flatMap EyeDeviceMessage.locations) = some state
  | eyeTrackerBlink sensor state =>
      lastReported sensor (before.flatMap EyeDeviceMessage.buttons) = some state

/-- When an eye is notified whose notifications the handler takes, the newest report of each kind of
data that reaches its interface is one of this eye's sensor. -/
def NotifiedWithOwnData (setup : EyeTrackerSetup) (before : List (EyeDeviceMessage α)) :
    EyeDeviceMessage α → Prop
  | .eyeNotification sensor _ =>
      setup.passes setup.source sensor = true →
        (setup.reaches .direction = true →
          NewestIsOwn sensor (before.flatMap EyeDeviceMessage.directions)) ∧
        (setup.reaches .tracker = true →
          NewestIsOwn sensor (before.flatMap EyeDeviceMessage.positions)) ∧
        (setup.reaches .location2D = true →
          NewestIsOwn sensor (before.flatMap EyeDeviceMessage.locations)) ∧
        (setup.reaches .button = true →
          NewestIsOwn sensor (before.flatMap EyeDeviceMessage.buttons))
  | _ => True

namespace EyeTrackerState

variable {setup : EyeTrackerSetup} {state : EyeTrackerState α} {sensor : ℕ}
  {messages : List (EyeDeviceMessage α)}

/-- Every sensor passes the handler of an opened interface. -/
theorem receive_eq {β : Type v} (iface : EyeInterface) (entry : StateMapValue β)
    (reports : List (SensorReport β)) : receive setup iface entry reports =
      if setup.reaches iface then entry.setStateFromReports reports else entry := by
  have hall : (reports.filter fun report =>
      setup.passes (iface.source setup.device) report.sensor) = reports := by
    rw [List.filter_eq_self]
    intro report _
    rfl
  rw [receive, hall]

/-- What an interface has after some messages is made of the reports of its kind in them. -/
theorem entry_stateAfter {β : Type v} (setup : EyeTrackerSetup) (iface : EyeInterface)
    (entry : EyeTrackerState α → StateMapValue β)
    (reports : EyeDeviceMessage α → List (SensorReport β)) (hinit : entry init = none)
    (hreceive : ∀ (state : EyeTrackerState α) message, entry (state.receiveAll setup message) =
      receive setup iface (entry state) (reports message))
    (messages : List (EyeDeviceMessage α)) :
    (entry ((eyeTracker α setup).stateAfter messages)).getState =
      if setup.reaches iface then
        (latestMax SensorReport.time (messages.flatMap reports)).map SensorReport.state
      else none := by
  have hentry : entry ((eyeTracker α setup).stateAfter messages) =
      if setup.reaches iface then
        StateMapValue.setStateFromReports none (messages.flatMap reports)
      else none := by
    induction messages using List.reverseRecOn with
    | nil =>
        rw [ReactiveSystem.stateAfter_nil]
        exact hinit.trans (by simp [StateMapValue.setStateFromReports])
    | append_singleton messages message ih =>
        rw [ReactiveSystem.stateAfter_concat]
        refine (hreceive _ message).trans ?_
        rw [receive_eq, ih]
        split
        · rw [List.flatMap_append, List.flatMap_singleton, StateMapValue.setStateFromReports,
            StateMapValue.setStateFromReports, StateMapValue.setStateFromReports, List.foldl_append]
        · rfl
  rw [hentry]
  split
  · exact SensorReport.getState_setStateFromReports _
  · rfl

/-- What an interface has is a sensor's own if the newest report is. -/
theorem own_iff {β : Type v} {iface : EyeInterface} {value : Option β}
    {reports : List (SensorReport β)}
    (hvalue : value = if setup.reaches iface then
      (latestMax SensorReport.time reports).map SensorReport.state else none) :
    (∀ reported ∈ value, lastReported sensor reports = some reported) ↔
      (setup.reaches iface = true → NewestIsOwn sensor reports) := by
  rw [hvalue]
  cases setup.reaches iface with
  | false => simp
  | true =>
      simp only [if_true, Option.mem_def, Option.map_eq_some_iff, forall_exists_index, and_imp,
        forall_apply_eq_imp_iff₂, true_implies, NewestIsOwn, latestMax_eq_some_iff]

/-- An interface that is not opened has nothing. -/
theorem getState_eq_none {β : Type v} {iface : EyeInterface} {value : Option β}
    {reports : List (SensorReport β)}
    (hvalue : value = if setup.reaches iface then
      (latestMax SensorReport.time reports).map SensorReport.state else none)
    (hclosed : iface.isOpened setup.opts = false) : value = none := by
  rw [hvalue, EyeTrackerSetup.reaches, hclosed, Bool.false_and]
  rfl

/-! ## The three reports -/

theorem own_handleEyeTracking3d :
    (∀ report ∈ ((eyeTracker α setup).stateAfter messages).handleEyeTracking3d setup sensor,
      report.Own messages) ↔
      (setup.reaches .direction = true →
        NewestIsOwn sensor (messages.flatMap EyeDeviceMessage.directions)) ∧
      (setup.reaches .tracker = true →
        NewestIsOwn sensor (messages.flatMap EyeDeviceMessage.positions)) := by
  have hdirection := entry_stateAfter setup .direction dirIface
    EyeDeviceMessage.directions rfl (fun _ _ => rfl) messages
  have hposition := entry_stateAfter setup .tracker trackerIface
    EyeDeviceMessage.positions rfl (fun _ _ => rfl) messages
  rw [← own_iff hdirection, ← own_iff hposition, handleEyeTracking3d]
  have hopenDirection : (if setup.opts.reportDirection then
      ((eyeTracker α setup).stateAfter messages).dirIface.getState else none) =
        ((eyeTracker α setup).stateAfter messages).dirIface.getState := by
    cases hopts : setup.opts.reportDirection with
    | true => rfl
    | false => exact (getState_eq_none hdirection hopts).symm
  have hopenPosition : (if setup.opts.reportBasePoint then
      ((eyeTracker α setup).stateAfter messages).trackerIface.getState else none) =
        ((eyeTracker α setup).stateAfter messages).trackerIface.getState := by
    cases hopts : setup.opts.reportBasePoint with
    | true => rfl
    | false => exact (getState_eq_none hposition hopts).symm
  rw [hopenDirection, hopenPosition]
  generalize ((eyeTracker α setup).stateAfter messages).dirIface.getState = direction
  generalize ((eyeTracker α setup).stateAfter messages).trackerIface.getState = basePoint
  cases direction <;> cases basePoint <;> simp [EyeReport.Own]

theorem own_handleEyeTracking2d :
    (∀ report ∈ ((eyeTracker α setup).stateAfter messages).handleEyeTracking2d setup sensor,
      report.Own messages) ↔
      (setup.reaches .location2D = true →
        NewestIsOwn sensor (messages.flatMap EyeDeviceMessage.locations)) := by
  have hlocation := entry_stateAfter setup .location2D locationIface
    EyeDeviceMessage.locations rfl (fun _ _ => rfl) messages
  rw [← own_iff hlocation, handleEyeTracking2d]
  cases hopts : setup.opts.reportLocation2D with
  | false =>
      rw [getState_eq_none hlocation hopts]
      simp
  | true =>
      cases ((eyeTracker α setup).stateAfter messages).locationIface.getState <;>
        simp [EyeReport.Own]

theorem own_handleEyeBlink :
    (∀ report ∈ ((eyeTracker α setup).stateAfter messages).handleEyeBlink setup sensor,
      report.Own messages) ↔
      (setup.reaches .button = true →
        NewestIsOwn sensor (messages.flatMap EyeDeviceMessage.buttons)) := by
  have hbutton := entry_stateAfter setup .button buttonIface
    EyeDeviceMessage.buttons rfl (fun _ _ => rfl) messages
  rw [← own_iff hbutton, handleEyeBlink]
  cases hopts : setup.opts.reportBlink with
  | false =>
      rw [getState_eq_none hbutton hopts]
      simp
  | true =>
      cases ((eyeTracker α setup).stateAfter messages).buttonIface.getState <;>
        simp [EyeReport.Own]

theorem own_handleEyeTracking (timestamp : TimeValue) :
    (∀ report ∈ ((eyeTracker α setup).stateAfter messages).handleEyeTracking setup sensor,
      report.Own messages) ↔
      NotifiedWithOwnData setup messages (.eyeNotification sensor timestamp) := by
  rw [handleEyeTracking]
  simp only [NotifiedWithOwnData]
  cases setup.passes setup.source sensor with
  | false => simp
  | true =>
      simp only [Bool.not_true, Bool.false_eq_true, if_false, List.mem_append, or_imp, forall_and,
        true_implies]
      rw [own_handleEyeTracking3d, own_handleEyeTracking2d, own_handleEyeBlink,
        and_assoc, and_assoc]

end EyeTrackerState

variable (setup : EyeTrackerSetup) (messages : List (EyeDeviceMessage α))

/-- The reports of a run have the data of their own sensors exactly if every notification comes when
the newest data of each kind is that of the notified sensor. -/
theorem eyeTracker_reports_own_iff :
    Along (fun before message => ∀ report ∈ (eyeTracker α setup).answer before message,
      report.2.Own before) messages ↔
      Along (NotifiedWithOwnData setup) messages := by
  apply along_congr
  intro before message _ _
  cases message with
  | eyeNotification sensor timestamp =>
      have hanswer : (eyeTracker α setup).answer before (.eyeNotification sensor timestamp) =
          (((eyeTracker α setup).stateAfter before).handleEyeTracking setup sensor).map
            fun report => (timestamp, report) := rfl
      rw [hanswer]
      simp only [List.forall_mem_map]
      exact EyeTrackerState.own_handleEyeTracking timestamp
  | _ => exact iff_of_true (fun _ hmem => absurd hmem List.not_mem_nil) trivial

end Reports

theorem isName_plugin : IsName "plugin".toList := by decide

theorem isName_eyes : IsName "Eyes".toList := by decide

theorem isName_eyetracker : IsName "eyetracker".toList := by decide

/-- The device at `/plugin/Eyes`. -/
def eyesDevice : NodePath := [⟨"plugin".toList, isName_plugin⟩, ⟨"Eyes".toList, isName_eyes⟩]

/-- The eye tracker of that device, with the directions of all its sensors. -/
def twoEyes : EyeTrackerSetup where
  opts := ⟨true, false, false, false⟩
  device := eyesDevice
  source :=
    ⟨some eyesDevice, some (eyesDevice ++ [⟨"eyetracker".toList, isName_eyetracker⟩]), none, []⟩
  served _ := true
  lexicalCast _ := none

/-- The left eye is notified after the right one has reported, and gets its direction. -/
theorem not_reports_own : ¬∀ messages : List (EyeDeviceMessage ℤ),
    Along (fun before message => ∀ report ∈ (eyeTracker ℤ twoEyes).answer before message,
      report.2.Own before) messages := by
  intro h
  have hreport := h
    [.direction ⟨0, ⟨0, 0⟩, ⟨0, 0, 1⟩⟩, .direction ⟨1, ⟨1, 0⟩, ⟨1, 0, 0⟩⟩,
      .eyeNotification 0 ⟨2, 0⟩]
    [.direction ⟨0, ⟨0, 0⟩, ⟨0, 0, 1⟩⟩, .direction ⟨1, ⟨1, 0⟩, ⟨1, 0, 0⟩⟩]
    (.eyeNotification 0 ⟨2, 0⟩) [] rfl (⟨2, 0⟩, .eyeTracker3D 0 (some ⟨1, 0, 0⟩) none)
    (by decide)
  exact absurd (hreport.1 ⟨1, 0, 0⟩ rfl) (by decide)

end OSVR.Client
