/-
# The messages of a tracker server

One server object sends nine kinds of reports in three kinds of messages. Its
members hold what is sent, so that every call has to fill or reset the members that
its message is made of.
-/

import OsvrCore.Math.Reactive
import OsvrCore.Util.ReportTypes
import Mathlib.Algebra.Ring.Int.Defs

set_option autoImplicit false

namespace OSVR.Connection

open Math Util

universe u

variable {α : Type u}

/-- What `encode_to` writes. -/
structure EncodedPose (α : Type u) where
  sensor : Int32
  pos : Vec3 α
  quat : QType α
  deriving DecidableEq

/-- What `encode_vel_to` and `encode_acc_to` write. -/
structure EncodedRate (α : Type u) where
  sensor : Int32
  linear : Vec3 α
  quat : QType α
  quatDt : α
  deriving DecidableEq

/-- A packed message: its type, time and contents. -/
inductive TrackerMessage (α : Type u)
  | position (timestamp : TimeValue) (contents : EncodedPose α)
  | velocity (timestamp : TimeValue) (contents : EncodedRate α)
  | accel (timestamp : TimeValue) (contents : EncodedRate α)
  deriving DecidableEq

/-- The members of `vrpn_Tracker` that are sent. -/
structure VrpnTracker (α : Type u) where
  sensor : Int32
  timestamp : TimeValue
  pos : Vec3 α
  quat : QType α
  vel : Vec3 α
  velQuat : QType α
  velQuatDt : α
  acc : Vec3 α
  accQuat : QType α
  accQuatDt : α

/-- The overloads of `sendReport`, `sendVelReport` and `sendAccelReport`. -/
inductive TrackerReport (α : Type u)
  | position (val : PositionState α)
  | orientation (val : OrientationState α)
  | pose (val : PoseState α)
  | velocity (val : VelocityState α)
  | linearVelocity (val : LinearVelocityState α)
  | angularVelocity (val : AngularVelocityState α)
  | acceleration (val : AccelerationState α)
  | linearAcceleration (val : LinearAccelerationState α)
  | angularAcceleration (val : AngularAccelerationState α)
  deriving DecidableEq

/-- A call on the server. -/
structure TrackerCall (α : Type u) where
  report : TrackerReport α
  sensor : ChannelCount
  timestamp : TimeValue
  deriving DecidableEq

namespace VrpnTracker

/-! ## The encoders -/

def encodeTo (tracker : VrpnTracker α) : EncodedPose α :=
  ⟨tracker.sensor, tracker.pos, tracker.quat⟩

def encodeVelTo (tracker : VrpnTracker α) : EncodedRate α :=
  ⟨tracker.sensor, tracker.vel, tracker.velQuat, tracker.velQuatDt⟩

def encodeAccTo (tracker : VrpnTracker α) : EncodedRate α :=
  ⟨tracker.sensor, tracker.acc, tracker.accQuat, tracker.accQuatDt⟩

/-- The members that every message shares. -/
def stamped (tracker : VrpnTracker α) (sensor : ChannelCount) (timestamp : TimeValue) :
    VrpnTracker α :=
  { tracker with sensor := sensor.toInt32, timestamp }

def sendPose (tracker : VrpnTracker α) (sensor : ChannelCount) (ts : TimeValue) :
    VrpnTracker α × TrackerMessage α :=
  let tracker := tracker.stamped sensor ts
  (tracker, .position tracker.timestamp tracker.encodeTo)

def sendVelocity (tracker : VrpnTracker α) (sensor : ChannelCount) (ts : TimeValue) :
    VrpnTracker α × TrackerMessage α :=
  let tracker := tracker.stamped sensor ts
  (tracker, .velocity tracker.timestamp tracker.encodeVelTo)

def sendAccel (tracker : VrpnTracker α) (sensor : ChannelCount) (ts : TimeValue) :
    VrpnTracker α × TrackerMessage α :=
  let tracker := tracker.stamped sensor ts
  (tracker, .accel tracker.timestamp tracker.encodeAccTo)

variable [Zero α] [One α]

/-- `m_resetVec3`. -/
def zeroVec3 : Vec3 α := ⟨0, 0, 0⟩

/-- `m_resetQuat`. -/
def identityQuat : QType α where
  w := 1
  x := 0
  y := 0
  z := 0

def resetPos (tracker : VrpnTracker α) : VrpnTracker α := { tracker with pos := zeroVec3 }

def resetQuat (tracker : VrpnTracker α) : VrpnTracker α := { tracker with quat := identityQuat }

def resetVel (tracker : VrpnTracker α) : VrpnTracker α :=
  { tracker with vel := zeroVec3, velQuat := identityQuat, velQuatDt := 0 }

def resetAccel (tracker : VrpnTracker α) : VrpnTracker α :=
  { tracker with acc := zeroVec3, accQuat := identityQuat, accQuatDt := 0 }

/-- The constructor. -/
def init : VrpnTracker α where
  sensor := 0
  timestamp := ⟨0, 0⟩
  pos := zeroVec3
  quat := identityQuat
  vel := zeroVec3
  velQuat := identityQuat
  velQuatDt := 0
  acc := zeroVec3
  accQuat := identityQuat
  accQuatDt := 0

/-! ## The reports -/

def sendReport (tracker : VrpnTracker α) : TrackerCall α → VrpnTracker α × TrackerMessage α
  | ⟨.position val, sensor, timestamp⟩ =>
      { tracker.resetQuat with pos := osvrVec3ToQuatlib val }.sendPose sensor timestamp
  | ⟨.orientation val, sensor, timestamp⟩ =>
      { tracker.resetPos with quat := osvrQuatToQuatlib val }.sendPose sensor timestamp
  | ⟨.pose val, sensor, timestamp⟩ =>
      { tracker with
        pos := osvrVec3ToQuatlib val.translation
        quat := osvrQuatToQuatlib val.rotation }.sendPose sensor timestamp
  | ⟨.velocity val, sensor, timestamp⟩ =>
      { tracker with
        vel := osvrVec3ToQuatlib val.linearVelocity
        velQuat := osvrQuatToQuatlib val.angularVelocity.incrementalRotation
        velQuatDt := val.angularVelocity.dt }.sendVelocity sensor timestamp
  | ⟨.linearVelocity val, sensor, timestamp⟩ =>
      { tracker.resetVel with vel := osvrVec3ToQuatlib val }.sendVelocity sensor timestamp
  | ⟨.angularVelocity val, sensor, timestamp⟩ =>
      { tracker.resetVel with
        velQuat := osvrQuatToQuatlib val.incrementalRotation
        velQuatDt := val.dt }.sendVelocity sensor timestamp
  | ⟨.acceleration val, sensor, timestamp⟩ =>
      { tracker with
        acc := osvrVec3ToQuatlib val.linearAcceleration
        accQuat := osvrQuatToQuatlib val.angularAcceleration.incrementalRotation
        accQuatDt := val.angularAcceleration.dt }.sendAccel sensor timestamp
  | ⟨.linearAcceleration val, sensor, timestamp⟩ =>
      { tracker.resetAccel with acc := osvrVec3ToQuatlib val }.sendAccel sensor timestamp
  | ⟨.angularAcceleration val, sensor, timestamp⟩ =>
      -- The velocity is reset here, and the linear acceleration is left.
      { tracker.resetVel with
        accQuat := osvrQuatToQuatlib val.incrementalRotation
        accQuatDt := val.dt }.sendAccel sensor timestamp

end VrpnTracker

variable [Zero α] [One α]

variable (α) in
/-- One tracker server, with the message that each call sends. -/
def vrpnTrackerServer : ReactiveSystem (VrpnTracker α) (TrackerCall α) (TrackerMessage α) where
  init := .init
  step := VrpnTracker.sendReport

namespace TrackerCall

open VrpnTracker

/-- The message that carries a report and nothing else. -/
def ownMessage : TrackerCall α → TrackerMessage α
  | ⟨.position val, sensor, timestamp⟩ =>
      .position timestamp ⟨sensor.toInt32, osvrVec3ToQuatlib val, identityQuat⟩
  | ⟨.orientation val, sensor, timestamp⟩ =>
      .position timestamp ⟨sensor.toInt32, zeroVec3, osvrQuatToQuatlib val⟩
  | ⟨.pose val, sensor, timestamp⟩ =>
      .position timestamp
        ⟨sensor.toInt32, osvrVec3ToQuatlib val.translation, osvrQuatToQuatlib val.rotation⟩
  | ⟨.velocity val, sensor, timestamp⟩ =>
      .velocity timestamp ⟨sensor.toInt32, osvrVec3ToQuatlib val.linearVelocity,
        osvrQuatToQuatlib val.angularVelocity.incrementalRotation, val.angularVelocity.dt⟩
  | ⟨.linearVelocity val, sensor, timestamp⟩ =>
      .velocity timestamp ⟨sensor.toInt32, osvrVec3ToQuatlib val, identityQuat, 0⟩
  | ⟨.angularVelocity val, sensor, timestamp⟩ =>
      .velocity timestamp
        ⟨sensor.toInt32, zeroVec3, osvrQuatToQuatlib val.incrementalRotation, val.dt⟩
  | ⟨.acceleration val, sensor, timestamp⟩ =>
      .accel timestamp ⟨sensor.toInt32, osvrVec3ToQuatlib val.linearAcceleration,
        osvrQuatToQuatlib val.angularAcceleration.incrementalRotation, val.angularAcceleration.dt⟩
  | ⟨.linearAcceleration val, sensor, timestamp⟩ =>
      .accel timestamp ⟨sensor.toInt32, osvrVec3ToQuatlib val, identityQuat, 0⟩
  | ⟨.angularAcceleration val, sensor, timestamp⟩ =>
      .accel timestamp
        ⟨sensor.toInt32, zeroVec3, osvrQuatToQuatlib val.incrementalRotation, val.dt⟩

/-- The linear acceleration in a report that has one. -/
def linearAcceleration? : TrackerCall α → Option (LinearAccelerationState α)
  | ⟨.acceleration val, _, _⟩ => some val.linearAcceleration
  | ⟨.linearAcceleration val, _, _⟩ => some val
  | _ => none

/-- The last linear acceleration that was reported, if any, is zero. -/
def ZeroLinearAcceleration (calls : List (TrackerCall α)) : Prop :=
  ∀ val ∈ calls.reverse.findSome? linearAcceleration?, val = zeroVec3

/-- An angular acceleration comes only when the last linear acceleration was zero. -/
def Harmless (before : List (TrackerCall α)) (call : TrackerCall α) : Prop :=
  match call.report with
  | .angularAcceleration _ => ZeroLinearAcceleration before
  | _ => True

end TrackerCall

/-! ## What is left of earlier reports -/

namespace VrpnTracker

variable {tracker : VrpnTracker α} {call : TrackerCall α} {calls : List (TrackerCall α)}

/-- A call leaves the linear acceleration of its report, or the one that was there. -/
theorem acc_sendReport :
    (tracker.sendReport call).1.acc = call.linearAcceleration?.getD tracker.acc := by
  rcases call with ⟨report, sensor, timestamp⟩
  cases report <;> rfl

theorem acc_stateAfter : ((vrpnTrackerServer α).stateAfter calls).acc =
    (calls.reverse.findSome? TrackerCall.linearAcceleration?).getD zeroVec3 := by
  induction calls using List.reverseRecOn with
  | nil => rfl
  | append_singleton calls call ih =>
      have hstep : ((vrpnTrackerServer α).stateAfter (calls ++ [call])).acc =
          call.linearAcceleration?.getD ((vrpnTrackerServer α).stateAfter calls).acc := by
        rw [ReactiveSystem.stateAfter_concat]
        exact acc_sendReport
      rw [hstep, ih, List.reverse_append, List.reverse_singleton, List.singleton_append,
        List.findSome?_cons]
      cases call.linearAcceleration? <;> rfl

theorem acc_stateAfter_eq_zero_iff : ((vrpnTrackerServer α).stateAfter calls).acc = zeroVec3 ↔
    TrackerCall.ZeroLinearAcceleration calls := by
  rw [acc_stateAfter, TrackerCall.ZeroLinearAcceleration]
  cases calls.reverse.findSome? TrackerCall.linearAcceleration? with
  | none => simp
  | some val => simp

/-- Only the message of an angular acceleration depends on what was sent before. -/
theorem snd_sendReport_eq_iff : (tracker.sendReport call).2 = call.ownMessage ↔
    ((∃ val, call.report = .angularAcceleration val) → tracker.acc = zeroVec3) := by
  rcases call with ⟨report, sensor, timestamp⟩
  cases report with
  | angularAcceleration val =>
      simp [sendReport, sendAccel, encodeAccTo, stamped, resetVel, TrackerCall.ownMessage]
  | _ => exact iff_of_true rfl (by simp)

theorem answer_eq_ownMessage_iff : (vrpnTrackerServer α).answer calls call = call.ownMessage ↔
    call.Harmless calls := by
  have hanswer : (vrpnTrackerServer α).answer calls call =
      (((vrpnTrackerServer α).stateAfter calls).sendReport call).2 := rfl
  rw [hanswer, snd_sendReport_eq_iff, acc_stateAfter_eq_zero_iff, TrackerCall.Harmless]
  cases call.report <;> simp

/-- The messages carry only their own reports exactly if no angular acceleration follows a linear
one that was not zero. -/
theorem answers_eq_ownMessages_iff (calls : List (TrackerCall α)) :
    (vrpnTrackerServer α).answers calls = calls.map TrackerCall.ownMessage ↔
      Along (fun before call => call.Harmless before) calls := by
  rw [ReactiveSystem.answers_eq_map_iff]
  exact along_congr fun _ _ _ _ => answer_eq_ownMessage_iff

/-- After a linear acceleration of (1, 0, 0), an angular one is sent with it. -/
theorem not_own_messages : ¬∀ calls : List (TrackerCall ℤ),
    (vrpnTrackerServer ℤ).answers calls = calls.map TrackerCall.ownMessage := by
  intro h
  exact absurd (h [⟨.linearAcceleration ⟨1, 0, 0⟩, 0, ⟨0, 0⟩⟩,
    ⟨.angularAcceleration ⟨⟨1, 0, 0, 0⟩, 1⟩, 0, ⟨1, 0⟩⟩]) (by decide)

end VrpnTracker
end OSVR.Connection
