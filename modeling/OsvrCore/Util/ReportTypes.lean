/-
# Values of reports

The states that devices report are made of a few values: times, vectors and
rotations. Numbers are copied and compared with nothing, so that they may be of
any type. Rotations are stored in two orders, and converted one component at a time.
-/

import Mathlib.Data.Prod.Lex
import Mathlib.Algebra.Order.Group.Unbundled.Int

set_option autoImplicit false

namespace OSVR.Util

universe u

/-- `OSVR_ChannelCount`. -/
abbrev ChannelCount := UInt32

/-! ## Times -/

/-- `OSVR_TimeValue`. -/
structure TimeValue where
  seconds : ℤ
  microseconds : ℤ
  deriving DecidableEq

namespace TimeValue

/-- `osvrTimeValueGreater`. -/
def greater (a b : TimeValue) : Bool :=
  decide (a.seconds > b.seconds) ||
    (decide (a.seconds = b.seconds) && decide (a.microseconds > b.microseconds))

/-- Times are compared by their seconds first. -/
def key (time : TimeValue) : ℤ ×ₗ ℤ := toLex (time.seconds, time.microseconds)

theorem greater_eq_decide (a b : TimeValue) : a.greater b = decide (b.key < a.key) := by
  simp [greater, key, Prod.Lex.toLex_lt_toLex, eq_comm, Bool.decide_or, Bool.decide_and]

end TimeValue

/-! ## Vectors and rotations -/

def xAxis : Fin 3 := (Fin.last 0).castSucc.castSucc

def yAxis : Fin 3 := (Fin.last 1).castSucc

def zAxis : Fin 3 := Fin.last 2

@[simp] theorem xAxis_eq : xAxis = 0 := rfl

@[simp] theorem yAxis_eq : yAxis = 1 := rfl

@[simp] theorem zAxis_eq : zAxis = 2 := rfl

section Values

variable {α : Type u}

/-- `OSVR_Vec2`. -/
structure Vec2 (α : Type u) where
  x : α
  y : α
  deriving DecidableEq

/-- `OSVR_Vec3`, and the three components of a `q_vec_type`. -/
structure Vec3 (α : Type u) where
  x : α
  y : α
  z : α
  deriving DecidableEq

/-- `OSVR_Quaternion`, in the order of its data. -/
structure Quaternion (α : Type u) where
  w : α
  x : α
  y : α
  z : α
  deriving DecidableEq

/-- `q_type`, in the order of `Q_X`, `Q_Y`, `Q_Z` and `Q_W`. -/
structure QType (α : Type u) where
  x : α
  y : α
  z : α
  w : α
  deriving DecidableEq

/-- `osvrQuatToQuatlib`. -/
def osvrQuatToQuatlib (src : Quaternion α) : QType α where
  w := src.w
  x := src.x
  y := src.y
  z := src.z

/-- `osvrVec3ToQuatlib` copies the components. -/
def osvrVec3ToQuatlib (src : Vec3 α) : Vec3 α := src

/-! ## States -/

abbrev PositionState (α : Type u) := Vec3 α

abbrev OrientationState (α : Type u) := Quaternion α

structure PoseState (α : Type u) where
  translation : Vec3 α
  rotation : Quaternion α
  deriving DecidableEq

abbrev LinearVelocityState (α : Type u) := Vec3 α

structure IncrementalQuaternion (α : Type u) where
  incrementalRotation : Quaternion α
  dt : α
  deriving DecidableEq

abbrev AngularVelocityState (α : Type u) := IncrementalQuaternion α

structure VelocityState (α : Type u) where
  linearVelocity : LinearVelocityState α
  angularVelocity : AngularVelocityState α
  deriving DecidableEq

abbrev LinearAccelerationState (α : Type u) := Vec3 α

abbrev AngularAccelerationState (α : Type u) := IncrementalQuaternion α

structure AccelerationState (α : Type u) where
  linearAcceleration : LinearAccelerationState α
  angularAcceleration : AngularAccelerationState α
  deriving DecidableEq

end Values
end OSVR.Util
