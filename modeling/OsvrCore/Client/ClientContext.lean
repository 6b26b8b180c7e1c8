/-
# The calls on a client context

A client context keeps the interfaces it has handed out, the callbacks registered on
each of them, and the connections that remote handlers use, beside the manager of
interfaces and handlers. Each call is a program over all of them.
-/

import OsvrCore.Client.NestedRequests
import OsvrCore.Math.Interning

set_option autoImplicit false

namespace OSVR.Client

open Common Math

/-- `traits::ReportTypeList`. -/
inductive ReportType
  | analog
  | button
  | pose
  | position
  | orientation
  | velocity
  | linearVelocity
  | angularVelocity
  | acceleration
  | linearAcceleration
  | angularAcceleration
  | imaging
  | location2D
  | direction
  | eyeTracker2D
  | eyeTracker3D
  | eyeTrackerBlink
  | naviVelocity
  | naviPosition
  deriving DecidableEq

/-- A registered function with the user data it is called with. -/
structure Callback where
  cb : ℕ
  userdata : ℕ
  deriving DecidableEq

/-- `ConnectionMap`: the hosts that have a connection, and the number of buckets. -/
structure ConnectionMap where
  hosts : List Str
  buckets : ℕ
  deriving DecidableEq

namespace ConnectionMap

/-- An entry for the host needs more buckets than there are. -/
def rehashesFor (map : ConnectionMap) (host : Str) : Bool :=
  !map.hosts.contains host && decide (map.buckets ≤ map.hosts.length)

/-- The hosts with an entry, when the host has one. -/
def withHost (hosts : List Str) (host : Str) : List Str :=
  if hosts.contains host then hosts else hosts ++ [host]

/-- `getConnection`. How many buckets a rehash makes is up to the container. -/
def getConnection (rehashed : ℕ → ℕ) (map : ConnectionMap) (host : Str) : ConnectionMap where
  hosts := withHost map.hosts host
  buckets := if map.rehashesFor host then rehashed (map.hosts.length + 1) else map.buckets

theorem withHost_eq_intern : withHost = intern := by
  funext hosts host
  simp [withHost, intern]

theorem hosts_getConnection (rehashed : ℕ → ℕ) (map : ConnectionMap) (host : Str) :
    (map.getConnection rehashed host).hosts = intern map.hosts host :=
  congrFun (congrFun withHost_eq_intern map.hosts) host

end ConnectionMap

/-- Members of `OSVR_ClientContextObject` and `PureClientContext`, with the connections
and the callbacks. -/
structure ClientContext extends OpeningContext where
  connections : ConnectionMap
  callbacks : ClientInterface → ReportType → List Callback

abbrev ContextProgram (α : Type) := Program ClientContext ClientError α

namespace ClientContext

/-- Code that opens and releases interfaces. -/
def onOpening {α : Type} (program : OpeningProgram α) : ContextProgram α := fun context =>
  ((program.run context.toOpeningContext).1,
    { context with toOpeningContext := (program.run context.toOpeningContext).2 })

def getInterface (env : ClientEnvironment) (path : Str) :
    ContextProgram (Option ClientInterface) :=
  onOpening (OpeningContext.getInterface env env.fuel path)

def releaseInterface (iface : ClientInterface) : ContextProgram Bool :=
  onOpening (OpeningContext.releaseInterface iface)

def handleReplaceTree (host : Str) (env : ClientEnvironment) (nodes : Json) :
    ContextProgram PUnit :=
  onOpening (OpeningContext.handleReplaceTree host env nodes)

/-- `addCallback` of the interface. -/
def addCallback (callbacks : ClientInterface → ReportType → List Callback) (iface : ClientInterface)
    (type : ReportType) (callback : Callback) : ClientInterface → ReportType → List Callback :=
  fun other kind =>
    if other = iface ∧ kind = type then callbacks other kind ++ [callback] else callbacks other kind

def registerCallback (iface : ClientInterface) (type : ReportType) (callback : Callback) :
    ContextProgram PUnit :=
  Program.modify fun context =>
    { context with callbacks := addCallback context.callbacks iface type callback }

theorem run_onOpening {α : Type} (program : OpeningProgram α) (context : ClientContext) :
    (onOpening program).run context =
      ((program.run context.toOpeningContext).1,
        { context with toOpeningContext := (program.run context.toOpeningContext).2 }) := rfl

/-- What a call that opens or releases interfaces ensures. -/
theorem ensures_onOpening {α : Type} {program : OpeningProgram α} {context : ClientContext}
    {good : ClientContext → Prop}
    (h : Program.Ensures program context.toOpeningContext
      (fun _ after => good { context with toOpeningContext := after })
      fun after => good { context with toOpeningContext := after }) :
    Program.Ensures (onOpening program) context (fun _ after => good after) good := by
  rw [Program.Ensures, run_onOpening]
  unfold Program.Ensures at h
  rcases hcase : program.run context.toOpeningContext with ⟨(error | _ | _) | value, after⟩
  all_goals
    rw [hcase] at h
    exact h

end ClientContext

end OSVR.Client
