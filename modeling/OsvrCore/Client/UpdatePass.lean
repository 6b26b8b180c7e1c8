/-
# One update pass of a client

An update services every connection, the system device and every handler, in loops
over the containers of the client. Servicing delivers messages: a report runs the
callbacks of every interface on a path, and a replacement tree exchanges the handlers.
A callback can call the context again, so each of the loops can find its container
changed when its body is over. The loops that run are part of the state, and what
servers and callbacks do is in the labels.
-/

import OsvrCore.Client.ClientContext
import OsvrCore.Math.RangeLoop

set_option autoImplicit false

namespace OSVR.Client

open Common Math

/-- A request of a factory for the connection to a host. A loop over the map comes to
a new entry in its place, or has passed it. -/
structure ConnectionRequest where
  host : Str
  place : Option ℕ

/-- Where an update is, with the loop it runs. -/
inductive Stage
  | connections (loop : RangeLoop Str)
  | systemDevice
  | handlers (loop : RangeLoop RemoteHandler)
  | interfaces (loop : RangeLoop ClientInterface)

/-- A report on its way to the interfaces of a path (`forEachInterface`), and to the
callbacks of the one it has come to (`triggerCallbacks`). -/
structure Delivery where
  node : NodePath
  type : ReportType
  interfaces : RangeLoop ClientInterface
  callbacks : Option (ClientInterface × RangeLoop Callback)

/-- The connections and handlers that have been there since the update began, and those
that it has serviced. -/
structure PassLog where
  connections : List Str
  handlers : List RemoteHandler
  servedConnections : List Str
  servedHandlers : List RemoteHandler

structure Pass where
  stage : Stage
  delivery : Option Delivery
  log : PassLog

/-- A client with the update that runs, the log of the last one, and whether a loop has
gone on from a position that was not valid any more. -/
structure ClientState where
  context : ClientContext
  pass : Option Pass
  ended : Option PassLog
  broken : Bool

/-! ## What changes do to the loops -/

def ClientContext.handlers (context : ClientContext) : List RemoteHandler :=
  context.manager.interfaces.handlers

def ClientContext.interfacesAt (context : ClientContext) (node : NodePath) : List ClientInterface :=
  (context.manager.interfaces.value node).interfaces

/-- A loop over a vector holds its end, so that every insertion and removal matters. No
call puts back what it has taken out: handlers and interfaces are new objects. -/
def Stage.afterChange (before after : ClientContext) : Stage → Stage
  | .connections loop => .connections loop
  | .systemDevice => .systemDevice
  | .handlers loop => .handlers (loop.afterChange before.handlers after.handlers)
  | .interfaces loop => .interfaces (loop.afterChange before.interfaces after.interfaces)

def Delivery.afterChange (before after : ClientContext) (delivery : Delivery) : Delivery :=
  { delivery with
    interfaces := delivery.interfaces.afterChange (before.interfacesAt delivery.node)
      (after.interfacesAt delivery.node)
    callbacks := delivery.callbacks.map fun (iface, loop) =>
      (iface, loop.afterChange (before.callbacks iface delivery.type)
        (after.callbacks iface delivery.type)) }

/-- What is still there. -/
def PassLog.observe (context : ClientContext) (log : PassLog) : PassLog :=
  { log with
    connections := log.connections.filter context.connections.hosts.contains
    handlers := log.handlers.filter context.handlers.contains }

def Pass.afterChange (before after : ClientContext) (pass : Pass) : Pass where
  stage := pass.stage.afterChange before after
  delivery := pass.delivery.map (Delivery.afterChange before after)
  log := pass.log.observe after

/-- An entry for a new host leaves the positions in the map valid unless it rehashes. -/
def Stage.afterRequest (map : ConnectionMap) (request : ConnectionRequest) : Stage → Stage
  | .connections loop => .connections <|
      if map.hosts.contains request.host then loop
      else if map.rehashesFor request.host then { loop with valid := false }
      else loop.insert request.host request.place
  | .systemDevice => .systemDevice
  | .handlers loop => .handlers loop
  | .interfaces loop => .interfaces loop

namespace ClientState

def getConnection (rehashed : ℕ → ℕ) (state : ClientState) (request : ConnectionRequest) :
    ClientState :=
  let map := state.context.connections
  { state with
    context := { state.context with connections := map.getConnection rehashed request.host }
    pass := state.pass.map fun pass =>
      { pass with stage := pass.stage.afterRequest map request } }

/-- An exception that nobody catches leaves the update. -/
def unwind (state : ClientState) : ClientState :=
  match state.pass with
  | none => state
  | some pass => { state with pass := none, ended := some pass.log }

/-- A call on the context while loops run, with what its factories ask the collection of
connections for. One that does not come to an end leaves no state behind. -/
def perform {α : Type} (rehashed : ℕ → ℕ) (program : ContextProgram α)
    (requests : List ConnectionRequest) (caught : Bool) (state : ClientState) :
    Option ClientState :=
  let (result, context) := program.run state.context
  let changed := { state with context, pass := state.pass.map (.afterChange state.context context) }
  let reached := requests.foldl (getConnection rehashed) changed
  match result with
  | .ok _ => some reached
  | .error (.thrown _) => some (if caught then reached else reached.unwind)
  | .error _ => none

end ClientState

/-! ## The loops -/

/-- What becomes of nested loops when the innermost body is over. -/
inductive Outcome (α : Type)
  | broken
  | ended
  | continues (value : α)

/-- `forEachInterface` with `triggerCallbacks` for every interface. -/
def Delivery.advance (context : ClientContext) (delivery : Delivery) : Outcome Delivery :=
  match delivery.callbacks with
  | some (iface, loop) =>
      match loop.advance with
      | .broken => .broken
      | .finished => .continues { delivery with callbacks := none }
      | .entered _ loop => .continues { delivery with callbacks := some (iface, loop) }
  | none =>
      match delivery.interfaces.advance with
      | .broken => .broken
      | .finished => .ended
      | .entered iface loop => .continues { delivery with
          interfaces := loop
          callbacks := some (iface, .start (context.callbacks iface delivery.type)) }

/-- `m_update` and the loop over the interfaces after it, whose body does nothing. -/
def Pass.advanceStage (context : ClientContext) (pass : Pass) : Outcome Pass :=
  match pass.stage with
  | .connections loop =>
      match loop.advance with
      | .broken => .broken
      | .finished => .continues { pass with stage := .systemDevice }
      | .entered host loop => .continues { pass with
          stage := .connections loop
          log := { pass.log with servedConnections := pass.log.servedConnections ++ [host] } }
  | .systemDevice => .continues { pass with stage := .handlers (.start context.handlers) }
  | .handlers loop =>
      match loop.advance with
      | .broken => .broken
      | .finished => .continues { pass with stage := .interfaces (.start context.interfaces) }
      | .entered handler loop => .continues { pass with
          stage := .handlers loop
          log := { pass.log with servedHandlers := pass.log.servedHandlers ++ [handler] } }
  | .interfaces loop =>
      match loop.advance with
      | .broken => .broken
      | .finished => .ended
      | .entered _ loop => .continues { pass with stage := .interfaces loop }

def Pass.advance (context : ClientContext) (pass : Pass) : Outcome Pass :=
  match pass.delivery with
  | none => pass.advanceStage context
  | some delivery =>
      match delivery.advance context with
      | .broken => .broken
      | .ended => .continues { pass with delivery := none }
      | .continues delivery => .continues { pass with delivery := some delivery }

/-- A body runs that mainloops a connection. -/
def Stage.serves : Stage → Bool
  | .connections loop => loop.running
  | .systemDevice => true
  | .handlers loop => loop.running
  | .interfaces _ => false

namespace ClientState

def deliversMessages (state : ClientState) : Bool :=
  match state.pass with
  | none => false
  | some pass => pass.delivery.isNone && pass.stage.serves

/-- A callback runs, or the application between two updates. -/
def runsUserCode (state : ClientState) : Bool :=
  match state.pass with
  | none => true
  | some pass =>
      match pass.delivery with
      | some ⟨_, _, _, some (_, loop)⟩ => loop.running
      | _ => false

/-- The beginning of an update; the order of the map is up to the container. -/
def update (order : List Str) (state : ClientState) : Option ClientState :=
  if state.pass.isNone ∧ order.Perm state.context.connections.hosts then
    some { state with pass := some {
      stage := .connections (.start order)
      delivery := none
      log := ⟨state.context.connections.hosts, state.context.handlers, [], []⟩ } }
  else none

def advance (state : ClientState) : Option ClientState :=
  state.pass.map fun pass =>
    match pass.advance state.context with
    | .broken => { state with pass := none, broken := true }
    | .ended => { state with pass := none, ended := some pass.log }
    | .continues pass => { state with pass := some pass }

/-- A message with a report for the handler at a node. -/
def report (node : NodePath) (type : ReportType) (state : ClientState) : Option ClientState :=
  if state.deliversMessages ∧ (state.context.manager.interfaces.value node).handler.isSome then
    some { state with pass := state.pass.map fun pass => { pass with
      delivery := some ⟨node, type, .start (state.context.interfacesAt node), none⟩ } }
  else none

end ClientState

/-! ## The system -/

/-- What happens to a client. An exception of a call is caught by the callback that has
made the call, or not at all. -/
inductive ClientLabel
  | update (order : List Str)
  | advance
  | report (node : NodePath) (type : ReportType)
  | replaceTree (env : ClientEnvironment) (nodes : Json) (requests : List ConnectionRequest)
  | getInterface (env : ClientEnvironment) (path : Str) (requests : List ConnectionRequest)
      (caught : Bool)
  | releaseInterface (iface : ClientInterface) (caught : Bool)
  | registerCallback (iface : ClientInterface) (type : ReportType) (callback : Callback)

namespace ClientState

variable (host : Str) (rehashed : ℕ → ℕ)

/-- The constructor opens the connection to the main server. -/
def init (buckets : ℕ) : ClientState where
  context := {
    toOpeningContext := .init
    connections := ConnectionMap.getConnection rehashed ⟨[], buckets⟩ host
    callbacks _ _ := [] }
  pass := none
  ended := none
  broken := false

def step (label : ClientLabel) (state : ClientState) : Option ClientState :=
  if state.broken then none
  else
    match label with
    | .update order => state.update order
    | .advance => state.advance
    | .report node type => state.report node type
    | .replaceTree env nodes requests =>
        if state.deliversMessages then
          state.perform rehashed (ClientContext.handleReplaceTree host env nodes) requests false
        else none
    | .getInterface env path requests caught =>
        if state.runsUserCode then
          state.perform rehashed (ClientContext.getInterface env path) requests caught
        else none
    | .releaseInterface iface caught =>
        if state.runsUserCode then
          state.perform rehashed (ClientContext.releaseInterface iface) [] caught
        else none
    | .registerCallback iface type callback =>
        if state.runsUserCode ∧ iface ∈ state.context.interfaces then
          state.perform rehashed (ClientContext.registerCallback iface type callback) [] false
        else none

end ClientState

/-- A client of the server at `host`, in a library whose map begins with some buckets and
has a rehash make so many. -/
def clientUpdate (host : Str) (buckets : ℕ) (rehashed : ℕ → ℕ) :
    TransitionSystem ClientState ClientLabel where
  init := .init host rehashed buckets
  step := ClientState.step host rehashed

end OSVR.Client
