/-
# Re-entrant calls during an update

A call from a callback, or a replacement tree, is harmless when no loop that runs
depends on what it changes. In every run of harmless steps no loop goes on from an
invalid position, and an update services each connection and each handler that is
there throughout exactly once.
-/

import OsvrCore.Client.UpdatePass

set_option autoImplicit false

namespace OSVR.Client

open Common Math

/-! ## What an update is for -/

namespace PassLog

variable {log : PassLog} {context : ClientContext}

def ConnectionsServed (log : PassLog) : Prop :=
  ∀ host ∈ log.connections, log.servedConnections.count host = 1

def HandlersServed (log : PassLog) : Prop :=
  ∀ handler ∈ log.handlers, log.servedHandlers.count handler = 1

/-- What was there throughout was serviced exactly once. -/
def Served (log : PassLog) : Prop := log.ConnectionsServed ∧ log.HandlersServed

theorem ConnectionsServed.observe (h : log.ConnectionsServed) :
    (log.observe context).ConnectionsServed :=
  fun host hmem => h host (List.mem_of_mem_filter hmem)

theorem HandlersServed.observe (h : log.HandlersServed) : (log.observe context).HandlersServed :=
  fun handler hmem => h handler (List.mem_of_mem_filter hmem)

end PassLog

/-- No loop has gone on from an invalid position, and the last update has serviced what
it should. -/
structure ClientState.Safe (state : ClientState) : Prop where
  intact : state.broken = false
  served : ∀ log, state.ended = some log → log.Served

/-! ## Harmless steps -/

/-- The new hosts among these fit in the buckets that there are. -/
def ConnectionMap.hasRoomFor (map : ConnectionMap) (hosts : List Str) : Bool :=
  hosts.all map.hosts.contains ||
    decide ((hosts.foldl ConnectionMap.withHost map.hosts).length ≤ map.buckets)

namespace ClientState

/-- The connections are being mainlooped. -/
def updatesConnections (state : ClientState) : Bool :=
  match state.pass with
  | some ⟨.connections _, _, _⟩ => true
  | _ => false

/-- The handlers are being updated. -/
def updatesHandlers (state : ClientState) : Bool :=
  match state.pass with
  | some ⟨.handlers _, _, _⟩ => true
  | _ => false

/-- A report is on its way to the interfaces at the node. -/
def visits (node : NodePath) (state : ClientState) : Bool :=
  match state.pass with
  | some ⟨_, some delivery, _⟩ => decide (delivery.node = node)
  | _ => false

/-- The callbacks of the interface for the type are being run. -/
def runsCallbacks (iface : ClientInterface) (type : ReportType) (state : ClientState) : Bool :=
  match state.pass with
  | some ⟨_, some ⟨_, kind, _, some (current, _)⟩, _⟩ => decide (current = iface ∧ kind = type)
  | _ => false

/-- A loop over the connections goes on when these requests are met. -/
def sparesConnections (requests : List ConnectionRequest) (state : ClientState) : Bool :=
  !state.updatesConnections || state.context.connections.hasRoomFor (requests.map (·.host))

/-- No exception of the call leaves an update. -/
def staysInside {α : Type} (program : ContextProgram α) (caught : Bool) (state : ClientState) :
    Bool :=
  state.pass.isNone || caught || (program.run state.context).1.isOk

/-- Getting an interface for the path, with all that factories request for it, disturbs no
loop over interfaces or handlers. -/
structure SparesForGet (env : ClientEnvironment) (path : Str) (state : ClientState) : Prop where
  interfaces : ∀ {other node}, state.context.manager.Asks env path other →
    locateAbsolute other = ⟨node, none⟩ → state.visits node = false
  handlers : state.updatesHandlers = true → ∀ other, state.context.manager.Asks env path other →
    state.context.manager.Vacant other → Handlerless env state.context.manager.tree other

/-- Releasing the interface disturbs none. -/
def sparesForRelease (iface : ClientInterface) (state : ClientState) : Bool :=
  match locateAbsolute iface.path with
  | ⟨_, some _⟩ => true
  | ⟨node, none⟩ =>
      (!state.visits node || decide (iface ∉ state.context.interfacesAt node)) &&
        (!state.updatesHandlers || !state.context.manager.disconnectsLast node iface)

/-- What a step may do while loops run, as far as it does not depend on what a request
leads to. -/
def harmless (host : Str) (state : ClientState) : ClientLabel → Bool
  | .update _ | .advance | .report _ _ => true
  | .replaceTree env nodes requests =>
      state.sparesConnections requests &&
        (decide (state.context.lastNodes = some nodes) || !state.updatesHandlers &&
          state.staysInside (ClientContext.handleReplaceTree host env nodes) false)
  | .getInterface env path requests caught =>
      state.sparesConnections requests &&
        state.staysInside (ClientContext.getInterface env path) caught
  | .releaseInterface iface caught =>
      decide (iface ∉ state.context.interfaces) || state.sparesForRelease iface &&
        state.staysInside (ClientContext.releaseInterface iface) caught
  | .registerCallback iface type _ => !state.runsCallbacks iface type

/-- What a step may do while loops run. -/
def Harmless (host : Str) (state : ClientState) (label : ClientLabel) : Prop :=
  state.harmless host label = true ∧ ∀ env path requests caught,
    label = .getInterface env path requests caught → path ≠ [] → state.SparesForGet env path

end ClientState

/-! ## The invariant -/

namespace Pass

variable {pass : Pass} {before after context : ClientContext}

/-- What holds of the loop that an update runs, and of the loops before it. -/
def StageSound (context : ClientContext) (pass : Pass) : Prop :=
  match pass.stage with
  | .connections loop =>
      loop.Covers pass.log.connections ∧
        (∀ host ∈ loop.elements, host ∈ context.connections.hosts) ∧
        pass.log.servedConnections = loop.visited ∧ pass.log.servedHandlers = []
  | .systemDevice => pass.log.ConnectionsServed ∧ pass.log.servedHandlers = []
  | .handlers loop =>
      loop.Covers pass.log.handlers ∧ loop.elements = context.handlers ∧
        pass.log.servedHandlers = loop.visited ∧ pass.log.ConnectionsServed
  | .interfaces loop => loop.valid = true ∧ pass.log.Served

/-- All loops are valid, and the log has what the loops have entered. -/
structure Sound (pass : Pass) (context : ClientContext) : Prop where
  stage : pass.StageSound context
  present : ∀ handler ∈ pass.log.handlers, handler ∈ context.handlers
  serves : pass.delivery.isSome = true → pass.stage.serves = true
  interfaces : ∀ delivery, pass.delivery = some delivery → delivery.interfaces.valid = true
  callbacks : ∀ delivery iface loop, pass.delivery = some delivery →
    delivery.callbacks = some (iface, loop) → loop.valid = true

/-- A change of the context leaves every container alone that a loop runs over. -/
structure Undisturbed (pass : Pass) (before after : ClientContext) : Prop where
  handlers : ∀ loop, pass.stage = .handlers loop → after.handlers = before.handlers
  interfaces : ∀ loop, pass.stage = .interfaces loop → after.interfaces = before.interfaces
  interfacesAt : ∀ delivery, pass.delivery = some delivery →
    after.interfacesAt delivery.node = before.interfacesAt delivery.node
  callbacks : ∀ delivery iface loop, pass.delivery = some delivery →
    delivery.callbacks = some (iface, loop) →
    after.callbacks iface delivery.type = before.callbacks iface delivery.type

theorem Undisturbed.stage (h : pass.Undisturbed before after) :
    pass.stage.afterChange before after = pass.stage := by
  cases hstage : pass.stage with
  | connections loop => rfl
  | systemDevice => rfl
  | handlers loop =>
      rw [Stage.afterChange, h.handlers loop hstage, RangeLoop.afterChange_self]
  | interfaces loop =>
      rw [Stage.afterChange, h.interfaces loop hstage, RangeLoop.afterChange_self]

theorem Undisturbed.delivery (h : pass.Undisturbed before after) :
    pass.delivery.map (Delivery.afterChange before after) = pass.delivery := by
  cases hdelivery : pass.delivery with
  | none => rfl
  | some delivery =>
      have hinterfaces := h.interfacesAt delivery hdelivery
      have hcallbacks := h.callbacks delivery
      rcases delivery with ⟨node, type, interfaces, _ | ⟨iface, loop⟩⟩
      · simp [Delivery.afterChange, hinterfaces]
      · have hsame := hcallbacks iface loop hdelivery rfl
        simp [Delivery.afterChange, hinterfaces, hsame]

/-- Only what the log remembers of the beginning can change then. -/
theorem Undisturbed.afterChange (h : pass.Undisturbed before after) :
    pass.afterChange before after = { pass with log := pass.log.observe after } := by
  rw [Pass.afterChange, h.stage, h.delivery]

theorem Sound.afterChange (h : pass.Sound before) (hundisturbed : pass.Undisturbed before after)
    (hconnections : after.connections = before.connections) :
    (pass.afterChange before after).Sound after := by
  rw [hundisturbed.afterChange]
  refine ⟨?_, fun handler hmem => ?_, h.serves, h.interfaces, h.callbacks⟩
  · have hstage := h.stage
    unfold StageSound at hstage ⊢
    cases hcase : pass.stage with
    | connections loop =>
        rw [hcase] at hstage
        have ⟨hcovers, hhosts, hserved, hnone⟩ := hstage
        refine ⟨hcovers.mono fun _ => List.mem_of_mem_filter, ?_, hserved, hnone⟩
        rw [hconnections]
        exact hhosts
    | systemDevice =>
        rw [hcase] at hstage
        exact ⟨hstage.1.observe, hstage.2⟩
    | handlers loop =>
        rw [hcase] at hstage
        have ⟨hcovers, helements, hserved, hconnected⟩ := hstage
        refine ⟨hcovers.mono fun _ => List.mem_of_mem_filter, ?_, hserved, hconnected.observe⟩
        rw [helements, hundisturbed.handlers loop hcase]
    | interfaces loop =>
        rw [hcase] at hstage
        exact ⟨hstage.1, hstage.2.1.observe, hstage.2.2.observe⟩
  · exact List.contains_iff_mem.mp (List.mem_filter.mp hmem).2

/-! ## One step of the loops -/

section Advance

/-- What the next step of sound loops comes to: it is not broken, an update that is over
has serviced what it should, and one that goes on is sound. -/
def Fine (context : ClientContext) (pass : Pass) : Outcome Pass → Prop
  | .broken => False
  | .ended => pass.log.Served
  | .continues next => next.Sound context

theorem fine_of_idle {next : Pass} (hstage : next.StageSound context)
    (hpresent : ∀ handler ∈ next.log.handlers, handler ∈ context.handlers)
    (hidle : next.delivery = none) : Fine context pass (.continues next) := by
  refine ⟨hstage, hpresent, ?_, ?_, ?_⟩
  all_goals simp [hidle]

/-- The stage of an update stays as it is while one of its reports is delivered. -/
theorem Sound.fine_of_delivery (h : pass.Sound context) (hserves : pass.stage.serves = true)
    {delivery : Delivery} (hinterfaces : delivery.interfaces.valid = true)
    (hcallbacks : ∀ iface loop, delivery.callbacks = some (iface, loop) → loop.valid = true) :
    Fine context pass (.continues { pass with delivery := some delivery }) := by
  refine ⟨h.stage, h.present, fun _ => hserves, ?_, ?_⟩
  · intro reached hreached
    cases hreached
    exact hinterfaces
  · intro reached iface loop hreached hloop
    cases hreached
    exact hcallbacks iface loop hloop

theorem Sound.advanceStage (h : pass.Sound context) (hnodup : context.handlers.Nodup)
    (hidle : pass.delivery = none) : Fine context pass (pass.advanceStage context) := by
  have hstage := h.stage
  unfold StageSound at hstage
  unfold Pass.advanceStage
  cases hcase : pass.stage with
  | connections loop =>
      rw [hcase] at hstage
      have ⟨hcovers, hhosts, hserved, hnone⟩ := hstage
      dsimp only
      cases hadvance : loop.advance with
      | broken => exact RangeLoop.advance_ne_broken hcovers.valid hadvance
      | finished =>
          refine fine_of_idle ?_ h.present hidle
          apply And.intro _ hnone
          intro host hmem
          rw [hserved]
          exact hcovers.count_visited hadvance hmem
      | entered host next =>
          have ⟨hvisited, helements, _⟩ := RangeLoop.of_entered hadvance
          refine fine_of_idle ?_ h.present hidle
          refine ⟨hcovers.entered hadvance, ?_, ?_, hnone⟩
          · rw [helements]
            exact hhosts
          · rw [hvisited, hserved]
  | systemDevice =>
      rw [hcase] at hstage
      refine fine_of_idle ?_ h.present hidle
      exact ⟨.start hnodup h.present, rfl, hstage.2, hstage.1⟩
  | handlers loop =>
      rw [hcase] at hstage
      have ⟨hcovers, helements, hserved, hconnected⟩ := hstage
      dsimp only
      cases hadvance : loop.advance with
      | broken => exact RangeLoop.advance_ne_broken hcovers.valid hadvance
      | finished =>
          refine fine_of_idle ?_ h.present hidle
          refine ⟨rfl, hconnected, ?_⟩
          intro handler hmem
          rw [hserved]
          exact hcovers.count_visited hadvance hmem
      | entered handler next =>
          have ⟨hvisited, hsame, _⟩ := RangeLoop.of_entered hadvance
          refine fine_of_idle ?_ h.present hidle
          refine ⟨hcovers.entered hadvance, ?_, ?_, hconnected⟩
          · rw [hsame, helements]
          · rw [hvisited, hserved]
  | interfaces loop =>
      rw [hcase] at hstage
      have ⟨hvalid, hlog⟩ := hstage
      dsimp only
      cases hadvance : loop.advance with
      | broken => exact RangeLoop.advance_ne_broken hvalid hadvance
      | finished => exact hlog
      | entered iface next =>
          refine fine_of_idle ?_ h.present hidle
          exact ⟨(RangeLoop.of_entered hadvance).2.2, hlog⟩

theorem Sound.advance (h : pass.Sound context) (hnodup : context.handlers.Nodup) :
    Fine context pass (pass.advance context) := by
  unfold Pass.advance
  cases hdelivery : pass.delivery with
  | none => exact h.advanceStage hnodup hdelivery
  | some delivery =>
      have hserves : pass.stage.serves = true := h.serves (by rw [hdelivery]; rfl)
      have hinterfaces := h.interfaces delivery hdelivery
      dsimp only
      unfold Delivery.advance
      cases hcallbacks : delivery.callbacks with
      | none =>
          dsimp only
          cases hadvance : delivery.interfaces.advance with
          | broken => exact RangeLoop.advance_ne_broken hinterfaces hadvance
          | finished => exact fine_of_idle h.stage h.present rfl
          | entered iface next =>
              apply h.fine_of_delivery hserves
              · exact (RangeLoop.of_entered hadvance).2.2
              · intro current loop hloop
                cases hloop
                rfl
      | some entry =>
          rcases entry with ⟨iface, loop⟩
          have hvalid := h.callbacks delivery iface loop hdelivery hcallbacks
          dsimp only
          cases hadvance : loop.advance with
          | broken => exact RangeLoop.advance_ne_broken hvalid hadvance
          | finished =>
              apply h.fine_of_delivery hserves
              · exact hinterfaces
              · intro current loop hloop
                cases hloop
          | entered callback next =>
              apply h.fine_of_delivery hserves
              · exact hinterfaces
              · intro current loop hloop
                cases hloop
                exact (RangeLoop.of_entered hadvance).2.2

end Advance

/-! ## Requests for connections -/

section Requests

variable {map : ConnectionMap} {request : ConnectionRequest} {rehashed : ℕ → ℕ}

theorem serves_afterRequest (stage : Stage) :
    (stage.afterRequest map request).serves = stage.serves := by
  cases stage with
  | connections loop =>
      unfold Stage.afterRequest
      dsimp only
      split
      · rfl
      · split
        · rfl
        · cases hplace : request.place <;> simp [RangeLoop.insert, Stage.serves, RangeLoop.running]
  | systemDevice => rfl
  | handlers loop => rfl
  | interfaces loop => rfl

/-- A new entry that does not rehash is one more element for the loop at most. -/
theorem Sound.afterRequest (h : pass.Sound context)
    (hroom : ∀ loop, pass.stage = .connections loop →
      context.connections.rehashesFor request.host = false) :
    Sound { pass with stage := pass.stage.afterRequest context.connections request }
      { context with
        connections := context.connections.getConnection rehashed request.host } := by
  refine ⟨?_, h.present, ?_, h.interfaces, h.callbacks⟩
  · have hstage := h.stage
    unfold StageSound at hstage ⊢
    cases hcase : pass.stage with
    | connections loop =>
        rw [hcase] at hstage
        have ⟨hcovers, hhosts, hserved, hnone⟩ := hstage
        have hgrown : ∀ host ∈ loop.elements,
            host ∈ (context.connections.getConnection rehashed request.host).hosts := by
          intro host hmem
          rw [ConnectionMap.hosts_getConnection]
          exact (prefix_intern _ _).subset (hhosts host hmem)
        unfold Stage.afterRequest
        dsimp only
        rw [hroom loop hcase, if_neg Bool.false_ne_true]
        split
        next => exact ⟨hcovers, hgrown, hserved, hnone⟩
        next hnew =>
          refine ⟨hcovers.insert fun hmem => hnew (List.contains_iff_mem.mpr (hhosts _ hmem)), ?_,
            ?_, hnone⟩
          · intro host hmem
            rcases RangeLoop.eq_or_mem_of_mem_elements_insert hmem with heq | hmem
            · rw [heq, ConnectionMap.hosts_getConnection]
              exact mem_intern _ _
            · exact hgrown host hmem
          · rw [hserved]
            cases request.place <;> rfl
    | systemDevice =>
        rw [hcase] at hstage
        exact hstage
    | handlers loop =>
        rw [hcase] at hstage
        exact hstage
    | interfaces loop =>
        rw [hcase] at hstage
        exact hstage
  · rw [serves_afterRequest]
    exact h.serves

end Requests

end Pass

namespace ConnectionMap

variable {map : ConnectionMap} {host : Str} {hosts : List Str} {rehashed : ℕ → ℕ}

theorem hasRoomFor_iff : map.hasRoomFor hosts = true ↔
    (∀ host ∈ hosts, host ∈ map.hosts) ∨ (internAll map.hosts hosts).length ≤ map.buckets := by
  rw [hasRoomFor, withHost_eq_intern, ← internAll]
  simp

/-- With room for all of them, the first does not rehash. -/
theorem rehashesFor_of_hasRoomFor (h : map.hasRoomFor (host :: hosts) = true) :
    map.rehashesFor host = false := by
  by_cases hknown : host ∈ map.hosts
  · simp [rehashesFor, hknown]
  · have hfits : (internAll map.hosts (host :: hosts)).length ≤ map.buckets := by
      rcases hasRoomFor_iff.mp h with hall | hfits
      · exact absurd (hall host List.mem_cons_self) hknown
      · exact hfits
    have hone : (intern map.hosts host).length = map.hosts.length + 1 := by
      simp [intern, hknown]
    have hlonger := (prefix_internAll (intern map.hosts host) hosts).length_le
    rw [internAll_cons] at hfits
    have hlt : ¬ map.buckets ≤ map.hosts.length := by omega
    simp [rehashesFor, hlt]

/-- And there is room for the others after it. -/
theorem hasRoomFor_getConnection (h : map.hasRoomFor (host :: hosts) = true) :
    (map.getConnection rehashed host).hasRoomFor hosts = true := by
  have hbuckets : (map.getConnection rehashed host).buckets = map.buckets := by
    simp [getConnection, rehashesFor_of_hasRoomFor h]
  rw [hasRoomFor_iff, hbuckets, hosts_getConnection]
  apply (hasRoomFor_iff.mp h).imp
  · intro hall other hother
    exact (prefix_intern _ _).subset (hall other (List.mem_cons_of_mem host hother))
  · exact id

end ConnectionMap

namespace ClientState

variable {state after : ClientState} {rehashed : ℕ → ℕ} {host : Str}

/-- The loops that run are sound, no two entries of the map have one host, and the
handlers are linked. -/
structure Sound (state : ClientState) : Prop where
  manager : state.context.manager.Sound
  hosts : state.context.connections.hosts.Nodup
  safe : state.Safe
  pass : ∀ pass, state.pass = some pass → pass.Sound state.context

theorem Sound.getConnection (h : state.Sound) {request : ConnectionRequest}
    (hroom : state.updatesConnections = true →
      state.context.connections.rehashesFor request.host = false) :
    (state.getConnection rehashed request).Sound where
  manager := h.manager
  hosts := by
    rw [show (state.getConnection rehashed request).context.connections.hosts =
      intern state.context.connections.hosts request.host from
        ConnectionMap.hosts_getConnection rehashed _ _]
    exact nodup_intern h.hosts
  safe := ⟨h.safe.intact, h.safe.served⟩
  pass pass hpass := by
    have ⟨before, hbefore, heq⟩ := Option.map_eq_some_iff.mp hpass
    rw [← heq]
    apply (h.pass before hbefore).afterRequest
    intro loop hstage
    apply hroom
    rcases before with ⟨stage, delivery, log⟩
    dsimp only at hstage
    rw [updatesConnections, hbefore, hstage]

theorem updatesConnections_getConnection {request : ConnectionRequest} :
    (state.getConnection rehashed request).updatesConnections = state.updatesConnections := by
  unfold ClientState.getConnection updatesConnections
  rcases state.pass with _ | ⟨_ | _ | _ | _, delivery, log⟩ <;> rfl

/-- Requests for which a loop over the connections has room keep the state sound. -/
theorem Sound.requests (h : state.Sound) {requests : List ConnectionRequest}
    (hroom : state.sparesConnections requests = true) :
    (requests.foldl (ClientState.getConnection rehashed) state).Sound := by
  induction requests generalizing state with
  | nil => exact h
  | cons request rest ih =>
      rw [sparesConnections, Bool.or_eq_true, Bool.not_eq_true', List.map_cons] at hroom
      apply ih
      · apply h.getConnection
        intro hupdates
        rcases hroom with hidle | hroom
        · rw [hidle] at hupdates
          cases hupdates
        · exact ConnectionMap.rehashesFor_of_hasRoomFor hroom
      · rw [sparesConnections, updatesConnections_getConnection, Bool.or_eq_true, Bool.not_eq_true']
        apply hroom.imp_right
        exact ConnectionMap.hasRoomFor_getConnection

theorem pass_requests_of_none (requests : List ConnectionRequest) (hidle : state.pass = none) :
    (requests.foldl (ClientState.getConnection rehashed) state).pass = none := by
  induction requests generalizing state with
  | nil => exact hidle
  | cons request rest ih =>
      apply ih
      simp [ClientState.getConnection, hidle]

theorem unwind_of_idle (hidle : state.pass = none) : state.unwind = state := by
  rw [unwind, hidle]

/-- The state after a change of the context, before the requests for connections. -/
def changed (state : ClientState) (context : ClientContext) : ClientState :=
  { state with context, pass := state.pass.map (.afterChange state.context context) }

theorem updatesConnections_changed (context : ClientContext) :
    (state.changed context).updatesConnections = state.updatesConnections := by
  unfold changed updatesConnections
  rcases state.pass with _ | ⟨_ | _ | _ | _, delivery, log⟩ <;> rfl

/-- A call may lead to the context: the handlers are linked, and the containers of running
loops are as before. -/
structure Admits (state : ClientState) (context : ClientContext) : Prop where
  manager : context.manager.Sound
  connections : context.connections = state.context.connections
  undisturbed : ∀ pass, state.pass = some pass → pass.Undisturbed state.context context

theorem Sound.changed {context : ClientContext} (h : state.Sound)
    (hadmits : state.Admits context) : (state.changed context).Sound where
  manager := hadmits.manager
  hosts := by
    rw [show (state.changed context).context = context from rfl, hadmits.connections]
    exact h.hosts
  safe := ⟨h.safe.intact, h.safe.served⟩
  pass pass hpass := by
    have ⟨before, hbefore, heq⟩ := Option.map_eq_some_iff.mp hpass
    rw [← heq]
    exact (h.pass before hbefore).afterChange (hadmits.undisturbed before hbefore)
      hadmits.connections

/-- A call that leaves the containers of running loops alone keeps the state sound. -/
theorem Sound.perform {α : Type} {program : ContextProgram α} {requests : List ConnectionRequest}
    {caught : Bool} (h : state.Sound)
    (hcall : Program.Ensures program state.context (fun _ => state.Admits) state.Admits)
    (hroom : state.sparesConnections requests = true)
    (hstays : state.staysInside program caught = true)
    (hstep : state.perform rehashed program requests caught = some after) : after.Sound := by
  have hreached {context : ClientContext} (hadmits : state.Admits context) :
      (requests.foldl (ClientState.getConnection rehashed) (state.changed context)).Sound := by
    apply (h.changed hadmits).requests
    rw [sparesConnections, updatesConnections_changed]
    rw [sparesConnections, ← hadmits.connections] at hroom
    exact hroom
  unfold ClientState.perform at hstep
  unfold staysInside at hstays
  unfold Program.Ensures at hcall
  rcases hrun : program.run state.context with ⟨(error | _ | _) | value, context⟩
  · rw [hrun] at hstep hcall hstays
    dsimp only at hstep
    cases caught with
    | true =>
        cases hstep
        exact hreached hcall
    | false =>
        have hidle : state.pass = none := by
          simpa [Except.isOk, Except.toBool] using hstays
        cases hstep
        rw [if_neg Bool.false_ne_true, unwind_of_idle]
        · exact hreached hcall
        · apply pass_requests_of_none
          simp [hidle]
  · rw [hrun] at hstep
    cases hstep
  · rw [hrun] at hstep
    cases hstep
  · rw [hrun] at hstep hcall
    cases hstep
    exact hreached hcall

/-! ## What the conditions say about the loops -/

section Loops

variable {pass : Pass} {context : ClientContext}

theorem updatesHandlers_of_stage (hpass : state.pass = some pass) {loop : RangeLoop RemoteHandler}
    (hstage : pass.stage = .handlers loop) : state.updatesHandlers = true := by
  rcases pass with ⟨stage, delivery, log⟩
  dsimp only at hstage
  rw [updatesHandlers, hpass, hstage]

theorem visits_of_delivery (hpass : state.pass = some pass) {delivery : Delivery}
    (hdelivery : pass.delivery = some delivery) : state.visits delivery.node = true := by
  rcases pass with ⟨stage, _, log⟩
  dsimp only at hdelivery
  rw [visits, hpass, hdelivery]
  exact decide_eq_true rfl

/-- Callbacks run while a body delivers messages. -/
theorem serves_of_runsUserCode (h : pass.Sound context) (hpass : state.pass = some pass)
    (huser : state.runsUserCode = true) : pass.stage.serves = true := by
  apply h.serves
  rw [runsUserCode, hpass] at huser
  dsimp only at huser
  cases hdelivery : pass.delivery with
  | none =>
      rw [hdelivery] at huser
      cases huser
  | some delivery => rfl

/-- No report is on its way when a message is delivered. -/
theorem not_visits_of_deliversMessages {node : NodePath}
    (hdelivers : state.deliversMessages = true) : state.visits node = false := by
  rw [visits]
  rcases hpass : state.pass with _ | ⟨stage, _ | delivery, log⟩
  · rfl
  · rfl
  · rw [deliversMessages, hpass] at hdelivers
    cases hdelivers

theorem serves_of_deliversMessages (hpass : state.pass = some pass)
    (hdelivers : state.deliversMessages = true) :
    pass.stage.serves = true ∧ pass.delivery = none := by
  rw [deliversMessages, hpass, Bool.and_eq_true, Option.isNone_iff_eq_none] at hdelivers
  exact ⟨hdelivers.2, hdelivers.1⟩

/-- For a call that opens or releases interfaces while a body runs, the handlers and the
visited interfaces are what matters. -/
theorem admits_of_serves {opening : OpeningContext} (hmanager : opening.manager.Sound)
    (hserves : ∀ pass, state.pass = some pass → pass.stage.serves = true)
    (hhandlers : state.updatesHandlers = true →
      opening.manager.interfaces.handlers = state.context.handlers)
    (hinterfaces : ∀ node, state.visits node = true →
      (opening.manager.interfaces.value node).interfaces = state.context.interfacesAt node) :
    state.Admits { state.context with toOpeningContext := opening } := by
  refine ⟨hmanager, rfl, fun pass hpass => ⟨?_, ?_, ?_, fun _ _ _ _ _ => rfl⟩⟩
  · exact fun loop hstage => hhandlers (updatesHandlers_of_stage hpass hstage)
  · intro loop hstage
    have hbody := hserves pass hpass
    rw [hstage] at hbody
    cases hbody
  · exact fun delivery hdelivery => hinterfaces _ (visits_of_delivery hpass hdelivery)

end Loops

/-- A call that has nothing to do keeps the state sound. -/
theorem Sound.perform_of_unchanged {α : Type} {program : ContextProgram α} {value : α}
    {requests : List ConnectionRequest} {caught : Bool} (h : state.Sound)
    (hrun : program.run state.context = (.ok value, state.context))
    (hroom : state.sparesConnections requests = true)
    (hstep : state.perform rehashed program requests caught = some after) : after.Sound := by
  apply h.perform (.of_run hrun _) hroom _ hstep
  · refine ⟨h.manager, rfl, fun pass _ => ?_⟩
    exact ⟨fun _ _ => rfl, fun _ _ => rfl, fun _ _ => rfl, fun _ _ _ _ _ => rfl⟩
  · rw [staysInside, hrun]
    simp [Except.isOk, Except.toBool]

/-! ## The calls -/

section Calls

variable {env : ClientEnvironment} {requests : List ConnectionRequest} {caught : Bool}

theorem Sound.getInterface (h : state.Sound) {path : Str} (huser : state.runsUserCode = true)
    (hharmless : state.Harmless host (.getInterface env path requests caught))
    (hstep : state.perform rehashed (ClientContext.getInterface env path) requests caught =
      some after) : after.Sound := by
  obtain ⟨hcommon, hget⟩ := hharmless
  rw [harmless, Bool.and_eq_true] at hcommon
  obtain ⟨hroom, hstays⟩ := hcommon
  by_cases hempty : path = []
  · cases hfuel : env.fuel with
    | zero =>
        rw [ClientState.perform, ClientContext.getInterface, hfuel] at hstep
        cases hstep
    | succ fuel =>
        have hrun : (ClientContext.getInterface env path).run state.context =
            (.ok none, state.context) := by
          rw [ClientContext.getInterface, hfuel, hempty]
          rfl
        exact h.perform_of_unchanged hrun hroom hstep
  · have hspares := hget env path requests caught rfl hempty
    have hserves (pass : Pass) (hpass : state.pass = some pass) : pass.stage.serves = true :=
      serves_of_runsUserCode (h.pass pass hpass) hpass huser
    have hget := OpeningContext.requested_getInterface h.manager env env.fuel path
      hspares.handlers
    have hadmits (opening : OpeningContext)
        (hrequested : ClientManager.Requested env (state.context.manager.Asks env path)
          (state.updatesHandlers = true) state.context.manager opening.manager) :
        state.Admits { state.context with toOpeningContext := opening } := by
      apply admits_of_serves (hrequested.sound h.manager) hserves hrequested.handlers
      intro node hvisits
      apply hrequested.spared
      intro other hasks hnode
      rw [hspares.interfaces hasks hnode] at hvisits
      cases hvisits
    have hcall := hget.mono (fun _ => hadmits) hadmits
    exact h.perform (ClientContext.ensures_onOpening hcall) hroom hstays hstep

theorem Sound.releaseInterface (h : state.Sound) {iface : ClientInterface}
    (huser : state.runsUserCode = true)
    (hharmless : state.harmless host (.releaseInterface iface caught) = true)
    (hstep : state.perform rehashed (ClientContext.releaseInterface iface) [] caught =
      some after) : after.Sound := by
  have hroom : state.sparesConnections [] = true := by
    simp [sparesConnections, ConnectionMap.hasRoomFor]
  rw [harmless, Bool.or_eq_true, Bool.and_eq_true, decide_eq_true_eq] at hharmless
  by_cases hmem : iface ∈ state.context.interfaces
  · obtain ⟨hspares, hstays⟩ := hharmless.resolve_left (not_not_intro hmem)
    have hserves (pass : Pass) (hpass : state.pass = some pass) : pass.stage.serves = true :=
      serves_of_runsUserCode (h.pass pass hpass) hpass huser
    have hadmits : state.Admits { state.context with toOpeningContext :=
        { state.context.toOpeningContext with
          interfaces := state.context.interfaces.erase iface
          manager := ((ClientManager.releaseInterface iface).run state.context.manager).2 } } := by
      apply admits_of_serves (h.manager.releaseInterface iface) hserves
      · intro hupdates
        unfold sparesForRelease at hspares
        rcases hpath : locateAbsolute iface.path with ⟨node, _ | error⟩
        · rw [hpath, hupdates, Bool.and_eq_true] at hspares
          exact ClientManager.handlers_releaseInterface hpath (by simpa using hspares.2)
        · rw [ClientManager.snd_run_releaseInterface_of_failure hpath]
          rfl
      · intro query hvisits
        unfold sparesForRelease at hspares
        rcases hpath : locateAbsolute iface.path with ⟨node, _ | error⟩
        · rw [hpath, Bool.and_eq_true, Bool.or_eq_true, Bool.not_eq_true', decide_eq_true_eq]
            at hspares
          apply ClientManager.interfaces_releaseInterface hpath
          rintro rfl
          rcases hspares.1 with hidle | habsent
          · rw [hidle] at hvisits
            cases hvisits
          · exact habsent
        · rw [ClientManager.snd_run_releaseInterface_of_failure hpath]
          exact congrArg InterfaceTreeValue.interfaces InterfaceTree.value_touch
    have hcall : Program.Ensures (OpeningContext.releaseInterface iface)
        state.context.toOpeningContext
        (fun _ after => state.Admits { state.context with toOpeningContext := after })
        fun after => state.Admits { state.context with toOpeningContext := after } := by
      apply Program.Ensures.bind_of_run (Program.run_get _)
      rw [if_pos hmem]
      apply Program.Ensures.bind_of_run (Program.run_modify _ _)
      apply (OpeningContext.ensures_onManager
        (fun after => state.Admits { state.context with toOpeningContext := after }) hadmits).bind
      exact fun _ _ hafter => .pure hafter
    exact h.perform (ClientContext.ensures_onOpening hcall) hroom hstays hstep
  · have hrun : (ClientContext.releaseInterface iface).run state.context =
        (.ok false, state.context) := by
      have hopening : (OpeningContext.releaseInterface iface).run state.context.toOpeningContext =
          (.ok false, state.context.toOpeningContext) := by
        rw [OpeningContext.releaseInterface, Program.run_bind_of_ok (Program.run_get _),
          if_neg hmem]
        rfl
      rw [ClientContext.releaseInterface, ClientContext.run_onOpening, hopening]
    exact h.perform_of_unchanged hrun hroom hstep

theorem Sound.registerCallback (h : state.Sound) {iface : ClientInterface} {type : ReportType}
    {callback : Callback} (hharmless : state.runsCallbacks iface type = false)
    (hstep : state.perform rehashed (ClientContext.registerCallback iface type callback) [] false =
      some after) : after.Sound := by
  have hroom : state.sparesConnections [] = true := by
    simp [sparesConnections, ConnectionMap.hasRoomFor]
  apply h.perform (.of_run (Program.run_modify _ _) _) hroom _ hstep
  · refine ⟨h.manager, rfl, fun pass hpass => ?_⟩
    refine ⟨fun _ _ => rfl, fun _ _ => rfl, fun _ _ => rfl, ?_⟩
    intro delivery other loop hdelivery hcallbacks
    apply if_neg
    rintro ⟨hiface, htype⟩
    rcases pass with ⟨stage, _, log⟩
    rcases delivery with ⟨node, kind, interfaces, _⟩
    dsimp only at hdelivery hcallbacks htype
    rw [runsCallbacks, hpass, hdelivery, hcallbacks] at hharmless
    simp [hiface, htype] at hharmless
  · simp [staysInside, Except.isOk, Except.toBool]

theorem Sound.replaceTree (h : state.Sound) {nodes : Json}
    (hdelivers : state.deliversMessages = true)
    (hharmless : state.harmless host (.replaceTree env nodes requests) = true)
    (hstep : state.perform rehashed (ClientContext.handleReplaceTree host env nodes) requests
      false = some after) : after.Sound := by
  rw [harmless, Bool.and_eq_true, Bool.or_eq_true, Bool.and_eq_true, decide_eq_true_eq,
    Bool.not_eq_true'] at hharmless
  obtain ⟨hroom, hlast | ⟨hidle, hstays⟩⟩ := hharmless
  · have hrun : (ClientContext.handleReplaceTree host env nodes).run state.context =
        (.ok ⟨⟩, state.context) := by
      rw [ClientContext.handleReplaceTree, ClientContext.run_onOpening,
        OpeningContext.run_handleReplaceTree_of_last hlast]
    exact h.perform_of_unchanged hrun hroom hstep
  · have hadmits (opening : OpeningContext) (hmanager : opening.manager.Sound) :
        state.Admits { state.context with toOpeningContext := opening } := by
      apply admits_of_serves hmanager
      · exact fun pass hpass => (serves_of_deliversMessages hpass hdelivers).1
      · intro hupdates
        rw [hidle] at hupdates
        cases hupdates
      · intro node hvisits
        rw [not_visits_of_deliversMessages hdelivers] at hvisits
        cases hvisits
    have hcall := (OpeningContext.sound_handleReplaceTree h.manager host env nodes).mono
      (fun _ => hadmits) hadmits
    exact h.perform (ClientContext.ensures_onOpening hcall) hroom hstays hstep

end Calls

/-! ## The loops -/

theorem Sound.update (h : state.Sound) {order : List Str}
    (hstep : state.update order = some after) : after.Sound := by
  unfold ClientState.update at hstep
  split at hstep
  next hcond =>
    have horder := hcond.2
    cases hstep
    refine ⟨h.manager, h.hosts, ⟨h.safe.intact, h.safe.served⟩, ?_⟩
    intro pass hpass
    cases hpass
    have hcovers := RangeLoop.Covers.start (horder.nodup_iff.mpr h.hosts)
      (fun host (hmem : host ∈ state.context.connections.hosts) => horder.mem_iff.mpr hmem)
    refine ⟨⟨hcovers, ?_, rfl, rfl⟩, fun _ hmem => hmem, ?_, ?_, ?_⟩
    · intro host hmem
      exact horder.mem_iff.mp hmem
    · intro hsome
      cases hsome
    · intro delivery hdelivery
      cases hdelivery
    · intro delivery iface loop hdelivery
      cases hdelivery
  next => cases hstep

theorem Sound.report (h : state.Sound) {node : NodePath} {type : ReportType}
    (hstep : state.report node type = some after) : after.Sound := by
  unfold ClientState.report at hstep
  split at hstep
  next hcond =>
    cases hstep
    refine ⟨h.manager, h.hosts, ⟨h.safe.intact, h.safe.served⟩, ?_⟩
    intro pass hpass
    have ⟨before, hbefore, heq⟩ := Option.map_eq_some_iff.mp hpass
    have hbeforeSound := h.pass before hbefore
    rw [← heq]
    refine ⟨hbeforeSound.stage, hbeforeSound.present, ?_, ?_, ?_⟩
    · intro _
      exact (serves_of_deliversMessages hbefore hcond.1).1
    · intro delivery hdelivery
      cases hdelivery
      rfl
    · intro delivery iface loop hdelivery hcallbacks
      cases hdelivery
      cases hcallbacks
  next => cases hstep

theorem Sound.advance (h : state.Sound) (hstep : state.advance = some after) : after.Sound := by
  have ⟨pass, hpass, heq⟩ := Option.map_eq_some_iff.mp hstep
  have hfine := (h.pass pass hpass).advance h.manager.linked.nodup_handlers
  rw [← heq]
  cases hadvance : pass.advance state.context with
  | broken =>
      rw [hadvance] at hfine
      cases hfine
  | ended =>
      rw [hadvance] at hfine
      refine ⟨h.manager, h.hosts, ⟨h.safe.intact, ?_⟩, ?_⟩
      · intro log hlog
        cases hlog
        exact hfine
      · intro next hnext
        cases hnext
  | continues next =>
      rw [hadvance] at hfine
      refine ⟨h.manager, h.hosts, ⟨h.safe.intact, h.safe.served⟩, ?_⟩
      intro reached hreached
      cases hreached
      exact hfine

/-! ## Runs -/

theorem Sound.step (h : state.Sound) {label : ClientLabel}
    (hharmless : state.Harmless host label)
    (hstep : state.step host rehashed label = some after) : after.Sound := by
  unfold ClientState.step at hstep
  rw [h.safe.intact, if_neg Bool.false_ne_true] at hstep
  cases label with
  | update order => exact h.update hstep
  | advance => exact h.advance hstep
  | report node type => exact h.report hstep
  | replaceTree env nodes requests =>
      have ⟨hdelivers, hcall⟩ := Option.ite_none_right_eq_some.mp hstep
      exact h.replaceTree hdelivers hharmless.1 hcall
  | getInterface env path requests caught =>
      have ⟨huser, hcall⟩ := Option.ite_none_right_eq_some.mp hstep
      exact h.getInterface huser hharmless hcall
  | releaseInterface iface caught =>
      have ⟨huser, hcall⟩ := Option.ite_none_right_eq_some.mp hstep
      exact h.releaseInterface huser hharmless.1 hcall
  | registerCallback iface type callback =>
      have ⟨_, hcall⟩ := Option.ite_none_right_eq_some.mp hstep
      apply h.registerCallback _ hcall
      simpa [harmless] using hharmless.1

theorem sound_init (host : Str) (rehashed : ℕ → ℕ) (buckets : ℕ) :
    (init host rehashed buckets).Sound where
  manager := ⟨.init, fun handler hmem => by cases hmem⟩
  hosts := by
    rw [show (init host rehashed buckets).context.connections.hosts = intern [] host from
      ConnectionMap.hosts_getConnection rehashed _ _]
    exact nodup_intern List.nodup_nil
  safe := ⟨rfl, fun log hlog => by cases hlog⟩
  pass pass hpass := by cases hpass

/-- In every run of harmless steps no loop goes on from an invalid position, and every
update services what is there throughout exactly once. -/
theorem safe_of_harmless (host : Str) (buckets : ℕ) (rehashed : ℕ → ℕ) (state : ClientState)
    (hreach : (clientUpdate host buckets rehashed).ReachableWhile
      (fun state label => state.Harmless host label) state) : state.Safe := by
  have hinvariant : (clientUpdate host buckets rehashed).Invariant
      (fun state label => state.Harmless host label) Sound := by
    constructor
    · exact sound_init host rehashed buckets
    · intro before after label hbefore hharmless hstep
      exact hbefore.step hharmless hstep
  exact (hinvariant.reachable hreach).safe

/-! ## Callbacks that keep clear of what runs, and others -/

open ClientManager (dName tName)
open ApplicationState (eyesEnvironment eyesDescriptor eyesOptions eyesPath)

/-- A device with one interface, and an eye tracker, on one server. -/
def deviceTree : PathTree :=
  (((((PathTree.empty.set [dName] (.deviceElement "n".toList "s".toList .null)).set [dName, tName]
    .interfaceElement).set (eyesDevice.take 1) .pluginElement).set eyesDevice
      (.deviceElement "Eyes".toList "s".toList eyesDescriptor)).set
        (eyesDevice ++ [eyetrackerName]) .interfaceElement).set
          (eyesDevice ++ [EyeInterface.direction.name]) .interfaceElement

/-- The tree arrives, with a request for the connection to the server of the devices. -/
def treeArrives : ClientLabel :=
  .replaceTree eyesEnvironment (pathTreeToJson deviceTree false) [⟨"s".toList, some 0⟩]

/-- An application with one interface and one callback, in an update that has come to
the first connection when the tree arrives. -/
def started (main : Str) (node : NodePath) (type : ReportType) : List ClientLabel :=
  [.getInterface eyesEnvironment (getFullPath node) [] true,
    .registerCallback ⟨0, getFullPath node⟩ type ⟨0, 0⟩, .update [main], .advance, treeArrives]

/-- A report arrives, and the callback runs. -/
def callbackRuns (node : NodePath) (type : ReportType) : List ClientLabel :=
  started "s".toList node type ++ [.report node type, .advance, .advance]

/-- The callback registers another one for the report it is called with. -/
def registersAnother : List ClientLabel :=
  callbackRuns [dName, tName] .pose ++
    [.registerCallback ⟨0, getFullPath [dName, tName]⟩ .pose ⟨1, 0⟩, .advance]

/-- The callback frees the interface it is called for, and the loop over the callbacks ends. -/
def freesItsInterface : List ClientLabel :=
  callbackRuns [dName, tName] .pose ++
    [.releaseInterface ⟨0, getFullPath [dName, tName]⟩ true, .advance, .advance]

/-- The device is on another server than the main one. -/
def opensAnotherServer : List ClientLabel :=
  started "main".toList [dName, tName] .pose ++ [.advance]

/-- The callback is called for the direction of an eye tracker and gets the eye tracker, for
which another interface is opened there. -/
def getsEyeTracker : List ClientLabel :=
  callbackRuns (eyesDevice ++ [EyeInterface.direction.name]) .direction ++
    [.getInterface eyesEnvironment eyesPath [] true, .advance, .advance]

/-- The map starts with one bucket, and a rehash doubles the buckets. -/
abbrev oneBucket (main : Str) : TransitionSystem ClientState ClientLabel :=
  clientUpdate main 1 (2 * ·)

/-- Where a run comes to, if it does. -/
def reached (main : Str) (labels : List ClientLabel) : Option ClientState :=
  (oneBucket main).runWhile (fun _ _ => True) labels (oneBucket main).init

/-- A harmless step that gets no interface while an update runs. -/
def plain (state : ClientState) (label : ClientLabel) : Bool :=
  state.harmless "s".toList label &&
    match label with
    | .getInterface _ _ _ _ => state.pass.isNone
    | .update _ | .advance | .report _ _ | .replaceTree _ _ _ | .releaseInterface _ _
    | .registerCallback _ _ _ => true

theorem harmless_of_plain {label : ClientLabel} (hplain : state.plain label = true) :
    state.Harmless "s".toList label := by
  unfold plain at hplain
  rw [Bool.and_eq_true] at hplain
  refine ⟨hplain.1, ?_⟩
  rintro env path requests caught rfl -
  have hidle : state.pass = none := Option.isNone_iff_eq_none.mp hplain.2
  constructor
  · intro other node _ _
    rw [visits, hidle]
  · intro hupdates
    rw [updatesHandlers, hidle] at hupdates
    cases hupdates

/-- The callback for the device runs. -/
def interrupted : ClientState :=
  ((oneBucket "s".toList).runWhile (fun state label => state.plain label = true)
    (callbackRuns [dName, tName] .pose) (oneBucket "s".toList).init).getD
      (oneBucket "s".toList).init

/-- It has got the eye tracker. -/
def resumed : ClientState :=
  ((oneBucket "s".toList).step (.getInterface eyesEnvironment eyesPath [] true) interrupted).getD
    interrupted

/-- It registers a callback for another report. The update ends, and a second one runs. -/
def goesOn : List ClientLabel :=
  .registerCallback ⟨0, getFullPath [dName, tName]⟩ .button ⟨1, 0⟩ ::
    (List.replicate 12 .advance ++ [.update ["s".toList]] ++ List.replicate 11 .advance)

/-- The client after two updates. -/
def afterKeepsClear : ClientState :=
  ((oneBucket "s".toList).runWhile (fun state label => state.plain label = true) goesOn
    resumed).getD resumed

/-- Plain steps lead on from a state that harmless steps have led to. -/
theorem reachableWhile_of_plain {before : ClientState} (labels : List ClientLabel)
    (hbefore : (oneBucket "s".toList).ReachableWhile
      (fun state label => state.Harmless "s".toList label) before)
    (hsome : ((oneBucket "s".toList).runWhile (fun state label => state.plain label = true) labels
      before).isSome = true) :
    (oneBucket "s".toList).ReachableWhile (fun state label => state.Harmless "s".toList label)
      (((oneBucket "s".toList).runWhile (fun state label => state.plain label = true) labels
        before).getD before) := by
  have ⟨after, hafter⟩ := Option.isSome_iff_exists.mp hsome
  rw [hafter]
  exact hbefore.run (fun _ _ => harmless_of_plain) labels hafter

/-- The callback asks for the eye tracker and its direction only, and no report of theirs is
on its way. -/
theorem sparesForGet_interrupted : interrupted.SparesForGet eyesEnvironment eyesPath := by
  have hclosed : Closed eyesEnvironment interrupted.context.manager.tree fun path =>
      ∃ name ∈ eyeNames eyesOptions, locateAbsolute path = ⟨eyesDevice ++ [name], none⟩ := by
    have hfuel : eyesEnvironment.fuel = 11 + 1 := rfl
    have helement : interrupted.context.manager.tree.value? eyesDevice =
        some (.deviceElement "Eyes".toList "s".toList eyesDescriptor) := by
      decide +kernel
    apply closed_eyeNames hfuel (by decide) helement rfl
    · decide +kernel
    · intro name factory hfactory source ifaces
      cases hfactory
      rfl
  have hclear : ∀ name ∈ eyeNames eyesOptions,
      interrupted.visits (eyesDevice ++ [name]) = false := by
    decide +kernel
  constructor
  · intro other node hasks hnode
    obtain ⟨name, hname, hlocated⟩ :=
      hasks.of_closed hclosed ⟨eyetrackerName, List.mem_cons_self, locateAbsolute_getFullPath _⟩
    have heq : node = eyesDevice ++ [name] := congrArg Located.reached (hnode.symm.trans hlocated)
    rw [heq]
    exact hclear name hname
  · intro hupdates
    have hconnections : interrupted.updatesHandlers = false := by decide +kernel
    rw [hconnections] at hupdates
    cases hupdates

theorem reachableWhile_resumed : (oneBucket "s".toList).ReachableWhile
    (fun state label => state.Harmless "s".toList label) resumed := by
  have hinterrupted := reachableWhile_of_plain (callbackRuns [dName, tName] .pose) .init
    (by decide +kernel)
  have hsome : ((oneBucket "s".toList).step (.getInterface eyesEnvironment eyesPath [] true)
      interrupted).isSome = true := by decide +kernel
  obtain ⟨after, hafter⟩ := Option.isSome_iff_exists.mp hsome
  have hresumed : resumed = after := by
    rw [resumed, hafter]
    rfl
  rw [hresumed]
  refine .step hinterrupted ⟨?_, ?_⟩ hafter
  · show interrupted.harmless _ _ = true
    decide +kernel
  · rintro env path requests caught ⟨⟩ -
    exact sparesForGet_interrupted

/-- The three handlers that were made in the first update were there throughout the second. -/
theorem safe_of_harmless_keepsClear :
    afterKeepsClear.Safe ∧ afterKeepsClear.ended.map (·.handlers) = some [0, 1, 2] := by
  constructor
  · apply safe_of_harmless "s".toList 1 (2 * ·) afterKeepsClear
    exact reachableWhile_of_plain goesOn reachableWhile_resumed (by decide +kernel)
  · decide +kernel

/-- A run comes to a state that is not safe. -/
def Fails (main : Str) (labels : List ClientLabel) : Prop :=
  ∃ state, reached main labels = some state ∧ (oneBucket main).Reachable state ∧ ¬ state.Safe

theorem fails_of_broken {main : Str} {labels : List ClientLabel}
    (hbroken : (reached main labels).map ClientState.broken = some true) : Fails main labels := by
  have ⟨state, hreached, htrue⟩ := Option.map_eq_some_iff.mp hbroken
  refine ⟨state, hreached, TransitionSystem.reachableWhile_of_run .init labels hreached, ?_⟩
  intro hsafe
  rw [hsafe.intact] at htrue
  cases htrue

/-- Each of these makes a loop go on from an invalid position. -/
theorem not_safe :
    Fails "s".toList registersAnother ∧ Fails "s".toList freesItsInterface ∧
      Fails "main".toList opensAnotherServer ∧ Fails "s".toList getsEyeTracker := by
  refine ⟨fails_of_broken ?_, fails_of_broken ?_, fails_of_broken ?_, fails_of_broken ?_⟩
  all_goals decide +kernel

end ClientState

end OSVR.Client
