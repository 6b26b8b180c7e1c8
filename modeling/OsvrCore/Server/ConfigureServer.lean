/-
# The drivers that a configuration asks for

The entries of a configuration are handled one after the other: each is to name a plugin
and one of its drivers, and is recorded as a success or as a failure. Where the name of
the driver is to be checked, the code checks the name of the plugin a second time.
-/

import OsvrCore.PluginHost.RegistrationContext

set_option autoImplicit false

namespace OSVR.Server

open Math Common PluginHost

/-- What a call of `Server::instantiateDriver` asks for. -/
structure DriverCall where
  plugin : Str
  driver : Str
  params : Str
  deriving DecidableEq, Repr

namespace DriverCall

/-- The name a call is recorded under. -/
def name (call : DriverCall) : Str := call.plugin ++ '/' :: call.driver

/-- What the call does to the plugins and the server. -/
def run {W : Type} (callbacks : DriverCallbacks W) (call : DriverCall) :
    RegistrationContext W → Except (Abort Thrown) Unit × RegistrationContext W :=
  (RegistrationContext.instantiateDriver callbacks call.plugin call.driver call.params).run

end DriverCall

/-- The server behind a `ConfigureServer` with the calls made to it, and the results. -/
structure ConfigureServer (W : Type) where
  ctx : RegistrationContext W
  calls : List DriverCall
  successfulInstances : List Str
  failedInstances : List (Str × Str)

/-- Code of a `ConfigureServer`. -/
abbrev ConfigureProgram (W α : Type) := Program (ConfigureServer W) Thrown α

/-- The JSON library with the texts of its exceptions, and the drivers. -/
structure DriverEnvironment (W : Type) where
  codec : JsonCodec
  what : JsonError → Str
  callbacks : DriverCallbacks W

namespace ConfigureServer

def DRIVERS_KEY : Str := "drivers".toList
def DRIVER_KEY : Str := "driver".toList
def PLUGIN_KEY : Str := "plugin".toList
def PARAMS_KEY : Str := "params".toList

def lackingBoth : Str :=
  "Entry present in drivers but lacking both a driver name and a plugin name".toList

def lackingPlugin : Str :=
  "Entry present in drivers with a driver name but lacking a plugin name".toList

def lackingDriver : Str :=
  "Entry present in drivers with a plugin name but lacking a driver name".toList

section Results

variable {W : Type}

def succeeded (name : Str) (server : ConfigureServer W) : ConfigureServer W :=
  { server with successfulInstances := server.successfulInstances ++ [name] }

def failed (name error : Str) (server : ConfigureServer W) : ConfigureServer W :=
  { server with failedInstances := server.failedInstances ++ [(name, error)] }

def called (call : DriverCall) (ctx : RegistrationContext W) (server : ConfigureServer W) :
    ConfigureServer W :=
  { server with ctx := ctx, calls := server.calls ++ [call] }

end Results

/-- What `catch (std::exception &e)` takes. -/
def what? : Thrown → Option Str
  | .exception what => some what
  | .other => none

variable {W : Type} (env : DriverEnvironment W)

/-- An accessor of the JSON library. -/
def json {α : Type} (result : Except JsonError α) : ConfigureProgram W α :=
  Program.ofExcept (result.mapError fun error => .exception (env.what error))

/-- `m_server->instantiateDriver`. -/
def callServer (call : DriverCall) : ConfigureProgram W Unit := fun server =>
  ((call.run env.callbacks server.ctx).1, server.called call (call.run env.callbacks server.ctx).2)

/-- A call with the record of its success. -/
def instantiate (call : DriverCall) : ConfigureProgram W Bool := do
  callServer env call
  Program.modify (succeeded call.name)
  return true

/-- The guarded part for an entry. -/
def attempt (plugin driver : Str) (thisDriver : Json) : ConfigureProgram W Bool :=
  Program.catching what?
    (do
      let params ← json env (thisDriver.index PARAMS_KEY)
      instantiate env ⟨plugin, driver, env.codec.toStyledString params⟩)
    fun what => do
      Program.modify (failed (plugin ++ '/' :: driver) what)
      return false

/-- The body of the loop of `instantiateDrivers`: false where it clears `success`. -/
def instantiateEntry (thisDriver : Json) : ConfigureProgram W Bool := do
  let hasPlugin := (← json env (thisDriver.index PLUGIN_KEY)).isString
  let hasDriver := (← json env (thisDriver.index DRIVER_KEY)).isString
  if !hasPlugin && !hasDriver then do
    Program.modify (failed "?".toList lackingBoth)
    return false
  else if !hasPlugin then do
    let driver ← json env ((← json env (thisDriver.index DRIVER_KEY)).asString env.codec)
    Program.modify (failed ("?/".toList ++ driver) lackingPlugin)
    return false
  else do
    let plugin ← json env ((← json env (thisDriver.index PLUGIN_KEY)).asString env.codec)
    -- The test that the source has here: it was to be one of `hasDriver`.
    if !hasPlugin then do
      Program.modify (failed (plugin ++ "/?".toList) lackingDriver)
      return false
    else do
      let driver ← json env ((← json env (thisDriver.index DRIVER_KEY)).asString env.codec)
      attempt env plugin driver thisDriver

/-- The loop of `instantiateDrivers`, with the value of `success` so far. -/
def instantiateAll : List Json → Bool → ConfigureProgram W Bool
  | [], success => return success
  | thisDriver :: rest, success => do
      let instantiated ← instantiateEntry env thisDriver
      instantiateAll rest (success && instantiated)

def instantiateDrivers (root : Json) : ConfigureProgram W Bool := do
  let drivers ← json env (root.index DRIVERS_KEY)
  instantiateAll env drivers.elements true

/-! ## What an entry leads to -/

/-- The members of an entry that has some; null is like an object without members. -/
def fields? : Json → Option JsonMembers
  | .null => some []
  | .obj members => some members
  | .bool _ | .int _ | .real _ | .str _ | .arr _ => none

/-- The member of a name, if it is a string. -/
def stringAt (key : Str) (members : JsonMembers) : Option Str :=
  match members.lookup key with
  | some (.str text) => some text
  | _ => none

/-- The member of a name as the text that `asString` makes of it. -/
def textAt (codec : JsonCodec) (key : Str) (members : JsonMembers) : Option Str :=
  (((members.lookup key).getD .null).asString codec).toOption

/-- A call for the driver of an entry. -/
def callFor (codec : JsonCodec) (plugin driver : Str) (members : JsonMembers) : DriverCall :=
  ⟨plugin, driver, codec.toStyledString ((members.lookup PARAMS_KEY).getD .null)⟩

/-- The call that the code makes for an entry. -/
def callOf (codec : JsonCodec) (entry : Json) : Option DriverCall := do
  let members ← fields? entry
  let plugin ← stringAt PLUGIN_KEY members
  let driver ← textAt codec DRIVER_KEY members
  return callFor codec plugin driver members

/-- An entry that can be recorded as one that lacks a plugin name. -/
def LacksPlugin (entry : Json) : Prop :=
  ∃ members, fields? entry = some members ∧ stringAt PLUGIN_KEY members = none

/-- What the handling of an entry comes to. -/
inductive EntryStep (entry : Json) (server : ConfigureServer W) :
    Except (Abort Thrown) Bool × ConfigureServer W → Prop
  | lacking (name error : Str) (hcall : callOf env.codec entry = none)
      (hlacks : LacksPlugin entry) : EntryStep entry server (.ok false, server.failed name error)
  | broken (thrown : Thrown) (hcall : callOf env.codec entry = none)
      (hlacks : ¬ LacksPlugin entry) : EntryStep entry server (.error (.thrown thrown), server)
  | instantiated (call : DriverCall) (ctx : RegistrationContext W)
      (hcall : callOf env.codec entry = some call)
      (hrun : call.run env.callbacks server.ctx = (.ok (), ctx)) :
      EntryStep entry server (.ok true, (server.called call ctx).succeeded call.name)
  | refused (call : DriverCall) (ctx : RegistrationContext W) (what : Str)
      (hcall : callOf env.codec entry = some call)
      (hrun : call.run env.callbacks server.ctx = (.error (.thrown (.exception what)), ctx)) :
      EntryStep entry server (.ok false, (server.called call ctx).failed call.name what)
  | escaped (call : DriverCall) (ctx : RegistrationContext W)
      (hcall : callOf env.codec entry = some call)
      (hrun : call.run env.callbacks server.ctx = (.error (.thrown .other), ctx)) :
      EntryStep entry server (.error (.thrown .other), server.called call ctx)

variable {env} {entry : Json} {members : JsonMembers} {server : ConfigureServer W}

theorem index_of_fields (hfields : fields? entry = some members) (key : Str) :
    entry.index key = .ok ((members.lookup key).getD .null) := by
  cases entry with
  | null =>
      cases hfields
      rfl
  | obj fields =>
      cases hfields
      rfl
  | bool _ | int _ | real _ | str _ | arr _ => cases hfields

theorem index_of_no_fields (hfields : fields? entry = none) (key : Str) :
    entry.index key = .error (.wrongType .isMember) := by
  cases entry with
  | null | obj _ => cases hfields
  | bool _ | int _ | real _ | str _ | arr _ => rfl

theorem isString_getD (key : Str) (members : JsonMembers) :
    ((members.lookup key).getD .null).isString = (stringAt key members).isSome := by
  unfold stringAt
  rcases members.lookup key with _ | value
  · rfl
  · cases value <;> rfl

theorem textAt_of_stringAt {codec : JsonCodec} {key text : Str}
    (h : stringAt key members = some text) : textAt codec key members = some text := by
  unfold stringAt at h
  unfold textAt
  rcases hvalue : members.lookup key with _ | value
  · simp [hvalue] at h
  · cases value <;> simp_all [Json.asString, Except.toOption]

theorem json_ok_bind {α β : Type} (value : α) (next : α → ConfigureProgram W β) :
    json env (.ok value) >>= next = next value := rfl

theorem run_json_error {α : Type} (error : JsonError) :
    (json env (.error error) : ConfigureProgram W α).run server =
      (.error (.thrown (.exception (env.what error))), server) := rfl

theorem run_callServer {call : DriverCall} {ctx : RegistrationContext W}
    {result : Except (Abort Thrown) Unit}
    (hrun : call.run env.callbacks server.ctx = (result, ctx)) :
    (callServer env call).run server = (result, server.called call ctx) := by
  show ((call.run env.callbacks server.ctx).1,
    server.called call (call.run env.callbacks server.ctx).2) = _
  rw [hrun]

/-- An instantiation that fails has thrown something. -/
theorem thrown_of_run {call : DriverCall} {ctx after : RegistrationContext W}
    {reason : Abort Thrown} (hrun : call.run env.callbacks ctx = (.error reason, after)) :
    ∃ thrown, reason = .thrown thrown := by
  have hends := instantiates env.callbacks ctx call.plugin call.driver call.params
  rw [← DriverCall.run, hrun] at hends
  cases hends with
  | missing what hnone => exact ⟨_, rfl⟩
  | failed _ _ _ hsome hcall hret => exact ⟨_, rfl⟩
  | threw _ thrown _ hsome hcall => exact ⟨thrown, rfl⟩

theorem run_instantiate_of_ok {call : DriverCall} {ctx : RegistrationContext W}
    (hrun : call.run env.callbacks server.ctx = (.ok (), ctx)) :
    (instantiate env call).run server = (.ok true,
      (server.called call ctx).succeeded call.name) := by
  rw [instantiate, Program.run_bind_of_ok (run_callServer hrun)]
  rfl

theorem run_instantiate_of_error {call : DriverCall} {ctx : RegistrationContext W}
    {reason : Abort Thrown} (hrun : call.run env.callbacks server.ctx = (.error reason, ctx)) :
    (instantiate env call).run server = (.error reason, server.called call ctx) :=
  Program.run_bind_of_error (run_callServer hrun)

theorem asString_of_textAt {codec : JsonCodec} {key text : Str}
    (h : textAt codec key members = some text) :
    ((members.lookup key).getD .null).asString codec = .ok text := by
  unfold textAt at h
  cases htext : ((members.lookup key).getD .null).asString codec with
  | error error => simp [htext, Except.toOption] at h
  | ok value => simpa [htext, Except.toOption] using h

theorem asString_of_no_text {codec : JsonCodec} {key : Str} (h : textAt codec key members = none) :
    ∃ error, ((members.lookup key).getD .null).asString codec = .error error := by
  unfold textAt at h
  cases htext : ((members.lookup key).getD .null).asString codec with
  | error error => exact ⟨error, rfl⟩
  | ok value => simp [htext, Except.toOption] at h

theorem attempt_of_fields (plugin driver : Str) (hfields : fields? entry = some members) :
    attempt env plugin driver entry =
      Program.catching what? (instantiate env (callFor env.codec plugin driver members))
        fun what => do
          Program.modify (failed (plugin ++ '/' :: driver) what)
          return false := by
  rw [attempt, index_of_fields hfields, json_ok_bind, callFor]

/-- The guarded part makes the call and records how it ends, unless something else than a
`std::exception` is thrown. -/
theorem attempt_step {plugin driver : Str} (hfields : fields? entry = some members)
    (hcall : callOf env.codec entry = some (callFor env.codec plugin driver members)) :
    EntryStep env entry server ((attempt env plugin driver entry).run server) := by
  rw [attempt_of_fields plugin driver hfields]
  rcases hrun : (callFor env.codec plugin driver members).run env.callbacks server.ctx with
    ⟨reason | ⟨⟩, ctx⟩
  · obtain ⟨thrown, rfl⟩ := thrown_of_run hrun
    have hserver := run_instantiate_of_error hrun
    cases thrown with
    | exception what =>
        have htakes : what? (.exception what) = some what := rfl
        rw [Program.run_catching_of_taken hserver htakes]
        exact .refused _ ctx what hcall hrun
    | other =>
        rw [Program.run_catching_of_not_taken hserver rfl]
        exact .escaped _ ctx hcall hrun
  · rw [Program.run_catching_of_ok (run_instantiate_of_ok hrun)]
    exact .instantiated _ ctx hcall hrun

theorem entry_step (env : DriverEnvironment W) (entry : Json) (server : ConfigureServer W) :
    EntryStep env entry server ((instantiateEntry env entry).run server) := by
  unfold instantiateEntry
  cases hfields : fields? entry with
  | none =>
      rw [index_of_no_fields hfields, Program.run_bind_of_error (run_json_error _)]
      refine .broken _ (by simp [callOf, hfields]) ?_
      rintro ⟨members, hsome, -⟩
      exact absurd (hfields.symm.trans hsome) (by simp)
  | some members =>
      simp only [index_of_fields hfields, json_ok_bind, isString_getD]
      cases hplugin : stringAt PLUGIN_KEY members with
      | none =>
          have hcall : callOf env.codec entry = none := by simp [callOf, hfields, hplugin]
          have hlacks : LacksPlugin entry := ⟨members, hfields, hplugin⟩
          cases hdriver : stringAt DRIVER_KEY members with
          | none => exact .lacking _ _ hcall hlacks
          | some driver =>
              rw [asString_of_textAt (textAt_of_stringAt hdriver), json_ok_bind]
              exact .lacking _ _ hcall hlacks
      | some plugin =>
          simp only [Option.isSome_some, Bool.not_true, Bool.false_and,
            Bool.false_eq_true, if_false]
          rw [asString_of_textAt (textAt_of_stringAt hplugin), json_ok_bind]
          cases hdriver : textAt env.codec DRIVER_KEY members with
          | none =>
              obtain ⟨error, herror⟩ := asString_of_no_text hdriver
              rw [herror, Program.run_bind_of_error (run_json_error _)]
              refine .broken _ (by simp [callOf, hfields, hplugin, hdriver]) ?_
              rintro ⟨others, hsome, hnone⟩
              obtain rfl := Option.some.inj (hfields.symm.trans hsome)
              exact absurd (hplugin.symm.trans hnone) (by simp)
          | some driver =>
              rw [asString_of_textAt hdriver, json_ok_bind]
              exact attempt_step hfields (by simp [callOf, hfields, hplugin, hdriver])

end ConfigureServer

end OSVR.Server
