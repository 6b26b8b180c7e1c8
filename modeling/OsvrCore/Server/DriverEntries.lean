/-
# Which configurations have each driver handled on its own

Each entry is to lead to one attempt, if it names a plugin and a driver, and to one record.
An entry that names a plugin and not a driver is attempted as well, under the text of what
is there, and some entries and some drivers end the whole instantiation.
-/

import OsvrCore.Server.ConfigureServer

set_option autoImplicit false

namespace OSVR.Server.ConfigureServer

open Math Common PluginHost

variable {W : Type}

/-! ## What is expected -/

/-- The call that an entry asks for, if it names a plugin and a driver. -/
def attemptOf (codec : JsonCodec) (entry : Json) : Option DriverCall := do
  let members ← fields? entry
  let plugin ← stringAt PLUGIN_KEY members
  let driver ← stringAt DRIVER_KEY members
  return callFor codec plugin driver members

/-- How an entry is recorded. -/
inductive Record
  | success (name : Str)
  | failure (name error : Str)
  deriving DecidableEq, Repr

namespace Record

def success? : Record → Option Str
  | success name => some name
  | failure _ _ => none

def failure? : Record → Option (Str × Str)
  | success _ => none
  | failure name error => some (name, error)

end Record

section Expected

variable (env : DriverEnvironment W)

/-- An entry with its record, and what its attempt does to the plugins and the server. -/
inductive HandledEntry (entry : Json) (ctx : RegistrationContext W) :
    Record → RegistrationContext W → Prop
  | lacking (name error : Str) (hattempt : attemptOf env.codec entry = none) :
      HandledEntry entry ctx (.failure name error) ctx
  | instantiated (call : DriverCall) (after : RegistrationContext W)
      (hattempt : attemptOf env.codec entry = some call)
      (hrun : call.run env.callbacks ctx = (.ok (), after)) :
      HandledEntry entry ctx (.success call.name) after
  | refused (call : DriverCall) (after : RegistrationContext W) (thrown : Thrown) (error : Str)
      (hattempt : attemptOf env.codec entry = some call)
      (hrun : call.run env.callbacks ctx = (.error (.thrown thrown), after))
      (herror : ∀ what, thrown = .exception what → error = what) :
      HandledEntry entry ctx (.failure call.name error) after

/-- The entries with their records, in order. -/
inductive Handled : List Json → RegistrationContext W → List Record → RegistrationContext W → Prop
  | nil (ctx : RegistrationContext W) : Handled [] ctx [] ctx
  | cons {entry : Json} {rest : List Json} {ctx middle after : RegistrationContext W}
      {record : Record} {records : List Record} (hentry : HandledEntry env entry ctx record middle)
      (hrest : Handled rest middle records after) :
      Handled (entry :: rest) ctx (record :: records) after

/-- The attempt for an entry is made, and its record is in its list. -/
structure RecordedEntry (entry : Json) (server after : ConfigureServer W) (record : Record) :
    Prop where
  handled : HandledEntry env entry server.ctx record after.ctx
  calls : after.calls = server.calls ++ (attemptOf env.codec entry).toList
  successes : after.successfulInstances =
    server.successfulInstances ++ record.success?.toList
  failures : after.failedInstances = server.failedInstances ++ record.failure?.toList

/-- The attempts are made and the records are in the lists. -/
structure Recorded (entries : List Json) (server after : ConfigureServer W)
    (records : List Record) : Prop where
  handled : Handled env entries server.ctx records after.ctx
  calls : after.calls = server.calls ++ entries.filterMap (attemptOf env.codec)
  successes : after.successfulInstances =
    server.successfulInstances ++ records.filterMap Record.success?
  failures : after.failedInstances = server.failedInstances ++ records.filterMap Record.failure?

/-- Every entry has been handled, and the result tells whether one has failed. -/
def HandlesEachEntry (entries : List Json) (server : ConfigureServer W) (result : Bool)
    (after : ConfigureServer W) : Prop :=
  (∃ records, Recorded env entries server after records) ∧
    (result = true ↔ after.failedInstances = server.failedInstances)

end Expected

/-! ## When it is so -/

/-- An entry that is an object or null, and names a driver if it names a plugin. -/
def Admissible (entry : Json) : Prop :=
  ∃ members, fields? entry = some members ∧
    (stringAt PLUGIN_KEY members ≠ none → stringAt DRIVER_KEY members ≠ none)

/-- No callback of a driver that is asked for throws anything but a `std::exception`. -/
def CallsContained (callbacks : DriverCallbacks W) : List DriverCall → RegistrationContext W → Prop
  | [], _ => True
  | call :: rest, ctx =>
      (∀ callback, ctx.callback? call.plugin call.driver = some callback →
        (callbacks callback (c_str call.params) ctx).1 ≠ .error .other) ∧
      CallsContained callbacks rest (call.run callbacks ctx).2

variable {env : DriverEnvironment W} {entry : Json} {entries : List Json}
  {server middle after : ConfigureServer W}

/-- The first call goes on exactly if it does not throw something else. -/
theorem callsContained_cons_iff {callbacks : DriverCallbacks W} {call : DriverCall}
    {rest : List DriverCall} {ctx next : RegistrationContext W}
    {result : Except (Abort Thrown) Unit} (hrun : call.run callbacks ctx = (result, next)) :
    CallsContained callbacks (call :: rest) ctx ↔
      result ≠ .error (.thrown .other) ∧ CallsContained callbacks rest next := by
  rw [CallsContained, hrun]
  apply and_congr_left'
  apply Iff.intro
  · rintro hall rfl
    obtain ⟨callback, hsome, hcall⟩ := run_instantiateDriver_eq_other_iff.mp hrun
    exact hall callback hsome (congrArg Prod.fst hcall)
  · intro hresult callback hsome hother
    have hcall : callbacks callback (c_str call.params) ctx =
        (.error .other, (callbacks callback (c_str call.params) ctx).2) := by
      rw [← hother]
    have hthrown := run_instantiateDriver_eq_other_iff.mpr ⟨callback, hsome, hcall⟩
    rw [← DriverCall.run, hrun] at hthrown
    exact hresult (Prod.mk.inj hthrown).1

/-- For an admissible entry the code makes the call that the entry asks for, or can record
that there is none. -/
theorem admissible_iff : Admissible entry ↔
    (callOf env.codec entry = none → LacksPlugin entry) ∧
      callOf env.codec entry = attemptOf env.codec entry := by
  apply Iff.intro
  · rintro ⟨members, hfields, hnames⟩
    cases hplugin : stringAt PLUGIN_KEY members with
    | none =>
        exact ⟨fun _ => ⟨members, hfields, hplugin⟩, by simp [callOf, attemptOf, hfields, hplugin]⟩
    | some plugin =>
        obtain ⟨driver, hdriver⟩ := Option.ne_none_iff_exists'.mp (hnames (by simp [hplugin]))
        have htext : textAt env.codec DRIVER_KEY members = some driver := textAt_of_stringAt hdriver
        exact ⟨by simp [callOf, hfields, hplugin, htext],
          by simp [callOf, attemptOf, hfields, hplugin, hdriver, htext]⟩
  · rintro ⟨hlacks, hequal⟩
    have hnone (h : attemptOf env.codec entry = none) : LacksPlugin entry := hlacks (hequal.trans h)
    cases hfields : fields? entry with
    | none =>
        obtain ⟨members, hsome, -⟩ := hnone (by simp [attemptOf, hfields])
        exact absurd (hfields.symm.trans hsome) (by simp)
    | some members =>
        refine ⟨members, hfields, fun hplugin hdriver => hplugin ?_⟩
        obtain ⟨others, hsome, hmissing⟩ := hnone (by simp [attemptOf, hfields, hdriver])
        rwa [Option.some.inj (hfields.symm.trans hsome)]

/-- What an entry asks for, the code does. -/
theorem callOf_of_attemptOf {codec : JsonCodec} {call : DriverCall}
    (h : attemptOf codec entry = some call) : callOf codec entry = some call := by
  simp only [attemptOf, Option.bind_eq_bind, Option.bind_eq_some_iff] at h
  obtain ⟨members, hfields, plugin, hplugin, driver, hdriver, hcall⟩ := h
  simpa [callOf, hfields, hplugin, textAt_of_stringAt hdriver] using hcall

theorem filterMap_cons_toList {α β : Type} (f : α → Option β) (first : α) (rest : List α) :
    (first :: rest).filterMap f = (f first).toList ++ rest.filterMap f := by
  cases h : f first <;> simp [h]

/-- One entry more in front. -/
theorem RecordedEntry.cons {record : Record} {records : List Record}
    (hfirst : RecordedEntry env entry server middle record)
    (hrest : Recorded env entries middle after records) :
    Recorded env (entry :: entries) server after (record :: records) where
  handled := .cons hfirst.handled hrest.handled
  calls := by rw [hrest.calls, hfirst.calls, filterMap_cons_toList, List.append_assoc]
  successes := by rw [hrest.successes, hfirst.successes, filterMap_cons_toList, List.append_assoc]
  failures := by rw [hrest.failures, hfirst.failures, filterMap_cons_toList, List.append_assoc]

/-- What is asked of the calls of all entries is asked of those of the rest. -/
theorem HandledEntry.contained {record : Record} {ctx next : RegistrationContext W}
    (hentry : HandledEntry env entry ctx record next)
    (hcalls : CallsContained env.callbacks ((entry :: entries).filterMap (attemptOf env.codec))
      ctx) :
    CallsContained env.callbacks (entries.filterMap (attemptOf env.codec)) next := by
  cases hentry with
  | lacking name error hattempt => rwa [List.filterMap_cons_none hattempt] at hcalls
  | instantiated call _ hattempt hrun =>
      rw [List.filterMap_cons_some hattempt] at hcalls
      exact ((callsContained_cons_iff hrun).mp hcalls).2
  | refused call _ thrown error hattempt hrun herror =>
      rw [List.filterMap_cons_some hattempt] at hcalls
      exact ((callsContained_cons_iff hrun).mp hcalls).2

/-- An admissible entry is recorded, unless its driver throws something else than an
exception. -/
theorem run_instantiateEntry (hadmissible : Admissible entry)
    (hcalls : CallsContained env.callbacks ((entry :: entries).filterMap (attemptOf env.codec))
      server.ctx) :
    ∃ instantiated middle record,
      (instantiateEntry env entry).run server = (.ok instantiated, middle) ∧
      RecordedEntry env entry server middle record ∧
      (instantiated = true ↔ record.failure? = none) := by
  obtain ⟨hlacks, hequal⟩ := admissible_iff.mp hadmissible
  have hstep := entry_step env entry server
  generalize hrun : (instantiateEntry env entry).run server = outcome at hstep
  cases hstep with
  | lacking name error hcall _ =>
      have hattempt := hequal.symm.trans hcall
      refine ⟨false, _, .failure name error, rfl, ⟨.lacking name error hattempt, ?_, ?_, rfl⟩, ?_⟩
      · simp [failed, hattempt]
      · simp [failed, Record.success?]
      · simp [Record.failure?]
  | broken thrown hcall hbroken => exact absurd (hlacks hcall) hbroken
  | instantiated call ctx hcall hcallRun =>
      have hattempt := hequal.symm.trans hcall
      refine ⟨true, _, .success call.name, rfl,
        ⟨.instantiated call ctx hattempt hcallRun, ?_, rfl, ?_⟩, ?_⟩
      · simp [called, succeeded, hattempt]
      · simp [called, succeeded, Record.failure?]
      · simp [Record.failure?]
  | refused call ctx what hcall hcallRun =>
      have hattempt := hequal.symm.trans hcall
      have hhandled := HandledEntry.refused call ctx (.exception what) what hattempt hcallRun
        fun _ hsame => Thrown.exception.inj hsame
      refine ⟨false, _, .failure call.name what, rfl, ⟨hhandled, ?_, ?_, rfl⟩, ?_⟩
      · simp [called, failed, hattempt]
      · simp [called, failed, Record.success?]
      · simp [Record.failure?]
  | escaped call ctx hcall hcallRun =>
      rw [List.filterMap_cons_some (hequal.symm.trans hcall)] at hcalls
      exact absurd rfl ((callsContained_cons_iff hcallRun).mp hcalls).1

/-- Admissible entries are recorded to the end, if the drivers only throw exceptions. -/
theorem run_instantiateAll (hentries : ∀ entry ∈ entries, Admissible entry)
    (hcalls : CallsContained env.callbacks (entries.filterMap (attemptOf env.codec)) server.ctx)
    (success : Bool) :
    ∃ result after records, (instantiateAll env entries success).run server = (.ok result, after) ∧
      Recorded env entries server after records ∧
      (result = true ↔ success = true ∧ records.filterMap Record.failure? = []) := by
  induction entries generalizing server success with
  | nil =>
      refine ⟨success, server, [], rfl, ⟨.nil _, ?_, ?_, ?_⟩, ?_⟩ <;> simp
  | cons entry rest ih =>
      obtain ⟨hadmissible, hrest⟩ := List.forall_mem_cons.mp hentries
      obtain ⟨instantiated, middle, record, hrun, hfirst, hinstantiated⟩ :=
        run_instantiateEntry hadmissible hcalls
      obtain ⟨result, after, records, hrunRest, hrecorded, hresult⟩ :=
        ih hrest (hfirst.handled.contained hcalls) (success && instantiated)
      refine ⟨result, after, record :: records, ?_, hfirst.cons hrecorded, ?_⟩
      · rw [instantiateAll, Program.run_bind_of_ok hrun, hrunRest]
      · rw [hresult, Bool.and_eq_true, hinstantiated, and_assoc, filterMap_cons_toList,
          List.append_eq_nil_iff, Option.toList_eq_nil_iff]

/-- A loop that comes to its end has made the calls that the code makes. -/
theorem of_run_instantiateAll {success result : Bool}
    (hrun : (instantiateAll env entries success).run server = (.ok result, after)) :
    after.calls = server.calls ++ entries.filterMap (callOf env.codec) ∧
      (∀ entry ∈ entries, callOf env.codec entry = none → LacksPlugin entry) ∧
      CallsContained env.callbacks (entries.filterMap (callOf env.codec)) server.ctx := by
  induction entries generalizing server success with
  | nil =>
      cases hrun
      exact ⟨by simp, by simp, trivial⟩
  | cons entry rest ih =>
      rw [instantiateAll] at hrun
      obtain ⟨instantiated, middle, hentry, hrest⟩ := Program.run_bind_eq_ok_iff.mp hrun
      obtain ⟨hcalls, hlacks, hcontained⟩ := ih hrest
      have hstep := entry_step env entry server
      rw [hentry] at hstep
      cases hstep with
      | lacking name error hcall hlacksEntry =>
          rw [List.filterMap_cons_none hcall]
          exact ⟨hcalls, List.forall_mem_cons.mpr ⟨fun _ => hlacksEntry, hlacks⟩, hcontained⟩
      | instantiated call ctx hcall hcallRun =>
          rw [List.filterMap_cons_some hcall]
          refine ⟨by simp [hcalls, called, succeeded],
            List.forall_mem_cons.mpr ⟨by simp [hcall], hlacks⟩, ?_⟩
          exact (callsContained_cons_iff hcallRun).mpr ⟨by simp, hcontained⟩
      | refused call ctx what hcall hcallRun =>
          rw [List.filterMap_cons_some hcall]
          refine ⟨by simp [hcalls, called, failed],
            List.forall_mem_cons.mpr ⟨by simp [hcall], hlacks⟩, ?_⟩
          exact (callsContained_cons_iff hcallRun).mpr ⟨by simp, hcontained⟩

/-- A function that extends another one and gives no more values from a list agrees with it
there. -/
theorem eq_of_filterMap_eq {α β : Type} {f g : α → Option β}
    (hextends : ∀ ⦃a b⦄, f a = some b → g a = some b) {list : List α}
    (h : list.filterMap g = list.filterMap f) : ∀ a ∈ list, g a = f a := by
  have hlength (rest : List α) : (rest.filterMap f).length ≤ (rest.filterMap g).length := by
    induction rest with
    | nil => exact le_rfl
    | cons first rest ih =>
        cases hf : f first with
        | none =>
            rw [List.filterMap_cons_none hf, filterMap_cons_toList, List.length_append]
            exact ih.trans (Nat.le_add_left _ _)
        | some value =>
            rw [List.filterMap_cons_some hf, List.filterMap_cons_some (hextends hf)]
            exact Nat.succ_le_succ ih
  induction list with
  | nil => simp
  | cons first rest ih =>
      rw [List.forall_mem_cons]
      cases hf : f first with
      | some value =>
          rw [List.filterMap_cons_some hf, List.filterMap_cons_some (hextends hf)] at h
          exact ⟨hextends hf, ih (List.cons.inj h).2⟩
      | none =>
          cases hg : g first with
          | none =>
              rw [List.filterMap_cons_none hf, List.filterMap_cons_none hg] at h
              exact ⟨rfl, ih h⟩
          | some value =>
              rw [List.filterMap_cons_none hf, List.filterMap_cons_some hg] at h
              have hmore := hlength rest
              rw [← h, List.length_cons] at hmore
              exact absurd hmore (Nat.not_succ_le_self _)

/-- The instantiation handles each entry on its own exactly for admissible entries and
drivers that, where they are asked for, only throw exceptions. -/
theorem instantiateDrivers_handles_each_entry_iff (env : DriverEnvironment W)
    (members : JsonMembers) (server : ConfigureServer W) :
    (∃ result after, (instantiateDrivers env (.obj members)).run server = (.ok result, after) ∧
        HandlesEachEntry env ((members.lookup DRIVERS_KEY).getD .null).elements server result
          after) ↔
      (∀ entry ∈ ((members.lookup DRIVERS_KEY).getD .null).elements, Admissible entry) ∧
        CallsContained env.callbacks
          (((members.lookup DRIVERS_KEY).getD .null).elements.filterMap (attemptOf env.codec))
          server.ctx := by
  generalize hentries : ((members.lookup DRIVERS_KEY).getD .null).elements = entries
  have hloop : instantiateDrivers env (.obj members) = instantiateAll env entries true := by
    have hfields : fields? (.obj members) = some members := rfl
    rw [instantiateDrivers, index_of_fields hfields, json_ok_bind, hentries]
  rw [hloop]
  apply Iff.intro
  · rintro ⟨result, after, hrun, ⟨records, hrecorded⟩, -⟩
    obtain ⟨hcalls, hlacks, hcontained⟩ := of_run_instantiateAll hrun
    have hsame := List.append_cancel_left (hcalls.symm.trans hrecorded.calls)
    have hequal := eq_of_filterMap_eq (fun _ _ => callOf_of_attemptOf) hsame
    refine ⟨fun entry hentry => ?_, hsame ▸ hcontained⟩
    exact admissible_iff.mpr ⟨hlacks entry hentry, hequal entry hentry⟩
  · rintro ⟨hadmissible, hcontained⟩
    obtain ⟨result, after, records, hrun, hrecorded, hresult⟩ :=
      run_instantiateAll hadmissible hcontained true
    refine ⟨result, after, hrun, ⟨records, hrecorded⟩, ?_⟩
    rw [hresult, hrecorded.failures, List.append_right_eq_self]
    exact and_iff_right rfl

/-- A configuration with an entry that names a plugin and nothing else, a server without
plugins, and a JSON library that reads nothing. -/
def pluginOnly : JsonMembers := [(DRIVERS_KEY, .arr [.obj [(PLUGIN_KEY, .str "p".toList)]])]

def noPlugins : ConfigureServer Unit := ⟨⟨[], ()⟩, [], [], []⟩

def noDrivers : DriverEnvironment Unit where
  codec := ⟨fun _ => none, fun _ => [], fun _ => "null\n".toList, fun _ => []⟩
  what _ := []
  callbacks _ _ ctx := (.ok OSVR_RETURN_SUCCESS, ctx)

/-- An entry without a driver name is attempted, for the driver with the empty name. -/
theorem not_handlesEachEntry_pluginOnly :
    ((instantiateDrivers noDrivers (.obj pluginOnly)).run noPlugins).2.calls =
        [⟨"p".toList, [], "null\n".toList⟩] ∧
      ¬ ∃ result after, (instantiateDrivers noDrivers (.obj pluginOnly)).run noPlugins =
          (.ok result, after) ∧
        HandlesEachEntry noDrivers ((pluginOnly.lookup DRIVERS_KEY).getD .null).elements noPlugins
          result after := by
  have hcalls : ((instantiateDrivers noDrivers (.obj pluginOnly)).run noPlugins).2.calls =
      [⟨"p".toList, [], "null\n".toList⟩] := by rfl
  refine ⟨hcalls, ?_⟩
  rintro ⟨result, after, hrun, ⟨records, hrecorded⟩, -⟩
  rw [hrun, hrecorded.calls] at hcalls
  exact absurd hcalls (by decide)

end OSVR.Server.ConfigureServer
