/-
# Drivers that plugins offer

A plugin that has been loaded registers callbacks under the names of its drivers. A
callback can do anything to the server, and it can end by an exception of any type.
-/

import OsvrCore.Common.JsonValue
import OsvrCore.Math.ProgramLoop

set_option autoImplicit false

namespace OSVR.PluginHost

open Math Common

/-- What is thrown: a `std::exception` with its text, or something else. -/
inductive Thrown
  | exception (what : Str)
  | other
  deriving DecidableEq, Repr

def OSVR_RETURN_SUCCESS : UInt8 := 0

/-- The callbacks of a plugin by the names of its drivers. -/
structure PluginSpecificRegistrationContext where
  driverInstantiationCallbacks : List (Str × ℕ)
  deriving DecidableEq

/-- The plugins by their names, and the rest of the server. -/
structure RegistrationContext (W : Type) where
  regMap : List (Str × PluginSpecificRegistrationContext)
  world : W

/-- Code that instantiates drivers. -/
abbrev DriverProgram (W α : Type) := Program (RegistrationContext W) Thrown α

/-- What the callbacks of the drivers do. -/
abbrev DriverCallbacks (W : Type) :=
  ℕ → Str → RegistrationContext W → Except Thrown UInt8 × RegistrationContext W

/-- What a C string keeps of a text. -/
def c_str (text : Str) : Str := text.takeWhile (· ≠ '\x00')

section Instantiation

variable {W : Type} (callbacks : DriverCallbacks W)

/-- Call the callback of a driver. -/
def callDriver (callback : ℕ) (params : Str) : DriverProgram W UInt8 := fun ctx =>
  match callbacks callback params ctx with
  | (.ok ret, after) => (.ok ret, after)
  | (.error thrown, after) => (.error (.thrown thrown), after)

namespace PluginSpecificRegistrationContext

def noDriver (driverName : Str) : Thrown :=
  .exception ("No driver initialization callback was registered for the driver name ".toList ++
    driverName)

def driverFailed (driverName : Str) : Thrown :=
  .exception ("Failure returned from driver initialization callback by name ".toList ++ driverName)

def instantiateDriver (plugin : PluginSpecificRegistrationContext) (driverName params : Str) :
    DriverProgram W Unit :=
  match plugin.driverInstantiationCallbacks.lookup driverName with
  | none => Program.throw (noDriver driverName)
  | some callback => do
      let ret ← callDriver callbacks callback (c_str params)
      if ret ≠ OSVR_RETURN_SUCCESS then Program.throw (driverFailed driverName)
      else return ()

end PluginSpecificRegistrationContext

namespace RegistrationContext

def noPlugin (pluginName : Str) : Thrown :=
  .exception ("Could not find plugin named ".toList ++ pluginName)

def instantiateDriver (pluginName driverName params : Str) : DriverProgram W Unit := do
  match (← Program.get).regMap.lookup pluginName with
  | none => Program.throw (noPlugin pluginName)
  | some plugin => plugin.instantiateDriver callbacks driverName params

/-- The callback that a driver of a plugin is registered with. -/
def callback? (ctx : RegistrationContext W) (pluginName driverName : Str) : Option ℕ :=
  (ctx.regMap.lookup pluginName).bind fun plugin =>
    plugin.driverInstantiationCallbacks.lookup driverName

end RegistrationContext

/-! ## How an instantiation ends -/

open RegistrationContext

variable {callbacks} {ctx after : RegistrationContext W} {pluginName driverName params : Str}

@[simp] theorem run_callDriver_of_ok {callback : ℕ} {ret : UInt8}
    (hcall : callbacks callback params ctx = (.ok ret, after)) :
    (callDriver callbacks callback params).run ctx = (.ok ret, after) := by
  rw [Program.run, callDriver, hcall]

@[simp] theorem run_callDriver_of_error {callback : ℕ} {thrown : Thrown}
    (hcall : callbacks callback params ctx = (.error thrown, after)) :
    (callDriver callbacks callback params).run ctx = (.error (.thrown thrown), after) := by
  rw [Program.run, callDriver, hcall]

/-- A driver that is not registered is an error that leaves all as it is. -/
theorem run_instantiateDriver_of_none (hnone : ctx.callback? pluginName driverName = none) :
    ∃ what, (instantiateDriver callbacks pluginName driverName params).run ctx =
      (.error (.thrown (.exception what)), ctx) := by
  rw [instantiateDriver, Program.run_bind_of_ok (Program.run_get ctx)]
  cases hplugin : ctx.regMap.lookup pluginName with
  | none => exact ⟨_, rfl⟩
  | some plugin =>
      rw [callback?, hplugin, Option.bind_some] at hnone
      simp only [PluginSpecificRegistrationContext.instantiateDriver, hnone]
      exact ⟨_, rfl⟩

/-- A registered driver is instantiated by its callback. -/
theorem run_instantiateDriver_of_some {callback : ℕ}
    (hsome : ctx.callback? pluginName driverName = some callback) :
    (instantiateDriver callbacks pluginName driverName params).run ctx =
      (do
        let ret ← callDriver callbacks callback (c_str params)
        if ret ≠ OSVR_RETURN_SUCCESS then
          Program.throw (PluginSpecificRegistrationContext.driverFailed driverName)
        else return () : DriverProgram W Unit).run ctx := by
  obtain ⟨plugin, hplugin, hcallback⟩ := Option.bind_eq_some_iff.mp hsome
  rw [instantiateDriver, Program.run_bind_of_ok (Program.run_get ctx)]
  simp only [hplugin, PluginSpecificRegistrationContext.instantiateDriver, hcallback]

/-- What an instantiation can do, by what it finds registered. -/
inductive Instantiates (callbacks : DriverCallbacks W) (ctx : RegistrationContext W)
    (pluginName driverName params : Str) :
    Except (Abort Thrown) Unit × RegistrationContext W → Prop
  | missing (what : Str) (hnone : ctx.callback? pluginName driverName = none) :
      Instantiates callbacks ctx pluginName driverName params
        (.error (.thrown (.exception what)), ctx)
  | succeeded (callback : ℕ) (after : RegistrationContext W)
      (hsome : ctx.callback? pluginName driverName = some callback)
      (hcall : callbacks callback (c_str params) ctx = (.ok OSVR_RETURN_SUCCESS, after)) :
      Instantiates callbacks ctx pluginName driverName params (.ok (), after)
  | failed (callback : ℕ) (ret : UInt8) (after : RegistrationContext W)
      (hsome : ctx.callback? pluginName driverName = some callback)
      (hcall : callbacks callback (c_str params) ctx = (.ok ret, after))
      (hret : ret ≠ OSVR_RETURN_SUCCESS) :
      Instantiates callbacks ctx pluginName driverName params
        (.error (.thrown (PluginSpecificRegistrationContext.driverFailed driverName)), after)
  | threw (callback : ℕ) (thrown : Thrown) (after : RegistrationContext W)
      (hsome : ctx.callback? pluginName driverName = some callback)
      (hcall : callbacks callback (c_str params) ctx = (.error thrown, after)) :
      Instantiates callbacks ctx pluginName driverName params (.error (.thrown thrown), after)

theorem instantiates (callbacks : DriverCallbacks W) (ctx : RegistrationContext W)
    (pluginName driverName params : Str) :
    Instantiates callbacks ctx pluginName driverName params
      ((instantiateDriver callbacks pluginName driverName params).run ctx) := by
  cases hcallback : ctx.callback? pluginName driverName with
  | none =>
      have hmissing : ∃ what, (instantiateDriver callbacks pluginName driverName params).run ctx =
          (.error (.thrown (.exception what)), ctx) := run_instantiateDriver_of_none hcallback
      obtain ⟨what, hrun⟩ := hmissing
      rw [hrun]
      exact .missing what hcallback
  | some callback =>
      rw [run_instantiateDriver_of_some hcallback]
      rcases hcall : callbacks callback (c_str params) ctx with ⟨thrown | ret, after⟩
      · rw [Program.run_bind_of_error (run_callDriver_of_error hcall)]
        exact .threw callback thrown after hcallback hcall
      · rw [Program.run_bind_of_ok (run_callDriver_of_ok hcall)]
        by_cases hret : ret = OSVR_RETURN_SUCCESS
        · rw [if_neg (not_not.mpr hret), Program.run_pure]
          exact .succeeded callback after hcallback (hret ▸ hcall)
        · rw [if_pos hret, Program.run_throw]
          exact .failed callback ret after hcallback hcall hret

/-- What is not a `std::exception` comes from a callback. -/
theorem run_instantiateDriver_eq_other_iff :
    (instantiateDriver callbacks pluginName driverName params).run ctx =
        (.error (.thrown .other), after) ↔
      ∃ callback, ctx.callback? pluginName driverName = some callback ∧
        callbacks callback (c_str params) ctx = (.error .other, after) := by
  apply Iff.intro
  · intro hrun
    have hcases := instantiates callbacks ctx pluginName driverName params
    rw [hrun] at hcases
    cases hcases with
    | threw callback _ _ hsome hcall => exact ⟨callback, hsome, hcall⟩
  · rintro ⟨callback, hsome, hcall⟩
    rw [run_instantiateDriver_of_some hsome, Program.run_bind_of_error
      (run_callDriver_of_error hcall)]

end Instantiation

end OSVR.PluginHost
