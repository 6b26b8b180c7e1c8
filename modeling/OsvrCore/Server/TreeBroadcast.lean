/-
# When the server sends its tree

The tree goes out once in an update that comes to its end with the flag set, and at no
other time; what was sent last is the tree of that moment.
-/

import OsvrCore.Server.TreeDirty

set_option autoImplicit false

namespace OSVR.Server

open Math Common ServerProgram ServerImpl

namespace ServerImpl

/-- The tree that a call sends: `m_update` finds the flag when the messages have been
handled. -/
def sends (codec : JsonCodec) (fuel : ℕ) (call : ServerCall) (state : ServerState) :
    Option PathTree :=
  match call with
  | .update messages =>
      match (handleMessages codec fuel messages).run state with
      | (.ok _, reached) => if reached.treeDirty then some reached.tree else none
      | (.error _, _) => none
  | .addRoute _ | .addAlias _ _ _ | .addAliases _ _ | .addExternalDevice _ _ _ _
  | .addString _ _ => none

end ServerImpl

/-- The last tree that was sent is the same. -/
def SameSent (before after : ServerState) : Prop := after.sent = before.sent

theorem SameSent.trans ⦃first second third : ServerState⦄ (h : SameSent first second)
    (h' : SameSent second third) : SameSent first third := Eq.trans h' h

section Silent

variable {codec : JsonCodec} {fuel : ℕ}

theorem sameSent_onTree {α : Type} (program : TreeProgram α) :
    Program.Relates SameSent (onTree program) := fun _ => rfl

theorem sameSent_pure {α : Type} (value : α) :
    Program.Relates SameSent (pure value : ServerProgram α) := fun _ => rfl

theorem sameSent_setDirty : Program.Relates SameSent setDirty := fun _ => rfl

theorem sameSent_addDirty (change : Bool) : Program.Relates SameSent (addDirty change) :=
  fun _ => rfl

theorem sameSent_noteChange (program : TreeProgram Bool) :
    Program.Relates SameSent (noteChange program) :=
  (sameSent_onTree program).bind SameSent.trans fun _ =>
    (sameSent_addDirty _).bind SameSent.trans fun _ => sameSent_pure _

theorem sameSent_addExternalDevice (path deviceName server descriptor : Str) :
    Program.Relates SameSent (addExternalDevice codec fuel path deviceName server descriptor) := by
  unfold addExternalDevice
  split
  · exact sameSent_pure ()
  · apply (sameSent_onTree _).bind SameSent.trans
    intro node
    apply (sameSent_onTree _).bind SameSent.trans
    intro _
    apply sameSent_setDirty.bind SameSent.trans
    intro _
    exact (sameSent_onTree _).bind SameSent.trans fun _ => sameSent_pure ()

theorem sameSent_addString (path value : Str) :
    Program.Relates SameSent (addString path value) := by
  apply (sameSent_onTree _).bind SameSent.trans
  intro node
  apply (sameSent_onTree _).bind SameSent.trans
  intro element
  split
  · apply sameSent_setDirty.bind SameSent.trans
    intro _
    exact (sameSent_onTree _).bind SameSent.trans fun _ => sameSent_pure _
  · exact sameSent_pure _

theorem sameSent_handleDeviceDescriptors (devices : List (Str × Str)) :
    Program.Relates SameSent (handleDeviceDescriptors codec fuel devices) := by
  induction devices with
  | nil => exact sameSent_pure ()
  | cons device rest ih =>
      apply Program.Relates.bind SameSent.trans _ fun _ => ih
      rw [handleDeviceDescriptor]
      split
      · exact sameSent_pure ()
      · exact (sameSent_noteChange _).bind SameSent.trans fun _ => sameSent_pure ()

theorem sameSent_handleMessages (messages : List ServerMessage) :
    Program.Relates SameSent (handleMessages codec fuel messages) := by
  induction messages with
  | nil => exact sameSent_pure ()
  | cons message rest ih =>
      apply Program.Relates.bind SameSent.trans _ fun _ => ih
      cases message with
      | updatedRoute payload =>
          exact (sameSent_noteChange _).bind SameSent.trans fun _ => sameSent_pure ()
      | deviceDescriptors devices => exact sameSent_handleDeviceDescriptors devices
      | ping => exact sameSent_addDirty true

end Silent

/-- How a call leaves what was sent last. -/
theorem run_perform_sends (codec : JsonCodec) (fuel : ℕ) (call : ServerCall) (state : ServerState) :
    match sends codec fuel call state with
    | some tree => (perform codec fuel call).run state =
        (.ok (), ⟨tree, false, pathTreeToJson tree false⟩)
    | none => ((perform codec fuel call).run state).2.sent = state.sent := by
  cases call with
  | addRoute route =>
      exact ((sameSent_noteChange _).bind SameSent.trans fun _ => sameSent_pure ()) state
  | addAlias path source priority =>
      exact ((sameSent_noteChange _).bind SameSent.trans fun _ => sameSent_pure ()) state
  | addAliases aliases priority =>
      exact ((sameSent_noteChange _).bind SameSent.trans fun _ => sameSent_pure ()) state
  | addExternalDevice path deviceName server descriptor =>
      exact sameSent_addExternalDevice path deviceName server descriptor state
  | addString path value =>
      exact ((sameSent_addString path value).bind SameSent.trans fun _ => sameSent_pure ()) state
  | update messages =>
      have hsame : SameSent state ((handleMessages codec fuel messages).run state).2 :=
        sameSent_handleMessages messages state
      rw [sends, perform, update]
      rcases hrun : (handleMessages codec fuel messages).run state with ⟨reason | _, reached⟩
      · rw [Program.run_bind_of_error hrun]
        rw [hrun] at hsame
        exact hsame
      · rw [Program.run_bind_of_ok hrun, Program.run_bind_of_ok (Program.run_get reached)]
        rw [hrun] at hsame
        by_cases hdirty : reached.treeDirty = true
        · simp only [hdirty, if_true]
          rfl
        · simp only [hdirty]
          exact hsame

end OSVR.Server
