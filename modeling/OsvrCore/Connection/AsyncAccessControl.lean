/-
# Hand-off of the connection to asynchronous threads

`AsyncAccessControl` lets the main thread hand the connection to an asynchronous
thread. A requester sets a flag, waits for a message of the main thread, and
keeps two mutexes until its `RequestToSend` object is destroyed; the main thread
waits for that. One step of the model is one lock operation with the local code
that follows it, and a wait on a condition variable can end at any time.

The number of asynchronous threads is arbitrary. A `RequestToSend` object that
was never requested, or whose request was nested, owns no lock and its
destructor does nothing, so a thread is described by the one object that can
own locks. Two fields count calls of the main thread and no step reads them.
-/

import Mathlib.Data.Nat.Notation
import Mathlib.Logic.Function.Basic
import OsvrCore.Math.Mutex
import OsvrCore.Math.Transition

set_option autoImplicit false

namespace OSVR.Connection

open Math

/-- `AsyncAccessControl::MainThreadMessages`. -/
inductive MainThreadMessage
  | wait
  | clearToSend
  | denySend
  deriving DecidableEq, Repr

/-- The entry points of the main thread. -/
inductive MainCall
  | mainThreadCTS
  | mainThreadDeny
  | mainThreadDenyPermanently
  deriving DecidableEq, Repr

namespace MainCall

/-- The `response` argument of `m_handleRTS`. -/
def response : MainCall → MainThreadMessage
  | mainThreadCTS => .clearToSend
  | mainThreadDeny => .denySend
  | mainThreadDenyPermanently => .denySend

/-- The `postCompletionState` argument of `m_handleRTS`. -/
def postCompletionState : MainCall → MainThreadMessage
  | mainThreadCTS => .wait
  | mainThreadDeny => .wait
  | mainThreadDenyPermanently => .denySend

end MainCall

/-- Where the main thread stands. `wantMut` and `wantDone` are blocked in the
acquisition of a mutex, `waiting` is inside `m_condMainThread.wait`. -/
inductive MainPhase
  | outside
  | wantMut (call : MainCall)
  | locked (call : MainCall)
  | leaving
  | responded (call : MainCall)
  | wantDone (call : MainCall)
  | checking (call : MainCall)
  | waiting (call : MainCall)
  | restored
  deriving DecidableEq, Repr

/-- What `request` returned, with the main-thread call that granted it. -/
inductive Verdict
  | denied
  | granted (call : ℕ)
  deriving DecidableEq, Repr

/-- Where a requesting thread stands. From `holding` on, `request` has returned
and the object lives; `nestedEntered` and `selfBlocked` are inside the request of
a further object made meanwhile, and `releasedMut` is inside the destructor. -/
inductive RequestPhase
  | outside
  | wantMut
  | entered
  | wantDone
  | testing
  | waiting
  | wantMutBack
  | holding (verdict : Verdict)
  | nestedEntered (verdict : Verdict)
  | selfBlocked (verdict : Verdict)
  | releasedMut (verdict : Verdict)
  deriving DecidableEq, Repr

/-- Members of `AsyncAccessControl` with the phases of all threads. -/
structure AccessState (T : Type) where
  mainMut : RecursiveMutex (Agent T)
  mutDone : Mutex (Agent T)
  currentRequestThread : Option T
  rts : Bool
  done : Bool
  mainMessage : MainThreadMessage
  main : MainPhase
  thread : T → RequestPhase
  call : ℕ
  messageCall : ℕ

/-- What the scheduler chooses: a new call, a new request, a destruction, or the
next step of a thread that is inside one of these. -/
inductive AccessLabel (T : Type)
  | call (kind : MainCall)
  | main
  | request (t : T)
  | thread (t : T)
  | destroy (t : T)
  deriving DecidableEq

namespace AccessState

variable {T : Type} [DecidableEq T]

/-- The constructor of `AsyncAccessControl`. -/
def init : AccessState T where
  mainMut := .free
  mutDone := .free
  currentRequestThread := none
  rts := false
  done := false
  mainMessage := .wait
  main := .outside
  thread _ := .outside
  call := 0
  messageCall := 0

/-- Acquire `m_mut`; `none` while another thread owns it. -/
def lockMut (s : AccessState T) (agent : Agent T) : Option (AccessState T) :=
  (s.mainMut.lock agent).map fun m => { s with mainMut := m }

/-- Release one level of `m_mut`. -/
def unlockMut (s : AccessState T) : AccessState T := { s with mainMut := s.mainMut.unlock }

/-- Acquire `m_mutDone`; `none` while any thread owns it. -/
def lockDone (s : AccessState T) (agent : Agent T) : Option (AccessState T) :=
  (s.mutDone.lock agent).map fun m => { s with mutDone := m }

def unlockDone (s : AccessState T) : AccessState T := { s with mutDone := .free }

def setMain (s : AccessState T) (phase : MainPhase) : AccessState T := { s with main := phase }

def setThread (s : AccessState T) (t : T) (phase : RequestPhase) : AccessState T :=
  { s with thread := Function.update s.thread t phase }

/-- The test of `m_handleRTS`, and what `mainThreadDenyPermanently` does when
there was no request to handle. Owns `m_mut`. -/
def handleRTS (s : AccessState T) (call : MainCall) : AccessState T :=
  if s.rts then
    { s with mainMessage := call.response, messageCall := s.call, main := .responded call }
  else if call = .mainThreadDenyPermanently then
    { s with mainMessage := .denySend, messageCall := s.call, main := .leaving }
  else { s with main := .leaving }

/-- The wait loop of `m_handleRTS` on `m_done`. Owns `m_mutDone`. -/
def checkDone (s : AccessState T) (call : MainCall) : AccessState T :=
  if s.done then { s with mainMessage := call.postCompletionState, main := .restored }
  else (s.unlockDone).setMain (.waiting call)

def mainStep (s : AccessState T) : Option (AccessState T) :=
  match s.main with
  | .outside => none
  | .wantMut call => (s.lockMut .main).map (·.setMain (.locked call))
  | .locked call => some (s.handleRTS call)
  | .leaving => some (s.unlockMut.setMain .outside)
  | .responded call => some (s.unlockMut.setMain (.wantDone call))
  | .wantDone call => (s.lockDone .main).map (·.setMain (.checking call))
  | .checking call => some (s.checkDone call)
  | .waiting call => some (s.setMain (.wantDone call))
  | .restored => some (s.unlockDone.setMain .outside)

/-- The nesting test and the first assignments of `request`. Owns `m_mut`. -/
def enterRequest (s : AccessState T) (t : T) (nested other : RequestPhase) : AccessState T :=
  if s.rts && s.currentRequestThread == some t then s.unlockMut.setThread t nested
  else { s with rts := true, done := false }.setThread t other

/-- The wait loop of `request` on the message. Owns both mutexes. -/
def testMessage (s : AccessState T) (t : T) : AccessState T :=
  match s.mainMessage with
  | .wait => s.unlockMut.setThread t .waiting
  | .clearToSend =>
      { s with currentRequestThread := some t }.setThread t (.holding (.granted s.messageCall))
  | .denySend => s.setThread t (.holding .denied)

/-- A nested request finds `m_mutDone` owned by its own thread. -/
def threadStep (s : AccessState T) (t : T) : Option (AccessState T) :=
  match s.thread t with
  | .outside => none
  | .wantMut => (s.lockMut (.thread t)).map (·.setThread t .entered)
  | .entered => some (s.enterRequest t .outside .wantDone)
  | .wantDone =>
      (s.lockDone (.thread t)).map fun s => { s with done := false }.setThread t .testing
  | .testing => some (s.testMessage t)
  | .waiting => some (s.setThread t .wantMutBack)
  | .wantMutBack => (s.lockMut (.thread t)).map (·.setThread t .testing)
  | .holding _ => none
  | .nestedEntered verdict => some (s.enterRequest t (.holding verdict) (.selfBlocked verdict))
  | .selfBlocked _ =>
      (s.lockDone (.thread t)).map fun s => { s with done := false }.setThread t .testing
  | .releasedMut _ => some (s.unlockDone.setThread t .outside)

/-- `RequestToSend::request` on an object without locks. A thread that owns
`m_mut` through an earlier object gets it again at once. -/
def beginRequest (s : AccessState T) (t : T) : Option (AccessState T) :=
  match s.thread t with
  | .outside => some (s.setThread t .wantMut)
  | .holding verdict =>
      (s.lockMut (.thread t)).map (·.setThread t (.nestedEntered verdict))
  | _ => none

/-- The destructor of an object that owns both locks, up to the release of `m_mut`. -/
def destroy (s : AccessState T) (t : T) : Option (AccessState T) :=
  match s.thread t with
  | .holding verdict =>
      some ({ s with rts := false, done := true, currentRequestThread := none }.unlockMut.setThread
        t (.releasedMut verdict))
  | _ => none

/-- A call of the main thread starts when the previous one has returned. -/
def beginCall (s : AccessState T) (kind : MainCall) : Option (AccessState T) :=
  match s.main with
  | .outside => some ({ s with call := s.call + 1 }.setMain (.wantMut kind))
  | _ => none

end AccessState

/-- One main thread and the threads of `T` on one `AsyncAccessControl`. -/
def accessControl (T : Type) [DecidableEq T] :
    TransitionSystem (AccessState T) (AccessLabel T) where
  init := .init
  step
    | .call kind, s => s.beginCall kind
    | .main, s => s.mainStep
    | .request t, s => s.beginRequest t
    | .thread t, s => s.threadStep t
    | .destroy t, s => s.destroy t

/-! ## Moves -/

/-- What one step can do, with the guard and the whole effect of each case. -/
inductive AccessMove {T : Type} [DecidableEq T] (s : AccessState T) :
    AccessLabel T → AccessState T → Prop
  | beginCall (kind : MainCall) (at_ : s.main = .outside) :
      AccessMove s (.call kind) { s with call := s.call + 1, main := .wantMut kind }
  | mainLock (call : MainCall) (m : RecursiveMutex (Agent T)) (at_ : s.main = .wantMut call)
      (lock : s.mainMut.lock .main = some m) :
      AccessMove s .main { s with mainMut := m, main := .locked call }
  | respond (call : MainCall) (at_ : s.main = .locked call) (rts : s.rts = true) :
      AccessMove s .main { s with
        mainMessage := call.response, messageCall := s.call, main := .responded call }
  | denyFuture (at_ : s.main = .locked .mainThreadDenyPermanently) (rts : s.rts = false) :
      AccessMove s .main { s with
        mainMessage := .denySend, messageCall := s.call, main := .leaving }
  | nothing (call : MainCall) (at_ : s.main = .locked call) (rts : s.rts = false)
      (other : call ≠ .mainThreadDenyPermanently) :
      AccessMove s .main { s with main := .leaving }
  | leave (at_ : s.main = .leaving) :
      AccessMove s .main { s with mainMut := s.mainMut.unlock, main := .outside }
  | release (call : MainCall) (at_ : s.main = .responded call) :
      AccessMove s .main { s with mainMut := s.mainMut.unlock, main := .wantDone call }
  | mainLockDone (call : MainCall) (m : Mutex (Agent T)) (at_ : s.main = .wantDone call)
      (lock : s.mutDone.lock .main = some m) :
      AccessMove s .main { s with mutDone := m, main := .checking call }
  | restore (call : MainCall) (at_ : s.main = .checking call) (done : s.done = true) :
      AccessMove s .main { s with mainMessage := call.postCompletionState, main := .restored }
  | mainWait (call : MainCall) (at_ : s.main = .checking call) (done : s.done = false) :
      AccessMove s .main { s with mutDone := .free, main := .waiting call }
  | mainWake (call : MainCall) (at_ : s.main = .waiting call) :
      AccessMove s .main { s with main := .wantDone call }
  | handled (at_ : s.main = .restored) :
      AccessMove s .main { s with mutDone := .free, main := .outside }
  | beginRequest (t : T) (at_ : s.thread t = .outside) :
      AccessMove s (.request t) { s with thread := Function.update s.thread t .wantMut }
  | requestLock (t : T) (m : RecursiveMutex (Agent T)) (at_ : s.thread t = .wantMut)
      (lock : s.mainMut.lock (.thread t) = some m) :
      AccessMove s (.thread t) { s with
        mainMut := m, thread := Function.update s.thread t .entered }
  | enteredNested (t : T) (at_ : s.thread t = .entered) (rts : s.rts = true)
      (current : s.currentRequestThread = some t) :
      AccessMove s (.thread t) { s with
        mainMut := s.mainMut.unlock, thread := Function.update s.thread t .outside }
  | enter (t : T) (at_ : s.thread t = .entered)
      (free : ¬ (s.rts = true ∧ s.currentRequestThread = some t)) :
      AccessMove s (.thread t) { s with
        rts := true, done := false, thread := Function.update s.thread t .wantDone }
  | requestLockDone (t : T) (m : Mutex (Agent T)) (at_ : s.thread t = .wantDone)
      (lock : s.mutDone.lock (.thread t) = some m) :
      AccessMove s (.thread t) { s with
        mutDone := m, done := false, thread := Function.update s.thread t .testing }
  | requestWait (t : T) (at_ : s.thread t = .testing) (message : s.mainMessage = .wait) :
      AccessMove s (.thread t) { s with
        mainMut := s.mainMut.unlock, thread := Function.update s.thread t .waiting }
  | grant (t : T) (at_ : s.thread t = .testing) (message : s.mainMessage = .clearToSend) :
      AccessMove s (.thread t) { s with
        currentRequestThread := some t
        thread := Function.update s.thread t (.holding (.granted s.messageCall)) }
  | deny (t : T) (at_ : s.thread t = .testing) (message : s.mainMessage = .denySend) :
      AccessMove s (.thread t) { s with thread := Function.update s.thread t (.holding .denied) }
  | requestWake (t : T) (at_ : s.thread t = .waiting) :
      AccessMove s (.thread t) { s with thread := Function.update s.thread t .wantMutBack }
  | relock (t : T) (m : RecursiveMutex (Agent T)) (at_ : s.thread t = .wantMutBack)
      (lock : s.mainMut.lock (.thread t) = some m) :
      AccessMove s (.thread t) { s with
        mainMut := m, thread := Function.update s.thread t .testing }
  | beginNested (t : T) (verdict : Verdict) (m : RecursiveMutex (Agent T))
      (at_ : s.thread t = .holding verdict) (lock : s.mainMut.lock (.thread t) = some m) :
      AccessMove s (.request t) { s with
        mainMut := m, thread := Function.update s.thread t (.nestedEntered verdict) }
  | nested (t : T) (verdict : Verdict) (at_ : s.thread t = .nestedEntered verdict)
      (rts : s.rts = true) (current : s.currentRequestThread = some t) :
      AccessMove s (.thread t) { s with
        mainMut := s.mainMut.unlock, thread := Function.update s.thread t (.holding verdict) }
  | enterBlocked (t : T) (verdict : Verdict) (at_ : s.thread t = .nestedEntered verdict)
      (free : ¬ (s.rts = true ∧ s.currentRequestThread = some t)) :
      AccessMove s (.thread t) { s with
        rts := true, done := false, thread := Function.update s.thread t (.selfBlocked verdict) }
  | selfLockDone (t : T) (verdict : Verdict) (m : Mutex (Agent T))
      (at_ : s.thread t = .selfBlocked verdict) (lock : s.mutDone.lock (.thread t) = some m) :
      AccessMove s (.thread t) { s with
        mutDone := m, done := false, thread := Function.update s.thread t .testing }
  | destroy (t : T) (verdict : Verdict) (at_ : s.thread t = .holding verdict) :
      AccessMove s (.destroy t) { s with
        rts := false, done := true, currentRequestThread := none, mainMut := s.mainMut.unlock
        thread := Function.update s.thread t (.releasedMut verdict) }
  | finish (t : T) (verdict : Verdict) (at_ : s.thread t = .releasedMut verdict) :
      AccessMove s (.thread t) { s with
        mutDone := .free, thread := Function.update s.thread t .outside }

namespace AccessMove

open AccessState

variable {T : Type} [DecidableEq T] {s after : AccessState T}

theorem of_mainStep (hstep : s.mainStep = some after) : AccessMove s .main after := by
  unfold mainStep at hstep
  split at hstep
  next => simp at hstep
  next call hmain =>
    simp only [lockMut, Option.map_map, Option.map_eq_some_iff] at hstep
    obtain ⟨m, hlock, rfl⟩ := hstep
    exact .mainLock call m hmain hlock
  next call hmain =>
    cases hstep
    unfold handleRTS
    split
    next hrts => exact .respond call hmain hrts
    next hrts =>
      split
      next hcall =>
        subst hcall
        exact .denyFuture hmain (by simpa using hrts)
      next hcall => exact .nothing call hmain (by simpa using hrts) hcall
  next hmain => cases hstep; exact .leave hmain
  next call hmain => cases hstep; exact .release call hmain
  next call hmain =>
    simp only [lockDone, Option.map_map, Option.map_eq_some_iff] at hstep
    obtain ⟨m, hlock, rfl⟩ := hstep
    exact .mainLockDone call m hmain hlock
  next call hmain =>
    cases hstep
    unfold checkDone
    split
    next hdone => exact .restore call hmain hdone
    next hdone => exact .mainWait call hmain (by simpa using hdone)
  next call hmain => cases hstep; exact .mainWake call hmain
  next hmain => cases hstep; exact .handled hmain

theorem of_threadStep {t : T} (hstep : s.threadStep t = some after) :
    AccessMove s (.thread t) after := by
  unfold threadStep at hstep
  split at hstep
  next => simp at hstep
  next hphase =>
    simp only [lockMut, Option.map_map, Option.map_eq_some_iff] at hstep
    obtain ⟨m, hlock, rfl⟩ := hstep
    exact .requestLock t m hphase hlock
  next hphase =>
    cases hstep
    unfold enterRequest
    split
    next hnested =>
      simp only [Bool.and_eq_true, beq_iff_eq] at hnested
      exact .enteredNested t hphase hnested.1 hnested.2
    next hfree => exact .enter t hphase (by simpa using hfree)
  next hphase =>
    simp only [lockDone, Option.map_map, Option.map_eq_some_iff] at hstep
    obtain ⟨m, hlock, rfl⟩ := hstep
    exact .requestLockDone t m hphase hlock
  next hphase =>
    cases hstep
    unfold testMessage
    split
    next hmessage => exact .requestWait t hphase hmessage
    next hmessage => exact .grant t hphase hmessage
    next hmessage => exact .deny t hphase hmessage
  next hphase => cases hstep; exact .requestWake t hphase
  next hphase =>
    simp only [lockMut, Option.map_map, Option.map_eq_some_iff] at hstep
    obtain ⟨m, hlock, rfl⟩ := hstep
    exact .relock t m hphase hlock
  next => simp at hstep
  next verdict hphase =>
    cases hstep
    unfold enterRequest
    split
    next hnested =>
      simp only [Bool.and_eq_true, beq_iff_eq] at hnested
      exact .nested t verdict hphase hnested.1 hnested.2
    next hfree => exact .enterBlocked t verdict hphase (by simpa using hfree)
  next verdict hphase =>
    simp only [lockDone, Option.map_map, Option.map_eq_some_iff] at hstep
    obtain ⟨m, hlock, rfl⟩ := hstep
    exact .selfLockDone t verdict m hphase hlock
  next verdict hphase => cases hstep; exact .finish t verdict hphase

/-- Every step of the system is one of the moves. -/
theorem of_step {label : AccessLabel T} (hstep : (accessControl T).step label s = some after) :
    AccessMove s label after := by
  cases label with
  | call kind =>
      simp only [accessControl, AccessState.beginCall] at hstep
      split at hstep
      next hmain => cases hstep; exact .beginCall kind hmain
      next => simp at hstep
  | main => exact of_mainStep hstep
  | request t =>
      simp only [accessControl, AccessState.beginRequest] at hstep
      split at hstep
      next hphase => cases hstep; exact .beginRequest t hphase
      next verdict hphase =>
        simp only [lockMut, Option.map_map, Option.map_eq_some_iff] at hstep
        obtain ⟨m, hlock, rfl⟩ := hstep
        exact .beginNested t verdict m hphase hlock
      next => simp at hstep
  | thread t => exact of_threadStep hstep
  | destroy t =>
      simp only [accessControl, AccessState.destroy] at hstep
      split at hstep
      next verdict hphase => cases hstep; exact .destroy t verdict hphase
      next => simp at hstep

end AccessMove
end OSVR.Connection
