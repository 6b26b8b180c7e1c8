/-
# The two mutexes of the server

`m_runControl` guards the state of the run loop, and `m_mainThreadMutex` is held
by whoever executes in the main thread. `m_callControlled` takes them in this
order. The loop thread takes them in the other order when a handler that
`m_update` dispatches goes through `m_callControlled`, and `stop` waits for the
loop with `m_runControl` in hand.

One step is one lock operation with the local code around it. What the called
functions do to the tree is not part of this model. `Agent.main` is the thread
that runs `m_loop`; a server that was never started has none.
-/

import OsvrCore.Math.Mutex
import OsvrCore.Math.Transition
import OsvrCore.Math.WaitGraph

set_option autoImplicit false

namespace OSVR.Server

open Math

/-- What a thread other than the loop thread can call. `callControlled` stands for
`addRoute`, `addAlias`, `addExternalDevice` and the others that go through it. -/
inductive Operation
  | callControlled
  | stop
  | signalStop
  | update
  deriving DecidableEq, Repr

/-- Where the loop thread stands. `handlerWait` is a handler dispatched by
`m_update` that is blocked on `m_runControl`, and `handlerCall` one that got it.
`slept` is the end of `m_loop` with its result. -/
inductive LoopPhase
  | absent
  | wantMain
  | updating
  | handlerWait
  | handlerCall
  | slept (shouldContinue : Bool)
  | destructed
  | reported
  | finished
  deriving DecidableEq, Repr

/-- Where another thread stands. From `wantMain` on it owns `m_runControl`;
`called` runs the callable, with `m_mainThreadMutex` if the loop was running. -/
inductive ThreadPhase
  | outside
  | wantControl (operation : Operation)
  | wantMain
  | called (withMain : Bool)
  | shuttingDown
  | joining
  | updating
  | handlerWait
  | leaving
  deriving DecidableEq, Repr

/-- The members of `ServerImpl` and of its run loop manager that the lock
protocol reads, with the phases of all threads. -/
structure ControlState (T : Type) where
  runControl : Mutex (Agent T)
  mainThreadMutex : Mutex (Agent T)
  everStarted : Bool
  running : Bool
  shouldStop : Bool
  stopped : Bool
  loop : LoopPhase
  thread : T → ThreadPhase

/-- What the scheduler and the environment choose: whether a dispatched handler
goes through `m_callControlled` is up to the messages that arrive. -/
inductive ControlLabel (T : Type)
  | loop
  | loopHandler
  | call (t : T) (operation : Operation)
  | thread (t : T)
  | threadHandler (t : T)
  deriving DecidableEq

namespace ControlState

variable {T : Type} [DecidableEq T]

/-- A constructed server; with `started`, one whose `start` has returned. -/
def init (started : Bool) : ControlState T where
  runControl := .free
  mainThreadMutex := .free
  everStarted := started
  running := started
  shouldStop := false
  stopped := !started
  loop := if started then .wantMain else .absent
  thread _ := .outside

def setLoop (s : ControlState T) (phase : LoopPhase) : ControlState T := { s with loop := phase }

def setThread (s : ControlState T) (t : T) (phase : ThreadPhase) : ControlState T :=
  { s with thread := Function.update s.thread t phase }

/-- Acquire `m_runControl`; `none` while any thread owns it. -/
def lockControl (s : ControlState T) (agent : Agent T) : Option (ControlState T) :=
  (s.runControl.lock agent).map fun m => { s with runControl := m }

/-- Acquire `m_mainThreadMutex`; `none` while any thread owns it. -/
def lockMain (s : ControlState T) (agent : Agent T) : Option (ControlState T) :=
  (s.mainThreadMutex.lock agent).map fun m => { s with mainThreadMutex := m }

def unlockControl (s : ControlState T) : ControlState T := { s with runControl := .free }

def unlockMain (s : ControlState T) : ControlState T := { s with mainThreadMutex := .free }

/-- The body of the server thread around `m_loop`. -/
def loopStep (s : ControlState T) : Option (ControlState T) :=
  match s.loop with
  | .absent => none
  | .wantMain => (s.lockMain .main).map (·.setLoop .updating)
  | .updating => some (s.unlockMain.setLoop (.slept (!s.shouldStop)))
  | .handlerWait => (s.lockControl .main).map (·.setLoop .handlerCall)
  | .handlerCall => some (s.unlockControl.setLoop .updating)
  | .slept shouldContinue =>
      if shouldContinue then some (s.setLoop .wantMain)
      else some ({ s with running := false }.setLoop .destructed)
  | .destructed => some ({ s with stopped := true }.setLoop .reported)
  | .reported => some (s.setLoop .finished)
  | .finished => none

/-- `m_update` dispatches a handler that goes through `m_callControlled`. -/
def loopHandler (s : ControlState T) : Option (ControlState T) :=
  match s.loop with
  | .updating => some (s.setLoop .handlerWait)
  | _ => none

/-- What each operation does once it owns `m_runControl`. -/
def begin (s : ControlState T) (t : T) : Operation → ControlState T
  | .callControlled => s.setThread t (if s.running then .wantMain else .called false)
  | .stop =>
      if s.everStarted then { s with shouldStop := true }.setThread t .shuttingDown
      else s.setThread t .leaving
  | .signalStop => { s with shouldStop := true }.setThread t .leaving
  | .update => s.setThread t (if s.everStarted then .leaving else .updating)

def threadStep (s : ControlState T) (t : T) : Option (ControlState T) :=
  match s.thread t with
  | .outside => none
  | .wantControl operation => (s.lockControl (.thread t)).map (·.begin t operation)
  | .wantMain => (s.lockMain (.thread t)).map (·.setThread t (.called true))
  | .called withMain => some ((if withMain then s.unlockMain else s).setThread t .leaving)
  | .shuttingDown => if s.stopped then some (s.setThread t .joining) else none
  | .joining => if s.loop = .finished then some (s.setThread t .leaving) else none
  | .updating => some (s.setThread t .leaving)
  | .handlerWait => (s.lockControl (.thread t)).map (·.setThread t (.called false))
  | .leaving => some (s.unlockControl.setThread t .outside)

/-- As `loopHandler`, for an `m_update` that `update` runs. -/
def threadHandler (s : ControlState T) (t : T) : Option (ControlState T) :=
  match s.thread t with
  | .updating => some (s.setThread t .handlerWait)
  | _ => none

def call (s : ControlState T) (t : T) (operation : Operation) : Option (ControlState T) :=
  match s.thread t with
  | .outside => some (s.setThread t (.wantControl operation))
  | _ => none

end ControlState

/-- One server and the threads of `T` that call it. -/
def serverControl (T : Type) [DecidableEq T] (started : Bool) :
    TransitionSystem (ControlState T) (ControlLabel T) where
  init := .init started
  step
    | .loop, s => s.loopStep
    | .loopHandler, s => s.loopHandler
    | .call t operation, s => s.call t operation
    | .thread t, s => s.threadStep t
    | .threadHandler t, s => s.threadHandler t

/-! ## Moves -/

/-- What one step can do, with the guard and the whole effect of each case. -/
inductive ControlMove {T : Type} [DecidableEq T] (s : ControlState T) :
    ControlLabel T → ControlState T → Prop
  | loopLock (m : Mutex (Agent T)) (at_ : s.loop = .wantMain)
      (lock : s.mainThreadMutex.lock .main = some m) :
      ControlMove s .loop { s with mainThreadMutex := m, loop := .updating }
  | updated (at_ : s.loop = .updating) :
      ControlMove s .loop { s with mainThreadMutex := .free, loop := .slept (!s.shouldStop) }
  | handlerLock (m : Mutex (Agent T)) (at_ : s.loop = .handlerWait)
      (lock : s.runControl.lock .main = some m) :
      ControlMove s .loop { s with runControl := m, loop := .handlerCall }
  | handlerDone (at_ : s.loop = .handlerCall) :
      ControlMove s .loop { s with runControl := .free, loop := .updating }
  | again (at_ : s.loop = .slept true) : ControlMove s .loop { s with loop := .wantMain }
  | destruct (at_ : s.loop = .slept false) :
      ControlMove s .loop { s with running := false, loop := .destructed }
  | report (at_ : s.loop = .destructed) :
      ControlMove s .loop { s with stopped := true, loop := .reported }
  | exit (at_ : s.loop = .reported) : ControlMove s .loop { s with loop := .finished }
  | handler (at_ : s.loop = .updating) : ControlMove s .loopHandler { s with loop := .handlerWait }
  | call (t : T) (operation : Operation) (at_ : s.thread t = .outside) :
      ControlMove s (.call t operation) { s with
        thread := Function.update s.thread t (.wantControl operation) }
  | enterCall (t : T) (m : Mutex (Agent T)) (at_ : s.thread t = .wantControl .callControlled)
      (lock : s.runControl.lock (.thread t) = some m) (running : s.running = true) :
      ControlMove s (.thread t) { s with
        runControl := m, thread := Function.update s.thread t .wantMain }
  | enterDirect (t : T) (m : Mutex (Agent T)) (at_ : s.thread t = .wantControl .callControlled)
      (lock : s.runControl.lock (.thread t) = some m) (running : s.running = false) :
      ControlMove s (.thread t) { s with
        runControl := m, thread := Function.update s.thread t (.called false) }
  | enterStop (t : T) (m : Mutex (Agent T)) (at_ : s.thread t = .wantControl .stop)
      (lock : s.runControl.lock (.thread t) = some m) (started : s.everStarted = true) :
      ControlMove s (.thread t) { s with
        runControl := m, shouldStop := true, thread := Function.update s.thread t .shuttingDown }
  | stopUnstarted (t : T) (m : Mutex (Agent T)) (at_ : s.thread t = .wantControl .stop)
      (lock : s.runControl.lock (.thread t) = some m) (started : s.everStarted = false) :
      ControlMove s (.thread t) { s with
        runControl := m, thread := Function.update s.thread t .leaving }
  | signal (t : T) (m : Mutex (Agent T)) (at_ : s.thread t = .wantControl .signalStop)
      (lock : s.runControl.lock (.thread t) = some m) :
      ControlMove s (.thread t) { s with
        runControl := m, shouldStop := true, thread := Function.update s.thread t .leaving }
  | updateThrows (t : T) (m : Mutex (Agent T)) (at_ : s.thread t = .wantControl .update)
      (lock : s.runControl.lock (.thread t) = some m) (started : s.everStarted = true) :
      ControlMove s (.thread t) { s with
        runControl := m, thread := Function.update s.thread t .leaving }
  | enterUpdate (t : T) (m : Mutex (Agent T)) (at_ : s.thread t = .wantControl .update)
      (lock : s.runControl.lock (.thread t) = some m) (started : s.everStarted = false) :
      ControlMove s (.thread t) { s with
        runControl := m, thread := Function.update s.thread t .updating }
  | callLock (t : T) (m : Mutex (Agent T)) (at_ : s.thread t = .wantMain)
      (lock : s.mainThreadMutex.lock (.thread t) = some m) :
      ControlMove s (.thread t) { s with
        mainThreadMutex := m, thread := Function.update s.thread t (.called true) }
  | callDone (t : T) (at_ : s.thread t = .called true) :
      ControlMove s (.thread t) { s with
        mainThreadMutex := .free, thread := Function.update s.thread t .leaving }
  | directDone (t : T) (at_ : s.thread t = .called false) :
      ControlMove s (.thread t) { s with thread := Function.update s.thread t .leaving }
  | awaitJoin (t : T) (at_ : s.thread t = .shuttingDown) (stopped : s.stopped = true) :
      ControlMove s (.thread t) { s with thread := Function.update s.thread t .joining }
  | join (t : T) (at_ : s.thread t = .joining) (finished : s.loop = .finished) :
      ControlMove s (.thread t) { s with thread := Function.update s.thread t .leaving }
  | updateDone (t : T) (at_ : s.thread t = .updating) :
      ControlMove s (.thread t) { s with thread := Function.update s.thread t .leaving }
  | selfLock (t : T) (m : Mutex (Agent T)) (at_ : s.thread t = .handlerWait)
      (lock : s.runControl.lock (.thread t) = some m) :
      ControlMove s (.thread t) { s with
        runControl := m, thread := Function.update s.thread t (.called false) }
  | leave (t : T) (at_ : s.thread t = .leaving) :
      ControlMove s (.thread t) { s with
        runControl := .free, thread := Function.update s.thread t .outside }
  | updateHandler (t : T) (at_ : s.thread t = .updating) :
      ControlMove s (.threadHandler t) { s with
        thread := Function.update s.thread t .handlerWait }

namespace ControlMove

open ControlState

variable {T : Type} [DecidableEq T] {s after : ControlState T}

theorem of_loopStep (hstep : s.loopStep = some after) : ControlMove s .loop after := by
  unfold loopStep at hstep
  split at hstep
  next => simp at hstep
  next hloop =>
    simp only [lockMain, Option.map_map, Option.map_eq_some_iff] at hstep
    obtain ⟨m, hlock, rfl⟩ := hstep
    exact .loopLock m hloop hlock
  next hloop => cases hstep; exact .updated hloop
  next hloop =>
    simp only [lockControl, Option.map_map, Option.map_eq_some_iff] at hstep
    obtain ⟨m, hlock, rfl⟩ := hstep
    exact .handlerLock m hloop hlock
  next hloop => cases hstep; exact .handlerDone hloop
  next shouldContinue hloop =>
    cases shouldContinue with
    | true => cases hstep; exact .again hloop
    | false => cases hstep; exact .destruct hloop
  next hloop => cases hstep; exact .report hloop
  next hloop => cases hstep; exact .exit hloop
  next => simp at hstep

/-- Each operation, once it owns `m_runControl`. -/
theorem of_begin {t : T} {operation : Operation} {m : Mutex (Agent T)}
    (hphase : s.thread t = .wantControl operation)
    (hlock : s.runControl.lock (.thread t) = some m) :
    ControlMove s (.thread t) ({ s with runControl := m }.begin t operation) := by
  cases operation with
  | callControlled =>
      cases hrunning : s.running with
      | true => simpa [ControlState.begin, setThread, hrunning]
          using enterCall t m hphase hlock hrunning
      | false => simpa [ControlState.begin, setThread, hrunning]
          using enterDirect t m hphase hlock hrunning
  | stop =>
      cases hstarted : s.everStarted with
      | true => simpa [ControlState.begin, setThread, hstarted]
          using enterStop t m hphase hlock hstarted
      | false => simpa [ControlState.begin, setThread, hstarted]
          using stopUnstarted t m hphase hlock hstarted
  | signalStop => exact signal t m hphase hlock
  | update =>
      cases hstarted : s.everStarted with
      | true => simpa [ControlState.begin, setThread, hstarted]
          using updateThrows t m hphase hlock hstarted
      | false => simpa [ControlState.begin, setThread, hstarted]
          using enterUpdate t m hphase hlock hstarted

theorem of_threadStep {t : T} (hstep : s.threadStep t = some after) :
    ControlMove s (.thread t) after := by
  unfold threadStep at hstep
  split at hstep
  next => simp at hstep
  next operation hphase =>
    simp only [lockControl, Option.map_map, Option.map_eq_some_iff] at hstep
    obtain ⟨m, hlock, rfl⟩ := hstep
    exact of_begin hphase hlock
  next hphase =>
    simp only [lockMain, Option.map_map, Option.map_eq_some_iff] at hstep
    obtain ⟨m, hlock, rfl⟩ := hstep
    exact .callLock t m hphase hlock
  next withMain hphase =>
    cases withMain with
    | true => cases hstep; exact .callDone t hphase
    | false => cases hstep; exact .directDone t hphase
  next hphase =>
    simp only [Option.ite_none_right_eq_some, Option.some.injEq] at hstep
    obtain ⟨hstopped, rfl⟩ := hstep
    exact .awaitJoin t hphase hstopped
  next hphase =>
    simp only [Option.ite_none_right_eq_some, Option.some.injEq] at hstep
    obtain ⟨hfinished, rfl⟩ := hstep
    exact .join t hphase hfinished
  next hphase => cases hstep; exact .updateDone t hphase
  next hphase =>
    simp only [lockControl, Option.map_map, Option.map_eq_some_iff] at hstep
    obtain ⟨m, hlock, rfl⟩ := hstep
    exact .selfLock t m hphase hlock
  next hphase => cases hstep; exact .leave t hphase

/-- Every step of the system is one of the moves. -/
theorem of_step {started : Bool} {label : ControlLabel T}
    (hstep : (serverControl T started).step label s = some after) : ControlMove s label after := by
  cases label with
  | loop => exact of_loopStep hstep
  | loopHandler =>
      simp only [serverControl, ControlState.loopHandler] at hstep
      split at hstep
      next hloop => cases hstep; exact .handler hloop
      next => simp at hstep
  | call t operation =>
      simp only [serverControl, ControlState.call] at hstep
      split at hstep
      next hphase => cases hstep; exact .call t operation hphase
      next => simp at hstep
  | thread t => exact of_threadStep hstep
  | threadHandler t =>
      simp only [serverControl, ControlState.threadHandler] at hstep
      split at hstep
      next hphase => cases hstep; exact .updateHandler t hphase
      next => simp at hstep

end ControlMove

/-! ## Ownership -/

namespace LoopPhase

def ownsControl : LoopPhase → Bool
  | handlerCall => true
  | absent | wantMain | updating | handlerWait | slept _ | destructed | reported | finished => false

def ownsMain : LoopPhase → Bool
  | updating | handlerWait | handlerCall => true
  | absent | wantMain | slept _ | destructed | reported | finished => false

/-- `m_running` is still set. -/
def running : LoopPhase → Bool
  | wantMain | updating | handlerWait | handlerCall | slept _ => true
  | absent | destructed | reported | finished => false

/-- The run loop manager reports a stopped loop. -/
def stopped : LoopPhase → Bool
  | absent | reported | finished => true
  | wantMain | updating | handlerWait | handlerCall | slept _ | destructed => false

end LoopPhase

namespace ThreadPhase

def ownsControl : ThreadPhase → Bool
  | wantMain | called _ | shuttingDown | joining | updating | handlerWait | leaving => true
  | outside | wantControl _ => false

def ownsMain : ThreadPhase → Bool
  | called withMain => withMain
  | outside | wantControl _ | wantMain | shuttingDown | joining | updating | handlerWait
  | leaving => false

/-- The thread keeps `m_runControl` until the loop thread has done something. -/
def needsLoop : ThreadPhase → Bool
  | wantMain | shuttingDown => true
  | outside | wantControl _ | called _ | joining | updating | handlerWait | leaving => false

/-- The thread will need the loop as soon as it owns `m_runControl`. -/
def entersLoop : ThreadPhase → Bool
  | wantControl .callControlled | wantControl .stop => true
  | outside | wantControl .signalStop | wantControl .update | wantMain | called _ | shuttingDown
  | joining | updating | handlerWait | leaving => false

theorem ownsControl_of_needsLoop {phase : ThreadPhase} (h : phase.needsLoop = true) :
    phase.ownsControl = true := by
  cases phase <;> simp_all [needsLoop, ownsControl]

end ThreadPhase

namespace ControlState

variable {T : Type} [DecidableEq T] {s after : ControlState T} {label : ControlLabel T}

/-- The mutexes and the flags agree with the program counters. -/
structure Owned (s : ControlState T) : Prop where
  runControl : s.runControl.Agrees
    (Agent.read LoopPhase.ownsControl ThreadPhase.ownsControl s.loop s.thread)
  mainThreadMutex : s.mainThreadMutex.Agrees
    (Agent.read LoopPhase.ownsMain ThreadPhase.ownsMain s.loop s.thread)
  running : s.running = s.loop.running
  stopped : s.stopped = s.loop.stopped
  started : s.everStarted = true ↔ s.loop ≠ .absent
  joining : ∀ t, s.thread t = .joining → s.everStarted = true ∧ s.stopped = true
  shuttingDown : ∀ t, s.thread t = .shuttingDown → s.everStarted = true

omit [DecidableEq T] in
/-- The handler of an `update` that goes through `m_callControlled` never gets
the mutex its own thread owns. -/
theorem Owned.not_selfLock (h : s.Owned) {t : T} {m : Mutex (Agent T)}
    (hphase : s.thread t = .handlerWait) : s.runControl.lock (.thread t) ≠ some m := by
  have howner := (h.runControl (.thread t)).mpr (by simp [hphase, ThreadPhase.ownsControl])
  simp [Mutex.lock, howner]

theorem Owned.move_runControl (h : s.Owned) (hmove : ControlMove s label after) :
    after.runControl.Agrees
      (Agent.read LoopPhase.ownsControl ThreadPhase.ownsControl after.loop after.thread) := by
  have hcontrol := h.runControl
  cases hmove
  all_goals first | rw [Agent.read_update] | rw [Agent.read_next _ _ s.loop]
  case handlerLock lock | enterCall lock _ | enterDirect lock _ | enterStop lock _ |
      stopUnstarted lock _ | signal lock | updateThrows lock _ | enterUpdate lock _ =>
    exact hcontrol.lock lock
  case selfLock at_ lock => exact absurd lock (h.not_selfLock at_)
  case handlerDone at_ => exact hcontrol.free (by simp [at_, LoopPhase.ownsControl])
  case leave at_ => exact hcontrol.free (by simp [at_, ThreadPhase.ownsControl])
  all_goals exact hcontrol.keep (by simp [*, LoopPhase.ownsControl, ThreadPhase.ownsControl])

theorem Owned.move_mainThreadMutex (h : s.Owned) (hmove : ControlMove s label after) :
    after.mainThreadMutex.Agrees
      (Agent.read LoopPhase.ownsMain ThreadPhase.ownsMain after.loop after.thread) := by
  have hmain := h.mainThreadMutex
  cases hmove
  all_goals first | rw [Agent.read_update] | rw [Agent.read_next _ _ s.loop]
  case loopLock lock | callLock lock => exact hmain.lock lock
  case updated at_ => exact hmain.free (by simp [at_, LoopPhase.ownsMain])
  case callDone at_ => exact hmain.free (by simp [at_, ThreadPhase.ownsMain])
  all_goals exact hmain.keep (by simp [*, LoopPhase.ownsMain, ThreadPhase.ownsMain])

theorem Owned.move (h : s.Owned) (hmove : ControlMove s label after) : after.Owned where
  runControl := h.move_runControl hmove
  mainThreadMutex := h.move_mainThreadMutex hmove
  running := by
    have hrunning := h.running
    cases hmove <;> simp_all [LoopPhase.running]
  stopped := by
    have hstopped := h.stopped
    cases hmove <;> simp_all [LoopPhase.stopped]
  started := by
    have hstarted := h.started
    cases hmove <;> simp_all
  joining t hphase := by
    have hjoining := h.joining t
    have hdown := h.shuttingDown t
    cases hmove <;> simp only [Function.update_apply] at hphase <;> grind
  shuttingDown t hphase := by
    have hdown := h.shuttingDown t
    cases hmove <;> simp only [Function.update_apply] at hphase <;> grind

omit [DecidableEq T] in
theorem owned_init (started : Bool) : (init started : ControlState T).Owned where
  runControl agent := by
    rcases agent with _ | t <;>
      cases started <;> simp [init, LoopPhase.ownsControl, ThreadPhase.ownsControl]
  mainThreadMutex agent := by
    rcases agent with _ | t <;>
      cases started <;> simp [init, LoopPhase.ownsMain, ThreadPhase.ownsMain]
  running := by cases started <;> rfl
  stopped := by cases started <;> rfl
  started := by cases started <;> simp [init]
  joining := by simp [init]
  shuttingDown := by simp [init]

theorem owned_invariant (started : Bool) :
    (serverControl T started).Invariant (fun _ _ => True) Owned where
  init := owned_init started
  step h _ hstep := h.move (ControlMove.of_step hstep)

end ControlState

/-! ## Waiting -/

/-- What a blocked thread waits for. -/
inductive Blocker
  | runControl
  | mainThreadMutex
  | shutdown
  | loopThread
  deriving DecidableEq, Repr

namespace LoopPhase

def awaits : LoopPhase → Option Blocker
  | wantMain => some .mainThreadMutex
  | handlerWait => some .runControl
  | absent | updating | handlerCall | slept _ | destructed | reported | finished => none

/-- Distance from a step that somebody can take. -/
def rank : LoopPhase → ℕ
  | wantMain | handlerWait => 1
  | absent | updating | handlerCall | slept _ | destructed | reported | finished => 0

theorem rank_le (phase : LoopPhase) : phase.rank ≤ 1 := by
  cases phase <;> simp [rank]

end LoopPhase

namespace ThreadPhase

def awaits : ThreadPhase → Option Blocker
  | wantControl _ | handlerWait => some .runControl
  | wantMain => some .mainThreadMutex
  | shuttingDown => some .shutdown
  | joining => some .loopThread
  | outside | called _ | updating | leaving => none

/-- Distance from a step that somebody can take. -/
def rank : ThreadPhase → ℕ
  | outside | called _ | updating | handlerWait | leaving => 0
  | wantMain => 2
  | shuttingDown | joining => 3
  | wantControl _ => 4

theorem rank_lt_of_ownsControl {phase : ThreadPhase} (h : phase.ownsControl = true) :
    phase.rank < 4 := by
  cases phase <;> simp_all [rank, ownsControl]

theorem rank_of_ownsMain {phase : ThreadPhase} (h : phase.ownsMain = true) : phase.rank = 0 := by
  cases phase <;> simp_all [rank, ownsMain]

end ThreadPhase

namespace ControlState

variable {T : Type} {s after : ControlState T} {label : ControlLabel T}

/-- Blocked threads, and those that can end each wait. Only a loop thread that
exists and has not ended can report its end. -/
def waitGraph (s : ControlState T) : WaitGraph (Agent T) where
  blocked agent :=
    match Agent.read LoopPhase.awaits ThreadPhase.awaits s.loop s.thread agent with
    | some .runControl => s.runControl.lock agent = none
    | some .mainThreadMutex => s.mainThreadMutex.lock agent = none
    | some .shutdown => s.stopped = false
    | some .loopThread => s.loop ≠ .finished
    | none => False
  releases releaser agent :=
    match Agent.read LoopPhase.awaits ThreadPhase.awaits s.loop s.thread agent with
    | some .runControl => s.runControl.owner = some releaser
    | some .mainThreadMutex => s.mainThreadMutex.owner = some releaser
    | some .shutdown | some .loopThread =>
        releaser = .main ∧ s.loop ≠ .absent ∧ s.loop ≠ .finished
    | none => False

/-- A handler on the loop thread waits for `m_runControl` while another thread
keeps that and waits for the loop thread, or a handler of `update` waits for the
mutex `update` itself holds. -/
def Entangled (s : ControlState T) : Prop :=
  (s.loop = .handlerWait ∧ ∃ t, (s.thread t).needsLoop = true) ∨ ∃ t, s.thread t = .handlerWait

def rank (s : ControlState T) : Agent T → ℕ :=
  Agent.read LoopPhase.rank ThreadPhase.rank s.loop s.thread

/-- Without entanglement, the thread that keeps a handler of the loop waiting can step. -/
theorem Owned.rank_of_not_entangled (h : s.Owned) (hfree : ¬ s.Entangled)
    (hloop : s.loop = .handlerWait) {t : T} (howns : (s.thread t).ownsControl = true) :
    (s.thread t).rank = 0 := by
  have hstopped : s.stopped = false := by rw [h.stopped, hloop]; rfl
  have hjoining := h.joining t
  simp only [Entangled, hloop, true_and, not_or, not_exists] at hfree
  have hneeds := hfree.1 t
  cases hphase : s.thread t <;>
    simp_all [ThreadPhase.ownsControl, ThreadPhase.rank, ThreadPhase.needsLoop]

theorem Owned.live_of_not_stopped (h : s.Owned) (hstopped : s.stopped = false) :
    s.loop ≠ .absent ∧ s.loop ≠ .finished := by
  rw [h.stopped] at hstopped
  constructor <;> intro hloop <;> simp [hloop, LoopPhase.stopped] at hstopped

theorem Owned.loop_descends (h : s.Owned) (hfree : ¬ s.Entangled)
    (hblocked : s.waitGraph.blocked .main) :
    ∃ releaser, s.waitGraph.releases releaser .main ∧ s.rank releaser < s.rank .main := by
  cases hloop : s.loop with
  | wantMain =>
      have hrank : s.rank .main = 1 := by simp [rank, hloop, LoopPhase.rank]
      simp only [waitGraph, Agent.read_main, hloop, LoopPhase.awaits] at hblocked ⊢
      obtain ⟨owner, howner⟩ := Mutex.lock_eq_none_iff.mp hblocked
      have howns := (h.mainThreadMutex owner).mp howner
      cases owner with
      | main => simp [hloop, LoopPhase.ownsMain] at howns
      | thread t =>
          have hzero : s.rank (.thread t) = 0 := ThreadPhase.rank_of_ownsMain howns
          exact ⟨.thread t, howner, by omega⟩
  | handlerWait =>
      have hrank : s.rank .main = 1 := by simp [rank, hloop, LoopPhase.rank]
      simp only [waitGraph, Agent.read_main, hloop, LoopPhase.awaits] at hblocked ⊢
      obtain ⟨owner, howner⟩ := Mutex.lock_eq_none_iff.mp hblocked
      have howns := (h.runControl owner).mp howner
      cases owner with
      | main => simp [hloop, LoopPhase.ownsControl] at howns
      | thread t =>
          have hzero : s.rank (.thread t) = 0 := h.rank_of_not_entangled hfree hloop howns
          exact ⟨.thread t, howner, by omega⟩
  | _ => simp [waitGraph, hloop, LoopPhase.awaits] at hblocked

theorem Owned.thread_descends (h : s.Owned) (hfree : ¬ s.Entangled) {t : T}
    (hblocked : s.waitGraph.blocked (.thread t)) :
    ∃ releaser, s.waitGraph.releases releaser (.thread t) ∧
    s.rank releaser < s.rank (.thread t) := by
  have hloop : s.rank .main ≤ 1 := s.loop.rank_le
  cases hphase : s.thread t with
  | wantControl operation =>
      have hrank : s.rank (.thread t) = 4 := by simp [rank, hphase, ThreadPhase.rank]
      simp only [waitGraph, Agent.read_thread, hphase, ThreadPhase.awaits] at hblocked ⊢
      obtain ⟨owner, howner⟩ := Mutex.lock_eq_none_iff.mp hblocked
      have howns := (h.runControl owner).mp howner
      cases owner with
      | main => exact ⟨.main, howner, by omega⟩
      | thread u =>
          have hlt : s.rank (.thread u) < 4 := ThreadPhase.rank_lt_of_ownsControl howns
          exact ⟨.thread u, howner, by omega⟩
  | wantMain =>
      have hrank : s.rank (.thread t) = 2 := by simp [rank, hphase, ThreadPhase.rank]
      simp only [waitGraph, Agent.read_thread, hphase, ThreadPhase.awaits] at hblocked ⊢
      obtain ⟨owner, howner⟩ := Mutex.lock_eq_none_iff.mp hblocked
      have howns := (h.mainThreadMutex owner).mp howner
      cases owner with
      | main => exact ⟨.main, howner, by omega⟩
      | thread u =>
          have hzero : s.rank (.thread u) = 0 := ThreadPhase.rank_of_ownsMain howns
          exact ⟨.thread u, howner, by omega⟩
  | shuttingDown =>
      have hrank : s.rank (.thread t) = 3 := by simp [rank, hphase, ThreadPhase.rank]
      have hlive := h.live_of_not_stopped
      simp only [waitGraph, Agent.read_thread, hphase, ThreadPhase.awaits] at hblocked ⊢
      exact ⟨.main, ⟨rfl, hlive hblocked⟩, by omega⟩
  | joining =>
      have hrank : s.rank (.thread t) = 3 := by simp [rank, hphase, ThreadPhase.rank]
      have hstarted := h.started.mp (h.joining t hphase).1
      simp only [waitGraph, Agent.read_thread, hphase, ThreadPhase.awaits] at hblocked ⊢
      exact ⟨.main, ⟨rfl, hstarted, hblocked⟩, by omega⟩
  | handlerWait => exact absurd (.inr ⟨t, hphase⟩) hfree
  | _ => simp [waitGraph, hphase, ThreadPhase.awaits] at hblocked

theorem Owned.deadlocked_of_needsLoop (h : s.Owned) (hloop : s.loop = .handlerWait) {t : T}
    (ht : (s.thread t).needsLoop = true) : s.waitGraph.Deadlocked := by
  have hcontrol : s.runControl.owner = some (.thread t) :=
    (h.runControl (.thread t)).mpr (ThreadPhase.ownsControl_of_needsLoop ht)
  have hmain : s.mainThreadMutex.owner = some .main :=
    (h.mainThreadMutex .main).mpr (by simp [hloop, LoopPhase.ownsMain])
  refine WaitGraph.deadlocked_pair .main (.thread t) ?_ ?_ ?_ ?_
  · simp [waitGraph, hloop, LoopPhase.awaits, Mutex.lock, hcontrol]
  · have hstopped : s.stopped = false := by rw [h.stopped, hloop]; rfl
    cases hphase : s.thread t <;> simp_all [ThreadPhase.needsLoop]
    · simp [waitGraph, hphase, ThreadPhase.awaits, Mutex.lock, hmain]
    · simp [waitGraph, hphase, ThreadPhase.awaits, hstopped]
  · intro releaser hreleases
    simp only [waitGraph, Agent.read_main, hloop, LoopPhase.awaits, hcontrol, Option.some.injEq]
      at hreleases
    exact hreleases.symm
  · intro releaser hreleases
    cases hphase : s.thread t <;> simp_all [ThreadPhase.needsLoop]
    · simp only [waitGraph, Agent.read_thread, hphase, ThreadPhase.awaits, hmain,
        Option.some.injEq] at hreleases
      exact hreleases.symm
    · simp only [waitGraph, Agent.read_thread, hphase, ThreadPhase.awaits] at hreleases
      exact hreleases.1

theorem Owned.deadlocked_of_handlerWait (h : s.Owned) {t : T} (ht : s.thread t = .handlerWait) :
    s.waitGraph.Deadlocked := by
  have hcontrol : s.runControl.owner = some (.thread t) :=
    (h.runControl (.thread t)).mpr (by simp [ht, ThreadPhase.ownsControl])
  refine WaitGraph.deadlocked_self (.thread t) ?_ ?_
  · simp [waitGraph, ht, ThreadPhase.awaits, Mutex.lock, hcontrol]
  · intro releaser hreleases
    simp only [waitGraph, Agent.read_thread, ht, ThreadPhase.awaits, hcontrol, Option.some.injEq]
      at hreleases
    exact hreleases.symm

/-- The states in which some threads wait for each other for ever. -/
theorem Owned.deadlocked_iff (h : s.Owned) : s.waitGraph.Deadlocked ↔ s.Entangled := by
  constructor
  · intro hdeadlocked
    by_contra hfree
    refine s.waitGraph.not_deadlocked_of_rank s.rank (fun agent hblocked => ?_) hdeadlocked
    cases agent with
    | main => exact h.loop_descends hfree hblocked
    | thread t => exact h.thread_descends hfree hblocked
  · rintro (⟨hloop, t, ht⟩ | ⟨t, ht⟩)
    · exact h.deadlocked_of_needsLoop hloop ht
    · exact h.deadlocked_of_handlerWait ht

/-! ## Runs without entanglement -/

variable [DecidableEq T]

/-- Whoever owns `m_runControl` keeps it until the loop thread has done something. -/
def ownerNeedsLoop (s : ControlState T) : Bool :=
  match s.runControl.owner with
  | some (.thread t) => (s.thread t).needsLoop
  | some .main | none => false

/-- A handler on the loop thread goes through `m_callControlled` while no other
thread is inside that or inside `stop`, none enters before the handler has
obtained `m_runControl`, and a handler of `update` never does. -/
def Undisturbed (s : ControlState T) : ControlLabel T → Prop
  | .loopHandler => s.ownerNeedsLoop = false
  | .thread t => s.loop = .handlerWait → (s.thread t).entersLoop = false
  | .threadHandler _ => False
  | .loop | .call _ _ => True

instance (s : ControlState T) : DecidablePred s.Undisturbed
  | .loopHandler => inferInstanceAs (Decidable (s.ownerNeedsLoop = false))
  | .thread t =>
      inferInstanceAs (Decidable (s.loop = .handlerWait → (s.thread t).entersLoop = false))
  | .threadHandler _ => .isFalse id
  | .loop | .call _ _ => .isTrue trivial

omit [DecidableEq T] in
/-- A thread that needs the loop owns `m_runControl`. -/
theorem Owned.ownerNeedsLoop_iff (h : s.Owned) :
    s.ownerNeedsLoop = true ↔ ∃ t, (s.thread t).needsLoop = true := by
  constructor
  · intro howner
    unfold ownerNeedsLoop at howner
    split at howner
    next t _ => exact ⟨t, howner⟩
    all_goals simp at howner
  · rintro ⟨t, ht⟩
    have howner := (h.runControl (.thread t)).mpr (ThreadPhase.ownsControl_of_needsLoop ht)
    simp [ownerNeedsLoop, howner, ht]

/-- From a state without entanglement exactly the disturbed steps lead into one. -/
theorem Owned.move_entangled (h : s.Owned) (hfree : ¬ s.Entangled)
    (hmove : ControlMove s label after) : after.Entangled ↔ ¬ s.Undisturbed label := by
  have howner := h.ownerNeedsLoop_iff
  simp only [Entangled, not_or, not_and, not_exists] at hfree
  obtain ⟨hneeds, hhandler⟩ := hfree
  have hrunning := h.running
  have hstarted := h.started
  cases hmove
  all_goals simp only [Entangled, Undisturbed, Function.update_apply]
  case handler at_ =>
    -- from now on the loop needs `m_runControl`, so its owner must not need the loop
    simp only [true_and, hhandler, exists_false, or_false, ← howner, Bool.not_eq_false]
  case updateHandler t at_ => exact ⟨fun _ => id, fun _ => .inr ⟨t, by simp⟩⟩
  -- acquiring `m_runControl` matters while a handler of the loop waits for it
  all_goals grind [ThreadPhase.needsLoop, ThreadPhase.entersLoop, LoopPhase.running]

/-- What an undisturbed run keeps. -/
theorem untangled_invariant (started : Bool) :
    (serverControl T started).Invariant Undisturbed fun s => s.Owned ∧ ¬ s.Entangled where
  init := ⟨owned_init started, by cases started <;> simp [serverControl, init, Entangled]⟩
  step h hundisturbed hstep :=
    have hmove := ControlMove.of_step hstep
    ⟨h.1.move hmove, fun hentangled => (h.1.move_entangled h.2 hmove).mp hentangled hundisturbed⟩

/-- Any number of threads, with and without a thread of the server: as long as no
handler is disturbed no threads wait for each other, and the first disturbed
step leaves some that wait for each other for ever. -/
theorem undisturbed_handlers_not_deadlocked {T : Type} [DecidableEq T] (started : Bool) :
    (∀ s, (serverControl T started).ReachableWhile Undisturbed s → ¬ s.waitGraph.Deadlocked) ∧
      ∀ (s after : ControlState T) (label : ControlLabel T),
        (serverControl T started).ReachableWhile Undisturbed s → ¬ s.Undisturbed label →
        (serverControl T started).step label s = some after → after.waitGraph.Deadlocked := by
  constructor
  · intro s hreach
    obtain ⟨howned, hfree⟩ := (untangled_invariant started).reachable hreach
    exact mt howned.deadlocked_iff.mp hfree
  · intro s after label hreach hdisturbed hstep
    obtain ⟨howned, hfree⟩ := (untangled_invariant started).reachable hreach
    have hmove := ControlMove.of_step hstep
    exact (howned.move hmove).deadlocked_iff.mpr
      ((howned.move_entangled hfree hmove).mpr hdisturbed)

/-- The loop thread is updating and `addRoute` of another thread waits for it,
after a handler that nobody disturbed. -/
def routeDuringUpdate : List (ControlLabel Unit) :=
  [.loop, .loopHandler, .loop, .loop, .call () .callControlled, .thread ()]

theorem undisturbed_handlers_not_deadlocked_routeDuringUpdate :
    ∃ s after : ControlState Unit,
      (serverControl Unit true).runWhile Undisturbed routeDuringUpdate (.init true) = some s ∧
        ¬ s.waitGraph.Deadlocked ∧
        (serverControl Unit true).step .loopHandler s = some after ∧
        after.waitGraph.Deadlocked := by
  obtain ⟨s, hrun⟩ : ∃ s, (serverControl Unit true).runWhile Undisturbed routeDuringUpdate
      (.init true) = some s := ⟨_, rfl⟩
  have hreach := TransitionSystem.reachableWhile_of_run .init routeDuringUpdate hrun
  cases hrun
  exact ⟨_, _, rfl, (undisturbed_handlers_not_deadlocked true).1 _ hreach, rfl,
    (undisturbed_handlers_not_deadlocked true).2 _ _ .loopHandler hreach (by decide) rfl⟩

/-- A client's ping is handled while `addRoute` of another thread waits for the loop. -/
def pingDuringRoute : List (ControlLabel Unit) :=
  [.loop, .call () .callControlled, .thread (), .loopHandler]

/-- A client's ping is handled while another thread is inside `stop`. -/
def pingDuringStop : List (ControlLabel Unit) :=
  [.loop, .call () .stop, .thread (), .loopHandler]

/-- A client's ping is handled by an `update` of a server without a thread. -/
def pingDuringUpdate : List (ControlLabel Unit) :=
  [.call () .update, .thread (), .threadHandler ()]

/-- The three ways to a deadlock. -/
theorem handlers_deadlock :
    (∃ s : ControlState Unit,
      (serverControl Unit true).runWhile (fun _ _ => True) pingDuringRoute (.init true) = some s ∧
        s.waitGraph.Deadlocked) ∧
    (∃ s : ControlState Unit,
      (serverControl Unit true).runWhile (fun _ _ => True) pingDuringStop (.init true) = some s ∧
        s.waitGraph.Deadlocked) ∧
    (∃ s : ControlState Unit,
      (serverControl Unit false).runWhile (fun _ _ => True) pingDuringUpdate (.init false) =
        some s ∧ s.waitGraph.Deadlocked) := by
  have howned (started : Bool) (labels : List (ControlLabel Unit)) {s : ControlState Unit}
      (hrun : (serverControl Unit started).runWhile (fun _ _ => True) labels (.init started) =
        some s) : s.Owned :=
    (owned_invariant started).reachable (TransitionSystem.reachableWhile_of_run .init labels hrun)
  refine ⟨⟨_, rfl, ?_⟩, ⟨_, rfl, ?_⟩, ⟨_, rfl, ?_⟩⟩
  · exact (howned true pingDuringRoute rfl).deadlocked_of_needsLoop (t := ()) rfl rfl
  · exact (howned true pingDuringStop rfl).deadlocked_of_needsLoop (t := ()) rfl rfl
  · exact (howned false pingDuringUpdate rfl).deadlocked_of_handlerWait (t := ()) rfl

end ControlState
end OSVR.Server
