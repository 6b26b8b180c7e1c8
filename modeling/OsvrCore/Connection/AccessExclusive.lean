/-
# A granted requester has the connection to itself

From the return of a granted request until its destructor has released the done
mutex, the main thread stays inside the very call that granted it. The argument
has two parts: who owns the two mutexes can be read off the program counters,
and a clear-to-send message exists only while the call that wrote it lasts.
-/

import OsvrCore.Connection.AsyncAccessControl

set_option autoImplicit false

namespace OSVR.Connection

open Math

/-! ## Ownership -/

namespace MainPhase

/-- Levels of `m_mut` the main thread owns. -/
def mutDepth : MainPhase → ℕ
  | locked _ | leaving | responded _ => 1
  | outside | wantMut _ | wantDone _ | checking _ | waiting _ | restored => 0

def ownsDone : MainPhase → Bool
  | checking _ | restored => true
  | outside | wantMut _ | locked _ | leaving | responded _ | wantDone _ | waiting _ => false

/-- Inside `m_handleRTS` with a request found, and the message not yet restored. -/
def handling : MainPhase → Bool
  | responded _ | wantDone _ | checking _ | waiting _ => true
  | outside | wantMut _ | locked _ | leaving | restored => false

/-- Inside `m_handleRTS`, waiting for the requester without any lock. -/
def awaiting : MainPhase → Bool
  | wantDone _ | waiting _ => true
  | outside | wantMut _ | locked _ | leaving | responded _ | checking _ | restored => false

end MainPhase

namespace RequestPhase

/-- Levels of `m_mut` a requesting thread owns. -/
def mutDepth : RequestPhase → ℕ
  | entered | wantDone | testing | holding _ => 1
  | nestedEntered _ | selfBlocked _ => 2
  | outside | wantMut | waiting | wantMutBack | releasedMut _ => 0

def ownsDone : RequestPhase → Bool
  | testing | waiting | wantMutBack | holding _ | nestedEntered _ | selfBlocked _
  | releasedMut _ => true
  | outside | wantMut | entered | wantDone => false

/-- The verdict of the object that has not yet released the done mutex. -/
def verdict : RequestPhase → Option Verdict
  | holding verdict | nestedEntered verdict | selfBlocked verdict | releasedMut verdict =>
      some verdict
  | outside | wantMut | entered | wantDone | testing | waiting | wantMutBack => none

theorem ownsDone_of_verdict {phase : RequestPhase} {verdict : Verdict}
    (h : phase.verdict = some verdict) : phase.ownsDone = true := by
  cases phase <;> simp_all [RequestPhase.verdict, ownsDone]

end RequestPhase

/-- Levels of `m_mut` each thread owns, read off the program counters. -/
abbrev mutDepth {T : Type} (main : MainPhase) (thread : T → RequestPhase) : Agent T → ℕ :=
  Agent.read MainPhase.mutDepth RequestPhase.mutDepth main thread

/-- Who owns `m_mutDone`, read off the program counters. -/
abbrev ownsDone {T : Type} (main : MainPhase) (thread : T → RequestPhase) : Agent T → Bool :=
  Agent.read MainPhase.ownsDone RequestPhase.ownsDone main thread

namespace AccessState

variable {T : Type} [DecidableEq T] {s after : AccessState T} {label : AccessLabel T}

/-- The mutexes agree with the program counters. -/
structure Owned (s : AccessState T) : Prop where
  mainMut : s.mainMut.Agrees (mutDepth s.main s.thread)
  mutDone : s.mutDone.Agrees (ownsDone s.main s.thread)

omit [DecidableEq T] in
/-- A thread that requests again while its denied object lives never gets past
its own done mutex. -/
theorem Owned.not_selfLockDone (h : s.Owned) {t : T} {verdict : Verdict} {m : Mutex (Agent T)}
    (hphase : s.thread t = .selfBlocked verdict) :
    s.mutDone.lock (.thread t) ≠ some m := by
  have howns : ownsDone s.main s.thread (.thread t) = true := by
    simp [ownsDone, hphase, RequestPhase.ownsDone]
  simp [h.mutDone.lock_eq_none howns]

omit [DecidableEq T] in
/-- The main thread does not own `m_mut` while a thread does. -/
theorem Owned.main_mut (h : s.Owned) {t : T} (ht : 0 < (s.thread t).mutDepth) :
    s.main.mutDepth = 0 := by
  by_contra hmain
  have hagent : Agent.main = Agent.thread t :=
    h.mainMut.unique (by simpa [mutDepth] using Nat.pos_of_ne_zero hmain)
      (by simpa [mutDepth] using ht)
  simp at hagent

theorem Owned.move_mainMut (howned : s.Owned) (hmove : AccessMove s label after) :
    after.mainMut.Agrees (mutDepth after.main after.thread) := by
  have h := howned.mainMut
  cases hmove
  all_goals first | rw [mutDepth, Agent.read_update] | rw [mutDepth, Agent.read_next _ _ s.main]
  -- the moves that acquire a level, those that release one, and the others
  case mainLock lock | requestLock lock | relock lock | beginNested lock =>
    simpa [*, mutDepth, MainPhase.mutDepth, RequestPhase.mutDepth] using h.lock lock
  case selfLockDone at_ lock => exact absurd lock (howned.not_selfLockDone at_)
  case leave at_ | release at_ =>
    have hpos : 0 < mutDepth s.main s.thread .main := by
      simp [at_, mutDepth, MainPhase.mutDepth]
    simpa [at_, mutDepth, MainPhase.mutDepth] using h.unlock hpos
  case enteredNested t at_ _ _ | requestWait t at_ _ | nested t _ at_ _ _ | destroy t _ at_ =>
    have hpos : 0 < mutDepth s.main s.thread (.thread t) := by
      simp [at_, mutDepth, RequestPhase.mutDepth]
    simpa [at_, mutDepth, RequestPhase.mutDepth] using h.unlock hpos
  all_goals exact h.keep (by simp [*, mutDepth, MainPhase.mutDepth, RequestPhase.mutDepth])

theorem Owned.move_mutDone (howned : s.Owned) (hmove : AccessMove s label after) :
    after.mutDone.Agrees (ownsDone after.main after.thread) := by
  have h := howned.mutDone
  cases hmove
  all_goals first | rw [ownsDone, Agent.read_update] | rw [ownsDone, Agent.read_next _ _ s.main]
  case mainLockDone lock | requestLockDone lock | selfLockDone lock => exact h.lock lock
  case mainWait at_ _ | handled at_ =>
    exact h.free (by simp [at_, ownsDone, MainPhase.ownsDone])
  case finish t _ at_ => exact h.free (by simp [at_, ownsDone, RequestPhase.ownsDone])
  all_goals exact h.keep (by simp [*, ownsDone, MainPhase.ownsDone, RequestPhase.ownsDone])

theorem Owned.move (h : s.Owned) (hmove : AccessMove s label after) : after.Owned :=
  ⟨h.move_mainMut hmove, h.move_mutDone hmove⟩

omit [DecidableEq T] in
theorem owned_init : (init : AccessState T).Owned where
  mainMut := by
    have hdepth :
        mutDepth (init : AccessState T).main (init : AccessState T).thread = fun _ => 0 := by
      funext agent
      cases agent <;> rfl
    rw [hdepth]
    exact RecursiveMutex.agrees_free
  mutDone := by
    intro agent
    cases agent <;> simp [init, ownsDone, MainPhase.ownsDone, RequestPhase.ownsDone]

/-! ## The grant -/

/-- What ties a clear-to-send message and a granted requester to one call. -/
structure Exclusive (s : AccessState T) : Prop where
  owned : s.Owned
  message : s.mainMessage = .clearToSend → s.main.handling = true ∧ s.messageCall = s.call
  granted : ∀ t call, (s.thread t).verdict = some (.granted call) →
    s.main.awaiting = true ∧ s.call = call

omit [DecidableEq T] in
theorem exclusive_init : (init : AccessState T).Exclusive where
  owned := owned_init
  message := by simp [init]
  granted := by simp [init, RequestPhase.verdict]

theorem Exclusive.move_message (h : s.Exclusive) (hmove : AccessMove s label after) :
    after.mainMessage = .clearToSend → after.main.handling = true ∧
    after.messageCall = after.call := by
  have hmessage := h.message
  cases hmove
  case restore call at_ done => cases call <;> simp [MainCall.postCompletionState]
  all_goals simp_all [MainPhase.handling]

omit [DecidableEq T] in
/-- The requester that reads the message owns both mutexes, so the call that
wrote it can only be waiting for the done mutex or for its condition. -/
theorem Exclusive.awaiting_of_testing (h : s.Exclusive) {t : T} (hphase : s.thread t = .testing)
    (hmessage : s.mainMessage = .clearToSend) :
    s.main.awaiting = true ∧ s.messageCall = s.call := by
  obtain ⟨hhandling, hcall⟩ := h.message hmessage
  refine ⟨?_, hcall⟩
  have hmut : mutDepth s.main s.thread .main = 0 := by
    by_contra hpos
    have := h.owned.mainMut.unique (Nat.pos_of_ne_zero hpos)
      (by simp [mutDepth, hphase, RequestPhase.mutDepth] : 0 < mutDepth s.main s.thread (.thread t))
    simp at this
  have hdone : ownsDone s.main s.thread .main ≠ true := by
    intro howns
    have := h.owned.mutDone.unique howns
      (by simp [ownsDone, hphase, RequestPhase.ownsDone] :
        ownsDone s.main s.thread (.thread t) = true)
    simp at this
  cases hmain : s.main <;>
    simp_all [MainPhase.handling, MainPhase.awaiting, mutDepth, ownsDone, MainPhase.mutDepth,
      MainPhase.ownsDone]

omit [DecidableEq T] in
/-- While a requester holds the done mutex, the main thread does not get it. -/
theorem Exclusive.not_mainLockDone (h : s.Exclusive) {t : T} {verdict : Verdict}
    {m : Mutex (Agent T)} (hverdict : (s.thread t).verdict = some verdict) :
    s.mutDone.lock .main ≠ some m := by
  have howns : ownsDone s.main s.thread (.thread t) = true :=
    RequestPhase.ownsDone_of_verdict hverdict
  simp [h.owned.mutDone.lock_eq_none howns]

theorem Exclusive.move_granted (h : s.Exclusive) (hmove : AccessMove s label after) (t : T)
    (call : ℕ) (hverdict : (after.thread t).verdict = some (.granted call)) :
    after.main.awaiting = true ∧ after.call = call := by
  have hgranted := h.granted t call
  cases hmove
  case mainLockDone at_ lock => exact absurd lock (h.not_mainLockDone hverdict)
  case grant u at_ message =>
    by_cases hu : t = u
    · subst t
      obtain ⟨hawaiting, hcall⟩ := h.awaiting_of_testing at_ message
      simp_all [RequestPhase.verdict]
    · simp_all
  -- every other move of a thread keeps the verdict of that thread or drops it
  case beginRequest u at_ | requestLock u _ at_ _ | enteredNested u at_ _ _ | enter u at_ _ |
      requestLockDone u _ at_ _ | requestWait u at_ _ | deny u at_ _ | requestWake u at_ |
      relock u _ at_ _ | beginNested u _ _ at_ _ | nested u _ at_ _ _ | enterBlocked u _ at_ _ |
      selfLockDone u _ _ at_ _ | destroy u _ at_ | finish u _ at_ =>
    by_cases hu : t = u
    · subst t
      simp_all [RequestPhase.verdict]
    · simp_all
  all_goals simp_all [MainPhase.awaiting]

theorem exclusive_invariant :
    (accessControl T).Invariant (fun _ _ => True) Exclusive where
  init := exclusive_init
  step h _ hstep :=
    have hmove := AccessMove.of_step hstep
    ⟨h.owned.move hmove, h.move_message hmove, h.move_granted hmove⟩

/-- In every run, while a thread holds a granted request whose destructor has not
released the done mutex, the main thread waits inside `m_handleRTS`, in the call
that granted the request. -/
theorem granted_exclusive {T : Type} [DecidableEq T] {s : AccessState T}
    (hreach : (accessControl T).Reachable s) (t : T) (call : ℕ)
    (hgranted : (s.thread t).verdict = some (.granted call)) :
    s.main.awaiting = true ∧ s.call = call :=
  (exclusive_invariant.reachable hreach).granted t call hgranted

/-- One requester, granted by the second call of the main thread, in a nested request. -/
def nestedRun : List (AccessLabel Unit) :=
  [.call .mainThreadCTS, .main, .main, .main,
    .request (), .thread (), .thread (), .thread (), .thread (),
    .call .mainThreadCTS, .main, .main, .main,
    .thread (), .thread (), .thread (), .request ()]

theorem granted_exclusive_nestedRun :
    ∃ s, (accessControl Unit).runWhile (fun _ _ => True) nestedRun .init = some s ∧
      s.thread () = .nestedEntered (.granted 2) ∧ s.main.awaiting = true ∧ s.call = 2 :=
  ⟨_, rfl, rfl,
    granted_exclusive (TransitionSystem.reachableWhile_of_run .init nestedRun rfl) () 2 rfl⟩

end AccessState
end OSVR.Connection
