/-
# Several requesters on one access control

A request that obtains `m_mut` while an earlier request still waits for its
answer stops everything: it keeps `m_mut`, waits for the done mutex of the
earlier request, and the main thread can answer nobody. When every request
obtains `m_mut` with `m_rts` clear, or is nested in a granted request of its own
thread, no set of threads waits for itself, for any number of threads.
-/

import OsvrCore.Math.WaitGraph
import OsvrCore.Connection.AccessExclusive

set_option autoImplicit false

namespace OSVR.Connection

open Math

/-! ## Waiting -/

/-- What a blocked agent waits for. -/
inductive Awaited
  | mainMut
  | mutDone
  | message
  | done
  deriving DecidableEq, Repr

namespace MainPhase

def awaited : MainPhase → Option Awaited
  | wantMut _ => some .mainMut
  | wantDone _ => some .mutDone
  | waiting _ => some .done
  | outside | locked _ | leaving | responded _ | checking _ | restored => none

/-- Distance from a step that somebody can take. -/
def rank : MainPhase → ℕ
  | outside | locked _ | leaving | responded _ | checking _ | restored => 0
  | wantMut _ => 2
  | wantDone _ | waiting _ => 4

variable {phase : MainPhase}

theorem rank_of_mutDepth (h : 0 < phase.mutDepth) : phase.rank = 0 := by
  cases phase <;> simp_all [rank, mutDepth]

theorem rank_of_ownsDone (h : phase.ownsDone = true) : phase.rank = 0 := by
  cases phase <;> simp_all [rank, ownsDone]

theorem rank_of_not_handling (h : phase.handling = false) : phase.rank < 3 := by
  cases phase <;> simp_all [rank, handling]

end MainPhase

namespace RequestPhase

def awaited : RequestPhase → Option Awaited
  | wantMut | wantMutBack => some .mainMut
  | wantDone | selfBlocked _ => some .mutDone
  | waiting => some .message
  | outside | entered | testing | holding _ | nestedEntered _ | releasedMut _ => none

/-- The request has set `m_rts` and its destructor has not yet cleared it. -/
def requesting : RequestPhase → Bool
  | wantDone | testing | waiting | wantMutBack | holding _ | nestedEntered _ | selfBlocked _ => true
  | outside | wantMut | entered | releasedMut _ => false

/-- Distance from a step that somebody can take. -/
def rank : RequestPhase → ℕ
  | outside | entered | testing | holding _ | nestedEntered _ | selfBlocked _ | releasedMut _ => 0
  | wantDone | wantMutBack => 1
  | wantMut => 2
  | waiting => 3

/-- What the shared fields have to be for a requester in this phase. `entered` is
the assertion of `request` on `m_rts`, and `testing` the one on the thread. -/
def Consistent {T : Type} (phase : RequestPhase) (t : T) (rts : Bool) (current : Option T)
    (message : MainThreadMessage) : Prop :=
  match phase with
  | outside | wantMut | releasedMut _ => True
  | entered => rts = false
  | wantDone | testing | waiting | wantMutBack => rts = true ∧ current = none
  | holding .denied => rts = true ∧ current = none ∧ message = .denySend
  | holding (.granted _) | nestedEntered (.granted _) =>
      rts = true ∧ current = some t ∧ message = .clearToSend
  | nestedEntered .denied | selfBlocked _ => False

variable {T : Type} {phase : RequestPhase} {t : T} {rts : Bool} {current : Option T}
  {message : MainThreadMessage}

theorem Consistent.rts_of_requesting (h : phase.Consistent t rts current message)
    (hphase : phase.requesting = true) : rts = true := by
  unfold Consistent at h
  split at h <;> simp_all [requesting]

/-- Only a requester with both mutexes relies on the message. -/
theorem Consistent.message_irrelevant (h : phase.Consistent t rts current message)
    (hphase : phase.mutDepth = 0 ∨ phase.ownsDone = false) (other : MainThreadMessage) :
    phase.Consistent t rts current other := by
  unfold Consistent at h ⊢
  split at h <;> simp_all [mutDepth, ownsDone]

/-- A thread outside of any request relies on nothing. -/
theorem consistent_of_idle (hrequesting : phase.requesting = false) (hentered : phase ≠ .entered) :
    phase.Consistent t rts current message := by
  unfold Consistent
  split <;> simp_all [requesting]

theorem rank_le (phase : RequestPhase) : phase.rank ≤ 3 := by
  cases phase <;> simp [rank]

theorem rank_of_mutDepth (h : 0 < phase.mutDepth) : phase.rank ≤ 1 := by
  cases phase <;> simp_all [rank, mutDepth]

theorem rank_of_not_requesting (h : 0 < phase.mutDepth) (hrequesting : phase.requesting = false) :
    phase.rank = 0 := by
  cases phase <;> simp_all [rank, mutDepth, requesting]

theorem rank_of_ownsDone (h : phase.ownsDone = true) (hrequesting : phase.requesting = false) :
    phase.rank = 0 := by
  cases phase <;> simp_all [rank, ownsDone, requesting]

end RequestPhase

namespace AccessState

variable {T : Type}

def awaited (s : AccessState T) : Agent T → Option Awaited
  | .main => s.main.awaited
  | .thread t => (s.thread t).awaited

def rank (s : AccessState T) : Agent T → ℕ
  | .main => s.main.rank
  | .thread t => (s.thread t).rank

variable [DecidableEq T]

/-- Blocked agents, and the agents that can end each wait: the owner of the
mutex, the main thread for the message, and the requesters for `m_done`. -/
def waitGraph (s : AccessState T) : WaitGraph (Agent T) where
  blocked agent :=
    match s.awaited agent with
    | some .mainMut => s.mainMut.lock agent = none
    | some .mutDone => s.mutDone.lock agent = none
    | some .message => s.mainMessage = .wait
    | some .done => s.done = false
    | none => False
  releases releaser agent :=
    match s.awaited agent with
    | some .mainMut => s.mainMut.owner = some releaser
    | some .mutDone => s.mutDone.owner = some releaser
    | some .message => releaser = .main
    | some .done => ∃ t, releaser = .thread t ∧ (s.thread t).requesting = true
    | none => False

/-- A requester keeps `m_mut` and waits for the done mutex of a requester that
waits for the main thread or for `m_mut`. A thread can stand on both sides. -/
def CrossWait (s : AccessState T) : Prop :=
  ∃ t u, (s.thread t).awaited = some .mutDone ∧ s.mutDone.owner = some (.thread u) ∧
    (t = u ∨ s.thread u = .waiting ∨ s.thread u = .wantMutBack)

structure Safe (s : AccessState T) : Prop where
  noCrossWait : ¬ s.CrossWait
  noDeadlock : ¬ s.waitGraph.Deadlocked
  consistent : ∀ t, (s.thread t).Consistent t s.rts s.currentRequestThread s.mainMessage

/-- A request obtains `m_mut` with `m_rts` clear, or it is made while the
granted request of the same thread lives. -/
def Orderly (s : AccessState T) : AccessLabel T → Prop
  | .thread t => s.thread t = .wantMut → s.rts = false
  | .request t => s.thread t ≠ .outside → s.currentRequestThread = some t
  | .call _ | .main | .destroy _ => True

instance (s : AccessState T) : DecidablePred s.Orderly
  | .thread t => inferInstanceAs (Decidable (s.thread t = .wantMut → s.rts = false))
  | .request t =>
      inferInstanceAs (Decidable (s.thread t ≠ .outside → s.currentRequestThread = some t))
  | .call _ | .main | .destroy _ => .isTrue trivial

/-! ## One requester at a time -/

/-- What every orderly run keeps. -/
structure Solo (s : AccessState T) : Prop where
  exclusive : s.Exclusive
  consistent : ∀ t, (s.thread t).Consistent t s.rts s.currentRequestThread s.mainMessage
  single : ∀ t u, (s.thread t).requesting = true → (s.thread u).requesting = true → t = u
  requester : s.rts = true → ∃ t, (s.thread t).requesting = true
  idle : s.rts = false → s.currentRequestThread = none
  completes : s.main.handling = true → s.done = true ∨ s.rts = true
  answered : s.main.handling = true → s.mainMessage ≠ .wait

variable {s after : AccessState T} {label : AccessLabel T}

omit [DecidableEq T] in
theorem Solo.rts_of_requesting (h : s.Solo) {t : T} (hphase : (s.thread t).requesting = true) :
    s.rts = true :=
  (h.consistent t).rts_of_requesting hphase

omit [DecidableEq T] in
/-- Two threads that own levels of `m_mut` are one thread. -/
theorem Solo.mut_unique (h : s.Solo) {t u : T} (ht : 0 < (s.thread t).mutDepth)
    (hu : 0 < (s.thread u).mutDepth) : t = u := by
  have hagent : Agent.thread t = Agent.thread u :=
    h.exclusive.owned.mainMut.unique (by simpa [mutDepth] using ht) (by simpa [mutDepth] using hu)
  simpa using hagent

omit [DecidableEq T] in
/-- The main thread does not own `m_mutDone` while a thread does. -/
theorem Solo.main_done (h : s.Solo) {t : T} (ht : (s.thread t).ownsDone = true) :
    s.main.ownsDone = false := by
  by_contra hmain
  have hagent : Agent.main = Agent.thread t :=
    h.exclusive.owned.mutDone.unique (by simpa [ownsDone] using hmain)
      (by simpa [ownsDone] using ht)
  simp at hagent

omit [DecidableEq T] in
theorem solo_init : (init : AccessState T).Solo where
  exclusive := exclusive_init
  consistent t := by simp [init, RequestPhase.Consistent]
  single := by simp [init, RequestPhase.requesting]
  requester := by simp [init]
  idle := by simp [init]
  completes := by simp [init, MainPhase.handling]
  answered := by simp [init, MainPhase.handling]

omit [DecidableEq T] in
/-- A thread other than one that is entering or requesting is idle. -/
theorem Solo.consistent_other (h : s.Solo) {t u : T} (hu : u ≠ t)
    (ht : 0 < (s.thread t).mutDepth)
    (hidle : (s.thread u).requesting = true → (s.thread t).requesting = true)
    (rts : Bool) (current : Option T) (message : MainThreadMessage) :
    (s.thread u).Consistent u rts current message := by
  apply RequestPhase.consistent_of_idle
  · by_contra hrequesting
    have hrequesting : (s.thread u).requesting = true := by simpa using hrequesting
    exact hu (h.single u t hrequesting (hidle hrequesting))
  · intro hentered
    exact hu (h.mut_unique (by simp [hentered, RequestPhase.mutDepth]) ht)

omit [DecidableEq T] in
/-- A nested request finds the granted request of its own thread. -/
theorem Solo.nested (h : s.Solo) {t : T} {verdict : Verdict}
    (hphase : s.thread t = .nestedEntered verdict) :
    s.rts = true ∧ s.currentRequestThread = some t := by
  have ht := h.consistent t
  cases verdict <;> simp_all [RequestPhase.Consistent]

omit [DecidableEq T] in
theorem Solo.not_selfBlocked (h : s.Solo) {t : T} {verdict : Verdict}
    (hphase : s.thread t = .selfBlocked verdict) : False := by
  have ht := h.consistent t
  simp [hphase, RequestPhase.Consistent] at ht

theorem Solo.move_consistent (h : s.Solo) (horderly : s.Orderly label)
    (hmove : AccessMove s label after) (u : T) :
    (after.thread u).Consistent u after.rts after.currentRequestThread after.mainMessage := by
  have hold := h.consistent u
  cases hmove
  case respond call at_ rts =>
    refine hold.message_irrelevant (.inl ?_) _
    by_contra hdepth
    have := h.exclusive.owned.main_mut (Nat.pos_of_ne_zero hdepth)
    simp [at_, MainPhase.mutDepth] at this
  case denyFuture at_ rts =>
    refine hold.message_irrelevant (.inl ?_) _
    by_contra hdepth
    have := h.exclusive.owned.main_mut (Nat.pos_of_ne_zero hdepth)
    simp [at_, MainPhase.mutDepth] at this
  case restore call at_ done =>
    refine hold.message_irrelevant (.inr ?_) _
    by_contra howns
    have := h.main_done (by simpa using howns)
    simp [at_, MainPhase.ownsDone] at this
  case enter t at_ free =>
    have ht := h.consistent t
    by_cases hu : u = t
    · subst hu
      simp_all [RequestPhase.Consistent, h.idle]
    · simp only [Function.update_of_ne hu]
      refine h.consistent_other hu (by simp [at_, RequestPhase.mutDepth]) ?_ _ _ _
      intro hrequesting
      simp_all [RequestPhase.Consistent, h.rts_of_requesting hrequesting]
  case grant t at_ message =>
    have ht := h.consistent t
    by_cases hu : u = t
    · subst hu
      simp_all [RequestPhase.Consistent]
    · simp only [Function.update_of_ne hu]
      exact h.consistent_other hu (by simp [at_, RequestPhase.mutDepth])
        (fun _ => by simp [at_, RequestPhase.requesting]) _ _ _
  case destroy t verdict at_ =>
    by_cases hu : u = t
    · subst hu
      simp [RequestPhase.Consistent]
    · simp only [Function.update_of_ne hu]
      exact h.consistent_other hu (by simp [at_, RequestPhase.mutDepth])
        (fun _ => by simp [at_, RequestPhase.requesting]) _ _ _
  case beginNested t verdict m at_ lock =>
    have hcurrent := horderly (by simp [at_])
    by_cases hu : u = t
    · subst hu
      cases verdict <;> simp_all [RequestPhase.Consistent]
    · simpa only [Function.update_of_ne hu] using hold
  case nested t verdict at_ rts current =>
    by_cases hu : u = t
    · subst hu
      cases verdict <;> simp_all [RequestPhase.Consistent]
    · simpa only [Function.update_of_ne hu] using hold
  case enterBlocked t verdict at_ free => exact absurd (h.nested at_) free
  case selfLockDone t verdict m at_ lock => exact (h.not_selfBlocked at_).elim
  -- the other moves of a thread leave these fields alone
  case beginRequest t at_ | requestLock t _ at_ _ | enteredNested t at_ _ _ |
      requestLockDone t _ at_ _ | requestWait t at_ _ | deny t at_ _ | requestWake t at_ |
      relock t _ at_ _ | finish t _ at_ =>
    by_cases hu : u = t
    · subst hu
      simp_all [RequestPhase.Consistent, Orderly]
    · simpa only [Function.update_of_ne hu] using hold
  all_goals exact hold

/-- A move that does not start the request of its thread starts none. -/
theorem requesting_of_update {t : T} {phase : RequestPhase}
    (hstarts : phase.requesting = true → (s.thread t).requesting = true) {u : T}
    (hu : (Function.update s.thread t phase u).requesting = true) :
    (s.thread u).requesting = true := by
  by_cases hut : u = t
  · rw [hut, Function.update_self] at hu
    rw [hut]
    exact hstarts hu
  · rwa [Function.update_of_ne hut] at hu

/-- A move that does not end the request of its thread ends none. -/
theorem requesting_update {t : T} {phase : RequestPhase}
    (hends : (s.thread t).requesting = true → phase.requesting = true) {u : T}
    (hu : (s.thread u).requesting = true) :
    (Function.update s.thread t phase u).requesting = true := by
  by_cases hut : u = t
  · rw [hut] at hu ⊢
    rw [Function.update_self]
    exact hends hu
  · rwa [Function.update_of_ne hut]

/-- A thread starts to request only when no other thread does. -/
theorem Solo.move_single (h : s.Solo) (hmove : AccessMove s label after) (u v : T)
    (hu : (after.thread u).requesting = true) (hv : (after.thread v).requesting = true) :
    u = v := by
  have hold := h.single u v
  cases hmove
  case enter t at_ free =>
    have hrts : s.rts = false := by simpa [at_, RequestPhase.Consistent] using h.consistent t
    have hnobody (w : T) : (s.thread w).requesting = false := by
      by_contra hw
      simp [h.rts_of_requesting (by simpa using hw)] at hrts
    have honly (w : T) (hw : (Function.update s.thread t .wantDone w).requesting = true) :
        w = t := by
      by_contra hne
      simp [Function.update_of_ne hne, hnobody] at hw
    rw [honly u hu, honly v hv]
  case enterBlocked t verdict at_ free => exact absurd (h.nested at_) free
  case selfLockDone t verdict m at_ lock => exact (h.not_selfBlocked at_).elim
  case beginRequest t at_ | requestLock t _ at_ _ | enteredNested t at_ _ _ |
      requestLockDone t _ at_ _ | requestWait t at_ _ | grant t at_ _ | deny t at_ _ |
      requestWake t at_ | relock t _ at_ _ | beginNested t _ _ at_ _ | nested t _ at_ _ _ |
      destroy t _ at_ | finish t _ at_ =>
    have hu := requesting_of_update (by simp [at_, RequestPhase.requesting]) hu
    have hv := requesting_of_update (by simp [at_, RequestPhase.requesting]) hv
    exact hold hu hv
  all_goals exact hold hu hv

theorem Solo.move_requester (h : s.Solo) (hmove : AccessMove s label after)
    (hrts : after.rts = true) : ∃ u, (after.thread u).requesting = true := by
  have hold := h.requester
  cases hmove
  case enter t at_ free => exact ⟨t, by simp [RequestPhase.requesting]⟩
  case enterBlocked t verdict at_ free => exact absurd (h.nested at_) free
  case destroy t verdict at_ => simp at hrts
  case beginRequest t at_ | requestLock t _ at_ _ | enteredNested t at_ _ _ |
      requestLockDone t _ at_ _ | requestWait t at_ _ | grant t at_ _ | deny t at_ _ |
      requestWake t at_ | relock t _ at_ _ | beginNested t _ _ at_ _ | nested t _ at_ _ _ |
      selfLockDone t _ _ at_ _ | finish t _ at_ =>
    obtain ⟨u, hu⟩ := hold hrts
    exact ⟨u, requesting_update (by simp [at_, RequestPhase.requesting]) hu⟩
  all_goals exact hold hrts

theorem Solo.move_idle (h : s.Solo) (hmove : AccessMove s label after)
    (hrts : after.rts = false) : after.currentRequestThread = none := by
  have hold := h.idle
  cases hmove
  case grant t at_ message =>
    have ht := h.consistent t
    simp_all [RequestPhase.Consistent]
  all_goals simp_all

theorem Solo.move_completes (h : s.Solo) (hmove : AccessMove s label after)
    (hhandling : after.main.handling = true) : after.done = true ∨ after.rts = true := by
  have hold := h.completes
  cases hmove
  case requestLockDone t m at_ lock =>
    have hphase : (s.thread t).requesting = true := by simp [at_, RequestPhase.requesting]
    exact .inr (h.rts_of_requesting hphase)
  case selfLockDone t verdict m at_ lock => exact (h.not_selfBlocked at_).elim
  all_goals simp_all [MainPhase.handling]

theorem Solo.move_answered (h : s.Solo) (hmove : AccessMove s label after)
    (hhandling : after.main.handling = true) : after.mainMessage ≠ .wait := by
  have hold := h.answered
  cases hmove
  case respond call at_ rts => cases call <;> simp [MainCall.response]
  all_goals simp_all [MainPhase.handling]

theorem solo_invariant : (accessControl T).Invariant Orderly Solo where
  init := solo_init
  step h horderly hstep :=
    have hmove := AccessMove.of_step hstep
    { exclusive := exclusive_invariant.step h.exclusive trivial hstep
      consistent := h.move_consistent horderly hmove
      single := h.move_single hmove
      requester := h.move_requester hmove
      idle := h.move_idle hmove
      completes := h.move_completes hmove
      answered := h.move_answered hmove }

/-! ## Nobody waits for ever -/

omit [DecidableEq T] in
theorem Solo.owner_mut (h : s.Solo) {agent : Agent T} (howner : s.mainMut.owner = some agent) :
    0 < mutDepth s.main s.thread agent :=
  (h.exclusive.owned.mainMut.owner_iff agent).mp howner

omit [DecidableEq T] in
theorem Solo.owner_done (h : s.Solo) {agent : Agent T} (howner : s.mutDone.owner = some agent) :
    ownsDone s.main s.thread agent = true :=
  (h.exclusive.owned.mutDone agent).mp howner

omit [DecidableEq T] in
/-- An owner of `m_mut` is at most one wait away from a step. -/
theorem Solo.rank_owner_mut (h : s.Solo) {agent : Agent T}
    (howner : s.mainMut.owner = some agent) : s.rank agent ≤ 1 := by
  have hdepth := h.owner_mut howner
  cases agent with
  | main => simp [rank, MainPhase.rank_of_mutDepth hdepth]
  | thread t => exact RequestPhase.rank_of_mutDepth hdepth

omit [DecidableEq T] in
/-- While a thread requests, the other owner of `m_mut` can step. -/
theorem Solo.rank_owner_mut_of_requesting (h : s.Solo) {t : T} {agent : Agent T}
    (ht : (s.thread t).requesting = true) (hne : agent ≠ .thread t)
    (howner : s.mainMut.owner = some agent) : s.rank agent = 0 := by
  have hdepth := h.owner_mut howner
  cases agent with
  | main => exact MainPhase.rank_of_mutDepth hdepth
  | thread u =>
      have hu : (s.thread u).requesting = false := by
        by_contra hrequesting
        exact hne (by rw [h.single u t (by simpa using hrequesting) ht])
      exact RequestPhase.rank_of_not_requesting hdepth hu

omit [DecidableEq T] in
/-- While a thread requests, the other owner of `m_mutDone` can step. -/
theorem Solo.rank_owner_done_of_requesting (h : s.Solo) {t : T} {agent : Agent T}
    (ht : (s.thread t).requesting = true) (hne : agent ≠ .thread t)
    (howner : s.mutDone.owner = some agent) : s.rank agent = 0 := by
  have howns := h.owner_done howner
  cases agent with
  | main => exact MainPhase.rank_of_ownsDone howns
  | thread u =>
      have hu : (s.thread u).requesting = false := by
        by_contra hrequesting
        exact hne (by rw [h.single u t (by simpa using hrequesting) ht])
      exact RequestPhase.rank_of_ownsDone howns hu

/-- What a blocked main thread waits for is nearer to a step than it is. -/
theorem Solo.main_descends (h : s.Solo) (hblocked : s.waitGraph.blocked .main) :
    ∃ releaser, s.waitGraph.releases releaser .main ∧ s.rank releaser < s.rank .main := by
  cases hmain : s.main with
  | wantMut call =>
      have hrank : s.rank .main = 2 := by simp [rank, hmain, MainPhase.rank]
      simp only [waitGraph, awaited, hmain, MainPhase.awaited] at hblocked ⊢
      obtain ⟨owner, howner, -⟩ := RecursiveMutex.lock_eq_none_iff.mp hblocked
      have hle := h.rank_owner_mut howner
      exact ⟨owner, howner, by omega⟩
  | wantDone call =>
      have hrank : s.rank .main = 4 := by simp [rank, hmain, MainPhase.rank]
      simp only [waitGraph, awaited, hmain, MainPhase.awaited] at hblocked ⊢
      obtain ⟨owner, howner⟩ := Mutex.lock_eq_none_iff.mp hblocked
      have howns := h.owner_done howner
      cases owner with
      | main => simp [ownsDone, hmain, MainPhase.ownsDone] at howns
      | thread t =>
          have hle : s.rank (.thread t) ≤ 3 := (s.thread t).rank_le
          exact ⟨.thread t, howner, by omega⟩
  | waiting call =>
      have hrank : s.rank .main = 4 := by simp [rank, hmain, MainPhase.rank]
      simp only [waitGraph, awaited, hmain, MainPhase.awaited] at hblocked ⊢
      have hrts : s.rts = true :=
        (h.completes (by simp [hmain, MainPhase.handling])).resolve_left (by simp [hblocked])
      obtain ⟨t, ht⟩ := h.requester hrts
      have hle : s.rank (.thread t) ≤ 3 := (s.thread t).rank_le
      exact ⟨.thread t, ⟨t, rfl, ht⟩, by omega⟩
  | _ => simp [waitGraph, awaited, hmain, MainPhase.awaited] at hblocked

/-- What a blocked requester waits for is nearer to a step than it is. -/
theorem Solo.thread_descends (h : s.Solo) {t : T} (hblocked : s.waitGraph.blocked (.thread t)) :
    ∃ releaser, s.waitGraph.releases releaser (.thread t) ∧
    s.rank releaser < s.rank (.thread t) := by
  cases hphase : s.thread t with
  | wantMut =>
      have hrank : s.rank (.thread t) = 2 := by simp [rank, hphase, RequestPhase.rank]
      simp only [waitGraph, awaited, hphase, RequestPhase.awaited] at hblocked ⊢
      obtain ⟨owner, howner, -⟩ := RecursiveMutex.lock_eq_none_iff.mp hblocked
      have hle := h.rank_owner_mut howner
      exact ⟨owner, howner, by omega⟩
  | wantMutBack =>
      have hrank : s.rank (.thread t) = 1 := by simp [rank, hphase, RequestPhase.rank]
      simp only [waitGraph, awaited, hphase, RequestPhase.awaited] at hblocked ⊢
      obtain ⟨owner, howner, hne⟩ := RecursiveMutex.lock_eq_none_iff.mp hblocked
      have hzero := h.rank_owner_mut_of_requesting
        (by simp [hphase, RequestPhase.requesting]) hne howner
      exact ⟨owner, howner, by omega⟩
  | wantDone =>
      have hrank : s.rank (.thread t) = 1 := by simp [rank, hphase, RequestPhase.rank]
      simp only [waitGraph, awaited, hphase, RequestPhase.awaited] at hblocked ⊢
      obtain ⟨owner, howner⟩ := Mutex.lock_eq_none_iff.mp hblocked
      have hne : owner ≠ .thread t := by
        rintro rfl
        have howns := h.owner_done howner
        simp [ownsDone, hphase, RequestPhase.ownsDone] at howns
      have hzero := h.rank_owner_done_of_requesting
        (by simp [hphase, RequestPhase.requesting]) hne howner
      exact ⟨owner, howner, by omega⟩
  | selfBlocked verdict => exact (h.not_selfBlocked hphase).elim
  | waiting =>
      have hrank : s.rank (.thread t) = 3 := by simp [rank, hphase, RequestPhase.rank]
      simp only [waitGraph, awaited, hphase, RequestPhase.awaited] at hblocked ⊢
      have hhandling : s.main.handling = false := by
        by_contra hhandling
        exact h.answered (by simpa using hhandling) hblocked
      have hlt : s.rank .main < 3 := MainPhase.rank_of_not_handling hhandling
      exact ⟨.main, rfl, by omega⟩
  | _ => simp [waitGraph, awaited, hphase, RequestPhase.awaited] at hblocked

theorem Solo.not_deadlocked (h : s.Solo) : ¬ s.waitGraph.Deadlocked := by
  refine s.waitGraph.not_deadlocked_of_rank s.rank fun agent hblocked => ?_
  cases agent with
  | main => exact h.main_descends hblocked
  | thread t => exact h.thread_descends hblocked

omit [DecidableEq T] in
theorem Solo.not_crossWait (h : s.Solo) : ¬ s.CrossWait := by
  rintro ⟨t, u, hawaited, howner, hu⟩
  have hphase : s.thread t = .wantDone := by
    cases hphase : s.thread t <;> simp_all [RequestPhase.awaited]
    exact h.not_selfBlocked hphase
  have hrequesting : (s.thread t).requesting = true := by simp [hphase, RequestPhase.requesting]
  have howns := h.owner_done howner
  rcases hu with rfl | hwaiting | hback
  · simp [ownsDone, hphase, RequestPhase.ownsDone] at howns
  · have htu := h.single t u hrequesting (by simp [hwaiting, RequestPhase.requesting])
    simp [← htu, hphase] at hwaiting
  · have htu := h.single t u hrequesting (by simp [hback, RequestPhase.requesting])
    simp [← htu, hphase] at hback

theorem Solo.safe (h : s.Solo) : s.Safe where
  noCrossWait := h.not_crossWait
  noDeadlock := h.not_deadlocked
  consistent := h.consistent

/-- A request that is out of order finds `m_rts` set by another object, which
`request` asserts cannot happen. -/
theorem not_safe_of_not_orderly (hstep : (accessControl T).step label s = some after)
    (horderly : ¬ s.Orderly label) : ¬ after.Safe := by
  intro hsafe
  have hmove := AccessMove.of_step hstep
  cases hmove
  case requestLock t m at_ lock =>
    have := hsafe.consistent t
    simp_all [Orderly, RequestPhase.Consistent]
  case beginNested t verdict m at_ lock =>
    have := hsafe.consistent t
    cases verdict <;> simp_all [Orderly, RequestPhase.Consistent]
  all_goals simp_all [Orderly]

/-- Runs of any number of requesters are safe as long as every request gets
`m_mut` in order, and the first request that does not makes them unsafe. -/
theorem orderly_requests_safe {T : Type} [DecidableEq T] :
    (∀ s : AccessState T, (accessControl T).ReachableWhile Orderly s → s.Safe) ∧
      ∀ (s after : AccessState T) (label : AccessLabel T),
        (accessControl T).ReachableWhile Orderly s → ¬ s.Orderly label →
        (accessControl T).step label s = some after → ¬ after.Safe :=
  ⟨fun _ hreach => (solo_invariant.reachable hreach).safe,
    fun _ _ _ _ horderly hstep => not_safe_of_not_orderly hstep horderly⟩

/-- One requester waits for its answer and a second one comes to `m_mut`. -/
def twoRequests : List (AccessLabel Bool) :=
  [.request false, .thread false, .thread false, .thread false, .thread false,
    .call .mainThreadCTS, .request true]

theorem orderly_requests_safe_twoRequests :
    ∃ s after : AccessState Bool,
      (accessControl Bool).runWhile Orderly twoRequests .init = some s ∧ s.Safe ∧
        (accessControl Bool).step (.thread true) s = some after ∧ ¬ after.Safe := by
  obtain ⟨s, hrun⟩ : ∃ s, (accessControl Bool).runWhile Orderly twoRequests .init = some s :=
    ⟨_, rfl⟩
  have hreach := TransitionSystem.reachableWhile_of_run .init twoRequests hrun
  cases hrun
  refine ⟨_, _, rfl, orderly_requests_safe.1 _ hreach, rfl, ?_⟩
  refine orderly_requests_safe.2 _ _ (.thread true) hreach (fun horderly => ?_) rfl
  exact absurd (horderly rfl : true = false) (by decide)

/-- The second requester goes on to the done mutex of the first, and neither
thread nor the main thread can ever step again. -/
theorem two_requesters_deadlock :
    ∃ s, (accessControl Bool).runWhile
        (fun _ label => label ≠ .call .mainThreadDenyPermanently)
        (twoRequests ++ [.thread true, .thread true]) .init = some s ∧
      s.CrossWait ∧ s.waitGraph.Deadlocked := by
  refine ⟨_, rfl, ⟨true, false, rfl, rfl, .inr (.inl rfl)⟩, Set.univ, ⟨.main, trivial⟩, ?_⟩
  rintro (_ | _ | _) -
  all_goals exact ⟨rfl, fun _ _ => Set.mem_univ _⟩

end AccessState
end OSVR.Connection
