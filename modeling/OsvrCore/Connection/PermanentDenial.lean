/-
# Permanent denial

After `mainThreadDenyPermanently` has returned, the message stays a denial. A
request that finds it never waits, so it keeps `m_mut` from its entry to its
destructor, and the main thread can never find a request to answer otherwise.
This needs that only one thread requests: a second one could be waiting.
-/

import OsvrCore.Connection.AccessExclusive

set_option autoImplicit false

namespace OSVR.Connection

open Math

/-- Does the main thread start a call? -/
def AccessLabel.isCall {T : Type} : AccessLabel T → Bool
  | .call _ => true
  | .main | .request _ | .thread _ | .destroy _ => false

namespace AccessState

variable {T : Type}

/-- The step is the one in which `request` returns true: the test of the message
of an ordinary request, or the nesting test. -/
def ReturnsTrue (s : AccessState T) : AccessLabel T → Prop
  | .thread t =>
      match s.thread t with
      | .testing => s.mainMessage = .clearToSend
      | .entered | .nestedEntered _ => s.rts = true ∧ s.currentRequestThread = some t
      | .outside | .wantMut | .wantDone | .waiting | .wantMutBack | .holding _ | .selfBlocked _
      | .releasedMut _ => False
  | .call _ | .main | .request _ | .destroy _ => False

/-! ## One requesting thread -/

variable {s after : AccessState Unit} {label : AccessLabel Unit}

/-- What every run with one requesting thread keeps. -/
structure OneRequester (s : AccessState Unit) : Prop where
  exclusive : s.Exclusive
  cleared : s.done = true → s.rts = false
  current : s.currentRequestThread ≠ none →
    0 < (s.thread ()).mutDepth ∧ ∃ call, (s.thread ()).verdict = some (.granted call)

theorem oneRequester_init : (init : AccessState Unit).OneRequester where
  exclusive := exclusive_init
  cleared := by simp [init]
  current := by simp [init]

theorem OneRequester.move_cleared (h : s.OneRequester) (hmove : AccessMove s label after) :
    after.done = true → after.rts = false := by
  have hcleared := h.cleared
  cases hmove
  all_goals simp_all

theorem OneRequester.move_current (h : s.OneRequester) (hmove : AccessMove s label after)
    (hcurrent : after.currentRequestThread ≠ none) :
    0 < (after.thread ()).mutDepth ∧
      ∃ call, (after.thread ()).verdict = some (.granted call) := by
  have hold := h.current
  cases hmove
  case selfLockDone t verdict m at_ lock =>
    exact absurd lock (h.exclusive.owned.not_selfLockDone at_)
  all_goals simp_all [RequestPhase.verdict, RequestPhase.mutDepth]

theorem oneRequester_invariant :
    (accessControl Unit).Invariant (fun _ _ => True) OneRequester where
  init := oneRequester_init
  step h _ hstep :=
    have hmove := AccessMove.of_step hstep
    { exclusive := exclusive_invariant.step h.exclusive trivial hstep
      cleared := h.move_cleared hmove
      current := h.move_current hmove }

/-- Outside of the wait for its requester the main thread has granted nothing. -/
theorem OneRequester.current_eq_none (h : s.OneRequester) (hmain : s.main.awaiting = false) :
    s.currentRequestThread = none := by
  by_contra hcurrent
  have ⟨_, call, hverdict⟩ := h.current hcurrent
  have hawaiting := (h.exclusive.granted () call hverdict).1
  simp [hmain] at hawaiting

/-! ## After the return -/

/-- The state in which nothing can be granted any more. -/
structure Denied (s : AccessState Unit) : Prop where
  message : s.mainMessage = .denySend
  current : s.currentRequestThread = none
  keeps : s.rts = true → 0 < (s.thread ()).mutDepth
  idle : s.main.handling = false

/-- Nothing that either thread does ends a denial. -/
theorem Denied.move (hdenied : s.Denied) (h : s.OneRequester) (hmove : AccessMove s label after) :
    after.Denied := by
  have ⟨hmessage, hcurrent, hkeeps, hidle⟩ := hdenied
  cases hmove
  case respond call at_ rts =>
    have hmain := h.exclusive.owned.main_mut (hkeeps rts)
    simp [at_, MainPhase.mutDepth] at hmain
  case release call at_ | mainLockDone call _ at_ _ | restore call at_ _ | mainWait call at_ _ |
      mainWake call at_ =>
    simp [at_, MainPhase.handling] at hidle
  all_goals
    constructor
    all_goals simp_all [RequestPhase.mutDepth, MainPhase.handling]

theorem Denied.not_returnsTrue (hdenied : s.Denied) (label : AccessLabel Unit) :
    ¬ s.ReturnsTrue label := by
  have ⟨hmessage, hcurrent, _, _⟩ := hdenied
  intro hreturns
  unfold ReturnsTrue at hreturns
  split at hreturns
  · split at hreturns <;> simp_all
  all_goals exact hreturns

/-! ## During the call -/

/-- Where `mainThreadDenyPermanently` stands, up to its return and after it. -/
inductive Denying (s : AccessState Unit) : Prop
  | called (at_ : s.main = .wantMut .mainThreadDenyPermanently ∨
      s.main = .locked .mainThreadDenyPermanently)
  | answered (at_ : s.main = .responded .mainThreadDenyPermanently ∨
      s.main = .wantDone .mainThreadDenyPermanently ∨
      s.main = .checking .mainThreadDenyPermanently ∨
      s.main = .waiting .mainThreadDenyPermanently) (message : s.mainMessage = .denySend)
  | denied (denied : s.Denied)

theorem Denying.move (hdenying : s.Denying) (h : s.OneRequester) (hafter : after.OneRequester)
    (hmove : AccessMove s label after) (hlabel : label.isCall = false) : after.Denying := by
  cases hdenying with
  | called at_ =>
      have hcurrent := h.current_eq_none (by cases at_ <;> simp_all [MainPhase.awaiting])
      cases hmove
      case respond call _ rts =>
        have hcall : call = .mainThreadDenyPermanently := by simp_all
        exact .answered (.inl (by simp [hcall])) (by simp [hcall, MainCall.response])
      case denyFuture _ rts =>
        exact .denied ⟨rfl, hcurrent, by simp [rts], rfl⟩
      case beginCall kind _ => cases hlabel
      all_goals exact .called (by simp_all)
  | answered at_ message =>
      cases hmove
      case restore call at_' done =>
        have hcall : call = .mainThreadDenyPermanently := by simp_all
        have hrts := h.cleared done
        exact .denied ⟨by simp [hcall, MainCall.postCompletionState],
          hafter.current_eq_none rfl, by simp [hrts], rfl⟩
      case beginCall kind _ => cases hlabel
      all_goals exact .answered (by simp_all) (by simp_all)
  | denied denied => exact .denied (denied.move h hmove)

theorem Denying.denied_of_outside (hdenying : s.Denying) (hmain : s.main = .outside) :
    s.Denied := by
  cases hdenying with
  | called at_ => simp [hmain] at at_
  | answered at_ message => simp [hmain] at at_
  | denied denied => exact denied

/-! ## Runs -/

/-- A call of `mainThreadDenyPermanently` that starts in any reachable state and
has returned: whatever steps and calls follow, no step is one in which a request
returns true, so no request that starts after the return ever does. -/
theorem denied_permanently {before called returned s : AccessState Unit}
    (during later : List (AccessLabel Unit)) (hreach : (accessControl Unit).Reachable before)
    (hcall : (accessControl Unit).step (.call .mainThreadDenyPermanently) before = some called)
    (hduring : (accessControl Unit).runWhile (fun _ label => label.isCall = false) during called =
      some returned)
    (hreturned : returned.main = .outside)
    (hlater : (accessControl Unit).runWhile (fun _ _ => True) later returned = some s)
    (label : AccessLabel Unit) : ¬ s.ReturnsTrue label := by
  have hcalled : called.main = .wantMut .mainThreadDenyPermanently := by
    simp only [accessControl, beginCall] at hcall
    split at hcall
    next => cases hcall; rfl
    next => cases hcall
  have hdenying : called.Denying := .called (.inl hcalled)
  obtain ⟨hreachReturned, hend⟩ := TransitionSystem.keeps_of_run
    (fun hreach holds hlabel hstep => holds.move (oneRequester_invariant.reachable hreach)
      (oneRequester_invariant.reachable (.step hreach trivial hstep)) (AccessMove.of_step hstep)
      hlabel)
    (.step hreach trivial hcall) hdenying during hduring
  obtain ⟨_, hdenied⟩ := TransitionSystem.keeps_of_run
    (fun hreach holds _ hstep => Denied.move holds (oneRequester_invariant.reachable hreach)
      (AccessMove.of_step hstep))
    hreachReturned (hend.denied_of_outside hreturned) later hlater
  exact hdenied.not_returnsTrue label

/-- A request that waits for its answer. -/
def requestWaits : List (AccessLabel Unit) :=
  [.request (), .thread (), .thread (), .thread (), .thread ()]

/-- The main thread denies the request, which it finds in flight. -/
def denyInFlight : List (AccessLabel Unit) :=
  [.main, .main, .main, .thread (), .thread (), .thread (), .destroy (), .thread (), .main,
    .main, .main]

/-- Later it offers to clear the next request, which finds the denial and tests it. -/
def offerAfterwards : List (AccessLabel Unit) :=
  [.call .mainThreadCTS, .request (), .thread (), .thread (), .thread ()]

theorem denied_permanently_inFlight :
    ∃ before called returned s : AccessState Unit,
      (accessControl Unit).runWhile (fun _ _ => True) requestWaits .init = some before ∧
      (accessControl Unit).step (.call .mainThreadDenyPermanently) before = some called ∧
      (accessControl Unit).runWhile (fun _ label => label.isCall = false) denyInFlight called =
        some returned ∧
      (accessControl Unit).runWhile (fun _ _ => True) offerAfterwards returned = some s ∧
      s.thread () = .testing ∧ ¬ s.ReturnsTrue (.thread ()) :=
  ⟨_, _, _, _, rfl, rfl, rfl, rfl, rfl,
    denied_permanently denyInFlight offerAfterwards
      (TransitionSystem.reachableWhile_of_run .init requestWaits rfl) rfl rfl rfl rfl _⟩

end AccessState
end OSVR.Connection
