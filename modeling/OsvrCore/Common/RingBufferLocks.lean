/-
# The locks of the ring buffer

`put` takes the bounds lock exclusively and, with it in hand, the lock of the
element it will overwrite. `get` and `getLatest` take the bounds lock sharably,
then the lock of the element, and give the bounds lock back; the element stays
locked as long as the result lives, through later calls of the same reader too.

One step is one lock operation with the local code around it. `Agent.main` is the
producer, and a call that meets an undefined operation has no next step.
-/

import OsvrCore.Common.IPCRingBuffer
import OsvrCore.Math.Mutex
import OsvrCore.Math.SharedMutex
import OsvrCore.Math.Transition

set_option autoImplicit false

namespace OSVR.Common

open Math

/-- What a reader asks for. -/
inductive RingRequest
  | get (num : SequenceNumber)
  | getLatest
  deriving DecidableEq

/-- The element that is looked up under the bounds lock. -/
def RingRequest.lookup (b : Bookkeeping) : RingRequest → Except RingFault (Option RawIndex)
  | .get num => b.getBySequenceNumber num
  | .getLatest => b.back

/-- Where the producer stands. From `wantElement` on it owns the bounds lock. -/
inductive ProducerPhase
  | outside
  | wantBounds
  | wantElement (element : RawIndex)
  | writing (element : RawIndex)
  | leaving
  deriving DecidableEq

/-- Where a reader stands. From `wantElement` on it shares the bounds lock. -/
inductive ReaderPhase
  | outside
  | wantBounds (request : RingRequest)
  | wantElement (element : RawIndex)
  | leaving
  deriving DecidableEq

/-- The ring buffer with its users. A result that lives is named by its element. -/
structure RingLocks (R : Type) where
  bookkeeping : Bookkeeping
  bounds : SharedMutex (Agent R)
  element : RawIndex → SharedMutex (Agent R)
  producer : ProducerPhase
  reader : R → ReaderPhase
  kept : R → List RawIndex

inductive RingLabel (R : Type)
  | put
  | produce
  | get (r : R) (request : RingRequest)
  | read (r : R)
  | drop (r : R) (element : RawIndex)
  deriving DecidableEq

namespace RingLocks

variable {R : Type} [DecidableEq R]

def init (R : Type) (b : Bookkeeping) : RingLocks R where
  bookkeeping := b
  bounds := .free
  element _ := .free
  producer := .outside
  reader _ := .outside
  kept _ := []

def put (s : RingLocks R) : Option (RingLocks R) :=
  if s.producer = .outside then some { s with producer := .wantBounds } else none

/-- The producer inside `put`. Its result unlocks the element before the bounds. -/
def produce (s : RingLocks R) : Option (RingLocks R) :=
  match s.producer with
  | .outside => none
  | .wantBounds =>
      match s.bounds.lock .main, s.bookkeeping.produceElement with
      | some bounds, .ok (b, _, element) =>
          some { s with bookkeeping := b, bounds, producer := .wantElement element }
      | _, _ => none
  | .wantElement element =>
      ((s.element element).lock .main).map fun m =>
        { s with element := Function.update s.element element m, producer := .writing element }
  | .writing element =>
      some { s with
        element := Function.update s.element element (s.element element).unlock
        producer := .leaving }
  | .leaving => some { s with bounds := s.bounds.unlock, producer := .outside }

def get (s : RingLocks R) (r : R) (request : RingRequest) : Option (RingLocks R) :=
  if s.reader r = .outside then
    some { s with reader := Function.update s.reader r (.wantBounds request) }
  else none

/-- A reader inside `get` or `getLatest`. -/
def read (s : RingLocks R) (r : R) : Option (RingLocks R) :=
  match s.reader r with
  | .outside => none
  | .wantBounds request =>
      match s.bounds.lockSharable (.thread r), request.lookup s.bookkeeping with
      | some bounds, .ok found =>
          some { s with
            bounds
            reader := Function.update s.reader r (found.elim .leaving .wantElement) }
      | _, _ => none
  | .wantElement element =>
      ((s.element element).lockSharable (.thread r)).map fun m =>
        { s with
          element := Function.update s.element element m
          reader := Function.update s.reader r .leaving
          kept := Function.update s.kept r (element :: s.kept r) }
  | .leaving =>
      some { s with
        bounds := s.bounds.unlockSharable (.thread r)
        reader := Function.update s.reader r .outside }

/-- The last smart pointer to a result of the reader goes away. -/
def drop (s : RingLocks R) (r : R) (element : RawIndex) : Option (RingLocks R) :=
  if element ∈ s.kept r then
    some { s with
      element := Function.update s.element element
        ((s.element element).unlockSharable (.thread r))
      kept := Function.update s.kept r ((s.kept r).erase element) }
  else none

end RingLocks

/-- One producer and any readers over a ring buffer. -/
def ringLocks (R : Type) [DecidableEq R] (b : Bookkeeping) :
    TransitionSystem (RingLocks R) (RingLabel R) where
  init := .init R b
  step label s :=
    match label with
    | .put => s.put
    | .produce => s.produce
    | .get r request => s.get r request
    | .read r => s.read r
    | .drop r element => s.drop r element

/-! ## What a step can do -/

inductive RingMove {R : Type} [DecidableEq R] (s : RingLocks R) : RingLabel R → RingLocks R → Prop
  | put (at_ : s.producer = .outside) : RingMove s .put { s with producer := .wantBounds }
  | enter (m : SharedMutex (Agent R)) (b : Bookkeeping) (num : SequenceNumber) (e : RawIndex)
      (at_ : s.producer = .wantBounds) (lock : s.bounds.lock .main = some m)
      (produced : s.bookkeeping.produceElement = .ok (b, num, e)) :
      RingMove s .produce { s with bookkeeping := b, bounds := m, producer := .wantElement e }
  | lockElement (e : RawIndex) (m : SharedMutex (Agent R)) (at_ : s.producer = .wantElement e)
      (lock : (s.element e).lock .main = some m) :
      RingMove s .produce { s with
        element := Function.update s.element e m, producer := .writing e }
  | unlockElement (e : RawIndex) (at_ : s.producer = .writing e) :
      RingMove s .produce { s with
        element := Function.update s.element e (s.element e).unlock, producer := .leaving }
  | leave (at_ : s.producer = .leaving) :
      RingMove s .produce { s with bounds := s.bounds.unlock, producer := .outside }
  | get (r : R) (request : RingRequest) (at_ : s.reader r = .outside) :
      RingMove s (.get r request) { s with
        reader := Function.update s.reader r (.wantBounds request) }
  | share (r : R) (request : RingRequest) (m : SharedMutex (Agent R)) (found : Option RawIndex)
      (at_ : s.reader r = .wantBounds request)
      (lock : s.bounds.lockSharable (.thread r) = some m)
      (lookup : request.lookup s.bookkeeping = .ok found) :
      RingMove s (.read r) { s with
        bounds := m
        reader := Function.update s.reader r (found.elim .leaving .wantElement) }
  | shareElement (r : R) (e : RawIndex) (m : SharedMutex (Agent R))
      (at_ : s.reader r = .wantElement e)
      (lock : (s.element e).lockSharable (.thread r) = some m) :
      RingMove s (.read r) { s with
        element := Function.update s.element e m
        reader := Function.update s.reader r .leaving
        kept := Function.update s.kept r (e :: s.kept r) }
  | leaveSharable (r : R) (at_ : s.reader r = .leaving) :
      RingMove s (.read r) { s with
        bounds := s.bounds.unlockSharable (.thread r)
        reader := Function.update s.reader r .outside }
  | drop (r : R) (e : RawIndex) (kept : e ∈ s.kept r) :
      RingMove s (.drop r e) { s with
        element := Function.update s.element e ((s.element e).unlockSharable (.thread r))
        kept := Function.update s.kept r ((s.kept r).erase e) }

namespace RingMove

open RingLocks

variable {R : Type} [DecidableEq R] {s after : RingLocks R} {b : Bookkeeping}

theorem of_produce (hstep : s.produce = some after) : RingMove s .produce after := by
  unfold produce at hstep
  split at hstep
  next => cases hstep
  next hphase =>
    split at hstep
    next hlock hproduced =>
      cases hstep
      exact .enter _ _ _ _ hphase hlock hproduced
    next => cases hstep
  next element hphase =>
    have ⟨m, hlock, hafter⟩ := Option.map_eq_some_iff.mp hstep
    rw [← hafter]
    exact .lockElement element m hphase hlock
  next element hphase =>
    cases hstep
    exact .unlockElement element hphase
  next hphase =>
    cases hstep
    exact .leave hphase

theorem of_read {r : R} (hstep : s.read r = some after) : RingMove s (.read r) after := by
  unfold RingLocks.read at hstep
  split at hstep
  next => cases hstep
  next request hphase =>
    split at hstep
    next hlock hlookup =>
      cases hstep
      exact .share r request _ _ hphase hlock hlookup
    next => cases hstep
  next element hphase =>
    have ⟨m, hlock, hafter⟩ := Option.map_eq_some_iff.mp hstep
    rw [← hafter]
    exact .shareElement r element m hphase hlock
  next hphase =>
    cases hstep
    exact .leaveSharable r hphase

/-- Every step of the system is one of the moves. -/
theorem of_step {label : RingLabel R} (hstep : (ringLocks R b).step label s = some after) :
    RingMove s label after := by
  cases label with
  | put =>
      have ⟨hphase, hafter⟩ := Option.ite_none_right_eq_some.mp hstep
      cases hafter
      exact .put hphase
  | produce => exact of_produce hstep
  | get r request =>
      have ⟨hphase, hafter⟩ := Option.ite_none_right_eq_some.mp hstep
      cases hafter
      exact .get r request hphase
  | read r => exact of_read hstep
  | drop r element =>
      have ⟨hkept, hafter⟩ := Option.ite_none_right_eq_some.mp hstep
      cases hafter
      exact .drop r element hkept

end RingMove

/-! ## Ownership -/

namespace ProducerPhase

def ownsBounds : ProducerPhase → Bool
  | .wantElement _ | .writing _ | .leaving => true
  | .outside | .wantBounds => false

def writes (element : RawIndex) : ProducerPhase → Bool
  | .writing written => written == element
  | .outside | .wantBounds | .wantElement _ | .leaving => false

end ProducerPhase

namespace ReaderPhase

def awaitsBounds : ReaderPhase → Bool
  | .wantBounds _ => true
  | .outside | .wantElement _ | .leaving => false

/-- How often the reader shares the bounds lock. -/
def boundsShares : ReaderPhase → ℕ
  | .wantElement _ | .leaving => 1
  | .outside | .wantBounds _ => 0

end ReaderPhase

namespace RingLocks

variable {R : Type} [DecidableEq R] {s after : RingLocks R} {label : RingLabel R}

/-- The locks agree with the phases and with the results that live. -/
structure Owned (s : RingLocks R) : Prop where
  bounds : s.bounds.Agrees
    (Agent.read ProducerPhase.ownsBounds (fun _ => false) s.producer s.reader)
    (Agent.read (fun _ => 0) ReaderPhase.boundsShares s.producer s.reader)
  element : ∀ e, (s.element e).Agrees
    (Agent.read (ProducerPhase.writes e) (fun _ => false) s.producer s.kept)
    (Agent.read (fun _ => 0) (List.count e) s.producer s.kept)

theorem Owned.move_bounds (h : s.Owned) (hmove : RingMove s label after) :
    after.bounds.Agrees
      (Agent.read ProducerPhase.ownsBounds (fun _ => false) after.producer after.reader)
      (Agent.read (fun _ => 0) ReaderPhase.boundsShares after.producer after.reader) := by
  have hbounds := h.bounds
  cases hmove
  case put | enter | lockElement | unlockElement | leave =>
    rw [Agent.read_next ProducerPhase.ownsBounds _ s.producer,
      Agent.read_next (fun _ => 0) ReaderPhase.boundsShares s.producer]
    first
    | exact hbounds.lock (by assumption) rfl
    | exact hbounds.unlock (by simp [*, ProducerPhase.ownsBounds]) rfl
    | exact hbounds.keep (by simp [*, ProducerPhase.ownsBounds]) rfl
  case get at_ | shareElement at_ _ =>
    rw [Agent.read_update ProducerPhase.ownsBounds,
      Agent.read_update (fun _ => 0) ReaderPhase.boundsShares]
    exact hbounds.keep rfl (by simp [at_, ReaderPhase.boundsShares])
  case share r request m found at_ lock lookup =>
    have hshares : (found.elim .leaving .wantElement : ReaderPhase).boundsShares =
        Agent.read (fun _ => 0) ReaderPhase.boundsShares s.producer s.reader (.thread r) + 1 := by
      cases found <;> simp [at_, ReaderPhase.boundsShares]
    rw [Agent.read_update ProducerPhase.ownsBounds,
      Agent.read_update (fun _ => 0) ReaderPhase.boundsShares, hshares]
    exact hbounds.lockSharable lock rfl
  case leaveSharable r at_ =>
    have hshares : ReaderPhase.boundsShares .outside =
        Agent.read (fun _ => 0) ReaderPhase.boundsShares s.producer s.reader (.thread r) - 1 := by
      simp [at_, ReaderPhase.boundsShares]
    rw [Agent.read_update ProducerPhase.ownsBounds,
      Agent.read_update (fun _ => 0) ReaderPhase.boundsShares, hshares]
    exact hbounds.unlockSharable rfl
  case drop => exact hbounds

theorem Owned.move_element (h : s.Owned) (hmove : RingMove s label after) (e : RawIndex) :
    (after.element e).Agrees
      (Agent.read (ProducerPhase.writes e) (fun _ => false) after.producer after.kept)
      (Agent.read (fun _ => 0) (List.count e) after.producer after.kept) := by
  have helement := h.element e
  cases hmove
  case put at_ | enter at_ _ _ | leave at_ =>
    rw [Agent.read_next (ProducerPhase.writes e) _ s.producer,
      Agent.read_next (fun _ => 0) (List.count e) s.producer]
    exact helement.keep (by simp [at_, ProducerPhase.writes]) rfl
  case lockElement written m at_ lock =>
    rw [Agent.read_next (ProducerPhase.writes e) _ s.producer,
      Agent.read_next (fun _ => 0) (List.count e) s.producer]
    dsimp only
    by_cases he : e = written
    · subst he
      simpa [ProducerPhase.writes] using helement.lock lock rfl
    · rw [Function.update_of_ne he]
      exact helement.keep (by simp [at_, ProducerPhase.writes, Ne.symm he]) rfl
  case unlockElement written at_ =>
    rw [Agent.read_next (ProducerPhase.writes e) _ s.producer,
      Agent.read_next (fun _ => 0) (List.count e) s.producer]
    dsimp only
    by_cases he : e = written
    · subst he
      rw [Function.update_self]
      exact helement.unlock (by simp [at_, ProducerPhase.writes]) rfl
    · rw [Function.update_of_ne he]
      exact helement.keep (by simp [at_, ProducerPhase.writes, Ne.symm he]) rfl
  case shareElement r written m at_ lock =>
    rw [Agent.read_update (ProducerPhase.writes e), Agent.read_update (fun _ => 0) (List.count e)]
    dsimp only
    by_cases he : e = written
    · subst he
      rw [Function.update_self, List.count_cons_self]
      exact helement.lockSharable lock rfl
    · rw [Function.update_of_ne he, List.count_cons_of_ne (Ne.symm he)]
      exact helement.keep rfl rfl
  case drop r dropped kept =>
    rw [Agent.read_update (ProducerPhase.writes e), Agent.read_update (fun _ => 0) (List.count e)]
    dsimp only
    by_cases he : e = dropped
    · subst he
      rw [Function.update_self, List.count_erase_self]
      exact helement.unlockSharable rfl
    · rw [Function.update_of_ne he, List.count_erase_of_ne he]
      exact helement.keep rfl rfl
  case get | share | leaveSharable => exact helement

theorem owned_init (b : Bookkeeping) : (init R b).Owned where
  bounds := by
    have hnone : Agent.read ProducerPhase.ownsBounds (fun _ : ReaderPhase => false)
        ProducerPhase.outside (fun _ : R => .outside) = fun _ => false := by
      funext agent
      cases agent <;> rfl
    have hzero : Agent.read (fun _ : ProducerPhase => 0) ReaderPhase.boundsShares
        ProducerPhase.outside (fun _ : R => .outside) = fun _ => 0 := by
      funext agent
      cases agent <;> rfl
    simpa [init, hnone, hzero] using SharedMutex.agrees_free
  element e := by
    have hnone : Agent.read (ProducerPhase.writes e) (fun _ : List RawIndex => false)
        ProducerPhase.outside (fun _ : R => []) = fun _ => false := by
      funext agent
      cases agent <;> rfl
    have hzero : Agent.read (fun _ : ProducerPhase => 0) (List.count e)
        ProducerPhase.outside (fun _ : R => []) = fun _ => 0 := by
      funext agent
      cases agent <;> rfl
    simpa [init, hnone, hzero] using SharedMutex.agrees_free

theorem Owned.move (h : s.Owned) (hmove : RingMove s label after) : after.Owned where
  bounds := h.move_bounds hmove
  element := h.move_element hmove

/-- A result that lives keeps its element locked. -/
theorem Owned.mem_sharable_iff (h : s.Owned) {r : R} {e : RawIndex} :
    .thread r ∈ (s.element e).sharable ↔ e ∈ s.kept r := by
  rw [(h.element e).mem_sharable_iff, Agent.read_thread, List.count_pos_iff]

/-! ## Waiting across the two locks -/

/-- The producer owns the bounds lock and waits for an element that is locked by a
reader which itself waits for the bounds lock. -/
def CrossWait (s : RingLocks R) : Prop :=
  s.bounds.exclusive = some .main ∧ ∃ e r, s.producer = .wantElement e ∧
    .thread r ∈ (s.element e).sharable ∧ (s.reader r).awaitsBounds = true

omit [DecidableEq R] in
/-- A cross wait in terms of the results that live. -/
theorem Owned.crossWait_iff [DecidableEq R] (h : s.Owned) :
    s.CrossWait ↔ ∃ e r, s.producer = .wantElement e ∧ e ∈ s.kept r ∧
      (s.reader r).awaitsBounds = true := by
  simp only [CrossWait, h.mem_sharable_iff]
  constructor
  · intro ⟨_, hwaits⟩
    exact hwaits
  · intro ⟨e, r, hproducer, hwaits⟩
    have howns := (h.bounds.exclusive_iff .main).mpr (by simp [hproducer, ProducerPhase.ownsBounds])
    exact ⟨howns, e, r, hproducer, hwaits⟩

/-- After a step of one reader to a phase without a wait, only another can be waiting. -/
theorem awaitsBounds_update {reader : R → ReaderPhase} {r waiting : R} {phase : ReaderPhase}
    (hphase : phase.awaitsBounds = false)
    (hwaits : (Function.update reader r phase waiting).awaitsBounds = true) :
    waiting ≠ r ∧ (reader waiting).awaitsBounds = true := by
  by_cases hr : waiting = r
  · rw [hr, Function.update_self, hphase] at hwaits
    cases hwaits
  · rw [Function.update_of_ne hr] at hwaits
    exact ⟨hr, hwaits⟩

theorem awaitsBounds_found (found : Option RawIndex) :
    (found.elim .leaving .wantElement : ReaderPhase).awaitsBounds = false := by
  cases found <;> rfl

/-! ## Readers that keep nothing during a call -/

/-- Nobody starts a call while an earlier result lives. -/
def Tidy (s : RingLocks R) : RingLabel R → Prop
  | .get r _ => s.kept r = []
  | .put | .produce | .read _ | .drop _ _ => True

/-- A reader that waits for the bounds lock keeps nothing. -/
def EmptyHanded (s : RingLocks R) : Prop :=
  ∀ r, (s.reader r).awaitsBounds = true → s.kept r = []

theorem EmptyHanded.move (h : s.EmptyHanded) (htidy : s.Tidy label)
    (hmove : RingMove s label after) : after.EmptyHanded := by
  intro waiting hwaits
  cases hmove
  case get r request at_ =>
    dsimp only at hwaits ⊢
    by_cases hr : waiting = r
    · rw [hr]
      exact htidy
    · rw [Function.update_of_ne hr] at hwaits
      exact h waiting hwaits
  case share r request m found at_ lock lookup =>
    exact h waiting (awaitsBounds_update (awaitsBounds_found found) hwaits).2
  case shareElement r written m at_ lock =>
    have ⟨hne, hother⟩ := awaitsBounds_update rfl hwaits
    dsimp only
    rw [Function.update_of_ne hne]
    exact h waiting hother
  case leaveSharable r at_ => exact h waiting (awaitsBounds_update rfl hwaits).2
  case drop r dropped kept =>
    dsimp only at hwaits ⊢
    by_cases hr : waiting = r
    · rw [hr, Function.update_self, h r (hr ▸ hwaits)]
      rfl
    · rw [Function.update_of_ne hr]
      exact h waiting hwaits
  all_goals exact h waiting hwaits

/-- What readers keep that drop each result before they ask for the next one. -/
theorem tidy_invariant (b : Bookkeeping) :
    (ringLocks R b).Invariant Tidy fun s => s.Owned ∧ s.EmptyHanded where
  init := ⟨owned_init b, fun _ _ => rfl⟩
  step h htidy hstep :=
    have hmove := RingMove.of_step hstep
    ⟨h.1.move hmove, h.2.move htidy hmove⟩

theorem owned_reachable {b : Bookkeeping} (hreach : (ringLocks R b).Reachable s) : s.Owned := by
  have hinvariant : (ringLocks R b).Invariant (fun _ _ => True) Owned :=
    ⟨owned_init b, fun h _ hstep => h.move (RingMove.of_step hstep)⟩
  exact hinvariant.reachable hreach

/-- Any number of readers over any ring: while they all drop each result before they ask
for the next one, the producer and no reader wait for each other. A reader that asks
while it keeps the element that a `put` waits for leaves two that do. -/
theorem tidy_not_crossWait {R : Type} [DecidableEq R] (b : Bookkeeping) :
    (∀ s, (ringLocks R b).ReachableWhile Tidy s → ¬ s.CrossWait) ∧
      ∀ (s after : RingLocks R) (r : R) (request : RingRequest) (e : RawIndex),
        (ringLocks R b).Reachable s → s.producer = .wantElement e → e ∈ s.kept r →
        (ringLocks R b).step (.get r request) s = some after → after.CrossWait := by
  constructor
  · intro s hreach hcross
    have ⟨howned, hempty⟩ := (tidy_invariant b).reachable hreach
    have ⟨e, r, _, hkept, hwaits⟩ := howned.crossWait_iff.mp hcross
    rw [hempty r hwaits] at hkept
    exact List.not_mem_nil hkept
  · intro s after r request e hreach hproducer hkept hstep
    have hafter := owned_reachable (.step hreach trivial hstep)
    rw [hafter.crossWait_iff]
    cases RingMove.of_step hstep
    refine ⟨e, r, hproducer, hkept, ?_⟩
    dsimp only
    rw [Function.update_self]
    rfl

/-! ## A result kept during a call -/

instance (s : RingLocks R) : DecidablePred s.Tidy
  | .put | .produce | .read _ | .drop _ _ => .isTrue trivial
  | .get r _ => inferInstanceAs (Decidable (s.kept r = []))

/-- One image put, and kept by the only reader. -/
def keepOne : List (RingLabel Unit) :=
  [.put, .produce, .produce, .produce, .produce, .get () .getLatest, .read (), .read (), .read ()]

/-- The reader drops its image and asks for the next one, while a second `put` waits for
its element. -/
def dropFirst : List (RingLabel Unit) :=
  keepOne ++ [.put, .produce, .drop () 0, .get () .getLatest]

/-- The reader asks for the next image and a second `put` reaches the bounds lock first. -/
def putFirst : List (RingLabel Unit) := keepOne ++ [.put, .get () .getLatest]

theorem tidy_not_crossWait_dropFirst :
    (∃ s : RingLocks Unit, (ringLocks Unit (.init 1 4)).runWhile Tidy dropFirst
        (.init Unit (.init 1 4)) = some s ∧ s.producer = .wantElement 0 ∧ ¬ s.CrossWait) ∧
      ∃ s after : RingLocks Unit, (ringLocks Unit (.init 1 4)).runWhile (fun _ _ => True)
          (keepOne ++ [.put, .produce]) (.init Unit (.init 1 4)) = some s ∧
        (ringLocks Unit (.init 1 4)).step (.get () .getLatest) s = some after ∧
        after.CrossWait := by
  constructor
  · have ⟨s, hrun⟩ : ∃ s, (ringLocks Unit (.init 1 4)).runWhile Tidy dropFirst
        (.init Unit (.init 1 4)) = some s := ⟨_, rfl⟩
    have hreach := TransitionSystem.reachableWhile_of_run .init dropFirst hrun
    cases hrun
    exact ⟨_, rfl, rfl, (tidy_not_crossWait (.init 1 4)).1 _ hreach⟩
  · have ⟨s, hrun⟩ : ∃ s, (ringLocks Unit (.init 1 4)).runWhile (fun _ _ => True)
        (keepOne ++ [.put, .produce]) (.init Unit (.init 1 4)) = some s := ⟨_, rfl⟩
    have hreach := TransitionSystem.reachableWhile_of_run .init (keepOne ++ [.put, .produce]) hrun
    cases hrun
    exact ⟨_, _, rfl, rfl, (tidy_not_crossWait (.init 1 4)).2 _ _ () .getLatest 0 hreach rfl
      (List.mem_singleton_self _) rfl⟩

/-- The producer and the reader wait for each other. -/
theorem keeping_crossWait :
    ∃ s : RingLocks Unit,
      (ringLocks Unit (.init 1 4)).runWhile (fun _ _ => True) (putFirst ++ [.produce])
        (.init Unit (.init 1 4)) = some s ∧ s.CrossWait := by
  refine ⟨_, rfl, rfl, 0, (), rfl, ?_, rfl⟩
  exact List.mem_singleton_self _

end RingLocks

end OSVR.Common
