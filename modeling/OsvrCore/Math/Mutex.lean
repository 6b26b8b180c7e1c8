/-
# Mutexes and what their users believe about them

A mutex records its owner; a recursive mutex also counts levels. A model of its
users knows from their program counters who should own it. `Agrees` connects
the two, acquiring and releasing keep the agreement, and two users can never
both believe to own an agreeing mutex.

The users are often one thread with a program of its own and any number of
threads that share a second program; `Agent` names these.
-/

import Mathlib.Data.Nat.Notation
import Mathlib.Logic.Function.Basic

set_option autoImplicit false

namespace OSVR.Math

universe u

/-- The main thread or one of the threads of `T`. -/
inductive Agent (T : Type)
  | main
  | thread (t : T)
  deriving DecidableEq

namespace Agent

variable {T : Type} {μ : Type} {π : Type} {β : Type}

/-- What an agent's program counter says. -/
def read (ofMain : μ → β) (ofThread : π → β) (main : μ) (thread : T → π) : Agent T → β
  | .main => ofMain main
  | .thread t => ofThread (thread t)

variable [DecidableEq T] (ofMain : μ → β) (ofThread : π → β) (main next : μ) (thread : T → π)

omit [DecidableEq T] in
@[simp] theorem read_main : read ofMain ofThread main thread .main = ofMain main := rfl

omit [DecidableEq T] in
@[simp] theorem read_thread (t : T) :
    read ofMain ofThread main thread (.thread t) = ofThread (thread t) := rfl

/-- A step of one thread changes what that thread's counter says. -/
theorem read_update (t : T) (phase : π) :
    read ofMain ofThread main (Function.update thread t phase) =
      Function.update (read ofMain ofThread main thread) (.thread t) (ofThread phase) := by
  funext agent
  rcases agent with _ | u
  · rfl
  · by_cases hu : u = t <;> simp [hu]

/-- A step of the main thread changes what its counter says. -/
theorem read_next :
    read ofMain ofThread next thread =
      Function.update (read ofMain ofThread main thread) .main (ofMain next) := by
  funext agent
  rcases agent with _ | u <;> simp

end Agent

variable {α : Type u} [DecidableEq α]

/-- A mutex that its owner must not acquire again. -/
structure Mutex (α : Type u) where
  owner : Option α
  deriving DecidableEq

namespace Mutex

def free : Mutex α := ⟨none⟩

omit [DecidableEq α] in
@[simp] theorem owner_free : (free : Mutex α).owner = none := rfl

/-- Acquire; `none` while it is owned, by anybody. -/
def lock (m : Mutex α) (agent : α) : Option (Mutex α) :=
  match m.owner with
  | none => some ⟨some agent⟩
  | some _ => none

/-- Exactly the owner believes to own the mutex. -/
def Agrees (m : Mutex α) (owns : α → Bool) : Prop :=
  ∀ agent, m.owner = some agent ↔ owns agent = true

variable {m after : Mutex α} {owns : α → Bool} {agent other : α}

omit [DecidableEq α] in
theorem lock_eq_some_iff :
    m.lock agent = some after ↔ m.owner = none ∧ after = ⟨some agent⟩ := by
  unfold lock
  cases m.owner <;> simp [eq_comm]

omit [DecidableEq α] in
/-- Acquiring is blocked by any owner. -/
theorem lock_eq_none_iff : m.lock agent = none ↔ ∃ owner, m.owner = some owner := by
  unfold lock
  cases m.owner <;> simp

omit [DecidableEq α] in
theorem Agrees.unique (h : m.Agrees owns) (hagent : owns agent = true)
    (hother : owns other = true) : agent = other := by
  have howner := (h agent).mpr hagent
  rw [(h other).mpr hother] at howner
  exact (Option.some.inj howner).symm

omit [DecidableEq α] in
/-- Nobody can acquire a mutex that a user owns. -/
theorem Agrees.lock_eq_none (h : m.Agrees owns) (hother : owns other = true) :
    m.lock agent = none := by
  simp [lock, (h other).mpr hother]

/-- A user whose belief does not change keeps the agreement. -/
theorem Agrees.keep (h : m.Agrees owns) {value : Bool} (hsame : owns agent = value) :
    m.Agrees (Function.update owns agent value) := by
  rwa [← hsame, Function.update_eq_self]

theorem Agrees.lock (h : m.Agrees owns) (hlock : m.lock agent = some after) :
    after.Agrees (Function.update owns agent true) := by
  obtain ⟨hfree, rfl⟩ := lock_eq_some_iff.mp hlock
  intro user
  by_cases huser : user = agent
  · simp [huser]
  · have hnot := h user
    rw [hfree] at hnot
    simp only [Function.update_of_ne huser, Option.some.injEq, ← hnot]
    simp [Ne.symm huser]

theorem Agrees.free (h : m.Agrees owns) (hagent : owns agent = true) :
    (Mutex.free : Mutex α).Agrees (Function.update owns agent false) := by
  intro user
  by_cases huser : user = agent
  · simp [huser]
  · have hnot : owns user ≠ true := fun howns => huser (h.unique howns hagent)
    simp [Function.update_of_ne huser, hnot]

end Mutex

/-- A mutex that its owner can acquire again. -/
structure RecursiveMutex (α : Type u) where
  owner : Option α
  count : ℕ
  deriving DecidableEq

namespace RecursiveMutex

def free : RecursiveMutex α := ⟨none, 0⟩

/-- Acquire one level; `none` while somebody else owns it. -/
def lock (m : RecursiveMutex α) (agent : α) : Option (RecursiveMutex α) :=
  match m.owner with
  | none => some ⟨some agent, 1⟩
  | some owner => if owner = agent then some ⟨some agent, m.count + 1⟩ else none

/-- Release one level. -/
def unlock (m : RecursiveMutex α) : RecursiveMutex α :=
  ⟨if m.count ≤ 1 then none else m.owner, m.count - 1⟩

/-- The owner is the one user with levels, and the count is its number of levels. -/
structure Agrees (m : RecursiveMutex α) (depth : α → ℕ) : Prop where
  owner_iff : ∀ agent, m.owner = some agent ↔ 0 < depth agent
  count_eq : ∀ agent, m.owner = some agent → m.count = depth agent

variable {m after : RecursiveMutex α} {depth : α → ℕ} {agent other : α}

omit [DecidableEq α] in
theorem agrees_free : (free : RecursiveMutex α).Agrees fun _ => 0 where
  owner_iff agent := by simp [free]
  count_eq agent := by simp [free]

omit [DecidableEq α] in
theorem Agrees.unique (h : m.Agrees depth) (hagent : 0 < depth agent) (hother : 0 < depth other) :
    agent = other := by
  have howner := (h.owner_iff agent).mpr hagent
  rw [(h.owner_iff other).mpr hother] at howner
  exact (Option.some.inj howner).symm

/-- Acquiring is blocked exactly by another owner. -/
theorem lock_eq_none_iff :
    m.lock agent = none ↔ ∃ owner, m.owner = some owner ∧ owner ≠ agent := by
  unfold lock
  cases m.owner with
  | none => simp
  | some owner => by_cases howner : owner = agent <;> simp [howner]

/-- A user whose number of levels does not change keeps the agreement. -/
theorem Agrees.keep (h : m.Agrees depth) {value : ℕ} (hsame : depth agent = value) :
    m.Agrees (Function.update depth agent value) := by
  rwa [← hsame, Function.update_eq_self]

theorem Agrees.lock (h : m.Agrees depth) (hlock : m.lock agent = some after) :
    after.Agrees (Function.update depth agent (depth agent + 1)) := by
  unfold RecursiveMutex.lock at hlock
  cases howner : m.owner with
  | none =>
      have hzero (user : α) : depth user = 0 := by
        have hnot := h.owner_iff user
        simp only [howner, reduceCtorEq, false_iff, Nat.not_lt, Nat.le_zero] at hnot
        exact hnot
      simp only [howner, Option.some.injEq] at hlock
      subst hlock
      constructor <;> intro user <;> by_cases huser : user = agent
      · simp [huser]
      · simp [Function.update_of_ne huser, hzero, Ne.symm huser]
      · simp [huser, hzero]
      · simp [Ne.symm huser]
  | some owner =>
      simp only [howner, Option.ite_none_right_eq_some, Option.some.injEq] at hlock
      obtain ⟨rfl, rfl⟩ := hlock
      constructor <;> intro user <;> by_cases huser : user = owner
      · simp [huser]
      · have hnot := h.owner_iff user
        simp [Function.update_of_ne huser, ← hnot, howner]
      · simp [huser, h.count_eq owner howner]
      · simp [Ne.symm huser]

theorem Agrees.unlock (h : m.Agrees depth) (hagent : 0 < depth agent) :
    m.unlock.Agrees (Function.update depth agent (depth agent - 1)) := by
  have howner := (h.owner_iff agent).mpr hagent
  have hcount := h.count_eq agent howner
  have hothers (user : α) (huser : user ≠ agent) : depth user = 0 := by
    by_contra hpos
    exact huser (h.unique (Nat.pos_of_ne_zero hpos) hagent)
  by_cases hlast : m.count ≤ 1
  · constructor <;> intro user <;> by_cases huser : user = agent
    · subst user
      simp only [RecursiveMutex.unlock, hlast, ↓reduceIte, Function.update_self]
      simp only [reduceCtorEq, false_iff]
      omega
    · simp [RecursiveMutex.unlock, hlast, Function.update_of_ne huser, hothers user huser]
    · simp [RecursiveMutex.unlock, hlast]
    · simp [RecursiveMutex.unlock, hlast]
  · constructor <;> intro user <;> by_cases huser : user = agent
    · subst user
      simp only [RecursiveMutex.unlock, hlast, ↓reduceIte, howner, Function.update_self, true_iff]
      omega
    · simp [RecursiveMutex.unlock, hlast, howner, Function.update_of_ne huser, hothers user huser,
        Ne.symm huser]
    · subst user
      simp [RecursiveMutex.unlock, hcount]
    · simp [RecursiveMutex.unlock, hlast, howner, Ne.symm huser]

end RecursiveMutex
end OSVR.Math
