/-
# Mutexes with sharable ownership

Such a mutex has one exclusive owner or any number of sharable ones, and a user
may own it sharably several times. What the users believe about it is known from
their program counters and from the locks they keep; `Agrees` connects the two,
and every operation keeps the agreement.
-/

import Mathlib.Data.List.Count
import Mathlib.Logic.Function.Basic

set_option autoImplicit false

namespace OSVR.Math

universe u

/-- Exclusive and sharable ownership exclude each other. -/
structure SharedMutex (α : Type u) where
  exclusive : Option α
  sharable : List α
  exclusive_or_sharable : exclusive = none ∨ sharable = []
  deriving DecidableEq

namespace SharedMutex

variable {α : Type u}

def free : SharedMutex α := ⟨none, [], .inl rfl⟩

/-- Acquire exclusively; `none` while anybody owns it. -/
def lock (m : SharedMutex α) (agent : α) : Option (SharedMutex α) :=
  match m.exclusive, m.sharable with
  | none, [] => some ⟨some agent, [], .inr rfl⟩
  | _, _ => none

/-- Acquire sharably; `none` while somebody owns it exclusively. -/
def lockSharable (m : SharedMutex α) (agent : α) : Option (SharedMutex α) :=
  match m.exclusive with
  | none => some ⟨none, agent :: m.sharable, .inl rfl⟩
  | some _ => none

def unlock (m : SharedMutex α) : SharedMutex α := ⟨none, m.sharable, .inl rfl⟩

/-- Give up one of the sharable ownerships of the agent. -/
def unlockSharable [DecidableEq α] (m : SharedMutex α) (agent : α) : SharedMutex α where
  exclusive := m.exclusive
  sharable := m.sharable.erase agent
  exclusive_or_sharable := m.exclusive_or_sharable.imp_right fun h => by rw [h]; rfl

variable {m after : SharedMutex α} {agent : α}

theorem lock_eq_some_iff :
    m.lock agent = some after ↔
      m.exclusive = none ∧ m.sharable = [] ∧ after = ⟨some agent, [], .inr rfl⟩ := by
  unfold lock
  cases m.exclusive <;> cases m.sharable <;> simp [eq_comm]

theorem lockSharable_eq_some_iff :
    m.lockSharable agent = some after ↔
      m.exclusive = none ∧ after = ⟨none, agent :: m.sharable, .inl rfl⟩ := by
  unfold lockSharable
  cases m.exclusive <;> simp [eq_comm]

/-- Exactly the exclusive owner believes to be it, and every user knows how often it
is a sharable owner. -/
structure Agrees [DecidableEq α] (m : SharedMutex α) (owns : α → Bool) (shares : α → ℕ) : Prop where
  exclusive_iff : ∀ agent, m.exclusive = some agent ↔ owns agent = true
  count_eq : ∀ agent, m.sharable.count agent = shares agent

section Agrees

variable [DecidableEq α] {owns : α → Bool} {shares : α → ℕ} {other : α}

theorem agrees_free : (free : SharedMutex α).Agrees (fun _ => false) fun _ => 0 where
  exclusive_iff agent := by simp [free]
  count_eq agent := by simp [free]

theorem Agrees.unique (h : m.Agrees owns shares) (hagent : owns agent = true)
    (hother : owns other = true) : agent = other := by
  have howner := (h.exclusive_iff agent).mpr hagent
  rw [(h.exclusive_iff other).mpr hother] at howner
  exact (Option.some.inj howner).symm

theorem Agrees.mem_sharable_iff (h : m.Agrees owns shares) :
    agent ∈ m.sharable ↔ 0 < shares agent := by
  rw [← h.count_eq, List.count_pos_iff]

/-- A user whose beliefs do not change keeps the agreement. -/
theorem Agrees.keep (h : m.Agrees owns shares) {value : Bool} {count : ℕ}
    (hvalue : owns agent = value) (hcount : shares agent = count) :
    m.Agrees (Function.update owns agent value) (Function.update shares agent count) := by
  rw [← hvalue, ← hcount, Function.update_eq_self, Function.update_eq_self]
  exact h

theorem Agrees.lock (h : m.Agrees owns shares) (hlock : m.lock agent = some after) {count : ℕ}
    (hcount : shares agent = count) :
    after.Agrees (Function.update owns agent true) (Function.update shares agent count) := by
  have ⟨hexclusive, hsharable, hafter⟩ := lock_eq_some_iff.mp hlock
  rw [← hcount, Function.update_eq_self, hafter]
  constructor
  · intro user
    have hnot := h.exclusive_iff user
    rw [hexclusive] at hnot
    by_cases huser : user = agent
    · simp [huser]
    · simp [Function.update_of_ne huser, ← hnot, Ne.symm huser]
  · intro user
    rw [← h.count_eq, hsharable]

theorem Agrees.lockSharable (h : m.Agrees owns shares) (hlock : m.lockSharable agent = some after)
    {value : Bool} (hvalue : owns agent = value) :
    after.Agrees (Function.update owns agent value)
      (Function.update shares agent (shares agent + 1)) := by
  have ⟨hexclusive, hafter⟩ := lockSharable_eq_some_iff.mp hlock
  rw [← hvalue, Function.update_eq_self, hafter]
  constructor
  · intro user
    rw [← h.exclusive_iff, hexclusive]
  · intro user
    by_cases huser : user = agent
    · simp [huser, h.count_eq]
    · simp [Function.update_of_ne huser, Ne.symm huser, h.count_eq]

theorem Agrees.unlock (h : m.Agrees owns shares) (hagent : owns agent = true) {count : ℕ}
    (hcount : shares agent = count) :
    m.unlock.Agrees (Function.update owns agent false) (Function.update shares agent count) := by
  rw [← hcount, Function.update_eq_self]
  constructor
  · intro user
    by_cases huser : user = agent
    · simp [SharedMutex.unlock, huser]
    · have hnot : owns user ≠ true := fun howns => huser (h.unique howns hagent)
      simp [SharedMutex.unlock, Function.update_of_ne huser, hnot]
  · exact h.count_eq

theorem Agrees.unlockSharable (h : m.Agrees owns shares) {value : Bool}
    (hvalue : owns agent = value) :
    (m.unlockSharable agent).Agrees (Function.update owns agent value)
      (Function.update shares agent (shares agent - 1)) := by
  rw [← hvalue, Function.update_eq_self]
  constructor
  · exact h.exclusive_iff
  · intro user
    by_cases huser : user = agent
    · simp [SharedMutex.unlockSharable, huser, h.count_eq, List.count_erase_self]
    · simp [SharedMutex.unlockSharable, Function.update_of_ne huser, h.count_eq,
        List.count_erase_of_ne huser]

end Agrees

end SharedMutex
end OSVR.Math
