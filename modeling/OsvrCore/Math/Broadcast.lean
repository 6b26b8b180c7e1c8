/-
# Broadcasts to subscribers

A source publishes one message after another, and a subscriber gets those that are
published while it is attached, in their order. A subscriber that is cut off loses what was
on its way to it. Even so it never takes an older message than it took before, and when
nothing is on its way it has taken the newest one.
-/

import Mathlib.Data.List.Basic

set_option autoImplicit false

namespace OSVR.Math

universe u

/-- One end of a broadcast: what is on its way to it, how many messages had been published
when it was attached and when the next one that it takes was, and the place of the one it
took last. -/
structure Subscriber (μ : Type u) where
  attached : Bool
  pending : List μ
  start : ℕ
  next : ℕ
  taken : Option ℕ

namespace Subscriber

variable {μ : Type u}

def init : Subscriber μ := ⟨false, [], 0, 0, none⟩

def publish (messages : List μ) (subscriber : Subscriber μ) : Subscriber μ :=
  if subscriber.attached then { subscriber with pending := subscriber.pending ++ messages }
  else subscriber

/-- A connection is made when so many messages have been published. -/
def attach (published : ℕ) (subscriber : Subscriber μ) : Subscriber μ where
  attached := true
  pending := []
  start := published
  next := published
  taken := subscriber.taken

/-- A connection is lost, with everything in it. -/
def detach (subscriber : Subscriber μ) : Subscriber μ :=
  { subscriber with attached := false, pending := [] }

/-- The next message. -/
def take (subscriber : Subscriber μ) : Option (μ × Subscriber μ) :=
  match subscriber.pending with
  | [] => none
  | message :: rest => some (message, { subscriber with
      pending := rest, next := subscriber.next + 1, taken := some subscriber.next })

/-- The subscriber, with its messages written in another way. -/
def map {ν : Type u} (f : μ → ν) (subscriber : Subscriber μ) : Subscriber ν where
  attached := subscriber.attached
  pending := subscriber.pending.map f
  start := subscriber.start
  next := subscriber.next
  taken := subscriber.taken

/-- A subscriber follows a log of messages. -/
structure Follows (subscriber : Subscriber μ) (log : List μ) : Prop where
  pending : subscriber.pending = if subscriber.attached then log.drop subscriber.next else []
  bounds : subscriber.start ≤ subscriber.next ∧ subscriber.next ≤ log.length
  taken : ∀ place, subscriber.taken = some place → place < subscriber.next
  recent : subscriber.start < subscriber.next → subscriber.taken = some (subscriber.next - 1)

/-- What was taken last is not older than before. -/
def NotOlder (before after : Subscriber μ) : Prop :=
  ∀ place, before.taken = some place → ∃ later, after.taken = some later ∧ place ≤ later

variable {subscriber after : Subscriber μ} {log : List μ} {message : μ}

theorem NotOlder.refl (subscriber : Subscriber μ) : NotOlder subscriber subscriber :=
  fun place htaken => ⟨place, htaken, Nat.le_refl _⟩

theorem NotOlder.of_taken_eq {before after : Subscriber μ} (h : after.taken = before.taken) :
    NotOlder before after := fun place htaken => ⟨place, h.trans htaken, Nat.le_refl _⟩

theorem NotOlder.trans {first second third : Subscriber μ} (h : NotOlder first second)
    (h' : NotOlder second third) : NotOlder first third := by
  intro place htaken
  obtain ⟨middle, hmiddle, hle⟩ := h place htaken
  obtain ⟨last, hlast, hle'⟩ := h' middle hmiddle
  exact ⟨last, hlast, Nat.le_trans hle hle'⟩

@[simp] theorem taken_publish (messages : List μ) :
    (subscriber.publish messages).taken = subscriber.taken := by
  rw [publish]
  split <;> rfl

theorem follows_init : (init : Subscriber μ).Follows [] where
  pending := rfl
  bounds := ⟨Nat.le_refl _, Nat.le_refl _⟩
  taken := fun _ htaken => by cases htaken
  recent := fun hlt => absurd hlt (Nat.lt_irrefl _)

theorem Follows.publish (h : subscriber.Follows log) (messages : List μ) :
    (subscriber.publish messages).Follows (log ++ messages) := by
  have hbound : subscriber.next ≤ (log ++ messages).length := by
    rw [List.length_append]
    exact Nat.le_trans h.bounds.2 (Nat.le_add_right _ _)
  have hpending := h.pending
  rw [Subscriber.publish]
  split
  next hattached =>
    refine ⟨?_, ⟨h.bounds.1, hbound⟩, h.taken, h.recent⟩
    rw [if_pos hattached] at hpending ⊢
    rw [hpending, List.drop_append_of_le_length h.bounds.2]
  next hattached =>
    refine ⟨?_, ⟨h.bounds.1, hbound⟩, h.taken, h.recent⟩
    rw [if_neg hattached] at hpending ⊢
    exact hpending

theorem Follows.attach (h : subscriber.Follows log) :
    (subscriber.attach log.length).Follows log where
  pending := List.drop_length.symm
  bounds := ⟨Nat.le_refl _, Nat.le_refl _⟩
  taken place htaken := Nat.lt_of_lt_of_le (h.taken place htaken) h.bounds.2
  recent hlt := absurd hlt (Nat.lt_irrefl _)

theorem Follows.detach (h : subscriber.Follows log) : subscriber.detach.Follows log where
  pending := rfl
  bounds := h.bounds
  taken := h.taken
  recent := h.recent

/-- What is taken is the next message of the log. -/
theorem Follows.take (h : subscriber.Follows log)
    (htake : subscriber.take = some (message, after)) :
    after.Follows log ∧ log[subscriber.next]? = some message ∧
      after.taken = some subscriber.next ∧ NotOlder subscriber after := by
  rw [Subscriber.take] at htake
  split at htake
  next => cases htake
  next first rest hpending =>
    obtain ⟨rfl, rfl⟩ := Prod.mk.inj (Option.some.inj htake)
    have hdrop := h.pending.symm.trans hpending
    split at hdrop
    next hattached =>
      have hlt : subscriber.next < log.length := by
        by_contra hge
        rw [List.drop_eq_nil_of_le (Nat.le_of_not_lt hge)] at hdrop
        cases hdrop
      rw [List.drop_eq_getElem_cons hlt] at hdrop
      obtain ⟨hfirst, hrest⟩ := List.cons.inj hdrop
      refine ⟨⟨?_, ⟨Nat.le_succ_of_le h.bounds.1, hlt⟩, ?_, fun _ => rfl⟩, ?_, rfl, ?_⟩
      · rw [if_pos hattached]
        exact hrest.symm
      · rintro place ⟨⟩
        exact Nat.lt_succ_self _
      · rw [List.getElem?_eq_getElem hlt, hfirst]
      · exact fun place htaken => ⟨_, rfl, Nat.le_of_lt (h.taken place htaken)⟩
    next => cases hdrop

theorem Follows.taken_lt (h : subscriber.Follows log) {place : ℕ}
    (htaken : subscriber.taken = some place) : place < log.length :=
  Nat.lt_of_lt_of_le (h.taken place htaken) h.bounds.2

/-- What is taken is the first message on its way. -/
theorem pending_of_take (htake : subscriber.take = some (message, after)) :
    subscriber.pending = message :: after.pending ∧ after.attached = subscriber.attached := by
  rw [Subscriber.take] at htake
  split at htake
  next => cases htake
  next first rest hpending =>
    obtain ⟨rfl, rfl⟩ := Prod.mk.inj (Option.some.inj htake)
    exact ⟨hpending, rfl⟩

/-- When nothing is on its way to an attached subscriber, it has taken the newest message,
if there was any since it was attached. -/
theorem Follows.taken_eq (h : subscriber.Follows log) (hattached : subscriber.attached = true)
    (hpending : subscriber.pending = []) (hnews : subscriber.start < log.length) :
    subscriber.taken = some (log.length - 1) := by
  have hdrop := h.pending
  rw [hpending, if_pos hattached] at hdrop
  have hnext : subscriber.next = log.length :=
    Nat.le_antisymm h.bounds.2 (List.drop_eq_nil_iff.mp hdrop.symm)
  rw [h.recent (hnext ▸ hnews), hnext]

/-! ## Messages that are written in another way -/

section Map

variable {ν : Type u} (f : μ → ν)

theorem map_publish (messages : List μ) :
    (subscriber.publish messages).map f = (subscriber.map f).publish (messages.map f) := by
  rw [publish, publish]
  show _ = if subscriber.attached then _ else _
  split
  · rw [map, map, List.map_append]
  · rfl

theorem map_take :
    (subscriber.map f).take = subscriber.take.map fun taken => (f taken.1, taken.2.map f) := by
  obtain ⟨attached, pending, start, next, taken⟩ := subscriber
  cases pending <;> rfl

end Map

end Subscriber
end OSVR.Math
