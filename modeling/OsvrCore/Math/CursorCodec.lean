/-
# Writers that append and readers that advance

A writer extends an output; a reader moves a position over finished contents.
Either may depend on how far it has come, as a writer that pads to an alignment
does. A writer and a reader agree on a value when, wherever the writer starts
and whatever is written later, the reader finds the value and stops where the
writer stopped. Agreement is closed under sequencing and repetition, so codecs
of compound values are assembled from their parts.
-/

import Mathlib.Data.Nat.Notation

set_option autoImplicit false

namespace OSVR.Math

universe u v

/-- Finished contents with a reading position. -/
structure Cursor (β : Type u) where
  contents : List β
  position : ℕ
  deriving DecidableEq

/-- Code that reads, or fails. -/
abbrev Reading (β : Type u) (ε α : Type u) := StateT (Cursor β) (Except ε) α

variable {β ε α γ : Type u} {write next : List β → List β} {read : Reading β ε α} {value : α}

/-- Read the same kind of value a number of times. -/
def Reading.times (read : Reading β ε α) : ℕ → Reading β ε (List α)
  | 0 => pure []
  | count + 1 => do
      let value ← read
      let values ← Reading.times read count
      return value :: values

/-- The writer and the reader agree on the value. -/
def ReadsBack (write : List β → List β) (read : Reading β ε α) (value : α) : Prop :=
  ∀ before, ∃ added, write before = before ++ added ∧ ∀ after,
    read ⟨before ++ added ++ after, before.length⟩ =
      .ok (value, ⟨before ++ added ++ after, (before ++ added).length⟩)

/-- The same for a reader that may take everything up to the end of the contents. -/
def ReadsBackLast (write : List β → List β) (read : Reading β ε α) (value : α) : Prop :=
  ∀ before, ∃ added, write before = before ++ added ∧
    read ⟨before ++ added, before.length⟩ =
      .ok (value, ⟨before ++ added, (before ++ added).length⟩)

/-- A reader that succeeds hands its cursor to the rest. -/
theorem Reading.bind_ok {rest : α → Reading β ε γ} {cursor after : Cursor β}
    (hread : read cursor = .ok (value, after)) : (read >>= rest) cursor = rest value after := by
  show (read cursor >>= fun pair => rest pair.1 pair.2) = _
  rw [hread]
  rfl

/-- A reader that fails leaves nothing to the rest. -/
theorem Reading.bind_error {rest : α → Reading β ε γ} {cursor : Cursor β} {error : ε}
    (hread : read cursor = .error error) : (read >>= rest) cursor = .error error := by
  show (read cursor >>= fun pair => rest pair.1 pair.2) = _
  rw [hread]
  rfl

/-- A sequence that succeeds has read both parts. -/
theorem Reading.of_bind_ok {rest : α → Reading β ε γ} {result : γ} {cursor after : Cursor β}
    (h : (read >>= rest) cursor = .ok (result, after)) :
    ∃ value middle, read cursor = .ok (value, middle) ∧
    rest value middle = .ok (result, after) := by
  cases hread : read cursor with
  | error error =>
      rw [Reading.bind_error hread] at h
      cases h
  | ok pair =>
      rw [Reading.bind_ok hread] at h
      exact ⟨pair.1, pair.2, rfl, h⟩

namespace ReadsBack

theorem pure (value : α) :
    ReadsBack (fun before : List β => before) (Pure.pure value : Reading β ε α) value := by
  intro before
  exact ⟨[], by simp, fun after => by simp; rfl⟩

/-- The second writer continues where the first one stopped, and so do the readers. -/
theorem bind {result : γ} (h : ReadsBack write read value) (rest : α → Reading β ε γ)
    (hnext : ReadsBack next (rest value) result) :
    ReadsBack (fun before => next (write before)) (read >>= rest) result := by
  intro before
  have ⟨added, hwrite, hread⟩ := h before
  have ⟨more, hmore, hrest⟩ := hnext (before ++ added)
  refine ⟨added ++ more, ?_, ?_⟩
  · show next (write before) = _
    rw [hwrite, hmore, List.append_assoc]
  · intro after
    have hfirst := hread (more ++ after)
    have hsecond := hrest after
    simp only [← List.append_assoc] at hfirst hsecond ⊢
    rw [Reading.bind_ok hfirst]
    exact hsecond

/-- Sequencing when the rest does not depend on what was read. -/
theorem andThen {rest : Reading β ε γ} {result : γ} (h : ReadsBack write read value)
    (hnext : ReadsBack next rest result) :
    ReadsBack (fun before => next (write before)) (do let _ ← read; rest) result :=
  h.bind (fun _ => rest) hnext

theorem map (h : ReadsBack write read value) (f : α → γ) :
    ReadsBack write (do return f (← read)) (f value) :=
  h.bind (fun value => Pure.pure (f value)) (pure (f value))

/-- Both sides may consult how far they have come. -/
theorem at_position {write : ℕ → List β → List β} {read : ℕ → Reading β ε α}
    (h : ∀ position, ReadsBack (write position) (read position) value) :
    ReadsBack (fun before => write before.length before)
      (fun cursor => read cursor.position cursor) value :=
  fun before => h before.length before

/-- Writing the values in order agrees with reading as many of them. -/
theorem times {write : α → List β → List β} (values : List α)
    (h : ∀ value ∈ values, ReadsBack (write value) read value) :
    ReadsBack (fun before => values.foldl (fun buffer value => write value buffer) before)
      (Reading.times read values.length) values := by
  induction values with
  | nil => exact pure []
  | cons value values ih =>
      have hrest := ih fun later hlater => h later (by simp [hlater])
      exact (h value (by simp)).bind
        (fun first => do return first :: (← Reading.times read values.length))
        (hrest.map (value :: ·))

theorem last (h : ReadsBack write read value) : ReadsBackLast write read value := by
  intro before
  have ⟨added, hwrite, hread⟩ := h before
  exact ⟨added, hwrite, by simpa using hread []⟩

theorem bind_last {result : γ} (h : ReadsBack write read value) (rest : α → Reading β ε γ)
    (hnext : ReadsBackLast next (rest value) result) :
    ReadsBackLast (fun before => next (write before)) (read >>= rest) result := by
  intro before
  have ⟨added, hwrite, hread⟩ := h before
  have ⟨more, hmore, hrest⟩ := hnext (before ++ added)
  refine ⟨added ++ more, ?_, ?_⟩
  · show next (write before) = _
    rw [hwrite, hmore, List.append_assoc]
  · have hfirst := hread more
    simp only [← List.append_assoc] at hfirst hrest ⊢
    rw [Reading.bind_ok hfirst]
    exact hrest

end ReadsBack

/-- From an empty output, the reader consumes exactly what was written. -/
theorem ReadsBackLast.whole (h : ReadsBackLast write read value) :
    read ⟨write [], 0⟩ = .ok (value, ⟨write [], (write []).length⟩) := by
  have ⟨added, hwrite, hread⟩ := h []
  rw [List.nil_append] at hwrite
  simpa [hwrite] using hread

end OSVR.Math
