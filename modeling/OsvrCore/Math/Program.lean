/-
# Programs that change a state and can end early

A program returns a value or ends early, and the state it has reached stays in
both cases. A recursion that is not known to end takes fuel and ends early when
it has none left.
-/

import Mathlib.Order.Lattice
import Mathlib.Order.Nat

set_option autoImplicit false

namespace OSVR.Math

universe u

/-- How a program ends without a value: by an exception, by an access the
language leaves undefined, or because the fuel is used up. -/
inductive Abort (ε : Type u)
  | thrown (error : ε)
  | undefined
  | outOfFuel
  deriving DecidableEq, Repr

/-- A program over a state `σ` with exceptions in `ε`. -/
def Program (σ ε α : Type u) : Type u := σ → Except (Abort ε) α × σ

namespace Program

variable {σ ε α β : Type u}

def run (program : Program σ ε α) (state : σ) : Except (Abort ε) α × σ := program state

protected def pure (value : α) : Program σ ε α := fun state => (.ok value, state)

protected def bind (program : Program σ ε α) (next : α → Program σ ε β) : Program σ ε β :=
  fun state =>
    match program state with
    | (.ok value, after) => next value after
    | (.error abort, after) => (.error abort, after)

instance : Monad (Program σ ε) where
  pure := Program.pure
  bind := Program.bind

def abort (reason : Abort ε) : Program σ ε α := fun state => (.error reason, state)

def throw (error : ε) : Program σ ε α := abort (.thrown error)

def get : Program σ ε σ := fun state => (.ok state, state)

def modify (f : σ → σ) : Program σ ε PUnit := fun state => (.ok ⟨⟩, f state)

/-- A computation that does not look at the state. -/
def ofExcept (result : Except ε α) : Program σ ε α :=
  match result with
  | .ok value => .pure value
  | .error error => throw error

variable (state : σ)

@[simp] theorem run_pure (value : α) :
    (pure value : Program σ ε α).run state = (.ok value, state) :=
  rfl

@[simp] theorem run_abort (reason : Abort ε) :
    (abort reason : Program σ ε α).run state = (.error reason, state) := rfl

@[simp] theorem run_throw (error : ε) :
    (throw error : Program σ ε α).run state = (.error (.thrown error), state) := rfl

@[simp] theorem run_get : (get : Program σ ε σ).run state = (.ok state, state) := rfl

@[simp] theorem run_modify (f : σ → σ) :
    (modify f : Program σ ε PUnit).run state = (.ok ⟨⟩, f state) := rfl

@[simp] theorem run_ofExcept_ok (value : α) :
    (ofExcept (.ok value) : Program σ ε α).run state = (.ok value, state) := rfl

@[simp] theorem run_ofExcept_error (error : ε) :
    (ofExcept (.error error) : Program σ ε α).run state = (.error (.thrown error), state) := rfl

theorem run_bind (program : Program σ ε α) (next : α → Program σ ε β) :
    (program >>= next).run state =
      match program.run state with
      | (.ok value, after) => (next value).run after
      | (.error abort, after) => (.error abort, after) := rfl

variable {state}

theorem run_bind_of_ok {program : Program σ ε α} {next : α → Program σ ε β} {value : α} {after : σ}
    (h : program.run state = (.ok value, after)) :
    (program >>= next).run state = (next value).run after := by
  rw [run_bind, h]

theorem run_bind_of_error {program : Program σ ε α} {next : α → Program σ ε β} {reason : Abort ε}
    {after : σ} (h : program.run state = (.error reason, after)) :
    (program >>= next).run state = (.error reason, after) := by
  rw [run_bind, h]

/-- The result of a program can be changed without changing where it leads. -/
theorem snd_run_bind_pure (program : Program σ ε α) (f : α → β) (state : σ) :
    ((program >>= fun value => pure (f value)).run state).2 = (program.run state).2 := by
  rcases hrun : program.run state with ⟨reason | value, after⟩
  · rw [run_bind_of_error hrun]
  · rw [run_bind_of_ok hrun, run_pure]

theorem bind_bind (program : Program σ ε α) (next : α → Program σ ε β) {γ : Type u}
    (last : β → Program σ ε γ) :
    program >>= next >>= last = program >>= fun value => next value >>= last := by
  funext state
  show (program >>= next >>= last).run state =
      (program >>= fun value => next value >>= last).run state
  rcases hrun : program.run state with ⟨reason | value, after⟩
  · rw [run_bind_of_error hrun, run_bind_of_error (run_bind_of_error hrun)]
  · rw [run_bind_of_ok hrun, run_bind, run_bind_of_ok hrun, run_bind]

theorem fst_run_bind_of_error {program : Program σ ε α} {next : α → Program σ ε β}
    {reason : Abort ε} (h : (program.run state).1 = .error reason) :
    ((program >>= next).run state).1 = .error reason := by
  rcases hrun : program.run state with ⟨_, after⟩
  rw [hrun] at h
  rw [run_bind_of_error (hrun.trans (congrArg (·, after) h))]

/-- A sequence ends with a value exactly when both parts do. -/
theorem run_bind_eq_ok_iff {program : Program σ ε α} {next : α → Program σ ε β} {result : β}
    {final : σ} :
    (program >>= next).run state = (.ok result, final) ↔
      ∃ value after, program.run state = (.ok value, after) ∧
        (next value).run after = (.ok result, final) := by
  rw [run_bind]
  rcases hrun : program.run state with ⟨reason | value, after⟩
  · simp
  · constructor
    · exact fun hnext => ⟨value, after, rfl, hnext⟩
    · rintro ⟨_, _, hequal, hnext⟩
      cases hequal
      exact hnext

/-! ## Relations between the states before and after -/

section Relates

/-- Every run leads to a related state, however it ends. -/
def Relates (rel : σ → σ → Prop) (program : Program σ ε α) : Prop :=
  ∀ state, rel state (program.run state).2

variable {rel : σ → σ → Prop} (hrefl : ∀ state, rel state state)
  (htrans : ∀ ⦃first second third⦄, rel first second → rel second third → rel first third)

include hrefl

theorem relates_pure (value : α) : Relates rel (pure value : Program σ ε α) := hrefl

theorem relates_abort (reason : Abort ε) : Relates rel (abort reason : Program σ ε α) := hrefl

theorem relates_get : Relates rel (get : Program σ ε σ) := hrefl

theorem relates_ofExcept (result : Except ε α) :
    Relates rel (ofExcept result : Program σ ε α) := by
  cases result <;> exact hrefl

omit hrefl
include htrans

theorem Relates.bind {program : Program σ ε α} {next : α → Program σ ε β}
    (h : Relates rel program) (hnext : ∀ value, Relates rel (next value)) :
    Relates rel (program >>= next) := by
  intro state
  rcases hrun : program.run state with ⟨reason | value, after⟩
  · rw [run_bind_of_error hrun]
    simpa [hrun] using h state
  · rw [run_bind_of_ok hrun]
    exact htrans (by simpa [hrun] using h state) (hnext value after)

end Relates

/-- What both parts keep, a sequence keeps, however it ends. -/
theorem keeps_bind (good : σ → Prop) {program : Program σ ε α} {next : α → Program σ ε β}
    (h : good (program.run state).2)
    (hnext : ∀ value after, good after → good ((next value).run after).2) :
    good ((program >>= next).run state).2 := by
  rcases hrun : program.run state with ⟨reason | value, after⟩
  · rw [run_bind_of_error hrun]
    rwa [hrun] at h
  · rw [run_bind_of_ok hrun]
    rw [hrun] at h
    exact hnext value after h


section Accounts

variable {σ ε α : Type}

/-- A program that reports changes accounts for what it does from a state: a run
that reports none leads to a related state, and a run that ends early with a
reason in `fails` only leads to states in `spared`. -/
structure Accounts (rel : σ → σ → Prop) (fails : Abort ε → Prop) (spared : σ → Prop)
    (program : Program σ ε Bool) (state : σ) : Prop where
  silent : ∀ after, program.run state = (.ok false, after) → rel state after
  failed : ∀ reason after, program.run state = (.error reason, after) → fails reason → spared after

namespace Accounts

variable {rel : σ → σ → Prop} {fails : Abort ε → Prop} {spared : σ → Prop} {state : σ}

theorem pure_false (hrefl : ∀ state, rel state state) :
    Accounts rel fails spared (pure false : Program σ ε Bool) state := by
  refine ⟨fun after hrun => ?_, fun reason after hrun => ?_⟩
  · cases hrun
    exact hrefl _
  · cases hrun

/-- First a computation that changes nothing that counts. -/
theorem bind (htrans : ∀ ⦃first second third⦄, rel first second →
    rel second third → rel first third) {program : Program σ ε α} {next : α → Program σ ε Bool}
    (hfirst : ∀ value after, program.run state = (.ok value, after) →
      rel state after ∧ Accounts rel fails spared (next value) after)
    (hfailed : ∀ reason after, program.run state = (.error reason, after) → fails reason →
      spared after) : Accounts rel fails spared (program >>= next) state := by
  rcases hrun : program.run state with ⟨reason | value, middle⟩
  · refine ⟨fun after h => ?_, fun reason' after h => ?_⟩
    · rw [run_bind_of_error hrun] at h
      cases h
    · rw [run_bind_of_error hrun] at h
      cases h
      exact hfailed _ _ hrun
  · obtain ⟨hrel, hnext⟩ := hfirst value middle hrun
    refine ⟨fun after h => ?_, fun reason after h => ?_⟩
    · rw [run_bind_of_ok hrun] at h
      exact htrans hrel (hnext.silent after h)
    · rw [run_bind_of_ok hrun] at h
      exact hnext.failed reason after h

/-- Two parts of which each reports its changes. -/
theorem bind_or
    (htrans : ∀ ⦃first second third⦄, rel first second → rel second third → rel first third)
    {program next : Program σ ε Bool} (h : Accounts rel fails spared program state)
    (hnext : ∀ changed after, program.run state = (.ok changed, after) →
      Accounts rel fails spared next after) :
    Accounts rel fails spared
      (program >>= fun changed => next >>= fun later => pure (changed || later)) state := by
  rcases hrun : program.run state with ⟨reason | changed, middle⟩
  · refine ⟨fun after hafter => ?_, fun reason' after hafter => ?_⟩
    · rw [run_bind_of_error hrun] at hafter
      cases hafter
    · rw [run_bind_of_error hrun] at hafter
      cases hafter
      exact h.failed _ _ hrun
  · have hrest := hnext changed middle hrun
    rcases hrun' : next.run middle with ⟨reason | later, final⟩
    · refine ⟨fun after hafter => ?_, fun reason' after hafter => ?_⟩
      · rw [run_bind_of_ok hrun, run_bind_of_error hrun'] at hafter
        cases hafter
      · rw [run_bind_of_ok hrun, run_bind_of_error hrun'] at hafter
        cases hafter
        exact hrest.failed _ _ hrun'
    · refine ⟨fun after hafter => ?_, fun reason' after hafter => ?_⟩
      · rw [run_bind_of_ok hrun, run_bind_of_ok hrun'] at hafter
        obtain ⟨hor, rfl⟩ := Prod.mk.inj hafter
        obtain ⟨rfl, rfl⟩ : changed = false ∧ later = false := by simpa using hor
        exact htrans (h.silent _ hrun) (hrest.silent _ hrun')
      · rw [run_bind_of_ok hrun, run_bind_of_ok hrun'] at hafter
        cases hafter

end Accounts

/-- Two parts report no change exactly when each of them reports none. -/
theorem run_or_eq_false {program next : Program σ ε Bool} {state after : σ} :
    (program >>= fun changed => next >>= fun later => pure (changed || later)).run state =
        (.ok false, after) ↔
      ∃ middle, program.run state = (.ok false, middle) ∧ next.run middle = (.ok false, after) := by
  simp only [run_bind_eq_ok_iff, run_pure, Prod.mk.injEq, Except.ok.injEq, Bool.or_eq_false_iff]
  constructor
  · rintro ⟨changed, middle, hfirst, later, final, hlater, ⟨rfl, rfl⟩, rfl⟩
    exact ⟨middle, hfirst, hlater⟩
  · rintro ⟨middle, hfirst, hlater⟩
    exact ⟨false, middle, hfirst, false, after, hlater, ⟨rfl, rfl⟩, rfl⟩

/-! ## Lists of parts -/

/-- Run programs that report changes one after the other. -/
def inOrder : List (Program σ ε Bool) → Program σ ε Bool
  | [] => pure false
  | first :: rest => do
      let changed ← first
      let others ← inOrder rest
      return changed || others

theorem inOrder_append (front back : List (Program σ ε Bool)) :
    inOrder (front ++ back) = (do
      let changed ← inOrder front
      let others ← inOrder back
      return changed || others) := by
  funext state
  induction front generalizing state with
  | nil =>
      show (inOrder back).run state =
        (inOrder back >>= fun others => pure (false || others)).run state
      rcases hrun : (inOrder back).run state with ⟨reason | changed, after⟩
      · rw [run_bind_of_error hrun]
      · rw [run_bind_of_ok hrun]
        rfl
  | cons first front ih =>
      show (inOrder (first :: (front ++ back))).run state = Program.run _ state
      rw [inOrder, inOrder]
      rcases hfirst : first.run state with ⟨reason | changed, middle⟩
      · rw [run_bind_of_error hfirst, run_bind_of_error (run_bind_of_error hfirst)]
      · have hrest : (inOrder (front ++ back)).run middle = Program.run _ middle := ih middle
        rw [run_bind_of_ok hfirst, run_bind, hrest]
        rcases hfront : (inOrder front).run middle with ⟨reason | others, last⟩
        · rw [run_bind_of_error hfront,
            run_bind_of_error (run_bind_of_ok hfirst |>.trans (run_bind_of_error hfront))]
        · have hboth : (first >>= fun changed => inOrder front >>= fun others =>
              pure (changed || others)).run state = (.ok (changed || others), last) := by
            rw [run_bind_of_ok hfirst, run_bind_of_ok hfront]
            rfl
          rw [run_bind_of_ok hfront, run_bind_of_ok hboth]
          rcases hback : (inOrder back).run last with ⟨reason | later, final⟩
          · rw [run_bind_of_error hback, run_bind_of_error hback]
          · rw [run_bind_of_ok hback, run_bind_of_ok hback]
            simp [Bool.or_assoc]

section InOrder

variable {rel : σ → σ → Prop} (hrefl : ∀ state, rel state state)
  (htrans : ∀ ⦃first second third⦄, rel first second → rel second third → rel first third)

include hrefl htrans

theorem relates_inOrder {programs : List (Program σ ε Bool)}
    (h : ∀ program ∈ programs, Relates rel program) : Relates rel (inOrder programs) := by
  induction programs with
  | nil => exact hrefl
  | cons first rest ih =>
      rw [List.forall_mem_cons] at h
      exact Relates.bind htrans h.1 fun _ => Relates.bind htrans (ih h.2) fun _ => hrefl

/-- Parts that report no change have all been run in related states. -/
theorem inOrder_silent {programs : List (Program σ ε Bool)} {good : σ → Prop}
    (hgood : ∀ state after, good state → rel state after → good after)
    (h : ∀ program ∈ programs, ∀ state after, good state → program.run state = (.ok false, after) →
      rel state after) {state after : σ} (hstate : good state)
    (hrun : (inOrder programs).run state = (.ok false, after)) :
    rel state after ∧ ∀ program ∈ programs, ∃ before later,
      rel state before ∧ program.run before = (.ok false, later) := by
  induction programs generalizing state with
  | nil =>
      obtain rfl := (Prod.mk.inj hrun).2
      exact ⟨hrefl _, fun program hprogram => by cases hprogram⟩
  | cons first rest ih =>
      rw [List.forall_mem_cons] at h
      obtain ⟨middle, hfirst, hrest⟩ := run_or_eq_false.mp hrun
      have hrel := h.1 state middle hstate hfirst
      obtain ⟨hrel', hall⟩ := ih h.2 (hgood _ _ hstate hrel) hrest
      refine ⟨htrans hrel hrel', fun program hprogram => ?_⟩
      rcases List.mem_cons.mp hprogram with rfl | hprogram
      · exact ⟨state, middle, hrefl state, hfirst⟩
      · obtain ⟨before, later, hbefore, hlater⟩ := hall program hprogram
        exact ⟨before, later, htrans hrel hbefore, hlater⟩

end InOrder

/-- Parts that cannot fail in good states run to the end. -/
theorem inOrder_ok {programs : List (Program σ ε Bool)} {good : σ → Prop}
    (h : ∀ program ∈ programs, ∀ state, good state →
      ∃ changed after, program.run state = (.ok changed, after) ∧ good after)
    {state : σ} (hstate : good state) :
    ∃ changed after, (inOrder programs).run state = (.ok changed, after) ∧ good after := by
  induction programs generalizing state with
  | nil => exact ⟨false, state, rfl, hstate⟩
  | cons first rest ih =>
      rw [List.forall_mem_cons] at h
      obtain ⟨changed, middle, hfirst, hmiddle⟩ := h.1 state hstate
      obtain ⟨others, after, hrest, hafter⟩ := ih h.2 hmiddle
      refine ⟨changed || others, after, ?_, hafter⟩
      rw [inOrder, run_bind_of_ok hfirst, run_bind_of_ok hrest]
      rfl

end Accounts

/-! ## Fuel -/

/-- A program that does the same as one that may run out of fuel, unless that does. -/
def Approx (less more : Program σ ε α) : Prop :=
  ∀ state, (less.run state).1 ≠ .error .outOfFuel → more.run state = less.run state

namespace Approx

theorem refl (program : Program σ ε α) : Approx program program := fun _ _ => rfl

theorem outOfFuel (program : Program σ ε α) : Approx (abort .outOfFuel) program :=
  fun _ hends => absurd rfl hends

theorem bind {less more : Program σ ε α} {lessNext moreNext : α → Program σ ε β}
    (h : Approx less more) (hnext : ∀ value, Approx (lessNext value) (moreNext value)) :
    Approx (less >>= lessNext) (more >>= moreNext) := by
  intro state hends
  rcases hrun : less.run state with ⟨reason | value, after⟩
  · rw [run_bind_of_error hrun] at hends ⊢
    have hsame := h state (by simpa [hrun] using hends)
    rw [run_bind_of_error (hsame.trans hrun)]
  · rw [run_bind_of_ok hrun] at hends ⊢
    have hsame := h state (by simp [hrun])
    rw [run_bind_of_ok (hsame.trans hrun)]
    exact hnext value after hends

end Approx

/-- More fuel gives the same result, once it is enough. -/
def FuelMonotone (program : ℕ → Program σ ε α) : Prop :=
  ∀ fuel more, fuel ≤ more → Approx (program fuel) (program more)

/-- Some amount of fuel is enough. -/
def Ends (program : ℕ → Program σ ε α) (state : σ) : Prop :=
  ∃ fuel, ((program fuel).run state).1 ≠ .error .outOfFuel

theorem FuelMonotone.const (program : Program σ ε α) : FuelMonotone fun _ => program :=
  fun _ _ _ => .refl program

theorem FuelMonotone.bind {first : ℕ → Program σ ε α} {second : ℕ → α → Program σ ε β}
    (hfirst : FuelMonotone first) (hsecond : ∀ value, FuelMonotone fun fuel => second fuel value) :
    FuelMonotone fun fuel => first fuel >>= second fuel :=
  fun fuel more hle => (hfirst fuel more hle).bind fun value => hsecond value fuel more hle

/-- Enough fuel for both parts is enough for a sequence. -/
theorem Ends.bind {first : ℕ → Program σ ε α} {second : ℕ → α → Program σ ε β}
    (hmono : FuelMonotone first) (hmono' : ∀ value, FuelMonotone fun fuel => second fuel value)
    (hfirst : Ends first state)
    (hsecond : ∀ fuel value after, (first fuel).run state = (.ok value, after) →
      Ends (fun fuel => second fuel value) after) :
    Ends (fun fuel => first fuel >>= second fuel) state := by
  obtain ⟨fuel, hfuel⟩ := hfirst
  rcases hrun : (first fuel).run state with ⟨reason | value, after⟩
  · refine ⟨fuel, ?_⟩
    rw [run_bind_of_error hrun]
    simpa [hrun] using hfuel
  · obtain ⟨fuel', hfuel'⟩ := hsecond fuel value after hrun
    refine ⟨max fuel fuel', ?_⟩
    have hsame := hmono _ _ (le_max_left fuel fuel') state hfuel
    rw [run_bind_of_ok (hsame.trans hrun), hmono' value _ _ (le_max_right fuel fuel') after hfuel']
    exact hfuel'

/-- The same for two parts that report changes. -/
theorem Ends.bind_or {σ ε : Type} {first second : ℕ → Program σ ε Bool} {state : σ}
    (hmono : FuelMonotone first) (hmono' : FuelMonotone second) (hfirst : Ends first state)
    (hsecond : ∀ fuel changed after, (first fuel).run state = (.ok changed, after) →
      Ends second after) :
    Ends (fun fuel => first fuel >>= fun changed => second fuel >>= fun later =>
      pure (changed || later)) state := by
  have hrest (fuel : ℕ) (changed : Bool) (after : σ)
      (hrun : (first fuel).run state = (.ok changed, after)) :
      Ends (fun fuel => second fuel >>= fun later => pure (changed || later)) after :=
    (hsecond fuel changed after hrun).bind hmono' (fun _ => .const _) fun _ _ _ _ => ⟨0, by simp⟩
  exact hfirst.bind hmono (fun _ => hmono'.bind fun _ => .const _) hrest

/-- With enough fuel a program returns a value. -/
def Returns (program : ℕ → Program σ ε α) (state : σ) (value : α) (after : σ) : Prop :=
  ∃ fuel, ∀ more, fuel ≤ more → (program more).run state = (.ok value, after)

theorem Returns.const {program : Program σ ε α} {value : α} {after : σ}
    (h : program.run state = (.ok value, after)) : Returns (fun _ => program) state value after :=
  ⟨0, fun _ _ => h⟩

theorem Returns.bind {first : ℕ → Program σ ε α} {second : ℕ → α → Program σ ε β} {value : α}
    {result : β} {middle after : σ} (hfirst : Returns first state value middle)
    (hsecond : Returns (fun fuel => second fuel value) middle result after) :
    Returns (fun fuel => first fuel >>= second fuel) state result after := by
  obtain ⟨fuel, hfuel⟩ := hfirst
  obtain ⟨fuel', hfuel'⟩ := hsecond
  refine ⟨max fuel fuel', fun more hmore => ?_⟩
  rw [run_bind_of_ok (hfuel more ((le_max_left fuel fuel').trans hmore))]
  exact hfuel' more ((le_max_right fuel fuel').trans hmore)

theorem Returns.map {program : ℕ → Program σ ε α} {value : α} {after : σ}
    (h : Returns program state value after) (f : α → β) :
    Returns (fun fuel => program fuel >>= fun value => pure (f value)) state (f value) after :=
  h.bind ⟨0, fun _ _ => rfl⟩

theorem Returns.unique {program : ℕ → Program σ ε α} {value value' : α} {after after' : σ}
    (h : Returns program state value after) (h' : Returns program state value' after') :
    value = value' ∧ after = after' := by
  obtain ⟨fuel, hfuel⟩ := h
  obtain ⟨fuel', hfuel'⟩ := h'
  have hsame := (hfuel _ (le_max_left fuel fuel')).symm.trans (hfuel' _ (le_max_right fuel fuel'))
  exact ⟨Except.ok.inj (Prod.mk.inj hsame).1, (Prod.mk.inj hsame).2⟩

/-- Fuel that does not run out gives what the program returns. -/
theorem Returns.run_eq {program : ℕ → Program σ ε α} {value : α} {after : σ}
    (h : Returns program state value after) (hmono : FuelMonotone program) {fuel : ℕ}
    (hfuel : ((program fuel).run state).1 ≠ .error .outOfFuel) :
    (program fuel).run state = (.ok value, after) := by
  obtain ⟨enough, henough⟩ := h
  have hsame := hmono fuel (max fuel enough) (le_max_left fuel enough) state hfuel
  exact hsame.symm.trans (henough _ (le_max_right fuel enough))

/-- A program that ends and can only run out of fuel returns a value. -/
theorem Ends.returns {program : ℕ → Program σ ε α} (hends : Ends program state)
    (hmono : FuelMonotone program)
    (hfails : ∀ fuel reason after, (program fuel).run state = (.error reason, after) →
      reason = .outOfFuel) : ∃ value after, Returns program state value after := by
  obtain ⟨fuel, hfuel⟩ := hends
  rcases hrun : (program fuel).run state with ⟨reason | value, after⟩
  · rw [hrun, hfails fuel reason after hrun] at hfuel
    exact absurd rfl hfuel
  · exact ⟨value, after, fuel, fun more hmore => (hmono fuel more hmore state hfuel).trans hrun⟩

end Program
end OSVR.Math
