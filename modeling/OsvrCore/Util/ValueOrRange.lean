/-
# Values and ranges

A range of integers has its first one and the one behind its last, and both are zero when
it is empty. The call that sets a range makes it empty when its bounds are the wrong way
round, and then goes on to set them. What comes of it contains nothing, but does not call
itself empty, and an iteration over it runs into an overflow.
-/

import OsvrCore.Util.MachineIntegers
import Mathlib.Data.Int.ConditionallyCompleteOrder
import Mathlib.Order.Interval.Set.LinearOrder

set_option autoImplicit false

namespace OSVR.Util

/-- What comes of a call that does not return. -/
inductive RangeError
  | overflow
  | logicError (what : String)
  deriving DecidableEq, Repr

/-- `ValueOrRange<int>`. The flag that nothing reads is left out. -/
structure ValueOrRange where
  begin_ : ℤ
  end_ : ℤ
  deriving DecidableEq, Repr

namespace ValueOrRange

def setMax (range : ValueOrRange) (maxVal : ℤ) : Except RangeError ValueOrRange :=
  match int32 (maxVal + 1) with
  | some end_ => .ok { range with end_ }
  | none => .error .overflow

/-- The default constructor. -/
def default : ValueOrRange := ⟨0, 0⟩

def setEmpty (_ : ValueOrRange) : ValueOrRange := ⟨0, 0⟩

/-- `SingleValue`. -/
def singleValue (val : ℤ) : Except RangeError ValueOrRange := setMax ⟨val, 0⟩ val

/-- `RangeMaxMin`. -/
def rangeMaxMin (maxVal minVal : ℤ) : Except RangeError ValueOrRange :=
  if maxVal ≥ minVal then setMax ⟨minVal, 0⟩ maxVal else .ok (setEmpty ⟨minVal, 0⟩)

/-- `RangeZeroTo`. -/
def rangeZeroTo (maxVal : ℤ) : Except RangeError ValueOrRange := rangeMaxMin maxVal 0

def empty (range : ValueOrRange) : Bool := range.begin_ == 0 && range.end_ == 0

/-- Only called when the range is not empty. -/
def getMin (range : ValueOrRange) : ℤ := range.begin_

/-- Only called when the range is not empty. -/
def getMax (range : ValueOrRange) : ℤ := range.end_ - 1

def contains (range : ValueOrRange) (val : ℤ) : Bool :=
  !range.empty && decide (range.getMin ≤ val) && decide (val ≤ range.getMax)

def isValue (range : ValueOrRange) : Bool := range.begin_ + 1 == range.end_

def isNonEmptyRange (range : ValueOrRange) : Bool := decide (range.end_ > range.begin_ + 1)

/-- Only called when the range is a value. -/
def getValue (range : ValueOrRange) : ℤ := range.begin_

def setValue (range : ValueOrRange) (val : ℤ) : Except RangeError ValueOrRange :=
  setMax { range with begin_ := val } val

def setRangeMaxMin (range : ValueOrRange) (maxVal minVal : ℤ) : Except RangeError ValueOrRange :=
  -- There is no return after the range has been made empty.
  let range := if minVal > maxVal then range.setEmpty else range
  setMax { range with begin_ := minVal } maxVal

def getIntersection (range other : ValueOrRange) : Except RangeError ValueOrRange :=
  if other.empty then .ok other
  else if range.empty then .ok other.setEmpty
  else other.setRangeMaxMin (min range.getMax other.getMax) (max range.getMin other.getMin)

def extendRangeToMax (range : ValueOrRange) (maxVal : ℤ) : Except RangeError ValueOrRange :=
  if range.empty then .error (.logicError "Can't extend an empty range with a new max!")
  else if maxVal ≥ range.end_ then range.setMax maxVal
  else .ok range

/-- The iteration from a value on. The increment of the greatest `int` overflows. -/
def iterate (end_ value : ℤ) : Except RangeError (List ℤ) :=
  if value = end_ then .ok []
  else if value + 1 < 2 ^ 31 then (iterate end_ (value + 1)).map (value :: ·)
  else .error .overflow
termination_by (2 ^ 31 - value).toNat

/-- What an iteration from `begin` to `end` comes to. -/
def values (range : ValueOrRange) : Except RangeError (List ℤ) := iterate range.end_ range.begin_

variable {range other : ValueOrRange}

/-! ## Iterating -/

theorem iterate_of_le {end_ value : ℤ} (hend : end_ < 2 ^ 31) (hle : value ≤ end_) :
    ∃ values, iterate end_ value = .ok values ∧ values.Pairwise (· < ·) ∧
      ∀ v, v ∈ values ↔ value ≤ v ∧ v < end_ := by
  fun_induction iterate end_ value with
  | case1 => exact ⟨[], rfl, List.Pairwise.nil, fun v => by simp⟩
  | case2 value hne hnext ih =>
      obtain ⟨values, hvalues, hsorted, hmem⟩ := ih (by omega)
      refine ⟨value :: values, by rw [hvalues]; rfl, ?_, ?_⟩
      · apply List.pairwise_cons.mpr
        apply And.intro _ hsorted
        intro v hv
        have := (hmem v).mp hv
        omega
      · intro v
        rw [List.mem_cons, hmem]
        omega
  | case3 value hne hnext => omega

/-- From behind the end it does not come back. -/
theorem iterate_of_gt {end_ value : ℤ} (hgt : end_ < value) :
    iterate end_ value = .error .overflow := by
  fun_induction iterate end_ value with
  | case1 => omega
  | case2 value hne hnext ih =>
      rw [ih (by omega)]
      rfl
  | case3 => rfl

/-- The integers from the first on, as many as there are. -/
theorem iterate_add {count : ℕ} {value : ℤ} (hend : value + count < 2 ^ 31) :
    iterate (value + count) value = .ok ((List.range count).map fun i : ℕ => value + i) := by
  induction count generalizing value with
  | zero => simp [iterate]
  | succ count ih =>
      have hnext : value + (count + 1 : ℕ) = (value + 1) + count := by omega
      have hne : value ≠ value + (count + 1 : ℕ) := by omega
      rw [iterate, if_neg hne, if_pos (by omega), hnext, ih (by omega), List.range_succ_eq_map,
        List.map_cons, List.map_map]
      have hrest :
          (fun i : ℕ => value + 1 + (i : ℤ)) = (fun i : ℕ => value + (i : ℤ)) ∘ Nat.succ := by
        funext i
        show value + 1 + (i : ℤ) = value + (i + 1 : ℕ)
        omega
      rw [hrest]
      simp [Except.map]

/-! ## What a range contains -/

theorem empty_iff (range : ValueOrRange) :
    range.empty = true ↔ range.begin_ = 0 ∧ range.end_ = 0 := by
  simp [empty]

theorem contains_iff (range : ValueOrRange) (v : ℤ) :
    range.contains v = true ↔ v ∈ Set.Ico range.begin_ range.end_ := by
  rw [Set.mem_Ico, contains]
  cases hempty : range.empty with
  | true =>
      obtain ⟨hbegin, hend⟩ := (empty_iff range).mp hempty
      simp only [Bool.not_true, Bool.false_and, Bool.false_eq_true, false_iff]
      omega
  | false =>
      simp only [Bool.not_false, Bool.true_and, Bool.and_eq_true, decide_eq_true_eq]
      rw [getMin, getMax]
      omega

/-- The range is the set of the integers that it contains: an iteration ends and comes to them
in their order, and the queries answer as they are. -/
structure IsSet (range : ValueOrRange) : Prop where
  enumerates : ∃ values, range.values = .ok values ∧ values.Pairwise (· < ·) ∧
    ∀ v, v ∈ values ↔ range.contains v = true
  empty_iff : range.empty = true ↔ ∀ v, range.contains v = false
  isValue_iff : range.isValue = true ↔ ∃ v, ∀ w, range.contains w = true ↔ w = v
  isNonEmptyRange_iff : range.isNonEmptyRange = true ↔
    ∃ v w, v < w ∧ range.contains v = true ∧ range.contains w = true
  bounds : range.empty = false →
    range.contains range.getMin = true ∧ range.contains range.getMax = true ∧
      ∀ v, range.contains v = true → range.getMin ≤ v ∧ v ≤ range.getMax

/-- The two bounds of a set: those of the empty one, or the right way round. -/
def WellFormed (range : ValueOrRange) : Prop :=
  (range.begin_ = 0 ∧ range.end_ = 0) ∨ range.begin_ < range.end_

theorem contains_eq_false_iff (range : ValueOrRange) (v : ℤ) :
    range.contains v = false ↔ ¬(range.begin_ ≤ v ∧ v < range.end_) := by
  rw [← Bool.not_eq_true, contains_iff, Set.mem_Ico]

/-- An iteration over a set ends, so that the bounds are the right way round; and where they
are equal nothing is contained. -/
theorem IsSet.wellFormed (h : range.IsSet) : range.WellFormed := by
  obtain ⟨values, hvalues, _⟩ := h.enumerates
  have hle : range.begin_ ≤ range.end_ := by
    by_contra hgt
    rw [ValueOrRange.values, iterate_of_gt (by omega)] at hvalues
    cases hvalues
  by_cases hlt : range.begin_ < range.end_
  · exact .inr hlt
  · apply Or.inl
    rw [← ValueOrRange.empty_iff, h.empty_iff]
    intro v
    rw [contains_eq_false_iff]
    omega

theorem WellFormed.begin_lt (h : range.WellFormed) (hnonempty : range.empty = false) :
    range.begin_ < range.end_ := by
  rcases h with hempty | hlt
  · rw [(ValueOrRange.empty_iff range).mpr hempty] at hnonempty
    cases hnonempty
  · exact hlt

theorem WellFormed.isSet (h : range.WellFormed) (hend : range.end_ < 2 ^ 31) : range.IsSet where
  enumerates := by
    have hle : range.begin_ ≤ range.end_ := by
      rcases h with ⟨hbegin, hend⟩ | hlt <;> omega
    obtain ⟨values, hvalues, hsorted, hmem⟩ := iterate_of_le hend hle
    exact ⟨values, hvalues, hsorted, fun v => by rw [hmem, contains_iff, Set.mem_Ico]⟩
  empty_iff := by
    rw [ValueOrRange.empty_iff]
    apply Iff.intro
    · intro hempty v
      rw [contains_eq_false_iff]
      omega
    · intro hnone
      have hfirst := (contains_eq_false_iff _ _).mp (hnone range.begin_)
      rcases h with hempty | hlt
      · exact hempty
      · omega
  isValue_iff := by
    simp only [contains_iff, Set.mem_Ico, isValue, beq_iff_eq]
    apply Iff.intro
    · intro hvalue
      exact ⟨range.begin_, fun w => by omega⟩
    · rintro ⟨v, hv⟩
      have hself := hv v
      have hfirst := hv range.begin_
      have hlast := hv (range.end_ - 1)
      omega
  isNonEmptyRange_iff := by
    simp only [contains_iff, Set.mem_Ico, isNonEmptyRange, decide_eq_true_eq]
    apply Iff.intro
    · intro hrange
      exact ⟨range.begin_, range.begin_ + 1, by omega⟩
    · rintro ⟨v, w, hlt, hv, hw⟩
      omega
  bounds := by
    intro hnonempty
    have hlt := h.begin_lt hnonempty
    simp only [contains_iff, Set.mem_Ico, getMin, getMax]
    refine ⟨by omega, by omega, fun v hv => by omega⟩

/-- Bounds the other way round, or equal and not zero, are those of no set. -/
theorem isSet_iff (hend : range.end_ < 2 ^ 31) : range.IsSet ↔ range.WellFormed :=
  ⟨fun h => h.wellFormed, fun h => h.isSet hend⟩

/-! ## The calls -/

/-- A call returns, and what comes of it is this set. -/
def Yields (result : Except RangeError ValueOrRange) (set : Set ℤ) : Prop :=
  ∃ range, result = .ok range ∧ InInt32 range.end_ ∧ range.IsSet ∧
    ∀ v, range.contains v = true ↔ v ∈ set

theorem yields_ok_iff {set : Set ℤ} (hend : InInt32 range.end_)
    (hset : ∀ v, v ∈ set ↔ range.begin_ ≤ v ∧ v < range.end_) :
    Yields (.ok range) set ↔ range.WellFormed := by
  rw [← isSet_iff hend.2]
  apply Iff.intro
  · rintro ⟨_, hrange, _, hisSet, _⟩
    cases hrange
    exact hisSet
  · intro hisSet
    refine ⟨range, rfl, hend, hisSet, fun v => ?_⟩
    rw [contains_iff, hset, Set.mem_Ico]

/-- The set is what the range contains. -/
theorem Yields.exists_range {result : Except RangeError ValueOrRange} {set : Set ℤ}
    (h : Yields result set) :
    ∃ range, result = .ok range ∧ InInt32 range.end_ ∧ range.IsSet ∧
      set = {v | range.contains v = true} := by
  obtain ⟨range, hresult, hend, hrange, hcontains⟩ := h
  refine ⟨range, hresult, hend, hrange, ?_⟩
  ext v
  exact (hcontains v).symm

theorem not_yields_error {error : RangeError} {set : Set ℤ} : ¬Yields (.error error) set := by
  rintro ⟨_, h, _⟩
  cases h

theorem setMax_eq (range : ValueOrRange) (maxVal : ℤ) :
    range.setMax maxVal =
      if InInt32 (maxVal + 1) then .ok ⟨range.begin_, maxVal + 1⟩ else .error .overflow := by
  unfold setMax int32
  split <;> split at * <;> simp_all

/-- Whether the bounds are the right way round makes no difference. -/
theorem setRangeMaxMin_eq (range : ValueOrRange) (maxVal minVal : ℤ) :
    range.setRangeMaxMin maxVal minVal = setMax ⟨minVal, 0⟩ maxVal := by
  rw [setRangeMaxMin, setMax_eq, setMax_eq]

/-- The last step of most of the calls. -/
theorem yields_setMax_iff (range : ValueOrRange) (maxVal : ℤ) (hmaxVal : -2 ^ 31 ≤ maxVal + 1) :
    Yields (range.setMax maxVal) (Set.Icc range.begin_ maxVal) ↔
      maxVal + 1 < 2 ^ 31 ∧
        (range.begin_ ≤ maxVal ∨ (range.begin_ = 0 ∧ maxVal = -1)) := by
  rw [setMax_eq]
  split
  next hend =>
    rw [yields_ok_iff hend (fun v => by rw [Set.mem_Icc, Int.lt_add_one_iff]), WellFormed]
    have := hend.2
    simp only
    omega
  next hend =>
    apply iff_of_false not_yields_error
    intro h
    exact hend ⟨hmaxVal, h.1⟩

theorem yields_setEmpty (range : ValueOrRange) : Yields (.ok range.setEmpty) ∅ := by
  have hend : InInt32 range.setEmpty.end_ := by
    rw [setEmpty]
    decide
  apply (yields_ok_iff hend _).mpr (.inl ⟨rfl, rfl⟩)
  intro v
  simp only [setEmpty, Set.mem_empty_iff_false, false_iff]
  omega

theorem yields_singleValue_iff {val : ℤ} (hval : InInt32 val) :
    Yields (singleValue val) {val} ↔ val + 1 < 2 ^ 31 := by
  have hmax := yields_setMax_iff ⟨val, 0⟩ val (by have := hval.1; omega)
  rw [Set.Icc_self] at hmax
  rw [singleValue, hmax]
  simp

theorem yields_setValue_iff (range : ValueOrRange) {val : ℤ} (hval : InInt32 val) :
    Yields (range.setValue val) {val} ↔ val + 1 < 2 ^ 31 := by
  have hsame : range.setValue val = singleValue val := by
    rw [setValue, singleValue, setMax_eq, setMax_eq]
  rw [hsame, yields_singleValue_iff hval]

theorem yields_rangeMaxMin_iff {maxVal minVal : ℤ} (hmaxVal : InInt32 maxVal) :
    Yields (rangeMaxMin maxVal minVal) (Set.Icc minVal maxVal) ↔
      (minVal ≤ maxVal → maxVal + 1 < 2 ^ 31) := by
  rw [rangeMaxMin]
  split
  next hle =>
    rw [yields_setMax_iff ⟨minVal, 0⟩ _ (by have := hmaxVal.1; omega)]
    simp only
    omega
  next hgt =>
    rw [Set.Icc_eq_empty hgt]
    exact iff_of_true (yields_setEmpty _) fun hle => absurd hle hgt

/-- Without the return, the range is empty only by chance. -/
theorem yields_setRangeMaxMin_iff (range : ValueOrRange) {maxVal minVal : ℤ}
    (hmaxVal : -2 ^ 31 ≤ maxVal + 1) :
    Yields (range.setRangeMaxMin maxVal minVal) (Set.Icc minVal maxVal) ↔
      maxVal + 1 < 2 ^ 31 ∧ (minVal ≤ maxVal ∨ (minVal = 0 ∧ maxVal = -1)) := by
  rw [setRangeMaxMin_eq, yields_setMax_iff ⟨minVal, 0⟩ _ hmaxVal]

/-- What is contained in the set, and what lies between it and the new maximum. -/
def extendTo (set : Set ℤ) (maxVal : ℤ) : Set ℤ :=
  {v | ∃ first ∈ set, first ≤ v ∧ (v ∈ set ∨ v ≤ maxVal)}

theorem yields_extendRangeToMax_iff {maxVal : ℤ} (hmaxVal : InInt32 maxVal)
    (hend : InInt32 range.end_) (hrange : range.IsSet) (hnonempty : range.empty = false) :
    Yields (range.extendRangeToMax maxVal) (extendTo {v | range.contains v = true} maxVal) ↔
      maxVal + 1 < 2 ^ 31 := by
  have hlt := hrange.wellFormed.begin_lt hnonempty
  have hset : ∀ v, v ∈ extendTo {v | range.contains v = true} maxVal ↔
      range.begin_ ≤ v ∧ (v < range.end_ ∨ v ≤ maxVal) := by
    intro v
    simp only [extendTo, Set.mem_ofPred_eq, contains_iff, Set.mem_Ico]
    apply Iff.intro
    · rintro ⟨first, hfirst, hle, hv | hv⟩ <;> omega
    · intro hv
      exact ⟨range.begin_, by omega, by omega, by omega⟩
  rw [extendRangeToMax, hnonempty, if_neg Bool.false_ne_true]
  split
  next hge =>
    have hsame : extendTo {v | range.contains v = true} maxVal = Set.Icc range.begin_ maxVal := by
      ext v
      rw [hset, Set.mem_Icc]
      omega
    have := hmaxVal.1
    rw [hsame, yields_setMax_iff range maxVal (by omega)]
    omega
  next hlater =>
    have hyields := (yields_ok_iff hend fun v => by rw [hset]; omega).mpr (.inr hlt)
    have := hend.2
    exact iff_of_true hyields (by omega)

/-- Two sets have their intersection if they have an integer in common, or one is empty, or
one ends just below zero where the other begins. -/
theorem yields_getIntersection_iff (hend : InInt32 range.end_) (hrange : range.IsSet)
    (hendOther : InInt32 other.end_) (hother : other.IsSet) :
    Yields (range.getIntersection other)
        ({v | range.contains v = true} ∩ {v | other.contains v = true}) ↔
      range.empty = true ∨ other.empty = true ∨
        (∃ v, range.contains v = true ∧ other.contains v = true) ∨
        (max range.begin_ other.begin_ = 0 ∧ min range.end_ other.end_ = 0) := by
  rw [getIntersection]
  cases hemptyOther : other.empty with
  | true =>
      have hnone := hother.empty_iff.mp hemptyOther
      have hyields : Yields (.ok other)
          ({v | range.contains v = true} ∩ {v | other.contains v = true}) :=
        ⟨other, rfl, hendOther, hother, fun v => by simp [hnone v]⟩
      simpa using hyields
  | false =>
      cases hempty : range.empty with
      | true =>
          have hnone := hrange.empty_iff.mp hempty
          have hsame : {v | range.contains v = true} ∩ {v | other.contains v = true} = ∅ := by
            ext v
            simp [hnone v]
          rw [hsame]
          simpa using yields_setEmpty other
      | false =>
          have hsame : {v | range.contains v = true} ∩ {v | other.contains v = true} =
              Set.Icc (max range.getMin other.getMin) (min range.getMax other.getMax) := by
            ext v
            simp only [Set.mem_inter_iff, Set.mem_ofPred_eq, contains_iff, Set.mem_Ico, Set.mem_Icc,
              getMin, getMax]
            omega
          have hlow := hend.1
          have hlowOther := hendOther.1
          have hhigh := hend.2
          rw [hsame]
          simp only [Bool.false_eq_true, if_false, false_or]
          rw [yields_setRangeMaxMin_iff other (by rw [getMax, getMax]; omega)]
          simp only [contains_iff, Set.mem_Ico, getMin, getMax]
          apply Iff.intro
          · rintro ⟨_, hle | hzero⟩
            · exact .inl ⟨max range.begin_ other.begin_, by omega⟩
            · exact .inr (by omega)
          · rintro (⟨v, hv⟩ | hzero) <;> omega

/-! ## Any sequence of calls -/

/-- An argument. -/
abbrev IntValue := {n : ℤ // InInt32 n}

/-- How a range was made: the calls on it, and on those it was intersected with. -/
inductive Made
  | default
  | singleValue (val : IntValue)
  | rangeZeroTo (maxVal : IntValue)
  | rangeMaxMin (maxVal minVal : IntValue)
  | setValue (range : Made) (val : IntValue)
  | setEmpty (range : Made)
  | setRangeMaxMin (range : Made) (maxVal minVal : IntValue)
  | extendRangeToMax (range : Made) (maxVal : IntValue)
  | getIntersection (range other : Made)

namespace Made

/-- An exception leaves the range as it was. -/
def caught (before : ValueOrRange) : Except RangeError ValueOrRange → Except RangeError ValueOrRange
  | .ok range => .ok range
  | .error (.logicError _) => .ok before
  | .error .overflow => .error .overflow

def eval : Made → Except RangeError ValueOrRange
  | default => .ok .default
  | singleValue val => ValueOrRange.singleValue val
  | rangeZeroTo maxVal => ValueOrRange.rangeZeroTo maxVal
  | rangeMaxMin maxVal minVal => ValueOrRange.rangeMaxMin maxVal minVal
  | setValue range val => do (← range.eval).setValue val
  | setEmpty range => do return (← range.eval).setEmpty
  | setRangeMaxMin range maxVal minVal => do (← range.eval).setRangeMaxMin maxVal minVal
  | extendRangeToMax range maxVal => do
      let before ← range.eval
      caught before (before.extendRangeToMax maxVal)
  | getIntersection range other => do (← range.eval).getIntersection (← other.eval)

/-- The set that the range stands for. -/
def denote : Made → Set ℤ
  | default => ∅
  | singleValue val => {val.1}
  | rangeZeroTo maxVal => Set.Icc 0 maxVal
  | rangeMaxMin maxVal minVal => Set.Icc minVal maxVal
  | setValue _ val => {val.1}
  | setEmpty _ => ∅
  | setRangeMaxMin _ maxVal minVal => Set.Icc minVal maxVal
  | extendRangeToMax range maxVal => extendTo range.denote maxVal
  | getIntersection range other => range.denote ∩ other.denote

/-- The ranges that the last call is about. -/
def operands : Made → List Made
  | default | singleValue _ | rangeZeroTo _ | rangeMaxMin _ _ => []
  | setValue range _ | setEmpty range | setRangeMaxMin range _ _ | extendRangeToMax range _ =>
      [range]
  | getIntersection range other => [range, other]

/-- The range after every call. -/
def steps : Made → List Made
  | default => [default]
  | singleValue val => [singleValue val]
  | rangeZeroTo maxVal => [rangeZeroTo maxVal]
  | rangeMaxMin maxVal minVal => [rangeMaxMin maxVal minVal]
  | setValue range val => setValue range val :: range.steps
  | setEmpty range => setEmpty range :: range.steps
  | setRangeMaxMin range maxVal minVal => setRangeMaxMin range maxVal minVal :: range.steps
  | extendRangeToMax range maxVal => extendRangeToMax range maxVal :: range.steps
  | getIntersection range other => getIntersection range other :: (range.steps ++ other.steps)

/-- What the last call needs: that one more than the maximum is an `int`; that the bounds of
`setRangeMaxMin` are the right way round, or those of an empty range by chance; and that the
bounds which an intersection sets are so. -/
def Meets : Made → Prop
  | default | setEmpty _ => True
  | singleValue val | setValue _ val => val.1 + 1 < 2 ^ 31
  | rangeZeroTo maxVal => maxVal.1 + 1 < 2 ^ 31
  | rangeMaxMin maxVal minVal => minVal.1 ≤ maxVal.1 → maxVal.1 + 1 < 2 ^ 31
  | setRangeMaxMin _ maxVal minVal =>
      maxVal.1 + 1 < 2 ^ 31 ∧ (minVal.1 ≤ maxVal.1 ∨ (minVal.1 = 0 ∧ maxVal.1 = -1))
  | extendRangeToMax range maxVal =>
      ∀ before, range.eval = .ok before → before.empty = false → maxVal.1 + 1 < 2 ^ 31
  | getIntersection range other =>
      ∀ first second, range.eval = .ok first → other.eval = .ok second →
        first.empty = true ∨ second.empty = true ∨
          (∃ v, first.contains v = true ∧ second.contains v = true) ∨
          (max first.begin_ second.begin_ = 0 ∧ min first.end_ second.end_ = 0)

theorem self_mem_steps (made : Made) : made ∈ made.steps := by
  cases made <;> exact List.mem_cons_self

/-- A range that is empty stays as it is, with the exception; the others are extended. -/
theorem yields_caught_extendRangeToMax_iff {before : ValueOrRange} {maxVal : ℤ}
    (hmaxVal : InInt32 maxVal) (hend : InInt32 before.end_) (hbefore : before.IsSet) :
    Yields (caught before (before.extendRangeToMax maxVal))
        (extendTo {v | before.contains v = true} maxVal) ↔
      (before.empty = false → maxVal + 1 < 2 ^ 31) := by
  cases hempty : before.empty with
  | true =>
      have hunchanged : caught before (before.extendRangeToMax maxVal) = .ok before := by
        rw [ValueOrRange.extendRangeToMax, hempty, if_pos rfl, caught]
      have hnone := hbefore.empty_iff.mp hempty
      apply iff_of_true _ nofun
      exact ⟨before, hunchanged, hend, hbefore, fun v => by simp [extendTo, hnone]⟩
  | false =>
      have hresult : caught before (before.extendRangeToMax maxVal) =
          before.extendRangeToMax maxVal := by
        rw [ValueOrRange.extendRangeToMax, hempty, if_neg Bool.false_ne_true, setMax_eq]
        split
        · split <;> rfl
        · rfl
      rw [hresult]
      exact (yields_extendRangeToMax_iff hmaxVal hend hbefore hempty).trans (by simp)

/-- Where the operands are the sets that they stand for, the result is just when the call
gets what it needs. -/
theorem yields_iff_meets (made : Made)
    (hoperands : ∀ operand ∈ made.operands, Yields operand.eval operand.denote) :
    Yields made.eval made.denote ↔ made.Meets := by
  cases made with
  | default => exact iff_of_true (yields_setEmpty ⟨0, 0⟩) trivial
  | singleValue val => exact yields_singleValue_iff val.2
  | rangeZeroTo maxVal =>
      have := maxVal.2.2
      apply (yields_rangeMaxMin_iff maxVal.2).trans
      rw [Meets]
      omega
  | rangeMaxMin maxVal minVal => exact yields_rangeMaxMin_iff maxVal.2
  | setValue range val =>
      obtain ⟨before, hbefore, _⟩ := hoperands range List.mem_cons_self
      rw [eval, hbefore]
      exact yields_setValue_iff before val.2
  | setEmpty range =>
      obtain ⟨before, hbefore, _⟩ := hoperands range List.mem_cons_self
      rw [eval, hbefore]
      exact iff_of_true (yields_setEmpty before) trivial
  | setRangeMaxMin range maxVal minVal =>
      obtain ⟨before, hbefore, _⟩ := hoperands range List.mem_cons_self
      have := maxVal.2.1
      rw [eval, hbefore]
      exact yields_setRangeMaxMin_iff before (by omega)
  | extendRangeToMax range maxVal =>
      obtain ⟨before, hbefore, hend, hset, hdenote⟩ :=
        (hoperands range List.mem_cons_self).exists_range
      rw [eval, hbefore, denote, hdenote, Meets, hbefore]
      apply (yields_caught_extendRangeToMax_iff maxVal.2 hend hset).trans
      simp
  | getIntersection range other =>
      obtain ⟨first, hfirst, hend, hset, hdenote⟩ :=
        (hoperands range List.mem_cons_self).exists_range
      obtain ⟨second, hsecond, hendOther, hsetOther, hdenoteOther⟩ :=
        (hoperands other (List.mem_cons_of_mem _ List.mem_cons_self)).exists_range
      rw [eval, hfirst, hsecond, denote, hdenote, hdenoteOther]
      apply (yields_getIntersection_iff hend hset hendOther hsetOther).trans
      rw [Meets, hfirst, hsecond]
      simp

theorem forall_steps_iff {p : Made → Prop} (made : Made) :
    (∀ step ∈ made.steps, p step) ↔
      p made ∧ ∀ operand ∈ made.operands, ∀ step ∈ operand.steps, p step := by
  cases made <;> simp [steps, operands, or_imp, forall_and]

theorem yields_steps_iff_of_operands (made : Made)
    (ih : ∀ operand ∈ made.operands,
      (∀ step ∈ operand.steps, Yields step.eval step.denote) ↔
        ∀ step ∈ operand.steps, step.Meets) :
    (∀ step ∈ made.steps, Yields step.eval step.denote) ↔ ∀ step ∈ made.steps, step.Meets := by
  rw [forall_steps_iff, forall_steps_iff, ← forall₂_congr ih]
  apply and_congr_left
  intro hoperands
  apply yields_iff_meets
  intro operand hmem
  exact hoperands operand hmem operand operand.self_mem_steps

/-- In any sequence of calls: every range on the way is the set that it stands for, just when
every call gets what it needs. -/
theorem yields_steps_iff (made : Made) :
    (∀ step ∈ made.steps, Yields step.eval step.denote) ↔ ∀ step ∈ made.steps, step.Meets := by
  induction made with
  | default | singleValue | rangeZeroTo | rangeMaxMin =>
      exact yields_steps_iff_of_operands _ nofun
  | setValue _ _ ih | setEmpty _ ih | setRangeMaxMin _ _ _ ih | extendRangeToMax _ _ ih =>
      exact yields_steps_iff_of_operands _ (by simpa [operands] using ih)
  | getIntersection _ _ ih ihOther =>
      exact yields_steps_iff_of_operands _ (by simpa [operands] using ⟨ih, ihOther⟩)

theorem inInt32_two : InInt32 2 := by decide

theorem inInt32_five : InInt32 5 := by decide

/-- Two values that are different. -/
def twoAndFive : Made :=
  getIntersection (singleValue ⟨2, inInt32_two⟩) (singleValue ⟨5, inInt32_five⟩)

/-- Their intersection contains nothing, is not empty, and is not left by an iteration. -/
theorem eval_twoAndFive :
    ∃ range, twoAndFive.eval = .ok range ∧ (∀ v, range.contains v = false) ∧
      range.empty = false ∧ range.values = .error .overflow ∧
      ¬∀ made : Made, Yields made.eval made.denote := by
  refine ⟨⟨5, 3⟩, by decide, ?_, by decide, iterate_of_gt (by decide), ?_⟩
  · intro v
    rw [contains_eq_false_iff]
    simp only
    omega
  · intro h
    obtain ⟨range, hrange, _, hset, _⟩ := h twoAndFive
    have heval : twoAndFive.eval = .ok ⟨5, 3⟩ := by decide
    rw [heval] at hrange
    cases hrange
    obtain ⟨values, hvalues, _⟩ := hset.enumerates
    rw [ValueOrRange.values, iterate_of_gt (by decide)] at hvalues
    cases hvalues

end Made

end ValueOrRange
end OSVR.Util
