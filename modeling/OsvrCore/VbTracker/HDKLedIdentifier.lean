/-
# Identification of beacons by their blinking

Every beacon of the HDK repeats a pattern of bright and dim frames. The identifier keeps
each pattern with most of a second copy behind it, and looks in it for the bits that it
reads off the last brightnesses. The least pattern of which these are a rotation is the
answer, so it does not matter with which frame the observation began.

Brightnesses are rational numbers. A minimum of an empty list is no value.
-/

import Mathlib.Algebra.Order.Field.Rat
import Mathlib.Order.Bounds.Basic
import Mathlib.Tactic.NormNum
import OsvrCore.Math.CyclicWord
import OsvrCore.Common.JsonValue
import OsvrCore.Util.MachineIntegers
import OsvrCore.VbTracker.LedAssociation

set_option autoImplicit false

namespace OSVR.VbTracker

open Math Common Util

/-! ## Helpers -/

def VALIDCHARS : Str := ['*', '.']

def SENTINEL_INSUFFICIENT_EXTREMA_DIFFERENCE : ℤ := -2

def SENTINEL_NO_PATTERN_RECOGNIZED_DESPITE_SUFFICIENT_DATA : ℤ := -3

def TODO_MIN_BRIGHTNESS_DIFF : ℚ := 3 / 10

/-- `std::string::find`: the position of the first occurrence, from a position on. -/
def find (bits : Str) : Str → ℕ → Option ℕ
  | [], position => if bits.isPrefixOf [] then some position else none
  | char :: rest, position =>
      if bits.isPrefixOf (char :: rest) then some position else find bits rest (position + 1)

/-- The entries at the front go until the list is no longer than `n`. -/
def truncateBrightnessListTo (n : ℕ) : List ℚ → List ℚ
  | [] => []
  | front :: rest =>
      if n < (front :: rest).length then truncateBrightnessListTo n rest else front :: rest

/-- The list must not be empty. -/
def findMinMaxBrightness (brightnesses : List ℚ) : Option (ℚ × ℚ) :=
  brightnesses.min?.bind fun minVal => brightnesses.max?.map fun maxVal => (minVal, maxVal)

def getBitsUsingThreshold (brightnesses : List ℚ) (threshold : ℚ) : Str :=
  brightnesses.map fun val => if threshold ≤ val then '*' else '.'

/-- The pattern is neither empty nor disabled by some other character. -/
def isEnabled (pat : Str) : Bool :=
  !pat.isEmpty && pat.all fun char => VALIDCHARS.contains char

/-! ## The identifier -/

structure OsvrHdkLedIdentifier where
  /-- Length of all patterns. -/
  d_length : ℕ
  /-- Patterns by index. -/
  d_patterns : List Str

namespace OsvrHdkLedIdentifier

/-- The length of the first valid pattern, or 0. -/
def firstLength : List Str → ℕ
  | [] => 0
  | pat :: rest => if isEnabled pat then pat.length else firstLength rest

/-- The patterns as they are kept; a disabled one is kept as the empty pattern. -/
def wrapPatterns (length : ℕ) : List Str → Except String (List Str)
  | [] => .ok []
  | pat :: rest =>
      if !isEnabled pat then (wrapPatterns length rest).map ([] :: ·)
      else if pat.length ≠ length then .error "Got a pattern of incorrect length!"
      else
        let wrapped := (pat ++ pat).dropLast
        (wrapPatterns length rest).map (wrapped :: ·)

def new (PATTERNS : List Str) : Except String OsvrHdkLedIdentifier :=
  if PATTERNS.isEmpty then .ok { d_length := 0, d_patterns := [] }
  else
    let d_length := firstLength PATTERNS
    if d_length = 0 then .ok { d_length := 0, d_patterns := [] }
    else (wrapPatterns d_length PATTERNS).map fun d_patterns =>
      { d_length := d_length, d_patterns := d_patterns }

/-- The search through the available patterns, the first of which has index `i`. -/
def recognize (bits : Str) : List Str → ℕ → ℤ
  | [], _ => SENTINEL_NO_PATTERN_RECOGNIZED_DESPITE_SUFFICIENT_DATA
  | pattern :: rest, i =>
      if pattern.isEmpty then recognize bits rest (i + 1)
      else if (find bits pattern 0).isSome then toInt i
      else recognize bits rest (i + 1)

/-- What a call leaves: the code, the history and whether the beacon is bright. -/
structure Identification where
  id : ℤ
  brightnesses : List ℚ
  lastBright : Bool
  deriving DecidableEq

def getId (identifier : OsvrHdkLedIdentifier) (currentId : ℤ) (brightnesses : List ℚ)
    (lastBright blobsKeepId : Bool) : Option Identification :=
  if brightnesses.length < identifier.d_length then
    some ⟨SENTINEL_NO_IDENTIFIER_OBJECT_OR_INSUFFICIENT_DATA, brightnesses, lastBright⟩
  else
    let brightnesses := truncateBrightnessListTo identifier.d_length brightnesses
    match findMinMaxBrightness brightnesses, brightnesses.getLast? with
    | some (minVal, maxVal), some back =>
        if maxVal - minVal ≤ TODO_MIN_BRIGHTNESS_DIFF then
          some ⟨SENTINEL_INSUFFICIENT_EXTREMA_DIFFERENCE, brightnesses, lastBright⟩
        else
          let threshold := (minVal + maxVal) / 2
          let lastBright := decide (threshold ≤ back)
          if blobsKeepId && decide (0 ≤ currentId) then
            some ⟨currentId, brightnesses, lastBright⟩
          else
            let bits := getBitsUsingThreshold brightnesses threshold
            some ⟨recognize bits identifier.d_patterns 0, brightnesses, lastBright⟩
    -- The minimum of an empty list.
    | _, _ => none

end OsvrHdkLedIdentifier

/-! ## What the helpers compute -/

theorem find_isSome_iff (bits text : Str) (position : ℕ) :
    (find bits text position).isSome ↔ bits <:+: text := by
  induction text generalizing position with
  | nil =>
      rw [find, List.infix_nil]
      cases bits <;> simp
  | cons char rest ih =>
      rw [find, List.infix_cons_iff]
      split
      next hstart => simp [List.isPrefixOf_iff_prefix.mp hstart]
      next hstart =>
        rw [ih (position + 1)]
        rw [List.isPrefixOf_iff_prefix] at hstart
        simp [hstart]

/-- The last entries of a history. -/
def lastEntries (size : ℕ) (brightnesses : List ℚ) : List ℚ :=
  brightnesses.drop (brightnesses.length - size)

theorem length_lastEntries {size : ℕ} {brightnesses : List ℚ} (h : size ≤ brightnesses.length) :
    (lastEntries size brightnesses).length = size := by
  rw [lastEntries, List.length_drop]
  omega

theorem lastEntries_window (sequence : ℕ → ℚ) (start count size : ℕ) (h : size ≤ count) :
    lastEntries size (window sequence start count) =
      window sequence (start + (count - size)) size := by
  rw [lastEntries, length_window, drop_window, Nat.sub_sub_self h]

theorem truncateBrightnessListTo_eq (n : ℕ) (brightnesses : List ℚ) :
    truncateBrightnessListTo n brightnesses = lastEntries n brightnesses := by
  induction brightnesses with
  | nil => simp [truncateBrightnessListTo, lastEntries]
  | cons front rest ih =>
      rw [truncateBrightnessListTo, lastEntries]
      split
      next hlt =>
        have hle : n ≤ rest.length := Nat.lt_succ_iff.mp hlt
        rw [ih, lastEntries, List.length_cons, Nat.succ_sub hle, List.drop_succ_cons]
      next hle => rw [Nat.sub_eq_zero_of_le (by omega), List.drop_zero]

theorem length_lastEntries_le (n : ℕ) (brightnesses : List ℚ) :
    (lastEntries n brightnesses).length ≤ n := by
  rw [lastEntries, List.length_drop]
  omega

/-- The extrema of a list are its least and its greatest entry. -/
theorem findMinMaxBrightness_eq {brightnesses : List ℚ} {minVal maxVal : ℚ}
    (hmin : IsLeast {b | b ∈ brightnesses} minVal)
    (hmax : IsGreatest {b | b ∈ brightnesses} maxVal) :
    findMinMaxBrightness brightnesses = some (minVal, maxVal) := by
  have hleast : brightnesses.min? = some minVal :=
    List.min?_eq_some_iff.mpr ⟨hmin.1, fun b hb => hmin.2 hb⟩
  have hgreatest : brightnesses.max? = some maxVal :=
    List.max?_eq_some_iff.mpr ⟨hmax.1, fun b hb => hmax.2 hb⟩
  rw [findMinMaxBrightness, hleast, hgreatest]
  rfl

theorem findMinMaxBrightness_perm {brightnesses others : List ℚ}
    (h : brightnesses.Perm others) :
    findMinMaxBrightness brightnesses = findMinMaxBrightness others := by
  have hmin : brightnesses.min? = others.min? := by
    apply Option.ext
    intro minVal
    simp only [List.min?_eq_some_iff, h.mem_iff]
  have hmax : brightnesses.max? = others.max? := by
    apply Option.ext
    intro maxVal
    simp only [List.max?_eq_some_iff, h.mem_iff]
  rw [findMinMaxBrightness, findMinMaxBrightness, hmin, hmax]

/-! ## What the constructor keeps -/

/-- What is kept of a pattern. -/
def keptPattern (pat : Str) : Str := if isEnabled pat then doubledWord pat else []

theorem ne_nil_of_isEnabled {pat : Str} (h : isEnabled pat = true) : pat ≠ [] := by
  intro hnil
  subst hnil
  simp [isEnabled] at h

theorem keptPattern_isEmpty (pat : Str) : (keptPattern pat).isEmpty = !isEnabled pat := by
  rw [keptPattern]
  split
  next h => simp [h, doubledWord_ne_nil (ne_nil_of_isEnabled h)]
  next h => simp [h]

namespace OsvrHdkLedIdentifier

theorem firstLength_eq_zero_iff (patterns : List Str) :
    firstLength patterns = 0 ↔ ∀ pat ∈ patterns, isEnabled pat = false := by
  induction patterns with
  | nil => simp [firstLength]
  | cons pat rest ih =>
      rw [firstLength, List.forall_mem_cons]
      split
      next h => simp [h, ne_nil_of_isEnabled h]
      next h => simp [h, ih]

theorem wrapPatterns_eq_ok {length : ℕ} {patterns kept : List Str}
    (h : wrapPatterns length patterns = .ok kept) :
    (∀ pat ∈ patterns, isEnabled pat = true → pat.length = length) ∧
      kept = patterns.map keptPattern := by
  induction patterns generalizing kept with
  | nil =>
      cases h
      simp
  | cons pat rest ih =>
      rw [wrapPatterns] at h
      rw [List.forall_mem_cons, List.map_cons]
      by_cases henabled : isEnabled pat = true
      · simp only [henabled, Bool.not_true, Bool.false_eq_true, if_false] at h
        split at h
        next => cases h
        next hsize =>
          obtain ⟨others, hrest, rfl⟩ := exists_of_map_eq_ok h
          obtain ⟨hall, heq⟩ := ih hrest
          exact ⟨⟨fun _ => not_not.mp hsize, hall⟩, by rw [heq, keptPattern, if_pos henabled]; rfl⟩
      · simp only [henabled, Bool.not_false, if_true] at h
        obtain ⟨others, hrest, rfl⟩ := exists_of_map_eq_ok h
        obtain ⟨hall, heq⟩ := ih hrest
        exact ⟨⟨fun hpat => absurd hpat henabled, hall⟩, by rw [heq, keptPattern, if_neg henabled]⟩

/-- Without an enabled pattern nothing is kept and the length is 0. -/
theorem new_of_disabled {patterns : List Str} {identifier : OsvrHdkLedIdentifier}
    (h : new patterns = .ok identifier) (hnone : ∀ pat ∈ patterns, isEnabled pat = false) :
    identifier.d_length = 0 := by
  rw [new, (firstLength_eq_zero_iff patterns).mpr hnone] at h
  split at h <;> cases h <;> rfl

/-- With an enabled pattern all of them have the length that the identifier uses. -/
theorem new_of_enabled {patterns : List Str} {identifier : OsvrHdkLedIdentifier}
    (h : new patterns = .ok identifier) {pat : Str} (hmem : pat ∈ patterns)
    (henabled : isEnabled pat = true) :
    (∀ pat ∈ patterns, isEnabled pat = true → pat.length = identifier.d_length) ∧
      identifier.d_patterns = patterns.map keptPattern := by
  have hlength : firstLength patterns ≠ 0 := by
    intro hzero
    rw [(firstLength_eq_zero_iff patterns).mp hzero pat hmem] at henabled
    cases henabled
  have hcons : patterns.isEmpty = false := by
    cases patterns with
    | nil => cases hmem
    | cons => rfl
  rw [new, hcons, if_neg Bool.false_ne_true] at h
  simp only [hlength, if_false] at h
  obtain ⟨kept, hkept, rfl⟩ := exists_of_map_eq_ok h
  exact wrapPatterns_eq_ok hkept

theorem d_length_pos {patterns : List Str} {identifier : OsvrHdkLedIdentifier}
    (h : new patterns = .ok identifier) {pat : Str} (hmem : pat ∈ patterns)
    (henabled : isEnabled pat = true) : 0 < identifier.d_length := by
  rw [← (new_of_enabled h hmem henabled).1 pat hmem henabled]
  exact List.length_pos_iff.mpr (ne_nil_of_isEnabled henabled)

/-! ## The search -/

/-- The bits are a rotation of the enabled pattern of an index. -/
def Matches (bits : Str) (patterns : List Str) (i : ℕ) : Prop :=
  ∃ pat, patterns[i]? = some pat ∧ isEnabled pat = true ∧ pat ~r bits

theorem matches_zero_iff {bits pat : Str} {rest : List Str} :
    Matches bits (pat :: rest) 0 ↔ isEnabled pat = true ∧ pat ~r bits := by
  simp [Matches]

theorem matches_succ_iff {bits pat : Str} {rest : List Str} {i : ℕ} :
    Matches bits (pat :: rest) (i + 1) ↔ Matches bits rest i := by
  simp [Matches]

theorem matches_congr {bits others : Str} (h : bits ~r others) {patterns : List Str} {i : ℕ} :
    Matches bits patterns i ↔ Matches others patterns i := by
  have hiff : ∀ pat : Str, pat ~r bits ↔ pat ~r others :=
    fun pat => ⟨fun hpat => hpat.trans h, fun hpat => hpat.trans h.symm⟩
  simp only [Matches, hiff]

/-- One pattern of the search: it is found exactly when it matches. -/
theorem recognize_cons {bits pat : Str} (hlength : isEnabled pat = true → bits.length = pat.length)
    (kept : List Str) (i : ℕ) :
    (isEnabled pat = true ∧ pat ~r bits → recognize bits (keptPattern pat :: kept) i = toInt i) ∧
      (¬ (isEnabled pat = true ∧ pat ~r bits) →
        recognize bits (keptPattern pat :: kept) i = recognize bits kept (i + 1)) := by
  rw [recognize, keptPattern_isEmpty]
  by_cases henabled : isEnabled pat = true
  · have hfind : (find bits (keptPattern pat) 0).isSome ↔ pat ~r bits := by
      rw [find_isSome_iff, keptPattern, if_pos henabled]
      exact isInfix_doubledWord_iff (hlength henabled) (ne_nil_of_isEnabled henabled)
    simp only [henabled, Bool.not_true, Bool.false_eq_true, if_false, true_and, hfind]
    exact ⟨fun h => if_pos h, fun h => if_neg h⟩
  · simp [henabled]

/-- The search returns the least index that matches. -/
theorem recognize_eq_of_isLeast {bits : Str} {patterns : List Str}
    (hlength : ∀ pat ∈ patterns, isEnabled pat = true → bits.length = pat.length)
    {index : ℕ} (hleast : IsLeast {i | Matches bits patterns i} index) (i : ℕ) :
    recognize bits (patterns.map keptPattern) i = toInt (i + index) := by
  induction patterns generalizing index i with
  | nil =>
      obtain ⟨pat, hpat, _⟩ := hleast.1
      cases hpat
  | cons pat rest ih =>
      rw [List.forall_mem_cons] at hlength
      obtain ⟨hfound, hnext⟩ := recognize_cons hlength.1 (rest.map keptPattern) i
      rw [List.map_cons]
      by_cases hpat : isEnabled pat = true ∧ pat ~r bits
      · have hzero : index = 0 := Nat.le_zero.mp (hleast.2 (matches_zero_iff.mpr hpat))
        rw [hfound hpat, hzero, Nat.add_zero]
      · rw [hnext hpat]
        cases index with
        | zero => exact absurd (matches_zero_iff.mp hleast.1) hpat
        | succ index =>
            have hrest : IsLeast {i | Matches bits rest i} index :=
              ⟨matches_succ_iff.mp hleast.1,
                fun j hj => Nat.le_of_succ_le_succ (hleast.2 (matches_succ_iff.mpr hj))⟩
            rw [ih hlength.2 hrest (i + 1), Nat.add_assoc, Nat.add_comm 1]

theorem recognize_eq_of_forall_not {bits : Str} {patterns : List Str}
    (hlength : ∀ pat ∈ patterns, isEnabled pat = true → bits.length = pat.length)
    (hnone : ∀ i, ¬ Matches bits patterns i) (i : ℕ) :
    recognize bits (patterns.map keptPattern) i =
      SENTINEL_NO_PATTERN_RECOGNIZED_DESPITE_SUFFICIENT_DATA := by
  induction patterns generalizing i with
  | nil => rfl
  | cons pat rest ih =>
      rw [List.forall_mem_cons] at hlength
      have hpat : ¬ (isEnabled pat = true ∧ pat ~r bits) :=
        fun h => hnone 0 (matches_zero_iff.mpr h)
      rw [List.map_cons, (recognize_cons hlength.1 _ i).2 hpat]
      exact ih hlength.2 (fun j hj => hnone (j + 1) (matches_succ_iff.mpr hj)) (i + 1)

/-- The answer of the search depends on the bits up to rotation only. -/
theorem recognize_congr {bits others : Str} (h : bits ~r others) {patterns : List Str}
    (hlength : ∀ pat ∈ patterns, isEnabled pat = true → bits.length = pat.length) (i : ℕ) :
    recognize bits (patterns.map keptPattern) i =
      recognize others (patterns.map keptPattern) i := by
  have hothers : ∀ pat ∈ patterns, isEnabled pat = true → others.length = pat.length :=
    fun pat hmem henabled => h.perm.length_eq ▸ hlength pat hmem henabled
  by_cases hsome : ∃ index, Matches bits patterns index
  · classical
    have hleast : IsLeast {i | Matches bits patterns i} (Nat.find hsome) :=
      ⟨Nat.find_spec hsome, fun j hj => Nat.find_min' hsome hj⟩
    have hsets : {i | Matches bits patterns i} = {i | Matches others patterns i} := by
      ext index
      exact matches_congr h
    rw [recognize_eq_of_isLeast hlength hleast,
      recognize_eq_of_isLeast hothers (hsets ▸ hleast)]
  · have hnone := not_exists.mp hsome
    rw [recognize_eq_of_forall_not hlength hnone, recognize_eq_of_forall_not hothers
      fun index hindex => hnone index ((matches_congr h).mpr hindex)]

/-! ## One call -/

/-- The list has extrema, and a last entry, unless it is empty. -/
theorem findMinMaxBrightness_isSome {brightnesses : List ℚ} (h : brightnesses ≠ []) :
    ∃ extrema back, findMinMaxBrightness brightnesses = some extrema ∧
      brightnesses.getLast? = some back := by
  obtain ⟨minVal, hmin⟩ := Option.isSome_iff_exists.mp (List.isSome_min?_of_ne_nil h)
  obtain ⟨maxVal, hmax⟩ := Option.isSome_iff_exists.mp (List.isSome_max?_of_ne_nil h)
  refine ⟨(minVal, maxVal), brightnesses.getLast h, ?_, List.getLast?_eq_some_getLast h⟩
  rw [findMinMaxBrightness, hmin, hmax]
  rfl

/-- The call does not keep the identity that the beacon has. -/
def NoEarlyExit (blobsKeepId : Bool) (currentId : ℤ) : Prop :=
  ¬ (blobsKeepId = true ∧ 0 ≤ currentId)

/-- With a full history and without the early exit, the answer comes from the extrema and
the bits of the last entries. -/
theorem getId_id_eq {identifier : OsvrHdkLedIdentifier} {currentId : ℤ} {brightnesses : List ℚ}
    (lastBright : Bool) {blobsKeepId : Bool} (hlong : identifier.d_length ≤ brightnesses.length)
    (hexit : NoEarlyExit blobsKeepId currentId) :
    (identifier.getId currentId brightnesses lastBright blobsKeepId).map Identification.id =
      (findMinMaxBrightness (lastEntries identifier.d_length brightnesses)).map fun extrema =>
        if extrema.2 - extrema.1 ≤ TODO_MIN_BRIGHTNESS_DIFF then
          SENTINEL_INSUFFICIENT_EXTREMA_DIFFERENCE
        else
          recognize (getBitsUsingThreshold (lastEntries identifier.d_length brightnesses)
            ((extrema.1 + extrema.2) / 2)) identifier.d_patterns 0 := by
  have hkeep : (blobsKeepId && decide (0 ≤ currentId)) = false := by
    simpa [NoEarlyExit] using hexit
  rw [getId, if_neg (Nat.not_lt.mpr hlong)]
  simp only [truncateBrightnessListTo_eq]
  by_cases hnil : lastEntries identifier.d_length brightnesses = []
  · rw [hnil]
    rfl
  · obtain ⟨extrema, back, hextrema, hback⟩ := findMinMaxBrightness_isSome hnil
    rw [hextrema, hback]
    simp only [hkeep, Bool.false_eq_true, if_false, Option.map_some]
    split <;> rfl

/-- A call ends, with the history no longer than the patterns, whenever these have a
length. -/
theorem getId_safe {identifier : OsvrHdkLedIdentifier} (hpos : 0 < identifier.d_length)
    (currentId : ℤ) (brightnesses : List ℚ) (lastBright blobsKeepId : Bool) :
    ∃ result, identifier.getId currentId brightnesses lastBright blobsKeepId = some result ∧
      result.brightnesses.length ≤ identifier.d_length := by
  rw [getId]
  split
  next hshort => exact ⟨_, rfl, hshort.le⟩
  next hlong =>
    have hle := length_lastEntries_le identifier.d_length brightnesses
    have hne : lastEntries identifier.d_length brightnesses ≠ [] := by
      rw [← List.length_pos_iff, length_lastEntries (Nat.not_lt.mp hlong)]
      exact hpos
    obtain ⟨extrema, back, hextrema, hback⟩ := findMinMaxBrightness_isSome hne
    simp only [truncateBrightnessListTo_eq, hextrema, hback]
    split
    next => exact ⟨_, rfl, hle⟩
    next =>
      split
      next => exact ⟨_, rfl, hle⟩
      next => exact ⟨_, rfl, hle⟩

/-- Without a length the extrema of an empty list are taken. -/
theorem getId_eq_none {identifier : OsvrHdkLedIdentifier} (hzero : identifier.d_length = 0)
    (currentId : ℤ) (brightnesses : List ℚ) (lastBright blobsKeepId : Bool) :
    identifier.getId currentId brightnesses lastBright blobsKeepId = none := by
  have hnil : lastEntries 0 brightnesses = [] := by
    rw [lastEntries, Nat.sub_zero, List.drop_length]
  rw [getId, hzero, if_neg (Nat.not_lt_zero _), truncateBrightnessListTo_eq, hnil]
  rfl

/-! ## The identification as a whole -/

/-- The answer is the least index whose pattern has the bits as a rotation, as an `int`,
and some negative code if there is none. -/
def Recognizes (patterns : List Str) (bits : Str) (answer : Option ℤ) : Prop :=
  (∀ i, IsLeast {i | Matches bits patterns i} i →
    answer = some (toInt i) ∧ (i < 2 ^ 31 → toInt i = i)) ∧
  ((∀ i, ¬ Matches bits patterns i) → ∃ code < 0, answer = some code)

/-- The answer is the least enabled pattern of which the thresholded last entries are a
rotation; for a repeating sequence it does not depend on where the observation began, nor on
how long it was. -/
theorem getId_least_rotation {patterns : List Str} {identifier : OsvrHdkLedIdentifier}
    (haccepted : new patterns = .ok identifier) {L : ℕ}
    (henabled : ∃ pat ∈ patterns, isEnabled pat = true ∧ pat.length = L) :
    (∀ currentId brightnesses lastBright blobsKeepId minVal maxVal,
      NoEarlyExit blobsKeepId currentId →
      L ≤ brightnesses.length →
      IsLeast {b | b ∈ lastEntries L brightnesses} minVal →
      IsGreatest {b | b ∈ lastEntries L brightnesses} maxVal →
      TODO_MIN_BRIGHTNESS_DIFF < maxVal - minVal →
      Recognizes patterns
        (getBitsUsingThreshold (lastEntries L brightnesses) ((minVal + maxVal) / 2))
        ((identifier.getId currentId brightnesses lastBright blobsKeepId).map
          Identification.id)) ∧
    ∀ sequence : ℕ → ℚ, (∀ n, sequence (n + L) = sequence n) →
      ∀ currentId start count lastBright blobsKeepId,
        NoEarlyExit blobsKeepId currentId → L ≤ count →
      ∀ currentId' start' count' lastBright' blobsKeepId',
        NoEarlyExit blobsKeepId' currentId' → L ≤ count' →
        (identifier.getId currentId (window sequence start count) lastBright blobsKeepId).map
            Identification.id =
          (identifier.getId currentId' (window sequence start' count') lastBright'
            blobsKeepId').map Identification.id := by
  obtain ⟨pat, hmem, hpat, hlength⟩ := henabled
  obtain ⟨hlengths, hkept⟩ := new_of_enabled haccepted hmem hpat
  have hL : identifier.d_length = L := by rw [← hlength, hlengths pat hmem hpat]
  have hbits : ∀ (entries : List ℚ) (threshold : ℚ), entries.length = L →
      ∀ pat ∈ patterns, isEnabled pat = true →
        (getBitsUsingThreshold entries threshold).length = pat.length := by
    intro entries threshold hentries pat hmem hpat
    rw [getBitsUsingThreshold, List.length_map, hentries, hlengths pat hmem hpat, hL]
  apply And.intro
  · intro currentId brightnesses lastBright blobsKeepId minVal maxVal hexit hlong hmin hmax
      hcontrast
    have hsize := hbits _ ((minVal + maxVal) / 2) (length_lastEntries hlong)
    rw [getId_id_eq lastBright (hL ▸ hlong) hexit, hL, findMinMaxBrightness_eq hmin hmax,
      Option.map_some, if_neg (not_le.mpr hcontrast), hkept]
    apply And.intro
    · intro i hleast
      rw [recognize_eq_of_isLeast hsize hleast, Nat.zero_add]
      exact ⟨rfl, toInt_eq⟩
    · intro hnone
      rw [recognize_eq_of_forall_not hsize hnone]
      exact ⟨_, by decide, rfl⟩
  · intro sequence hperiod currentId start count lastBright blobsKeepId hexit hcount currentId'
      start' count' lastBright' blobsKeepId' hexit' hcount'
    rw [getId_id_eq lastBright (by simpa [hL] using hcount) hexit,
      getId_id_eq lastBright' (by simpa [hL] using hcount') hexit', hL,
      lastEntries_window _ _ _ _ hcount, lastEntries_window _ _ _ _ hcount', hkept]
    have hrotated := window_isRotated hperiod (start + (count - L)) (start' + (count' - L))
    have hbitsRotated : ∀ threshold : ℚ,
        getBitsUsingThreshold (window sequence (start + (count - L)) L) threshold ~r
          getBitsUsingThreshold (window sequence (start' + (count' - L)) L) threshold :=
      fun threshold => hrotated.map _
    rw [findMinMaxBrightness_perm hrotated.perm]
    congr 1
    funext extrema
    rw [recognize_congr (hbitsRotated _) (hbits _ _ (length_window _ _ _)) 0]

/-- Two patterns, and bits that are a rotation of the second one. -/
theorem getId_least_rotation_twoPatterns :
    (OsvrHdkLedIdentifier.getId ⟨3, [['*', '.', '.', '*', '.'], ['*', '*', '.', '*', '*']]⟩ (-1)
      [1, 5, 1, 5] false false).map Identification.id = some 1 := by
  have haccepted : new [['*', '.', '.'], ['*', '*', '.']] =
      .ok ⟨3, [['*', '.', '.', '*', '.'], ['*', '*', '.', '*', '*']]⟩ := rfl
  have hmin : IsLeast {b | b ∈ lastEntries 3 [1, 5, 1, 5]} 1 := by
    simp [lastEntries, IsLeast, lowerBounds]
  have hmax : IsGreatest {b | b ∈ lastEntries 3 [1, 5, 1, 5]} 5 := by
    simp [lastEntries, IsGreatest, upperBounds]
  have hbits : getBitsUsingThreshold (lastEntries 3 [1, 5, 1, 5]) ((1 + 5) / 2) =
      ['*', '.', '*'] := by
    norm_num [lastEntries, getBitsUsingThreshold]
  have hleast : IsLeast {i | Matches (getBitsUsingThreshold (lastEntries 3 [1, 5, 1, 5])
      ((1 + 5) / 2)) [['*', '.', '.'], ['*', '*', '.']] i} 1 := by
    rw [hbits]
    apply And.intro
    · exact ⟨_, rfl, rfl, by decide⟩
    · rintro (_ | i) hi
      · obtain ⟨_, hrotated⟩ := matches_zero_iff.mp hi
        exact absurd hrotated (by decide)
      · exact Nat.le_add_left 1 i
  have hrecognizes := (getId_least_rotation haccepted ⟨_, List.mem_cons_self, rfl, rfl⟩).1 (-1)
    [1, 5, 1, 5] false false 1 5 (by simp [NoEarlyExit]) (by decide) hmin hmax
    (by norm_num [TODO_MIN_BRIGHTNESS_DIFF])
  exact (hrecognizes.1 1 hleast).1

/-- A call is safe exactly when some pattern is enabled. -/
theorem getId_safe_iff {patterns : List Str} {identifier : OsvrHdkLedIdentifier}
    (haccepted : new patterns = .ok identifier) {brightnesses : List ℚ}
    (_hnonempty : brightnesses ≠ []) (currentId : ℤ) (lastBright blobsKeepId : Bool) :
    (∃ result, identifier.getId currentId brightnesses lastBright blobsKeepId = some result ∧
      result.brightnesses.length ≤ identifier.d_length) ↔
    ∃ pat ∈ patterns, isEnabled pat = true := by
  apply Iff.intro
  · rintro ⟨result, hresult, _⟩
    by_contra hnone
    have hdisabled : ∀ pat ∈ patterns, isEnabled pat = false :=
      fun pat hmem => Bool.eq_false_iff.mpr fun hpat => hnone ⟨pat, hmem, hpat⟩
    rw [getId_eq_none (new_of_disabled haccepted hdisabled)] at hresult
    cases hresult
  · rintro ⟨pat, hmem, hpat⟩
    exact getId_safe (d_length_pos haccepted hmem hpat) currentId brightnesses lastBright
      blobsKeepId

/-- One pattern and one brightness. -/
theorem getId_safe_iff_onePattern :
    ∃ result, OsvrHdkLedIdentifier.getId ⟨1, [['*']]⟩ (-1) [1] false false = some result ∧
      result.brightnesses.length ≤ 1 := by
  have haccepted : new [['*']] = .ok ⟨1, [['*']]⟩ := rfl
  exact (getId_safe_iff haccepted (List.cons_ne_nil _ _) (-1) false false).mpr
    ⟨['*'], List.mem_cons_self, rfl⟩

/-- The constructor accepts a list whose only pattern is disabled, and the first call takes
the extrema of an empty list. -/
theorem getId_disabledPatterns :
    ¬ ∀ patterns identifier, new patterns = .ok identifier → ∀ brightnesses, brightnesses ≠ [] →
      ∀ currentId lastBright blobsKeepId,
        ∃ result, identifier.getId currentId brightnesses lastBright blobsKeepId = some result ∧
          result.brightnesses.length ≤ identifier.d_length := by
  intro h
  obtain ⟨result, hresult, _⟩ :=
    h [['x']] ⟨0, []⟩ rfl [1] (List.cons_ne_nil _ _) (-1) false false
  cases hresult

end OsvrHdkLedIdentifier

end OSVR.VbTracker
