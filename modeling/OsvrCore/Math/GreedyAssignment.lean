/-
# Greedy assignment

Agents choose in turn from a list of items that gets shorter: a choice is a position
in what is left, and a position past the end means that the agent takes nothing.
Whatever the choices are, what is taken and what is left are the items there were,
and each agent chose from the items that no agent before it took.

An agent that wants the item with the least key finds it by a scan. A key may be
missing, as the comparisons of a floating point format have it: with a missing key
nothing compares.
-/

import Mathlib.Data.List.Basic
import Mathlib.Data.List.InsertIdx
import Mathlib.Data.List.Nodup
import Mathlib.Data.List.Perm.Basic
import Mathlib.Data.List.ReduceOption
import Mathlib.Order.Lattice

set_option autoImplicit false

namespace OSVR.Math

universe u v w

/-! ## Keys that may be missing -/

section Keys

variable {κ : Type u} [LinearOrder κ]

/-- The comparison by `<`; false where a key is missing. -/
def isLess : Option κ → Option κ → Bool
  | some x, some y => decide (x < y)
  | _, _ => false

/-- The comparison by `≤`; false where a key is missing. -/
def isLessEqual : Option κ → Option κ → Bool
  | some x, some y => decide (x ≤ y)
  | _, _ => false

variable {x y : κ} {key limit : Option κ}

@[simp] theorem isLess_some : isLess (some x) (some y) = decide (x < y) := rfl

@[simp] theorem isLess_none_left : isLess none key = false := rfl

@[simp] theorem isLess_none_right : isLess key none = false := by
  cases key <;> rfl

@[simp] theorem isLessEqual_none_left : isLessEqual none key = false := rfl

theorem isLess_self : isLess key key = false := by
  cases key with
  | none => rfl
  | some x => exact decide_eq_false (lt_irrefl x)

theorem isLess_some_eq_false : isLess key (some y) = false ↔ ∀ x, key = some x → y ≤ x := by
  cases key with
  | none => exact iff_of_true rfl fun _ => nofun
  | some x => simp

theorem isLessEqual_some_eq_false :
    isLessEqual key (some y) = false ↔ ∀ x, key = some x → y < x := by
  cases key with
  | none => exact iff_of_true rfl fun _ => nofun
  | some x => simp [isLessEqual]

/-- What is at most a key that is within a limit is within it. -/
theorem isLessEqual_of_le (hle : x ≤ y) (h : isLessEqual (some y) limit = true) :
    isLessEqual (some x) limit = true := by
  cases limit with
  | none => exact h
  | some bound =>
      rw [isLessEqual, decide_eq_true_eq] at h ⊢
      exact hle.trans h

end Keys

/-! ## The first of the least -/

section Scan

variable {α : Type u} {κ : Type v} [LinearOrder κ] (key : α → Option κ)

/-- The loop over the items from a position on, with the position and the key of the
best one so far. -/
def scanLeast : List α → ℕ → ℕ × Option κ → ℕ × Option κ
  | [], _, best => best
  | item :: items, position, best =>
      scanLeast items (position + 1)
        (if isLess (key item) best.2 then (position, key item) else best)

/-- The item at the position has the key; no other item has a smaller one, and none
before it has the same. -/
structure IsFirstLeast (items : List α) (position : ℕ) (least : κ) : Prop where
  found : ∃ item, items[position]? = some item ∧ key item = some least
  le : ∀ (other : ℕ) item value, items[other]? = some item → key item = some value → least ≤ value
  lt : ∀ (other : ℕ) item value, other < position → items[other]? = some item →
    key item = some value → least < value

variable {key} {items before : List α} {item : α} {position : ℕ} {least value : κ}

namespace IsFirstLeast

theorem position_lt (h : IsFirstLeast key items position least) : position < items.length := by
  obtain ⟨item, hitem, _⟩ := h.found
  exact (List.getElem?_eq_some_iff.mp hitem).1

theorem singleton (hkey : key item = some least) : IsFirstLeast key [item] 0 least where
  found := ⟨item, rfl, hkey⟩
  le other found value hfound hvalue := by
    rw [List.mem_singleton.mp (List.mem_of_getElem? hfound), hkey, Option.some.injEq] at hvalue
    exact hvalue.le
  lt _ _ _ hbefore := absurd hbefore (Nat.not_lt_zero _)

/-- A smaller key takes over. -/
theorem concat_less (h : IsFirstLeast key before position least) (hkey : key item = some value)
    (hless : value < least) : IsFirstLeast key (before ++ [item]) before.length value where
  found := ⟨item, List.getElem?_concat_length, hkey⟩
  le other found found_value hfound hvalue := by
    rcases List.mem_append.mp (List.mem_of_getElem? hfound) with hmem | hmem
    · obtain ⟨earlier, hearlier⟩ := List.getElem?_of_mem hmem
      exact hless.le.trans (h.le earlier found found_value hearlier hvalue)
    · rw [List.mem_singleton.mp hmem, hkey, Option.some.injEq] at hvalue
      exact hvalue.le
  lt other found found_value hbefore hfound hvalue := by
    rw [List.getElem?_append_left hbefore] at hfound
    exact hless.trans_le (h.le other found found_value hfound hvalue)

/-- Any other leaves the best one. -/
theorem concat_keep (h : IsFirstLeast key before position least)
    (hkeep : isLess (key item) (some least) = false) :
    IsFirstLeast key (before ++ [item]) position least where
  found := by
    obtain ⟨best, hbest, hkey⟩ := h.found
    exact ⟨best, by rw [List.getElem?_append_left h.position_lt, hbest], hkey⟩
  le other found value hfound hvalue := by
    rcases List.mem_append.mp (List.mem_of_getElem? hfound) with hmem | hmem
    · obtain ⟨earlier, hearlier⟩ := List.getElem?_of_mem hmem
      exact h.le earlier found value hearlier hvalue
    · rw [List.mem_singleton.mp hmem] at hvalue
      exact isLess_some_eq_false.mp hkeep value hvalue
  lt other found value hbefore hfound hvalue := by
    rw [List.getElem?_append_left (hbefore.trans h.position_lt)] at hfound
    exact h.lt other found value hbefore hfound hvalue

/-- The scan goes on from the first of the least to the first of the least. -/
theorem scan (h : IsFirstLeast key before position least) (after : List α) :
    ∃ found found_least,
      scanLeast key after before.length (position, some least) = (found, some found_least) ∧
        IsFirstLeast key (before ++ after) found found_least := by
  induction after generalizing before position least with
  | nil =>
      rw [List.append_nil]
      exact ⟨position, least, rfl, h⟩
  | cons item after ih =>
      have hlength : (before ++ [item]).length = before.length + 1 := List.length_append
      rw [scanLeast, List.append_cons, ← hlength]
      by_cases hless : isLess (key item) (some least) = true
      · rw [if_pos hless]
        cases hkey : key item with
        | none => rw [hkey, isLess_none_left] at hless; cases hless
        | some value =>
            rw [hkey, isLess_some, decide_eq_true_eq] at hless
            exact ih (h.concat_less hkey hless)
      · rw [if_neg hless]
        exact ih (h.concat_keep (Bool.eq_false_of_not_eq_true hless))

end IsFirstLeast

/-- A missing key is never improved on. -/
theorem scanLeast_missing : scanLeast key items position (0, none) = (0, none) := by
  induction items generalizing position with
  | nil => rfl
  | cons item items ih => rw [scanLeast, isLess_none_right, if_neg Bool.false_ne_true, ih]

/-- The whole loop, which starts at the first item: it compares this item with itself. -/
theorem scanLeast_cons (first : α) (rest : List α) :
    scanLeast key (first :: rest) 0 (0, key first) = scanLeast key rest 1 (0, key first) := by
  rw [scanLeast, isLess_self, if_neg Bool.false_ne_true]

end Scan

/-! ## Choosing in turn -/

section Assign

variable {α : Type u} {β : Type v} (choose : β → List α → ℕ)

/-- What each agent takes, and what is left. -/
def assign : List β → List α → List (Option α) × List α
  | [], items => ([], items)
  | agent :: agents, items =>
      let chosen := choose agent items
      let rest := assign agents (items.eraseIdx chosen)
      (items[chosen]? :: rest.1, rest.2)

variable {choose} {agents : List β} {items : List α}

@[simp] theorem assign_nil : assign choose [] items = ([], items) := rfl

theorem assign_cons (agent : β) :
    assign choose (agent :: agents) items =
      (items[choose agent items]? ::
          (assign choose agents (items.eraseIdx (choose agent items))).1,
        (assign choose agents (items.eraseIdx (choose agent items))).2) := rfl

theorem length_assign : (assign choose agents items).1.length = agents.length := by
  induction agents generalizing items with
  | nil => rfl
  | cons agent agents ih => rw [assign_cons, List.length_cons, ih, List.length_cons]

/-- Nothing is lost and nothing is taken twice. -/
theorem assign_perm :
    ((assign choose agents items).1.reduceOption ++ (assign choose agents items).2).Perm items := by
  induction agents generalizing items with
  | nil => exact List.Perm.refl items
  | cons agent agents ih =>
      rw [assign_cons]
      by_cases hchosen : choose agent items < items.length
      · rw [List.getElem?_eq_getElem hchosen, List.reduceOption_cons_of_some, List.cons_append]
        exact (ih.cons _).trans (List.getElem_cons_eraseIdx_perm hchosen)
      · rw [List.getElem?_eq_none (Nat.le_of_not_lt hchosen), List.reduceOption_cons_of_none,
          List.eraseIdx_of_length_le (Nat.le_of_not_lt hchosen)]
        exact ih

/-- Choosing from the images of items is choosing from the items. -/
theorem assign_map {γ : Type w} (f : γ → α) (items : List γ) :
    assign choose agents (items.map f) =
      ((assign (fun agent items => choose agent (items.map f)) agents items).1.map (Option.map f),
        (assign (fun agent items => choose agent (items.map f)) agents items).2.map f) := by
  induction agents generalizing items with
  | nil => rfl
  | cons agent agents ih =>
      rw [assign_cons, assign_cons, List.eraseIdx_map, ih, List.getElem?_map, List.map_cons]

variable [DecidableEq α]

/-- The items that none of the choices took. -/
def untaken (items : List α) (taken : List (Option α)) : List α :=
  items.filter fun item => decide (item ∉ taken.reduceOption)

@[simp] theorem untaken_nil : untaken items [] = items :=
  List.filter_eq_self.mpr fun _ _ => decide_eq_true List.not_mem_nil

theorem mem_untaken {taken : List (Option α)} {item : α} :
    item ∈ untaken items taken ↔ item ∈ items ∧ item ∉ taken.reduceOption := by
  rw [untaken, List.mem_filter, decide_eq_true_eq]

/-- What was taken, once each, and what was not are the items. -/
theorem untaken_perm {taken : List (Option α)} (hitems : items.Nodup)
    (htaken : taken.reduceOption.Nodup) (hmem : ∀ item ∈ taken.reduceOption, item ∈ items) :
    (taken.reduceOption ++ untaken items taken).Perm items := by
  have hnodup : (taken.reduceOption ++ untaken items taken).Nodup :=
    htaken.append (hitems.filter _) fun _ hin hout => (mem_untaken.mp hout).2 hin
  rw [List.perm_ext_iff_of_nodup hnodup hitems]
  intro item
  rw [List.mem_append, mem_untaken]
  apply Iff.intro
  · rintro (hin | ⟨hout, _⟩)
    · exact hmem item hin
    · exact hout
  · intro hitem
    by_cases hin : item ∈ taken.reduceOption
    · exact Or.inl hin
    · exact Or.inr ⟨hitem, hin⟩

/-- Erasing a choice leaves what it did not take. -/
theorem untaken_cons (hnodup : items.Nodup) (chosen : ℕ) (taken : List (Option α)) :
    untaken items (items[chosen]? :: taken) = untaken (items.eraseIdx chosen) taken := by
  by_cases hchosen : chosen < items.length
  · rw [List.getElem?_eq_getElem hchosen, ← hnodup.erase_getElem chosen hchosen,
      hnodup.erase_eq_filter, untaken, untaken, List.reduceOption_cons_of_some, List.filter_filter]
    congr 1
    funext item
    rw [Bool.eq_iff_iff]
    simp only [List.mem_cons, not_or, decide_eq_true_eq, Bool.and_eq_true, bne_iff_ne, ne_eq]
    exact and_comm
  · rw [List.getElem?_eq_none (Nat.le_of_not_lt hchosen), untaken, untaken,
      List.reduceOption_cons_of_none, List.eraseIdx_of_length_le (Nat.le_of_not_lt hchosen)]

/-- Each agent chooses from what the agents before it did not take. -/
theorem getElem?_assign (hnodup : items.Nodup) (turn : ℕ) :
    (assign choose agents items).1[turn]? = agents[turn]?.map fun agent =>
      let left := untaken items ((assign choose agents items).1.take turn)
      left[choose agent left]? := by
  induction agents generalizing items turn with
  | nil => rfl
  | cons agent agents ih =>
      rw [assign_cons]
      cases turn with
      | zero => simp
      | succ turn =>
          rw [List.getElem?_cons_succ, List.getElem?_cons_succ, List.take_succ_cons,
            untaken_cons hnodup]
          exact ih (hnodup.eraseIdx _) turn

/-- What is left in the end is what nobody took. -/
theorem assign_left (hnodup : items.Nodup) :
    (assign choose agents items).2 = untaken items (assign choose agents items).1 := by
  induction agents generalizing items with
  | nil => exact untaken_nil.symm
  | cons agent agents ih =>
      rw [assign_cons, untaken_cons hnodup]
      exact ih (hnodup.eraseIdx _)

end Assign

end OSVR.Math
