/-
# Tables in the order of first use

A table that replaces the value of a key it has, and appends a key it does not have,
keeps its keys in the order in which they were first used. What it has under a key is
what was put there last.
-/

import OsvrCore.Math.Interning

set_option autoImplicit false

namespace OSVR.Math

universe u v

variable {κ : Type u} {α : Type v} [DecidableEq κ]

variable {table entries : List (κ × α)} {entry : κ × α} {key : κ} {value : α}

/-! ## The last value -/

/-- The value that comes last under a key. -/
def lastFor (key : κ) (entries : List (κ × α)) : Option α :=
  entries.foldl (fun kept entry => if entry.1 = key then some entry.2 else kept) none

@[simp] theorem lastFor_nil : lastFor key ([] : List (κ × α)) = none := rfl

theorem lastFor_concat (key : κ) (entries : List (κ × α)) (entry : κ × α) :
    lastFor key (entries ++ [entry]) =
      if entry.1 = key then some entry.2 else lastFor key entries := by
  rw [lastFor, List.foldl_append]
  rfl

/-! ## One entry -/

variable [BEq κ] [LawfulBEq κ]

/-- Replace the value of a key, or append the key. -/
def putEntry (table : List (κ × α)) (entry : κ × α) : List (κ × α) :=
  if entry.1 ∈ table.map Prod.fst then table.map fun old => if old.1 = entry.1 then entry else old
  else table ++ [entry]

/-- The table after a number of entries. -/
def putAll (table entries : List (κ × α)) : List (κ × α) := entries.foldl putEntry table

theorem keys_putEntry (table : List (κ × α)) (entry : κ × α) :
    (putEntry table entry).map Prod.fst = intern (table.map Prod.fst) entry.1 := by
  unfold putEntry intern
  split
  next =>
    rw [List.map_map]
    apply List.map_congr_left
    intro old _
    show (if old.1 = entry.1 then entry else old).1 = old.1
    split
    next hkey => exact hkey.symm
    next => rfl
  next => exact List.map_append

theorem lookup_cons_entry (first : κ × α) (rest : List (κ × α)) (key : κ) :
    (first :: rest).lookup key = if first.1 = key then some first.2 else rest.lookup key := by
  obtain ⟨other, value⟩ := first
  rw [List.lookup_cons]
  by_cases hkey : key = other
  · simp [hkey]
  · have hbeq : (key == other) = false := by simpa using hkey
    simp [hbeq, Ne.symm hkey]

theorem lookup_eq_none_iff : table.lookup key = none ↔ key ∉ table.map Prod.fst := by
  induction table with
  | nil => simp
  | cons first table ih =>
      rw [lookup_cons_entry]
      by_cases hkey : first.1 = key
      · simp [hkey]
      · rw [if_neg hkey, ih]
        simp [Ne.symm hkey]

theorem lookup_replaced (table : List (κ × α)) (entry : κ × α) (key : κ) :
    (table.map fun old => if old.1 = entry.1 then entry else old).lookup key =
      if entry.1 = key then (table.lookup key).map fun _ => entry.2 else table.lookup key := by
  induction table with
  | nil => simp
  | cons first table ih =>
      rw [List.map_cons, lookup_cons_entry, lookup_cons_entry, ih]
      by_cases hfirst : first.1 = entry.1
      · by_cases hkey : entry.1 = key <;> simp [hfirst, hkey]
      · by_cases hkey : entry.1 = key
        · have hother : first.1 ≠ key := hkey ▸ hfirst
          simp [hkey, hother]
        · simp [hfirst, hkey]

theorem lookup_append_singleton (table : List (κ × α)) (entry : κ × α) (key : κ)
    (hnew : entry.1 ∉ table.map Prod.fst) :
    (table ++ [entry]).lookup key = if entry.1 = key then some entry.2 else table.lookup key := by
  rw [List.lookup_append, lookup_cons_entry]
  by_cases hkey : entry.1 = key
  · rw [lookup_eq_none_iff.mpr (hkey ▸ hnew)]
    simp [hkey]
  · simp [hkey]

theorem lookup_putEntry (table : List (κ × α)) (entry : κ × α) (key : κ) :
    (putEntry table entry).lookup key =
      if entry.1 = key then some entry.2 else table.lookup key := by
  unfold putEntry
  split
  next hmem =>
    rw [lookup_replaced]
    by_cases hkey : entry.1 = key
    · have hsome : table.lookup key ≠ none := fun h => lookup_eq_none_iff.mp h (hkey ▸ hmem)
      have ⟨value, hvalue⟩ := Option.ne_none_iff_exists'.mp hsome
      rw [if_pos hkey, if_pos hkey, hvalue, Option.map_some]
    · rw [if_neg hkey, if_neg hkey]
  next hnew => exact lookup_append_singleton table entry key hnew

/-! ## All entries -/

theorem keys_putAll (table entries : List (κ × α)) :
    (putAll table entries).map Prod.fst =
      internAll (table.map Prod.fst) (entries.map Prod.fst) := by
  induction entries generalizing table with
  | nil => rfl
  | cons entry entries ih =>
      rw [List.map_cons, internAll_cons, ← keys_putEntry]
      exact ih (putEntry table entry)

theorem putAll_concat (table entries : List (κ × α)) (entry : κ × α) :
    putAll table (entries ++ [entry]) = putEntry (putAll table entries) entry := by
  rw [putAll, List.foldl_append]
  rfl

theorem lookup_putAll (entries : List (κ × α)) (key : κ) :
    (putAll [] entries).lookup key = lastFor key entries := by
  induction entries using List.reverseRecOn with
  | nil => rfl
  | append_singleton entries entry ih => rw [putAll_concat, lookup_putEntry, lastFor_concat, ih]

theorem nodup_keys_putAll (entries : List (κ × α)) : ((putAll [] entries).map Prod.fst).Nodup := by
  induction entries using List.reverseRecOn with
  | nil => exact List.nodup_nil
  | append_singleton entries entry ih =>
      rw [putAll_concat, keys_putEntry]
      exact nodup_intern ih

/-- A key that is there keeps its place. -/
theorem putEntry_of_mem (hnodup : (table.map Prod.fst).Nodup)
    (hmem : entry.1 ∈ table.map Prod.fst) :
    putEntry table entry = table.set ((table.map Prod.fst).idxOf entry.1) entry := by
  rw [putEntry, if_pos hmem]
  clear hmem
  induction table with
  | nil => rfl
  | cons first table ih =>
      have ⟨hfirst, hrest⟩ := List.nodup_cons.mp hnodup
      simp only [List.map_cons, List.idxOf_cons]
      by_cases hkey : first.1 = entry.1
      · have hothers : table.map (fun old => if old.1 = entry.1 then entry else old) = table := by
          refine (List.map_congr_left fun old hold => ?_).trans (List.map_id table)
          exact if_neg fun heq => hfirst (List.mem_map.mpr ⟨old, hold, heq.trans hkey.symm⟩)
        simp [hkey, hothers]
      · have hbeq : (first.1 == entry.1) = false := by simpa using hkey
        simp [hkey, hbeq, ih hrest]

theorem values_putEntry (hnodup : (table.map Prod.fst).Nodup) (entry : κ × α) :
    (putEntry table entry).map Prod.snd =
      if entry.1 ∈ table.map Prod.fst then
        (table.map Prod.snd).set ((table.map Prod.fst).idxOf entry.1) entry.2
      else table.map Prod.snd ++ [entry.2] := by
  split
  next hmem => rw [putEntry_of_mem hnodup hmem, List.map_set]
  next hnew => rw [putEntry, if_neg hnew, List.map_append, List.map_singleton]

/-- Entries under different keys are kept as they are. -/
theorem putAll_of_nodup (hnodup : (entries.map Prod.fst).Nodup) : putAll [] entries = entries := by
  induction entries using List.reverseRecOn with
  | nil => rfl
  | append_singleton entries entry ih =>
      rw [List.map_append, List.nodup_append] at hnodup
      have hnew : entry.1 ∉ entries.map Prod.fst := by
        intro hmem
        exact hnodup.2.2 entry.1 hmem entry.1 (by simp) rfl
      rw [putAll_concat, ih hnodup.1, putEntry, if_neg hnew]

end OSVR.Math
