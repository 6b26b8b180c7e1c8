/-
# Forests of named nodes

A forest is a sequence of siblings, each with a name, a value, and a forest of
children. A node is identified by the list of names that leads to it, which
stays meaningful when nodes are added. The operations that change a forest are
all instances of `upsert`, which creates the nodes on the way to a path and sets
the value at its end.
-/

import Mathlib.Data.List.Basic
import Mathlib.Data.List.Nodup

set_option autoImplicit false

namespace OSVR.Math

universe u v

/-- Siblings in the order in which they were added. -/
inductive Forest (κ : Type u) (α : Type v)
  | nil
  | cons (name : κ) (value : α) (children rest : Forest κ α)

namespace Forest

variable {κ : Type u} {α : Type v}

def append : Forest κ α → Forest κ α → Forest κ α
  | nil, other => other
  | cons name value children rest, other => cons name value children (rest.append other)

/-- Names of the siblings. -/
def names : Forest κ α → List κ
  | nil => []
  | cons name _ _ rest => name :: rest.names

/-- No two siblings have one name, at any level. -/
def Distinct : Forest κ α → Prop
  | nil => True
  | cons name _ children rest => name ∉ rest.names ∧ children.Distinct ∧ rest.Distinct

theorem Distinct.nodup_names {forest : Forest κ α} (h : forest.Distinct) : forest.names.Nodup := by
  induction forest with
  | nil => exact List.nodup_nil
  | cons name value children rest _ ih => exact List.nodup_cons.mpr ⟨h.1, ih h.2.2⟩

/-- Paths and values in the order of a traversal that visits a node before its children. -/
def entries : Forest κ α → List (List κ × α)
  | nil => []
  | cons name value children rest =>
      ([name], value) :: (children.entries.map fun entry => (name :: entry.1, entry.2)) ++
        rest.entries

/-- The new nodes along a path. -/
def chain [Inhabited α] (f : Option α → α) : List κ → Forest κ α
  | [] => nil
  | name :: path => cons name (if path.isEmpty then f none else default) (chain f path) nil

@[simp] theorem names_append (left right : Forest κ α) :
    (left.append right).names = left.names ++ right.names := by
  induction left with
  | nil => rfl
  | cons name value children rest _ ih => simp [append, names, ih]

theorem append_nil (forest : Forest κ α) : forest.append nil = forest := by
  induction forest with
  | nil => rfl
  | cons name value children rest _ ih => simp [append, ih]

theorem append_assoc (left middle right : Forest κ α) :
    (left.append middle).append right = left.append (middle.append right) := by
  induction left with
  | nil => rfl
  | cons name value children rest _ ih => simp [append, ih]

theorem distinct_chain [Inhabited α] (f : Option α → α) (path : List κ) :
    (chain f path).Distinct := by
  induction path with
  | nil => trivial
  | cons name path ih => simp [chain, Distinct, names, ih]

variable [DecidableEq κ]

/-- The value of the node at a path. -/
def value? : Forest κ α → List κ → Option α
  | nil, _ => none
  | cons _ _ _ _, [] => none
  | cons name value children rest, head :: path =>
      if name = head then if path.isEmpty then some value else children.value? path
      else rest.value? (head :: path)

/-- The children of the node at a path. -/
def childrenAt : Forest κ α → List κ → Forest κ α
  | forest, [] => forest
  | nil, _ => nil
  | cons name _ children rest, head :: path =>
      if name = head then children.childrenAt path else rest.childrenAt (head :: path)

/-- Create what is missing of a path and compute the value at its end. -/
def upsert [Inhabited α] (f : Option α → α) : Forest κ α → List κ → Forest κ α
  | nil, path => chain f path
  | cons name value children rest, [] => cons name value children rest
  | cons name value children rest, head :: path =>
      if name = head then
        cons name (if path.isEmpty then f (some value) else value) (children.upsert f path) rest
      else cons name value children (rest.upsert f (head :: path))

/-! ## Lookups -/

@[simp] theorem value?_empty (forest : Forest κ α) : forest.value? [] = none := by
  cases forest <;> rfl

@[simp] theorem upsert_empty [Inhabited α] (f : Option α → α) (forest : Forest κ α) :
    forest.upsert f [] = forest := by
  cases forest <;> rfl

theorem value?_chain [Inhabited α] (f : Option α → α) (path query : List κ) (hquery : query ≠ []) :
    (chain f path).value? query =
      if query = path then some (f none) else if query <+: path then some default else none := by
  induction path generalizing query with
  | nil => simp [chain, value?, hquery]
  | cons name path ih =>
      obtain ⟨head, query, rfl⟩ := List.exists_cons_of_ne_nil hquery
      by_cases hhead : name = head
      · subst hhead
        rcases query with _ | ⟨head, query⟩
        · cases path <;> simp [chain, value?]
        · simp [chain, value?, ih, List.cons_prefix_cons]
      · simp [chain, value?, hhead, Ne.symm hhead, List.cons_prefix_cons]

theorem mem_entries_of_value? {forest : Forest κ α} {path : List κ} {value : α}
    (h : forest.value? path = some value) : (path, value) ∈ forest.entries := by
  induction forest generalizing path with
  | nil => simp [value?] at h
  | cons name old children rest ihchildren ihrest =>
      rcases path with _ | ⟨head, path⟩
      · simp at h
      · by_cases hname : name = head
        · subst hname
          rcases path with _ | ⟨second, path⟩
          · simp_all [value?, entries]
          · have hchild : children.value? (second :: path) = some value := by
              simpa [value?] using h
            simp [entries, ihchildren hchild]
        · have hrest : rest.value? (head :: path) = some value := by simpa [value?, hname] using h
          simp [entries, ihrest hrest]

/-- `upsert` sets one value and creates the nodes before it; every other node
stays what it was. -/
theorem value?_upsert [Inhabited α] (f : Option α → α) (forest : Forest κ α)
    (path query : List κ) (hquery : query ≠ []) :
    (forest.upsert f path).value? query =
      if query = path then some (f (forest.value? path))
      else if query <+: path then some ((forest.value? query).getD default)
      else forest.value? query := by
  induction forest generalizing path query with
  | nil => simp [upsert, value?, value?_chain f path query hquery]
  | cons name value children rest ihchildren ihrest =>
      obtain ⟨head, query, rfl⟩ := List.exists_cons_of_ne_nil hquery
      rcases path with _ | ⟨first, path⟩
      · simp
      · by_cases hfirst : name = first
        · subst hfirst
          by_cases hhead : name = head
          · subst hhead
            rcases query with _ | ⟨second, query⟩
            · cases path <;> simp [upsert, value?]
            · have hchild := ihchildren path (second :: query) (by simp)
              simp only [upsert, value?, hchild, List.cons.injEq, true_and, List.cons_prefix_cons,
                List.isEmpty_cons, Bool.false_eq_true, ↓reduceIte]
              -- the query ends below this node, so if it is the path, so does the path
              by_cases hpath : second :: query = path
              · subst hpath
                simp
              · simp [hpath]
          · simp [upsert, value?, hhead, Ne.symm hhead, List.cons_prefix_cons]
        · by_cases hhead : name = head
          · subst hhead
            simp [upsert, value?, hfirst, List.cons_prefix_cons]
          · simp [upsert, value?, hfirst, hhead, ihrest]

/-! ## Names -/

theorem names_upsert [Inhabited α] (f : Option α → α) (forest : Forest κ α) (head : κ)
    (path : List κ) :
    (forest.upsert f (head :: path)).names =
      if head ∈ forest.names then forest.names else forest.names ++ [head] := by
  induction forest with
  | nil => simp [upsert, chain, names]
  | cons name value children rest _ ih =>
      by_cases hname : name = head
      · simp [upsert, names, hname]
      · simp only [upsert, hname, ↓reduceIte, names, ih, List.mem_cons, Ne.symm hname, false_or]
        split <;> simp

theorem Distinct.upsert [Inhabited α] {forest : Forest κ α} (h : forest.Distinct)
    (f : Option α → α) (path : List κ) : (forest.upsert f path).Distinct := by
  induction forest generalizing path with
  | nil => exact distinct_chain f path
  | cons name value children rest ihchildren ihrest =>
      obtain ⟨hfresh, hchildren, hrest⟩ := h
      rcases path with _ | ⟨head, path⟩
      · exact ⟨hfresh, hchildren, hrest⟩
      · by_cases hname : name = head
        · simpa [Forest.upsert, hname] using ⟨hname ▸ hfresh, ihchildren hchildren path, hrest⟩
        · simp only [Forest.upsert, hname, ↓reduceIte]
          refine ⟨?_, hchildren, ihrest hrest (head :: path)⟩
          rw [names_upsert]
          split
          · exact hfresh
          · simpa [hname] using hfresh

/-! ## Creating nodes -/

section Touch

variable [Inhabited α]

/-- Keep a value that is there. -/
abbrev orDefault (value : Option α) : α := value.getD default

theorem upsert_chain (f : Option α → α) (hf : f (some default) = f none) {first path : List κ}
    (hbegins : first <+: path) : (chain orDefault first).upsert f path = chain f path := by
  induction first generalizing path with
  | nil => rfl
  | cons name first ih =>
      obtain ⟨rest, rfl⟩ := hbegins
      rw [List.cons_append]
      simp only [chain, upsert, ↓reduceIte, ih (List.prefix_append first rest)]
      rcases first with _ | ⟨second, first⟩
      · cases rest <;> simp [hf]
      · simp

/-- Creating a part of a path first makes no difference. -/
theorem upsert_touch (f : Option α → α) (hf : f (some default) = f none) (forest : Forest κ α)
    {first path : List κ} (hbegins : first <+: path) :
    (forest.upsert orDefault first).upsert f path = forest.upsert f path := by
  induction forest generalizing first path with
  | nil => exact upsert_chain f hf hbegins
  | cons name value children rest ihchildren ihrest =>
      rcases first with _ | ⟨head, first⟩
      · simp
      · obtain ⟨more, rfl⟩ := hbegins
        by_cases hname : name = head
        · simp [upsert, hname, ihchildren (List.prefix_append first more)]
        · have hrest := ihrest (List.prefix_append (head :: first) more)
          simp only [List.cons_append] at hrest ⊢
          simp [upsert, hname, hrest]

theorem upsert_eq_self (f : Option α → α) (forest : Forest κ α) {path : List κ} {value : α}
    (hvalue : forest.value? path = some value) (hf : f (some value) = value) :
    forest.upsert f path = forest := by
  induction forest generalizing path with
  | nil => simp [value?] at hvalue
  | cons name old children rest ihchildren ihrest =>
      rcases path with _ | ⟨head, path⟩
      · rfl
      · by_cases hname : name = head
        · subst hname
          rcases path with _ | ⟨second, path⟩
          · obtain rfl : old = value := by simpa [value?] using hvalue
            simp [upsert, hf]
          · have hchild : children.value? (second :: path) = some value := by
              simpa [value?] using hvalue
            simp [upsert, ihchildren hchild]
        · have hother : rest.value? (head :: path) = some value := by
            simpa [value?, hname] using hvalue
          simp [upsert, hname, ihrest hother]

end Touch

/-! ## Rebuilding a forest from its entries -/

/-- Set the listed values in order, creating the nodes on the way. -/
def setAll [Inhabited α] (forest : Forest κ α) (entries : List (List κ × α)) : Forest κ α :=
  entries.foldl (fun forest entry => forest.upsert (fun _ => entry.2) entry.1) forest

/-- Only the kept values and the nodes above them. -/
def prune [Inhabited α] (keep : α → Bool) : Forest κ α → Forest κ α
  | nil => nil
  | cons name value children rest =>
      if keep value then cons name value (children.prune keep) (rest.prune keep)
      else
        match children.prune keep with
        | nil => rest.prune keep
        | kept => cons name default kept (rest.prune keep)

/-- Put a level above the entries of a node's children. -/
def under (name : κ) (entries : List (List κ × α)) : List (List κ × α) :=
  entries.map fun entry => (name :: entry.1, entry.2)

variable [Inhabited α]

omit [DecidableEq κ] [Inhabited α] in
theorem path_ne_nil_of_mem_entries {forest : Forest κ α} {entry : List κ × α}
    (h : entry ∈ forest.entries) : entry.1 ≠ [] := by
  induction forest with
  | nil => simp [entries] at h
  | cons name value children rest _ ih =>
      simp only [entries, List.cons_append, List.mem_cons, List.mem_append, List.mem_map] at h
      rcases h with rfl | ⟨_, _, rfl⟩ | h
      · simp
      · simp
      · exact ih h

omit [DecidableEq κ] [Inhabited α] in
/-- A path of a forest starts with the name of a sibling. -/
theorem head_mem_names_of_mem_entries {forest : Forest κ α} {head : κ} {path : List κ} {value : α}
    (h : (head :: path, value) ∈ forest.entries) : head ∈ forest.names := by
  induction forest with
  | nil => cases h
  | cons name first children rest _ ih =>
      simp only [entries, List.cons_append, List.mem_cons, List.mem_append, List.mem_map,
        Prod.mk.injEq, List.cons.injEq] at h
      rcases h with hname | hchild | hrest
      · rw [hname.1.1]
        exact List.mem_cons_self
      · have ⟨_, _, heq, _⟩ := hchild
        rw [← heq.1]
        exact List.mem_cons_self
      · exact List.mem_cons_of_mem name (ih hrest)

omit [Inhabited α] in
/-- Every node that a traversal comes to is found. -/
theorem value?_of_mem_entries {forest : Forest κ α} (h : forest.Distinct) {path : List κ}
    {value : α} (hmem : (path, value) ∈ forest.entries) : forest.value? path = some value := by
  induction forest generalizing path with
  | nil => cases hmem
  | cons name first children rest ihchildren ihrest =>
      have ⟨hfresh, hchildren, hrest⟩ := h
      simp only [entries, List.cons_append, List.mem_cons, List.mem_append, List.mem_map,
        Prod.mk.injEq] at hmem
      rcases hmem with ⟨hpath, hvalue⟩ | ⟨⟨below, _⟩, hbelow, hpath, hvalue⟩ | hlater
      · rw [hpath, hvalue]
        simp [value?]
      · cases hvalue
        cases hpath
        have hne := path_ne_nil_of_mem_entries hbelow
        simp [value?, hne, ihchildren hchildren hbelow]
      · rcases path with _ | ⟨head, path⟩
        · exact absurd rfl (path_ne_nil_of_mem_entries hlater)
        · have hne : name ≠ head := by
            intro heq
            exact hfresh (heq ▸ head_mem_names_of_mem_entries hlater)
          rw [value?, if_neg hne]
          exact ihrest hrest hlater

/-- Computing the value of a node that there is creates no other. -/
theorem paths_upsert (f : Option α → α) (forest : Forest κ α) {path : List κ}
    (hpath : (forest.value? path).isSome = true) :
    (forest.upsert f path).entries.map Prod.fst = forest.entries.map Prod.fst := by
  induction forest generalizing path with
  | nil => cases hpath
  | cons name old children rest ihchildren ihrest =>
      rcases path with _ | ⟨head, path⟩
      · rfl
      · by_cases hname : name = head
        · rcases path with _ | ⟨second, path⟩
          · simp [upsert, hname, entries]
          · have hchild : (children.value? (second :: path)).isSome = true := by
              simpa [value?, hname] using hpath
            have hbelow : ((children.upsert f (second :: path)).entries.map Prod.fst).map
                (name :: ·) = (children.entries.map Prod.fst).map (name :: ·) := by
              rw [ihchildren hchild]
            simp only [List.map_map] at hbelow
            rw [upsert, if_pos hname]
            simp only [entries, List.map_cons, List.cons_append, List.map_append, List.map_map]
            exact congrArg (fun paths => [name] :: (paths ++ rest.entries.map Prod.fst)) hbelow
        · have hother : (rest.value? (head :: path)).isSome = true := by
            simpa [value?, hname] using hpath
          rw [upsert, if_neg hname]
          simp only [entries, List.cons_append, List.map_cons, List.map_append, ihrest hother]

omit [DecidableEq κ] [Inhabited α] in
/-- A traversal comes to every node once. -/
theorem nodup_paths {forest : Forest κ α} (h : forest.Distinct) :
    (forest.entries.map Prod.fst).Nodup := by
  induction forest with
  | nil => exact List.nodup_nil
  | cons name value children rest ihchildren ihrest =>
      have ⟨hfresh, hchildren, hrest⟩ := h
      have hbelow : (children.entries.map fun entry => name :: entry.1).Nodup := by
        have hcons : (children.entries.map fun entry => name :: entry.1) =
            (children.entries.map Prod.fst).map (name :: ·) := by rw [List.map_map]; rfl
        rw [hcons]
        exact (ihchildren hchildren).map (List.cons_injective)
      have hother : ∀ path, (name :: path) ∉ rest.entries.map Prod.fst := by
        intro path hmem
        have ⟨entry, hentry, heq⟩ := List.mem_map.mp hmem
        have hbelow : (name :: path, entry.2) ∈ rest.entries := heq ▸ hentry
        exact hfresh (head_mem_names_of_mem_entries hbelow)
      simp only [entries, List.cons_append, List.map_cons, List.map_append, List.map_map,
        List.nodup_cons, List.mem_append, not_or]
      refine ⟨⟨?_, hother []⟩, ?_⟩
      · intro hmem
        have ⟨entry, hentry, heq⟩ := List.mem_map.mp hmem
        exact path_ne_nil_of_mem_entries hentry (List.cons_injective heq)
      · refine List.Nodup.append hbelow (ihrest hrest) ?_
        intro path hbelow hrest
        have ⟨entry, _, heq⟩ := List.mem_map.mp hbelow
        rw [← show name :: entry.1 = path from heq] at hrest
        exact hother entry.1 hrest

omit [Inhabited α] in
@[simp] theorem setAll_nil [Inhabited α] (forest : Forest κ α) : forest.setAll [] = forest := rfl

theorem setAll_append (forest : Forest κ α) (first second : List (List κ × α)) :
    forest.setAll (first ++ second) = (forest.setAll first).setAll second :=
  List.foldl_append

/-- A path that starts with a fresh name is created after the existing siblings. -/
theorem append_upsert_of_fresh (f : Option α → α) (left right : Forest κ α) {head : κ}
    (hfresh : head ∉ left.names) (path : List κ) :
    (left.append right).upsert f (head :: path) = left.append (right.upsert f (head :: path)) := by
  induction left with
  | nil => rfl
  | cons name value children rest _ ih =>
      simp only [names, List.mem_cons, not_or] at hfresh
      simp [append, upsert, Ne.symm hfresh.1, ih hfresh.2]

theorem upsert_of_fresh (f : Option α → α) (forest : Forest κ α) {head : κ}
    (hfresh : head ∉ forest.names) (path : List κ) :
    forest.upsert f (head :: path) = forest.append (chain f (head :: path)) := by
  simpa [append_nil, upsert] using append_upsert_of_fresh f forest nil hfresh path

/-- Entries below one node change only that node's children. -/
theorem setAll_under (forest : Forest κ α) {name : κ} (hfresh : name ∉ forest.names) (value : α)
    (children : Forest κ α) (list : List (List κ × α)) (hlist : ∀ entry ∈ list, entry.1 ≠ []) :
    (forest.append (cons name value children nil)).setAll (under name list) =
      forest.append (cons name value (children.setAll list) nil) := by
  induction list generalizing children with
  | nil => rfl
  | cons entry list ih =>
      rw [List.forall_mem_cons] at hlist
      have hset : (forest.append (cons name value children nil)).upsert (fun _ => entry.2)
          (name :: entry.1) =
          forest.append (cons name value (children.upsert (fun _ => entry.2) entry.1) nil) := by
        rw [append_upsert_of_fresh _ _ _ hfresh]
        simp [upsert, hlist.1]
      simp only [under, List.map_cons, setAll, List.foldl_cons, hset]
      exact ih (children.upsert (fun _ => entry.2) entry.1) hlist.2

/-- The first entry below a fresh name creates that node with the default value. -/
theorem setAll_under_of_fresh (forest : Forest κ α) {name : κ} (hfresh : name ∉ forest.names)
    (list : List (List κ × α)) (hlist : ∀ entry ∈ list, entry.1 ≠ []) (hsome : list ≠ []) :
    forest.setAll (under name list) =
      forest.append (cons name default (nil.setAll list) nil) := by
  rw [← setAll_under forest hfresh default nil list hlist]
  obtain ⟨entry, list, rfl⟩ := List.exists_cons_of_ne_nil hsome
  rw [List.forall_mem_cons] at hlist
  simp only [under, List.map_cons, setAll, List.foldl_cons]
  rw [upsert_of_fresh _ _ hfresh, append_upsert_of_fresh _ _ _ hfresh]
  simp [chain, upsert, hlist.1]

omit [DecidableEq κ] [Inhabited α] in
theorem filter_entries_cons (keep : α → Bool) (name : κ) (value : α) (children rest : Forest κ α) :
    (cons name value children rest).entries.filter (fun entry => keep entry.2) =
      (if keep value then [([name], value)] else []) ++
        (under name (children.entries.filter fun entry => keep entry.2) ++
          rest.entries.filter fun entry => keep entry.2) := by
  simp only [entries, under, List.cons_append, List.filter_cons,
    List.filter_append, List.filter_map, Function.comp_def]
  split <;> simp

/-- New nodes with default values leave the kept entries and their order. -/
theorem filter_entries_touch (keep : α → Bool) (hdefault : keep default = false)
    (forest : Forest κ α) (path : List κ) :
    (forest.upsert orDefault path).entries.filter (fun entry => keep entry.2) =
      forest.entries.filter fun entry => keep entry.2 := by
  have hchain (path : List κ) :
      (chain orDefault path : Forest κ α).entries.filter (fun entry => keep entry.2) = [] := by
    induction path with
    | nil => rfl
    | cons name path ih =>
        rw [chain, filter_entries_cons, ih]
        simp [hdefault, under, entries]
  induction forest generalizing path with
  | nil => exact hchain path
  | cons name value children rest ihchildren ihrest =>
      rcases path with _ | ⟨head, path⟩
      · rfl
      · rw [upsert]
        split
        · simp [filter_entries_cons, ihchildren]
        · simp [filter_entries_cons, ihrest]

omit [DecidableEq κ] in
/-- Pruning leaves the kept entries and their order. -/
theorem filter_entries_prune (keep : α → Bool) (hdefault : keep default = false)
    (forest : Forest κ α) :
    (forest.prune keep).entries.filter (fun entry => keep entry.2) =
      forest.entries.filter fun entry => keep entry.2 := by
  induction forest with
  | nil => rfl
  | cons name value children rest ihchildren ihrest =>
      rw [filter_entries_cons, ← ihchildren, ← ihrest, prune]
      split
      next hkeep => rw [filter_entries_cons, if_pos hkeep]
      next hkeep =>
        cases hchildren : children.prune keep with
        | nil => simp [entries, under]
        | cons => simp [filter_entries_cons, hdefault]

omit [DecidableEq κ] in
theorem prune_eq_nil_iff (keep : α → Bool) (forest : Forest κ α) :
    forest.prune keep = nil ↔ forest.entries.filter (fun entry => keep entry.2) = [] := by
  induction forest with
  | nil => simp [prune, entries]
  | cons name value children rest ihchildren ihrest =>
      rw [filter_entries_cons, prune]
      cases hkeep : keep value with
      | true => simp
      | false =>
          cases hchildren : children.prune keep with
          | nil =>
              have hnone := ihchildren.mp hchildren
              simp only [hnone, under, List.map_nil, List.nil_append,
                Bool.false_eq_true, ↓reduceIte]
              exact ihrest
          | cons =>
              have hsome := mt ihchildren.mpr (by simp [hchildren])
              simp only [Bool.false_eq_true, ↓reduceIte, reduceCtorEq,
                List.append_eq_nil_iff, under, List.map_eq_nil_iff, hsome, false_and, and_false]

/-- Setting the kept entries of a forest after siblings with other names adds
the forest without the nodes above no kept value. -/
theorem setAll_filter_entries (keep : α → Bool) (siblings forest : Forest κ α)
    (hdistinct : forest.Distinct) (hfresh : ∀ name ∈ forest.names, name ∉ siblings.names) :
    siblings.setAll (forest.entries.filter fun entry => keep entry.2) =
      siblings.append (forest.prune keep) := by
  induction forest generalizing siblings with
  | nil => simp [entries, prune, append_nil]
  | cons name value children rest ihchildren ihrest =>
      obtain ⟨hname, hchildren, hrest⟩ := hdistinct
      simp only [names, List.forall_mem_cons] at hfresh
      obtain ⟨hnew, hothers⟩ := hfresh
      have hpaths : ∀ entry ∈ children.entries.filter (fun entry => keep entry.2), entry.1 ≠ [] :=
        fun entry hentry => path_ne_nil_of_mem_entries (List.mem_of_mem_filter hentry)
      have hbelow := ihchildren nil hchildren (by simp [names])
      have hafter (v : α) (inside : Forest κ α) :=
        ihrest (siblings.append (cons name v inside nil)) hrest (by
          intro other hother
          simp only [names_append, names, List.mem_append, List.mem_singleton, not_or]
          exact ⟨hothers other hother, fun heq => hname (heq ▸ hother)⟩)
      rw [filter_entries_cons, setAll_append, setAll_append, prune]
      split
      next hkeep =>
        have hset : siblings.setAll [([name], value)] =
            siblings.append (cons name value nil nil) := by
          simp [setAll, upsert_of_fresh _ _ hnew, chain]
        rw [hset, setAll_under _ hnew _ _ _ hpaths, hbelow, hafter, append_assoc]
        rfl
      next hkeep =>
        rw [setAll_nil]
        cases hinside : children.prune keep with
        | nil =>
            rw [(prune_eq_nil_iff keep children).mp hinside]
            exact ihrest siblings hrest hothers
        | cons =>
            have hsome : children.entries.filter (fun entry => keep entry.2) ≠ [] := by
              rw [ne_eq, ← prune_eq_nil_iff, hinside]
              simp
            rw [setAll_under_of_fresh _ hnew _ hpaths hsome, hbelow, hafter, append_assoc, hinside]
            rfl

omit [DecidableEq κ] in
theorem names_prune_subset (keep : α → Bool) (forest : Forest κ α) :
    (forest.prune keep).names ⊆ forest.names := by
  induction forest with
  | nil => simp [prune]
  | cons name value children rest _ ihrest =>
      rw [prune]
      split
      next => exact List.cons_subset_cons name ihrest
      next =>
        split
        next => exact List.subset_cons_of_subset name ihrest
        next => exact List.cons_subset_cons name ihrest

omit [DecidableEq κ] in
theorem Distinct.prune (keep : α → Bool) {forest : Forest κ α} (h : forest.Distinct) :
    (forest.prune keep).Distinct := by
  induction forest with
  | nil => trivial
  | cons name value children rest ihchildren ihrest =>
      obtain ⟨hfresh, hchildren, hrest⟩ := h
      have hkept := mt (@names_prune_subset _ _ _ keep rest name) hfresh
      rw [Forest.prune]
      split
      next => exact ⟨hkept, ihchildren hchildren, ihrest hrest⟩
      next =>
        have hinside := ihchildren hchildren
        cases hchildren : children.prune keep with
        | nil => exact ihrest hrest
        | cons => exact ⟨hkept, hchildren ▸ hinside, ihrest hrest⟩

omit [DecidableEq κ] in
theorem prune_of_keep (keep : α → Bool) (hkeep : ∀ value, keep value = true)
    (forest : Forest κ α) : forest.prune keep = forest := by
  induction forest with
  | nil => rfl
  | cons name value children rest ihchildren ihrest => simp [prune, hkeep, ihchildren, ihrest]

end Forest

/-- A root with the forest below it. -/
@[ext]
structure NamedTree (κ : Type u) (α : Type v) where
  value : α
  children : Forest κ α
  distinct : children.Distinct

namespace NamedTree

variable {κ : Type u} {α : Type v}

/-- A root without children. -/
def leaf (value : α) : NamedTree κ α := ⟨value, .nil, trivial⟩

/-- Every node, the root first, in the order of a traversal. -/
def entries (tree : NamedTree κ α) : List (List κ × α) := ([], tree.value) :: tree.children.entries

theorem nodup_paths (tree : NamedTree κ α) : (tree.entries.map Prod.fst).Nodup := by
  refine List.nodup_cons.mpr ⟨?_, Forest.nodup_paths tree.distinct⟩
  intro hmem
  have ⟨entry, hentry, hroot⟩ := List.mem_map.mp hmem
  exact Forest.path_ne_nil_of_mem_entries hentry hroot

variable [DecidableEq κ]

/-- The value of the node at a path, if there is such a node. -/
def value? (tree : NamedTree κ α) (path : List κ) : Option α :=
  if path.isEmpty then some tree.value else tree.children.value? path

/-- Create what is missing of a path and compute the value at its end. -/
def upsert [Inhabited α] (f : Option α → α) (tree : NamedTree κ α) (path : List κ) :
    NamedTree κ α where
  value := if path.isEmpty then f (some tree.value) else tree.value
  children := tree.children.upsert f path
  distinct := tree.distinct.upsert f path

variable [Inhabited α]

/-- Create what is missing of a path. -/
def touch (tree : NamedTree κ α) (path : List κ) : NamedTree κ α :=
  tree.upsert Forest.orDefault path

def set (tree : NamedTree κ α) (path : List κ) (value : α) : NamedTree κ α :=
  tree.upsert (fun _ => value) path

omit [Inhabited α] in
@[simp] theorem value?_root (tree : NamedTree κ α) : tree.value? [] = some tree.value := rfl

theorem value?_upsert (f : Option α → α) (tree : NamedTree κ α) (path query : List κ) :
    (tree.upsert f path).value? query =
      if query = path then some (f (tree.value? path))
      else if query <+: path then some ((tree.value? query).getD default)
      else tree.value? query := by
  rcases query with _ | ⟨head, query⟩
  · cases path <;> simp [value?, upsert]
  · have hforest := Forest.value?_upsert f tree.children path (head :: query) (by simp)
    rcases path with _ | ⟨first, path⟩
    · simp [value?, upsert]
    · simpa [value?, upsert] using hforest

omit [Inhabited α] in
theorem mem_entries_of_value? {tree : NamedTree κ α} {path : List κ} {value : α}
    (h : tree.value? path = some value) : (path, value) ∈ tree.entries := by
  rcases path with _ | ⟨head, path⟩
  · simp_all [entries]
  · exact List.mem_cons_of_mem _ (Forest.mem_entries_of_value? h)

theorem value?_set (tree : NamedTree κ α) (path query : List κ) (value : α) :
    (tree.set path value).value? query =
      if query = path then some value
      else if query <+: path then some ((tree.value? query).getD default)
      else tree.value? query :=
  value?_upsert _ tree path query

theorem value?_touch (tree : NamedTree κ α) (path query : List κ) :
    (tree.touch path).value? query =
      if query <+: path then some ((tree.value? query).getD default) else tree.value? query := by
  rw [touch, value?_upsert]
  by_cases hquery : query = path
  · simp [hquery]
  · simp [hquery]

omit [Inhabited α] in
theorem isSome_value?_of_mem_paths {tree : NamedTree κ α} {path : List κ}
    (h : path ∈ tree.entries.map Prod.fst) : (tree.value? path).isSome = true := by
  have ⟨⟨_, value⟩, hmem, hpath⟩ := List.mem_map.mp h
  cases hpath
  rcases List.mem_cons.mp hmem with heq | hbelow
  · cases heq
    rfl
  · have hne := Forest.path_ne_nil_of_mem_entries hbelow
    simp [value?, hne, Forest.value?_of_mem_entries tree.distinct hbelow]

omit [Inhabited α] in
theorem value?_of_mem_entries {tree : NamedTree κ α} {path : List κ} {value : α}
    (h : (path, value) ∈ tree.entries) : tree.value? path = some value := by
  rcases List.mem_cons.mp h with heq | hbelow
  · cases heq
    rfl
  · have hne := Forest.path_ne_nil_of_mem_entries hbelow
    simp [value?, hne, Forest.value?_of_mem_entries tree.distinct hbelow]

/-- Setting a node that there is creates no other. -/
theorem paths_set (tree : NamedTree κ α) {path : List κ} (hpath : path ∈ tree.entries.map Prod.fst)
    (value : α) : (tree.set path value).entries.map Prod.fst = tree.entries.map Prod.fst := by
  have hsome := isSome_value?_of_mem_paths hpath
  rcases path with _ | ⟨head, path⟩
  · simp [set, upsert, entries]
  · have hchildren := Forest.paths_upsert (fun _ => value) tree.children hsome
    simp only [set, upsert, entries, List.map_cons, hchildren]

theorem upsert_touch (f : Option α → α) (hf : f (some default) = f none) (tree : NamedTree κ α)
    {first path : List κ} (hbegins : first <+: path) :
    (tree.touch first).upsert f path = tree.upsert f path := by
  ext1
  · cases first <;> rfl
  · exact Forest.upsert_touch f hf tree.children hbegins

/-- The nodes of a path created in two parts. -/
theorem touch_touch (tree : NamedTree κ α) {first path : List κ} (hbegins : first <+: path) :
    (tree.touch first).touch path = tree.touch path :=
  upsert_touch _ rfl tree hbegins

theorem set_touch (tree : NamedTree κ α) {first path : List κ} (hbegins : first <+: path)
    (value : α) : (tree.touch first).set path value = tree.set path value :=
  upsert_touch _ rfl tree hbegins

theorem upsert_eq_self (f : Option α → α) (tree : NamedTree κ α) {path : List κ} {value : α}
    (hvalue : tree.value? path = some value) (hf : f (some value) = value) :
    tree.upsert f path = tree := by
  rcases path with _ | ⟨head, path⟩
  · obtain rfl : tree.value = value := Option.some.inj hvalue
    ext1
    · exact hf
    · exact Forest.upsert_empty _ _
  · ext1
    · rfl
    · exact Forest.upsert_eq_self f tree.children hvalue hf

/-- Nothing is created where there is a node. -/
theorem touch_of_value? (tree : NamedTree κ α) {path : List κ} {value : α}
    (hvalue : tree.value? path = some value) : tree.touch path = tree :=
  tree.upsert_eq_self _ hvalue rfl

/-- Writing a value that is there changes nothing. -/
theorem set_of_value? (tree : NamedTree κ α) {path : List κ} {value : α}
    (hvalue : tree.value? path = some value) : tree.set path value = tree :=
  tree.upsert_eq_self _ hvalue rfl

theorem touch_eq_self_iff (tree : NamedTree κ α) (path : List κ) :
    tree.touch path = tree ↔ (tree.value? path).isSome = true := by
  apply Iff.intro
  · intro hequal
    rw [← hequal, value?_touch, if_pos (List.prefix_refl path)]
    rfl
  · intro hsome
    obtain ⟨value, hvalue⟩ := Option.isSome_iff_exists.mp hsome
    exact tree.touch_of_value? hvalue

@[simp] theorem touch_root (tree : NamedTree κ α) : tree.touch [] = tree :=
  tree.touch_of_value? (value?_root tree)

/-- The kept values of a tree, with the nodes above them; the root stays. -/
def prune (keep : α → Bool) (tree : NamedTree κ α) : NamedTree κ α where
  value := if keep tree.value then tree.value else default
  children := tree.children.prune keep
  distinct := tree.distinct.prune keep

def setAll (tree : NamedTree κ α) (entries : List (List κ × α)) : NamedTree κ α :=
  entries.foldl (fun tree entry => tree.set entry.1 entry.2) tree

/-- Values that are set at other paths change no value. -/
theorem value?_setAll_of_not_mem {tree : NamedTree κ α} {list : List (List κ × α)} {path : List κ}
    {value : α} (hpath : path ∉ list.map Prod.fst) (h : tree.value? path = some value) :
    (tree.setAll list).value? path = some value := by
  induction list generalizing tree with
  | nil => exact h
  | cons entry list ih =>
      rw [List.map_cons, List.mem_cons, not_or] at hpath
      apply ih hpath.2
      rw [value?_set, if_neg hpath.1, h]
      simp

/-- Of values that are set at different paths, each is there in the end. -/
theorem value?_setAll_of_mem {tree : NamedTree κ α} {list : List (List κ × α)} {path : List κ}
    {value : α} (hnodup : (list.map Prod.fst).Nodup) (hmem : (path, value) ∈ list) :
    (tree.setAll list).value? path = some value := by
  induction list generalizing tree with
  | nil => cases hmem
  | cons entry list ih =>
      rw [List.map_cons, List.nodup_cons] at hnodup
      rcases List.mem_cons.mp hmem with rfl | hrest
      · apply value?_setAll_of_not_mem hnodup.1
        rw [value?_set, if_pos rfl]
      · exact ih hnodup.2 hrest

theorem setAll_children (tree : NamedTree κ α) (list : List (List κ × α))
    (hlist : ∀ entry ∈ list, entry.1 ≠ []) :
    (tree.setAll list).value = tree.value ∧
      (tree.setAll list).children = tree.children.setAll list := by
  induction list generalizing tree with
  | nil => exact ⟨rfl, rfl⟩
  | cons entry list ih =>
      rw [List.forall_mem_cons] at hlist
      obtain ⟨hvalue, hchildren⟩ := ih (tree.set entry.1 entry.2) hlist.2
      refine ⟨?_, hchildren⟩
      rw [show tree.setAll (entry :: list) = (tree.set entry.1 entry.2).setAll list from rfl,
        hvalue]
      simp [set, upsert, hlist.1]

/-- A tree is rebuilt from its kept entries, up to the nodes above no kept value. -/
theorem setAll_filter_entries (keep : α → Bool) (tree : NamedTree κ α) :
    (leaf default).setAll (tree.entries.filter fun entry => keep entry.2) = tree.prune keep := by
  have hpaths : ∀ entry ∈ tree.children.entries.filter (fun entry => keep entry.2), entry.1 ≠ [] :=
    fun entry hentry => Forest.path_ne_nil_of_mem_entries (List.mem_of_mem_filter hentry)
  have hforest := Forest.setAll_filter_entries keep .nil tree.children tree.distinct
    (by simp [Forest.names])
  have hfrom (value : α) := setAll_children (leaf value : NamedTree κ α) _ hpaths
  simp only [entries, List.filter_cons]
  split
  next hkeep =>
    ext1
    · exact (hfrom tree.value).1.trans (by simp [prune, hkeep, leaf])
    · exact (hfrom tree.value).2.trans hforest
  next hkeep =>
    ext1
    · exact (hfrom default).1.trans (by simp [prune, hkeep, leaf])
    · exact (hfrom default).2.trans hforest

omit [DecidableEq κ] in
theorem filter_entries_prune (keep : α → Bool) (hdefault : keep default = false)
    (tree : NamedTree κ α) :
    (tree.prune keep).entries.filter (fun entry => keep entry.2) =
      tree.entries.filter fun entry => keep entry.2 := by
  simp only [entries, List.filter_cons, prune, Forest.filter_entries_prune keep hdefault]
  cases hkeep : keep tree.value <;> simp [hkeep, hdefault]

theorem filter_entries_touch (keep : α → Bool) (hdefault : keep default = false)
    (tree : NamedTree κ α) (path : List κ) :
    (tree.touch path).entries.filter (fun entry => keep entry.2) =
      tree.entries.filter fun entry => keep entry.2 := by
  have hchildren := Forest.filter_entries_touch keep hdefault tree.children path
  simp only [entries, List.filter_cons, touch, upsert] at hchildren ⊢
  rw [hchildren]
  cases path <;> rfl

omit [DecidableEq κ] in
theorem prune_of_keep (keep : α → Bool) (hkeep : ∀ value, keep value = true)
    (tree : NamedTree κ α) : tree.prune keep = tree := by
  ext1
  · simp [prune, hkeep]
  · exact Forest.prune_of_keep keep hkeep tree.children

end NamedTree
end OSVR.Math
