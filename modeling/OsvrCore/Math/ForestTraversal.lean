/-
# Traversing a tree that grows

A traversal visits a node and then its children by index, reading the list of
children again after each child, so that the visits may add nodes to the tree
that is being traversed. New children come after the old ones: a node whose
branch precedes that of the current node has been passed for good.
-/

import OsvrCore.Math.NamedForest
import OsvrCore.Math.Program
import Mathlib.Data.Finset.Lattice.Fold
import Mathlib.Order.Lattice.Nat

set_option autoImplicit false

namespace OSVR.Math

universe u v

/-! ## Names of children -/

namespace Forest

variable {κ : Type u} {α : Type v} [DecidableEq κ]

theorem distinct_childrenAt {forest : Forest κ α} (h : forest.Distinct) (path : List κ) :
    (forest.childrenAt path).Distinct := by
  induction forest generalizing path with
  | nil => cases path <;> trivial
  | cons name value children rest ihchildren ihrest =>
      rcases path with _ | ⟨head, path⟩
      · exact h
      · rw [childrenAt]
        split
        · exact ihchildren h.2.1 path
        · exact ihrest h.2.2 (head :: path)

theorem isSome_value?_concat (forest : Forest κ α) (path : List κ) (name : κ) :
    (forest.value? (path ++ [name])).isSome = true ↔ name ∈ (forest.childrenAt path).names := by
  induction forest generalizing path with
  | nil => cases path <;> simp [value?, childrenAt, names]
  | cons first value children rest ihchildren ihrest =>
      rcases path with _ | ⟨head, path⟩
      · have hrest := ihrest []
        by_cases hname : first = name
        · simp [value?, childrenAt, names, hname]
        · simpa [value?, childrenAt, names, hname, Ne.symm hname] using hrest
      · by_cases hhead : first = head
        · simpa [value?, childrenAt, hhead] using ihchildren path
        · simpa [value?, childrenAt, hhead] using ihrest (head :: path)

theorem names_childrenAt_upsert [Inhabited α] (f : Option α → α) (forest : Forest κ α)
    (path query : List κ) :
    (forest.childrenAt query).names <+: ((forest.upsert f path).childrenAt query).names := by
  induction forest generalizing path query with
  | nil => cases query <;> simp [childrenAt, names]
  | cons name value children rest ihchildren ihrest =>
      rcases path with _ | ⟨head, path⟩
      · simp
      · rcases query with _ | ⟨first, query⟩
        · rw [childrenAt, childrenAt, names_upsert]
          split
          · exact List.prefix_rfl
          · exact List.prefix_append _ _
        · by_cases hhead : name = head
          · subst hhead
            by_cases hfirst : name = first
            · simpa [upsert, childrenAt, hfirst] using ihchildren path query
            · simp [upsert, childrenAt, hfirst]
          · by_cases hfirst : name = first
            · subst hfirst
              simp [upsert, childrenAt, hhead]
            · simpa [upsert, childrenAt, hhead, hfirst] using ihrest (head :: path) (first :: query)

theorem names_childrenAt_chain [Inhabited α] (f : Option α → α) (front : List κ) (name : κ)
    (rest : List κ) : ((chain f (front ++ name :: rest)).childrenAt front).names = [name] := by
  induction front with
  | nil => simp [chain, childrenAt, names]
  | cons head front ih => simpa [chain, childrenAt] using ih

theorem isSome_value?_append (forest : Forest κ α) (path rest : List κ) (hpath : path ≠ [])
    (h : (forest.value? (path ++ rest)).isSome = true) : (forest.value? path).isSome = true := by
  induction forest generalizing path with
  | nil => simp [value?] at h
  | cons name value children siblings ihchildren ihsiblings =>
      obtain ⟨head, path, rfl⟩ := List.exists_cons_of_ne_nil hpath
      by_cases hname : name = head
      · rcases path with _ | ⟨second, path⟩
        · simp [value?, hname]
        · simpa [value?, hname] using
            ihchildren (second :: path) (by simp) (by simpa [value?, hname] using h)
      · simpa [value?, hname] using
          ihsiblings (head :: path) (by simp) (by simpa [value?, hname] using h)

end Forest

namespace NamedTree

variable {κ : Type u} {α : Type v} [DecidableEq κ]

/-- The names of the children of a node, in their order. -/
def childNames (tree : NamedTree κ α) (path : List κ) : List κ :=
  (tree.children.childrenAt path).names

theorem nodup_childNames (tree : NamedTree κ α) (path : List κ) : (tree.childNames path).Nodup :=
  (Forest.distinct_childrenAt tree.distinct path).nodup_names

theorem isSome_value?_concat (tree : NamedTree κ α) (path : List κ) (name : κ) :
    (tree.value? (path ++ [name])).isSome = true ↔ name ∈ tree.childNames path := by
  rw [childNames, ← Forest.isSome_value?_concat]
  simp [value?]

/-- The nodes above a node exist. -/
theorem isSome_value?_of_above (tree : NamedTree κ α) {path query : List κ}
    (hbegins : query <+: path) (hpath : (tree.value? path).isSome = true) :
    (tree.value? query).isSome = true := by
  obtain ⟨rest, rfl⟩ := hbegins
  rcases query with _ | ⟨head, query⟩
  · rfl
  · exact Forest.isSome_value?_append tree.children (head :: query) rest (by simp) hpath

/-- A path to an only node is a chain of only children. -/
theorem childNames_set_leaf [Inhabited α] (root value : α) (front : List κ) (name : κ)
    (rest : List κ) : ((leaf root).set (front ++ name :: rest) value).childNames front = [name] :=
  Forest.names_childrenAt_chain _ front name rest

/-! ## Growth -/

/-- Every list of children has only become longer. -/
def Grows (before after : NamedTree κ α) : Prop :=
  ∀ path, before.childNames path <+: after.childNames path

namespace Grows

theorem refl (tree : NamedTree κ α) : tree.Grows tree := fun _ => List.prefix_rfl

theorem trans ⦃first second third : NamedTree κ α⦄ (h : first.Grows second)
    (h' : second.Grows third) : first.Grows third :=
  fun path => (h path).trans (h' path)

theorem upsert [Inhabited α] (tree : NamedTree κ α) (f : Option α → α) (path : List κ) :
    tree.Grows (tree.upsert f path) :=
  fun query => Forest.names_childrenAt_upsert f tree.children path query

theorem touch [Inhabited α] (tree : NamedTree κ α) (path : List κ) : tree.Grows (tree.touch path) :=
  upsert tree _ path

theorem set [Inhabited α] (tree : NamedTree κ α) (path : List κ) (value : α) :
    tree.Grows (tree.set path value) :=
  upsert tree _ path

/-- Nodes stay. -/
theorem isSome_value? {first second : NamedTree κ α} (h : first.Grows second) {path : List κ}
    (hpath : (first.value? path).isSome = true) : (second.value? path).isSome = true := by
  rcases List.eq_nil_or_concat' path with rfl | ⟨front, name, rfl⟩
  · rfl
  · rw [isSome_value?_concat] at hpath ⊢
    exact (h front).subset hpath

end Grows

/-! ## Order of the traversal -/

/-- In the order of `names`, with missing names last. -/
def Precedes (names : List κ) (early late : κ) : Prop := names.idxOf early < names.idxOf late

theorem Precedes.extend {names more : List κ} {early late : κ} (h : Precedes names early late)
    (hbegins : names <+: more) : Precedes more early late := by
  obtain ⟨rest, rfl⟩ := hbegins
  have hearly : early ∈ names := List.idxOf_lt_length_iff.mp (h.trans_le List.idxOf_le_length)
  unfold Precedes at h ⊢
  rw [List.idxOf_append, if_pos hearly, List.idxOf_append]
  split
  · exact h
  · exact (h.trans_le List.idxOf_le_length).trans_le (Nat.le_add_left _ _)

/-- A traversal that is at a node has passed a path: the path ends at the node or
above it, or in a branch that precedes that of the node. -/
def Passed (tree : NamedTree κ α) (current path : List κ) : Prop :=
  path <+: current ∨ ∃ stem early late, stem ++ [late] <+: current ∧ stem ++ [early] <+: path ∧
    Precedes (tree.childNames stem) early late

omit [DecidableEq κ] in
/-- A path goes on with one name. -/
theorem branch_unique {stem query : List κ} {left right : κ} (hleft : stem ++ [left] <+: query)
    (hright : stem ++ [right] <+: query) : left = right := by
  simpa using List.prefix_of_prefix_length_le hleft hright (by simp)

theorem not_precedes_self (names : List κ) (name : κ) : ¬ Precedes names name name :=
  Nat.lt_irrefl _

/-- What is below the current node has not been passed. -/
theorem Passed.not_below {tree : NamedTree κ α} {current path : List κ}
    (h : tree.Passed current path) (name : κ) : ¬ current ++ [name] <+: path := by
  intro hbelow
  rcases h with hup | ⟨stem, early, late, hlate, hearly, hprecedes⟩
  · exact absurd (hbelow.trans hup).length_le (by simp)
  · obtain rfl := branch_unique hearly (hlate.trans ((List.prefix_append _ _).trans hbelow))
    exact not_precedes_self _ _ hprecedes

/-- Of two branches of a node, the one whose nodes are passed from the other
precedes it. -/
theorem Passed.precedes {tree : NamedTree κ α} {current path stem : List κ} {early late : κ}
    (h : tree.Passed current path) (hcurrent : stem ++ [late] <+: current)
    (hpath : stem ++ [early] <+: path) (hne : early ≠ late) :
    Precedes (tree.childNames stem) early late := by
  rcases h with hup | ⟨front, first, last, hlast, hfirst, hprecedes⟩
  · exact absurd (branch_unique (hpath.trans hup) hcurrent) hne
  · rcases Nat.lt_trichotomy front.length stem.length with hlt | heq | hlt
    · have hstem (name : κ) (query : List κ) (hquery : stem ++ [name] <+: query)
          (last : κ) (hlast : front ++ [last] <+: query) : front ++ [last] <+: stem :=
        List.prefix_of_prefix_length_le hlast ((List.prefix_append _ _).trans hquery)
          (by simpa using Nat.succ_le_of_lt hlt)
      have hsame := branch_unique (hstem _ _ hpath _ hfirst) (hstem _ _ hcurrent _ hlast)
      exact absurd hprecedes (by simp [Precedes, hsame])
    · obtain rfl : front = stem :=
        (List.prefix_of_prefix_length_le ((List.prefix_append _ _).trans hfirst)
          ((List.prefix_append _ _).trans hpath) heq.le).eq_of_length heq
      rwa [branch_unique hpath hfirst, branch_unique hcurrent hlast]
    · have hfront (name : κ) (query : List κ) (hquery : stem ++ [name] <+: query)
          (last : κ) (hlast : front ++ [last] <+: query) : stem ++ [name] <+: front :=
        List.prefix_of_prefix_length_le hquery ((List.prefix_append _ _).trans hlast)
          (by simpa using Nat.succ_le_of_lt hlt)
      exact absurd (branch_unique (hfront _ _ hpath _ hfirst) (hfront _ _ hcurrent _ hlast)) hne

/-- A traversal comes to a node when it has passed none of the nodes that end it. -/
def ComesTo (tree : NamedTree κ α) (stops : List κ → Prop) (node : List κ) : Prop :=
  ∀ stop, stops stop → tree.Passed node stop → stop = node

/-- A traversal that has come to a node comes to its children in their order. -/
theorem ComesTo.child {base tree : NamedTree κ α} {stops : List κ → Prop} {node : List κ} {name : κ}
    {index : ℕ} (h : base.ComesTo stops node) (hnode : ¬ stops node) (hgrows : base.Grows tree)
    (hname : (tree.childNames node)[index]? = some name)
    (hearlier : ∀ other ∈ (tree.childNames node).take index, ∀ stop, stops stop →
      ¬ node ++ [other] <+: stop) : base.ComesTo stops (node ++ [name]) := by
  intro stop hstop hpassed
  rcases hpassed with hup | ⟨stem, early, late, hlate, hearly, hprecedes⟩
  · rcases List.prefix_concat_iff.mp hup with hsame | habove
    · exact hsame
    · exact absurd (h stop hstop (.inl habove) ▸ hstop) hnode
  · rcases List.prefix_concat_iff.mp hlate with hsame | habove
    · -- the branch is that of an earlier child
      obtain ⟨rfl, hlast⟩ := List.append_inj' hsame rfl
      obtain rfl : late = name := by simpa using hlast
      have hprecedes' := hprecedes.extend (hgrows stem)
      obtain ⟨hlt, rfl⟩ := List.getElem?_eq_some_iff.mp hname
      rw [Precedes, (tree.nodup_childNames stem).idxOf_getElem] at hprecedes'
      have hmem : early ∈ tree.childNames stem := List.idxOf_lt_length_iff.mp (hprecedes'.trans hlt)
      have htaken : early ∈ (tree.childNames stem).take index := by
        rw [List.mem_take_iff_getElem]
        exact ⟨_, lt_min hprecedes' (hprecedes'.trans hlt), List.getElem_idxOf _⟩
      exact absurd hearly (hearlier early htaken stop hstop)
    · obtain rfl := h stop hstop (.inr ⟨stem, early, late, habove, hearly, hprecedes⟩)
      obtain rfl := branch_unique hearly habove
      exact absurd hprecedes (not_precedes_self _ _)

/-! ## The traversal -/

section Traversal

variable {κ α ε : Type} [DecidableEq κ]

section Definitions

variable (visit : List κ → Program (NamedTree κ α) ε Bool)

mutual

/-- Visit a node and then what is below it; the result says whether some visit
reported a change. -/
def traverse : (fuel : ℕ) → (node : List κ) → Program (NamedTree κ α) ε Bool
  | 0, _ => Program.abort .outOfFuel
  | fuel + 1, node => do
      let changed ← visit node
      let below ← visitChildren fuel node 0
      return changed || below

/-- Traverse the children from an index on, with the size read anew each time. -/
def visitChildren : (fuel : ℕ) → (node : List κ) → (index : ℕ) →
    Program (NamedTree κ α) ε Bool
  | 0, _, _ => Program.abort .outOfFuel
  | fuel + 1, node, index => do
      match ((← Program.get).childNames node)[index]? with
      | none => return false
      | some name =>
          let changed ← traverse fuel (node ++ [name])
          let later ← visitChildren fuel node (index + 1)
          return changed || later

end

end Definitions

theorem relates_traverse {rel : NamedTree κ α → NamedTree κ α → Prop}
    (hrefl : ∀ tree, rel tree tree)
    (htrans : ∀ ⦃first second third⦄, rel first second → rel second third → rel first third)
    {visit : List κ → Program (NamedTree κ α) ε Bool}
    (hvisit : ∀ node, Program.Relates rel (visit node)) (fuel : ℕ) :
    (∀ node, Program.Relates rel (traverse visit fuel node)) ∧
      ∀ node index, Program.Relates rel (visitChildren visit fuel node index) := by
  induction fuel with
  | zero => exact ⟨fun _ => hrefl, fun _ _ => hrefl⟩
  | succ fuel ih =>
      refine ⟨fun node => ?_, fun node index => ?_⟩
      · exact Program.Relates.bind htrans (hvisit node) fun _ =>
          Program.Relates.bind htrans (ih.2 node 0) fun _ => hrefl
      · refine Program.Relates.bind htrans hrefl fun tree => ?_
        split
        · exact hrefl
        next name _ =>
          exact Program.Relates.bind htrans (ih.1 (node ++ [name])) fun _ =>
            Program.Relates.bind htrans (ih.2 node (index + 1)) fun _ => hrefl

/-- What the visits below a node keep, a traversal from there keeps, however it ends. -/
theorem keeps_traverse {good : NamedTree κ α → Prop}
    {visit : List κ → Program (NamedTree κ α) ε Bool} (root : List κ)
    (hvisit : ∀ node tree, root <+: node → good tree → good ((visit node).run tree).2) (fuel : ℕ) :
    (∀ node tree, root <+: node → good tree → good ((traverse visit fuel node).run tree).2) ∧
      ∀ node index tree, root <+: node → good tree →
        good ((visitChildren visit fuel node index).run tree).2 := by
  induction fuel with
  | zero => exact ⟨fun _ _ _ htree => htree, fun _ _ _ _ htree => htree⟩
  | succ fuel ih =>
      refine ⟨fun node tree hbelow htree => ?_, fun node index tree hbelow htree => ?_⟩
      · exact Program.keeps_bind good (hvisit node tree hbelow htree) fun changed middle hmiddle =>
          Program.keeps_bind good (ih.2 node 0 middle hbelow hmiddle) fun _ _ h => h
      · refine Program.keeps_bind good htree fun read middle hmiddle => ?_
        split
        · exact hmiddle
        next name _ =>
          have hchild :=
            ih.1 (node ++ [name]) middle (hbelow.trans (List.prefix_append node _)) hmiddle
          exact Program.keeps_bind good hchild fun changed last hlast =>
            Program.keeps_bind good (ih.2 node (index + 1) last hbelow hlast) fun _ _ h => h

/-- A traversal comes to the node that the first children lead to, when the visits
on the way do nothing. -/
theorem reaches_traverse {good : NamedTree κ α → Prop}
    {visit : List κ → Program (NamedTree κ α) ε Bool}
    (hkeeps : ∀ node tree, good tree → good ((visit node).run tree).2) {tree : NamedTree κ α}
    (below node : List κ)
    (hfirst : ∀ front name rest, below = front ++ name :: rest →
      (visit (node ++ front)).run tree = (.ok false, tree) ∧
        (tree.childNames (node ++ front))[0]? = some name)
    (hgoal : good ((visit (node ++ below)).run tree).2) :
    ∃ fuel, good ((traverse visit fuel node).run tree).2 := by
  have hkeeps' := keeps_traverse [] fun node tree _ => hkeeps node tree
  induction below generalizing node with
  | nil =>
      rw [List.append_nil] at hgoal
      exact ⟨1, Program.keeps_bind good hgoal fun _ middle hmiddle => hmiddle⟩
  | cons name below ih =>
      obtain ⟨hvisit, hchild⟩ := hfirst [] name below rfl
      rw [List.append_nil] at hvisit hchild
      obtain ⟨fuel, hfuel⟩ := ih (node ++ [name]) (fun front next rest hrest => by
        simpa using hfirst (name :: front) next rest (by rw [hrest, List.cons_append]))
        (by simpa using hgoal)
      refine ⟨fuel + 2, ?_⟩
      rw [traverse, Program.run_bind_of_ok hvisit]
      have hread : (Program.get : Program (NamedTree κ α) ε _).run tree = (.ok tree, tree) := rfl
      have hchildren : good ((visitChildren visit (fuel + 1) node 0).run tree).2 := by
        rw [visitChildren, Program.run_bind_of_ok hread, hchild]
        exact Program.keeps_bind good hfuel fun _ middle hmiddle =>
          Program.keeps_bind good ((hkeeps' fuel).2 node 1 middle List.nil_prefix hmiddle)
            fun _ _ h => h
      exact Program.keeps_bind good hchildren fun _ _ h => h

/-- A traversal accounts for what it does when its visits do. -/
theorem accounts_traverse {rel : NamedTree κ α → NamedTree κ α → Prop}
    (hrefl : ∀ tree, rel tree tree)
    (htrans : ∀ ⦃first second third⦄, rel first second → rel second third → rel first third)
    {visit : List κ → Program (NamedTree κ α) ε Bool} {fails : Abort ε → Prop}
    {spared : NamedTree κ α → Prop}
    (hvisit : ∀ node tree, Program.Accounts rel fails spared (visit node) tree)
    (hfuel : ¬ fails .outOfFuel) (fuel : ℕ) :
    (∀ node tree, Program.Accounts rel fails spared (traverse visit fuel node) tree) ∧
      ∀ node index tree, Program.Accounts rel fails spared
        (visitChildren visit fuel node index) tree := by
  induction fuel with
  | zero =>
      have hzero (tree : NamedTree κ α) :
          Program.Accounts rel fails spared (Program.abort .outOfFuel) tree := by
        refine ⟨fun after hrun => ?_, fun reason after hrun hfails => ?_⟩
        · cases hrun
        · cases hrun
          exact absurd hfails hfuel
      exact ⟨fun _ => hzero, fun _ _ => hzero⟩
  | succ fuel ih =>
      refine ⟨fun node tree => ?_, fun node index tree => ?_⟩
      · exact .bind_or htrans (hvisit node tree) fun _ after _ => ih.2 node 0 after
      · have hread : (Program.get : Program (NamedTree κ α) ε _).run tree = (.ok tree, tree) := rfl
        refine .bind htrans (fun read after hrun => ?_) fun reason after hrun => by cases hrun
        obtain ⟨hread, rfl⟩ := Prod.mk.inj hrun
        refine ⟨hrefl _, ?_⟩
        split
        · exact .pure_false hrefl
        next name _ =>
          exact .bind_or htrans (ih.1 (node ++ [name]) _) fun _ after _ =>
            ih.2 node (index + 1) after

/-- In a run from one tree to another a node is visited, with a report that
counts; what comes before and after the visit keeps the relation. -/
def Visits (rel : NamedTree κ α → NamedTree κ α → Prop) (counts : Bool → Prop)
    (visit : List κ → Program (NamedTree κ α) ε Bool) (path : List κ)
    (tree after : NamedTree κ α) : Prop :=
  ∃ before reported later, rel tree before ∧ counts reported ∧
    (visit path).run before = (.ok reported, later) ∧ rel later after

/-- A traversal that is done keeps what its visits keep, and has visited every
node that was there. The reports of interest are those that count, and with a
report of the whole every part of it counts. -/
theorem visits_of_traverse {rel : NamedTree κ α → NamedTree κ α → Prop}
    (hrefl : ∀ tree, rel tree tree)
    (htrans : ∀ ⦃first second third⦄, rel first second → rel second third → rel first third)
    (counts : Bool → Prop) (hcounts : ∀ first later, counts (first || later) →
      counts first ∧ counts later)
    {visit : List κ → Program (NamedTree κ α) ε Bool} (root : List κ)
    (hgrow : ∀ node, Program.Relates Grows (visit node))
    (hvisit : ∀ node tree reported after, root <+: node → counts reported →
      (visit node).run tree = (.ok reported, after) → rel tree after) (fuel : ℕ) :
    (∀ node tree reported after, root <+: node → counts reported →
      (traverse visit fuel node).run tree = (.ok reported, after) →
        rel tree after ∧ ∀ path, node <+: path → (tree.value? path).isSome = true →
          Visits rel counts visit path tree after) ∧
    ∀ node index tree reported after, root <+: node → counts reported →
      (visitChildren visit fuel node index).run tree = (.ok reported, after) →
        rel tree after ∧ ∀ later name path, index ≤ later →
          (tree.childNames node)[later]? = some name → node ++ [name] <+: path →
          (tree.value? path).isSome = true → Visits rel counts visit path tree after := by
  induction fuel with
  | zero =>
      apply And.intro
      · intro node tree reported after _ _ hrun
        cases hrun
      · intro node index tree reported after _ _ hrun
        cases hrun
  | succ fuel ih =>
      obtain ⟨ihtraverse, ihchildren⟩ := ih
      apply And.intro
      · intro node tree reported after hroot hreported hrun
        obtain ⟨first, middle, hfirst, hrest⟩ := Program.run_bind_eq_ok_iff.mp hrun
        obtain ⟨below, final, hbelow, hpure⟩ := Program.run_bind_eq_ok_iff.mp hrest
        cases hpure
        obtain ⟨hcount, hcount'⟩ := hcounts first below hreported
        have hnode := hvisit node tree first middle hroot hcount hfirst
        obtain ⟨hchildren, hvisited⟩ := ihchildren node 0 middle below after hroot hcount' hbelow
        refine ⟨htrans hnode hchildren, fun path hpath hthere => ?_⟩
        obtain ⟨rest, rfl⟩ := hpath
        rcases rest with _ | ⟨name, rest⟩
        · rw [List.append_nil]
          exact ⟨tree, first, middle, hrefl tree, hcount, hfirst, hchildren⟩
        · have hmiddle : tree.Grows middle := by simpa [hfirst] using hgrow node tree
          have hthere' := hmiddle.isSome_value? hthere
          have hmem : name ∈ middle.childNames node := by
            rw [← isSome_value?_concat]
            exact middle.isSome_value?_of_above ⟨rest, by simp⟩ hthere'
          obtain ⟨before, visited, later, hbefore, hrest⟩ := hvisited _ name (node ++ name :: rest)
            (Nat.zero_le _) (List.getElem?_idxOf hmem) ⟨rest, by simp⟩ hthere'
          exact ⟨before, visited, later, htrans hnode hbefore, hrest⟩
      · intro node index tree reported after hroot hreported hrun
        have hread : (Program.get : Program (NamedTree κ α) ε _).run tree = (.ok tree, tree) := rfl
        rw [visitChildren, Program.run_bind_of_ok hread] at hrun
        cases hnext : (tree.childNames node)[index]? with
        | none =>
            simp only [hnext] at hrun
            cases hrun
            refine ⟨hrefl tree, fun later name path hlater hname => ?_⟩
            have hlt := (List.getElem?_eq_some_iff.mp hname).1
            have hge := List.getElem?_eq_none_iff.mp hnext
            omega
        | some next =>
            simp only [hnext] at hrun
            obtain ⟨first, middle, hfirst, hrest⟩ := Program.run_bind_eq_ok_iff.mp hrun
            obtain ⟨others, final, hothers, hpure⟩ := Program.run_bind_eq_ok_iff.mp hrest
            cases hpure
            obtain ⟨hcount, hcount'⟩ := hcounts first others hreported
            have hroot' := hroot.trans (List.prefix_append node [next])
            obtain ⟨hchild, hinside⟩ :=
              ihtraverse (node ++ [next]) tree first middle hroot' hcount hfirst
            obtain ⟨hchildren, hvisited⟩ :=
              ihchildren node (index + 1) middle others after hroot hcount' hothers
            refine ⟨htrans hchild hchildren, fun later name path hlater hname hpath hthere => ?_⟩
            rcases Nat.eq_or_lt_of_le hlater with rfl | hlt
            · obtain rfl : next = name := Option.some.inj (hnext.symm.trans hname)
              obtain ⟨before, visited, later, hbefore, hcount, hrun, hafter⟩ :=
                hinside path hpath hthere
              exact ⟨before, visited, later, hbefore, hcount, hrun, htrans hafter hchildren⟩
            · have hmiddle : tree.Grows middle := by
                simpa [hfirst] using
                  (relates_traverse Grows.refl Grows.trans hgrow fuel).1 (node ++ [next]) tree
              have hname' : (middle.childNames node)[later]? = some name := by
                obtain ⟨rest, hrest⟩ := hmiddle node
                rw [← hrest, List.getElem?_append_left (List.getElem?_eq_some_iff.mp hname).1,
                  hname]
              obtain ⟨before, visited, later, hbefore, hrest⟩ :=
                hvisited later name path hlt hname' hpath (hmiddle.isSome_value? hthere)
              exact ⟨before, visited, later, htrans hchild hbefore, hrest⟩

/-- A traversal that reports no change has visited every node that was there, and
no visit has reported a change. -/
theorem visited_of_traverse {rel : NamedTree κ α → NamedTree κ α → Prop}
    (hrefl : ∀ tree, rel tree tree)
    (htrans : ∀ ⦃first second third⦄, rel first second → rel second third → rel first third)
    {visit : List κ → Program (NamedTree κ α) ε Bool}
    (hgrow : ∀ node, Program.Relates Grows (visit node))
    (hvisit : ∀ node tree after, (visit node).run tree = (.ok false, after) → rel tree after)
    (fuel : ℕ) :
    (∀ node tree after, (traverse visit fuel node).run tree = (.ok false, after) →
      ∀ path, node <+: path → (tree.value? path).isSome = true →
        ∃ before later, rel tree before ∧ (visit path).run before = (.ok false, later)) ∧
    ∀ node index tree after, (visitChildren visit fuel node index).run tree = (.ok false, after) →
      ∀ later name path, index ≤ later → (tree.childNames node)[later]? = some name →
        node ++ [name] <+: path → (tree.value? path).isSome = true →
        ∃ before later, rel tree before ∧ (visit path).run before = (.ok false, later) := by
  have hvisit' (node : List κ) (tree : NamedTree κ α) (reported : Bool) (after : NamedTree κ α)
      (_ : [] <+: node) (hreported : reported = false)
      (hrun : (visit node).run tree = (.ok reported, after)) : rel tree after := by
    rw [hreported] at hrun
    exact hvisit node tree after hrun
  have hsilent {path : List κ} {tree after : NamedTree κ α}
      (h : Visits rel (· = false) visit path tree after) :
      ∃ before later, rel tree before ∧ (visit path).run before = (.ok false, later) := by
    obtain ⟨before, _, later, hbefore, rfl, hvisited, _⟩ := h
    exact ⟨before, later, hbefore, hvisited⟩
  obtain ⟨htraverse, hchildren⟩ := visits_of_traverse hrefl htrans (· = false) (by simp) [] hgrow
    hvisit' fuel
  apply And.intro
  · intro node tree after hrun path hpath hthere
    exact hsilent ((htraverse node tree false after List.nil_prefix rfl hrun).2 path hpath hthere)
  · intro node index tree after hrun later name path hlater hname hpath hthere
    exact hsilent ((hchildren node index tree false after List.nil_prefix rfl hrun).2 later name
      path hlater hname hpath hthere)

section Fuel

variable (visit : List κ → Program (NamedTree κ α) ε Bool)

theorem approx_traverse (fuel : ℕ) : ∀ more, fuel ≤ more →
    (∀ node, Program.Approx (traverse visit fuel node) (traverse visit more node)) ∧
      ∀ node index,
        Program.Approx (visitChildren visit fuel node index)
          (visitChildren visit more node index) := by
  induction fuel with
  | zero => exact fun more _ => ⟨fun _ => .outOfFuel _, fun _ _ => .outOfFuel _⟩
  | succ fuel ih =>
      intro more hle
      obtain ⟨more, rfl⟩ := Nat.exists_eq_succ_of_ne_zero (Nat.ne_zero_of_lt hle)
      obtain ⟨htraverse, hchildren⟩ := ih more (Nat.le_of_succ_le_succ hle)
      refine ⟨fun node => ?_, fun node index => ?_⟩
      · rw [traverse, traverse]
        exact (Program.Approx.refl _).bind fun _ => (hchildren node 0).bind fun _ => .refl _
      · rw [visitChildren, visitChildren]
        refine (Program.Approx.refl _).bind fun tree => ?_
        cases (tree.childNames node)[index]? with
        | none => exact .refl _
        | some name =>
            exact (htraverse (node ++ [name])).bind fun _ =>
              (hchildren node (index + 1)).bind fun _ => .refl _

theorem fuelMonotone_traverse (node : List κ) :
    Program.FuelMonotone fun fuel => traverse visit fuel node :=
  fun fuel more hle => (approx_traverse visit fuel more hle).1 node

end Fuel

/-- From one tree to another during visits of nodes in `visited`, in a traversal
that started on `base`: what is new is expected or has been passed. -/
structure Advance (base : NamedTree κ α) (Expected : List κ → α → Prop) (visited : List κ → Prop)
    (before after : NamedTree κ α) : Prop where
  grows : before.Grows after
  new : ∀ path value, after.value? path = some value →
    before.value? path = some value ∨ Expected path value ∨
      ∃ node, visited node ∧ base.Passed node path

namespace Advance

variable {base first second third : NamedTree κ α} {Expected : List κ → α → Prop}
  {visited wider : List κ → Prop}

theorem refl (tree : NamedTree κ α) : Advance base Expected visited tree tree :=
  ⟨.refl tree, fun _ _ h => .inl h⟩

theorem trans (h : Advance base Expected visited first second)
    (h' : Advance base Expected visited second third) :
    Advance base Expected visited first third := by
  refine ⟨h.grows.trans h'.grows, fun path value hvalue => ?_⟩
  rcases h'.new path value hvalue with hold | hnew
  · exact h.new path value hold
  · exact .inr hnew

theorem mono (himp : ∀ node, visited node → wider node)
    (h : Advance base Expected visited first second) :
    Advance base Expected wider first second := by
  refine ⟨h.grows, fun path value hvalue => ?_⟩
  rcases h.new path value hvalue with hold | hexpected | ⟨node, hnode, hpassed⟩
  · exact .inl hold
  · exact .inr (.inl hexpected)
  · exact .inr (.inr ⟨node, himp node hnode, hpassed⟩)

end Advance

/-! ## What holds during a traversal -/

/-- What a visit of an expected node does: it only adds what is expected or has
been passed, and does not end with a reason in `fails`. The nodes in `stops` end
the traversal. -/
structure VisitRule (visit : List κ → Program (NamedTree κ α) ε Bool) (base : NamedTree κ α)
    (Expected : List κ → α → Prop) (stops : List κ → Prop) (fails : Abort ε → Prop)
    (root : List κ) : Prop where
  advance : ∀ {tree : NamedTree κ α} {node : List κ} {value : α}, root <+: node →
    base.ComesTo stops node → base.Grows tree → tree.value? node = some value →
    Expected node value → Advance base Expected (· = node) tree ((visit node).run tree).2
  avoids : ∀ {tree : NamedTree κ α} {node : List κ} {value : α}, root <+: node → base.Grows tree →
    tree.value? node = some value → Expected node value →
    ∀ {reason}, ((visit node).run tree).1 = .error reason → ¬ fails reason
  halts : ∀ {tree : NamedTree κ α} {node : List κ} {value : α}, root <+: node → base.Grows tree →
    tree.value? node = some value → Expected node value → stops node →
    ∀ reported after, (visit node).run tree ≠ (.ok reported, after)
  known : ∀ {node : List κ}, stops node → (base.value? node).isSome = true

/-- Fuel for a traversal within a finite set of nodes. -/
def traverseFuel (nodes : Finset (List κ)) (node : List κ) : ℕ :=
  (nodes.sup List.length + 1 - node.length) * (nodes.card + 3)

def childrenFuel (nodes : Finset (List κ)) (node : List κ) (index : ℕ) : ℕ :=
  (nodes.sup List.length - node.length) * (nodes.card + 3) + (nodes.card - index) + 2

section Rule

variable (visit : List κ → Program (NamedTree κ α) ε Bool) (base : NamedTree κ α)
  (Expected : List κ → α → Prop) (stops : List κ → Prop) (fails : Abort ε → Prop) (root : List κ)
  (nodes : Finset (List κ))

/-- The rule for the traversal from a node that it comes to, below which everything
is expected. When it is done, there is nothing below the node that ends it. -/
def TraverseRule (fuel : ℕ) : Prop :=
  ∀ (node : List κ) (tree : NamedTree κ α), root <+: node → base.ComesTo stops node →
    base.Grows tree → (tree.value? node).isSome = true →
    (∀ path value, node <+: path → tree.value? path = some value → Expected path value) →
    (fails .outOfFuel → traverseFuel nodes node ≤ fuel) →
    Advance base Expected (node <+: ·) tree ((traverse visit fuel node).run tree).2 ∧
      (∀ reason, ((traverse visit fuel node).run tree).1 = .error reason → ¬ fails reason) ∧
      ∀ reported after, (traverse visit fuel node).run tree = (.ok reported, after) →
        ∀ stop, stops stop → ¬ node <+: stop

/-- The rule for the children from an index on, below which everything is expected. -/
def ChildrenRule (fuel : ℕ) : Prop :=
  ∀ (node : List κ) (index : ℕ) (tree : NamedTree κ α), root <+: node →
    base.ComesTo stops node → ¬ stops node →
    (∀ other ∈ (tree.childNames node).take index, ∀ stop, stops stop →
      ¬ node ++ [other] <+: stop) →
    base.Grows tree → (tree.value? node).isSome = true →
    (∀ later name path value, index ≤ later → (tree.childNames node)[later]? = some name →
      node ++ [name] <+: path → tree.value? path = some value → Expected path value) →
    (fails .outOfFuel → childrenFuel nodes node index ≤ fuel ∧
      ∀ name ∈ (tree.childNames node).take index, node ++ [name] ∈ nodes) →
    Advance base Expected (node <+: ·) tree ((visitChildren visit fuel node index).run tree).2 ∧
      (∀ reason, ((visitChildren visit fuel node index).run tree).1 = .error reason →
        ¬ fails reason) ∧
      ∀ reported after, (visitChildren visit fuel node index).run tree = (.ok reported, after) →
        ∀ stop, stops stop → ∀ name, ¬ node ++ [name] <+: stop

variable {visit base Expected stops fails root nodes}

theorem TraverseRule.zero (hnodes : fails .outOfFuel →
      ∀ path value, root <+: path → Expected path value → path ∈ nodes) :
    TraverseRule visit base Expected stops fails root nodes 0 := by
  intro node tree hroot _ _ hexists hexpected hfuel
  refine ⟨.refl tree, ?_, fun reported after hrun => by cases hrun⟩
  rintro reason hreason hfails
  cases hreason
  obtain ⟨value, hvalue⟩ := Option.isSome_iff_exists.mp hexists
  have hmem := hnodes hfails node value hroot (hexpected node value List.prefix_rfl hvalue)
  have hlength : node.length ≤ nodes.sup List.length := Finset.le_sup (f := List.length) hmem
  have hpos : 0 < traverseFuel nodes node := Nat.mul_pos (by omega) (by omega)
  exact absurd (hfuel hfails) (by omega)

theorem ChildrenRule.zero : ChildrenRule visit base Expected stops fails root nodes 0 := by
  intro node index tree _ _ _ _ _ _ _ hfuel
  refine ⟨.refl tree, ?_, fun reported after hrun => by cases hrun⟩
  rintro reason hreason hfails
  cases hreason
  exact absurd (hfuel hfails).1 (by simp [childrenFuel])

theorem TraverseRule.succ {fuel : ℕ} (hvisit : VisitRule visit base Expected stops fails root)
    (hnodes : fails .outOfFuel →
      ∀ path value, root <+: path → Expected path value → path ∈ nodes)
    (hchildren : ChildrenRule visit base Expected stops fails root nodes fuel) :
    TraverseRule visit base Expected stops fails root nodes (fuel + 1) := by
  intro node tree hroot hcomes hgrows hexists hexpected hfuel
  obtain ⟨value, hvalue⟩ := Option.isSome_iff_exists.mp hexists
  have hhere := hexpected node value List.prefix_rfl hvalue
  have hadvance := hvisit.advance hroot hcomes hgrows hvalue hhere
  have havoids : ∀ reason, ((visit node).run tree).1 = .error reason → ¬ fails reason :=
    fun _ => hvisit.avoids hroot hgrows hvalue hhere
  have hself : ∀ other, other = node → node <+: other := fun _ h => h ▸ List.prefix_rfl
  rcases hrun : (visit node).run tree with ⟨reason | changed, middle⟩
  · rw [traverse, Program.run_bind_of_error hrun]
    rw [hrun] at hadvance havoids
    exact ⟨hadvance.mono hself, havoids, fun _ _ hok => by cases hok⟩
  · rw [hrun] at hadvance
    have hnode : ¬ stops node := fun hstop => hvisit.halts hroot hgrows hvalue hhere hstop _ _ hrun
    have hmiddle : base.Grows middle := hgrows.trans hadvance.grows
    have hbelow : ∀ name path value, node ++ [name] <+: path → middle.value? path = some value →
        Expected path value := by
      intro name path new hpath hnew
      rcases hadvance.new path new hnew with hold | hexpected' | ⟨_, rfl, hpassed⟩
      · exact hexpected path new ((List.prefix_append _ _).trans hpath) hold
      · exact hexpected'
      · exact absurd hpath (hpassed.not_below name)
    have hlength : fails .outOfFuel → node.length ≤ nodes.sup List.length := fun hfails =>
      Finset.le_sup (f := List.length) (hnodes hfails node value hroot hhere)
    have henough : fails .outOfFuel → childrenFuel nodes node 0 ≤ fuel := by
      intro hfails
      have hbound := hfuel hfails
      have hdepth : nodes.sup List.length + 1 - node.length =
          nodes.sup List.length - node.length + 1 := by
        have := hlength hfails
        omega
      rw [traverseFuel, hdepth, Nat.add_mul] at hbound
      rw [childrenFuel]
      omega
    obtain ⟨hrest, hends, hdone⟩ := hchildren node 0 middle hroot hcomes hnode (by simp) hmiddle
      (hadvance.grows.isSome_value? hexists)
      (fun _ name path value _ _ hpath => hbelow name path value hpath)
      (fun hfails => ⟨henough hfails, by simp⟩)
    have htotal := (hadvance.mono hself).trans hrest
    rw [traverse, Program.run_bind_of_ok hrun]
    rcases hrun' : (visitChildren visit fuel node 0).run middle with ⟨reason | below, after⟩
    · rw [hrun'] at htotal hends
      rw [Program.run_bind_of_error hrun']
      exact ⟨htotal, hends, fun _ _ hok => by cases hok⟩
    · rw [hrun'] at htotal
      rw [Program.run_bind_of_ok hrun']
      refine ⟨htotal, by simp, fun _ _ _ stop hstop hbelow => ?_⟩
      obtain ⟨rest, rfl⟩ := hbelow
      rcases rest with _ | ⟨name, rest⟩
      · exact hnode (by simpa using hstop)
      · exact hdone _ _ hrun' _ hstop name ⟨rest, by simp⟩

omit [DecidableEq κ] in
/-- As many nodes as the children up to an index. -/
theorem lt_card_of_children [DecidableEq κ] {node names : List κ} {name : κ} {index : ℕ}
    (hnodup : names.Nodup) (hname : names[index]? = some name)
    (hmem : ∀ other ∈ names.take (index + 1), node ++ [other] ∈ nodes) : index < nodes.card := by
  have hlt : index < names.length := (List.getElem?_eq_some_iff.mp hname).1
  have hinj : Function.Injective fun other : κ => node ++ [other] :=
    fun _ _ h => by simpa using h
  have hpaths : (((names.take (index + 1)).map fun other => node ++ [other]).toFinset).card =
      index + 1 := by
    rw [List.toFinset_card_of_nodup ((hnodup.sublist (List.take_sublist _ _)).map hinj),
      List.length_map, List.length_take]
    omega
  have hsubset : ((names.take (index + 1)).map fun other => node ++ [other]).toFinset ⊆ nodes := by
    intro path hpath
    obtain ⟨other, hother, rfl⟩ := List.mem_map.mp (List.mem_toFinset.mp hpath)
    exact hmem other hother
  have hle := Finset.card_le_card hsubset
  omega

omit [DecidableEq κ] in
theorem idxOf_eq_of_getElem? [DecidableEq κ] {names : List κ} {name : κ} {index : ℕ}
    (hnodup : names.Nodup) (hname : names[index]? = some name) : names.idxOf name = index := by
  obtain ⟨hlt, rfl⟩ := List.getElem?_eq_some_iff.mp hname
  exact hnodup.idxOf_getElem index hlt

/-- While one child was traversed, only what is expected was added below the
children that come after it. -/
theorem expected_after_child {tree middle : NamedTree κ α} {node : List κ} {name : κ} {index : ℕ}
    (hbase : base.Grows middle)
    (hadvance : Advance base Expected (node ++ [name] <+: ·) tree middle)
    (hname : (tree.childNames node)[index]? = some name)
    (hexpected : ∀ later other path value, index ≤ later →
      (tree.childNames node)[later]? = some other → node ++ [other] <+: path →
      tree.value? path = some value → Expected path value)
    (later : ℕ) (other : κ) (path : List κ) (value : α) (hlater : index + 1 ≤ later)
    (hother : (middle.childNames node)[later]? = some other) (hpath : node ++ [other] <+: path)
    (hvalue : middle.value? path = some value) : Expected path value := by
  have hbegins := hadvance.grows node
  have hnodup := middle.nodup_childNames node
  have hfirst : (middle.childNames node)[index]? = some name := by
    obtain ⟨rest, hrest⟩ := hbegins
    rw [← hrest, List.getElem?_append_left (List.getElem?_eq_some_iff.mp hname).1, hname]
  have hposition := idxOf_eq_of_getElem? hnodup hother
  have hposition' := idxOf_eq_of_getElem? hnodup hfirst
  rcases hadvance.new path value hvalue with hold | hnew | ⟨current, hcurrent, hpassed⟩
  · have hmem : other ∈ tree.childNames node := by
      rw [← isSome_value?_concat]
      exact tree.isSome_value?_of_above hpath (by rw [hold]; rfl)
    refine hexpected later other path value (Nat.le_of_succ_le hlater) ?_ hpath hold
    obtain ⟨rest, hrest⟩ := hbegins
    have hold' : (tree.childNames node).idxOf other = later := by
      rwa [← hrest, List.idxOf_append, if_pos hmem] at hposition
    rw [← hold', List.getElem?_idxOf hmem]
  · exact hnew
  · have hne : other ≠ name := by
      rintro rfl
      omega
    have hprecedes := (hpassed.precedes hcurrent hpath hne).extend (hbase node)
    rw [Precedes, hposition, hposition'] at hprecedes
    omega

theorem ChildrenRule.succ {fuel : ℕ}
    (hnodes : fails .outOfFuel →
      ∀ path value, root <+: path → Expected path value → path ∈ nodes)
    (hknown : ∀ {node : List κ}, stops node → (base.value? node).isSome = true)
    (htraverse : TraverseRule visit base Expected stops fails root nodes fuel)
    (hchildren : ChildrenRule visit base Expected stops fails root nodes fuel) :
    ChildrenRule visit base Expected stops fails root nodes (fuel + 1) := by
  intro node index tree hroot hcomes hnode hearlier hgrows hexists hexpected hfuel
  have hread : (Program.get : Program (NamedTree κ α) ε _).run tree = (.ok tree, tree) := rfl
  rw [visitChildren, Program.run_bind_of_ok hread]
  cases hname : (tree.childNames node)[index]? with
  | none =>
      refine ⟨.refl tree, by simp, fun _ _ _ stop hstop name hbelow => ?_⟩
      have hthere := base.isSome_value?_of_above hbelow (hknown hstop)
      rw [isSome_value?_concat] at hthere
      have hlength := List.getElem?_eq_none_iff.mp hname
      refine hearlier name ?_ stop hstop hbelow
      rw [List.take_of_length_le hlength]
      exact (hgrows node).subset hthere
  | some name =>
      have hchild : (tree.value? (node ++ [name])).isSome = true := by
        rw [isSome_value?_concat]
        exact List.mem_of_getElem? hname
      have hcomes' := hcomes.child hnode hgrows hname hearlier
      have hinside : ∀ path value, node ++ [name] <+: path → tree.value? path = some value →
          Expected path value := fun path value => hexpected index name path value le_rfl hname
      have hdone : fails .outOfFuel →
          ∀ other ∈ (tree.childNames node).take (index + 1), node ++ [other] ∈ nodes := by
        intro hfails other hother
        rw [List.take_add_one, hname, Option.toList_some, List.mem_append, List.mem_singleton]
          at hother
        rcases hother with hother | rfl
        · exact (hfuel hfails).2 other hother
        · obtain ⟨value, hvalue⟩ := Option.isSome_iff_exists.mp hchild
          exact hnodes hfails _ value (hroot.trans (List.prefix_append _ _))
            (hinside _ value List.prefix_rfl hvalue)
      have hwithin : ∀ other, node ++ [name] <+: other → node <+: other :=
        fun _ h => (List.prefix_append _ _).trans h
      have henough : fails .outOfFuel → traverseFuel nodes (node ++ [name]) ≤ fuel := by
        intro hfails
        have hbound := (hfuel hfails).1
        simp only [traverseFuel, childrenFuel, List.length_append, List.length_singleton,
          Nat.add_sub_add_right] at hbound ⊢
        omega
      obtain ⟨hfirst, havoids, hchildDone⟩ := htraverse (node ++ [name]) tree
        (hroot.trans (List.prefix_append _ _)) hcomes' hgrows hchild hinside henough
      rcases hrun : (traverse visit fuel (node ++ [name])).run tree with ⟨reason | changed, middle⟩
      · rw [hrun] at hfirst havoids
        simp only
        rw [Program.run_bind_of_error hrun]
        exact ⟨hfirst.mono hwithin, havoids, fun _ _ hok => by cases hok⟩
      · rw [hrun] at hfirst
        have hbase : base.Grows middle := hgrows.trans hfirst.grows
        have hsame : (middle.childNames node).take (index + 1) =
            (tree.childNames node).take (index + 1) := by
          obtain ⟨rest, hrest⟩ := hfirst.grows node
          rw [← hrest, List.take_append_of_le_length (List.getElem?_eq_some_iff.mp hname).1]
        have hearlier' : ∀ other ∈ (middle.childNames node).take (index + 1), ∀ stop, stops stop →
            ¬ node ++ [other] <+: stop := by
          intro other hother stop hstop
          rw [hsame, List.take_add_one, hname, Option.toList_some, List.mem_append,
            List.mem_singleton] at hother
          rcases hother with hother | rfl
          · exact hearlier other hother stop hstop
          · exact hchildDone _ _ hrun stop hstop
        obtain ⟨hrest, hends, hlast⟩ :=
          hchildren node (index + 1) middle hroot hcomes hnode hearlier'
          hbase (hfirst.grows.isSome_value? hexists)
          (expected_after_child hbase hfirst hname hexpected)
          (fun hfails => by
            have hbound := (hfuel hfails).1
            have hlt := lt_card_of_children (tree.nodup_childNames node) hname (hdone hfails)
            rw [hsame]
            refine ⟨?_, hdone hfails⟩
            simp only [childrenFuel] at hbound ⊢
            omega)
        have htotal := (hfirst.mono hwithin).trans hrest
        simp only
        rw [Program.run_bind_of_ok hrun]
        rcases hrun' : (visitChildren visit fuel node (index + 1)).run middle with
          ⟨reason | later, after⟩
        · rw [hrun'] at htotal hends
          rw [Program.run_bind_of_error hrun']
          exact ⟨htotal, hends, fun _ _ hok => by cases hok⟩
        · rw [hrun'] at htotal
          rw [Program.run_bind_of_ok hrun']
          exact ⟨htotal, by simp, fun _ _ _ => hlast _ _ hrun'⟩

/-- Every visit during a traversal is of an expected node. The traversal only
ends with a reason in `fails` if a visit does; when running out of fuel is such
a reason, the fuel has to be enough for the finitely many expected nodes. -/
theorem VisitRule.traverse (hvisit : VisitRule visit base Expected stops fails root)
    (hnodes : fails .outOfFuel →
      ∀ path value, root <+: path → Expected path value → path ∈ nodes) (fuel : ℕ) :
    TraverseRule visit base Expected stops fails root nodes fuel := by
  suffices h : TraverseRule visit base Expected stops fails root nodes fuel ∧
      ChildrenRule visit base Expected stops fails root nodes fuel from h.1
  induction fuel with
  | zero => exact ⟨.zero hnodes, .zero⟩
  | succ fuel ih => exact ⟨.succ hvisit hnodes ih.2, .succ hnodes hvisit.known ih.1 ih.2⟩

/-- When running out of fuel does not count, any fuel will do. -/
theorem VisitRule.traverse_of_fuel_spared (hvisit : VisitRule visit base Expected stops fails root)
    (hspared : ¬ fails .outOfFuel) (fuel : ℕ) (node : List κ) (tree : NamedTree κ α)
    (hroot : root <+: node) (hcomes : base.ComesTo stops node) (hgrows : base.Grows tree)
    (hexists : (tree.value? node).isSome = true)
    (hexpected : ∀ path value, node <+: path → tree.value? path = some value →
      Expected path value) :
    Advance base Expected (node <+: ·) tree ((NamedTree.traverse visit fuel node).run tree).2 ∧
      ∀ reason, ((NamedTree.traverse visit fuel node).run tree).1 = .error reason →
        ¬ fails reason := by
  have hrule : TraverseRule visit base Expected stops fails root ∅ fuel :=
    hvisit.traverse (fun h => absurd h hspared) fuel
  obtain ⟨hadvance, havoids, _⟩ :=
    hrule node tree hroot hcomes hgrows hexists hexpected fun h => absurd h hspared
  exact ⟨hadvance, havoids⟩

/-- A traversal never ends when every visit of a marked node leaves a marked node
below that one. -/
theorem traverse_outOfFuel
    (hvisit : VisitRule visit base (fun _ _ => True) (fun _ => False) (· ≠ .outOfFuel) root)
    (hgrow : ∀ node, Program.Relates Grows (visit node)) {Marked : NamedTree κ α → List κ → Prop}
    (hexists : ∀ {tree node}, Marked tree node → (tree.value? node).isSome = true)
    (hkeep : ∀ node, Program.Relates (fun before after => ∀ marked, Marked before marked →
      Marked after marked) (visit node))
    (hseed : ∀ {tree node}, root <+: node → base.Grows tree → Marked tree node →
      ∃ name marked, node ++ [name] <+: marked ∧ Marked ((visit node).run tree).2 marked)
    (fuel : ℕ) :
    (∀ node tree, root <+: node → base.Grows tree →
      (∃ marked, node <+: marked ∧ Marked tree marked) →
      ((traverse visit fuel node).run tree).1 = .error .outOfFuel) ∧
    ∀ node index tree, root <+: node → base.Grows tree →
      (∃ later name marked, index ≤ later ∧ (tree.childNames node)[later]? = some name ∧
        node ++ [name] <+: marked ∧ Marked tree marked) →
      ((visitChildren visit fuel node index).run tree).1 = .error .outOfFuel := by
  induction fuel with
  | zero => exact ⟨fun _ _ _ _ _ => rfl, fun _ _ _ _ _ _ => rfl⟩
  | succ fuel ih =>
      constructor
      · rintro node tree hroot hgrows ⟨marked, hbelow, hmarked⟩
        have hnode := tree.isSome_value?_of_above hbelow (hexists hmarked)
        obtain ⟨value, hvalue⟩ := Option.isSome_iff_exists.mp hnode
        rcases hrun : (visit node).run tree with ⟨reason | changed, middle⟩
        · have hreason : ((visit node).run tree).1 = .error reason := by rw [hrun]
          have havoids := hvisit.avoids hroot hgrows hvalue trivial hreason
          rw [traverse, Program.run_bind_of_error hrun, not_not.mp havoids]
        · have hmiddle : tree.Grows middle := by simpa [hrun] using hgrow node tree
          obtain ⟨name, below, hname, hbelow'⟩ :
              ∃ name below, node ++ [name] <+: below ∧ Marked middle below := by
            obtain ⟨rest, rfl⟩ := hbelow
            rcases rest with _ | ⟨name, rest⟩
            · simpa [hrun] using hseed hroot hgrows (by simpa using hmarked)
            · exact ⟨name, node ++ name :: rest, ⟨rest, by simp⟩,
                by simpa [hrun] using hkeep node tree _ hmarked⟩
          have hmem : name ∈ middle.childNames node := by
            rw [← isSome_value?_concat]
            exact middle.isSome_value?_of_above hname (hexists hbelow')
          rw [traverse, Program.run_bind_of_ok hrun]
          exact Program.fst_run_bind_of_error (ih.2 node 0 middle hroot (hgrows.trans hmiddle)
            ⟨_, name, below, Nat.zero_le _, List.getElem?_idxOf hmem, hname, hbelow'⟩)
      · rintro node index tree hroot hgrows ⟨later, name, marked, hlater, hname, hbelow, hmarked⟩
        have hread : (Program.get : Program (NamedTree κ α) ε _).run tree = (.ok tree, tree) := rfl
        have hlt : index < (tree.childNames node).length :=
          hlater.trans_lt (List.getElem?_eq_some_iff.mp hname).1
        have hfirst := List.getElem?_eq_getElem hlt
        generalize (tree.childNames node)[index] = first at hfirst
        have hchild : (tree.value? (node ++ [first])).isSome = true := by
          rw [isSome_value?_concat]
          exact List.mem_of_getElem? hfirst
        have hinside : root <+: node ++ [first] := hroot.trans (List.prefix_append _ _)
        have hends : ((traverse visit fuel (node ++ [first])).run tree).1 = .error .outOfFuel ∨
            ∃ changed middle, (traverse visit fuel (node ++ [first])).run tree =
              (.ok changed, middle) ∧ tree.Grows middle ∧ Marked middle marked := by
          rcases hrun :
            (traverse visit fuel (node ++ [first])).run tree with ⟨reason | changed, middle⟩
          · have havoids := (hvisit.traverse_of_fuel_spared (by simp) fuel _ tree hinside
              (fun _ h => h.elim) hgrows hchild fun _ _ _ _ => trivial).2 reason (by rw [hrun])
            exact .inl (congrArg Except.error (not_not.mp havoids))
          · have hgrow' :=
              (relates_traverse Grows.refl Grows.trans hgrow fuel).1 (node ++ [first]) tree
            have hkeep' := (relates_traverse (fun _ _ h => h)
              (fun _ _ _ h h' marked hmarked => h' marked (h marked hmarked)) hkeep fuel).1
              (node ++ [first]) tree
            rw [hrun] at hgrow' hkeep'
            exact .inr ⟨changed, middle, rfl, hgrow', hkeep' marked hmarked⟩
        rw [visitChildren, Program.run_bind_of_ok hread]
        simp only [hfirst]
        rcases hends with hends | ⟨changed, middle, hrun, hmiddle, hmarked'⟩
        · exact Program.fst_run_bind_of_error hends
        · have hahead : index ≠ later := by
            rintro rfl
            obtain rfl : first = name := Option.some.inj (hfirst.symm.trans hname)
            have hbelow' := ih.1 (node ++ [first]) tree hinside hgrows ⟨marked, hbelow, hmarked⟩
            simp [hrun] at hbelow'
          have hname' : (middle.childNames node)[later]? = some name := by
            obtain ⟨rest, hrest⟩ := hmiddle node
            rw [← hrest, List.getElem?_append_left (List.getElem?_eq_some_iff.mp hname).1, hname]
          rw [Program.run_bind_of_ok hrun]
          exact Program.fst_run_bind_of_error (ih.2 node (index + 1) middle hroot
            (hgrows.trans hmiddle) ⟨later, name, marked, by omega, hname', hbelow, hmarked'⟩)

end Rule

end Traversal

end NamedTree
end OSVR.Math
