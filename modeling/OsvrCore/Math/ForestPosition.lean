/-
# Positions in a forest

A node is an object of its own, whatever its name is, and is identified by its
position: its index among the siblings at each level. Nodes are only added after
their siblings, so the positions of the others stay what they were. That names
identify nodes is then a property of a forest and not a convention.
-/

import OsvrCore.Math.NamedForest

set_option autoImplicit false

namespace OSVR.Math

universe u v w

namespace Forest

variable {κ : Type u} {ι : Type w} {α : Type v}

/-- How many nodes there are. -/
def numNodes : Forest κ α → ℕ
  | nil => 0
  | cons _ _ children rest => 1 + children.numNodes + rest.numNodes

/-- The names on the way to a position, if there is a node. -/
def namesTo : Forest κ α → List ℕ → Option (List κ)
  | _, [] => some []
  | nil, _ :: _ => none
  | cons name _ children _, 0 :: position => (children.namesTo position).map (name :: ·)
  | cons _ _ _ rest, (index + 1) :: position => rest.namesTo (index :: position)

/-- The siblings below a position. -/
def childrenOf : Forest κ α → List ℕ → Forest κ α
  | forest, [] => forest
  | nil, _ :: _ => nil
  | cons _ _ children _, 0 :: position => children.childrenOf position
  | cons _ _ _ rest, (index + 1) :: position => rest.childrenOf (index :: position)

/-- Add a node without children after the siblings below a position. -/
def addBelow (name : κ) (value : α) : Forest κ α → List ℕ → Forest κ α
  | forest, [] => forest.append (cons name value nil nil)
  | nil, _ :: _ => nil
  | cons other old children rest, 0 :: position =>
      cons other old (children.addBelow name value position) rest
  | cons other old children rest, (index + 1) :: position =>
      cons other old children (rest.addBelow name value (index :: position))

/-- Rename every node. -/
def mapNames (f : κ → ι) : Forest κ α → Forest ι α
  | nil => nil
  | cons name value children rest => cons (f name) value (children.mapNames f) (rest.mapNames f)

@[simp] theorem namesTo_root (forest : Forest κ α) : forest.namesTo [] = some [] := by
  cases forest <;> rfl

@[simp] theorem childrenOf_root (forest : Forest κ α) : forest.childrenOf [] = forest := by
  cases forest <;> rfl

@[simp] theorem addBelow_root (forest : Forest κ α) (name : κ) (value : α) :
    forest.addBelow name value [] = forest.append (cons name value nil nil) := by
  cases forest <;> rfl

/-! ## Positions one level further -/

/-- A position one level further is a node exactly when there is such a sibling below. -/
theorem namesTo_concat (forest : Forest κ α) (position : List ℕ) (index : ℕ) :
    forest.namesTo (position ++ [index]) =
      (forest.namesTo position).bind fun names =>
        (forest.childrenOf position).names[index]?.map fun name => names ++ [name] := by
  induction forest generalizing position index with
  | nil => cases position <;> simp [namesTo, childrenOf, names]
  | cons name value children rest ihchildren ihrest =>
      rcases position with _ | ⟨first, position⟩
      · rcases index with _ | index
        · simp [namesTo, names]
        · simpa [namesTo, names] using ihrest [] index
      · rcases first with _ | first
        · simp only [List.cons_append, namesTo, ihchildren, childrenOf,
            Option.map_bind, Option.bind_map]
          rcases children.namesTo position with _ | names
          · rfl
          · simp [Function.comp_def]
        · exact ihrest (first :: position) index

theorem length_of_namesTo {forest : Forest κ α} {position : List ℕ} {names : List κ}
    (h : forest.namesTo position = some names) : names.length = position.length := by
  induction forest generalizing position names with
  | nil =>
      rcases position with _ | ⟨first, position⟩
      · cases h
        rfl
      · cases h
  | cons name value children rest ihchildren ihrest =>
      rcases position with _ | ⟨_ | first, position⟩
      · cases h
        rfl
      · obtain ⟨names, hnames, rfl⟩ := Option.map_eq_some_iff.mp h
        simp [ihchildren hnames]
      · have hrest : rest.namesTo (first :: position) = some names := h
        simpa using ihrest hrest

/-- The node above a node. -/
theorem namesTo_dropLast {forest : Forest κ α} {position : List ℕ} {names : List κ}
    (h : forest.namesTo position = some names) :
    forest.namesTo position.dropLast = some names.dropLast := by
  rcases List.eq_nil_or_concat position with rfl | ⟨position, index, rfl⟩
  · obtain rfl : names = [] := by simpa using h.symm
    exact h
  · rw [List.concat_eq_append, namesTo_concat] at h
    obtain ⟨above, habove, hindex⟩ := Option.bind_eq_some_iff.mp h
    obtain ⟨name, _, rfl⟩ := Option.map_eq_some_iff.mp hindex
    simpa using habove

/-! ## Adding a node -/

theorem numNodes_append (left right : Forest κ α) :
    (left.append right).numNodes = left.numNodes + right.numNodes := by
  induction left with
  | nil => simp [append, numNodes]
  | cons name value children rest _ ih =>
      simp only [append, numNodes, ih]
      omega

theorem numNodes_addBelow (name : κ) (value : α) {forest : Forest κ α} {position : List ℕ}
    (h : (forest.namesTo position).isSome = true) :
    (forest.addBelow name value position).numNodes = forest.numNodes + 1 := by
  induction forest generalizing position with
  | nil =>
      rcases position with _ | ⟨first, position⟩
      · rfl
      · cases h
  | cons other old children rest ihchildren ihrest =>
      rcases position with _ | ⟨_ | first, position⟩
      · rw [addBelow_root, numNodes_append]
        rfl
      · have hbelow := @ihchildren position (by simpa [namesTo] using h)
        simp only [addBelow, numNodes, hbelow]
        omega
      · have hlater := @ihrest (first :: position) h
        simp only [addBelow, numNodes, hlater]
        omega

/-- What is a node stays the same node. -/
theorem namesTo_append {left : Forest κ α} {position : List ℕ} {names : List κ}
    (h : left.namesTo position = some names) (right : Forest κ α) :
    (left.append right).namesTo position = some names := by
  induction left generalizing position names with
  | nil =>
      rcases position with _ | ⟨first, position⟩
      · simpa [namesTo] using h
      · cases h
  | cons name value children rest _ ih =>
      rcases position with _ | ⟨_ | first, position⟩
      · exact h
      · exact h
      · exact ih h

theorem namesTo_addBelow (name : κ) (value : α) {forest : Forest κ α} {position : List ℕ}
    {names : List κ} (h : forest.namesTo position = some names) (parent : List ℕ) :
    (forest.addBelow name value parent).namesTo position = some names := by
  induction forest generalizing position names parent with
  | nil =>
      rcases position with _ | ⟨first, position⟩
      · simpa using h
      · cases h
  | cons other old children rest ihchildren ihrest =>
      rcases parent with _ | ⟨_ | index, parent⟩
      · rw [addBelow_root]
        exact namesTo_append h _
      · rcases position with _ | ⟨_ | first, position⟩
        · exact h
        · obtain ⟨inside, hinside, rfl⟩ := Option.map_eq_some_iff.mp h
          simp [addBelow, namesTo, ihchildren hinside parent]
        · exact h
      · rcases position with _ | ⟨_ | first, position⟩
        · exact h
        · exact h
        · exact ihrest h (index :: parent)

/-- The added node comes last among its siblings. -/
theorem names_childrenOf_addBelow (name : κ) (value : α) {forest : Forest κ α} {position : List ℕ}
    (h : (forest.namesTo position).isSome = true) :
    ((forest.addBelow name value position).childrenOf position).names =
      (forest.childrenOf position).names ++ [name] := by
  induction forest generalizing position with
  | nil =>
      rcases position with _ | ⟨first, position⟩
      · rfl
      · cases h
  | cons other old children rest ihchildren ihrest =>
      rcases position with _ | ⟨_ | first, position⟩
      · rw [addBelow_root, childrenOf_root, childrenOf_root, names_append]
        rfl
      · exact @ihchildren position (by simpa [namesTo] using h)
      · exact @ihrest (first :: position) h

theorem namesTo_addBelow_self (name : κ) (value : α) {forest : Forest κ α} {position : List ℕ}
    {names : List κ} (h : forest.namesTo position = some names) :
    (forest.addBelow name value position).namesTo
      (position ++ [(forest.childrenOf position).names.length]) = some (names ++ [name]) := by
  rw [namesTo_concat, namesTo_addBelow name value h,
    names_childrenOf_addBelow name value (by simp [h])]
  simp

/-! ## Renaming -/

section Rename

variable (f : κ → ι)

@[simp] theorem names_mapNames (forest : Forest κ α) :
    (forest.mapNames f).names = forest.names.map f := by
  induction forest with
  | nil => rfl
  | cons name value children rest _ ih => simp [mapNames, names, ih]

theorem mapNames_append (left right : Forest κ α) :
    (left.append right).mapNames f = (left.mapNames f).append (right.mapNames f) := by
  induction left with
  | nil => rfl
  | cons name value children rest _ ih => simp [append, mapNames, ih]

theorem namesTo_mapNames (forest : Forest κ α) (position : List ℕ) :
    (forest.mapNames f).namesTo position = (forest.namesTo position).map (List.map f) := by
  induction forest generalizing position with
  | nil => cases position <;> rfl
  | cons name value children rest ihchildren ihrest =>
      rcases position with _ | ⟨_ | first, position⟩
      · rfl
      · simp [mapNames, namesTo, ihchildren, Function.comp_def]
      · exact ihrest (first :: position)

theorem childrenOf_mapNames (forest : Forest κ α) (position : List ℕ) :
    (forest.mapNames f).childrenOf position = (forest.childrenOf position).mapNames f := by
  induction forest generalizing position with
  | nil => cases position <;> rfl
  | cons name value children rest ihchildren ihrest =>
      rcases position with _ | ⟨_ | first, position⟩
      · rfl
      · exact ihchildren position
      · exact ihrest (first :: position)

theorem addBelow_mapNames (name : κ) (value : α) (forest : Forest κ α) (position : List ℕ) :
    (forest.mapNames f).addBelow (f name) value position =
      (forest.addBelow name value position).mapNames f := by
  induction forest generalizing position with
  | nil => cases position <;> rfl
  | cons other old children rest ihchildren ihrest =>
      rcases position with _ | ⟨_ | first, position⟩
      · rw [addBelow_root, addBelow_root, mapNames_append]
        rfl
      · simp [mapNames, addBelow, ihchildren]
      · simp [mapNames, addBelow, ihrest]

end Rename

/-! ## Where names identify nodes -/

theorem head_mem_names_of_namesTo {forest : Forest κ α} {index : ℕ} {position : List ℕ}
    {head : κ} {names : List κ} (h : forest.namesTo (index :: position) = some (head :: names)) :
    head ∈ forest.names := by
  induction forest generalizing index with
  | nil => cases h
  | cons name value children rest _ ih =>
      rcases index with _ | index
      · obtain ⟨inside, _, hcons⟩ := Option.map_eq_some_iff.mp h
        exact List.mem_cons.mpr (.inl (List.cons.inj hcons).1.symm)
      · exact List.mem_cons_of_mem name (ih h)

/-- No two nodes have the same names on the way to them. -/
theorem Distinct.namesTo_injective {forest : Forest κ α} (hdistinct : forest.Distinct)
    {first second : List ℕ} {names : List κ} (hfirst : forest.namesTo first = some names)
    (hsecond : forest.namesTo second = some names) : first = second := by
  induction forest generalizing first second names with
  | nil =>
      rcases first with _ | ⟨_, first⟩
      · rcases second with _ | ⟨_, second⟩
        · rfl
        · cases hsecond
      · cases hfirst
  | cons name value children rest ihchildren ihrest =>
      obtain ⟨hfresh, hchildren, hrest⟩ := hdistinct
      have hlength := (length_of_namesTo hfirst).symm.trans (length_of_namesTo hsecond)
      rcases first with _ | ⟨index, first⟩
      · exact (List.eq_nil_of_length_eq_zero hlength.symm).symm
      rcases second with _ | ⟨other, second⟩
      · cases hlength
      rcases index with _ | index <;> rcases other with _ | other
      · obtain ⟨inside, hinside, rfl⟩ := Option.map_eq_some_iff.mp hfirst
        obtain ⟨inside', hinside', hcons⟩ := Option.map_eq_some_iff.mp hsecond
        cases hcons
        rw [ihchildren hchildren hinside hinside']
      -- the first sibling has a name that no later one has
      · obtain ⟨inside, _, rfl⟩ := Option.map_eq_some_iff.mp hfirst
        exact absurd (@head_mem_names_of_namesTo _ _ rest _ _ _ _ hsecond) hfresh
      · obtain ⟨inside, _, rfl⟩ := Option.map_eq_some_iff.mp hsecond
        exact absurd (@head_mem_names_of_namesTo _ _ rest _ _ _ _ hfirst) hfresh
      · have hequal := ihrest hrest hfirst hsecond
        cases hequal
        rfl

theorem Distinct.childrenOf {forest : Forest κ α} (h : forest.Distinct) (position : List ℕ) :
    (forest.childrenOf position).Distinct := by
  induction forest generalizing position with
  | nil => cases position <;> trivial
  | cons name value children rest ihchildren ihrest =>
      have ⟨_, hchildren, hrest⟩ := h
      rcases position with _ | ⟨_ | first, position⟩
      · exact h
      · exact ihchildren hchildren position
      · exact ihrest hrest (first :: position)

variable [DecidableEq κ]

theorem isSome_value?_of_namesTo {forest : Forest κ α} (hdistinct : forest.Distinct)
    {position : List ℕ} {names : List κ} (h : forest.namesTo position = some names)
    (hbelow : names ≠ []) : (forest.value? names).isSome = true := by
  induction forest generalizing position names with
  | nil =>
      rcases position with _ | ⟨first, position⟩
      · exact absurd (by simpa using h.symm) hbelow
      · cases h
  | cons name value children rest ihchildren ihrest =>
      obtain ⟨hfresh, hchildren, hrest⟩ := hdistinct
      rcases position with _ | ⟨_ | first, position⟩
      · exact absurd (by simpa using h.symm) hbelow
      · obtain ⟨inside, hinside, rfl⟩ := Option.map_eq_some_iff.mp h
        by_cases hinner : inside = []
        · simp [value?, hinner]
        · simpa [value?, hinner] using ihchildren hchildren hinside hinner
      · obtain ⟨head, names, rfl⟩ := List.exists_cons_of_ne_nil hbelow
        have hother : name ≠ head := by
          intro hequal
          exact hfresh (hequal ▸ head_mem_names_of_namesTo h)
        simpa [value?, hother] using ihrest hrest h (by simp)

/-- Where names identify nodes, a node with a new name is added by creating its path. -/
theorem addBelow_eq_upsert [Inhabited α] {forest : Forest κ α} (hdistinct : forest.Distinct)
    {position : List ℕ} {names : List κ} (h : forest.namesTo position = some names) {name : κ}
    (hnew : name ∉ (forest.childrenOf position).names) :
    forest.addBelow name default position = forest.upsert orDefault (names ++ [name]) := by
  induction forest generalizing position names with
  | nil =>
      rcases position with _ | ⟨first, position⟩
      · obtain rfl : names = [] := by simpa using h.symm
        rfl
      · cases h
  | cons other old children rest ihchildren ihrest =>
      obtain ⟨hfresh, hchildren, hrest⟩ := hdistinct
      rcases position with _ | ⟨_ | first, position⟩
      · obtain rfl : names = [] := by simpa using h.symm
        rw [childrenOf_root] at hnew
        rw [addBelow_root, List.nil_append, upsert_of_fresh _ _ hnew]
        rfl
      · obtain ⟨inside, hinside, rfl⟩ := Option.map_eq_some_iff.mp h
        simp [addBelow, upsert, ihchildren hchildren hinside hnew]
      · have hlength := length_of_namesTo h
        rcases names with _ | ⟨head, names⟩
        · cases hlength
        have hother : other ≠ head := by
          intro hequal
          exact hfresh (hequal ▸ head_mem_names_of_namesTo h)
        rw [addBelow, ihrest hrest h hnew, List.cons_append, upsert, if_neg hother]

end Forest
end OSVR.Math
