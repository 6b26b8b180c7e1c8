/-
# Spellings of one path

Components `.` and one trailing separator make no difference to where a path
leads. At the end of a path they have to come after a component: the path of the
root has none, and another separator ends an empty one.
-/

import OsvrCore.Common.PathParseAndRetrieve

set_option autoImplicit false

namespace OSVR.Common

/-- The paths differ only by components `.` and one trailing separator. -/
inductive Respelled : Str → Str → Prop
  | here (before after : Str) (hafter : after = [] ∨ after.head? = some '/')
      (hend : after = [] → before.getLast? ≠ some '/') (hsome : before ++ after ≠ []) :
      Respelled (before ++ ['/', '.'] ++ after) (before ++ after)
  | trailing (path : Str) (hpath : path ≠ []) (hlast : path.getLast? ≠ some '/') :
      Respelled (path ++ ['/']) path
  | refl (path : Str) : Respelled path path
  | symm {first second : Str} (h : Respelled first second) : Respelled second first
  | trans {first second third : Str} (h : Respelled first second) (h' : Respelled second third) :
      Respelled first third

/-! ## Components of a path in two parts -/

theorem components_ne_nil (path : Str) : components path ≠ [] := by
  cases path with
  | nil => simp [components]
  | cons c path =>
      rw [components]
      split
      · simp
      · split <;> simp

/-- The components of a path that is cut at a separator. -/
theorem components_cut (first second : Str) :
    components (first ++ '/' :: second) = components first ++ components second := by
  induction first with
  | nil => simp [components]
  | cons c first ih =>
      rw [List.cons_append, components, components, ih]
      split
      · rfl
      · obtain ⟨head, rest, hcomponents⟩ := List.exists_cons_of_ne_nil (components_ne_nil first)
        rw [hcomponents]
        rfl

theorem trimTrailing_append (first : Str) {second : Str} (hsecond : second ≠ []) :
    trimTrailing (first ++ second) = first ++ trimTrailing second := by
  rw [trimTrailing, trimTrailing, List.getLast?_append_of_ne_nil _ hsecond]
  split
  · rw [List.dropLast_append_of_ne_nil hsecond]
  · rfl

theorem trimTrailing_of_getLast? {path : Str} (h : path.getLast? ≠ some '/') :
    trimTrailing path = path := by
  simp [trimTrailing, h]

/-! ## Lookups that end at the same place -/

namespace Located

/-- Two lookups reach the same node, and both return it or both throw there. -/
def Same (first second : Located) : Prop :=
  first.reached = second.reached ∧ (first.failure = none ↔ second.failure = none)

namespace Same

theorem rfl {located : Located} : Same located located := ⟨Eq.refl _, Iff.refl _⟩

theorem symm {first second : Located} (h : Same first second) : Same second first :=
  ⟨h.1.symm, h.2.symm⟩

theorem trans {first second third : Located} (h : Same first second) (h' : Same second third) :
    Same first third :=
  ⟨h.1.trans h'.1, h.2.trans h'.2⟩

theorem below {first second : Located} (h : Same first second) (name : PathName) :
    Same (first.below name) (second.below name) :=
  ⟨congrArg (name :: ·) h.1, h.2⟩

end Same
end Located

/-- The path text only goes into the exception. -/
theorem same_follow {path path' : Str} (before : List Component) {after after' : List Component}
    (h : (follow path after).Same (follow path' after')) :
    (follow path (before ++ after)).Same (follow path' (before ++ after')) := by
  induction before with
  | nil => exact h
  | cons component before ih =>
      rw [List.cons_append, List.cons_append, follow, follow]
      split
      · exact ⟨rfl, by simp⟩
      split
      · exact ih
      split
      · exact .rfl
      · exact ih.below _

theorem same_follow_path (path path' : Str) (list : List Component) :
    (follow path list).Same (follow path' list) := by
  have hend : (follow path []).Same (follow path' []) := .rfl
  simpa using same_follow list hend

/-- The component that stays where it is. -/
def hereComponent : Component := ⟨['.'], by decide⟩

theorem follow_here (path : Str) (list : List Component) :
    follow path (hereComponent :: list) = follow path list := by
  simp [follow, hereComponent]

/-! ## Respelled paths -/

/-- Where an absolute path other than that of the root leads. -/
theorem locateAbsolute_cons (rest : Str) (hrest : rest ≠ []) :
    locateAbsolute ('/' :: rest) =
      follow (trimTrailing rest) (components (trimTrailing rest)) := by
  simp [locateAbsolute, locate, hrest]

/-- A component `.` before the others of a path that goes on. -/
theorem same_follow_here (before : List Component) (path path' : Str) (after : List Component) :
    (follow path (before ++ hereComponent :: after)).Same (follow path' (before ++ after)) := by
  refine same_follow before ?_
  rw [follow_here]
  exact same_follow_path path path' after

theorem components_here : components ['.'] = [hereComponent] := rfl

theorem components_cut_here (path : Str) :
    components ('.' :: '/' :: path) = hereComponent :: components path := by
  rw [show '.' :: '/' :: path = ['.'] ++ '/' :: path from rfl, components_cut, components_here]
  rfl

/-- A component `.` in a path, by what comes after it: nothing, one trailing
separator, or more components. -/
theorem same_here (before after : Str) (hafter : after = [] ∨ after.head? = some '/')
    (hend : after = [] → before.getLast? ≠ some '/') (hsome : before ++ after ≠ []) :
    (locateAbsolute (before ++ ['/', '.'] ++ after)).Same (locateAbsolute (before ++ after)) := by
  rcases before with _ | ⟨c, rest⟩
  · obtain ⟨first, more, rfl⟩ := List.exists_cons_of_ne_nil hsome
    obtain rfl : first = '/' := by simpa using hafter
    by_cases hmore : more = []
    · subst hmore
      exact .rfl
    · rw [List.nil_append, List.nil_append, List.cons_append, List.singleton_append,
        locateAbsolute_cons _ (by simp), locateAbsolute_cons _ hmore]
      have htrim := trimTrailing_append ['.', '/'] hmore
      rw [List.cons_append, List.singleton_append] at htrim
      rw [htrim, show components (['.', '/'] ++ trimTrailing more) = _ from
        components_cut_here (trimTrailing more)]
      exact same_follow_here [] _ _ _
  by_cases hc : c = '/'
  · subst hc
    have hlast : (follow (rest ++ ['/', '.']) (components (rest ++ ['/', '.']))).Same
        (follow rest (components rest)) := by
      rw [components_cut rest ['.'], components_here]
      simpa using same_follow_here (components rest) (rest ++ ['/', '.']) rest []
    rw [List.cons_append, List.cons_append, List.cons_append, locateAbsolute_cons _ (by simp)]
    rcases hafter with rfl | hafter
    · have hrest : rest ≠ [] := by
        rintro rfl
        exact hend rfl rfl
      have hname : rest.getLast? ≠ some '/' := by
        have := hend rfl
        rwa [List.getLast?_cons_of_ne_nil hrest] at this
      rw [List.append_nil, List.append_nil, locateAbsolute_cons _ hrest,
        trimTrailing_of_getLast? hname, trimTrailing_append _ (by simp)]
      exact hlast
    · obtain ⟨more, rfl⟩ : ∃ more, after = '/' :: more := by
        rcases after with _ | ⟨first, more⟩
        · cases hafter
        · exact ⟨more, by simpa using hafter⟩
      rw [locateAbsolute_cons _ (by simp), trimTrailing_append _ (by simp),
        trimTrailing_append _ (by simp)]
      by_cases hmore : more = []
      · subst hmore
        have htrim : trimTrailing ['/'] = [] := by decide
        rw [htrim, List.append_nil, List.append_nil]
        exact hlast
      · have htrim := trimTrailing_append ['/'] hmore
        rw [List.singleton_append] at htrim
        have hcut : components (rest ++ ['/', '.'] ++ '/' :: trimTrailing more) =
            components rest ++ hereComponent :: components (trimTrailing more) := by
          rw [components_cut, components_cut, components_here, List.append_assoc]
          rfl
        rw [htrim, List.singleton_append, hcut, components_cut]
        exact same_follow_here (components rest) _ _ _
  · simp [locateAbsolute, hc, Located.Same]

theorem Respelled.same {first second : Str} (h : Respelled first second) :
    (locateAbsolute first).Same (locateAbsolute second) := by
  induction h with
  | here before after hafter hend hsome => exact same_here before after hafter hend hsome
  | trailing path hpath hlast =>
      obtain ⟨c, rest, rfl⟩ := List.exists_cons_of_ne_nil hpath
      by_cases hc : c = '/'
      · subst hc
        have hrest : rest ≠ [] := by
          rintro rfl
          exact hlast rfl
        have hend : rest.getLast? ≠ some '/' := by
          rwa [List.getLast?_cons_of_ne_nil hrest] at hlast
        rw [List.cons_append, locateAbsolute_cons _ (by simp), locateAbsolute_cons _ hrest]
        rw [trimTrailing_append _ (by simp), trimTrailing_of_getLast? hend]
        have htrim : trimTrailing ['/'] = [] := by decide
        rw [htrim, List.append_nil]
        exact .rfl
      · simp [locateAbsolute, hc, Located.Same]
  | refl path => exact .rfl
  | symm _ ih => exact ih.symm
  | trans _ _ ih ih' => exact ih.trans ih'

end OSVR.Common
