/-
# Aliases that are parsed again

A tree stores the text of an alias, which is parsed again whenever a path leads through it.
That gives the same alias, unless it came from an old route that no transform is around,
which does not count as simple the first time, or from a path that the reader accepts as a
text of something else.
-/

import OsvrCore.Common.ParseAlias
import OsvrCore.Common.PathParseAndRetrieve

set_option autoImplicit false

namespace OSVR.Common

/-! ## Setting a leaf -/

namespace Json

/-- Two values that differ in nothing but the string that their child members end in. -/
inductive SameAround : Json → Json → Prop
  | leaf (first second : Str) : SameAround (.str first) (.str second)
  | level (before after : JsonMembers) {first second : Json}
      (hbefore : CHILD_KEY ∉ before.map Prod.fst) (h : SameAround first second) :
      SameAround (.obj (before ++ (CHILD_KEY, first) :: after))
        (.obj (before ++ (CHILD_KEY, second) :: after))

mutual

theorem sameAround_setLeaf (text : Str) : (val : Json) → (old : Str) → val.leaf = .str old →
    SameAround val (val.setLeaf (.str text))
  | .str first, _, _ => .leaf first text
  | .obj members, old, h => by
      cases hleaf : leafIn members with
      | none =>
          rw [leaf, hleaf] at h
          cases h
      | some inner =>
          rw [leaf, hleaf] at h
          have hin : leafIn members = some (.str old) := hleaf.trans (congrArg some h)
          obtain ⟨before, after, first, second, hmembers, hset, hbefore, hsame⟩ :=
            sameAround_setLeafIn text members old hin
          rw [setLeaf, hset, hmembers]
          exact .level before after hbefore hsame
  | .null, _, h | .bool _, _, h | .int _, _, h | .real _, _, h | .arr _, _, h => by
      simp [leaf] at h

theorem sameAround_setLeafIn (text : Str) : (members : JsonMembers) → (old : Str) →
    leafIn members = some (.str old) → ∃ before after first second,
      members = before ++ (CHILD_KEY, first) :: after ∧
        setLeafIn members (.str text) = some (before ++ (CHILD_KEY, second) :: after) ∧
          CHILD_KEY ∉ before.map Prod.fst ∧ SameAround first second
  | [], _, h => by simp [leafIn] at h
  | (key, value) :: rest, old, h => by
      rw [leafIn] at h
      split at h
      next hkey =>
        obtain rfl := hkey
        have hsame := sameAround_setLeaf text value old (Option.some.inj h)
        exact ⟨[], rest, value, _, rfl, by rw [setLeafIn, if_pos rfl]; rfl, by simp, hsame⟩
      next hkey =>
        obtain ⟨before, after, first, second, hmembers, hset, hbefore, hsame⟩ :=
          sameAround_setLeafIn text rest old h
        refine ⟨(key, value) :: before, after, first, second, ?_, ?_, ?_, hsame⟩
        · rw [hmembers, List.cons_append]
        · rw [setLeafIn, if_neg hkey, hset, Option.map_some, List.cons_append]
        · simpa [Ne.symm hkey] using hbefore

end

end Json

namespace ParsedAlias

/-- Setting a leaf sets it, and leaves everything around it alone. -/
def SetsLeaf (alias_ : ParsedAlias) : Prop :=
  ∀ leaf, (alias_.setLeaf leaf).getLeaf = leaf ∧ (alias_.setLeaf leaf).simple = alias_.simple ∧
    Json.SameAround alias_.value (alias_.setLeaf leaf).value

theorem HasLeaf.setsLeaf {alias_ : ParsedAlias} (h : alias_.HasLeaf)
    (hvalid : alias_.isValid = true) : alias_.SetsLeaf := by
  rcases h with hnull | ⟨old, hleaf⟩
  · rw [isValid, hnull] at hvalid
    cases hvalid
  · intro leaf
    have hset : (alias_.value.setLeaf (.str leaf)).leaf = .str leaf :=
      Json.leaf_setLeaf_str leaf alias_.value
    apply And.intro
    · simp only [getLeaf, setLeaf, hset]
    · exact ⟨rfl, Json.sameAround_setLeaf leaf alias_.value old hleaf⟩

/-! ## Parsing again -/

/-- What an alias is constructed from. -/
inductive Source
  | text (src : Str)
  | json (src : Json)

/-- The two constructors. -/
def ofSource (codec : JsonCodec) : Source → Except JsonError ParsedAlias
  | .text src => parse codec src
  | .json src => parseValue codec src

/-- Parsing the text of an alias gives an alias with the same leaf, the same text, and
as simple. -/
def RoundTrips (codec : JsonCodec) (alias_ : ParsedAlias) : Prop :=
  ∃ again, parse codec (alias_.getAlias codec) = .ok again ∧ again.getLeaf = alias_.getLeaf ∧
    again.simple = alias_.simple ∧ again.getAlias codec = alias_.getAlias codec

/-- The reader gives back a transform that the writer has written. -/
def ReadsBack (codec : JsonCodec) (alias_ : ParsedAlias) : Prop :=
  ∀ members, alias_.value = .obj members →
    codec.parse (trimLineEnds (codec.write (.obj members))) = some (.obj members)

/-- A path does not read as something else, and an old route is inside a transform. -/
def Settled (codec : JsonCodec) (val : Json) : Prop :=
  match val.stripSource with
  | .str path => ∀ read, codec.parse path = some read → read.stripSource = .str path
  | .obj members => CHILD_KEY ∈ members.map Prod.fst
  | .null | .bool _ | .int _ | .real _ | .arr _ => True

def Source.Settled (codec : JsonCodec) : Source → Prop
  | .text src => ∀ val, codec.parse src = some val → ParsedAlias.Settled codec val
  | .json val => ParsedAlias.Settled codec val

end ParsedAlias

/-- The text of an object starts with a brace. -/
def JsonCodec.WritesBraces (codec : JsonCodec) : Prop :=
  ∀ members, (codec.write (.obj members)).head? = some '\x7b'

/-- No text is the path of the old route that it is read as: it has the tracker's name
in it, and more around that than is added to the path. -/
def JsonCodec.ReadsNoRouteFromItself (codec : JsonCodec) : Prop :=
  ∀ text members, (∃ val, codec.parse text = some val ∧ val.stripSource = .obj members) →
    getPathFromOldRouteSource codec (.obj members) ≠ .ok text

namespace ParsedAlias

variable {codec : JsonCodec} {alias_ : ParsedAlias}

/-- A valid alias is simple when nothing but a string was in the sources. -/
theorem parseValue_cases {val : Json} (h : parseValue codec val = .ok alias_)
    (hvalid : alias_.isValid = true) :
    (∃ path, val.stripSource = .str path ∧ alias_ = ⟨.str path, true⟩) ∨
      ∃ members, val.stripSource = .obj members ∧
      parseTransform codec (.obj members) = .ok alias_ := by
  rcases parseValue_eq_ok h with hpath | rfl | htransform
  · exact .inl hpath
  · cases hvalid
  · exact .inr htransform

/-- An alias that could not be handled has no leaf. -/
theorem isValid_of_leaf (h : alias_.getLeaf ≠ []) : alias_.isValid = true := by
  obtain ⟨value, simple⟩ := alias_
  cases value with
  | null => exact absurd rfl h
  | _ => rfl

/-! ### Paths -/

/-- A path that is taken as it is comes back when it does not read as something else. -/
theorem roundTrips_path_iff {path : Str} (hpath : path ≠ []) :
    RoundTrips codec ⟨.str path, true⟩ ↔
      ∀ read, codec.parse path = some read → read.stripSource = .str path := by
  apply Iff.intro
  · rintro ⟨again, hagain, hleaf, hsimple, -⟩ read hread
    have hvalue : parseValue codec read = .ok again := by
      rw [getAlias, parse, hread] at hagain
      exact hagain
    have hvalid : again.isValid = true := isValid_of_leaf (hleaf ▸ hpath)
    rcases parseValue_cases hvalue hvalid with ⟨text, hstrip, rfl⟩ | ⟨members, _, htransform⟩
    · have htext : text = path := hleaf
      rw [hstrip, htext]
    · rw [simple_parseTransform htransform] at hsimple
      cases hsimple
  · intro hsettled
    refine ⟨⟨.str path, true⟩, ?_, rfl, rfl, rfl⟩
    rw [getAlias, parse]
    cases hread : codec.parse path with
    | none => rfl
    | some read => simp only [parseValue, hsettled read hread]

/-! ### Transforms -/

/-- A transform comes back as it was written. -/
theorem roundTrips_transform {members : JsonMembers} {text : Str}
    (hread : codec.parse (trimLineEnds (codec.write (.obj members))) = some (.obj members))
    (hsource : SOURCE_KEY ∉ members.map Prod.fst) (hleaf : (Json.obj members).leaf = .str text) :
    RoundTrips codec ⟨.obj members, false⟩ := by
  have hstrip : (Json.obj members).stripSource = .obj members := by
    rw [Json.stripSource, Json.stripSourceIn_eq_none hsource]
    rfl
  refine ⟨⟨.obj members, false⟩, ?_, rfl, rfl, rfl⟩
  simp only [getAlias, parse, hread, parseValue, hstrip, parseTransform, hleaf]

theorem child_mem_of_leaf {members : JsonMembers} {text : Str}
    (h : (Json.obj members).leaf = .str text) : CHILD_KEY ∈ members.map Prod.fst := by
  apply Decidable.byContradiction
  intro hchild
  rw [Json.leaf, Json.leafIn_eq_none hchild] at h
  cases h

/-! ### Old routes -/

/-- Removing line ends leaves the start of a text. -/
theorem head?_trimLineEnds {first : Char} (hfirst : (first == '\n' || first == '\r') = false)
    (text : Str) (h : text.head? = some first) : (trimLineEnds text).head? = some first := by
  induction text using List.reverseRecOn with
  | nil => cases h
  | append_singleton init last ih =>
      rw [trimLineEnds, List.rdropWhile_concat]
      split
      next hlast =>
        cases init with
        | nil =>
            obtain rfl : last = first := Option.some.inj h
            rw [hfirst] at hlast
            cases hlast
        | cons head init => exact ih h
      next => exact h

/-- No transform is written as a path. -/
theorem getAlias_ne_path (hbraces : codec.WritesBraces) {members : JsonMembers} {path : Str}
    (habsolute : isPathAbsolute path = true) (simple : Bool) :
    getAlias codec ⟨.obj members, simple⟩ ≠ path := by
  intro htext
  have hbrace := head?_trimLineEnds (by decide) _ (hbraces members)
  have hwritten : trimLineEnds (codec.write (.obj members)) = path := htext
  rw [hwritten] at hbrace
  rw [isPathAbsolute, hbrace] at habsolute
  exact absurd habsolute (by decide)

/-- An old route that stands alone is not simple, and its path is. -/
theorem not_roundTrips_route {members : JsonMembers} {path : Str}
    (hroute : getPathFromOldRouteSource codec (.obj members) = .ok path)
    (habsolute : isPathAbsolute path = true) (hbraces : codec.WritesBraces)
    (hreads : codec.ReadsNoRouteFromItself) : ¬ RoundTrips codec ⟨.str path, false⟩ := by
  rintro ⟨again, hagain, hleaf, hsimple, htext⟩
  have hpath : path ≠ [] := by
    rintro rfl
    cases habsolute
  rw [getAlias, parse] at hagain
  cases hread : codec.parse path with
  | none =>
      rw [hread] at hagain
      obtain rfl := Except.ok.inj hagain
      cases hsimple
  | some read =>
      rw [hread] at hagain
      have hvalid : again.isValid = true := isValid_of_leaf (hleaf ▸ hpath)
      rcases parseValue_cases hagain hvalid with ⟨_, _, rfl⟩ | ⟨inner, hstrip, htransform⟩
      · cases hsimple
      · rcases parseTransform_eq_ok htransform with ⟨_, _, rfl⟩ | rfl | ⟨other, hother, rfl⟩
        · exact getAlias_ne_path hbraces habsolute false htext
        · cases hvalid
        · cases hset : Json.setLeafIn inner (.str other) with
          | some changed =>
              rw [Json.setLeaf, hset] at htext
              exact getAlias_ne_path hbraces habsolute false htext
          | none =>
              have hchild := Json.setLeafIn_eq_none_iff.mp hset
              rw [Json.leaf, Json.leafIn_eq_none hchild] at hother
              rw [Json.setLeaf, hset] at hleaf
              have hsame : other = path := hleaf
              rw [hsame] at hother
              exact hreads path inner ⟨read, hread, hstrip⟩ hother

/-! ### All sources -/

theorem roundTrips_parseValue_iff {val : Json} (hparse : parseValue codec val = .ok alias_)
    (hvalid : alias_.isValid = true) (habsolute : isPathAbsolute alias_.getLeaf = true)
    (hread : alias_.ReadsBack codec) (hbraces : codec.WritesBraces)
    (hreads : codec.ReadsNoRouteFromItself) :
    RoundTrips codec alias_ ↔ Settled codec val := by
  rcases parseValue_cases hparse hvalid with ⟨path, hstrip, rfl⟩ | ⟨members, hstrip, htransform⟩
  · rw [Settled, hstrip]
    apply roundTrips_path_iff
    rintro rfl
    cases habsolute
  · rw [Settled, hstrip]
    rcases parseTransform_eq_ok htransform with ⟨text, hleaf, rfl⟩ | rfl | ⟨route, hroute, rfl⟩
    · have hsource := not_mem_of_parseValue codec hparse rfl
      exact iff_of_true (roundTrips_transform (hread members rfl) hsource hleaf)
        (child_mem_of_leaf hleaf)
    · cases hvalid
    · have hleaf := Json.leaf_setLeaf_str route (.obj members)
      rw [Json.setLeaf] at hparse hread habsolute hleaf ⊢
      cases hset : Json.setLeafIn members (.str route) with
      | some changed =>
          rw [hset] at hparse hread hleaf
          have hsource := not_mem_of_parseValue codec hparse rfl
          have hchild := child_mem_of_leaf hleaf
          rw [Json.names_setLeafIn hset] at hchild
          exact iff_of_true (roundTrips_transform (hread changed rfl) hsource hleaf) hchild
      | none =>
          have hchild := Json.setLeafIn_eq_none_iff.mp hset
          rw [Json.leaf, Json.leafIn_eq_none hchild] at hroute
          rw [hset] at habsolute
          exact iff_of_false (not_roundTrips_route hroute habsolute hbraces hreads) hchild

/-- An alias is the same when it is parsed again exactly when it is no old route that
stands alone and no path that reads as something else. Setting its leaf changes
nothing but that. -/
theorem setsLeaf_and_roundTrips_iff {source : Source} (hparse : ofSource codec source = .ok alias_)
    (hvalid : alias_.isValid = true) (habsolute : isPathAbsolute alias_.getLeaf = true)
    (hread : alias_.ReadsBack codec) (hbraces : codec.WritesBraces)
    (hreads : codec.ReadsNoRouteFromItself) :
    alias_.SetsLeaf ∧ RoundTrips codec alias_ ↔ source.Settled codec := by
  have hvalue {val : Json} (hval : parseValue codec val = .ok alias_) :
      alias_.SetsLeaf ∧ RoundTrips codec alias_ ↔ Settled codec val := by
    rw [and_iff_right ((hasLeaf_parseValue codec hval).setsLeaf hvalid)]
    exact roundTrips_parseValue_iff hval hvalid habsolute hread hbraces hreads
  cases source with
  | json val => exact hvalue hparse
  | text src =>
      rw [Source.Settled]
      rw [ofSource] at hparse
      cases hsrc : codec.parse src with
      | some val =>
          rw [parse, hsrc] at hparse
          rw [hvalue hparse]
          exact ⟨fun hsettled _ hval => Option.some.inj hval ▸ hsettled, fun hall => hall val rfl⟩
      | none =>
          have hleaf := hasLeaf_parse codec hparse
          rw [parse, hsrc] at hparse
          obtain rfl := Except.ok.inj hparse
          have htrips : RoundTrips codec ⟨.str src, true⟩ := by
            refine ⟨⟨.str src, true⟩, ?_, rfl, rfl, rfl⟩
            rw [getAlias, parse, hsrc]
          apply iff_of_true ⟨hleaf.setsLeaf hvalid, htrips⟩
          intro _ hval
          cases hval

/-- A rotated tracker, and how it is written. -/
def rotatedTracker : Json :=
  .obj [(CHILD_KEY, .str "/d/t".toList), ("rotate".toList, .int 1)]

def rotatedTrackerText : Str := "\x7b\"child\":\"/d/t\",\"rotate\":1\x7d".toList

/-- The library on that text. -/
def rotatedCodec : JsonCodec where
  parse text := if text = rotatedTrackerText then some rotatedTracker else none
  write value :=
    if value = rotatedTracker then rotatedTrackerText ++ ['\n'] else "\x7b\x7d\n".toList
  toStyledString _ := []
  realText _ := []

theorem writesBraces_rotatedCodec : rotatedCodec.WritesBraces := by
  intro members
  rw [rotatedCodec]
  dsimp only
  split <;> rfl

theorem readsNoRouteFromItself_rotatedCodec : rotatedCodec.ReadsNoRouteFromItself := by
  rintro text members ⟨val, hval, hstrip⟩ hroute
  rw [rotatedCodec] at hval
  dsimp only at hval
  split at hval
  next htext =>
    obtain rfl := Option.some.inj hval
    obtain rfl := Json.obj.inj hstrip
    have hempty : [] = text := Except.ok.inj hroute
    rw [← hempty] at htext
    exact absurd htext (by decide)
  next => cases hval

theorem parse_rotatedTrackerText : rotatedCodec.parse rotatedTrackerText = some rotatedTracker :=
  rfl

theorem setsLeaf_and_roundTrips_rotated :
    SetsLeaf ⟨rotatedTracker, false⟩ ∧ RoundTrips rotatedCodec ⟨rotatedTracker, false⟩ := by
  have hsettled : (Source.text rotatedTrackerText).Settled rotatedCodec := by
    intro val hval
    obtain rfl := Option.some.inj (hval.symm.trans parse_rotatedTrackerText)
    exact List.mem_cons_self
  have hread : (⟨rotatedTracker, false⟩ : ParsedAlias).ReadsBack rotatedCodec := by
    intro members hmembers
    obtain rfl := Json.obj.inj hmembers
    rfl
  have hparse : ofSource rotatedCodec (.text rotatedTrackerText) = .ok ⟨rotatedTracker, false⟩ :=
    rfl
  exact (setsLeaf_and_roundTrips_iff hparse rfl rfl hread writesBraces_rotatedCodec
    readsNoRouteFromItself_rotatedCodec).mpr hsettled

/-- The old route of a tracker parses to its path, which is simple when it is parsed again. -/
theorem not_roundTrips_oldRoute :
    ¬ ∀ (codec : JsonCodec) (source : Source) (alias_ : ParsedAlias),
      ofSource codec source = .ok alias_ → alias_.isValid = true →
      isPathAbsolute alias_.getLeaf = true → alias_.ReadsBack codec →
        alias_.SetsLeaf ∧ RoundTrips codec alias_ := by
  intro hall
  have hparse : ofSource rotatedCodec (.json (.obj [("tracker".toList, .str "/d".toList)])) =
      .ok ⟨.str "/d/tracker".toList, false⟩ := rfl
  have hread : ReadsBack rotatedCodec ⟨.str "/d/tracker".toList, false⟩ := by
    intro members hmembers
    cases hmembers
  obtain ⟨-, again, hagain, -, hsimple, -⟩ := hall _ _ _ hparse rfl rfl hread
  have hsame : parse rotatedCodec "/d/tracker".toList = .ok ⟨.str "/d/tracker".toList, true⟩ := rfl
  obtain rfl := Except.ok.inj (hsame.symm.trans hagain)
  cases hsimple

end ParsedAlias
end OSVR.Common
