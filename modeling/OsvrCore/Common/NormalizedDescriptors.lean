/-
# Normalized descriptors

Normalizing a second time changes nothing more. The first time it changes what the
eye trackers derive, and it leaves a count behind in an eye tracker that has none.
An interface that is declared beside an eye tracker and derived from it as well is
the derived one afterwards.
-/

import OsvrCore.Common.NormalizedInterfaces

set_option autoImplicit false

namespace OSVR.Common

/-- The interfaces that a descriptor declares. -/
def Json.interfaces : Json → JsonMembers
  | .obj members => JsonMembers.objectAt members INTERFACES_KEY
  | .null | .bool _ | .int _ | .real _ | .str _ | .arr _ => []

/-- The names of the interfaces that are broken down. -/
def eyeTrackers (interfaces : JsonMembers) : List Str :=
  (interfaces.map Prod.fst).filter isEyeTracker

/-- The count with which the eye trackers derive the interface of a name. -/
def derived (interfaces : JsonMembers) (key : Str) : Option Int :=
  derivedFrom interfaces (eyeTrackers interfaces) key

theorem isEyeTracker_of_mem {interfaces : JsonMembers} :
    ∀ name ∈ eyeTrackers interfaces, isEyeTracker name = true :=
  fun _ hname => (List.mem_filter.mp hname).2

/-! ## Normalizing twice -/

section Twice

variable {interfaces after : JsonMembers}

theorem pairwise_eyeTrackers (h : Json.Ascending interfaces) :
    (eyeTrackers interfaces).Pairwise (· < ·) :=
  (List.pairwise_map.mpr h).filter _

theorem nodup_eyeTrackers (h : Json.Ascending interfaces) : (eyeTrackers interfaces).Nodup := by
  apply (pairwise_eyeTrackers h).imp
  intro first second hlt heq
  exact Std.lt_irrefl (heq ▸ hlt)

theorem mem_eyeTrackers_iff (h : Json.Ascending interfaces) (name : Str) :
    name ∈ eyeTrackers interfaces ↔
      (interfaces.lookup name).isSome = true ∧ isEyeTracker name = true := by
  rw [eyeTrackers, List.mem_filter, List.mem_map]
  apply and_congr_left
  intro _
  apply Iff.intro
  · rintro ⟨⟨key, value⟩, hmem, rfl⟩
    rw [h.lookup_eq_some_iff.mpr hmem]
    rfl
  · intro hsome
    obtain ⟨value, hvalue⟩ := Option.isSome_iff_exists.mp hsome
    exact ⟨(name, value), h.lookup_eq_some_iff.mp hvalue, rfl⟩

/-- There are the same eye trackers afterwards. -/
theorem eyeTrackers_expanded (hordered : Json.Ascending interfaces)
    (h : BrokenDown (eyeTrackers interfaces) interfaces after) :
    eyeTrackers after = eyeTrackers interfaces := by
  have hmem (name : Str) : name ∈ eyeTrackers after ↔ name ∈ eyeTrackers interfaces := by
    rw [mem_eyeTrackers_iff h.ordered]
    by_cases hname : name ∈ eyeTrackers interfaces
    · simp [hname, h.lookup_name name hname, isEyeTracker_of_mem name hname]
    · cases heye : isEyeTracker name with
      | false => simp [mem_eyeTrackers_iff hordered, heye]
      | true =>
          rw [h.lookup_other name hname, derivedFrom_of_isEyeTracker _ _ heye,
            mem_eyeTrackers_iff hordered, heye]
          rfl
  have hperm : (eyeTrackers after).Perm (eyeTrackers interfaces) :=
    (List.perm_ext_iff_of_nodup (nodup_eyeTrackers h.ordered) (nodup_eyeTrackers hordered)).mpr hmem
  apply hperm.eq_of_pairwise _ (pairwise_eyeTrackers h.ordered) (pairwise_eyeTrackers hordered)
  exact fun left right _ _ hlt hgt => (Std.lt_irrefl (Std.lt_trans hlt hgt)).elim

theorem derivedCount_counted (iface : Json) (key : Str) :
    derivedCount (.obj (counted (writtenMembers iface))) key = derivedCount iface key := by
  cases hsome : ((writtenMembers iface).lookup COUNT_KEY).isSome with
  | true =>
      rw [counted_of_isSome hsome]
      cases iface with
      | obj members => rfl
      | null | bool _ | int _ | real _ | str _ | arr _ => cases hsome
  | false =>
      have hnone := Option.not_isSome_iff_eq_none.mp (Bool.eq_false_iff.mp hsome)
      have hzero : countOf (writtenMembers iface) = .ok 0 := by
        rw [countOf, hnone]
        rfl
      have hzero' : countOf (writtenMembers (.obj (counted (writtenMembers iface)))) = .ok 0 := by
        rw [countOf, writtenMembers, lookup_count_counted, ← countOf, hzero]
      rw [derivedCount_of_zero hzero, derivedCount_of_zero hzero']

/-- Expanding a second time changes nothing. -/
theorem expandInterfaces_expanded (hordered : Json.Ascending interfaces)
    (h : BrokenDown (eyeTrackers interfaces) interfaces after) :
    expandInterfaces (eyeTrackers after) after = .ok after := by
  have hentry (name : Str) (hname : name ∈ eyeTrackers interfaces) :
      ifaceAt after name = .obj (counted (writtenMembers (ifaceAt interfaces name))) := by
    rw [ifaceAt, h.lookup_name name hname]
    rfl
  have hbroken : ∀ name ∈ eyeTrackers interfaces, ∃ parts,
      breakDown (ifaceAt after name) = .ok parts := by
    intro name hname
    obtain ⟨parts, hparts⟩ := h.brokenDown name hname
    rw [hentry name hname, ← (breakDown_eq_ok hparts).1]
    exact ⟨parts, breakDown_counted hparts⟩
  have hsame := eyeTrackers_expanded hordered h
  obtain ⟨again, hrun⟩ := exists_expandInterfaces isEyeTracker_of_mem (nodup_eyeTrackers hordered)
    h.ordered hbroken
  have hagain := expanded_of_eq_ok isEyeTracker_of_mem (nodup_eyeTrackers hordered) h.ordered hrun
  have hderived (query : Str) : derivedFrom after (eyeTrackers interfaces) query =
      derivedFrom interfaces (eyeTrackers interfaces) query := by
    apply derivedFrom_congr
    intro name hname
    rw [hentry name hname, derivedCount_counted]
  rw [hsame, hrun]
  apply congrArg Except.ok
  apply hagain.ordered.ext h.ordered
  intro query
  by_cases hquery : query ∈ eyeTrackers interfaces
  · rw [hagain.lookup_name query hquery, hentry query hquery, h.lookup_name query hquery]
    exact congrArg (fun members => some (Json.obj members))
      (counted_of_isSome (isSome_lookup_counted _))
  · rw [hagain.lookup_other query hquery, hderived, h.lookup_other query hquery]
    cases derivedFrom interfaces (eyeTrackers interfaces) query with
    | none => rfl
    | some count => rfl

end Twice

/-! ## Descriptors as texts -/

section Texts

variable {codec : JsonCodec} {text normalized : Str} {descriptor : Json}

/-- A descriptor is left as it is without an object of interfaces; otherwise it is written
with these expanded. -/
theorem normalizedDescriptor_eq_ok {written : Option Json} (hordered : descriptor.Ordered)
    (hrun : normalizedDescriptor descriptor = .ok written) :
    (written = none ∧ descriptor.interfaces = []) ∨
      ∃ members after, descriptor = .obj members ∧
        members.lookup INTERFACES_KEY = some (.obj descriptor.interfaces) ∧
        BrokenDown (eyeTrackers descriptor.interfaces) descriptor.interfaces after ∧
        written = some (.obj (Json.insertMember INTERFACES_KEY (.obj after) members)) := by
  rw [normalizedDescriptor] at hrun
  cases descriptor with
  | null => exact .inl ⟨(Except.ok.inj hrun).symm, rfl⟩
  | bool _ | int _ | real _ | str _ | arr _ => cases hrun
  | obj members =>
      rw [Json.interfaces, JsonMembers.objectAt]
      simp only [Json.member?, bind, Except.bind] at hrun
      cases hlookup : members.lookup INTERFACES_KEY with
      | none =>
          rw [hlookup] at hrun
          exact .inl ⟨(Except.ok.inj hrun).symm, rfl⟩
      | some value =>
          rw [hlookup] at hrun
          cases value with
          | obj interfaces =>
              have hinner := Json.OrderedMembers.of_lookup hordered.2 hlookup
              dsimp only at hrun
              rw [normalizeInterfaces_eq hordered.1 hlookup] at hrun
              cases hexpand : expandInterfaces (eyeTrackers interfaces) interfaces with
              | error error =>
                  rw [eyeTrackers] at hexpand
                  rw [hexpand] at hrun
                  cases hrun
              | ok after =>
                  have hexpanded := expanded_of_eq_ok isEyeTracker_of_mem
                    (nodup_eyeTrackers hinner.1) hinner.1 hexpand
                  rw [eyeTrackers] at hexpand
                  rw [hexpand] at hrun
                  exact .inr ⟨members, after, rfl, hlookup, hexpanded, (Except.ok.inj hrun).symm⟩
          | null | bool _ | int _ | real _ | str _ | arr _ =>
              exact .inl ⟨(Except.ok.inj hrun).symm, rfl⟩

/-- The text after normalizing is the one before, or that of the value that is written. -/
theorem normalizeDeviceDescriptor_eq_ok (hparse : codec.parse text = some descriptor)
    (hordered : descriptor.Ordered)
    (hrun : normalizeDeviceDescriptor codec text = .ok normalized)
    (hread : ∀ value, normalizedDescriptor descriptor = .ok (some value) → codec.ReadsBack value) :
    (normalized = text ∧ descriptor.interfaces = []) ∨
      ∃ members after, descriptor = .obj members ∧
        members.lookup INTERFACES_KEY = some (.obj descriptor.interfaces) ∧
        BrokenDown (eyeTrackers descriptor.interfaces) descriptor.interfaces after ∧
        normalized =
          codec.toStyledString (.obj (Json.insertMember INTERFACES_KEY (.obj after) members)) ∧
        codec.parse normalized =
          some (.obj (Json.insertMember INTERFACES_KEY (.obj after) members)) := by
  rw [normalizeDeviceDescriptor_eq hparse] at hrun
  cases hwritten : normalizedDescriptor descriptor with
  | error error =>
      rw [hwritten] at hrun
      cases hrun
  | ok written =>
      rw [hwritten] at hrun
      obtain rfl := Except.ok.inj hrun
      rcases normalizedDescriptor_eq_ok hordered hwritten with
        ⟨rfl, hempty⟩ | ⟨members, after, hobject, hlookup, hexpanded, rfl⟩
      · exact .inl ⟨rfl, hempty⟩
      · exact .inr ⟨members, after, hobject, hlookup, hexpanded, rfl, hread _ hwritten⟩

/-- The text of the expanded interfaces is normalized to itself. -/
theorem normalizeDeviceDescriptor_again {members interfaces after : JsonMembers}
    (hmembers : Json.Ascending members) (hinterfaces : Json.Ascending interfaces)
    (h : BrokenDown (eyeTrackers interfaces) interfaces after)
    (hparse : codec.parse text =
      some (.obj (Json.insertMember INTERFACES_KEY (.obj after) members))) :
    normalizeDeviceDescriptor codec text =
      .ok (codec.toStyledString (.obj (Json.insertMember INTERFACES_KEY
        (.obj after) members))) := by
  have hlookup : (Json.insertMember INTERFACES_KEY (.obj after) members).lookup INTERFACES_KEY =
      some (.obj after) := by rw [Json.lookup_insertMember, if_pos rfl]
  have hagain := expandInterfaces_expanded hinterfaces h
  rw [eyeTrackers] at hagain
  rw [normalizeDeviceDescriptor, hparse]
  simp only [Json.member?, bind, Except.bind, hlookup]
  rw [normalizeInterfaces_eq (hmembers.insertMember _ _) hlookup, hagain]
  exact congrArg (fun again => Except.ok (codec.toStyledString (.obj again)))
    (Json.insertMember_insertMember _ _ _ _)

/-- Normalizing what is normalized gives the same value. -/
def Idempotent (codec : JsonCodec) (normalized : Str) : Prop :=
  ∃ again, normalizeDeviceDescriptor codec normalized = .ok again ∧
    codec.parse again = codec.parse normalized

/-- Nothing but what is derived from the eye trackers differs. -/
def LocalChange (before after : Json) : Prop :=
  before = after ∨ ∃ members members', before = .obj members ∧ after = .obj members' ∧
    (∀ name ≠ INTERFACES_KEY, members'.lookup name = members.lookup name) ∧
    ∀ name, derived before.interfaces name = none →
      after.interfaces.lookup name = before.interfaces.lookup name

/-- Every eye tracker is an object with a count. -/
def EyeTrackersCounted (descriptor : Json) : Prop :=
  ∀ name iface, descriptor.interfaces.lookup name = some iface → isEyeTracker name = true →
    ∃ members, iface = .obj members ∧ (members.lookup COUNT_KEY).isSome = true

theorem idempotent_normalizeDeviceDescriptor (hparse : codec.parse text = some descriptor)
    (hordered : descriptor.Ordered) (hrun : normalizeDeviceDescriptor codec text = .ok normalized)
    (hread : ∀ value, normalizedDescriptor descriptor = .ok (some value) → codec.ReadsBack value) :
    Idempotent codec normalized := by
  rcases normalizeDeviceDescriptor_eq_ok hparse hordered hrun hread with
    ⟨hsame, _⟩ | ⟨members, after, rfl, hlookup, hexpanded, hwritten, hparsed⟩
  · obtain rfl := hsame
    exact ⟨normalized, hrun, rfl⟩
  · have hinner := Json.OrderedMembers.of_lookup hordered.2 hlookup
    have hagain := normalizeDeviceDescriptor_again hordered.1 hinner.1 hexpanded hparsed
    rw [← hwritten] at hagain
    exact ⟨normalized, hagain, rfl⟩

/-- An entry that looking for its count leaves as it is has one. -/
theorem exists_of_eq_counted {iface : Json} (h : iface = .obj (counted (writtenMembers iface))) :
    ∃ members, iface = .obj members ∧ (members.lookup COUNT_KEY).isSome = true :=
  ⟨_, h, isSome_lookup_counted _⟩

theorem localChange_iff {members interfaces after : JsonMembers}
    (hlookup : members.lookup INTERFACES_KEY = some (.obj interfaces))
    (hordered : Json.Ascending interfaces)
    (h : BrokenDown (eyeTrackers interfaces) interfaces after) :
    LocalChange (.obj members) (.obj (Json.insertMember INTERFACES_KEY (.obj after) members)) ↔
      EyeTrackersCounted (.obj members) := by
  have hbefore : (Json.obj members).interfaces = interfaces := by
    rw [Json.interfaces, JsonMembers.objectAt, hlookup]
  have hafter : (Json.obj (Json.insertMember INTERFACES_KEY (.obj after) members)).interfaces =
      after := by
    rw [Json.interfaces, JsonMembers.objectAt, Json.lookup_insertMember, if_pos rfl]
  have hmem {name : Str} {iface : Json} (hiface : interfaces.lookup name = some iface)
      (hname : isEyeTracker name = true) : name ∈ eyeTrackers interfaces := by
    rw [mem_eyeTrackers_iff hordered, hiface]
    exact ⟨rfl, hname⟩
  apply Iff.intro
  · intro hlocal name iface hiface hname
    rw [hbefore] at hiface
    -- the entry of an eye tracker is not derived, so it has to be the same
    have hsame : after.lookup name = interfaces.lookup name := by
      rcases hlocal with heq | ⟨_, _, _, _, _, hderived⟩
      · rw [← hafter, ← heq, hbefore]
      · rw [hbefore, hafter] at hderived
        exact hderived name (derivedFrom_of_isEyeTracker _ _ hname)
    rw [h.lookup_name name (hmem hiface hname), hiface] at hsame
    have hentry : ifaceAt interfaces name = iface := by rw [ifaceAt, hiface, Option.getD_some]
    rw [hentry] at hsame
    exact exists_of_eq_counted (Option.some.inj hsame).symm
  · intro hcounted
    refine .inr ⟨members, _, rfl, rfl, ?_, ?_⟩
    · intro name hname
      rw [Json.lookup_insertMember, if_neg hname]
    · intro name hderived
      rw [hbefore] at hderived
      rw [hafter, hbefore]
      by_cases hname : name ∈ eyeTrackers interfaces
      · obtain ⟨hsome, heye⟩ := (mem_eyeTrackers_iff hordered name).mp hname
        obtain ⟨iface, hiface⟩ := Option.isSome_iff_exists.mp hsome
        obtain ⟨inner, hobject, hcount⟩ := hcounted name iface (by rw [hbefore, hiface]) heye
        rw [h.lookup_name name hname, ifaceAt, hiface, Option.getD_some, hobject, writtenMembers,
          counted_of_isSome hcount]
      · rw [h.lookup_other name hname]
        rw [derived] at hderived
        rw [hderived]
        rfl

/-- Normalization is idempotent, and it is local exactly when every eye tracker has a count. -/
theorem localChange_and_idempotent_iff (hparse : codec.parse text = some descriptor)
    (hordered : descriptor.Ordered) (hrun : normalizeDeviceDescriptor codec text = .ok normalized)
    (hread : ∀ value, normalizedDescriptor descriptor = .ok (some value) → codec.ReadsBack value) :
    (∃ after, codec.parse normalized = some after ∧ LocalChange descriptor after ∧
      Idempotent codec normalized) ↔ EyeTrackersCounted descriptor := by
  have hidempotent := idempotent_normalizeDeviceDescriptor hparse hordered hrun hread
  rcases normalizeDeviceDescriptor_eq_ok hparse hordered hrun hread with
    ⟨hsame, hempty⟩ | ⟨members, after, rfl, hlookup, hexpanded, hwritten, hafter⟩
  · apply Iff.intro
    · intro _ name iface hiface
      rw [hempty] at hiface
      cases hiface
    · exact fun _ => ⟨descriptor, hsame ▸ hparse, .inl rfl, hidempotent⟩
  · have hinner := Json.OrderedMembers.of_lookup hordered.2 hlookup
    have hlocal := localChange_iff hlookup hinner.1 hexpanded
    apply Iff.intro
    · rintro ⟨value, hvalue, hchange, _⟩
      obtain rfl := Option.some.inj (hvalue.symm.trans hafter)
      exact hlocal.mp hchange
    · exact fun hcounted => ⟨_, hafter, hlocal.mpr hcounted, hidempotent⟩

end Texts

/-- An eye tracker without a count, as a device may send it. -/
def uncountedText : Str :=
  "\x7b\"interfaces\":\x7b\"eyetracker\":\x7b\"direction\":true\x7d\x7d\x7d".toList

def uncountedDescriptor : Json :=
  .obj [(INTERFACES_KEY, .obj [(EYETRACKER_KEY, .obj [(DIRECTION_KEY, .bool true)])])]

/-- The same with the count that is created. -/
def nullCountText : Str :=
  "\x7b\n   \"interfaces\" : \x7b\n      \"eyetracker\" : \x7b\n".toList ++
    "         \"count\" : null,\n         \"direction\" : true\n      \x7d\n   \x7d\n\x7d\n".toList

def nullCountDescriptor : Json :=
  .obj [(INTERFACES_KEY,
    .obj [(EYETRACKER_KEY, .obj [(COUNT_KEY, .null), (DIRECTION_KEY, .bool true)])])]

/-- The library on a text, and on a value and the text it is written as. -/
def codecOn (text : Str) (descriptor : Json) (styled : Str) (normalized : Json) : JsonCodec where
  parse other :=
    if other = text then some descriptor else if other = styled then some normalized else none
  write _ := []
  toStyledString value := if value = normalized then styled else []
  realText _ := []

theorem readsBack_codecOn {text styled : Str} {descriptor normalized : Json}
    (hwritten : normalizedDescriptor descriptor = .ok (some normalized)) (hother : styled ≠ text)
    (value : Json) (h : normalizedDescriptor descriptor = .ok (some value)) :
    (codecOn text descriptor styled normalized).ReadsBack value := by
  obtain rfl := Option.some.inj (Except.ok.inj (hwritten.symm.trans h))
  rw [JsonCodec.ReadsBack, codecOn]
  dsimp only
  rw [if_pos rfl, if_neg hother, if_pos rfl]

def uncountedCodec : JsonCodec :=
  codecOn uncountedText uncountedDescriptor nullCountText nullCountDescriptor

theorem readsBack_nullCount (value : Json)
    (h : normalizedDescriptor uncountedDescriptor = .ok (some value)) :
    uncountedCodec.ReadsBack value := readsBack_codecOn rfl (by decide) value h

theorem ordered_uncountedDescriptor : uncountedDescriptor.Ordered := by
  simp [uncountedDescriptor, Json.Ordered, Json.OrderedMembers, Json.Ascending]

theorem parse_codecOn (text styled : Str) (descriptor normalized : Json) :
    (codecOn text descriptor styled normalized).parse text = some descriptor := by
  simp [codecOn]

theorem parse_codecOn_styled {text styled : Str} (descriptor normalized : Json)
    (hother : styled ≠ text) :
    (codecOn text descriptor styled normalized).parse styled = some normalized := by
  simp [codecOn, hother]

theorem parse_uncountedText : uncountedCodec.parse uncountedText = some uncountedDescriptor :=
  parse_codecOn _ _ _ _

theorem normalize_uncountedText :
    normalizeDeviceDescriptor uncountedCodec uncountedText = .ok nullCountText := by
  rw [normalizeDeviceDescriptor, parse_uncountedText]
  rfl

/-- What has been given a count changes no more. -/
theorem localChange_and_idempotent_nullCount :
    ∃ after, uncountedCodec.parse nullCountText = some after ∧
      LocalChange nullCountDescriptor after ∧ Idempotent uncountedCodec nullCountText := by
  have hparse : uncountedCodec.parse nullCountText = some nullCountDescriptor := rfl
  have hordered : nullCountDescriptor.Ordered := by
    simp [nullCountDescriptor, Json.Ordered, Json.OrderedMembers, Json.Ascending]
    decide
  have hnormal : normalizeDeviceDescriptor uncountedCodec nullCountText = .ok nullCountText := by
    rw [normalizeDeviceDescriptor, hparse]
    rfl
  have hwritten : normalizedDescriptor nullCountDescriptor =
      normalizedDescriptor uncountedDescriptor := rfl
  refine (localChange_and_idempotent_iff hparse hordered hnormal fun value hvalue =>
    readsBack_nullCount value (hwritten ▸ hvalue)).mpr fun name iface hiface _ => ?_
  have hentry : (name, iface) ∈
      [(EYETRACKER_KEY, Json.obj [(COUNT_KEY, .null), (DIRECTION_KEY, .bool true)])] :=
    Json.Ascending.mem_of_lookup hiface
  obtain ⟨-, rfl⟩ := Prod.mk.inj (List.mem_singleton.mp hentry)
  exact ⟨_, rfl, rfl⟩

/-- The eye tracker comes to have a member that it did not have. -/
theorem not_localChange_uncounted :
    ¬ ∀ (codec : JsonCodec) (text normalized : Str) (descriptor : Json),
      codec.parse text = some descriptor → descriptor.Ordered →
      normalizeDeviceDescriptor codec text = .ok normalized →
      (∀ value, normalizedDescriptor descriptor = .ok (some value) → codec.ReadsBack value) →
        ∃ after, codec.parse normalized = some after ∧ LocalChange descriptor after ∧
          Idempotent codec normalized := by
  intro hlocal
  have ⟨after, hafter, hchange, _⟩ := hlocal uncountedCodec uncountedText nullCountText
    uncountedDescriptor parse_uncountedText ordered_uncountedDescriptor normalize_uncountedText
    readsBack_nullCount
  have hread : uncountedCodec.parse nullCountText = some nullCountDescriptor := rfl
  obtain rfl := Option.some.inj (hafter.symm.trans hread)
  rcases hchange with heq | ⟨_, _, _, _, _, hderived⟩
  · exact absurd heq (by decide)
  · have hsame := hderived EYETRACKER_KEY (by decide)
    exact absurd hsame (by decide)

/-! ## Interfaces declared beside an eye tracker -/

/-- The interfaces that an eye tracker is broken down into. -/
def subInterfaces : List Str := [LOCATION2D_KEY, DIRECTION_KEY, TRACKER_KEY, BUTTON_KEY]

/-- What one interface declares, the other declares too: the same traits, and at least
as many sensors. -/
def Offers (kept declared : Json) : Prop :=
  ∀ trait value, (writtenMembers declared).lookup trait = some value →
    ∃ value', (writtenMembers kept).lookup trait = some value' ∧
      (value' = value ∨ trait = COUNT_KEY ∧ ∃ count count', value.asInt = .ok count ∧
        value'.asInt = .ok count' ∧ count ≤ count')

/-- Every interface that is declared by itself offers afterwards what it did before. -/
def StillOffered (before after : Json) : Prop :=
  ∀ key ∈ subInterfaces, ∀ declared, before.interfaces.lookup key = some declared →
    ∃ kept, after.interfaces.lookup key = some kept ∧ Offers kept declared

/-- An interface declares no more than what is derived under its name. -/
def DeclaresAtMost (key : Str) (count : Int) (declared : Json) : Prop :=
  ∀ trait value, (writtenMembers declared).lookup trait = some value →
    (trait = COUNT_KEY ∧ ∃ own, value.asInt = .ok own ∧ own ≤ count) ∨
      key = TRACKER_KEY ∧ (trait = BOUNDED_KEY ∧ value = .bool true ∨
        trait = ORIENTATION_KEY ∧ value = .bool false ∨ trait = POSITION_KEY ∧ value = .bool true)

/-- Every interface that is declared by itself and derived as well declares no more than
the derived one. -/
def WithinDerived (descriptor : Json) : Prop :=
  ∀ key ∈ subInterfaces, ∀ declared count, descriptor.interfaces.lookup key = some declared →
    derived descriptor.interfaces key = some count → DeclaresAtMost key count declared

theorem Offers.refl (declared : Json) : Offers declared declared :=
  fun _ value hvalue => ⟨value, hvalue, .inl rfl⟩

theorem asInt_bounds {value : Json} {count : Int} (h : value.asInt = .ok count) :
    -2147483648 ≤ count ∧ count ≤ 2147483647 := by
  cases value with
  | null =>
      obtain rfl := Except.ok.inj h
      decide
  | bool b =>
      obtain rfl := Except.ok.inj h
      cases b <;> decide
  | int n =>
      rw [Json.asInt] at h
      split at h
      next hrange => exact Except.ok.inj h ▸ hrange
      next => cases h
  | real q =>
      rw [Json.asInt] at h
      split at h
      next hrange =>
        obtain rfl := Except.ok.inj h
        have hlow : -2147483648 * (q.den : Int) ≤ q.num * 1 := (Rat.le_iff _ _).mp hrange.1
        have hhigh : q.num * 1 ≤ 2147483647 * (q.den : Int) := (Rat.le_iff _ _).mp hrange.2
        have hden : (0 : Int) < q.den := Int.natCast_pos.mpr q.den_pos
        rw [Int.mul_one] at hlow hhigh
        apply And.intro (Int.le_tdiv_of_mul_le hden hlow)
        by_cases hnum : 0 ≤ q.num
        · have hle := Int.tdiv_le_of_le_mul hden hhigh
          rwa [if_pos hnum] at hle
        · have hnegative : q.num ≤ 0 * (q.den : Int) := by omega
          have hle := Int.tdiv_le_of_le_mul hden hnegative
          rw [if_neg hnum] at hle
          omega
      next => cases h
  | str _ | arr _ | obj _ => cases h

theorem lookup_derivedEntry (count : Int) (key trait : Str) :
    (derivedEntry count key).lookup trait =
      if trait = COUNT_KEY then some (.int count)
      else if key = TRACKER_KEY then
        if trait = BOUNDED_KEY then some (.bool true)
        else if trait = ORIENTATION_KEY then some (.bool false)
        else if trait = POSITION_KEY then some (.bool true)
        else none
      else none := by
  unfold derivedEntry
  split
  next =>
    simp only [Json.lookup_cons, List.lookup_nil]
    by_cases hcount : trait = COUNT_KEY
    · rw [hcount, if_neg (by decide), if_pos rfl, if_pos rfl]
    · rw [if_neg hcount, if_neg hcount]
  next => rw [Json.lookup_cons, List.lookup_nil]

/-- The traits of a derived tracker; the other interfaces have none. -/
theorem lookup_traits (key trait : Str) (value : Json) :
    (if key = TRACKER_KEY then
        if trait = BOUNDED_KEY then some (.bool true)
        else if trait = ORIENTATION_KEY then some (.bool false)
        else if trait = POSITION_KEY then some (.bool true)
        else none
      else none) = some value ↔
      key = TRACKER_KEY ∧ (trait = BOUNDED_KEY ∧ value = .bool true ∨
        trait = ORIENTATION_KEY ∧ value = .bool false ∨
        trait = POSITION_KEY ∧ value = .bool true) := by
  have hbounded : BOUNDED_KEY ≠ ORIENTATION_KEY ∧ BOUNDED_KEY ≠ POSITION_KEY := by decide
  have horientation : ORIENTATION_KEY ≠ POSITION_KEY := by decide
  by_cases hkey : key = TRACKER_KEY
  · rw [if_pos hkey]
    split
    next h => simp [h, hkey, hbounded.1, hbounded.2, eq_comm]
    next h =>
      split
      next h' => simp [h', hkey, hbounded.1.symm, horientation, eq_comm]
      next h' =>
        split
        next h'' => simp [h'', hkey, hbounded.2.symm, horientation.symm, eq_comm]
        next h'' => simp [h, h', h'']
  · simp [hkey]

/-- The derived interface offers exactly what does not go beyond it. -/
theorem offers_derivedEntry_iff {count : Int} (hcount : (Json.int count).asInt = .ok count)
    (key : Str) (declared : Json) :
    Offers (.obj (derivedEntry count key)) declared ↔ DeclaresAtMost key count declared := by
  apply forall₃_congr
  intro trait value _
  rw [writtenMembers, lookup_derivedEntry]
  by_cases htrait : trait = COUNT_KEY
  · rw [if_pos htrait]
    apply Iff.intro
    · rintro ⟨value', hvalue', hoffer⟩
      obtain rfl := Option.some.inj hvalue'
      rcases hoffer with rfl | ⟨_, own, count', hown, hcount', hle⟩
      · exact .inl ⟨htrait, count, hcount, Int.le_refl count⟩
      · obtain rfl := Except.ok.inj (hcount.symm.trans hcount')
        exact .inl ⟨htrait, own, hown, hle⟩
    · rintro (⟨_, own, hown, hle⟩ | ⟨_, hother⟩)
      · exact ⟨_, rfl, .inr ⟨htrait, own, count, hown, hcount, hle⟩⟩
      · -- the count is none of the traits of a tracker
        rw [htrait] at hother
        rcases hother with ⟨hkey, _⟩ | ⟨hkey, _⟩ | ⟨hkey, _⟩
        · exact absurd hkey (by decide)
        · exact absurd hkey (by decide)
        · exact absurd hkey (by decide)
  · rw [if_neg htrait, ← lookup_traits]
    apply Iff.intro
    · rintro ⟨value', hvalue', rfl | ⟨hcount', _⟩⟩
      · exact .inr hvalue'
      · exact absurd hcount' htrait
    · rintro (⟨hcount', _⟩ | hvalue)
      · exact absurd hcount' htrait
      · exact ⟨value, hvalue, .inl rfl⟩

theorem asInt_of_derivedCount {iface : Json} {key : Str} {count : Int}
    (h : derivedCount iface key = some count) : (Json.int count).asInt = .ok count := by
  cases iface with
  | obj members =>
      rw [derivedCount] at h
      cases hread : ((members.lookup COUNT_KEY).getD .null).asInt with
      | error error =>
          rw [hread] at h
          cases h
      | ok found =>
          rw [hread] at h
          dsimp only at h
          split at h
          next =>
            obtain rfl := Option.some.inj h
            exact if_pos (asInt_bounds hread)
          next => cases h
  | null | bool _ | int _ | real _ | str _ | arr _ => cases h

theorem asInt_of_derivedFrom {interfaces : JsonMembers} {names : List Str} {key : Str} {count : Int}
    (h : derivedFrom interfaces names key = some count) : (Json.int count).asInt = .ok count := by
  induction names with
  | nil => cases h
  | cons name names ih =>
      rw [derivedFrom] at h
      cases hrest : derivedFrom interfaces names key with
      | none =>
          rw [hrest, Option.none_or] at h
          exact asInt_of_derivedCount h
      | some count' =>
          rw [hrest, Option.some_or] at h
          exact ih (hrest.trans h)

theorem isEyeTracker_of_mem_subInterfaces : ∀ key ∈ subInterfaces, isEyeTracker key = false := by
  decide

theorem stillOffered_iff {members interfaces after : JsonMembers}
    (hlookup : members.lookup INTERFACES_KEY = some (.obj interfaces))
    (h : BrokenDown (eyeTrackers interfaces) interfaces after) :
    StillOffered (.obj members) (.obj (Json.insertMember INTERFACES_KEY (.obj after) members)) ↔
      WithinDerived (.obj members) := by
  have hbefore : (Json.obj members).interfaces = interfaces := by
    rw [Json.interfaces, JsonMembers.objectAt, hlookup]
  have hafter : (Json.obj (Json.insertMember INTERFACES_KEY (.obj after) members)).interfaces =
      after := by
    rw [Json.interfaces, JsonMembers.objectAt, Json.lookup_insertMember, if_pos rfl]
  rw [StillOffered, WithinDerived, hbefore, hafter]
  apply forall₃_congr
  intro key hkey declared
  have hother : key ∉ eyeTrackers interfaces := by
    intro hmem
    have heye := isEyeTracker_of_mem key hmem
    rw [isEyeTracker_of_mem_subInterfaces key hkey] at heye
    cases heye
  rw [h.lookup_other key hother, ← derived]
  cases hderived : derived interfaces key with
  | none =>
      apply Iff.intro
      · exact fun _ count _ hcount => by cases hcount
      · exact fun _ hdeclared => ⟨declared, hdeclared, .refl declared⟩
  | some count =>
      have hoffers := offers_derivedEntry_iff (asInt_of_derivedFrom hderived) key declared
      apply Iff.intro
      · intro hkept count' hdeclared hcount'
        obtain rfl := Option.some.inj hcount'
        obtain ⟨kept, hentry, hoffer⟩ := hkept hdeclared
        obtain rfl := Option.some.inj hentry
        exact hoffers.mp hoffer
      · intro hwithin hdeclared
        exact ⟨_, rfl, hoffers.mpr (hwithin count hdeclared rfl)⟩

/-- The interfaces that are declared by themselves offer afterwards what they did before
exactly when none of them goes beyond the one that is derived in its place. -/
theorem stillOffered_normalizeDeviceDescriptor_iff {codec : JsonCodec} {text normalized : Str}
    {descriptor : Json} (hparse : codec.parse text = some descriptor)
    (hordered : descriptor.Ordered)
    (hrun : normalizeDeviceDescriptor codec text = .ok normalized)
    (hread : ∀ value, normalizedDescriptor descriptor = .ok (some value) → codec.ReadsBack value) :
    (∃ after, codec.parse normalized = some after ∧ StillOffered descriptor after) ↔
      WithinDerived descriptor := by
  rcases normalizeDeviceDescriptor_eq_ok hparse hordered hrun hread with
    ⟨hsame, hempty⟩ | ⟨members, after, rfl, hlookup, hexpanded, hwritten, hafter⟩
  · have hnone (key : Str) (declared : Json) :
        descriptor.interfaces.lookup key ≠ some declared := by
      rw [hempty]
      exact fun hdeclared => by cases hdeclared
    apply Iff.intro
    · exact fun _ key _ declared _ hdeclared => absurd hdeclared (hnone key declared)
    · intro _
      refine ⟨descriptor, hsame ▸ hparse, ?_⟩
      exact fun key _ declared hdeclared => absurd hdeclared (hnone key declared)
  · have hoffered := stillOffered_iff hlookup hexpanded
    apply Iff.intro
    · rintro ⟨value, hvalue, hstill⟩
      obtain rfl := Option.some.inj (hvalue.symm.trans hafter)
      exact hoffered.mp hstill
    · exact fun hwithin => ⟨_, hafter, hoffered.mpr hwithin⟩

/-- An eye tracker with a tracker, and a tracker with more sensors beside it. -/
def trackersText : Str :=
  "\x7b\"interfaces\":\x7b\"eyetracker\":\x7b\"count\":1,\"tracker\":true\x7d,".toList ++
    "\"tracker\":\x7b\"count\":2,\"orientation\":true\x7d\x7d\x7d".toList

def trackersDescriptor : Json :=
  .obj [(INTERFACES_KEY, .obj [
    (EYETRACKER_KEY, .obj [(COUNT_KEY, .int 1), (TRACKER_KEY, .bool true)]),
    (TRACKER_KEY, .obj [(COUNT_KEY, .int 2), (ORIENTATION_KEY, .bool true)])])]

def derivedTrackerText : Str :=
  "\x7b\n   \"interfaces\" : \x7b\n      \"eyetracker\" : \x7b\n         \"count\" : 1,\n".toList ++
    "         \"tracker\" : true\n      \x7d,\n      \"tracker\" : \x7b\n".toList ++
    "         \"bounded\" : true,\n         \"count\" : 1,\n".toList ++
    "         \"orientation\" : false,\n         \"position\" : true\n".toList ++
    "      \x7d\n   \x7d\n\x7d\n".toList

def derivedTrackerDescriptor : Json :=
  .obj [(INTERFACES_KEY, .obj [
    (EYETRACKER_KEY, .obj [(COUNT_KEY, .int 1), (TRACKER_KEY, .bool true)]),
    (TRACKER_KEY, .obj (derivedEntry 1 TRACKER_KEY))])]

def trackersCodec : JsonCodec :=
  codecOn trackersText trackersDescriptor derivedTrackerText derivedTrackerDescriptor

theorem readsBack_derivedTracker (value : Json)
    (h : normalizedDescriptor trackersDescriptor = .ok (some value)) :
    trackersCodec.ReadsBack value := readsBack_codecOn rfl (by decide) value h

theorem ordered_trackersDescriptor : trackersDescriptor.Ordered := by
  simp [trackersDescriptor, Json.Ordered, Json.OrderedMembers, Json.Ascending]
  decide

theorem parse_trackersText : trackersCodec.parse trackersText = some trackersDescriptor :=
  parse_codecOn _ _ _ _

theorem normalize_trackersText :
    normalizeDeviceDescriptor trackersCodec trackersText = .ok derivedTrackerText := by
  rw [normalizeDeviceDescriptor, parse_trackersText]
  rfl

/-- The derived tracker itself is offered again. -/
theorem stillOffered_derivedTracker :
    ∃ after, trackersCodec.parse derivedTrackerText = some after ∧
      StillOffered derivedTrackerDescriptor after := by
  have hparse : trackersCodec.parse derivedTrackerText = some derivedTrackerDescriptor :=
    parse_codecOn_styled _ _ (by decide)
  have hordered : derivedTrackerDescriptor.Ordered := by
    simp [derivedTrackerDescriptor, derivedEntry, Json.Ordered, Json.OrderedMembers, Json.Ascending]
    decide
  have hnormal : normalizeDeviceDescriptor trackersCodec derivedTrackerText =
      .ok derivedTrackerText := by
    rw [normalizeDeviceDescriptor, hparse]
    rfl
  have hwritten : normalizedDescriptor derivedTrackerDescriptor =
      .ok (some derivedTrackerDescriptor) := rfl
  refine (stillOffered_normalizeDeviceDescriptor_iff hparse hordered hnormal fun value hvalue =>
    ?_).mpr ?_
  · obtain rfl := Option.some.inj (Except.ok.inj (hwritten.symm.trans hvalue))
    exact readsBack_derivedTracker derivedTrackerDescriptor rfl
  · intro key hkey declared count hdeclared hcount
    have htracker : key = TRACKER_KEY := by
      simp only [subInterfaces, List.mem_cons, List.not_mem_nil, or_false] at hkey
      rcases hkey with rfl | rfl | rfl | rfl
      · cases hdeclared
      · cases hdeclared
      · rfl
      · cases hdeclared
    subst htracker
    obtain rfl := Option.some.inj hdeclared
    obtain rfl : 1 = count := Option.some.inj hcount
    intro trait value hvalue
    have hentry := Json.Ascending.mem_of_lookup hvalue
    simp only [writtenMembers, derivedEntry, if_true, List.mem_cons, List.not_mem_nil, or_false,
      Prod.mk.injEq] at hentry
    rcases hentry with ⟨rfl, rfl⟩ | ⟨rfl, rfl⟩ | ⟨rfl, rfl⟩ | ⟨rfl, rfl⟩
    · exact .inr ⟨rfl, .inl ⟨rfl, rfl⟩⟩
    · exact .inl ⟨rfl, 1, rfl, Int.le_refl 1⟩
    · exact .inr ⟨rfl, .inr (.inl ⟨rfl, rfl⟩)⟩
    · exact .inr ⟨rfl, .inr (.inr ⟨rfl, rfl⟩)⟩

/-- The second tracker is lost, and the orientation of both. -/
theorem not_stillOffered_trackers :
    ¬ ∀ (codec : JsonCodec) (text normalized : Str) (descriptor : Json),
      codec.parse text = some descriptor → descriptor.Ordered →
      normalizeDeviceDescriptor codec text = .ok normalized →
      (∀ value, normalizedDescriptor descriptor = .ok (some value) → codec.ReadsBack value) →
        ∃ after, codec.parse normalized = some after ∧ StillOffered descriptor after := by
  intro hoffered
  have ⟨after, hafter, hstill⟩ := hoffered trackersCodec trackersText derivedTrackerText
    trackersDescriptor parse_trackersText ordered_trackersDescriptor normalize_trackersText
    readsBack_derivedTracker
  have hread := readsBack_derivedTracker derivedTrackerDescriptor rfl
  obtain rfl := Option.some.inj (hafter.symm.trans hread)
  have ⟨kept, hkept, hoffer⟩ := hstill TRACKER_KEY (by decide)
    (.obj [(COUNT_KEY, .int 2), (ORIENTATION_KEY, .bool true)]) (by decide)
  have hentry : derivedTrackerDescriptor.interfaces.lookup TRACKER_KEY =
      some (.obj (derivedEntry 1 TRACKER_KEY)) := by decide
  obtain rfl := Option.some.inj (hkept.symm.trans hentry)
  have ⟨value, hvalue, hsame⟩ := hoffer ORIENTATION_KEY (.bool true) (by decide)
  obtain rfl : value = .bool false := Option.some.inj (hvalue.symm.trans (by decide))
  rcases hsame with heq | ⟨heq, _⟩
  · exact absurd heq (by decide)
  · exact absurd heq (by decide)

end OSVR.Common
