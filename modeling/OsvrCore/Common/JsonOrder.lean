/-
# Objects as maps

The library keeps the members of an object in the order of their names, each name
once. Such lists are determined by what they answer to lookups, and assigning a
member keeps them such.
-/

import OsvrCore.Common.JsonValue

set_option autoImplicit false

namespace OSVR.Common

namespace Json

/-- The names ascend, so that each is there once. -/
def Ascending (members : JsonMembers) : Prop :=
  members.Pairwise fun first second => first.1 < second.1

mutual

/-- In every object of the value the names ascend. -/
def Ordered : Json → Prop
  | .obj members => Ascending members ∧ OrderedMembers members
  | .arr items => OrderedItems items
  | .null | .bool _ | .int _ | .real _ | .str _ => True

def OrderedItems : List Json → Prop
  | [] => True
  | item :: items => Ordered item ∧ OrderedItems items

def OrderedMembers : List (Str × Json) → Prop
  | [] => True
  | (_, value) :: rest => Ordered value ∧ OrderedMembers rest

end

theorem OrderedMembers.of_lookup {members : JsonMembers} (h : OrderedMembers members) {name : Str}
    {value : Json} (hvalue : members.lookup name = some value) : value.Ordered := by
  induction members with
  | nil => cases hvalue
  | cons member rest ih =>
      obtain ⟨key, first⟩ := member
      rw [lookup_cons] at hvalue
      split at hvalue
      next => exact Option.some.inj hvalue ▸ h.1
      next => exact ih h.2 hvalue

namespace Ascending

variable {members left right : JsonMembers} {name : Str} {value : Json}

theorem nil : Ascending [] := List.Pairwise.nil

/-- A name that comes before all others is not among them. -/
theorem lookup_tail_eq_none {rest : JsonMembers} (h : Ascending ((name, value) :: rest)) :
    rest.lookup name = none := by
  have hfirst := (List.pairwise_cons.mp h).1
  clear h
  induction rest with
  | nil => rfl
  | cons member rest ih =>
      obtain ⟨key, first⟩ := member
      rw [List.forall_mem_cons] at hfirst
      have hne : name ≠ key := fun heq => Std.lt_irrefl (heq ▸ hfirst.1)
      rw [lookup_cons, if_neg hne, ih hfirst.2]

theorem mem_of_lookup {list : JsonMembers} (h : list.lookup name = some value) :
    (name, value) ∈ list := by
  induction list with
  | nil => cases h
  | cons member rest ih =>
      obtain ⟨key, first⟩ := member
      rw [lookup_cons] at h
      split at h
      next hname =>
        obtain rfl := Option.some.inj h
        rw [hname]
        exact List.mem_cons_self
      next => exact List.mem_cons_of_mem _ (ih h)

theorem lookup_eq_some_iff (h : Ascending members) :
    members.lookup name = some value ↔ (name, value) ∈ members := by
  apply Iff.intro mem_of_lookup
  intro hmem
  induction members with
  | nil => cases hmem
  | cons member rest ih =>
      obtain ⟨key, first⟩ := member
      have hparts := List.pairwise_cons.mp h
      rw [lookup_cons]
      rcases List.mem_cons.mp hmem with heq | hrest
      · obtain ⟨rfl, rfl⟩ := Prod.mk.inj heq
        rw [if_pos rfl]
      · have hne : name ≠ key := fun heq => Std.lt_irrefl (heq ▸ hparts.1 _ hrest)
        rw [if_neg hne, ih hparts.2 hrest]

/-- Lists that answer all lookups alike are the same. -/
theorem ext (hleft : Ascending left) (hright : Ascending right)
    (h : ∀ name, left.lookup name = right.lookup name) : left = right := by
  induction left generalizing right with
  | nil =>
      cases right with
      | nil => rfl
      | cons member rest =>
          have hfirst := h member.1
          rw [lookup_cons, if_pos rfl] at hfirst
          cases hfirst
  | cons member rest ih =>
      obtain ⟨key, first⟩ := member
      cases right with
      | nil =>
          have hfirst := h key
          rw [lookup_cons, if_pos rfl] at hfirst
          cases hfirst
      | cons other others =>
          obtain ⟨key', first'⟩ := other
          have hparts := List.pairwise_cons.mp hleft
          have hparts' := List.pairwise_cons.mp hright
          -- a first name that is not the other first name would come before it and after it
          have hkey : key = key' := by
            apply Decidable.byContradiction
            intro hne
            have hlater := h key
            rw [lookup_cons, if_pos rfl, lookup_cons, if_neg hne] at hlater
            have hlater' := h key'
            rw [lookup_cons, if_neg (Ne.symm hne), lookup_cons, if_pos rfl] at hlater'
            exact Std.lt_irrefl (Std.lt_trans (hparts'.1 _ (mem_of_lookup hlater.symm))
              (hparts.1 _ (mem_of_lookup hlater')))
          subst hkey
          have hvalue := h key
          rw [lookup_cons, if_pos rfl, lookup_cons, if_pos rfl] at hvalue
          have hrest : rest = others := by
            apply ih hparts.2 hparts'.2
            intro query
            have hquery := h query
            rw [lookup_cons, lookup_cons] at hquery
            by_cases heq : query = key
            · rw [heq, lookup_tail_eq_none hleft, lookup_tail_eq_none hright]
            · rwa [if_neg heq, if_neg heq] at hquery
          rw [Option.some.inj hvalue, hrest]

theorem mem_insertMember {member : Str × Json} (h : member ∈ Json.insertMember name value members) :
    member = (name, value) ∨ member ∈ members := by
  induction members with
  | nil => exact .inl (List.mem_singleton.mp h)
  | cons first rest ih =>
      obtain ⟨key, old⟩ := first
      unfold Json.insertMember at h
      split at h
      next => exact (List.mem_cons.mp h).imp id (List.mem_cons_of_mem _)
      next =>
        split at h
        next => exact List.mem_cons.mp h
        next =>
          rcases List.mem_cons.mp h with heq | hrest
          · exact .inr (heq ▸ List.mem_cons_self)
          · exact (ih hrest).imp id (List.mem_cons_of_mem _)

theorem insertMember (h : Ascending members) (name : Str) (value : Json) :
    Ascending (Json.insertMember name value members) := by
  induction members with
  | nil => exact List.pairwise_singleton _ _
  | cons first rest ih =>
      obtain ⟨key, old⟩ := first
      have hparts := List.pairwise_cons.mp h
      unfold Json.insertMember
      split
      next hkey =>
        apply List.pairwise_cons.mpr
        exact ⟨fun member hmem => hkey ▸ hparts.1 member hmem, hparts.2⟩
      next hkey =>
        split
        next hlt =>
          apply List.pairwise_cons.mpr
          apply And.intro _ h
          intro member hmem
          rcases List.mem_cons.mp hmem with heq | hrest
          · rw [heq]
            exact hlt
          · exact Std.lt_trans hlt (hparts.1 member hrest)
        next hlt =>
          have hbefore : key < name := Std.lt_of_le_of_ne (Std.not_lt.mp hlt) hkey
          apply List.pairwise_cons.mpr
          apply And.intro _ (ih hparts.2)
          intro member hmem
          rcases mem_insertMember hmem with heq | hrest
          · rw [heq]
            exact hbefore
          · exact hparts.1 member hrest

/-- Assigning what is there changes nothing. -/
theorem insertMember_of_lookup (h : Ascending members) (hvalue : members.lookup name = some value) :
    Json.insertMember name value members = members := by
  apply (h.insertMember name value).ext h
  intro query
  rw [lookup_insertMember]
  split
  next hquery => rw [hquery, hvalue]
  next => rfl

end Ascending

/-- The later of two assignments to one name counts. -/
theorem insertMember_insertMember (name : Str) (first second : Json) (members : JsonMembers) :
    insertMember name second (insertMember name first members) =
      insertMember name second members := by
  induction members with
  | nil => simp [insertMember]
  | cons member rest ih =>
      obtain ⟨key, old⟩ := member
      by_cases hkey : key = name
      · simp [insertMember, hkey]
      · by_cases hlt : name < key
        · simp [insertMember, hkey, hlt]
        · simp [insertMember, hkey, hlt, ih]

end Json

/-- What is read has its objects in order. -/
def JsonCodec.ReadsOrdered (codec : JsonCodec) : Prop :=
  ∀ text value, codec.parse text = some value → value.Ordered

/-- The reader gives back this value from what the writer has written for it. -/
def JsonCodec.ReadsBack (codec : JsonCodec) (value : Json) : Prop :=
  codec.parse (codec.toStyledString value) = some value

end OSVR.Common
