/-
# Space required for values

How many bytes a value needs in a message is computed without writing it, by functions
that recurse over the value as its serialization does. They agree at every offset and on
every value whose lengths fit their prefixes. The prefix of a JSON value counts the text
that is written for it.
-/

import OsvrCore.Common.JsonValue
import OsvrCore.Common.SerializationTraits
import OsvrCore.Math.AppendCount

set_option autoImplicit false

namespace OSVR.Common

open Math

/-! ## Types of a counted size -/

/-- The tag that a string is serialized with. -/
inductive StringTag
  | default
  | stringOnlyMessage
  deriving DecidableEq, Repr

mutual

/-- A type with a tag whose traits have `spaceRequired`. The tag of a JSON value says
which string it is serialized as; that of a data buffer has its length and alignment. -/
inductive SizedType
  | integer (type : IntegerType)
  | double
  | string (tag : StringTag)
  | json (tag : StringTag)
  | dataBuffer (length alignment : ℕ)
  | vector (element : SizedType)
  | struct (fields : SizedFields)

inductive SizedFields
  | nil
  | cons (field : SizedType) (rest : SizedFields)

end

mutual

def SizedType.Value : SizedType → Type
  | .integer type => type.Value
  | .double => BitVec (8 * 8)
  | .string _ => List UInt8
  | .json _ => Json
  | .dataBuffer length _ => List.Vector UInt8 length
  | .vector element => List element.Value
  | .struct fields => fields.Values

def SizedFields.Values : SizedFields → Type
  | .nil => PUnit
  | .cons field rest => field.Value × rest.Values

end

section Traits

/-! The bytes that `Json::FastWriter` writes for a value are a parameter. -/

variable (host : HostOrder) (fastWriter : Json → List UInt8)

def StringTag.serialize : StringTag → List UInt8 → Buffer → Buffer
  | default => serializeString host
  | stringOnlyMessage => serializeStringOnly

mutual

def SizedType.serialize : (type : SizedType) → type.Value → Buffer → Buffer
  | .integer type => serializeInteger host type.width.bytes
  | .double => serializeDouble host
  | .string tag => tag.serialize host
  | .json tag => fun val => tag.serialize host (fastWriter val)
  | .dataBuffer _ alignment => fun val buf => buf.appendAligned val.1 alignment
  | .vector element => serializeVector host element.serialize
  | .struct fields => fields.apply

/-- `SimpleStructSerialization::apply` with the functor that serializes. -/
def SizedFields.apply : (fields : SizedFields) → fields.Values → Buffer → Buffer
  | .nil => fun _ buf => buf
  | .cons field rest => fun (val, vals) buf => rest.apply vals (field.serialize val buf)

end

/-- `ArithmeticSerializationTraits::spaceRequired` for a type of `n` bytes, to which it
is aligned. -/
def spaceRequiredArithmetic (n existingBytes : ℕ) : ℕ :=
  computeAlignmentPadding n existingBytes + n

def StringTag.spaceRequired (existingBytes : ℕ) : StringTag → List UInt8 → ℕ
  | default, val => spaceRequiredArithmetic 4 existingBytes + val.length
  | stringOnlyMessage, val => val.length

/-- Traits of `std::vector`, over those of its elements. -/
def spaceRequiredVector {α : Type} (spaceRequiredElt : ℕ → α → ℕ) (existingBytes : ℕ)
    (val : List α) : ℕ :=
  let bytes := existingBytes + spaceRequiredArithmetic 4 existingBytes
  val.foldl (fun bytes elt => bytes + spaceRequiredElt bytes elt) bytes - existingBytes

mutual

def SizedType.spaceRequired : (type : SizedType) → (existingBytes : ℕ) → type.Value → ℕ
  | .integer type => fun existingBytes _ => spaceRequiredArithmetic type.width.bytes existingBytes
  | .double => fun existingBytes _ => spaceRequiredArithmetic 8 existingBytes
  | .string tag => fun existingBytes val => tag.spaceRequired existingBytes val
  | .json tag => fun existingBytes val => tag.spaceRequired existingBytes (fastWriter val)
  | .dataBuffer length alignment => fun existingBytes _ =>
      computeAlignmentPadding alignment existingBytes + length
  | .vector element => spaceRequiredVector element.spaceRequired
  | .struct fields => fun existingBytes vals => fields.bytes existingBytes vals - existingBytes

/-- `m_bytes` of the functor that counts, when it has been applied to every member. -/
def SizedFields.bytes : (fields : SizedFields) → (bytes : ℕ) → fields.Values → ℕ
  | .nil => fun bytes _ => bytes
  | .cons field rest => fun bytes (val, vals) =>
      rest.bytes (bytes + field.spaceRequired bytes val) vals

end

/-! ## Lengths that fit -/

def StringTag.Fits : StringTag → List UInt8 → Prop
  | default, val => val.length < 2 ^ 32
  | stringOnlyMessage, _ => True

mutual

/-- Every length fits the prefix that it is written as. -/
def SizedType.Fits : (type : SizedType) → type.Value → Prop
  | .integer _, _ | .double, _ | .dataBuffer _ _, _ => True
  | .string tag, val => tag.Fits val
  | .json tag, val => tag.Fits (fastWriter val)
  | .vector element, (values : List element.Value) =>
      values.length < 2 ^ 32 ∧ ∀ value ∈ values, element.Fits value
  | .struct fields, values => fields.Fits values

def SizedFields.Fits : (fields : SizedFields) → fields.Values → Prop
  | .nil, _ => True
  | .cons field rest, (value, values) => field.Fits value ∧ rest.Fits values

end

end Traits

/-! ## Counting and writing -/

section Counting

variable (host : HostOrder) (fastWriter : Json → List UInt8)

theorem extends_appendAligned (bytes : List UInt8) (alignment : ℕ) :
    Extends (fun buf : Buffer => buf.appendAligned bytes alignment)
      (fun size => size + (computeAlignmentPadding alignment size + bytes.length)) := by
  have hpadded (padding : ℕ) :
      Extends (fun buf : Buffer => (buf.appendPadding padding).append bytes)
      (fun size => size + (padding + bytes.length)) := by
    intro buf
    refine ⟨List.replicate padding 0 ++ bytes, ?_, ?_⟩
    · dsimp only
      rw [Buffer.appendPadding]
      split
      next hzero =>
        rw [hzero]
        rfl
      next => exact List.append_assoc buf _ bytes
    · rw [List.length_append, List.length_replicate]
  exact Extends.at_length fun size => hpadded (computeAlignmentPadding alignment size)

theorem extends_serializeInteger (n : ℕ) (val : BitVec (8 * n)) :
    Extends (serializeInteger host n val) (fun size => size + spaceRequiredArithmetic n size) := by
  have hbytes := extends_appendAligned (host.words.objectBytes (host.hton val)) n
  rw [ByteOrder.length_objectBytes] at hbytes
  exact hbytes

theorem extends_serializeDouble (val : BitVec (8 * 8)) :
    Extends (serializeDouble host val) (fun size => size + spaceRequiredArithmetic 8 size) := by
  have hbytes := extends_appendAligned (host.words.objectBytes (host.htonDouble val)) 8
  rw [ByteOrder.length_objectBytes] at hbytes
  exact hbytes

/-- As many bytes of a string are written as its prefix says. -/
theorem extends_serializeString (val : List UInt8) :
    Extends (serializeString host val) (fun size =>
      size + (spaceRequiredArithmetic 4 size +
        (val.take (lengthPrefix val.length).toNat).length)) := by
  have hprefix := extends_serializeInteger host 4 (lengthPrefix val.length)
  have hwhole := hprefix.andThen (.append (val.take (lengthPrefix val.length).toNat))
  simp only [Nat.add_assoc] at hwhole
  exact hwhole

theorem StringTag.extends_serialize (tag : StringTag) {val : List UInt8} (hfits : tag.Fits val) :
    Extends (tag.serialize host val) (fun size => size + tag.spaceRequired size val) := by
  cases tag with
  | default =>
      have hstring := extends_serializeString host val
      rw [toNat_lengthPrefix hfits, List.take_length] at hstring
      exact hstring
  | stringOnlyMessage => exact .append val

theorem extends_serializeVector {α : Type} {serializeElt : α → Buffer → Buffer}
    {spaceRequiredElt : ℕ → α → ℕ} (val : List α)
    (helements : ∀ elt ∈ val,
      Extends (serializeElt elt) (fun size => size + spaceRequiredElt size elt)) :
    Extends (serializeVector host serializeElt val)
      (fun size => size + spaceRequiredVector spaceRequiredElt size val) := by
  have hall := (extends_serializeInteger host 4 (lengthPrefix val.length)).andThen
    (Extends.foldl val helements)
  exact hall.difference

mutual

/-- Counting and writing agree on every type and at every offset. The induction is on
the type. -/
theorem SizedType.extends_serialize : (type : SizedType) → (val : type.Value) →
    type.Fits fastWriter val → Extends (type.serialize host fastWriter val)
      (fun size => size + type.spaceRequired fastWriter size val)
  | .integer type, val, _ => extends_serializeInteger host type.width.bytes val
  | .double, val, _ => extends_serializeDouble host val
  | .string tag, _, hfits => tag.extends_serialize host hfits
  | .json tag, _, hfits => tag.extends_serialize host hfits
  | .dataBuffer length alignment, val, _ => by
      have hbytes := extends_appendAligned val.1 alignment
      rw [val.2] at hbytes
      exact hbytes
  | .vector element, val, hfits =>
      extends_serializeVector host val fun elt helt =>
        element.extends_serialize elt (hfits.2 elt helt)
  | .struct fields, vals, hfits => (fields.extends_apply vals hfits).difference

theorem SizedFields.extends_apply : (fields : SizedFields) → (vals : fields.Values) →
    fields.Fits fastWriter vals → Extends (fields.apply host fastWriter vals)
      (fun bytes => fields.bytes fastWriter bytes vals)
  | .nil, _, _ => Extends.refl
  | .cons field rest, (val, vals), hfits =>
      (field.extends_serialize val hfits.1).andThen (rest.extends_apply vals hfits.2)

end

/-- Serializing a value appends as many bytes as were said to be required. -/
theorem SizedType.exists_serialize_eq (type : SizedType) (val : type.Value)
    (hfits : type.Fits fastWriter val) (buf : Buffer) :
    ∃ added, type.serialize host fastWriter val buf = buf ++ added ∧
      type.spaceRequired fastWriter buf.length val = added.length := by
  have ⟨added, hadded, hlength⟩ := type.extends_serialize host fastWriter val hfits buf
  exact ⟨added, hadded, Nat.add_left_cancel hlength⟩

/-- A byte, and a vector of structs with a string and an aligned data buffer. -/
def countedType : SizedType :=
  .struct <| .cons (.integer ⟨.one, false⟩) <|
    .cons (.vector (.struct (.cons (.string .default) (.cons (.dataBuffer 3 16) .nil)))) .nil

def countedValue : countedType.Value :=
  ((8 : BitVec 8), [([104, 105], ⟨[7, 8, 9], rfl⟩, .unit), ([], ⟨[4, 5, 6], rfl⟩, .unit)], .unit)

example : countedType.spaceRequired (fun _ => []) 3 countedValue = 32 := by decide

theorem SizedType.exists_serialize_eq_counted :
    ∃ added, countedType.serialize ⟨.littleEndian, false⟩ (fun _ => []) countedValue [0, 0, 0] =
        [0, 0, 0] ++ added ∧
      countedType.spaceRequired (fun _ => []) 3 countedValue = added.length := by
  have hfits : countedType.Fits (fun _ => []) countedValue := by
    refine ⟨trivial, ⟨by decide, ?_⟩, trivial⟩
    rintro value (_ | ⟨_, _ | ⟨_, hnil⟩⟩)
    · exact ⟨show 2 < 2 ^ 32 by decide, trivial, trivial⟩
    · exact ⟨show 0 < 2 ^ 32 by decide, trivial, trivial⟩
    · cases hnil
  exact SizedType.exists_serialize_eq ⟨.littleEndian, false⟩ (fun _ => []) countedType countedValue
    hfits [0, 0, 0]

/-! ## Texts that are too long -/

/-- How a string of plain letters is written: in quotes, with a line end. -/
def writtenString : Json → List UInt8
  | .str text => 34 :: text.map (fun c => c.toNat.toUInt8) ++ [34, 10]
  | .null | .bool _ | .int _ | .real _ | .arr _ | .obj _ => []

theorem length_writtenString (text : Str) :
    (writtenString (.str text)).length = text.length + 3 := by
  rw [writtenString, List.length_append, List.length_cons, List.length_map]
  rfl

theorem serialize_json (val : Json) (buf : Buffer) :
    (SizedType.json .default).serialize host fastWriter val buf =
      serializeString host (fastWriter val) buf := rfl

theorem spaceRequired_json (val : Json) (existingBytes : ℕ) :
    (SizedType.json .default).spaceRequired fastWriter existingBytes val =
      spaceRequiredArithmetic 4 existingBytes + (fastWriter val).length := rfl

/-- The prefix of the text of a string of `2 ^ 32` letters is cut, and the text with it. -/
theorem not_serialize_eq_longString :
    ¬ ∀ (host : HostOrder) (fastWriter : Json → List UInt8) (val : Json) (buf : Buffer),
      ∃ added, (SizedType.json .default).serialize host fastWriter val buf = buf ++ added ∧
        (SizedType.json .default).spaceRequired fastWriter buf.length val = added.length := by
  intro hall
  obtain ⟨text, htext⟩ : ∃ text : Str, text.length = 2 ^ 32 :=
    ⟨List.replicate _ 'a', List.length_replicate⟩
  obtain ⟨added, hadded, hrequired⟩ := hall ⟨.littleEndian, false⟩ writtenString (.str text) []
  obtain ⟨cut, hcut, hlength⟩ :=
    extends_serializeString ⟨.littleEndian, false⟩ (writtenString (.str text)) []
  rw [serialize_json] at hadded
  obtain rfl : added = cut := List.append_cancel_left (hadded.symm.trans hcut)
  have hprefix : (lengthPrefix (2 ^ 32 + 3)).toNat = 3 := rfl
  rw [spaceRequired_json, length_writtenString, htext] at hrequired
  rw [List.length_take, length_writtenString, htext, hprefix] at hlength
  rw [List.length_nil] at hrequired hlength
  dsimp only at hlength
  omega

end Counting
end OSVR.Common
