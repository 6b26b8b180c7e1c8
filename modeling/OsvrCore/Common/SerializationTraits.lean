/-
# Serialization of values

How the values of each supported type are appended to a buffer and read back.
The supported types are a small universe: each type of it has the values that
the C++ type has, with numbers as bit patterns, and the two mutually recursive
functions below are the specializations of `SerializationTraits`. Memory in
which numbers are stored has the byte order of the host.
-/

import OsvrCore.Common.Buffer
import OsvrCore.Math.ByteOrder

set_option autoImplicit false

namespace OSVR.Common

open Math

/-! ## Supported types -/

/-- Size of an integer type. -/
inductive Width
  | one
  | two
  | four
  | eight
  deriving DecidableEq, Repr

def Width.bytes : Width → ℕ
  | one => 1
  | two => 2
  | four => 4
  | eight => 8

structure IntegerType where
  width : Width
  signed : Bool
  deriving DecidableEq, Repr

namespace IntegerType

/-- Values of an integer type, or of an enumeration with this underlying type. -/
abbrev Value (type : IntegerType) : Type := BitVec (8 * type.width.bytes)

/-- `static_cast` from one integer type to another. -/
def cast (source target : IntegerType) (value : source.Value) : target.Value :=
  if source.signed then value.signExtend _ else value.setWidth _

end IntegerType

mutual

/-- A type with `SerializationTraits`; the length and alignment of a data buffer
are those of its tag. A vector of `bool` is in the universe although C++ has no
traits for it. -/
inductive SerialType
  | integer (type : IntegerType)
  | double
  | bool
  | enumAsInteger (enum integer : IntegerType)
  | string
  | vector (element : SerialType)
  | struct (fields : SerialFields)
  | dataBuffer (length alignment : ℕ)

/-- A sequence of types: the fields of a struct, or of a message. -/
inductive SerialFields
  | nil
  | cons (field : SerialType) (rest : SerialFields)

end

mutual

/-- The values of a type. -/
def SerialType.Value : SerialType → Type
  | .integer type => type.Value
  | .double => BitVec (8 * 8)
  | .bool => Bool
  | .enumAsInteger enum _ => enum.Value
  | .string => List UInt8
  | .vector element => List element.Value
  | .struct fields => fields.Values
  | .dataBuffer length _ => List.Vector UInt8 length

def SerialFields.Values : SerialFields → Type
  | .nil => PUnit
  | .cons field rest => field.Value × rest.Values

end

mutual

/-- Lengths fit their 32-bit prefix, and an enumerator is representable in the
integer type of its tag. -/
def SerialType.Fits : (type : SerialType) → type.Value → Prop
  | .integer _, _ | .double, _ | .bool, _ | .dataBuffer _ _, _ => True
  | .enumAsInteger enum integer, value => integer.cast enum (enum.cast integer value) = value
  | .string, (value : List UInt8) => value.length < 2 ^ 32
  | .vector element, (values : List element.Value) =>
      values.length < 2 ^ 32 ∧ ∀ value ∈ values, element.Fits value
  | .struct fields, values => fields.Fits values

def SerialFields.Fits : (fields : SerialFields) → fields.Values → Prop
  | .nil, _ => True
  | .cons field rest, (value, values) => field.Fits value ∧ rest.Fits values

end

mutual

def SerialType.decidableFits : (type : SerialType) → (value : type.Value) →
    Decidable (type.Fits value)
  | .integer _, _ | .double, _ | .bool, _ | .dataBuffer _ _, _ => .isTrue trivial
  | .enumAsInteger enum integer, (value : enum.Value) =>
      decEq (integer.cast enum (enum.cast integer value)) value
  | .string, (value : List UInt8) => inferInstanceAs (Decidable (value.length < 2 ^ 32))
  | .vector element, (values : List element.Value) =>
      have : DecidablePred element.Fits := element.decidableFits
      inferInstanceAs (Decidable (values.length < 2 ^ 32 ∧ ∀ value ∈ values, element.Fits value))
  | .struct fields, values => fields.decidableFits values

def SerialFields.decidableFits : (fields : SerialFields) → (values : fields.Values) →
    Decidable (fields.Fits values)
  | .nil, _ => .isTrue trivial
  | .cons field rest, (value, values) =>
      have := field.decidableFits value
      have := rest.decidableFits values
      inferInstanceAs (Decidable (field.Fits value ∧ rest.Fits values))

end

instance (fields : SerialFields) (values : fields.Values) : Decidable (fields.Fits values) :=
  fields.decidableFits values

/-! ## Network byte order -/

/-- What the preprocessor finds out about the host. -/
structure HostOrder where
  words : ByteOrder
  mixedDoubles : Bool
  deriving DecidableEq, Repr

namespace HostOrder

variable (host : HostOrder) {n : ℕ}

/-- `genericByteSwap`: the object representation backwards. -/
def integerByteSwap (v : BitVec (8 * n)) : BitVec (8 * n) := host.words.rearrange List.reverse v

def hton (v : BitVec (8 * n)) : BitVec (8 * n) :=
  match host.words with
  | .bigEndian => v
  | .littleEndian => host.integerByteSwap v

def ntoh (v : BitVec (8 * n)) : BitVec (8 * n) := host.hton v

/-- The second word before the first one. -/
def swapWords (bytes : List UInt8) : List UInt8 := bytes.drop 4 ++ bytes.take 4

def htonDouble (v : BitVec (8 * 8)) : BitVec (8 * 8) :=
  let src := host.hton v
  if host.mixedDoubles then host.words.rearrange swapWords src else src

def ntohDouble (v : BitVec (8 * 8)) : BitVec (8 * 8) := host.htonDouble v

end HostOrder

/-! ## Traits -/

section Traits

open Buffer BufferReader

variable (host : HostOrder)

/-- `ArithmeticSerializationTraits::serialize` for an integer of `n` bytes. -/
def serializeInteger (n : ℕ) (val : BitVec (8 * n)) (buf : Buffer) : Buffer :=
  appendAligned buf (host.words.objectBytes (host.hton val)) n

def deserializeInteger (n : ℕ) : BufferReading (BitVec (8 * n)) := do
  let bytes ← readAligned n n
  return host.ntoh (host.words.ofObjectBytes bytes.1)

/-- `ArithmeticSerializationTraits::serialize` for a `double`. -/
def serializeDouble (val : BitVec (8 * 8)) (buf : Buffer) : Buffer :=
  appendAligned buf (host.words.objectBytes (host.htonDouble val)) 8

def deserializeDouble : BufferReading (BitVec (8 * 8)) := do
  let bytes ← readAligned 8 8
  return host.ntohDouble (host.words.ofObjectBytes bytes.1)

def OSVR_TRUE : BitVec (8 * 1) := 1

def OSVR_FALSE : BitVec (8 * 1) := 0

def serializeBool (val : Bool) (buf : Buffer) : Buffer :=
  serializeInteger host 1 (if val then OSVR_TRUE else OSVR_FALSE) buf

def deserializeBool : BufferReading Bool := do
  let cVal ← deserializeInteger host 1
  return cVal == OSVR_TRUE

/-- Traits of `EnumAsIntegerTag`; the enumeration is given by its underlying type. -/
def serializeEnum (enum integer : IntegerType) (val : enum.Value) (buf : Buffer) : Buffer :=
  serializeInteger host integer.width.bytes (enum.cast integer val) buf

def deserializeEnum (enum integer : IntegerType) : BufferReading enum.Value := do
  let intVal ← deserializeInteger host integer.width.bytes
  return integer.cast enum intVal

/-- The length of a string or vector, cut to 32 bits. -/
def lengthPrefix (length : ℕ) : BitVec (8 * 4) := BitVec.ofNat _ length

def serializeString (val : List UInt8) (buf : Buffer) : Buffer :=
  let len := lengthPrefix val.length
  (serializeInteger host 4 len buf).append (val.take len.toNat)

def deserializeString : BufferReading (List UInt8) := do
  let len ← deserializeInteger host 4
  let bytes ← readBytes len.toNat
  return bytes.1

/-- Traits of `std::vector`, over those of its elements. -/
def serializeVector {α : Type} (serializeElt : α → Buffer → Buffer) (val : List α)
    (buf : Buffer) : Buffer :=
  val.foldl (fun buf elt => serializeElt elt buf)
    (serializeInteger host 4 (lengthPrefix val.length) buf)

def deserializeVector {α : Type} (deserializeElt : BufferReading α) : BufferReading (List α) := do
  let n ← deserializeInteger host 4
  deserializeElt.times n.toNat

mutual

def SerialType.serialize : (type : SerialType) → type.Value → Buffer → Buffer
  | .integer type => serializeInteger host type.width.bytes
  | .double => serializeDouble host
  | .bool => serializeBool host
  | .enumAsInteger enum integer => serializeEnum host enum integer
  | .string => serializeString host
  | .vector element => serializeVector host element.serialize
  | .struct fields => fields.serialize
  | .dataBuffer _ alignment => fun val buf => appendAligned buf val.1 alignment

def SerialFields.serialize : (fields : SerialFields) → fields.Values → Buffer → Buffer
  | .nil => fun _ buf => buf
  | .cons field rest => fun (val, vals) buf => rest.serialize vals (field.serialize val buf)

end

mutual

def SerialType.deserialize : (type : SerialType) → BufferReading type.Value
  | .integer type => deserializeInteger host type.width.bytes
  | .double => deserializeDouble host
  | .bool => deserializeBool host
  | .enumAsInteger enum integer => deserializeEnum host enum integer
  | .string => deserializeString host
  | .vector element => deserializeVector host element.deserialize
  | .struct fields => fields.deserialize
  | .dataBuffer length alignment => readBytesAligned length alignment

def SerialFields.deserialize : (fields : SerialFields) → BufferReading fields.Values
  | .nil => pure PUnit.unit
  | .cons field rest => do
      let val ← field.deserialize
      let vals ← rest.deserialize
      return (val, vals)

end

/-- Traits of `StringOnlyMessageTag`: a string without its length. -/
def serializeStringOnly (val : List UInt8) (buf : Buffer) : Buffer := buf.append val

/-- It takes whatever the reader has left. -/
def deserializeStringOnly : BufferReading (List UInt8) := fun (reader : BufferReader) =>
  (do let bytes ← readBytes reader.bytesRemaining; return bytes.1 : BufferReading (List UInt8))
    reader

end Traits

/-! ## Byte order of the host -/

namespace HostOrder

variable (host : HostOrder) {n : ℕ}

theorem ntoh_hton (v : BitVec (8 * n)) : host.ntoh (host.hton v) = v := by
  unfold ntoh hton
  split
  next => rfl
  next =>
    unfold integerByteSwap
    rw [ByteOrder.rearrange_rearrange _ (fun _ => List.length_reverse)]
    exact ByteOrder.rearrange_eq_self _ (fun bytes _ => List.reverse_reverse bytes) v

theorem length_swapWords (bytes : List UInt8) : (swapWords bytes).length = bytes.length := by
  simp only [swapWords, List.length_append, List.length_drop, List.length_take]
  omega

/-- On eight bytes, swapping the words twice restores them, also when the bytes
are reversed before each swap. -/
theorem swapWords_swapWords {bytes : List UInt8} (hlength : bytes.length = 8) :
    swapWords (swapWords bytes) = bytes ∧
      swapWords (swapWords bytes.reverse).reverse = bytes := by
  match bytes, hlength with
  | [_, _, _, _, _, _, _, _], _ => exact ⟨rfl, rfl⟩

theorem ntohDouble_htonDouble (v : BitVec (8 * 8)) : host.ntohDouble (host.htonDouble v) = v := by
  unfold ntohDouble htonDouble
  cases hmixed : host.mixedDoubles with
  | false => exact host.ntoh_hton v
  | true =>
      simp only [if_true]
      unfold hton
      cases hwords : host.words with
      | bigEndian =>
          rw [ByteOrder.rearrange_rearrange _ length_swapWords]
          exact ByteOrder.rearrange_eq_self _ (fun bytes h => (swapWords_swapWords h).1) v
      | littleEndian =>
          unfold integerByteSwap
          rw [hwords, ByteOrder.rearrange_rearrange _ length_swapWords,
            ByteOrder.rearrange_rearrange _ (by simp [length_swapWords]),
            ByteOrder.rearrange_rearrange _ (by simp)]
          exact ByteOrder.rearrange_eq_self _ (fun bytes h => (swapWords_swapWords h).2) v

end HostOrder

/-! ## Round trip -/

section RoundTrip

open Buffer BufferReader

variable (host : HostOrder)

theorem readsBack_integer (n : ℕ) (val : BitVec (8 * n)) :
    ReadsBack (serializeInteger host n val) (deserializeInteger host n) val := by
  have hbytes := readsBack_readAligned
    ⟨host.words.objectBytes (host.hton val), host.words.length_objectBytes _⟩ n
  have hread :=
    hbytes.map fun bytes => host.ntoh (host.words.ofObjectBytes bytes.1 : BitVec (8 * n))
  simp only [ByteOrder.ofObjectBytes_objectBytes, host.ntoh_hton] at hread
  exact hread

theorem readsBack_double (val : BitVec (8 * 8)) :
    ReadsBack (serializeDouble host val) (deserializeDouble host) val := by
  have hbytes := readsBack_readAligned
    ⟨host.words.objectBytes (host.htonDouble val), host.words.length_objectBytes _⟩ 8
  have hread := hbytes.map fun bytes =>
    host.ntohDouble (host.words.ofObjectBytes bytes.1 : BitVec (8 * 8))
  simp only [ByteOrder.ofObjectBytes_objectBytes, host.ntohDouble_htonDouble] at hread
  exact hread

theorem toNat_lengthPrefix {length : ℕ} (hlength : length < 2 ^ 32) :
    (lengthPrefix length).toNat = length := by
  simp only [lengthPrefix, BitVec.toNat_ofNat]
  exact Nat.mod_eq_of_lt hlength

theorem readsBack_bool (val : Bool) :
    ReadsBack (serializeBool host val) (deserializeBool host) val := by
  have hread := (readsBack_integer host 1 (if val then OSVR_TRUE else OSVR_FALSE)).map
    fun cVal => cVal == OSVR_TRUE
  have hvalue : ((if val then OSVR_TRUE else OSVR_FALSE) == OSVR_TRUE) = val := by
    cases val <;> decide
  rw [hvalue] at hread
  exact hread

theorem readsBack_enum {enum integer : IntegerType} {val : enum.Value}
    (hfits : integer.cast enum (enum.cast integer val) = val) :
    ReadsBack (serializeEnum host enum integer val) (deserializeEnum host enum integer) val := by
  have hread := (readsBack_integer host integer.width.bytes (enum.cast integer val)).map
    fun intVal => integer.cast enum intVal
  rw [hfits] at hread
  exact hread

/-- A string comes back cut to the length its prefix can say. -/
theorem readsBack_string_cut (val : List UInt8) :
    ReadsBack (serializeString host val) (deserializeString host)
      (val.take (lengthPrefix val.length).toNat) := by
  have hlen : (lengthPrefix val.length).toNat ≤ val.length := by
    simp only [lengthPrefix, BitVec.toNat_ofNat]
    exact Nat.mod_le _ _
  have hbytes := readsBack_readBytes (n := (lengthPrefix val.length).toNat)
    ⟨val.take (lengthPrefix val.length).toNat, List.length_take_of_le hlen⟩
  exact (readsBack_integer host 4 (lengthPrefix val.length)).bind
    (fun len => do return (← readBytes len.toNat).1) (hbytes.map fun bytes => bytes.1)

theorem readsBack_string {val : List UInt8} (hlength : val.length < 2 ^ 32) :
    ReadsBack (serializeString host val) (deserializeString host) val := by
  have hread := readsBack_string_cut host val
  rw [toNat_lengthPrefix hlength, List.take_length] at hread
  exact hread

theorem readsBack_vector {α : Type} {serializeElt : α → Buffer → Buffer}
    {deserializeElt : BufferReading α} {val : List α} (hlength : val.length < 2 ^ 32)
    (helements : ∀ elt ∈ val, ReadsBack (serializeElt elt) deserializeElt elt) :
    ReadsBack (serializeVector host serializeElt val) (deserializeVector host deserializeElt)
      val := by
  have hall := ReadsBack.times val helements
  rw [← toNat_lengthPrefix hlength] at hall
  exact (readsBack_integer host 4 (lengthPrefix val.length)).bind
    (fun n => deserializeElt.times n.toNat) hall

mutual

/-- The traits of every supported type agree on every value that fits. The
induction is on the type, and the offset is arbitrary throughout. -/
theorem SerialType.readsBack : (type : SerialType) → (val : type.Value) → type.Fits val →
    ReadsBack (type.serialize host val) (type.deserialize host) val
  | .integer type, val, _ => readsBack_integer host type.width.bytes val
  | .double, val, _ => readsBack_double host val
  | .bool, val, _ => readsBack_bool host val
  | .enumAsInteger _ _, _, hfits => readsBack_enum host hfits
  | .string, _, hfits => readsBack_string host hfits
  | .vector element, _, hfits =>
      readsBack_vector host hfits.1 fun elt helt => element.readsBack elt (hfits.2 elt helt)
  | .struct fields, val, hfits => fields.readsBack val hfits
  | .dataBuffer _ alignment, val, _ => readsBack_readBytesAligned val alignment

theorem SerialFields.readsBack : (fields : SerialFields) → (vals : fields.Values) →
    fields.Fits vals → ReadsBack (fields.serialize host vals) (fields.deserialize host) vals
  | .nil, _, _ => ReadsBack.pure _
  | .cons field rest, (val, vals), hfits =>
      (field.readsBack val hfits.1).bind
        (fun val => do return (val, ← rest.deserialize host))
        ((rest.readsBack vals hfits.2).map fun vals => (val, vals))

end

theorem readsBackLast_stringOnly (val : List UInt8) :
    ReadsBackLast (serializeStringOnly val) deserializeStringOnly val := by
  intro before
  have hremaining : bytesRemaining ⟨before ++ val, before.length⟩ = val.length := by
    simp [bytesRemaining]
  have ⟨added, hwrite, hread⟩ := ((readsBack_readBytes (n := val.length) ⟨val, rfl⟩).map
    fun bytes => bytes.1).last before
  refine ⟨val, rfl, ?_⟩
  rw [List.append_cancel_left hwrite.symm] at hread
  have hall (n : ℕ) (hn : n = val.length) :
      (do let bytes ← readBytes n; return bytes.1 : BufferReading (List UInt8))
        ⟨before ++ val, before.length⟩ =
          .ok (val, ⟨before ++ val, (before ++ val).length⟩) := by
    subst hn
    exact hread
  exact hall _ hremaining

/-- A sequence of values serialized into an empty buffer is deserialized from it
exactly to its end, and so is a sequence that ends with a string without length. -/
theorem SerialFields.deserialize_serialize (fields : SerialFields) (vals : fields.Values)
    (hfits : fields.Fits vals) :
    (fields.deserialize host (startReading (fields.serialize host vals [])) =
      .ok (vals, ⟨fields.serialize host vals [], (fields.serialize host vals []).length⟩)) ∧
    ∀ (str : List UInt8) (buf : Buffer),
      buf = serializeStringOnly str (fields.serialize host vals []) →
      (do return (← fields.deserialize host, ← deserializeStringOnly) :
          BufferReading (fields.Values × List UInt8)) (startReading buf) =
        .ok ((vals, str), ⟨buf, buf.length⟩) := by
  have hvals := fields.readsBack host vals hfits
  constructor
  · exact hvals.last.whole
  · intro str buf hbuf
    subst hbuf
    have hstr : ReadsBackLast (serializeStringOnly str)
        (do return (vals, ← deserializeStringOnly)) (vals, str) := by
      intro before
      have ⟨added, hwrite, hread⟩ := readsBackLast_stringOnly str before
      exact ⟨added, hwrite, Reading.bind_ok hread⟩
    exact (hvals.bind_last (fun vals => do return (vals, ← deserializeStringOnly)) hstr).whole

/-- A byte, a vector of structs with a string each, an enumerator, an aligned
data buffer and a double. -/
def sampleFields : SerialFields :=
  .cons (.integer ⟨.one, false⟩) <|
  .cons (.vector (.struct (.cons .string (.cons .bool .nil)))) <|
  .cons (.enumAsInteger ⟨.four, false⟩ ⟨.one, false⟩) <|
  .cons (.dataBuffer 3 16) <|
  .cons .double .nil

def sampleValues : sampleFields.Values :=
  ((8 : BitVec 8), [([104, 105], true, .unit), ([], false, .unit)], (2 : BitVec 32),
    ⟨[1, 2, 3], rfl⟩, (0x4049400000000000 : BitVec 64), .unit)

theorem SerialFields.deserialize_serialize_sample :
    sampleFields.deserialize ⟨.littleEndian, false⟩
        (startReading (sampleFields.serialize ⟨.littleEndian, false⟩ sampleValues [])) =
      .ok (sampleValues, ⟨sampleFields.serialize ⟨.littleEndian, false⟩ sampleValues [],
        (sampleFields.serialize ⟨.littleEndian, false⟩ sampleValues []).length⟩) :=
  (SerialFields.deserialize_serialize _ sampleFields sampleValues (by decide)).1

end RoundTrip

end OSVR.Common
