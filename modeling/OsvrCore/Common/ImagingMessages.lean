/-
# Imaging messages

One function describes the fields of a message for both directions: applied to a
serializer it appends the fields of the object, applied to a deserializer it
overwrites the fields of the object that it is called on. What it does not
mention keeps whatever value that object had before.
-/

import OsvrCore.Common.SerializationTraits

set_option autoImplicit false

namespace OSVR.Common

open Math

/-! ## Processing a message -/

/-- `SerializeFunctor` or `DeserializeFunctor`: what is called with each field,
returning the value the field has afterwards. -/
structure Processor (M : Type → Type) where
  integer : (n : ℕ) → BitVec (8 * n) → M (BitVec (8 * n))
  enumAsInteger : (enum integer : IntegerType) → enum.Value → M enum.Value
  string : List UInt8 → M (List UInt8)
  dataBuffer : (length alignment : ℕ) → List UInt8 → M (List UInt8)
  isDeserialize : Bool

/-- It leaves each field as it is. Of a data buffer it copies the length of the tag. -/
def serializeFunctor (host : HostOrder) : Processor (StateM Buffer) where
  integer n val := do
    modify (serializeInteger host n val)
    return val
  enumAsInteger enum integer val := do
    modify (serializeEnum host enum integer val)
    return val
  string val := do
    modify (serializeString host val)
    return val
  dataBuffer length alignment val := do
    modify (Buffer.appendAligned · (val.take length) alignment)
    return val
  isDeserialize := false

/-- It ignores what each field was. -/
def deserializeFunctor (host : HostOrder) : Processor BufferReading where
  integer n _ := deserializeInteger host n
  enumAsInteger enum integer _ := deserializeEnum host enum integer
  string _ := deserializeString host
  dataBuffer length alignment _ := do
    let bytes ← BufferReader.readBytesAligned length alignment
    return bytes.1
  isDeserialize := true

/-! ## Metadata -/

/-- The integer type of `OSVR_ImagingValueType`. -/
def imagingValueTypeInteger : IntegerType := ⟨.four, false⟩

/-- `uint8_t`. -/
def uint8Type : IntegerType := ⟨.one, false⟩

abbrev ImagingValueType := imagingValueTypeInteger.Value

namespace ImagingValueType

def OSVR_IVT_UNSIGNED_INT : ImagingValueType := BitVec.ofNat _ 0

def OSVR_IVT_SIGNED_INT : ImagingValueType := BitVec.ofNat _ 1

def OSVR_IVT_FLOATING_POINT : ImagingValueType := BitVec.ofNat _ 2

/-- The enumerators of `OSVR_ImagingValueType`. -/
def enumerators : List ImagingValueType :=
  [OSVR_IVT_UNSIGNED_INT, OSVR_IVT_SIGNED_INT, OSVR_IVT_FLOATING_POINT]

end ImagingValueType

/-- `OSVR_ImagingMetadata`. -/
structure ImagingMetadata where
  height : UInt32
  width : UInt32
  channels : UInt8
  depth : UInt8
  type : ImagingValueType
  deriving DecidableEq

/-- The product is computed in 32 bits. -/
def getBufferSize (metadata : ImagingMetadata) : UInt32 :=
  metadata.height * metadata.width * metadata.depth.toUInt32 * metadata.channels.toUInt32

/-- The number of bytes of an image. -/
def imageSize (metadata : ImagingMetadata) : ℕ :=
  metadata.height.toNat * metadata.width.toNat * metadata.depth.toNat * metadata.channels.toNat

section Messages

variable {M : Type → Type} [Monad M] (p : Processor M)

def processMetadata (metadata : ImagingMetadata) : M ImagingMetadata := do
  let height ← p.integer 4 metadata.height.toBitVec
  let width ← p.integer 4 metadata.width.toBitVec
  let channels ← p.integer 1 metadata.channels.toBitVec
  let depth ← p.integer 1 metadata.depth.toBitVec
  let type ← p.enumAsInteger imagingValueTypeInteger uint8Type metadata.type
  return ⟨.ofBitVec height, .ofBitVec width, .ofBitVec channels, .ofBitVec depth, type⟩

/-- Members of `ImageRegion::MessageSerialization`. -/
structure ImageRegion where
  metadata : ImagingMetadata
  imgBuf : List UInt8
  sensor : UInt32
  deriving DecidableEq

/-- The memory a deserializer reads into; a serializer keeps the image it has. -/
def ImageRegion.allocateBuffer (msg : ImageRegion) (bytes : ℕ) : ImageRegion :=
  if p.isDeserialize then { msg with imgBuf := List.replicate bytes 0 } else msg

def ImageRegion.processMessage (msg : ImageRegion) : M ImageRegion := do
  let metadata ← processMetadata p msg.metadata
  let msg := { msg with metadata }
  let bytes := (getBufferSize metadata).toNat
  let msg := msg.allocateBuffer p bytes
  let imgBuf ← p.dataBuffer bytes metadata.depth.toNat msg.imgBuf
  return { msg with imgBuf }

/-- `SharedMemoryMessage`. -/
structure SharedMemoryMessage where
  metadata : ImagingMetadata
  seqNum : UInt32
  sensor : UInt32
  abiLevel : UInt32
  backend : UInt8
  shmName : List UInt8
  deriving DecidableEq

def SharedMemoryMessage.processMessage (msg : SharedMemoryMessage) : M SharedMemoryMessage := do
  let metadata ← processMetadata p msg.metadata
  let seqNum ← p.integer 4 msg.seqNum.toBitVec
  let sensor ← p.integer 4 msg.sensor.toBitVec
  let abiLevel ← p.integer 4 msg.abiLevel.toBitVec
  let backend ← p.integer 1 msg.backend.toBitVec
  let shmName ← p.string msg.shmName
  return ⟨metadata, .ofBitVec seqNum, .ofBitVec sensor, .ofBitVec abiLevel,
    .ofBitVec backend, shmName⟩

end Messages

/-- `common::serialize` into an empty buffer. -/
def serializeMessage {α : Type} (host : HostOrder)
    (processMessage : Processor (StateM Buffer) → α → StateM Buffer α) (msg : α) : Buffer :=
  ((processMessage (serializeFunctor host) msg).run []).2

/-- `common::deserialize` into an object that is `msg` before. -/
def deserializeMessage {α : Type} (host : HostOrder)
    (processMessage : Processor BufferReading → α → BufferReading α) (buf : Buffer) (msg : α) :
    Except RuntimeError (α × BufferReader) :=
  (processMessage (deserializeFunctor host) msg).run buf.startReading

/-! ## Both directions of one field -/

/-- What a deserializer makes of what a serializer wrote: `written` is the value
in the writing object, `value` the one in the reading object. -/
structure Transfers {α γ : Type} (write : StateM Buffer α) (read : BufferReading γ) (written : α)
    (value : γ) : Prop where
  written : ∀ buf, (write.run buf).1 = written
  readsBack : ReadsBack (fun buf => (write.run buf).2) read value

namespace Transfers

variable {α α' γ γ' : Type} {write : StateM Buffer α} {read : BufferReading γ} {written : α}
  {value : γ}

theorem pure (written : α) (value : γ) :
    Transfers (Pure.pure written) (Pure.pure value) written value where
  written _ := rfl
  readsBack := ReadsBack.pure value

theorem bind {next : α → StateM Buffer α'} {rest : γ → BufferReading γ'} {writtenNext : α'}
    {result : γ'} (h : Transfers write read written value)
    (hnext : Transfers (next written) (rest value) writtenNext result) :
    Transfers (write >>= next) (read >>= rest) writtenNext result := by
  have hrun (buf : Buffer) : (write >>= next).run buf = (next written).run (write.run buf).2 := by
    rw [← h.written buf]
    rfl
  constructor
  · intro buf
    rw [hrun, hnext.written]
  · simp only [hrun]
    exact h.readsBack.bind rest hnext.readsBack

theorem deserializeMessage {msg fresh result : α} (host : HostOrder)
    (processWrite : Processor (StateM Buffer) → α → StateM Buffer α)
    (processRead : Processor BufferReading → α → BufferReading α)
    (h : Transfers (processWrite (serializeFunctor host) msg)
      (processRead (deserializeFunctor host) fresh) msg result) :
    deserializeMessage host processRead (serializeMessage host processWrite msg) fresh =
      .ok (result, ⟨serializeMessage host processWrite msg,
        (serializeMessage host processWrite msg).length⟩) :=
  h.readsBack.last.whole

end Transfers

section Fields

variable (host : HostOrder)

theorem transfers_integer (n : ℕ) (val fresh : BitVec (8 * n)) :
    Transfers ((serializeFunctor host).integer n val) ((deserializeFunctor host).integer n fresh)
      val val where
  written _ := rfl
  readsBack := readsBack_integer host n val

theorem transfers_enum {enum integer : IntegerType} {val : enum.Value}
    (hfits : integer.cast enum (enum.cast integer val) = val) (fresh : enum.Value) :
    Transfers ((serializeFunctor host).enumAsInteger enum integer val)
      ((deserializeFunctor host).enumAsInteger enum integer fresh) val val where
  written _ := rfl
  readsBack := readsBack_enum host hfits

theorem transfers_string (val fresh : List UInt8) :
    Transfers ((serializeFunctor host).string val) ((deserializeFunctor host).string fresh) val
      (val.take (lengthPrefix val.length).toNat) where
  written _ := rfl
  readsBack := readsBack_string_cut host val

theorem transfers_dataBuffer {length : ℕ} {val : List UInt8} (hlength : length ≤ val.length)
    (alignment : ℕ) (fresh : List UInt8) :
    Transfers ((serializeFunctor host).dataBuffer length alignment val)
      ((deserializeFunctor host).dataBuffer length alignment fresh) val (val.take length) where
  written _ := rfl
  readsBack :=
    (BufferReader.readsBack_readBytesAligned
      ⟨val.take length, List.length_take_of_le hlength⟩ alignment).map fun bytes => bytes.1

/-- Every field of the metadata arrives. -/
theorem transfers_metadata {metadata : ImagingMetadata}
    (htype : metadata.type ∈ ImagingValueType.enumerators) (fresh : ImagingMetadata) :
    Transfers (processMetadata (serializeFunctor host) metadata)
      (processMetadata (deserializeFunctor host) fresh) metadata metadata := by
  have hfits : uint8Type.cast imagingValueTypeInteger
      (imagingValueTypeInteger.cast uint8Type metadata.type) = metadata.type := by
    simp only [ImagingValueType.enumerators, List.mem_cons, List.not_mem_nil, or_false] at htype
    rcases htype with h | h | h
    all_goals
      rw [h]
      decide
  exact (transfers_integer host 4 _ _).bind <| (transfers_integer host 4 _ _).bind <|
    (transfers_integer host 1 _ _).bind <| (transfers_integer host 1 _ _).bind <|
    (transfers_enum host hfits _).bind <| .pure _ _

end Fields

/-! ## Both directions of a message -/

section RoundTrip

variable (host : HostOrder)

theorem toNat_getBufferSize (metadata : ImagingMetadata) :
    (getBufferSize metadata).toNat = imageSize metadata % 2 ^ 32 := by
  simp only [getBufferSize, imageSize, UInt32.toNat_mul, UInt8.toNat_toUInt32]
  rw [Nat.mul_mod _ metadata.depth.toNat, Nat.mul_mod _ metadata.channels.toNat,
    Nat.mul_mod (_ * _ * _) metadata.channels.toNat, Nat.mul_mod (_ * _) metadata.depth.toNat]
  simp

/-- An image region arrives with the sensor number that the reading object has. -/
theorem transfers_imageRegion {msg : ImageRegion}
    (htype : msg.metadata.type ∈ ImagingValueType.enumerators)
    (hpixels : msg.imgBuf.length = imageSize msg.metadata) (fresh : ImageRegion) :
    Transfers (msg.processMessage (serializeFunctor host))
      (fresh.processMessage (deserializeFunctor host)) msg
      { msg with
        imgBuf := msg.imgBuf.take (getBufferSize msg.metadata).toNat
        sensor := fresh.sensor } := by
  have hlength : (getBufferSize msg.metadata).toNat ≤ msg.imgBuf.length := by
    rw [toNat_getBufferSize, hpixels]
    exact Nat.mod_le _ _
  exact (transfers_metadata host htype _).bind <|
    (transfers_dataBuffer host hlength _ _).bind <| .pure _ _

theorem transfers_sharedMemoryMessage {msg : SharedMemoryMessage}
    (htype : msg.metadata.type ∈ ImagingValueType.enumerators) (fresh : SharedMemoryMessage) :
    Transfers (msg.processMessage (serializeFunctor host))
      (fresh.processMessage (deserializeFunctor host)) msg
      { msg with shmName := msg.shmName.take (lengthPrefix msg.shmName.length).toNat } :=
  (transfers_metadata host htype _).bind <| (transfers_integer host 4 _ _).bind <|
    (transfers_integer host 4 _ _).bind <| (transfers_integer host 4 _ _).bind <|
    (transfers_integer host 1 _ _).bind <| (transfers_string host _ _).bind <| .pure _ _

theorem getBufferSize_eq_imageSize_iff (metadata : ImagingMetadata) :
    (getBufferSize metadata).toNat = imageSize metadata ↔ imageSize metadata < 2 ^ 32 := by
  rw [toNat_getBufferSize]
  constructor
  · intro heq
    rw [← heq]
    exact Nat.mod_lt _ (by decide)
  · exact Nat.mod_eq_of_lt

/-- A list whose length is cut by `2 ^ 32` is whole exactly when it is shorter. -/
theorem take_mod_eq_self_iff {bytes : List UInt8} :
    bytes.take (bytes.length % 2 ^ 32) = bytes ↔ bytes.length < 2 ^ 32 := by
  constructor
  · intro hwhole
    have hlength : bytes.length ≤ bytes.length % 2 ^ 32 := by
      have htaken := congrArg List.length hwhole
      rw [List.length_take] at htaken
      exact (Nat.le_min.mp (Nat.le_of_eq htaken.symm)).1
    exact Nat.lt_of_le_of_lt hlength (Nat.mod_lt _ (by decide))
  · intro hlt
    rw [Nat.mod_eq_of_lt hlt, List.take_length]

/-- Both messages come back as they were sent exactly when the reading object has
the sent sensor number already, the size of the image fits the 32 bits in which it
is computed, and the segment name fits its length prefix. -/
theorem imaging_messages_roundTrip_iff (region freshRegion : ImageRegion)
    (announcement freshAnnouncement : SharedMemoryMessage)
    (htype : region.metadata.type ∈ ImagingValueType.enumerators)
    (hpixels : region.imgBuf.length = imageSize region.metadata)
    (hannounced : announcement.metadata.type ∈ ImagingValueType.enumerators) :
    ((∃ reader, deserializeMessage host ImageRegion.processMessage
        (serializeMessage host ImageRegion.processMessage region) freshRegion =
          .ok (region, reader)) ∧
      ∃ reader, deserializeMessage host SharedMemoryMessage.processMessage
        (serializeMessage host SharedMemoryMessage.processMessage announcement)
          freshAnnouncement = .ok (announcement, reader)) ↔
    freshRegion.sensor = region.sensor ∧ imageSize region.metadata < 2 ^ 32 ∧
      announcement.shmName.length < 2 ^ 32 := by
  have hregion := (transfers_imageRegion host htype hpixels freshRegion).deserializeMessage host _ _
  have hannouncement := (transfers_sharedMemoryMessage host hannounced
    freshAnnouncement).deserializeMessage host _ _
  have hsame {α : Type} (received sent : α) (reader : BufferReader) :
      (∃ after, (.ok (received, reader) : Except RuntimeError (α × BufferReader)) =
        .ok (sent, after)) ↔ received = sent := by simp
  rw [hregion, hannouncement, hsame, hsame, toNat_getBufferSize, ← hpixels]
  have himage : { region with
      imgBuf := region.imgBuf.take (region.imgBuf.length % 2 ^ 32)
      sensor := freshRegion.sensor } = region ↔
        freshRegion.sensor = region.sensor ∧ region.imgBuf.length < 2 ^ 32 := by
    rw [← take_mod_eq_self_iff, and_comm]
    cases region
    simp
  have hname : { announcement with
      shmName := announcement.shmName.take (lengthPrefix announcement.shmName.length).toNat } =
        announcement ↔ announcement.shmName.length < 2 ^ 32 := by
    rw [← take_mod_eq_self_iff]
    cases announcement
    simp [lengthPrefix]
  rw [himage, hname, and_assoc]

/-! ## The second sensor -/

/-- One grey pixel of sensor 1. -/
def greyPixel : ImageRegion where
  metadata := ⟨1, 1, 1, 1, ImagingValueType.OSVR_IVT_UNSIGNED_INT⟩
  imgBuf := [200]
  sensor := 1

/-- A message object whose memory happens to be zero. -/
def zeroRegion : ImageRegion where
  metadata := ⟨0, 0, 0, 0, ImagingValueType.OSVR_IVT_UNSIGNED_INT⟩
  imgBuf := []
  sensor := 0

/-- The announcement of the same image in a ring buffer. -/
def greyAnnouncement : SharedMemoryMessage where
  metadata := greyPixel.metadata
  seqNum := 7
  sensor := 1
  abiLevel := 0
  backend := 0
  shmName := [67, 97, 109]

def zeroAnnouncement : SharedMemoryMessage := ⟨zeroRegion.metadata, 0, 0, 0, 0, []⟩

/-- `HostOrder` of the usual machines. -/
def littleEndianHost : HostOrder := ⟨.littleEndian, false⟩

theorem imaging_messages_roundTrip_greyPixel :
    ¬ ((∃ reader, deserializeMessage littleEndianHost ImageRegion.processMessage
        (serializeMessage littleEndianHost ImageRegion.processMessage greyPixel) zeroRegion =
          .ok (greyPixel, reader)) ∧
      ∃ reader, deserializeMessage littleEndianHost SharedMemoryMessage.processMessage
        (serializeMessage littleEndianHost SharedMemoryMessage.processMessage greyAnnouncement)
          zeroAnnouncement = .ok (greyAnnouncement, reader)) := by
  rw [imaging_messages_roundTrip_iff littleEndianHost greyPixel zeroRegion greyAnnouncement
    zeroAnnouncement (by decide) (by decide) (by decide)]
  decide

/-- The pixel arrives, its sensor number does not. -/
theorem not_imaging_roundTrip :
    (deserializeMessage littleEndianHost ImageRegion.processMessage
      (serializeMessage littleEndianHost ImageRegion.processMessage greyPixel)
        zeroRegion).toOption.map
        (fun received => (received.1.imgBuf, received.1.sensor)) = some (greyPixel.imgBuf, 0) ∧
      greyPixel.sensor = 1 := by
  decide

end RoundTrip

end OSVR.Common
