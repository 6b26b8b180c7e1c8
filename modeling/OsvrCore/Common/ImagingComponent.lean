/-
# Image callbacks

A component receives images on the wire or as announcements of a shared-memory
ring buffer. The announcement carries the size of the image, the segment carries
the size of its entries, and the two were fixed at different times. The table of
ring buffers has one place for each sensor and is grown on demand; an access
past its end has no defined result and is a fault here.
-/

import OsvrCore.Common.ImagingMessages
import OsvrCore.Common.RingBufferCreation
import OsvrCore.Math.Transition

set_option autoImplicit false

namespace OSVR.Common

open Math

/-! ## Ring buffers of other processes -/

/-- A segment that some process created. -/
abbrev SegmentId := ℕ

/-- What stays the same while a component lives. -/
structure Platform where
  host : HostOrder
  /-- The backends that are compiled in. -/
  backends : List BackendType
  /-- The entry size with which a segment was created. -/
  bufferLength : SegmentId → UInt32
  /-- `vrpn_CONNECTION_TCP_BUFLEN`. -/
  tcpBuflen : ℕ
  deviceName : List UInt8

variable {platform : Platform}

/-- The shared memory as one message finds it: other processes create, remove and
fill segments at any time. -/
structure SharedMemory (platform : Platform) where
  openOnly : BackendType → List UInt8 → Option SegmentId
  createOnly : IPCRingBufferOptions → Option SegmentId
  bookkeeping : SegmentId → Bookkeeping
  element : (segment : SegmentId) → RawIndex →
    List.Vector UInt8 (platform.bufferLength segment).toNat
  bufLen_eq : ∀ segment, (bookkeeping segment).bufLen = platform.bufferLength segment
  createOnly_bufferLength : ∀ opts segment, createOnly opts = some segment →
    platform.bufferLength segment = opts.entrySize

/-- The segment still holds the sequence number. -/
def SharedMemory.Holds (memory : SharedMemory platform) (segment : SegmentId)
    (num : SequenceNumber) : Prop :=
  ∃ element, (memory.bookkeeping segment).getBySequenceNumber num = .ok (some element)

/-- The segment stays mapped as long as the object lives, under whatever name it
can be found meanwhile. -/
structure IPCRingBuffer (platform : Platform) where
  segment : SegmentId
  opts : IPCRingBufferOptions
  entrySize_eq : opts.entrySize = platform.bufferLength segment

namespace IPCRingBuffer

def getABILevel : UInt32 := 0

variable (memory : SharedMemory platform)

/-- `Impl` takes the number and the size of the entries from the segment. -/
def ofSegment (opts : IPCRingBufferOptions) (segment : SegmentId) : IPCRingBuffer platform where
  segment := segment
  opts := { opts with
    entries := (memory.bookkeeping segment).capacity
    entrySize := (memory.bookkeeping segment).bufLen }
  entrySize_eq := memory.bufLen_eq segment

def find (opts : IPCRingBufferOptions) : Option (IPCRingBuffer platform) :=
  if opts.shmBackend ∈ platform.backends then
    (memory.openOnly opts.shmBackend opts.name).map (ofSegment memory opts)
  else none

/-- A refused segment gives no ring. What the destructor of its holder does to a null pointer is
not modelled here, so that the runs that go on after it are more than the real ones. -/
def create (opts : IPCRingBufferOptions) : Option (IPCRingBuffer platform) :=
  if opts.shmBackend ∈ platform.backends then
    (memory.createOnly opts).map (ofSegment memory opts)
  else none

/-- The buffer of the element that holds a sequence number. -/
def get (ring : IPCRingBuffer platform) (num : SequenceNumber) :
    Except RingFault (Option (List UInt8)) :=
  ((memory.bookkeeping ring.segment).getBySequenceNumber num).map fun elt =>
    elt.map fun index => (memory.element ring.segment index).1

/-- The number under which a new element is filled. -/
def put (ring : IPCRingBuffer platform) : Except RingFault SequenceNumber :=
  (memory.bookkeeping ring.segment).produceElement.map fun produced => produced.2.1

end IPCRingBuffer

/-! ## The component -/

/-- A registered callback. -/
abbrev ImageHandler := ℕ

structure ImageData where
  sensor : UInt32
  metadata : ImagingMetadata
  buffer : List UInt8
  deriving DecidableEq

/-- Members of `ImagingComponent`. -/
structure ImagingComponent (platform : Platform) where
  numSensor : UInt32
  gotOne : Bool
  cb : List ImageHandler
  shmBuf : List (Option (IPCRingBuffer platform))

inductive ImagingFault
  | tableIndex
  | ring (fault : RingFault)
  | thrown (error : RuntimeError)
  deriving DecidableEq

/-- The component afterwards, with the callbacks in the order of their calls. -/
abbrev Handled (platform : Platform) :=
  Except ImagingFault (ImagingComponent platform × List (ImageHandler × ImageData))

namespace ImagingComponent

def create (platform : Platform) (numChan : UInt32) : ImagingComponent platform :=
  ⟨numChan, false, [], []⟩

variable (memory : SharedMemory platform) (self : ImagingComponent platform)

/-- `std::vector::resize`, new places being null. -/
def resize {α : Type} (table : List (Option α)) (count : ℕ) : List (Option α) :=
  table.take count ++ List.replicate (count - table.length) none

/-- The new size is computed in 32 bits. -/
def growShmVecIfRequired {α : Type} (table : List (Option α)) (sensor : UInt32) :
    List (Option α) :=
  if table.length ≤ sensor.toNat then resize table (sensor + 1).toNat else table

/-- `m_shmBuf[sensor]`. -/
def shmBufAt {α : Type} (table : List (Option α)) (sensor : UInt32) :
    Except ImagingFault (Option α) :=
  match table[sensor.toNat]? with
  | some entry => .ok entry
  | none => .error .tableIndex

def checkFirst : ImagingComponent platform := { self with gotOne := true }

def registerImageHandler (handler : ImageHandler) : ImagingComponent platform :=
  { self with cb := self.cb ++ [handler] }

/-- Every callback gets the same data. -/
def callAll (data : ImageData) : ImagingComponent platform × List (ImageHandler × ImageData) :=
  (self.checkFirst, self.cb.map fun cb => (cb, data))

def handleImageRegion (fresh : ImageRegion) (payload : Buffer) : Handled platform :=
  match deserializeMessage platform.host ImageRegion.processMessage payload fresh with
  | .error error => .error (.thrown error)
  | .ok (msg, _) => .ok (self.callAll ⟨msg.sensor, msg.metadata, msg.imgBuf⟩)

/-- The cached ring buffer is the announced one. -/
def checkSameRingBuf (msg : SharedMemoryMessage) (ringbuf : IPCRingBuffer platform) : Bool :=
  msg.backend == ringbuf.opts.shmBackend && ringbuf.opts.entrySize == getBufferSize msg.metadata &&
    ringbuf.opts.name == msg.shmName

/-- `m_shmBuf[msg.sensor]` after the search, from what it was before. -/
def announcedRing (msg : SharedMemoryMessage) (cached : Option (IPCRingBuffer platform)) :
    Option (IPCRingBuffer platform) :=
  match cached.filter (checkSameRingBuf msg) with
  | some ring => some ring
  | none => IPCRingBuffer.find memory (.named msg.shmName msg.backend)

def imagePlaced (msg : SharedMemoryMessage) : Handled platform :=
  if IPCRingBuffer.getABILevel ≠ msg.abiLevel then .ok (self, [])
  else
    let table := growShmVecIfRequired self.shmBuf msg.sensor
    match shmBufAt table msg.sensor with
    | .error fault => .error fault
    | .ok cached =>
      let ring := announcedRing memory msg cached
      let self := { self with shmBuf := table.set msg.sensor.toNat ring }
      match ring with
      | none => .ok (self, [])
      | some shm =>
        match shm.get memory msg.seqNum with
        | .error fault => .error (.ring fault)
        | .ok none => .ok (self, [])
        | .ok (some bufptr) => .ok (self.callAll ⟨msg.sensor, msg.metadata, bufptr⟩)

def handleImagePlacedInSharedMemory (fresh : SharedMemoryMessage) (payload : Buffer) :
    Handled platform :=
  match deserializeMessage platform.host SharedMemoryMessage.processMessage payload fresh with
  | .error error => .error (.thrown error)
  | .ok (msg, _) => self.imagePlaced memory msg

/-- The name under which a sensor's images are placed. The sensor is printed as an
`int`. -/
def makeName (sensor : UInt32) (devName : List UInt8) : List UInt8 :=
  "com.osvr.imaging/".toUTF8.toList ++ devName ++ "/".toUTF8.toList ++
    (toString sensor.toBitVec.toInt).toUTF8.toList

/-- The announcement is `none` when there is no segment to place the image in. -/
def sendImageDataViaSharedMemory (metadata : ImagingMetadata) (sensor : UInt32) :
    Except ImagingFault (ImagingComponent platform × Option SharedMemoryMessage) :=
  let table := growShmVecIfRequired self.shmBuf sensor
  let imageBufferSize := getBufferSize metadata
  match shmBufAt table sensor with
  | .error fault => .error fault
  | .ok current =>
    let ring :=
      match current.filter fun ring => ring.opts.entrySize == imageBufferSize with
      | some ring => some ring
      | none => IPCRingBuffer.create memory
          { name := makeNameSafe (makeName sensor platform.deviceName),
            entrySize := imageBufferSize }
    let self := { self with shmBuf := table.set sensor.toNat ring }
    match ring with
    | none => .ok (self, none)
    | some shm =>
      match shm.put memory with
      | .error fault => .error (.ring fault)
      | .ok seq => .ok (self, some ⟨metadata, seq, sensor, IPCRingBuffer.getABILevel,
          shm.opts.shmBackend, shm.opts.name⟩)

def sendImageDataOnTheWire (metadata : ImagingMetadata) (imageData : List UInt8) (sensor : UInt32) :
    Option Buffer :=
  if metadata.depth ≠ 1 then none
  else
    let buf :=
      serializeMessage platform.host ImageRegion.processMessage ⟨metadata, imageData, sensor⟩
    if buf.length > platform.tcpBuflen then none else some buf

/-- The component with the messages it packs. -/
def sendImageData (metadata : ImagingMetadata) (imageData : List UInt8) (sensor : UInt32) :
    Except ImagingFault (ImagingComponent platform × List Buffer) :=
  match self.sendImageDataViaSharedMemory memory metadata sensor with
  | .error fault => .error fault
  | .ok (self, placed) =>
    let announced := placed.map
      (serializeMessage platform.host SharedMemoryMessage.processMessage)
    let sent := announced.toList ++
      (@sendImageDataOnTheWire platform metadata imageData sensor).toList
    .ok (if sent = [] then self else self.checkFirst, sent)

end ImagingComponent

/-- What arrives for the component. The objects that are deserialized into are not
initialised. -/
inductive ImagingMessage (platform : Platform)
  | imageRegion (fresh : ImageRegion) (payload : Buffer)
  | imagePlacedInSharedMemory (memory : SharedMemory platform) (fresh : SharedMemoryMessage)
      (payload : Buffer)

inductive ImagingEvent (platform : Platform)
  | registerImageHandler (handler : ImageHandler)
  | sendImageData (memory : SharedMemory platform) (metadata : ImagingMetadata)
      (imageData : List UInt8) (sensor : UInt32)
  | receive (message : ImagingMessage platform)

namespace ImagingComponent

/-- The handlers of both messages are registered with the first callback. -/
def receive (self : ImagingComponent platform) (message : ImagingMessage platform) :
    Handled platform :=
  if self.cb = [] then .ok (self, [])
  else
    match message with
    | .imageRegion fresh payload => self.handleImageRegion fresh payload
    | .imagePlacedInSharedMemory memory fresh payload =>
        self.handleImagePlacedInSharedMemory memory fresh payload

/-- A component in use. An exception leaves the component as it was; after any other
fault there is no next state. -/
def inUse (platform : Platform) (numChan : UInt32) :
    TransitionSystem (ImagingComponent platform) (ImagingEvent platform) where
  init := create platform numChan
  step event self :=
    match event with
    | .registerImageHandler handler => some (self.registerImageHandler handler)
    | .sendImageData memory metadata imageData sensor =>
        (self.sendImageData memory metadata imageData sensor).toOption.map fun sent => sent.1
    | .receive message => (self.receive message).toOption.map fun handled => handled.1

/-! ## The table -/

section Table

variable {α : Type} {table : List (Option α)} {sensor : UInt32}

theorem length_resize (table : List (Option α)) (count : ℕ) :
    (resize table count).length = count := by
  simp only [resize, List.length_append, List.length_take, List.length_replicate]
  omega

theorem getElem?_resize {count index : ℕ} (hindex : index < count) :
    (resize table count)[index]? = some table[index]?.join := by
  by_cases hold : index < table.length
  · have htaken : index < (table.take count).length := by
      rw [List.length_take]
      exact Nat.lt_min.mpr ⟨hindex, hold⟩
    rw [resize, List.getElem?_append_left htaken, List.getElem?_take_of_lt hindex,
      List.getElem?_eq_getElem hold]
    rfl
  · have hlength := Nat.le_of_not_lt hold
    rw [List.getElem?_eq_none hlength, resize, List.take_of_length_le (by omega),
      List.getElem?_append_right hlength, List.getElem?_replicate_of_lt (by omega)]
    rfl

theorem length_grow_lt (hlength : table.length < 2 ^ 32) :
    (growShmVecIfRequired table sensor).length < 2 ^ 32 := by
  unfold growShmVecIfRequired
  split
  next =>
    rw [length_resize]
    exact UInt32.toNat_lt _
  next => exact hlength

theorem getElem?_grow (hsensor : sensor.toNat + 1 < 2 ^ 32) :
    (growShmVecIfRequired table sensor)[sensor.toNat]? = some table[sensor.toNat]?.join := by
  unfold growShmVecIfRequired
  split
  next =>
    have hcount : (sensor + 1).toNat = sensor.toNat + 1 := by
      rw [UInt32.toNat_add]
      exact Nat.mod_eq_of_lt hsensor
    rw [hcount, getElem?_resize (Nat.lt_succ_self _)]
  next hlarge =>
    rw [List.getElem?_eq_getElem (Nat.lt_of_not_le hlarge)]
    rfl

/-- Any sensor number but the last one finds its place in the grown table. -/
theorem shmBufAt_grow (hsensor : sensor.toNat + 1 < 2 ^ 32) :
    shmBufAt (growShmVecIfRequired table sensor) sensor = .ok table[sensor.toNat]?.join := by
  rw [shmBufAt, getElem?_grow hsensor]

/-- For the last sensor number the new size wraps to zero. -/
theorem shmBufAt_grow_last (hlength : table.length < 2 ^ 32) (hsensor : sensor.toNat + 1 = 2 ^ 32) :
    shmBufAt (growShmVecIfRequired table sensor) sensor = .error .tableIndex := by
  have hsmall : table.length ≤ sensor.toNat := by omega
  have hcount : (sensor + 1).toNat = 0 := by
    rw [UInt32.toNat_add]
    simp [hsensor]
  rw [growShmVecIfRequired, if_pos hsmall, hcount]
  simp [resize, shmBufAt]

end Table

/-! ## What a message does to the table -/

section Handled

variable {memory : SharedMemory platform} {self after : ImagingComponent platform}

/-- The table is as before, or it has been grown and one place in it assigned. -/
def TableStep (self after : ImagingComponent platform) : Prop :=
  after.shmBuf = self.shmBuf ∨
    ∃ sensor ring, after.shmBuf = (growShmVecIfRequired self.shmBuf sensor).set sensor.toNat ring

theorem TableStep.length_lt (h : TableStep self after) (hlength : self.shmBuf.length < 2 ^ 32) :
    after.shmBuf.length < 2 ^ 32 := by
  rcases h with hsame | ⟨sensor, ring, hassigned⟩
  · rw [hsame]
    exact hlength
  · rw [hassigned, List.length_set]
    exact length_grow_lt hlength

theorem tableStep_imagePlaced {msg : SharedMemoryMessage}
    {calls : List (ImageHandler × ImageData)}
    (h : self.imagePlaced memory msg = .ok (after, calls)) : TableStep self after := by
  unfold imagePlaced at h
  split at h
  next =>
    cases h
    exact .inl rfl
  next =>
    apply Or.inr
    refine ⟨msg.sensor, ?_⟩
    dsimp only at h
    split at h
    next => cases h
    next cached _ =>
      refine ⟨announcedRing memory msg cached, ?_⟩
      split at h
      next hring =>
        cases h
        rfl
      next shm hring =>
        split at h
        next => cases h
        next =>
          cases h
          rfl
        next =>
          cases h
          rfl

theorem tableStep_sendImageDataViaSharedMemory {metadata : ImagingMetadata} {sensor : UInt32}
    {placed : Option SharedMemoryMessage}
    (h : self.sendImageDataViaSharedMemory memory metadata sensor = .ok (after, placed)) :
    TableStep self after := by
  unfold sendImageDataViaSharedMemory at h
  dsimp only at h
  split at h
  next => cases h
  next =>
    apply Or.inr
    refine ⟨sensor, ?_⟩
    split at h
    next hring =>
      cases h
      exact ⟨_, rfl⟩
    next =>
      split at h
      next => cases h
      next =>
        cases h
        exact ⟨_, rfl⟩

theorem tableStep_sendImageData {metadata : ImagingMetadata} {imageData : List UInt8}
    {sensor : UInt32} {sent : List Buffer}
    (h : self.sendImageData memory metadata imageData sensor = .ok (after, sent)) :
    TableStep self after := by
  unfold sendImageData at h
  split at h
  next => cases h
  next placing placed hplaced =>
    have hstep := tableStep_sendImageDataViaSharedMemory hplaced
    have hafter : after.shmBuf = placing.shmBuf := by
      cases h
      split <;> rfl
    rw [TableStep, hafter]
    exact hstep

theorem tableStep_receive {message : ImagingMessage platform}
    {calls : List (ImageHandler × ImageData)} (h : self.receive message = .ok (after, calls)) :
    TableStep self after := by
  unfold receive at h
  split at h
  next =>
    cases h
    exact .inl rfl
  next =>
    cases message with
    | imageRegion fresh payload =>
        simp only [handleImageRegion] at h
        split at h
        next => cases h
        next =>
          cases h
          exact .inl rfl
    | imagePlacedInSharedMemory memory fresh payload =>
        simp only [handleImagePlacedInSharedMemory] at h
        split at h
        next => cases h
        next => exact tableStep_imagePlaced h

end Handled

theorem eq_ok_of_toOption {ε α : Type} {outcome : Except ε α} {result : α}
    (h : outcome.toOption = some result) : outcome = .ok result := by
  cases outcome with
  | error => cases h
  | ok => exact congrArg Except.ok (Option.some.inj h)

theorem length_shmBuf_lt {numChan : UInt32} {self : ImagingComponent platform}
    (hreach : (inUse platform numChan).Reachable self) : self.shmBuf.length < 2 ^ 32 := by
  have hinvariant : (inUse platform numChan).Invariant (fun _ _ => True)
      fun self => self.shmBuf.length < 2 ^ 32 := by
    constructor
    · simp [inUse, create]
    · intro before after event hbefore _ hstep
      cases event with
      | registerImageHandler handler =>
          cases hstep
          exact hbefore
      | sendImageData memory metadata imageData sensor =>
          have ⟨sent, hsent, hafter⟩ := Option.map_eq_some_iff.mp hstep
          cases hafter
          exact (tableStep_sendImageData (eq_ok_of_toOption hsent)).length_lt hbefore
      | receive message =>
          have ⟨handled, hhandled, hafter⟩ := Option.map_eq_some_iff.mp hstep
          cases hafter
          exact (tableStep_receive (eq_ok_of_toOption hhandled)).length_lt hbefore
  exact hinvariant.reachable hreach

/-! ## The size of the buffer -/

/-- No access past the table, and every callback gets a buffer for the whole image. -/
def Safe (outcome : Handled platform) : Prop :=
  match outcome with
  | .error fault => fault ≠ .tableIndex
  | .ok (_, calls) => ∀ call ∈ calls, imageSize call.2.metadata ≤ call.2.buffer.length

/-- The pixels of a received region have the size that was computed in 32 bits. -/
theorem length_imgBuf_of_deserialize {host : HostOrder} {payload : Buffer} {fresh msg : ImageRegion}
    {reader : BufferReader}
    (h : deserializeMessage host ImageRegion.processMessage payload fresh = .ok (msg, reader)) :
    msg.imgBuf.length = (getBufferSize msg.metadata).toNat := by
  have ⟨metadata, afterMetadata, _, hrest⟩ := Reading.of_bind_ok h
  have ⟨imgBuf, afterPixels, hpixels, hresult⟩ := Reading.of_bind_ok hrest
  have ⟨bytes, afterBytes, _, hbytes⟩ := Reading.of_bind_ok hpixels
  cases hbytes
  cases hresult
  exact bytes.2

variable {memory : SharedMemory platform} {self : ImagingComponent platform}

theorem safe_callAll_iff (hcb : self.cb ≠ []) (data : ImageData) :
    Safe (.ok (self.callAll data)) ↔ imageSize data.metadata ≤ data.buffer.length := by
  have ⟨handler, hhandler⟩ := List.exists_mem_of_ne_nil _ hcb
  constructor
  · intro hsafe
    exact hsafe _ (List.mem_map_of_mem hhandler)
  · intro hsize call hcall
    have ⟨_, _, heq⟩ := List.mem_map.mp hcall
    rw [← heq]
    exact hsize

theorem safe_silent (self : ImagingComponent platform) : Safe (.ok (self, [])) := by
  intro call hcall
  cases hcall

theorem getBufferSize_ge_iff (metadata : ImagingMetadata) :
    imageSize metadata ≤ (getBufferSize metadata).toNat ↔ imageSize metadata < 2 ^ 32 := by
  rw [← getBufferSize_eq_imageSize_iff, toNat_getBufferSize]
  have := Nat.mod_le (imageSize metadata) (2 ^ 32)
  omega

theorem safe_handleImageRegion_iff (hcb : self.cb ≠ []) (fresh : ImageRegion) (payload : Buffer) :
    Safe (self.handleImageRegion fresh payload) ↔
      ∀ msg reader, deserializeMessage platform.host ImageRegion.processMessage payload fresh =
        .ok (msg, reader) → imageSize msg.metadata < 2 ^ 32 := by
  unfold handleImageRegion
  cases hmsg : deserializeMessage platform.host ImageRegion.processMessage payload fresh with
  | error error => simp [Safe]
  | ok received =>
      have hlength := length_imgBuf_of_deserialize hmsg
      simp only [safe_callAll_iff hcb, hlength, getBufferSize_ge_iff]
      constructor
      · intro hsize msg reader heq
        cases heq
        exact hsize
      · intro hsize
        exact hsize _ _ rfl

/-- What makes an announcement harmless: its sensor is not the last number, and the
ring buffer it leads to has entries for the whole image unless it no longer holds
the sequence number. The cached ring buffer is used when it is the announced one,
and its entries have the size that was computed in 32 bits. -/
structure Announced (memory : SharedMemory platform) (component : ImagingComponent platform)
    (msg : SharedMemoryMessage) : Prop where
  sensor : msg.sensor.toNat + 1 < 2 ^ 32
  cached : ∀ ring, component.shmBuf[msg.sensor.toNat]? = some (some ring) →
    checkSameRingBuf msg ring = true → memory.Holds ring.segment msg.seqNum →
      imageSize msg.metadata < 2 ^ 32
  found : (∀ ring, component.shmBuf[msg.sensor.toNat]? = some (some ring) →
      checkSameRingBuf msg ring = false) →
    ∀ segment, msg.backend ∈ platform.backends →
      memory.openOnly msg.backend (makeNameSafe msg.shmName) = some segment →
      memory.Holds segment msg.seqNum →
        imageSize msg.metadata ≤ (platform.bufferLength segment).toNat

/-- What becomes of an announcement once the ring buffer is known. -/
theorem safe_imagePlaced_of_ring (hcb : self.cb ≠ []) {msg : SharedMemoryMessage}
    (habi : IPCRingBuffer.getABILevel = msg.abiLevel) (hsensor : msg.sensor.toNat + 1 < 2 ^ 32) :
    Safe (self.imagePlaced memory msg) ↔
      ∀ ring, announcedRing memory msg self.shmBuf[msg.sensor.toNat]?.join = some ring →
        memory.Holds ring.segment msg.seqNum →
          imageSize msg.metadata ≤ (platform.bufferLength ring.segment).toNat := by
  rw [imagePlaced, if_neg (not_not_intro habi)]
  simp only [shmBufAt_grow hsensor]
  cases hring : announcedRing memory msg self.shmBuf[msg.sensor.toNat]?.join with
  | none => simp [safe_silent]
  | some ring =>
      simp only [Option.some.injEq, forall_eq', IPCRingBuffer.get, SharedMemory.Holds]
      cases helement : (memory.bookkeeping ring.segment).getBySequenceNumber msg.seqNum with
      | error fault => simp [Except.map, Safe]
      | ok element =>
          cases element with
          | none => simp [Except.map, safe_silent]
          | some index =>
              simp [Except.map, safe_callAll_iff, hcb, (memory.element ring.segment index).2]

/-- The entries of the announced ring have the size the announcement's metadata gives
in 32 bits. -/
theorem bufferLength_of_checkSameRingBuf {msg : SharedMemoryMessage} {ring : IPCRingBuffer platform}
    (hsame : checkSameRingBuf msg ring = true) :
    platform.bufferLength ring.segment = getBufferSize msg.metadata := by
  simp only [checkSameRingBuf, Bool.and_eq_true, beq_iff_eq] at hsame
  rw [← ring.entrySize_eq]
  exact hsame.1.2

theorem find_named_eq_some_iff {msg : SharedMemoryMessage} {segment : SegmentId} :
    (∃ ring, IPCRingBuffer.find memory (.named msg.shmName msg.backend) = some ring ∧
      ring.segment = segment) ↔
    msg.backend ∈ platform.backends ∧
      memory.openOnly msg.backend (makeNameSafe msg.shmName) = some segment := by
  simp only [IPCRingBuffer.find, Option.ite_none_right_eq_some, Option.map_eq_some_iff]
  constructor
  · intro ⟨ring, ⟨hbackend, found, hopen, hring⟩, hsegment⟩
    rw [← hsegment, ← hring]
    exact ⟨hbackend, hopen⟩
  · intro ⟨hbackend, hopen⟩
    exact ⟨_, ⟨hbackend, segment, hopen, rfl⟩, rfl⟩

theorem safe_imagePlaced_iff (hlength : self.shmBuf.length < 2 ^ 32) (hcb : self.cb ≠ [])
    (msg : SharedMemoryMessage) :
    Safe (self.imagePlaced memory msg) ↔
      (IPCRingBuffer.getABILevel = msg.abiLevel → Announced memory self msg) := by
  by_cases habi : IPCRingBuffer.getABILevel = msg.abiLevel
  case neg => simp [imagePlaced, habi, safe_silent]
  by_cases hsensor : msg.sensor.toNat + 1 < 2 ^ 32
  case neg =>
    have hlast : msg.sensor.toNat + 1 = 2 ^ 32 := by
      have := msg.sensor.toNat_lt
      omega
    have hfault : self.imagePlaced memory msg = .error .tableIndex := by
      rw [imagePlaced, if_neg (not_not_intro habi)]
      simp only [shmBufAt_grow_last hlength hlast]
    rw [hfault]
    simp only [Safe, ne_eq, not_true_eq_false, false_iff]
    intro hannounced
    exact hsensor (hannounced habi).sensor
  rw [safe_imagePlaced_of_ring hcb habi hsensor]
  have hcached (ring : IPCRingBuffer platform) :
      self.shmBuf[msg.sensor.toNat]?.join = some ring ↔
        self.shmBuf[msg.sensor.toNat]? = some (some ring) := Option.join_eq_some_iff
  cases hsame : self.shmBuf[msg.sensor.toNat]?.join.filter (checkSameRingBuf msg) with
  | some ring =>
      have ⟨hring, hcheck⟩ := Option.filter_eq_some_iff.mp hsame
      have hentries : imageSize msg.metadata ≤ (platform.bufferLength ring.segment).toNat ↔
          imageSize msg.metadata < 2 ^ 32 := by
        rw [bufferLength_of_checkSameRingBuf hcheck, getBufferSize_ge_iff]
      simp only [announcedRing, hsame, Option.some.injEq, forall_eq', hentries]
      constructor
      · intro hfits _
        refine ⟨hsensor, ?_, ?_⟩
        · intro other hother _
          have hsameRing : ring = other := by
            rw [← hcached, hring] at hother
            exact Option.some.inj hother
          rw [← hsameRing]
          exact hfits
        · intro hno
          have hcontra := hno ring ((hcached ring).mp hring)
          rw [hcheck] at hcontra
          cases hcontra
      · intro hannounced
        exact (hannounced habi).cached ring ((hcached ring).mp hring) hcheck
  | none =>
      have hno (ring : IPCRingBuffer platform)
          (hring : self.shmBuf[msg.sensor.toNat]? = some (some ring)) :
          checkSameRingBuf msg ring = false := by
        rw [← hcached] at hring
        rw [hring] at hsame
        simpa [Option.filter] using hsame
      simp only [announcedRing, hsame]
      constructor
      · intro hfits _
        refine ⟨hsensor, ?_, ?_⟩
        · intro ring hring hcheck
          rw [hno ring hring] at hcheck
          cases hcheck
        · intro _ segment hbackend hopen
          have ⟨ring, hfind, hsegment⟩ := find_named_eq_some_iff.mpr ⟨hbackend, hopen⟩
          rw [← hsegment]
          exact hfits ring hfind
      · intro hannounced ring hfind
        have ⟨hbackend, hopen⟩ := find_named_eq_some_iff.mp ⟨ring, hfind, rfl⟩
        exact (hannounced habi).found hno ring.segment hbackend hopen

/-! ## Every message -/

/-- What makes a message harmless in the state in which it arrives. -/
def Harmless (self : ImagingComponent platform) : ImagingMessage platform → Prop
  | .imageRegion fresh payload =>
      ∀ msg reader, deserializeMessage platform.host ImageRegion.processMessage payload fresh =
        .ok (msg, reader) → imageSize msg.metadata < 2 ^ 32
  | .imagePlacedInSharedMemory memory fresh payload =>
      ∀ msg reader, deserializeMessage platform.host SharedMemoryMessage.processMessage payload
        fresh = .ok (msg, reader) → IPCRingBuffer.getABILevel = msg.abiLevel →
          Announced memory self msg

/-- In every state of a component, a message that is handled gives each callback a
buffer for the whole image and stays inside the table exactly when it is harmless. -/
theorem safe_receive_iff {numChan : UInt32}
    (hreach : (inUse platform numChan).Reachable self) (message : ImagingMessage platform) :
    Safe (self.receive message) ↔ (self.cb ≠ [] → self.Harmless message) := by
  have hlength := length_shmBuf_lt hreach
  by_cases hcb : self.cb = []
  · simp [receive, hcb, safe_silent]
  · cases message with
    | imageRegion fresh payload =>
        rw [receive, if_neg hcb]
        simp only [safe_handleImageRegion_iff hcb, Harmless, ne_eq, hcb, not_false_eq_true,
          forall_const]
    | imagePlacedInSharedMemory memory fresh payload =>
        rw [receive, if_neg hcb]
        simp only [handleImagePlacedInSharedMemory, Harmless, ne_eq, hcb, not_false_eq_true,
          forall_const]
        cases hmsg : deserializeMessage platform.host SharedMemoryMessage.processMessage payload
          fresh with
        | error error => simp [Safe]
        | ok received =>
            simp only [safe_imagePlaced_iff hlength hcb]
            constructor
            · intro hannounced msg reader heq
              cases heq
              exact hannounced
            · intro hannounced
              exact hannounced _ _ rfl

/-! ## A product and a sum that wrap -/

/-- A client with no other process on its machine. -/
def aloneOnMachine : Platform where
  host := littleEndianHost
  backends := [BASIC_MANAGED_SHM_ID]
  bufferLength := fun _ => 0
  tcpBuflen := 64000
  deviceName := []

def emptyMemory : SharedMemory aloneOnMachine where
  openOnly := fun _ _ => none
  createOnly := fun _ => none
  bookkeeping := fun _ => .init 0 0
  element := fun _ _ => ⟨[], rfl⟩
  bufLen_eq := fun _ => rfl
  createOnly_bufferLength := fun _ _ h => nomatch h

/-- A component with one callback. -/
def listening : ImagingComponent aloneOnMachine := (create aloneOnMachine 1).registerImageHandler 0

theorem reachable_listening : (inUse aloneOnMachine 1).Reachable listening :=
  TransitionSystem.reachableWhile_of_run .init [.registerImageHandler 0] rfl

/-- An image of `65536` by `65536` bytes, sent with the pixels its 32-bit size asks
for, which are none. -/
def squareMessage : ImagingMessage aloneOnMachine :=
  .imageRegion zeroRegion (serializeMessage littleEndianHost ImageRegion.processMessage
    ⟨⟨65536, 65536, 1, 1, ImagingValueType.OSVR_IVT_UNSIGNED_INT⟩, [], 0⟩)

/-- The announcement of a grey pixel of the last sensor. -/
def lastSensorMessage : ImagingMessage aloneOnMachine :=
  .imagePlacedInSharedMemory emptyMemory zeroAnnouncement
    (serializeMessage littleEndianHost SharedMemoryMessage.processMessage
      { greyAnnouncement with sensor := 4294967295 })

/-- The same of a sensor that is not the last one. -/
def pixelMessage : ImagingMessage aloneOnMachine :=
  .imagePlacedInSharedMemory emptyMemory zeroAnnouncement
    (serializeMessage littleEndianHost SharedMemoryMessage.processMessage greyAnnouncement)

theorem announced_greyAnnouncement : Announced emptyMemory listening greyAnnouncement where
  sensor := by decide
  cached ring hring := by cases hring
  found _ _ _ hopen := by cases hopen

theorem safe_receive_pixel : Safe (listening.receive pixelMessage) := by
  refine (safe_receive_iff reachable_listening pixelMessage).mpr fun _ msg reader hread _ => ?_
  have hmsg : (deserializeMessage littleEndianHost SharedMemoryMessage.processMessage
      (serializeMessage littleEndianHost SharedMemoryMessage.processMessage greyAnnouncement)
        zeroAnnouncement).toOption.map Prod.fst = some greyAnnouncement := by decide
  have hsame := congrArg (fun result => result.toOption.map Prod.fst) hread
  obtain rfl := Option.some.inj (hsame.symm.trans hmsg)
  exact announced_greyAnnouncement

theorem not_safe_receive :
    ¬ Safe (listening.receive squareMessage) ∧ ¬ Safe (listening.receive lastSensorMessage) := by
  constructor
  · intro hsafe
    have hsize := hsafe (0, ⟨0, ⟨65536, 65536, 1, 1, ImagingValueType.OSVR_IVT_UNSIGNED_INT⟩, []⟩)
      (List.mem_singleton_self _)
    revert hsize
    decide
  · intro hsafe
    exact hsafe rfl

end ImagingComponent

end OSVR.Common
