/-
# A stream of images

A device places its images in a ring of shared memory and announces them one by one; a
small image is sent with its bytes besides. What its clients see of rings, numbers and
messages is a feed: the images are a log, an announcement is a notice, and the entries of
the ring are the last values.
-/

import OsvrCore.Common.ImagingComponent
import OsvrCore.Common.RingBufferContents
import OsvrCore.Math.Feed

set_option autoImplicit false

namespace OSVR.Common

open Math

variable {platform : Platform}

/-! ## The device and its segment -/

/-- A sensor whose images all have one format, and the segment they are placed in. -/
structure Camera (platform : Platform) where
  metadata : ImagingMetadata
  sensor : UInt32
  segment : SegmentId
  type_mem : metadata.type ∈ ImagingValueType.enumerators
  imageSize_lt : imageSize metadata < 2 ^ 32
  sensor_lt : sensor.toNat + 1 < 2 ^ 32
  bufferLength_eq : platform.bufferLength segment = getBufferSize metadata
  backend_mem : BASIC_MANAGED_SHM_ID ∈ platform.backends
  name_lt : (makeNameSafe (ImagingComponent.makeName sensor platform.deviceName)).length < 2 ^ 32

namespace Camera

variable (camera : Camera platform)

def shmName : List UInt8 :=
  makeNameSafe (ImagingComponent.makeName camera.sensor platform.deviceName)

/-- The options of the ring that the first image creates. -/
def opts : IPCRingBufferOptions :=
  { name := camera.shmName, entrySize := getBufferSize camera.metadata }

/-- The shared memory while nobody else uses the name: the segment holds the ring, and is
looked for only when an image in it has been announced. -/
def memory (ring : ServerRing) : SharedMemory platform where
  openOnly backend name :=
    if backend = BASIC_MANAGED_SHM_ID ∧ name = camera.shmName then some camera.segment else none
  createOnly opts :=
    if opts.name = camera.shmName ∧ opts.entrySize = platform.bufferLength camera.segment then
      some camera.segment
    else none
  bookkeeping segment := { ring.bookkeeping with bufLen := platform.bufferLength segment }
  element segment index :=
    ⟨ServerRing.bytesAt ring.segment ((ring.getBuf index).getD 0)
      (platform.bufferLength segment).toNat,
      by rw [ServerRing.bytesAt, List.length_map, List.length_range]⟩
  bufLen_eq _ := rfl
  createOnly_bufferLength opts segment h := by
    split at h
    next hopts =>
      obtain rfl := Option.some.inj h
      exact hopts.2.symm
    next => cases h

end Camera

/-! ## The stream -/

/-- A message of an imaging component. -/
inductive ImagingPacket
  | imageRegion (payload : Buffer)
  | imagePlacedInSharedMemory (payload : Buffer)
  deriving DecidableEq

def ImagingPacket.payload : ImagingPacket → Buffer
  | imageRegion payload | imagePlacedInSharedMemory payload => payload

/-- The ring of a device with the images that have been placed in it, the components at both
ends, what is on its way, and the calls of the client's handlers. -/
structure ImageStream (platform : Platform) where
  ring : ServerRing
  images : List (List UInt8)
  server : ImagingComponent platform
  link : Subscriber ImagingPacket
  client : ImagingComponent platform
  calls : List (ImageHandler × ImageData)

/-- Messages are deserialized into objects that are not initialised. -/
inductive ImageStreamEvent
  | registerImageHandler (handler : ImageHandler)
  | sendImageData (imageData : List UInt8)
  | connect
  | disconnect
  | receive (freshRegion : ImageRegion) (freshMessage : SharedMemoryMessage)

namespace ImageStream

variable (camera : Camera platform) (stream : ImageStream platform)

/-- The image is small enough to be sent with its bytes. -/
def carries (imageData : List UInt8) : Bool :=
  (@ImagingComponent.sendImageDataOnTheWire platform camera.metadata imageData camera.sensor).isSome

def wirePackets (imageData : List UInt8) : List ImagingPacket :=
  (@ImagingComponent.sendImageDataOnTheWire platform camera.metadata imageData
    camera.sensor).toList.map .imageRegion

/-- The flag of the first image, which `sendImageData` sets when it has sent something. -/
def checkSent (packets : List ImagingPacket) (component : ImagingComponent platform) :
    ImagingComponent platform := if packets.isEmpty then component else component.checkFirst

/-- `sendImageData`, with the copy of the image into the ring. -/
def sendImageData (imageData : List UInt8) : Option (ImageStream platform) := do
  let (server, placed) ← (stream.server.sendImageDataViaSharedMemory (camera.memory stream.ring)
    camera.metadata camera.sensor).toOption
  match placed with
  | none =>
      let packets := wirePackets camera imageData
      some { stream with
        server := checkSent packets server
        link := stream.link.publish packets }
  | some message =>
      let (ring, _) ← (stream.ring.putData
        (imageData.take (getBufferSize camera.metadata).toNat)).toOption
      let packets := .imagePlacedInSharedMemory
        (serializeMessage platform.host SharedMemoryMessage.processMessage message) ::
          wirePackets camera imageData
      some { stream with
        ring := ring
        images := stream.images ++ [imageData]
        server := checkSent packets server
        link := stream.link.publish packets }

/-- How many messages there have been. -/
def published : ℕ := stream.images.length + stream.images.countP (carries camera)

/-- A message at the client, in the shared memory of that moment. -/
def asMessage (freshRegion : ImageRegion) (freshMessage : SharedMemoryMessage) :
    ImagingPacket → ImagingMessage platform
  | .imageRegion payload => .imageRegion freshRegion payload
  | .imagePlacedInSharedMemory payload =>
      .imagePlacedInSharedMemory (camera.memory stream.ring) freshMessage payload

def receive (freshRegion : ImageRegion) (freshMessage : SharedMemoryMessage) :
    Option (ImageStream platform) := do
  let (packet, link) ← stream.link.take
  let (client, calls) ←
    (stream.client.receive (stream.asMessage camera freshRegion freshMessage packet)).toOption
  some { stream with link := link, client := client, calls := stream.calls ++ calls }

end ImageStream

/-- A device with a new ring, and a client. -/
def imageStream (camera : Camera platform) (ring : ServerRing) (numSensors : UInt32) :
    TransitionSystem (ImageStream platform) ImageStreamEvent where
  init := ⟨ring, [], .create platform numSensors, .init, .create platform numSensors, []⟩
  step
    | .registerImageHandler handler, stream =>
        some { stream with client := stream.client.registerImageHandler handler }
    | .sendImageData imageData, stream => stream.sendImageData camera imageData
    | .connect, stream => some { stream with link := stream.link.attach (stream.published camera) }
    | .disconnect, stream => some { stream with link := stream.link.detach }
    | .receive freshRegion freshMessage, stream => stream.receive camera freshRegion freshMessage

namespace ImageStream

variable (camera : Camera platform)

/-- The images have the size that goes with the format, and there are not so many that the
sequence number returns to zero. -/
def Proper (stream : ImageStream platform) : ImageStreamEvent → Prop
  | .sendImageData imageData =>
      imageData.length = imageSize camera.metadata ∧ stream.images.length < 2 ^ 32
  | .registerImageHandler _ | .connect | .disconnect | .receive _ _ => True

instance (stream : ImageStream platform) (event : ImageStreamEvent) :
    Decidable (Proper camera stream event) :=
  match event with
  | .sendImageData _ => inferInstanceAs (Decidable (_ ∧ _))
  | .registerImageHandler _ | .connect | .disconnect | .receive _ _ =>
      inferInstanceAs (Decidable True)

/-- The announcement of the image at a place. -/
def announcement (place : ℕ) : SharedMemoryMessage where
  metadata := camera.metadata
  seqNum := UInt32.ofNat place
  sensor := camera.sensor
  abiLevel := IPCRingBuffer.getABILevel
  backend := BASIC_MANAGED_SHM_ID
  shmName := camera.shmName

/-- The message for a notice. -/
def packet (notice : Notice (List UInt8)) : ImagingPacket :=
  match notice.value with
  | none => .imagePlacedInSharedMemory
      (serializeMessage platform.host SharedMemoryMessage.processMessage
        (announcement camera notice.place))
  | some imageData => .imageRegion (serializeMessage platform.host ImageRegion.processMessage
      ⟨camera.metadata, imageData, camera.sensor⟩)

/-- The event of the feed. -/
def asFeed : ImageStreamEvent → FeedAction ImageHandler (List UInt8)
  | .registerImageHandler handler => .register handler
  | .sendImageData imageData => .send imageData
  | .connect => .attach
  | .disconnect => .detach
  | .receive _ _ => .receive

/-- A call with an image of the feed. A message with its bytes does not bring the sensor. -/
def ShowsCall (call : ImageHandler × ImageData)
    (expected : ImageHandler × Notice (List UInt8) × List UInt8) : Prop :=
  call.1 = expected.1 ∧ call.2.metadata = camera.metadata ∧ call.2.buffer = expected.2.2 ∧
    (expected.2.1.value = none → call.2.sensor = camera.sensor)

/-- What the components and the ring come to. -/
structure Shows (stream : ImageStream platform) (feed : Feed ImageHandler (List UInt8)) : Prop where
  images : stream.images = feed.log
  link : stream.link = feed.link.map (packet camera)
  handlers : stream.client.cb = feed.handlers
  calls : List.Forall₂ (ShowsCall camera) stream.calls feed.calls

end ImageStream

/-- The messages and the component are those of `sendImageData`. -/
theorem ImageStream.component_sendImageData {camera : Camera platform}
    {stream after : ImageStream platform} {imageData : List UInt8}
    (h : stream.sendImageData camera imageData = some after) :
    ∃ packets, after.link = stream.link.publish packets ∧
      stream.server.sendImageData (camera.memory stream.ring) camera.metadata imageData
        camera.sensor = .ok (after.server, packets.map ImagingPacket.payload) := by
  have hwire : (wirePackets camera imageData).map ImagingPacket.payload =
      (@ImagingComponent.sendImageDataOnTheWire platform camera.metadata imageData
        camera.sensor).toList := by
    rw [wirePackets, List.map_map]
    exact List.map_id _
  rw [ImageStream.sendImageData, Option.bind_eq_bind, Option.bind_eq_some_iff] at h
  obtain ⟨⟨server, placed⟩, hplaced, h⟩ := h
  rw [ImagingComponent.sendImageData, ImagingComponent.eq_ok_of_toOption hplaced]
  cases placed with
  | none =>
      obtain rfl := Option.some.inj h
      refine ⟨wirePackets camera imageData, rfl, ?_⟩
      simp only [Option.map_none, Option.toList_none, List.nil_append, hwire]
      cases hsent : @ImagingComponent.sendImageDataOnTheWire platform camera.metadata imageData
        camera.sensor <;> simp [checkSent, wirePackets, hsent]
  | some message =>
      obtain ⟨⟨ring, proxy⟩, -, h⟩ := Option.bind_eq_some_iff.mp h
      obtain rfl := Option.some.inj h
      exact ⟨_, rfl, by simp [checkSent, hwire, ImagingPacket.payload]⟩

/-! ## Names and tables -/

/-- A name that has been made safe stays as it is. -/
theorem makeNameSafe_makeNameSafe (input : List UInt8) :
    makeNameSafe (makeNameSafe input) = makeNameSafe input := by
  let safe (c : UInt8) : UInt8 :=
    if isalpha c || isdigit c || UNDERSCORE == c then c else UNDERSCORE
  have hsafe (c : UInt8) : safe (safe c) = safe c := by
    by_cases hc : (isalpha c || isdigit c || UNDERSCORE == c) = true
    · simp only [safe, if_pos hc]
    · simp only [safe, if_neg hc]
      rfl
  have hletter {c : UInt8} (rest : List UInt8) (hc : isalpha c = true) :
      makeNameSafe (c :: rest) = c :: rest.map safe := by
    have hkept : safe c = c := by simp [safe, hc]
    have hmapped : makeNameSafe (c :: rest) = (c :: rest).map safe := by
      rw [makeNameSafe]
      simp only [hc, if_true]
      rfl
    rw [hmapped, List.map_cons, hkept]
  have hagain {c : UInt8} (rest : List UInt8) (hc : isalpha c = true) :
      makeNameSafe (makeNameSafe (c :: rest)) = makeNameSafe (c :: rest) := by
    rw [hletter rest hc, hletter _ hc, List.map_map]
    exact congrArg (c :: ·) (List.map_congr_left fun other _ => hsafe other)
  cases input with
  | nil => rfl
  | cons c rest =>
      by_cases hc : isalpha c = true
      · exact hagain rest hc
      · have hprefixed : makeNameSafe (c :: rest) = makeNameSafe (90 :: c :: rest) := by
          simp only [makeNameSafe, hc]
          rfl
        rw [hprefixed]
        exact hagain (c :: rest) rfl

namespace ImageStream

section Components

variable {camera : Camera platform} {ring : ServerRing} {buffers : Set ℕ} {capacity : RawIndex}
  {n : ℕ} {self : ImagingComponent platform}

/-- The ring that a component has for the sensor, if any, is the device's. -/
def HasRing (camera : Camera platform) (component : ImagingComponent platform) : Prop :=
  ∀ ring, component.shmBuf[camera.sensor.toNat]?.join = some ring →
    ring.segment = camera.segment ∧ ring.opts.name = camera.shmName ∧
      ring.opts.shmBackend = BASIC_MANAGED_SHM_ID

theorem join_set_grow {α : Type} {table : List (Option α)} {sensor : UInt32}
    (hsensor : sensor.toNat + 1 < 2 ^ 32) (entry : Option α) :
    ((ImagingComponent.growShmVecIfRequired table sensor).set sensor.toNat
      entry)[sensor.toNat]?.join = entry := by
  have hget := @ImagingComponent.getElem?_grow _ table _ hsensor
  have hlt := (List.getElem?_eq_some_iff.mp hget).1
  rw [List.getElem?_set_self hlt]
  rfl

/-- The component with a ring for the sensor. -/
def withRing (camera : Camera platform) (component : ImagingComponent platform)
    (shm : IPCRingBuffer platform) : ImagingComponent platform :=
  { component with
    shmBuf := (ImagingComponent.growShmVecIfRequired component.shmBuf camera.sensor).set
      camera.sensor.toNat (some shm) }

theorem hasRing_withRing {shm : IPCRingBuffer platform} (hsegment : shm.segment = camera.segment)
    (hname : shm.opts.name = camera.shmName)
    (hbackend : shm.opts.shmBackend = BASIC_MANAGED_SHM_ID) :
    HasRing camera (withRing camera self shm) := by
  intro other hother
  rw [withRing, join_set_grow camera.sensor_lt] at hother
  obtain rfl := Option.some.inj hother
  exact ⟨hsegment, hname, hbackend⟩

theorem create_memory (camera : Camera platform) (ring : ServerRing) :
    IPCRingBuffer.create (camera.memory ring) camera.opts =
      some (.ofSegment (camera.memory ring) camera.opts camera.segment) := by
  have hcreated : (camera.memory ring).createOnly camera.opts = some camera.segment :=
    if_pos ⟨rfl, camera.bufferLength_eq.symm⟩
  rw [IPCRingBuffer.create, hcreated]
  exact if_pos camera.backend_mem

theorem find_memory (camera : Camera platform) (ring : ServerRing) :
    IPCRingBuffer.find (camera.memory ring) (.named camera.shmName BASIC_MANAGED_SHM_ID) =
      some (.ofSegment (camera.memory ring) (.named camera.shmName BASIC_MANAGED_SHM_ID)
        camera.segment) := by
  have hopened : (camera.memory ring).openOnly BASIC_MANAGED_SHM_ID
      (IPCRingBufferOptions.named camera.shmName BASIC_MANAGED_SHM_ID).name = some camera.segment :=
    if_pos ⟨rfl, makeNameSafe_makeNameSafe _⟩
  rw [IPCRingBuffer.find]
  show (if BASIC_MANAGED_SHM_ID ∈ platform.backends then
    ((camera.memory ring).openOnly BASIC_MANAGED_SHM_ID
      (IPCRingBufferOptions.named camera.shmName BASIC_MANAGED_SHM_ID).name).map _ else none) = _
  rw [hopened]
  exact if_pos camera.backend_mem

theorem put_memory (hsound : ring.Sound buffers capacity n) (hcapacity : 0 < capacity)
    (shm : IPCRingBuffer platform) : shm.put (camera.memory ring) = .ok (UInt32.ofNat n) := by
  have hcounts : ((camera.memory ring).bookkeeping shm.segment).Counts capacity n :=
    ⟨hsound.counts.capacity_eq, hsound.counts.next_eq, hsound.counts.first_eq,
      hsound.counts.begin_eq, hsound.counts.size_eq⟩
  rw [IPCRingBuffer.put, hcounts.produceElement_eq hcapacity]
  rfl

/-- Placing an image takes the next number. -/
theorem sendImageDataViaSharedMemory_eq (h : HasRing camera self)
    (hsound : ring.Sound buffers capacity n) (hcapacity : 0 < capacity) :
    ∃ after, self.sendImageDataViaSharedMemory (camera.memory ring) camera.metadata camera.sensor =
        .ok (after, some (announcement camera n)) ∧ HasRing camera after ∧ after.cb = self.cb := by
  have hplace := @ImagingComponent.shmBufAt_grow _ self.shmBuf _ camera.sensor_lt
  have hput := @put_memory _ camera _ _ _ _ hsound hcapacity
  rw [ImagingComponent.sendImageDataViaSharedMemory]
  simp only [hplace]
  cases hcached : self.shmBuf[camera.sensor.toNat]?.join.filter fun ring =>
      ring.opts.entrySize == getBufferSize camera.metadata with
  | some shm =>
      obtain ⟨hsegment, hname, hbackend⟩ := h shm (Option.filter_eq_some_iff.mp hcached).1
      refine ⟨withRing camera self shm, ?_, hasRing_withRing hsegment hname hbackend, rfl⟩
      simp only [hput, hname, hbackend]
      rfl
  | none =>
      have hcreate := create_memory camera ring
      rw [Camera.opts, Camera.shmName] at hcreate
      refine ⟨withRing camera self (.ofSegment (camera.memory ring) camera.opts camera.segment), ?_,
        hasRing_withRing rfl rfl rfl, rfl⟩
      simp only [hcreate, hput]
      rfl

/-- What is read from the segment is what the ring gives. -/
theorem get_memory (hsound : ring.Sound buffers capacity n) {shm : IPCRingBuffer platform}
    (hsegment : shm.segment = camera.segment) {num : SequenceNumber} {proxy : BufferProxy}
    (hget : ring.get num = .ok proxy) :
    shm.get (camera.memory ring) num = .ok (proxy.buf.map fun address =>
      ServerRing.bytesAt ring.segment address (getBufferSize camera.metadata).toNat) := by
  obtain ⟨segment, opts, hentry⟩ := shm
  subst hsegment
  have hlookup : (((camera.memory ring).bookkeeping camera.segment).getBySequenceNumber num) =
      ring.bookkeeping.getBySequenceNumber num := rfl
  rw [IPCRingBuffer.get, hlookup]
  rw [ServerRing.get] at hget
  rcases hsound.counts.getBySequenceNumber_cases num with hnone | ⟨element, hlt, hsome⟩
  · rw [hnone] at hget ⊢
    obtain rfl := Except.ok.inj hget
    rfl
  · obtain ⟨address, -, haddress⟩ := hsound.allocated element hlt
    rw [hsome] at hget ⊢
    obtain rfl := Except.ok.inj hget
    have hbytes : ((camera.memory ring).element camera.segment element).1 =
        ServerRing.bytesAt ring.segment address (getBufferSize camera.metadata).toNat := by
      show ServerRing.bytesAt _ _ (platform.bufferLength camera.segment).toNat = _
      rw [camera.bufferLength_eq, haddress]
      rfl
    show Except.ok (some ((camera.memory ring).element camera.segment element).1) = _
    rw [hbytes, ServerRing.readProxy, haddress]
    rfl

/-- The handlers are called when the ring still has the image. -/
theorem imagePlaced_eq (h : HasRing camera self) (hsound : ring.Sound buffers capacity n)
    {place : ℕ} {proxy : BufferProxy} (hget : ring.get (UInt32.ofNat place) = .ok proxy) :
    ∃ after, self.imagePlaced (camera.memory ring) (announcement camera place) =
        .ok (after, (proxy.buf.map fun address => ServerRing.bytesAt ring.segment address
          (getBufferSize camera.metadata).toNat).toList.flatMap fun bytes =>
            self.cb.map fun cb => (cb, ⟨camera.sensor, camera.metadata, bytes⟩)) ∧
      HasRing camera after ∧ after.cb = self.cb := by
  have hplace := @ImagingComponent.shmBufAt_grow _ self.shmBuf _ camera.sensor_lt
  obtain ⟨shm, hshm, hsegment, hname, hbackend⟩ : ∃ shm : IPCRingBuffer platform,
      ImagingComponent.announcedRing (camera.memory ring) (announcement camera place)
        self.shmBuf[camera.sensor.toNat]?.join = some shm ∧ shm.segment = camera.segment ∧
          shm.opts.name = camera.shmName ∧ shm.opts.shmBackend = BASIC_MANAGED_SHM_ID := by
    rw [ImagingComponent.announcedRing]
    split
    next shm hcached =>
      obtain ⟨hcached, -⟩ := Option.filter_eq_some_iff.mp hcached
      exact ⟨shm, rfl, h shm hcached⟩
    next =>
      exact ⟨_, find_memory camera ring, rfl, makeNameSafe_makeNameSafe _, rfl⟩
  have hread := get_memory hsound hsegment hget
  rw [ImagingComponent.imagePlaced, if_neg (by simp [announcement])]
  simp only [show (announcement camera place).sensor = camera.sensor from rfl, hplace, hshm,
    show (announcement camera place).seqNum = UInt32.ofNat place from rfl, hread]
  have hplaced : HasRing camera (withRing camera self shm) :=
    hasRing_withRing hsegment hname hbackend
  cases hbuf : proxy.buf with
  | none => exact ⟨withRing camera self shm, rfl, hplaced, rfl⟩
  | some address =>
      refine ⟨(withRing camera self shm).checkFirst, ?_, hplaced, rfl⟩
      rw [Option.map_some, Option.toList_some, List.flatMap_singleton]
      rfl

end Components

/-! ## Messages -/

section Messages

variable {camera : Camera platform} {ring : ServerRing} {buffers : Set ℕ} {capacity : RawIndex}
  {self : ImagingComponent platform} {images : List (List UInt8)} {place : ℕ}

theorem toNat_getBufferSize_camera (camera : Camera platform) :
    (getBufferSize camera.metadata).toNat = imageSize camera.metadata :=
  (getBufferSize_eq_imageSize_iff camera.metadata).mpr camera.imageSize_lt

/-- A lookup by the number of an image is one in the log by its place. -/
theorem get_eq_recent? (hserves : ring.Serves capacity (images.map some))
    (hsized : ∀ image ∈ images, image.length = imageSize camera.metadata)
    (hbound : images.length ≤ 2 ^ 32) (hplace : place < images.length) :
    ∃ proxy, ring.get (UInt32.ofNat place) = .ok proxy ∧
      (proxy.buf.map fun address => ServerRing.bytesAt ring.segment address
        (getBufferSize camera.metadata).toNat) = recent? capacity.toNat images place := by
  rw [recent?]
  split
  next hrecent =>
    obtain ⟨address, hget, hbytes⟩ := hserves.kept place (by rw [List.length_map]; omega)
      (by rwa [List.length_map])
    have himage := List.getElem?_eq_getElem hplace
    have hread := hbytes images[place] (by rw [List.getElem?_map, himage]; rfl)
    rw [hsized _ (List.getElem_mem hplace), ← toNat_getBufferSize_camera] at hread
    exact ⟨_, hget, by rw [Option.map_some, hread, himage]⟩
  next hold =>
    refine ⟨⟨none, 0⟩, hserves.gone _ fun s hfirst hlast hsame => ?_, rfl⟩
    rw [List.length_map] at hfirst hlast
    have hmod := congrArg UInt32.toNat hsame
    rw [UInt32.toNat_ofNat', UInt32.toNat_ofNat', Nat.mod_eq_of_lt (by omega),
      Nat.mod_eq_of_lt (by omega)] at hmod
    omega

/-- An announcement leads to the calls for the image that the lookup finds. -/
theorem receive_announcement (h : HasRing camera self) {n : ℕ}
    (hsound : ring.Sound buffers capacity n) {proxy : BufferProxy}
    (hget : ring.get (UInt32.ofNat place) = .ok proxy) (fresh : SharedMemoryMessage) :
    ∃ after, self.receive (.imagePlacedInSharedMemory (camera.memory ring) fresh
        (serializeMessage platform.host SharedMemoryMessage.processMessage
          (announcement camera place))) =
        .ok (after, (proxy.buf.map fun address => ServerRing.bytesAt ring.segment address
          (getBufferSize camera.metadata).toNat).toList.flatMap fun bytes =>
            self.cb.map fun cb => (cb, ⟨camera.sensor, camera.metadata, bytes⟩)) ∧
      HasRing camera after ∧ after.cb = self.cb := by
  by_cases hcb : self.cb = []
  · refine ⟨self, ?_, h, rfl⟩
    rw [ImagingComponent.receive, if_pos hcb, hcb]
    simp
  · have hname : camera.shmName.take (lengthPrefix camera.shmName.length).toNat =
        camera.shmName := by
      rw [lengthPrefix, BitVec.toNat_ofNat]
      exact take_mod_eq_self_iff.mpr camera.name_lt
    have htransfers := (@transfers_sharedMemoryMessage platform.host (announcement camera place)
      camera.type_mem fresh).deserializeMessage platform.host _ _
    rw [show (announcement camera place).shmName = camera.shmName from rfl, hname] at htransfers
    rw [ImagingComponent.receive, if_neg hcb]
    simp only [ImagingComponent.handleImagePlacedInSharedMemory, htransfers]
    exact imagePlaced_eq h hsound hget

/-- A message with the bytes of an image leads to calls for it. -/
theorem receive_imageRegion {imageData : List UInt8}
    (hsize : imageData.length = imageSize camera.metadata) (fresh : ImageRegion) :
    ∃ after, self.receive (.imageRegion fresh (serializeMessage platform.host
        ImageRegion.processMessage ⟨camera.metadata, imageData, camera.sensor⟩)) =
        .ok (after, self.cb.map fun cb => (cb, ⟨fresh.sensor, camera.metadata, imageData⟩)) ∧
      after.shmBuf = self.shmBuf ∧ after.cb = self.cb := by
  by_cases hcb : self.cb = []
  · refine ⟨self, ?_, rfl, rfl⟩
    rw [ImagingComponent.receive, if_pos hcb, hcb]
    rfl
  · have htransfers := (@transfers_imageRegion platform.host
      ⟨camera.metadata, imageData, camera.sensor⟩ camera.type_mem hsize
        fresh).deserializeMessage platform.host _ _
    simp only [toNat_getBufferSize_camera, ← hsize, List.take_length] at htransfers
    refine ⟨self.checkFirst, ?_, rfl, rfl⟩
    rw [ImagingComponent.receive, if_neg hcb]
    simp only [ImagingComponent.handleImageRegion, htransfers]
    rfl

theorem forall₂_showsCall (handlers : List ImageHandler) (notice : Notice (List UInt8))
    {sensor : UInt32} (hsensor : notice.value = none → sensor = camera.sensor)
    (value : Option (List UInt8)) :
    List.Forall₂ (ShowsCall camera)
      (value.toList.flatMap fun bytes => handlers.map fun cb =>
        (cb, (⟨sensor, camera.metadata, bytes⟩ : ImageData)))
      (value.toList.flatMap fun value => handlers.map fun handler => (handler, notice, value)) := by
  cases value with
  | none => exact .nil
  | some value =>
      rw [Option.toList_some, List.flatMap_singleton, List.flatMap_singleton,
        List.forall₂_map_left_iff, List.forall₂_map_right_iff, List.forall₂_same]
      exact fun _ _ => ⟨rfl, rfl, rfl, hsensor⟩

/-- What is sent for an image are the messages for its notices. -/
theorem map_packet_notices (feed : Feed ImageHandler (List UInt8)) (imageData : List UInt8) :
    (feed.notices (carries camera) imageData).map (packet camera) =
      .imagePlacedInSharedMemory (serializeMessage platform.host SharedMemoryMessage.processMessage
        (announcement camera feed.log.length)) :: wirePackets camera imageData := by
  rw [Feed.notices, List.map_cons, carries, wirePackets]
  refine congrArg (packet camera ⟨feed.log.length, none⟩ :: ·) ?_
  cases hwire : @ImagingComponent.sendImageDataOnTheWire platform camera.metadata imageData
      camera.sensor with
  | none => rfl
  | some buf =>
      rw [ImagingComponent.sendImageDataOnTheWire] at hwire
      split at hwire
      · cases hwire
      · dsimp only at hwire
        split at hwire
        · cases hwire
        · rw [← Option.some.inj hwire]
          rfl

end Messages

/-! ## The simulation -/

section Simulation

variable {camera : Camera platform} {ring : ServerRing} {buffers : Set ℕ} {capacity : RawIndex}
  {stream after : ImageStream platform} {feed : Feed ImageHandler (List UInt8)}

/-- The stream shows the feed, and its ring and its components are in order. -/
structure Simulates (camera : Camera platform) (buffers : Set ℕ) (capacity : RawIndex)
    (stream : ImageStream platform) (feed : Feed ImageHandler (List UInt8)) : Prop extends
    Shows camera stream feed where
  ordered : feed.Ordered
  sound : stream.ring.Sound buffers capacity stream.images.length
  stores : stream.ring.Stores capacity (imageSize camera.metadata) (stream.images.map some)
  sized : ∀ image ∈ stream.images, image.length = imageSize camera.metadata
  bounded : stream.images.length ≤ 2 ^ 32
  server : HasRing camera stream.server
  client : HasRing camera stream.client

/-- The stream and the feed take a step, or neither does. -/
def StepsTogether (camera : Camera platform) (buffers : Set ℕ) (capacity : RawIndex)
    (stream : Option (ImageStream platform)) (feed : Option (Feed ImageHandler (List UInt8))) :
    Prop :=
  match stream, feed with
  | some stream, some feed => Simulates camera buffers capacity stream feed
  | none, none => True
  | some _, none | none, some _ => False

theorem Simulates.registerImageHandler (h : Simulates camera buffers capacity stream feed)
    (handler : ImageHandler) : Simulates camera buffers capacity
      { stream with client := stream.client.registerImageHandler handler }
      { feed with handlers := feed.handlers ++ [handler] } where
  images := h.images
  link := h.link
  handlers := congrArg (· ++ [handler]) h.handlers
  calls := h.calls
  ordered := ⟨h.ordered.sorted, h.ordered.bounded, h.ordered.carried, h.ordered.called⟩
  sound := h.sound
  stores := h.stores
  sized := h.sized
  bounded := h.bounded
  server := h.server
  client := h.client

theorem Simulates.relink (h : Simulates camera buffers capacity stream feed)
    {link : Subscriber ImagingPacket} {notices : Subscriber (Notice (List UInt8))}
    (hlink : link = notices.map (packet camera)) (hpending : notices.pending = []) :
    Simulates camera buffers capacity { stream with link := link }
      { feed with link := notices } where
  images := h.images
  link := hlink
  handlers := h.handlers
  calls := h.calls
  ordered := h.ordered.forget hpending
  sound := h.sound
  stores := h.stores
  sized := h.sized
  bounded := h.bounded
  server := h.server
  client := h.client

/-- An image is placed and announced. -/
theorem Simulates.sendImageData (h : Simulates camera buffers capacity stream feed)
    (hcapacity : 0 < capacity) {imageData : List UInt8}
    (hsize : imageData.length = imageSize camera.metadata)
    (hroom : stream.images.length < 2 ^ 32) :
    ∃ after, stream.sendImageData camera imageData = some after ∧
      Simulates camera buffers capacity after (feed.send (carries camera) imageData) := by
  obtain ⟨server, hserver, hring, -⟩ := sendImageDataViaSharedMemory_eq h.server h.sound hcapacity
  obtain ⟨dest, hdest, hput⟩ := h.sound.putData_eq hcapacity imageData
  have htake : imageData.take (getBufferSize camera.metadata).toNat = imageData := by
    rw [toNat_getBufferSize_camera, ← hsize, List.take_length]
  let packets : List ImagingPacket := .imagePlacedInSharedMemory
    (serializeMessage platform.host SharedMemoryMessage.processMessage
      (announcement camera stream.images.length)) :: wirePackets camera imageData
  let placed : ServerRing := { stream.ring with
    bookkeeping := stream.ring.bookkeeping.advance
    segment := ServerRing.memcpy stream.ring.segment dest imageData }
  refine ⟨⟨placed, stream.images ++ [imageData], checkSent packets server,
    stream.link.publish packets, stream.client, stream.calls⟩, ?_, ?_⟩
  · rw [ImageStream.sendImageData, hserver]
    simp only [Except.toOption, Option.bind_eq_bind, Option.bind_some, htake, hput]
    rfl
  have hlink : stream.link.publish packets =
      (feed.link.publish (feed.notices (carries camera) imageData)).map (packet camera) := by
    rw [Subscriber.map_publish, map_packet_notices, ← h.images, ← h.link]
  constructor
  case toShows => exact ⟨congrArg (· ++ [imageData]) h.images, hlink, h.handlers, h.calls⟩
  case ordered => exact h.ordered.send imageData
  case sound =>
    rw [List.length_append]
    exact ⟨h.sound.counts.advance, h.sound.allocated⟩
  case stores =>
    rw [List.map_append]
    refine h.stores.append_some (Nat.le_of_eq hsize) ?_ _
    rwa [List.length_map]
  case sized =>
    intro image hmem
    rcases List.mem_append.mp hmem with hold | hnew
    · exact h.sized image hold
    · rw [List.mem_singleton.mp hnew]
      exact hsize
  case bounded =>
    rw [List.length_append]
    exact hroom
  case server =>
    intro shm hshm
    apply hring shm
    rw [← hshm]
    show _ = (checkSent packets server).shmBuf[_]?.join
    rw [checkSent]
    split <;> rfl
  case client => exact h.client

/-- What comes next is handled. -/
theorem Simulates.receive (h : Simulates camera buffers capacity stream feed)
    (hcapacity : 0 < capacity)
    (hblock : capacity.toNat ∣ 65536) (freshRegion : ImageRegion)
    (freshMessage : SharedMemoryMessage) :
    StepsTogether camera buffers capacity (stream.receive camera freshRegion freshMessage)
      (feed.receive capacity.toNat) := by
  have hlink := congrArg Subscriber.take h.link
  rw [Subscriber.map_take] at hlink
  cases htake : feed.link.take with
  | none =>
      rw [htake] at hlink
      rw [ImageStream.receive, hlink, Feed.receive, htake]
      trivial
  | some taken =>
      obtain ⟨notice, notices⟩ := taken
      rw [htake] at hlink
      have hpending := (Subscriber.pending_of_take htake).1
      have hplace : notice.place < stream.images.length := by
        rw [h.images]
        apply h.ordered.bounded
        rw [Feed.places, hpending]
        exact List.mem_append_right _ List.mem_cons_self
      have hserves :=
        h.stores.serves (by rw [List.length_map]; exact h.sound) hcapacity (.inl hblock)
      have hreceived : ∃ sensor client, (stream.client.receive (stream.asMessage camera freshRegion
          freshMessage (packet camera notice))) = .ok (client,
            (feed.lookup capacity.toNat notice).toList.flatMap fun bytes =>
              stream.client.cb.map fun cb => (cb, ⟨sensor, camera.metadata, bytes⟩)) ∧
          (notice.value = none → sensor = camera.sensor) ∧ HasRing camera client ∧
            client.cb = stream.client.cb := by
        rw [Feed.lookup, packet]
        cases hvalue : notice.value with
        | none =>
            obtain ⟨proxy, hget, hfound⟩ := get_eq_recent? hserves h.sized h.bounded hplace
            obtain ⟨client, hclient, hring, hcb⟩ :=
              receive_announcement h.client h.sound hget freshMessage
            rw [hfound, h.images] at hclient
            exact ⟨camera.sensor, client, hclient, fun _ => rfl, hring, hcb⟩
        | some imageData =>
            have himage := h.ordered.carried notice (by rw [hpending]; exact List.mem_cons_self)
              imageData hvalue
            have hsize := h.sized imageData (h.images ▸ List.mem_of_getElem? himage)
            obtain ⟨client, hclient, htable, hcb⟩ :=
              @receive_imageRegion _ camera stream.client _ hsize freshRegion
            refine ⟨freshRegion.sensor, client, ?_, (fun hnone => by cases hnone), ?_, hcb⟩
            · show stream.client.receive (.imageRegion freshRegion _) = _
              rw [hclient, Option.toList_some, List.flatMap_singleton]
            · rw [HasRing, htable]
              exact h.client
      obtain ⟨sensor, client, hclient, hsensor, hring, hcb⟩ := hreceived
      have hafter : stream.receive camera freshRegion freshMessage = some { stream with
          link := notices.map (packet camera)
          client := client
          calls := stream.calls ++ (feed.lookup capacity.toNat notice).toList.flatMap fun bytes =>
            stream.client.cb.map fun cb => (cb, ⟨sensor, camera.metadata, bytes⟩) } := by
        rw [ImageStream.receive, hlink]
        simp only [Option.map_some, Option.bind_eq_bind, Option.bind_some, hclient, Except.toOption]
      have hfeed : feed.receive capacity.toNat = some { feed with
          link := notices
          calls := feed.calls ++ feed.callAll notice (feed.lookup capacity.toNat notice) } := by
        rw [Feed.receive, htake]
        rfl
      have hordered := h.ordered.receive hfeed
      rw [hafter, hfeed]
      constructor
      case toShows =>
        refine ⟨h.images, rfl, hcb.trans h.handlers, List.rel_append h.calls ?_⟩
        rw [h.handlers]
        exact forall₂_showsCall feed.handlers notice hsensor _
      case ordered => exact hordered
      case sound => exact h.sound
      case stores => exact h.stores
      case sized => exact h.sized
      case bounded => exact h.bounded
      case server => exact h.server
      case client => exact hring

/-- A step lemma. -/
theorem Simulates.step (h : Simulates camera buffers capacity stream feed)
    (hcapacity : 0 < capacity)
    (hblock : capacity.toNat ∣ 65536) {numSensors : UInt32} {event : ImageStreamEvent}
    (hproper : Proper camera stream event) :
    StepsTogether camera buffers capacity ((imageStream camera ring numSensors).step event stream)
      ((feedSystem capacity.toNat (carries camera)).step (asFeed event) feed) := by
  cases event with
  | registerImageHandler handler => exact h.registerImageHandler handler
  | sendImageData imageData =>
      obtain ⟨after, hafter, hsimulates⟩ := h.sendImageData hcapacity hproper.1 hproper.2
      show StepsTogether _ _ _ (stream.sendImageData camera imageData) (some _)
      rw [hafter]
      exact hsimulates
  | connect =>
      have hpublished : stream.published camera = feed.published (carries camera) := by
        rw [published, Feed.published, h.images]
      refine h.relink ?_ rfl
      rw [h.link, hpublished]
      rfl
  | disconnect =>
      refine h.relink ?_ rfl
      rw [h.link]
      rfl
  | receive freshRegion freshMessage =>
      exact h.receive hcapacity hblock freshRegion freshMessage

end Simulation

/-! ## Runs -/

section Runs

variable {camera : Camera platform} {ring : ServerRing} {memory : SegmentMemory}
  {layout : RingLayout} {supports : UInt8 → Bool} {zeroed : ℕ → UInt8} {kept : Option ℕ}
  {numSensors : UInt32} {stream after : ImageStream platform}
  {feed : Feed ImageHandler (List UInt8)} {event : ImageStreamEvent} {handler : ImageHandler}

theorem simulates_init
    (hcreate : ((memory.create camera.opts layout supports zeroed).run kept).1 = .ok (some ring))
    (hapart : memory.KeepsApart camera.opts) :
    Simulates camera (memory.buffers camera.opts) ring.getEntries
      (imageStream camera ring numSensors).init .init where
  images := rfl
  link := rfl
  handlers := rfl
  calls := .nil
  ordered := @Feed.ordered_of_reachable _ _ 0 (fun _ => false) _ .init
  sound := SegmentMemory.sound_of_create hcreate
  stores := by
    have hstores := @ServerRing.stores_of_create ring ring.getEntries _ _ _ _ _ _ hcreate hapart
    rwa [show camera.opts.entrySize.toNat = imageSize camera.metadata from
      toNat_getBufferSize_camera camera] at hstores
  sized _ hmem := by cases hmem
  bounded := Nat.zero_le _
  server _ hshm := by cases hshm
  client _ hshm := by cases hshm

/-- A step of the stream is one of the feed. -/
theorem Simulates.exists_step {buffers : Set ℕ} {capacity : RawIndex}
    (h : Simulates camera buffers capacity stream feed) (hcapacity : 0 < capacity)
    (hblock : capacity.toNat ∣ 65536) (hproper : Proper camera stream event)
    (hstep : (imageStream camera ring numSensors).step event stream = some after) :
    ∃ next, (feedSystem capacity.toNat (carries camera)).step (asFeed event) feed = some next ∧
      Simulates camera buffers capacity after next := by
  have htogether :=
    @Simulates.step _ camera ring _ _ _ _ h hcapacity hblock numSensors event hproper
  rw [hstep] at htogether
  unfold StepsTogether at htogether
  split at htogether
  next _ next hstream hfeed =>
    obtain rfl := Option.some.inj hstream
    exact ⟨next, hfeed, htogether⟩
  next hnone _ => cases hnone
  next => exact htogether.elim
  next hnone _ => cases hnone

/-- The client is connected and has its handlers before the first image, stays connected, and
comes to the announcement of an image while that is in the ring. -/
def InTime (camera : Camera platform) (capacity : RawIndex) (stream : ImageStream platform) :
    ImageStreamEvent → Prop
  | .registerImageHandler _ | .connect => stream.images = []
  | .disconnect => False
  | .sendImageData _ => True
  | .receive _ _ => ∀ place < stream.images.length,
      stream.link.pending.head? = some (packet camera ⟨place, none⟩) →
        stream.images.length ≤ place + capacity.toNat

instance (capacity : RawIndex) (stream : ImageStream platform) (event : ImageStreamEvent) :
    Decidable (InTime camera capacity stream event) :=
  match event with
  | .registerImageHandler _ | .connect => inferInstanceAs (Decidable (_ = _))
  | .disconnect => inferInstanceAs (Decidable False)
  | .sendImageData _ => inferInstanceAs (Decidable True)
  | .receive _ _ =>
      inferInstanceAs (Decidable (∀ place < stream.images.length,
        stream.link.pending.head? = some (packet camera ⟨place, none⟩) →
          stream.images.length ≤ place + capacity.toNat))

/-- The feed is in time when the stream is. -/
theorem Simulates.prompt {buffers : Set ℕ} {capacity : RawIndex}
    (h : Simulates camera buffers capacity stream feed)
    (hintime : InTime camera capacity stream event) :
    Feed.Prompt capacity.toNat feed (asFeed event) := by
  cases event with
  | registerImageHandler handler => exact h.images.symm.trans hintime
  | sendImageData imageData => trivial
  | connect => exact h.images.symm.trans hintime
  | disconnect => exact hintime
  | receive freshRegion freshMessage =>
      rintro ⟨place, value⟩ hnotice rfl
      have hmem := List.mem_of_mem_head? hnotice
      have hlt : place < feed.log.length :=
        h.ordered.bounded place (List.mem_append_right _ (List.mem_map_of_mem hmem))
      have hhead : stream.link.pending.head? = some (packet camera ⟨place, none⟩) := by
        rw [h.link]
        show (feed.link.pending.map (packet camera)).head? = _
        rw [List.head?_map, hnotice]
        rfl
      rw [← h.images] at hlt ⊢
      exact hintime place hlt hhead

/-- The images that a handler is called with are those of the feed. -/
theorem Shows.buffers_eq (h : Shows camera stream feed) (handler : ImageHandler) :
    (stream.calls.filter fun call => call.1 = handler).map (fun call => call.2.buffer) =
      (feed.calls.filter fun call => call.1 = handler).map fun call => call.2.2 := by
  have hcalls : stream.calls.map (fun call => (call.1, call.2.buffer)) =
      feed.calls.map fun call => (call.1, call.2.2) := by
    rw [← List.forall₂_eq_eq_eq, List.forall₂_map_left_iff, List.forall₂_map_right_iff]
    exact h.calls.imp fun _ _ hshows => Prod.ext hshows.1 hshows.2.2.1
  have hfiltered := congrArg (fun calls : List (ImageHandler × List UInt8) =>
    (calls.filter fun call => call.1 = handler).map Prod.snd) hcalls
  simp only [List.filter_map, List.map_map] at hfiltered
  exact hfiltered

/-! The images are placed in a ring that was created with buffers that are apart, for so many
entries that a wrap of the begin index does no harm. -/

variable (hcreate : ((memory.create camera.opts layout supports zeroed).run kept).1 =
    .ok (some ring))
  (hapart : memory.KeepsApart camera.opts) (hentries : 0 < ring.getEntries)
  (hblock : ring.getEntries.toNat ∣ 65536)

include hcreate hapart hentries hblock

/-- A run of the stream, whose steps are allowed for it, is a run of the feed, whose steps are
allowed for that. -/
theorem exists_feed
    {allowed : ImageStream platform → ImageStreamEvent → Prop}
    {promised : Feed ImageHandler (List UInt8) → FeedAction ImageHandler (List UInt8) → Prop}
    (hproper : ∀ stream event, allowed stream event → Proper camera stream event)
    (hpromised : ∀ stream feed event, Simulates camera (memory.buffers camera.opts) ring.getEntries
      stream feed → allowed stream event → promised feed (asFeed event))
    (hreach : (imageStream camera ring numSensors).ReachableWhile allowed stream) :
    ∃ feed, (feedSystem ring.getEntries.toNat (carries camera)).ReachableWhile promised feed ∧
      Simulates camera (memory.buffers camera.opts) ring.getEntries stream feed := by
  induction hreach with
  | init => exact ⟨.init, .init, simulates_init hcreate hapart⟩
  | @step before after event _ permitted taken ih =>
      obtain ⟨feed, hfeed, hsimulates⟩ := ih
      obtain ⟨next, hnext, hafter⟩ :=
        hsimulates.exists_step hentries hblock (hproper _ _ permitted) taken
      exact ⟨next, .step hfeed (hpromised _ _ _ hsimulates permitted) hnext, hafter⟩

/-- The stream refines the feed: what a client gets is what a reader of the log gets, and it
is never stuck where that is not. What is sent are the messages of the server's component. -/
theorem refines_feed
    (hreach : (imageStream camera ring numSensors).ReachableWhile (Proper camera) stream) :
    ∃ feed, (feedSystem ring.getEntries.toNat (carries camera)).Reachable feed ∧
      Shows camera stream feed ∧
      (∀ event, Proper camera stream event →
        ((imageStream camera ring numSensors).step event stream).isSome =
          ((feedSystem ring.getEntries.toNat (carries camera)).step (asFeed event) feed).isSome) ∧
      ∀ imageData after, stream.sendImageData camera imageData = some after →
        ∃ packets, after.link = stream.link.publish packets ∧
          stream.server.sendImageData (camera.memory stream.ring) camera.metadata imageData
            camera.sensor = .ok (after.server, packets.map ImagingPacket.payload) := by
  obtain ⟨feed, hfeed, hsimulates⟩ :=
    @exists_feed _ _ _ _ _ _ _ _ _ _ hcreate hapart hentries hblock
    _ (fun _ _ => True) (fun _ _ => id) (fun _ _ _ _ _ => trivial) hreach
  refine ⟨feed, hfeed, hsimulates.toShows, fun event hproper => ?_,
    fun _ _ => component_sendImageData⟩
  have htogether :=
    @Simulates.step _ camera ring _ _ _ _ hsimulates hentries hblock numSensors event hproper
  unfold StepsTogether at htogether
  split at htogether
  next hstream hnext =>
    rw [hstream, hnext]
    rfl
  next hstream hnext =>
    rw [hstream, hnext]
    rfl
  next => exact htogether.elim
  next => exact htogether.elim

/-- The handlers get whole images that were sent, in the order in which they were sent. -/
theorem calls_in_order
    (hreach : (imageStream camera ring numSensors).ReachableWhile (Proper camera) stream) :
    ∃ places : List ℕ, places.Pairwise (· ≤ ·) ∧
      List.Forall₂ (fun place (call : ImageHandler × ImageData) =>
        stream.images[place]? = some call.2.buffer ∧ call.2.metadata = camera.metadata)
          places stream.calls := by
  obtain ⟨feed, -, hsimulates⟩ := @exists_feed _ _ _ _ _ _ _ _ _ _ hcreate hapart hentries hblock
    _ (fun _ _ => True) (fun _ _ => id) (fun _ _ _ _ _ => trivial) hreach
  refine ⟨feed.calls.map fun call => call.2.1.place, ?_, ?_⟩
  · exact hsimulates.ordered.sorted.sublist (List.sublist_append_left _ _)
  · obtain ⟨hlength, hshows⟩ := List.forall₂_iff_get.mp hsimulates.calls
    rw [List.forall₂_map_left_iff, List.forall₂_iff_get]
    refine ⟨hlength.symm, fun i hi hcall => ?_⟩
    obtain ⟨-, hmetadata, hbuffer, -⟩ := hshows i hcall hi
    rw [hsimulates.images, hbuffer]
    exact ⟨hsimulates.ordered.called _ (List.get_mem _ _), hmetadata⟩

/-- A client that is always in time misses no image. -/
theorem images_sublist_of_inTime
    (hreach : (imageStream camera ring numSensors).ReachableWhile (fun stream event =>
      Proper camera stream event ∧ InTime camera ring.getEntries stream event) stream)
    (hattached : stream.link.attached = true) (hcount : stream.client.cb.count handler = 1)
    (hpending : stream.link.pending = []) :
    stream.images.Sublist
      ((stream.calls.filter fun call => call.1 = handler).map fun call => call.2.buffer) := by
  obtain ⟨feed, hfeed, hsimulates⟩ := exists_feed hcreate hapart hentries hblock
    (fun _ _ hallowed => hallowed.1)
    (fun _ _ _ hsimulates hallowed => hsimulates.prompt hallowed.2) hreach
  rw [hsimulates.handlers] at hcount
  rw [hsimulates.link] at hattached hpending
  have hvalues := Feed.lookedUp_of_prompt hfeed hattached hcount (List.map_eq_nil_iff.mp hpending)
  rw [hsimulates.images, ← hvalues, hsimulates.toShows.buffers_eq]
  refine List.Sublist.map _ (List.monotone_filter_right _ fun call hcall => ?_)
  simp only [decide_eq_true_eq] at hcall ⊢
  exact hcall.1

end Runs

/-! ## A pixel -/

def pixelPlatform : Platform := ⟨littleEndianHost, [0], fun _ => 1, 64000, [67, 97, 109]⟩

def pixelCamera : Camera pixelPlatform where
  metadata := greyPixel.metadata
  sensor := 0
  segment := 0
  type_mem := by decide
  imageSize_lt := by decide
  sensor_lt := by decide
  bufferLength_eq := by decide
  backend_mem := by decide
  name_lt := by decide +kernel

/-- Memory with room for every element. -/
def pixelMemory : SegmentMemory where
  createsSegment _ := true
  constructsElements _ := true
  allocateAligned element _ _ := .allocated (16 * element.toNat)

/-- The ring that the first pixel creates. -/
def pixelRing : ServerRing where
  bookkeeping := Bookkeeping.init 16 1
  getBuf element := some (16 * element.toNat)
  segment _ := 0

def pixelStream : TransitionSystem (ImageStream pixelPlatform) ImageStreamEvent :=
  imageStream pixelCamera pixelRing 1

/-- A client connects, the device sends a pixel, and the client receives both messages. -/
def pixelEvents : List ImageStreamEvent :=
  [.registerImageHandler 7, .connect, .sendImageData [200], .receive zeroRegion zeroAnnouncement,
    .receive zeroRegion zeroAnnouncement]

theorem create_pixelRing : ((pixelMemory.create pixelCamera.opts ⟨96, 72, by decide⟩
    (fun backend => backend == 0) (fun _ => 0)).run none).1 = .ok (some pixelRing) := by
  rfl

theorem keepsApart_pixelMemory : pixelMemory.KeepsApart pixelCamera.opts := by
  intro first second address other hne hfirst hsecond
  have hsize : pixelCamera.opts.entrySize.toNat = 1 := by decide
  rw [← Allocation.allocated.inj hfirst, ← Allocation.allocated.inj hsecond, hsize]
  have := mt UInt16.toNat_inj.mp hne
  omega

/-- The stream after the events. -/
def pixelReceived : ImageStream pixelPlatform :=
  (pixelStream.runWhile (fun stream event => Proper pixelCamera stream event ∧
    InTime pixelCamera pixelRing.getEntries stream event) pixelEvents pixelStream.init).getD
      pixelStream.init

theorem reachable_pixelReceived : pixelStream.ReachableWhile (fun stream event =>
    Proper pixelCamera stream event ∧ InTime pixelCamera pixelRing.getEntries stream event)
      pixelReceived := by
  have hsome : (pixelStream.runWhile (fun stream event => Proper pixelCamera stream event ∧
      InTime pixelCamera pixelRing.getEntries stream event) pixelEvents pixelStream.init).isSome =
        true := by decide +kernel
  obtain ⟨stream, hrun⟩ := Option.isSome_iff_exists.mp hsome
  rw [pixelReceived, hrun]
  exact TransitionSystem.reachableWhile_of_run .init pixelEvents hrun

theorem refines_feed_pixel :
    ∃ feed, (feedSystem 16 (carries pixelCamera)).Reachable feed ∧
      Shows pixelCamera pixelReceived feed := by
  have hreach := reachable_pixelReceived.mono fun _ _ hallowed => hallowed.1
  obtain ⟨feed, hfeed, hshows, -⟩ := refines_feed create_pixelRing keepsApart_pixelMemory
    (by decide) (by decide) hreach
  exact ⟨feed, hfeed, hshows⟩

theorem calls_in_order_pixel :
    ∃ places : List ℕ, places.Pairwise (· ≤ ·) ∧
      List.Forall₂ (fun place (call : ImageHandler × ImageData) =>
        pixelReceived.images[place]? = some call.2.buffer ∧
          call.2.metadata = pixelCamera.metadata) places pixelReceived.calls := by
  have hreach := reachable_pixelReceived.mono fun _ _ hallowed => hallowed.1
  exact calls_in_order create_pixelRing keepsApart_pixelMemory (by decide) (by decide) hreach

theorem images_sublist_pixel : pixelReceived.images.Sublist
    ((pixelReceived.calls.filter fun call => call.1 = 7).map fun call => call.2.buffer) :=
  images_sublist_of_inTime create_pixelRing keepsApart_pixelMemory (by decide) (by decide)
    reachable_pixelReceived (by decide +kernel) (by decide +kernel) (by decide +kernel)

end ImageStream

end OSVR.Common
