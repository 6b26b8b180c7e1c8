/-
# Operations on ring buffers

A ring that came to have a buffer for at least one element is safe to use in any order: no
index is reduced modulo zero, and every element that is reached is there and has its
buffer. What is put goes to the start of such a buffer, and is not cut to its size. A ring
that has none may still be read from.
-/

import OsvrCore.Common.RingBufferCreation

set_option autoImplicit false

namespace OSVR.Common

/-! ## Operations -/

/-- The public operations of a ring: the two forms of `put`, and the two ways to read. -/
inductive RingOperation
  | putData (data : List UInt8)
  | put
  | get (num : SequenceNumber)
  | getLatest
  deriving DecidableEq, Repr

/-- `BufferWriteProxy` and `BufferReadProxy`: the address of a buffer, and the sequence
number of the element. -/
structure BufferProxy where
  buf : Option ℕ
  seq : SequenceNumber
  deriving DecidableEq, Repr

namespace ServerRing

/-- The bytes of the segment after `memcpy` to an address. -/
def memcpy (segment : ℕ → UInt8) (dest : ℕ) (data : List UInt8) : ℕ → UInt8 :=
  fun address =>
    if dest ≤ address then data.getD (address - dest) (segment address) else segment address

variable (ring : ServerRing)

def put : Except RingFault (ServerRing × BufferProxy) := do
  let (bookkeeping, seq, element) ← ring.bookkeeping.produceElement
  return ({ ring with bookkeeping }, ⟨ring.getBuf element, seq⟩)

/-- The other `put`. The length is that of the data; nothing compares it with the size of
an entry. -/
def putData (data : List UInt8) : Except RingFault (ServerRing × BufferProxy) := do
  let (after, proxy) ← ring.put
  match proxy.buf with
  | none => throw .nullElement
  | some dest => return ({ after with segment := memcpy after.segment dest data }, proxy)

/-- The proxy of a reader; without an element it is empty. -/
def readProxy (element : Option RawIndex) (seq : SequenceNumber) : BufferProxy :=
  match element with
  | none => ⟨none, 0⟩
  | some element => ⟨ring.getBuf element, seq⟩

def get (num : SequenceNumber) : Except RingFault BufferProxy := do
  return ring.readProxy (← ring.bookkeeping.getBySequenceNumber num) num

def getLatest : Except RingFault BufferProxy := do
  return ring.readProxy (← ring.bookkeeping.back) ring.bookkeeping.backSequenceNumber

def step : RingOperation → Except RingFault (ServerRing × BufferProxy)
  | .putData data => ring.putData data
  | .put => ring.put
  | .get num => do return (ring, ← ring.get num)
  | .getLatest => do return (ring, ← ring.getLatest)

/-- The ring after some operations. -/
def run (ring : ServerRing) : List RingOperation → Except RingFault ServerRing
  | [] => .ok ring
  | op :: rest => do
      let (after, _) ← ring.step op
      run after rest

end ServerRing

/-- An operation that takes no element for itself. -/
def RingOperation.Reads : RingOperation → Prop
  | get _ | getLatest => True
  | putData _ | put => False

/-- What an operation does to a ring with some buffers: the buffer it hands out is one of
them, there is one for what is put, and just the bytes that are put are written to it. -/
structure SafeStep (buffers : Set ℕ) (op : RingOperation) (before after : ServerRing)
    (proxy : BufferProxy) : Prop where
  buffer : ∀ address, proxy.buf = some address → address ∈ buffers
  present : ¬ op.Reads → proxy.buf.isSome = true
  written : ∀ data, op = .putData data → ∀ dest, proxy.buf = some dest →
    (∀ i (h : i < data.length), after.segment (dest + i) = data[i]) ∧
      ∀ address, address < dest ∨ dest + data.length ≤ address →
        after.segment address = before.segment address
  unwritten : (∀ data, op ≠ .putData data) → after.segment = before.segment

/-! ## Construction -/

namespace Bookkeeping

/-- The elements before the first failure did not fail. -/
theorem not_fails_of_lt_allocated {allocationFails : RawIndex → Bool} {fuel : ℕ} {i : RawIndex}
    (hfuel : i.toNat + fuel < 2 ^ 16) {element : RawIndex} (hle : i ≤ element)
    (hlt : element < allocated allocationFails fuel i) : allocationFails element = false := by
  induction fuel generalizing i with
  | zero => exact absurd hlt (UInt16.not_lt.mpr hle)
  | succ fuel ih =>
      rw [allocated] at hlt
      split at hlt
      next => exact absurd hlt (UInt16.not_lt.mpr hle)
      next hallocated =>
        by_cases heq : i = element
        · rw [← heq]
          exact Bool.eq_false_iff.mpr hallocated
        · have hnext : (i + 1).toNat = i.toNat + 1 := by
            rw [UInt16.toNat_add, UInt16.toNat_one, Nat.mod_eq_of_lt (by omega)]
          apply ih _ _ hlt
          · omega
          · rw [UInt16.le_iff_toNat_le] at hle ⊢
            have hne := mt UInt16.toNat_inj.mp heq
            omega

theorem allocated_le (allocationFails : RawIndex → Bool) {fuel : ℕ} {i : RawIndex}
    (hfuel : i.toNat + fuel < 2 ^ 16) :
    (allocated allocationFails fuel i).toNat ≤ i.toNat + fuel := by
  induction fuel generalizing i with
  | zero => exact Nat.le_refl _
  | succ fuel ih =>
      rw [allocated]
      split
      next => exact Nat.le_add_right _ _
      next =>
        have hnext : (i + 1).toNat = i.toNat + 1 := by
          rw [UInt16.toNat_add, UInt16.toNat_one, Nat.mod_eq_of_lt (by omega)]
        have hrest := ih (i := i + 1) (by omega)
        omega

variable {b : Bookkeeping} {capacity : RawIndex} {n : ℕ}

theorem capacity_ne_zero_of_size (h : b.Counts capacity n) (hsize : b.size ≠ 0) :
    capacity ≠ 0 := by
  rintro rfl
  have hzero := h.size_eq
  rw [UInt16.toNat_zero, Nat.min_zero] at hzero
  exact hsize (UInt16.toNat_inj.mp hzero)

/-- An index that is reduced modulo the capacity is that of an element. -/
theorem Counts.exists_getByRawIndex (h : b.Counts capacity n) (hcapacity : capacity ≠ 0)
    (index : RawIndex) : ∃ element < capacity, b.getByRawIndex index = .ok element := by
  have hpos : 0 < capacity := UInt16.pos_iff_ne_zero.mpr hcapacity
  exact ⟨index % capacity, UInt16.mod_lt index hpos, h.getByRawIndex_eq hpos index⟩

/-- A lookup finds nothing or an element, also in a ring without any. -/
theorem Counts.getBySequenceNumber_cases (h : b.Counts capacity n) (num : SequenceNumber) :
    b.getBySequenceNumber num = .ok none ∨
      ∃ element < capacity, b.getBySequenceNumber num = .ok (some element) := by
  rw [getBySequenceNumber]
  dsimp only
  split
  next hrelative =>
    have hsize : b.size ≠ 0 := by
      intro hzero
      rw [hzero] at hrelative
      exact absurd hrelative (UInt32.not_lt.mpr UInt32.zero_le)
    have hcapacity := capacity_ne_zero_of_size h hsize
    rw [if_neg (h.capacity_eq ▸ hcapacity)]
    obtain ⟨element, hlt, hget⟩ := h.exists_getByRawIndex hcapacity
      ((b.begin.toUInt32 + (num - b.beginSequenceNumber)) % b.capacity.toUInt32).toUInt16
    rw [hget]
    exact .inr ⟨element, hlt, rfl⟩
  next => exact .inl rfl

theorem Counts.back_cases (h : b.Counts capacity n) :
    b.back = .ok none ∨ ∃ element < capacity, b.back = .ok (some element) := by
  rw [back]
  split
  next => exact .inl rfl
  next hnonempty =>
    have hsize : b.size ≠ 0 := by
      intro hzero
      exact hnonempty (beq_iff_eq.mpr hzero)
    obtain ⟨element, hlt, hget⟩ := h.exists_getByRawIndex (capacity_ne_zero_of_size h hsize)
      (UInt16.ofNat (b.begin.toNat + b.size.toNat - 1))
    rw [hget]
    exact .inr ⟨element, hlt, rfl⟩

theorem slotOf_lt (hcapacity : 0 < capacity) : slotOf capacity n < capacity :=
  UInt16.mod_lt _ hcapacity

end Bookkeeping

namespace SegmentMemory

variable {memory : SegmentMemory} {opts : IPCRingBufferOptions}

/-- Where the loop ends, unless an exception leaves it. -/
theorem eq_allocated_of_allocateBufs {fuel : ℕ} {i capacity : RawIndex}
    (h : memory.allocateBufs opts fuel i = .ok capacity) :
    capacity =
      Bookkeeping.allocated (fun element => (memory.bufferOf opts element).isNone) fuel i := by
  induction fuel generalizing i with
  | zero => exact (Except.ok.inj h).symm
  | succ fuel ih =>
      rw [allocateBufs] at h
      rw [Bookkeeping.allocated, bufferOf]
      cases hbuffer : memory.allocateAligned i opts.entrySize opts.alignment with
      | allocated address =>
          rw [hbuffer] at h
          exact ih h
      | throwsBadAlloc =>
          rw [hbuffer] at h
          exact (Except.ok.inj h).symm
      | throwsOther =>
          rw [hbuffer] at h
          cases h

/-- The bookkeeping is that of the entries before the first whose buffer was refused. -/
theorem constructBookkeeping_eq_construct {bookkeeping : Bookkeeping}
    (h : memory.constructBookkeeping opts = .ok bookkeeping) :
    bookkeeping = Bookkeeping.construct opts.entries opts.entrySize
      (fun element => (memory.bufferOf opts element).isNone) := by
  rw [constructBookkeeping] at h
  split at h
  next =>
    cases hloop : memory.allocateBufs opts opts.entries.toNat 0 with
    | error error =>
        rw [hloop] at h
        cases h
    | ok capacity =>
        rw [hloop] at h
        rw [Bookkeeping.construct, ← eq_allocated_of_allocateBufs hloop]
        exact (Except.ok.inj h).symm
  next => cases h

end SegmentMemory

/-- A ring in use: the counters of a run, over elements that all have a buffer. -/
structure ServerRing.Sound (ring : ServerRing) (buffers : Set ℕ) (capacity : RawIndex)
    (n : ℕ) : Prop where
  counts : ring.bookkeeping.Counts capacity n
  allocated : ∀ element < capacity, ∃ address ∈ buffers, ring.getBuf element = some address

namespace SegmentMemory

variable {memory : SegmentMemory} {opts : IPCRingBufferOptions}

/-- The addresses of the buffers that the options got. -/
def buffers (memory : SegmentMemory) (opts : IPCRingBufferOptions) : Set ℕ :=
  { address | ∃ element < opts.entries,
    memory.allocateAligned element opts.entrySize opts.alignment = .allocated address }

theorem mem_buffers_of_bufferOf {element : RawIndex} {address : ℕ} (hlt : element < opts.entries)
    (h : memory.bufferOf opts element = some address) : address ∈ memory.buffers opts := by
  refine ⟨element, hlt, ?_⟩
  rw [bufferOf] at h
  cases hbuffer : memory.allocateAligned element opts.entrySize opts.alignment with
  | allocated other =>
      rw [hbuffer] at h
      rw [Option.some.inj h]
  | throwsBadAlloc | throwsOther =>
      rw [hbuffer] at h
      cases h

/-- What the constructor leaves when it returns. -/
theorem sound_of_constructMemorySegment {zeroed : ℕ → UInt8} {space : ℕ} {ring : ServerRing}
    (h : memory.constructMemorySegment opts zeroed space = .ok (some ring)) :
    ring.Sound (memory.buffers opts) ring.getEntries 0 := by
  rw [constructMemorySegment] at h
  split at h
  next =>
    cases hconstruct : memory.constructBookkeeping opts with
    | error error =>
        rw [hconstruct] at h
        cases h
    | ok bookkeeping =>
        rw [hconstruct] at h
        obtain rfl := Option.some.inj (Except.ok.inj h)
        have hcapacity := constructBookkeeping_eq_construct hconstruct
        constructor
        case counts =>
          rw [ServerRing.getEntries, hcapacity]
          exact Bookkeeping.counts_init _ _
        case allocated =>
          intro element hlt
          have hbound : (0 : RawIndex).toNat + opts.entries.toNat < 2 ^ 16 := by
            rw [UInt16.toNat_zero, Nat.zero_add]
            exact opts.entries.toNat_lt
          rw [ServerRing.getEntries, hcapacity] at hlt
          have hbuffer := Bookkeeping.not_fails_of_lt_allocated hbound UInt16.zero_le hlt
          obtain ⟨address, haddress⟩ := Option.ne_none_iff_exists'.mp
            (mt Option.isNone_iff_eq_none.mpr (Bool.eq_false_iff.mp hbuffer))
          have hentries : element < opts.entries := by
            have hle := Bookkeeping.allocated_le
              (fun element => (memory.bufferOf opts element).isNone) hbound
            rw [UInt16.lt_iff_toNat_lt] at hlt ⊢
            rw [UInt16.toNat_zero, Nat.zero_add] at hle
            exact Nat.lt_of_lt_of_le hlt hle
          exact ⟨address, mem_buffers_of_bufferOf hentries haddress, haddress⟩
  next => cases h

theorem sound_of_create {layout : RingLayout} {supports : UInt8 → Bool} {zeroed : ℕ → UInt8}
    {kept : Option ℕ} {ring : ServerRing}
    (h : ((memory.create opts layout supports zeroed).run kept).1 = .ok (some ring)) :
    ring.Sound (memory.buffers opts) ring.getEntries 0 := by
  rw [create, StateT.run_bind] at h
  rcases hrequest : (opts.requestSpace layout supports).run kept with ⟨space, after⟩
  rw [hrequest] at h
  cases space with
  | none => cases h
  | some space => exact sound_of_constructMemorySegment h

end SegmentMemory

/-! ## Steps and runs -/

namespace ServerRing

variable {ring : ServerRing} {buffers : Set ℕ} {capacity : RawIndex} {n : ℕ}

theorem memcpy_inside (segment : ℕ → UInt8) (dest : ℕ) (data : List UInt8) (i : ℕ)
    (h : i < data.length) : memcpy segment dest data (dest + i) = data[i] := by
  rw [memcpy, if_pos (Nat.le_add_right _ _), Nat.add_sub_cancel_left,
    List.getD_eq_getElem?_getD, List.getElem?_eq_getElem h, Option.getD_some]

theorem memcpy_outside (segment : ℕ → UInt8) {dest address : ℕ} {data : List UInt8}
    (h : address < dest ∨ dest + data.length ≤ address) :
    memcpy segment dest data address = segment address := by
  rw [memcpy]
  split
  next hle =>
    have hnone : data[address - dest]? = none := List.getElem?_eq_none (by omega)
    rw [List.getD_eq_getElem?_getD, hnone, Option.getD_none]
  next => rfl

/-- One more element is put to use. -/
theorem Sound.put (h : ring.Sound buffers capacity n) (hcapacity : 0 < capacity) :
    ∃ after proxy, ring.put = .ok (after, proxy) ∧ after.segment = ring.segment ∧
      after.Sound buffers capacity (n + 1) ∧ ∃ address ∈ buffers, proxy.buf = some address := by
  obtain ⟨address, hbuffer, haddress⟩ := h.allocated _ (Bookkeeping.slotOf_lt (n := n) hcapacity)
  refine ⟨{ ring with bookkeeping := ring.bookkeeping.advance },
    ⟨ring.getBuf (Bookkeeping.slotOf capacity n), UInt32.ofNat n⟩, ?_, rfl,
    ⟨h.counts.advance, h.allocated⟩, address, hbuffer, haddress⟩
  rw [ServerRing.put, h.counts.produceElement_eq hcapacity]
  rfl

theorem Sound.readProxy (h : ring.Sound buffers capacity n) (seq : SequenceNumber)
    {found : Option RawIndex} (hfound : ∀ element, found = some element → element < capacity)
    (address : ℕ) (haddress : (ring.readProxy found seq).buf = some address) :
    address ∈ buffers := by
  cases found with
  | none => cases haddress
  | some element =>
      obtain ⟨other, hbuffer, hother⟩ := h.allocated element (hfound element rfl)
      have hsame : ring.getBuf element = some address := haddress
      rw [hother] at hsame
      exact Option.some.inj hsame ▸ hbuffer

/-- A lookup that finds nothing or an element is a safe step. -/
theorem Sound.safeStep_read (h : ring.Sound buffers capacity n) (op : RingOperation)
    (hreads : op.Reads) {found : Except RingFault (Option RawIndex)} (seq : SequenceNumber)
    (hfound : found = .ok none ∨ ∃ element < capacity, found = .ok (some element)) :
    ∃ result, found = .ok result ∧ SafeStep buffers op ring ring (ring.readProxy result seq) := by
  have hsafe (result : Option RawIndex)
      (hresult : ∀ element, result = some element → element < capacity) :
      SafeStep buffers op ring ring (ring.readProxy result seq) := by
    constructor
    case buffer => exact h.readProxy seq hresult
    case present => exact fun hnot => absurd hreads hnot
    case written =>
      rintro data rfl
      cases hreads
    case unwritten => exact fun _ => rfl
  rcases hfound with hnone | ⟨element, hlt, hsome⟩
  · exact ⟨none, hnone, hsafe none fun _ helement => by cases helement⟩
  · refine ⟨some element, hsome, hsafe (some element) ?_⟩
    intro other hother
    exact Option.some.inj hother ▸ hlt

/-- A step lemma: in a ring without elements, for what only reads. -/
theorem Sound.step (h : ring.Sound buffers capacity n) (op : RingOperation)
    (hop : capacity = 0 → op.Reads) :
    ∃ after proxy, ring.step op = .ok (after, proxy) ∧ SafeStep buffers op ring after proxy ∧
      ∃ n', after.Sound buffers capacity n' := by
  have hcapacity (hnot : ¬ op.Reads) : 0 < capacity :=
    UInt16.pos_iff_ne_zero.mpr (mt hop hnot)
  cases op with
  | putData data =>
      obtain ⟨after, proxy, hput, hsegment, hsound, dest, hdest, hbuf⟩ := h.put (hcapacity id)
      refine ⟨{ after with segment := memcpy after.segment dest data }, proxy, ?_, ?_, n + 1,
        hsound.counts, hsound.allocated⟩
      · rw [ServerRing.step, putData, hput]
        simp only [bind, Except.bind, hbuf]
        rfl
      · constructor
        case buffer => exact fun address haddress =>
          Option.some.inj (hbuf.symm.trans haddress) ▸ hdest
        case present => exact fun _ => by rw [hbuf]; rfl
        case written =>
          intro other hother start hstart
          obtain rfl := RingOperation.putData.inj hother
          obtain rfl := Option.some.inj (hbuf.symm.trans hstart)
          rw [hsegment]
          exact ⟨memcpy_inside _ _ _, fun _ => memcpy_outside _⟩
        case unwritten => exact fun hnot => absurd rfl (hnot data)
  | put =>
      obtain ⟨after, proxy, hput, hsegment, hsound, dest, hdest, hbuf⟩ := h.put (hcapacity id)
      refine ⟨after, proxy, hput, ?_, n + 1, hsound⟩
      constructor
      case buffer => exact fun address haddress =>
        Option.some.inj (hbuf.symm.trans haddress) ▸ hdest
      case present => exact fun _ => by rw [hbuf]; rfl
      case written => exact fun data hdata => by cases hdata
      case unwritten => exact fun _ => hsegment
  | get num =>
      obtain ⟨found, hfound, hsafe⟩ := h.safeStep_read (.get num) trivial num
        (h.counts.getBySequenceNumber_cases num)
      refine ⟨ring, ring.readProxy found num, ?_, hsafe, n, h⟩
      rw [ServerRing.step, get, hfound]
      rfl
  | getLatest =>
      obtain ⟨found, hfound, hsafe⟩ := h.safeStep_read .getLatest trivial
        ring.bookkeeping.backSequenceNumber h.counts.back_cases
      refine ⟨ring, ring.readProxy found ring.bookkeeping.backSequenceNumber, ?_, hsafe, n, h⟩
      rw [ServerRing.step, getLatest, hfound]
      rfl

/-- A run lemma: operations leave a ring that is sound. -/
theorem Sound.run (h : ring.Sound buffers capacity n) (ops : List RingOperation)
    (hops : capacity = 0 → ∀ op ∈ ops, op.Reads) :
    ∃ after n', ring.run ops = .ok after ∧ after.Sound buffers capacity n' := by
  induction ops generalizing ring n with
  | nil => exact ⟨ring, n, rfl, h⟩
  | cons op ops ih =>
      obtain ⟨middle, proxy, hstep, -, m, hmiddle⟩ :=
        h.step op fun hzero => hops hzero op List.mem_cons_self
      obtain ⟨after, n', hrun, hafter⟩ :=
        ih hmiddle fun hzero other hother => hops hzero other (List.mem_cons_of_mem op hother)
      refine ⟨after, n', ?_, hafter⟩
      rw [ServerRing.run, hstep]
      exact hrun

/-- After any operations on a ring that was created the next one is safe, where those on a
ring without any entry only read. -/
theorem exists_safeStep_of_create {memory : SegmentMemory} {opts : IPCRingBufferOptions}
    {layout : RingLayout} {supports : UInt8 → Bool} {zeroed : ℕ → UInt8} {kept : Option ℕ}
    (hcreate : ((memory.create opts layout supports zeroed).run kept).1 = .ok (some ring))
    (earlier : List RingOperation) (op : RingOperation)
    (hreads : ring.getEntries = 0 → ∀ other ∈ op :: earlier, other.Reads) :
    ∃ before after proxy, ring.run earlier = .ok before ∧ before.step op = .ok (after, proxy) ∧
      SafeStep (memory.buffers opts) op before after proxy := by
  have hsound := SegmentMemory.sound_of_create hcreate
  obtain ⟨before, n, hrun, hbefore⟩ := hsound.run earlier fun hzero other hother =>
    hreads hzero other (List.mem_cons_of_mem op hother)
  obtain ⟨after, proxy, hstep, hsafe, -⟩ :=
    hbefore.step op fun hzero => hreads hzero op List.mem_cons_self
  exact ⟨before, after, proxy, hrun, hstep, hsafe⟩

/-- Memory with room for two buffers of 64 bytes. -/
def twoBuffers : SegmentMemory where
  createsSegment _ := true
  constructsElements _ := true
  allocateAligned element _ _ :=
    if element = 0 then .allocated 1024
    else if element = 1 then .allocated 1088
    else .throwsBadAlloc

/-- The ring that asked for three entries, and got two. -/
def truncatedRing : ServerRing where
  bookkeeping := Bookkeeping.init 2 64
  getBuf := twoBuffers.bufferOf { name := [], entries := 3, entrySize := 64 }
  segment _ := 0

theorem exists_safeStep_of_create_truncated :
    ∃ before after proxy, truncatedRing.run [.getLatest, .put, .putData [1, 2]] = .ok before ∧
      before.step (.putData [3]) = .ok (after, proxy) ∧
        SafeStep (twoBuffers.buffers { name := [], entries := 3, entrySize := 64 })
          (.putData [3]) before after proxy := by
  have hcreate : ((twoBuffers.create { name := [], entries := 3, entrySize := 64 }
      ⟨96, 72, by decide⟩ (fun backend => backend == 0) (fun _ => 0)).run none).1 =
        .ok (some truncatedRing) := rfl
  apply exists_safeStep_of_create hcreate
  intro hzero
  cases hzero

/-- In a ring of no entries the first `put` uses an element that is not there, and data
that is longer than an entry is written past its end. -/
theorem not_safe_put_of_create :
    (¬ ∀ (memory : SegmentMemory) (opts : IPCRingBufferOptions) (layout : RingLayout)
      (supports : UInt8 → Bool) (zeroed : ℕ → UInt8) (kept : Option ℕ) (ring : ServerRing),
      ((memory.create opts layout supports zeroed).run kept).1 = .ok (some ring) →
        ∀ ops, ∃ after, ring.run ops = .ok after) ∧
    ¬ ∀ (memory : SegmentMemory) (opts : IPCRingBufferOptions) (layout : RingLayout)
      (supports : UInt8 → Bool) (zeroed : ℕ → UInt8) (kept : Option ℕ) (ring : ServerRing),
      ((memory.create opts layout supports zeroed).run kept).1 = .ok (some ring) →
        ∀ data after proxy dest, ring.step (.putData data) = .ok (after, proxy) →
          proxy.buf = some dest → ∀ address, dest + ring.getEntrySize.toNat ≤ address →
            after.segment address = ring.segment address := by
  apply And.intro
  · intro hall
    have hcreate : ((twoBuffers.create { name := [], entries := 0 } ⟨96, 72, by decide⟩
        (fun backend => backend == 0) (fun _ => 0)).run none).1 =
          .ok (some ⟨Bookkeeping.init 0 65536, twoBuffers.bufferOf { name := [], entries := 0 },
            fun _ => 0⟩) := rfl
    obtain ⟨after, hrun⟩ := hall _ _ _ _ _ _ _ hcreate [.put]
    have hfault : ServerRing.run ⟨Bookkeeping.init 0 65536,
        twoBuffers.bufferOf { name := [], entries := 0 }, fun _ => 0⟩ [.put] =
          .error .nullElement := rfl
    rw [hfault] at hrun
    cases hrun
  · intro hall
    have hcreate : ((twoBuffers.create { name := [], entries := 3, entrySize := 64 }
        ⟨96, 72, by decide⟩ (fun backend => backend == 0) (fun _ => 0)).run none).1 =
          .ok (some truncatedRing) := rfl
    have hkept :=
      hall _ _ _ _ _ _ _ hcreate (List.replicate 65 1) _ ⟨some 1024, 0⟩ 1024 rfl rfl 1088
      (by decide)
    exact absurd hkept (by decide)

end ServerRing

end OSVR.Common
