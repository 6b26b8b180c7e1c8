/-
# Creating ring buffers

The space for a ring is computed from its options. The part for its bookkeeping is a
static constant of the function, so it is the first ring of a process that decides it for
all that follow. What the shared memory library does with a request is a parameter.
-/

import OsvrCore.Common.Buffer
import OsvrCore.Common.IPCRingBuffer

set_option autoImplicit false

namespace OSVR.Common

/-! ## Options and space -/

/-- `IPCRingBuffer::BackendType`. -/
abbrev BackendType := UInt8

def BASIC_MANAGED_SHM_ID : BackendType := 0

/-- `std::isalpha` of the default locale. -/
def isalpha (c : UInt8) : Bool := (65 ≤ c && c ≤ 90) || (97 ≤ c && c ≤ 122)

def isdigit (c : UInt8) : Bool := 48 ≤ c && c ≤ 57

def UNDERSCORE : UInt8 := 95

/-- It must start with an alphabetic character; every unsafe character becomes an
underscore. -/
def makeNameSafe (input : List UInt8) : List UInt8 :=
  let ret :=
    match input with
    | [] => [90]
    | c :: rest => if isalpha c then c :: rest else 90 :: c :: rest
  ret.map fun c => if isalpha c || isdigit c || UNDERSCORE == c then c else UNDERSCORE

/-- Members of `IPCRingBuffer::Options`. -/
structure IPCRingBufferOptions where
  name : List UInt8
  shmBackend : BackendType := BASIC_MANAGED_SHM_ID
  alignment : UInt16 := 16
  entries : UInt16 := 16
  entrySize : UInt32 := 65536

/-- The constructor with a name and a backend. -/
def IPCRingBufferOptions.named (name : List UInt8) (backend : BackendType) : IPCRingBufferOptions :=
  { name := makeNameSafe name, shmBackend := backend }

/-- The sizes of the objects in the segment. -/
structure RingLayout where
  bookkeeping : ℕ
  elementData : ℕ
  elementData_pos : 0 < elementData

/-- A static constant: what the first call initializes it with stays. -/
def staticConst {α : Type} (init : α) : StateM (Option α) α :=
  fun kept => (kept.getD init, some (kept.getD init))

namespace IPCRingBufferOptions

variable (layout : RingLayout) (opts : IPCRingBufferOptions)

/-- The sum of an unsigned and a promoted short integer has 32 bits. -/
def alignedEntrySize : ℕ := (opts.entrySize + opts.alignment.toUInt32).toNat

def dataSize : ℕ := opts.alignedEntrySize * (opts.entries.toNat + 1)

/-- The initializer of `BOOKKEEPING_SIZE`. -/
def bookkeepingSize : ℕ := (layout.bookkeeping + layout.elementData * opts.entries.toNat) * 4 / 3

def computeRequiredSpace : StateM (Option ℕ) ℕ := do
  let BOOKKEEPING_SIZE ← staticConst (opts.bookkeepingSize layout)
  return opts.dataSize + BOOKKEEPING_SIZE

/-- The space that is requested for a new ring; a backend that is not compiled in is
refused before. -/
def requestSpace (supports : UInt8 → Bool) : StateM (Option ℕ) (Option ℕ) :=
  if supports opts.shmBackend then do return some (← opts.computeRequiredSpace layout)
  else return none

end IPCRingBufferOptions

/-- Rings that are created one after the other in one process, and their spaces. -/
def requestAll (layout : RingLayout) (supports : UInt8 → Bool) :
    List IPCRingBufferOptions → StateM (Option ℕ) (List (IPCRingBufferOptions × ℕ))
  | [] => return []
  | opts :: rest => do
      match ← opts.requestSpace layout supports with
      | none => requestAll layout supports rest
      | some space => return (opts, space) :: (← requestAll layout supports rest)

/-! ## Construction -/

/-- How the allocation of a buffer ends. The loop catches `std::bad_alloc` only. -/
inductive Allocation
  | allocated (address : ℕ)
  | throwsBadAlloc
  | throwsOther
  deriving DecidableEq, Repr

/-- What the library does with the requests for one ring. -/
structure SegmentMemory where
  createsSegment : (space : ℕ) → Bool
  constructsElements : (count : RawIndex) → Bool
  allocateAligned : (element : RawIndex) → (entrySize : UInt32) → (alignment : UInt16) → Allocation

/-- An exception that leaves the constructor of the bookkeeping; or the segment is refused, and
the destructor of its holder dereferences a null pointer. -/
inductive ConstructionError
  | elementArray
  | buffer
  | nullSegment
  deriving DecidableEq, Repr

/-- A ring in the server process: the bookkeeping, where the buffers of the elements are,
and the bytes of the segment. -/
structure ServerRing where
  bookkeeping : Bookkeeping
  getBuf : RawIndex → Option ℕ
  segment : ℕ → UInt8

namespace ServerRing

def getEntries (ring : ServerRing) : RawIndex := ring.bookkeeping.capacity

def getEntrySize (ring : ServerRing) : UInt32 := ring.bookkeeping.bufLen

end ServerRing

namespace SegmentMemory

variable (memory : SegmentMemory) (opts : IPCRingBufferOptions)

/-- The buffer of an element, as the constructor has left it. -/
def bufferOf (element : RawIndex) : Option ℕ :=
  match memory.allocateAligned element opts.entrySize opts.alignment with
  | .allocated address => some address
  | .throwsBadAlloc | .throwsOther => none

/-- The loop over the elements, from element `i` on. -/
def allocateBufs : (fuel : ℕ) → (i : RawIndex) → Except ConstructionError RawIndex
  | 0, i => .ok i
  | fuel + 1, i =>
      match memory.allocateAligned i opts.entrySize opts.alignment with
      | .allocated _ => allocateBufs fuel (i + 1)
      | .throwsBadAlloc => .ok i
      | .throwsOther => .error .buffer

def constructBookkeeping : Except ConstructionError Bookkeeping :=
  if memory.constructsElements opts.entries then
    (memory.allocateBufs opts opts.entries.toNat 0).map fun capacity =>
      Bookkeeping.init capacity opts.entrySize
  else .error .elementArray

/-- `constructMemorySegment` with so much space, in which everything is `zeroed` at first. -/
def constructMemorySegment (zeroed : ℕ → UInt8) (space : ℕ) :
    Except ConstructionError (Option ServerRing) :=
  if memory.createsSegment space then
    (memory.constructBookkeeping opts).map fun bookkeeping =>
      some ⟨bookkeeping, memory.bufferOf opts, zeroed⟩
  else .error .nullSegment

/-- `IPCRingBuffer::create`. -/
def create (layout : RingLayout) (supports : UInt8 → Bool) (zeroed : ℕ → UInt8) :
    StateM (Option ℕ) (Except ConstructionError (Option ServerRing)) := do
  match ← opts.requestSpace layout supports with
  | none => return .ok none
  | some space => return memory.constructMemorySegment opts zeroed space

end SegmentMemory

/-! ## The required space -/

/-- The space holds what these options ask for, computed without a wrap, and is that of a
process that has created no ring before. -/
structure EnoughSpace (layout : RingLayout) (opts : IPCRingBufferOptions) (space : ℕ) : Prop where
  covers : opts.entries.toNat *
      (opts.entrySize.toNat + computeAlignmentPadding opts.alignment.toNat opts.entrySize.toNat) +
        layout.bookkeeping + layout.elementData * opts.entries.toNat ≤ space
  noWrap : opts.alignedEntrySize = opts.entrySize.toNat + opts.alignment.toNat
  fresh : space = ((opts.computeRequiredSpace layout).run none).1

section Space

variable (layout : RingLayout) (supports : UInt8 → Bool) (opts : IPCRingBufferOptions)

theorem computeAlignmentPadding_le (alignment size : ℕ) :
    computeAlignmentPadding alignment size ≤ alignment := by
  rw [computeAlignmentPadding]
  split
  · exact Nat.zero_le _
  · dsimp only
    split
    · exact Nat.zero_le _
    · exact Nat.sub_le _ _

theorem IPCRingBufferOptions.alignedEntrySize_eq_iff :
    opts.alignedEntrySize = opts.entrySize.toNat + opts.alignment.toNat ↔
      opts.entrySize.toNat + opts.alignment.toNat < 2 ^ 32 := by
  rw [IPCRingBufferOptions.alignedEntrySize, UInt32.toNat_add, UInt16.toNat_toUInt32]
  have hsum := Nat.mod_lt (opts.entrySize.toNat + opts.alignment.toNat) (by decide : 0 < 2 ^ 32)
  apply Iff.intro
  · intro h
    rwa [h] at hsum
  · exact Nat.mod_eq_of_lt

/-- The bookkeeping of one number of entries is not that of another. -/
theorem IPCRingBufferOptions.bookkeepingSize_inj {first second : IPCRingBufferOptions}
    (h : first.bookkeepingSize layout = second.bookkeepingSize layout) :
    first.entries = second.entries := by
  have hpos := layout.elementData_pos
  rw [bookkeepingSize, bookkeepingSize] at h
  rcases Nat.lt_trichotomy first.entries.toNat second.entries.toNat with hlt | heq | hgt
  · have hstep := Nat.mul_le_mul_left layout.elementData (Nat.succ_le_of_lt hlt)
    rw [Nat.mul_succ] at hstep
    omega
  · exact UInt16.toNat_inj.mp heq
  · have hstep := Nat.mul_le_mul_left layout.elementData (Nat.succ_le_of_lt hgt)
    rw [Nat.mul_succ] at hstep
    omega

/-- The kept size of the bookkeeping is right for the rings with as many entries. -/
theorem enoughSpace_iff (first : IPCRingBufferOptions) :
    EnoughSpace layout opts (opts.dataSize + first.bookkeepingSize layout) ↔
      opts.entries = first.entries ∧ opts.entrySize.toNat + opts.alignment.toNat < 2 ^ 32 := by
  apply Iff.intro
  · intro h
    have hfresh : opts.dataSize + first.bookkeepingSize layout =
        opts.dataSize + opts.bookkeepingSize layout := h.fresh
    exact ⟨(IPCRingBufferOptions.bookkeepingSize_inj layout (Nat.add_left_cancel hfresh)).symm,
      (IPCRingBufferOptions.alignedEntrySize_eq_iff opts).mp h.noWrap⟩
  · rintro ⟨hentries, hsum⟩
    have haligned := (IPCRingBufferOptions.alignedEntrySize_eq_iff opts).mpr hsum
    have hbookkeeping : first.bookkeepingSize layout = opts.bookkeepingSize layout := by
      rw [IPCRingBufferOptions.bookkeepingSize, IPCRingBufferOptions.bookkeepingSize, hentries]
    have hentry := Nat.add_le_add_left
      (computeAlignmentPadding_le opts.alignment.toNat opts.entrySize.toNat) opts.entrySize.toNat
    have hdata := Nat.mul_le_mul_left opts.entries.toNat hentry
    refine ⟨?_, haligned, ?_⟩
    · rw [hbookkeeping, IPCRingBufferOptions.dataSize, haligned,
        IPCRingBufferOptions.bookkeepingSize, Nat.mul_succ,
          Nat.mul_comm (opts.entrySize.toNat + opts.alignment.toNat)]
      omega
    · rw [hbookkeeping]
      rfl

/-! ### Creations in one process -/

/-- The rings that the factory accepts. -/
def accepted (creations : List IPCRingBufferOptions) : List IPCRingBufferOptions :=
  creations.filter fun opts => supports opts.shmBackend

variable {supports opts} in
theorem accepted_cons_of_refused (creations : List IPCRingBufferOptions)
    (h : supports opts.shmBackend = false) :
    accepted supports (opts :: creations) = accepted supports creations :=
  List.filter_cons_of_neg (Bool.eq_false_iff.mp h)

variable {supports opts} in
theorem accepted_cons_of_accepted (creations : List IPCRingBufferOptions)
    (h : supports opts.shmBackend = true) :
    accepted supports (opts :: creations) = opts :: accepted supports creations :=
  List.filter_cons_of_pos (p := fun other : IPCRingBufferOptions => supports other.shmBackend) h

theorem requestAll_of_refused (creations : List IPCRingBufferOptions) (kept : Option ℕ)
    (h : supports opts.shmBackend = false) :
    (requestAll layout supports (opts :: creations)).run kept =
      (requestAll layout supports creations).run kept := by
  rw [requestAll, IPCRingBufferOptions.requestSpace, h]
  rfl

theorem requestAll_of_accepted (creations : List IPCRingBufferOptions) (kept : Option ℕ)
    (h : supports opts.shmBackend = true) :
    ((requestAll layout supports (opts :: creations)).run kept).1 =
      (opts, opts.dataSize + kept.getD (opts.bookkeepingSize layout)) ::
        ((requestAll layout supports creations).run
          (some (kept.getD (opts.bookkeepingSize layout)))).1 := by
  rw [requestAll, IPCRingBufferOptions.requestSpace, h]
  rfl

/-- Once the constant is initialized, every ring has the same space for its bookkeeping. -/
theorem requestAll_some (creations : List IPCRingBufferOptions) (kept : ℕ) :
    ((requestAll layout supports creations).run (some kept)).1 =
      (accepted supports creations).map fun opts => (opts, opts.dataSize + kept) := by
  induction creations with
  | nil => rfl
  | cons opts creations ih =>
      cases h : supports opts.shmBackend with
      | false =>
          rw [requestAll_of_refused _ _ _ _ _ h, ih, accepted_cons_of_refused _ h]
      | true =>
          rw [requestAll_of_accepted _ _ _ _ _ h, Option.getD_some, ih,
            accepted_cons_of_accepted _ h, List.map_cons]

/-- The first ring decides. -/
theorem requestAll_none (creations : List IPCRingBufferOptions) :
    ((requestAll layout supports creations).run none).1 =
      (accepted supports creations).map fun opts => (opts, opts.dataSize +
        (((accepted supports creations).head?.getD opts).bookkeepingSize layout)) := by
  induction creations with
  | nil => rfl
  | cons opts creations ih =>
      cases h : supports opts.shmBackend with
      | false =>
          rw [requestAll_of_refused _ _ _ _ _ h, ih, accepted_cons_of_refused _ h]
      | true =>
          rw [requestAll_of_accepted _ _ _ _ _ h, Option.getD_none, requestAll_some,
            accepted_cons_of_accepted _ h, List.map_cons, List.head?_cons]
          rfl

/-- The spaces of a process are right exactly when the rings have as many entries as the
first one, and no entry reaches `2 ^ 32` bytes with its alignment. -/
theorem enoughSpace_requestAll_iff (creations : List IPCRingBufferOptions) :
    (∀ created ∈ ((requestAll layout supports creations).run none).1,
      EnoughSpace layout created.1 created.2) ↔
        ∀ opts ∈ accepted supports creations, ∀ first ∈ (accepted supports creations).head?,
          opts.entries = first.entries ∧ opts.entrySize.toNat + opts.alignment.toNat < 2 ^ 32 := by
  rw [requestAll_none, List.forall_mem_map]
  apply forall₂_congr
  intro opts hopts
  cases hfirst : (accepted supports creations).head? with
  | none =>
      rw [List.head?_eq_none_iff.mp hfirst] at hopts
      cases hopts
  | some first =>
      rw [Option.getD_some]
      dsimp only
      rw [enoughSpace_iff]
      simp only [Option.mem_some_iff, forall_eq']

/-- A small ring, and one with as many entries as there can be. -/
def smallThenLarge : List IPCRingBufferOptions :=
  [{ name := [], entries := 1 }, { name := [], alignment := 0, entries := 65535, entrySize := 0 }]

/-- The space for the second ring is too small for its elements alone. -/
theorem not_enoughSpace_smallThenLarge :
    ¬ ∀ (layout : RingLayout) (supports : UInt8 → Bool) (creations : List IPCRingBufferOptions),
      ∀ created ∈ ((requestAll layout supports creations).run none).1,
        EnoughSpace layout created.1 created.2 := by
  intro hall
  have henough := hall ⟨96, 72, by decide⟩ (fun backend => backend == 0) smallThenLarge
    ({ name := [], alignment := 0, entries := 65535, entrySize := 0 }, 224)
    (List.mem_cons_of_mem _ List.mem_cons_self)
  exact absurd henough.covers (by decide)

end Space

end OSVR.Common
