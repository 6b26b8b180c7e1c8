/-
# Shared-memory ring buffer bookkeeping

The bookkeeping object of an image ring buffer lives in shared memory and keeps
two views of the same window of elements: a raw begin index with a size, and a
pair of sequence numbers. Every counter has the fixed width of the source, so a
run long enough to wrap one of them is an ordinary run of this model. Reducing
an index modulo a zero capacity and following a null element pointer have no
defined result; both are faults here.
-/

import Mathlib.Data.List.Nodup
import OsvrCore.Math.CyclicWindow

set_option autoImplicit false

namespace OSVR.Common

/-- `IPCRingBuffer::sequence_type`. -/
abbrev SequenceNumber := UInt32

/-- `Bookkeeping::raw_index_type`. -/
abbrev RawIndex := UInt16

/-- The two operations of the bookkeeping that C++ leaves undefined. -/
inductive RingFault
  | moduloByZero
  | nullElement
  deriving DecidableEq, Repr

/-- Members of `detail::Bookkeeping`. An element of `elementArray` is named by
its position in the array. -/
structure Bookkeeping where
  capacity : RawIndex
  beginSequenceNumber : SequenceNumber
  nextSequenceNumber : SequenceNumber
  begin : RawIndex
  size : RawIndex
  bufLen : UInt32
  deriving DecidableEq, Repr

namespace Bookkeeping

/-- State the constructor leaves when `capacity` elements got their buffers. -/
def init (capacity : RawIndex) (bufLen : UInt32) : Bookkeeping where
  capacity := capacity
  beginSequenceNumber := 0
  nextSequenceNumber := 0
  begin := 0
  size := 0
  bufLen := bufLen

/-- Number of buffers the constructor's loop allocates before the first failure,
when `fuel` elements are still to be tried from index `i` on. -/
def allocated (allocationFails : RawIndex → Bool) : Nat → RawIndex → RawIndex
  | 0, i => i
  | fuel + 1, i => if allocationFails i then i else allocated allocationFails fuel (i + 1)

/-- The constructor: one buffer for each entry, truncating the ring at the first
allocation that fails. -/
def construct (entries : RawIndex) (entrySize : UInt32)
    (allocationFails : RawIndex → Bool) : Bookkeeping :=
  init (allocated allocationFails entries.toNat 0) entrySize

def getByRawIndex (b : Bookkeeping) (index : RawIndex) : Except RingFault RawIndex :=
  if b.capacity = 0 then .error .moduloByZero else .ok (index % b.capacity)

/-- The element for a sequence number, `none` when it is out of bounds. The sum
of the begin index and the relative position is computed in 32 bits. -/
def getBySequenceNumber (b : Bookkeeping) (num : SequenceNumber) :
    Except RingFault (Option RawIndex) :=
  let sequenceRelativeToBegin := num - b.beginSequenceNumber
  if sequenceRelativeToBegin < b.size.toUInt32 then
    if b.capacity = 0 then .error .moduloByZero
    else
      let idx := ((b.begin.toUInt32 + sequenceRelativeToBegin) % b.capacity.toUInt32).toUInt16
      (b.getByRawIndex idx).map some
  else .ok none

def empty (b : Bookkeeping) : Bool := b.size == 0

def backSequenceNumber (b : Bookkeeping) : SequenceNumber := b.nextSequenceNumber - 1

/-- The newest element. The sum is an `int` and is cut to 16 bits by the call. -/
def back (b : Bookkeeping) : Except RingFault (Option RawIndex) :=
  if b.empty then .ok none
  else (b.getByRawIndex (UInt16.ofNat (b.begin.toNat + b.size.toNat - 1))).map some

/-- Counter updates of `produceElement`, before the element is locked. -/
def advance (b : Bookkeeping) : Bookkeeping :=
  if b.size = b.capacity then
    { b with
      nextSequenceNumber := b.nextSequenceNumber + 1
      begin := b.begin + 1
      beginSequenceNumber := b.beginSequenceNumber + 1 }
  else
    { b with
      nextSequenceNumber := b.nextSequenceNumber + 1
      size := b.size + 1 }

/-- `produceElement`: the new state with the issued sequence number and the
element handed out for it. -/
def produceElement (b : Bookkeeping) :
    Except RingFault (Bookkeeping × SequenceNumber × RawIndex) :=
  match b.advance.back with
  | .error fault => .error fault
  | .ok none => .error .nullElement
  | .ok (some element) => .ok (b.advance, b.nextSequenceNumber, element)

/-- `n` calls of `produceElement`, with what each one issued, oldest first. -/
def produce (b : Bookkeeping) :
    Nat → Except RingFault (Bookkeeping × List (SequenceNumber × RawIndex))
  | 0 => .ok (b, [])
  | n + 1 => do
      let (before, issued) ← b.produce n
      let (after, sequenceNumber, element) ← before.produceElement
      return (after, issued ++ [(sequenceNumber, element)])

/-! ## Counters after a run -/

/-- What `n` calls of `produceElement` on a new ring leave in the counters. -/
structure Counts (b : Bookkeeping) (capacity : RawIndex) (n : ℕ) : Prop where
  capacity_eq : b.capacity = capacity
  next_eq : b.nextSequenceNumber = UInt32.ofNat n
  first_eq : b.beginSequenceNumber = UInt32.ofNat (n - capacity.toNat)
  begin_eq : b.begin = UInt16.ofNat (n - capacity.toNat)
  size_eq : b.size.toNat = min n capacity.toNat

/-- The element handed out with the `n`-th sequence number, counting from zero. -/
def slotOf (capacity : RawIndex) (n : ℕ) : RawIndex := UInt16.ofNat n % capacity

theorem counts_init (capacity : RawIndex) (bufLen : UInt32) :
    (init capacity bufLen).Counts capacity 0 where
  capacity_eq := rfl
  next_eq := rfl
  first_eq := by simp [init]
  begin_eq := by simp [init]
  size_eq := by simp [init]

variable {b : Bookkeeping} {capacity : RawIndex} {n : ℕ}

theorem Counts.size_eq_capacity_iff (h : b.Counts capacity n) :
    b.size = b.capacity ↔ capacity.toNat ≤ n := by
  rw [h.capacity_eq, ← UInt16.toNat_inj, h.size_eq]
  omega

/-- One call moves the counters on by one, whether or not the ring is full. -/
theorem Counts.advance (h : b.Counts capacity n) : b.advance.Counts capacity (n + 1) := by
  have hsize := h.size_eq
  have hbound : capacity.toNat < 65536 := capacity.toNat_lt
  unfold Bookkeeping.advance
  by_cases hfull : b.size = b.capacity
  · have hle := h.size_eq_capacity_iff.mp hfull
    have hshift : n + 1 - capacity.toNat = n - capacity.toNat + 1 := by omega
    rw [if_pos hfull]
    refine ⟨h.capacity_eq, ?_, ?_, ?_, ?_⟩
    · simp [h.next_eq, UInt32.ofNat_add]
    · simp [h.first_eq, hshift, UInt32.ofNat_add]
    · simp [h.begin_eq, hshift, UInt16.ofNat_add]
    · simp only [hsize]
      omega
  · have hlt : n < capacity.toNat := by
      have := mt h.size_eq_capacity_iff.mpr hfull
      omega
    have hshift : n + 1 - capacity.toNat = n - capacity.toNat := by omega
    rw [if_neg hfull]
    refine ⟨h.capacity_eq, ?_, ?_, ?_, ?_⟩
    · simp [h.next_eq, UInt32.ofNat_add]
    · simp [h.first_eq, hshift]
    · simp [h.begin_eq, hshift]
    · simp only [UInt16.toNat_add, hsize, UInt16.toNat_one]
      omega

theorem Counts.getByRawIndex_eq (h : b.Counts capacity n) (hcapacity : 0 < capacity)
    (index : RawIndex) : b.getByRawIndex index = .ok (index % capacity) := by
  have hne : b.capacity ≠ 0 := by
    rw [h.capacity_eq]
    exact UInt16.pos_iff_ne_zero.mp hcapacity
  rw [getByRawIndex, if_neg hne, h.capacity_eq]

/-- After at least one call the newest element is the slot of the last number. -/
theorem Counts.back_eq (h : b.Counts capacity (n + 1)) (hcapacity : 0 < capacity) :
    b.back = .ok (some (slotOf capacity n)) := by
  have hpos : 0 < capacity.toNat := hcapacity
  have hsize := h.size_eq
  have hnonempty : b.empty = false := by
    simp only [empty, beq_eq_false_iff_ne, ne_eq, ← UInt16.toNat_inj, hsize, UInt16.toNat_zero]
    omega
  have hindex : UInt16.ofNat (b.begin.toNat + b.size.toNat - 1) = UInt16.ofNat n := by
    rw [← UInt16.toNat_inj, h.begin_eq, hsize]
    simp only [UInt16.toNat_ofNat']
    omega
  simp [back, hnonempty, h.getByRawIndex_eq hcapacity, hindex, slotOf, Except.map]

theorem Counts.produceElement_eq (h : b.Counts capacity n) (hcapacity : 0 < capacity) :
    b.produceElement = .ok (b.advance, UInt32.ofNat n, slotOf capacity n) := by
  simp only [produceElement, h.advance.back_eq hcapacity, h.next_eq]

/-- The `n` sequence numbers a run issues, with their elements. -/
def issuedBy (capacity : RawIndex) (n : ℕ) : List (SequenceNumber × RawIndex) :=
  (List.range n).map fun s => (UInt32.ofNat s, slotOf capacity s)

/-- Every run of a ring with at least one entry is free of faults. -/
theorem produce_eq (capacity : RawIndex) (hcapacity : 0 < capacity) (bufLen : UInt32) (n : ℕ) :
    ∃ b : Bookkeeping, (init capacity bufLen).produce n = .ok (b, issuedBy capacity n) ∧
      b.Counts capacity n := by
  induction n with
  | zero => exact ⟨_, rfl, counts_init capacity bufLen⟩
  | succ n ih =>
      obtain ⟨before, hproduce, hcounts⟩ := ih
      refine ⟨before.advance, ?_, hcounts.advance⟩
      simp only [produce, hproduce]
      simp only [bind, Except.bind, pure, Except.pure, hcounts.produceElement_eq hcapacity]
      simp [issuedBy, List.range_succ]

/-! ## The lookup by sequence number -/

open Math.CyclicWindow

/-- Position of a sequence number relative to the begin of the window. -/
theorem Counts.relative_eq (h : b.Counts capacity n) (num : SequenceNumber) :
    (num - b.beginSequenceNumber).toNat =
      distance (2 ^ 32) (n - capacity.toNat) num.toNat := by
  simp [distance, h.first_eq, UInt32.toNat_sub]

theorem Counts.relative_lt_iff (h : b.Counts capacity n) (num : SequenceNumber) :
    num - b.beginSequenceNumber < b.size.toUInt32 ↔
      distance (2 ^ 32) (n - capacity.toNat) num.toNat < n - (n - capacity.toNat) := by
  rw [UInt32.lt_iff_toNat_lt, h.relative_eq, UInt16.toNat_toUInt32, h.size_eq]
  omega

/-- Inside the window the lookup starts from the residue of the begin index. -/
theorem Counts.getBySequenceNumber_of_lt (h : b.Counts capacity n) (hcapacity : 0 < capacity)
    {num : SequenceNumber} {offset : ℕ} (hoffset : offset < capacity.toNat)
    (hrelative : num - b.beginSequenceNumber < b.size.toUInt32)
    (hdistance : distance (2 ^ 32) (n - capacity.toNat) num.toNat = offset) :
    b.getBySequenceNumber num =
      .ok (some (UInt16.ofNat (((n - capacity.toNat) % 65536 + offset) % capacity.toNat))) := by
  have hbound : capacity.toNat < 65536 := capacity.toNat_lt
  have hmod := Nat.mod_lt ((n - capacity.toNat) % 65536 + offset) (by omega : 0 < capacity.toNat)
  have hne : b.capacity ≠ 0 := by
    rw [h.capacity_eq]
    exact UInt16.pos_iff_ne_zero.mp hcapacity
  simp only [getBySequenceNumber, if_pos hrelative, if_neg hne, h.getByRawIndex_eq hcapacity,
    Except.map, Except.ok.injEq, Option.some.injEq]
  rw [← UInt16.toNat_inj, UInt16.toNat_mod, UInt32.toNat_toUInt16, UInt32.toNat_mod,
    UInt32.toNat_add, h.relative_eq, hdistance, h.begin_eq, h.capacity_eq]
  simp only [UInt16.toNat_toUInt32, UInt16.toNat_ofNat', Nat.reducePow]
  have hsum : ((n - capacity.toNat) % 65536 + offset) % 4294967296 =
      (n - capacity.toNat) % 65536 + offset := Nat.mod_eq_of_lt (by omega)
  rw [hsum, Nat.mod_eq_of_lt (lt_trans hmod hbound), Nat.mod_mod]

/-- Members of a run's list that are still in the ring. -/
def live (capacity : RawIndex) (issued : List (SequenceNumber × RawIndex)) :
    List (SequenceNumber × RawIndex) :=
  issued.drop (issued.length - capacity.toNat)

theorem mem_live_issuedBy {entry : SequenceNumber × RawIndex} :
    entry ∈ live capacity (issuedBy capacity n) ↔
      ∃ s, n - capacity.toNat ≤ s ∧ s < n ∧ (UInt32.ofNat s, slotOf capacity s) = entry := by
  simp only [live, issuedBy, List.length_map, List.length_range, ← List.map_drop, List.mem_map]
  constructor
  · rintro ⟨s, hs, rfl⟩
    rw [List.mem_drop_iff_getElem] at hs
    obtain ⟨i, hi, hget⟩ := hs
    simp only [List.length_range, List.getElem_range] at hi hget
    exact ⟨s, by omega, by omega, rfl⟩
  · rintro ⟨s, hfirst, hlast, rfl⟩
    refine ⟨s, List.mem_drop_iff_getElem.mpr ⟨s - (n - capacity.toNat), ?_, ?_⟩, rfl⟩
    · simp only [List.length_range]
      omega
    · simp only [List.getElem_range]
      omega

theorem Counts.relative_of_live (h : b.Counts capacity n) {s : ℕ}
    (hfirst : n - capacity.toNat ≤ s) (hlast : s < n) :
    distance (2 ^ 32) (n - capacity.toNat) (UInt32.ofNat s).toNat = s - (n - capacity.toNat) ∧
      UInt32.ofNat s - b.beginSequenceNumber < b.size.toUInt32 := by
  have hbound : capacity.toNat < 65536 := capacity.toNat_lt
  have hdistance : distance (2 ^ 32) (n - capacity.toNat) (UInt32.ofNat s).toNat =
      s - (n - capacity.toNat) := by
    rw [UInt32.toNat_ofNat',
      show s = n - capacity.toNat + (s - (n - capacity.toNat)) by omega,
      distance_mod_add _ (by omega), Nat.add_sub_cancel_left]
  refine ⟨hdistance, (h.relative_lt_iff _).mpr ?_⟩
  rw [hdistance]
  omega

/-- A live number finds the element handed out for it exactly when no wrap of
the begin index lies in between, or when a wrap is a whole number of turns. -/
theorem Counts.lookup_live_iff (h : b.Counts capacity n) (hcapacity : 0 < capacity) {s : ℕ}
    (hfirst : n - capacity.toNat ≤ s) (hlast : s < n) :
    b.getBySequenceNumber (UInt32.ofNat s) = .ok (some (slotOf capacity s)) ↔
      capacity.toNat ∣ 65536 ∨ s / 65536 = (n - capacity.toNat) / 65536 := by
  have hbound : capacity.toNat < 65536 := capacity.toNat_lt
  obtain ⟨offset, rfl⟩ := Nat.exists_eq_add_of_le hfirst
  obtain ⟨hdistance, hrelative⟩ := h.relative_of_live hfirst hlast
  have hoffset : offset < capacity.toNat := by omega
  rw [Nat.add_sub_cancel_left] at hdistance
  rw [h.getBySequenceNumber_of_lt hcapacity hoffset hrelative hdistance,
    ← mod_add_mod_eq_iff hoffset (Nat.le_of_lt hbound)]
  simp only [Except.ok.injEq, Option.some.injEq, ← UInt16.toNat_inj, slotOf, UInt16.toNat_mod,
    UInt16.toNat_ofNat']
  have hmod := Nat.mod_lt ((n - capacity.toNat) % 65536 + offset) (by omega : 0 < capacity.toNat)
  rw [Nat.mod_eq_of_lt (b := 2 ^ 16) (by omega)]

/-! ## The slot law -/

/-- The three ways to reach a live element agree after a run: by the number it
was issued under, by any other live number, and as the newest element. -/
structure SlotLaw (b : Bookkeeping) (capacity : RawIndex)
    (issued : List (SequenceNumber × RawIndex)) : Prop where
  lookup : ∀ entry ∈ live capacity issued, b.getBySequenceNumber entry.1 = .ok (some entry.2)
  distinct : ∀ left ∈ live capacity issued, ∀ right ∈ live capacity issued,
    left.1 ≠ right.1 → left.2 ≠ right.2
  back : b.back = b.getBySequenceNumber b.backSequenceNumber

/-- The numbers of a window start and end in one block of 2 ^ 16. -/
def InOneBlock (capacity : RawIndex) (n : ℕ) : Prop :=
  (n - 1) / 65536 = (n - capacity.toNat) / 65536

theorem InOneBlock.div_eq (h : InOneBlock capacity n) {s : ℕ}
    (hfirst : n - capacity.toNat ≤ s) (hlast : s < n) :
    s / 65536 = (n - capacity.toNat) / 65536 := by
  have hlow := Nat.div_le_div_right (c := 65536) hfirst
  have hhigh := Nat.div_le_div_right (c := 65536) (Nat.le_sub_one_of_lt hlast)
  rw [InOneBlock] at h
  omega

theorem Counts.back_eq_lookup (h : b.Counts capacity (n + 1)) (hcapacity : 0 < capacity)
    (hlookup : b.getBySequenceNumber (UInt32.ofNat n) = .ok (some (slotOf capacity n))) :
    b.back = b.getBySequenceNumber b.backSequenceNumber := by
  have hnumber : b.backSequenceNumber = UInt32.ofNat n := by
    simp [backSequenceNumber, h.next_eq, UInt32.ofNat_add]
  rw [h.back_eq hcapacity, hnumber, hlookup]

/-- Inside one window the elements handed out are pairwise different as soon as
the lookup agrees with them, since the lookup adds distinct offsets to one index. -/
theorem Counts.slotOf_ne (h : b.Counts capacity n) (hcapacity : 0 < capacity) {s t : ℕ}
    (hs : n - capacity.toNat ≤ s ∧ s < n) (ht : n - capacity.toNat ≤ t ∧ t < n) (hne : s ≠ t)
    (hlookup : ∀ r, n - capacity.toNat ≤ r → r < n →
      b.getBySequenceNumber (UInt32.ofNat r) = .ok (some (slotOf capacity r))) :
    slotOf capacity s ≠ slotOf capacity t := by
  intro hslot
  have hbound : capacity.toNat < 65536 := capacity.toNat_lt
  have hindex (r : ℕ) (hfirst : n - capacity.toNat ≤ r) (hlast : r < n) :
      (slotOf capacity r).toNat =
        ((n - capacity.toNat) % 65536 + (r - (n - capacity.toNat))) % capacity.toNat := by
    obtain ⟨hdistance, hrelative⟩ := h.relative_of_live hfirst hlast
    have hget := h.getBySequenceNumber_of_lt hcapacity (by omega) hrelative hdistance
    rw [hlookup r hfirst hlast, Except.ok.injEq, Option.some.injEq] at hget
    have hmod := Nat.mod_lt ((n - capacity.toNat) % 65536 + (r - (n - capacity.toNat)))
      (by omega : 0 < capacity.toNat)
    rw [hget, UInt16.toNat_ofNat', Nat.mod_eq_of_lt (by omega)]
  have hequal := congrArg UInt16.toNat hslot
  rw [hindex s hs.1 hs.2, hindex t ht.1 ht.2] at hequal
  have := offset_eq_of_slot_eq (by omega) (by omega) hequal
  omega

theorem Counts.slotLaw (h : b.Counts capacity n) (hcapacity : 0 < capacity)
    (hblock : capacity.toNat ∣ 65536 ∨ InOneBlock capacity n) :
    b.SlotLaw capacity (issuedBy capacity n) := by
  have hpos : 0 < capacity.toNat := hcapacity
  have hlookup (r : ℕ) (hfirst : n - capacity.toNat ≤ r) (hlast : r < n) :
      b.getBySequenceNumber (UInt32.ofNat r) = .ok (some (slotOf capacity r)) :=
    (h.lookup_live_iff hcapacity hfirst hlast).mpr
      (hblock.imp_right fun hone => hone.div_eq hfirst hlast)
  refine ⟨?_, ?_, ?_⟩
  · intro entry hentry
    obtain ⟨s, hfirst, hlast, rfl⟩ := mem_live_issuedBy.mp hentry
    exact hlookup s hfirst hlast
  · intro left hleft right hright hne
    obtain ⟨s, hs₁, hs₂, rfl⟩ := mem_live_issuedBy.mp hleft
    obtain ⟨t, ht₁, ht₂, rfl⟩ := mem_live_issuedBy.mp hright
    exact h.slotOf_ne hcapacity ⟨hs₁, hs₂⟩ ⟨ht₁, ht₂⟩ (fun heq => hne (by rw [heq])) hlookup
  · cases n with
    | zero =>
        have hsize : b.size = 0 := UInt16.toNat_inj.mp (by simp [h.size_eq])
        simp [Bookkeeping.back, empty, getBySequenceNumber, hsize]
    | succ n => exact h.back_eq_lookup hcapacity (hlookup n (by omega) (by omega))

/-- Where the law holds, the newest number is found, so the window has not been
cut by a wrap unless a wrap is harmless. -/
theorem Counts.inOneBlock_of_slotLaw (h : b.Counts capacity n) (hcapacity : 0 < capacity)
    (hlaw : b.SlotLaw capacity (issuedBy capacity n)) :
    capacity.toNat ∣ 65536 ∨ InOneBlock capacity n := by
  have hpos : 0 < capacity.toNat := hcapacity
  rcases Nat.eq_zero_or_pos n with rfl | hn
  · exact .inr (by simp [InOneBlock])
  · have hlast := hlaw.lookup _
      (mem_live_issuedBy.mpr ⟨n - 1, by omega, Nat.sub_one_lt_of_lt hn, rfl⟩)
    exact (h.lookup_live_iff hcapacity (by omega) (Nat.sub_one_lt_of_lt hn)).mp hlast

/-- The slot law holds after `n` calls exactly when 2 ^ 16 is a multiple of the
capacity, or no multiple of 2 ^ 16 separates the numbers of the live window. -/
theorem slotLaw_iff (capacity : RawIndex) (hcapacity : 0 < capacity) (bufLen : UInt32) (n : ℕ) :
    (∃ b issued, (init capacity bufLen).produce n = .ok (b, issued) ∧
        b.SlotLaw capacity issued) ↔
      capacity.toNat ∣ 65536 ∨ InOneBlock capacity n := by
  obtain ⟨b, hproduce, hcounts⟩ := produce_eq capacity hcapacity bufLen n
  rw [hproduce]
  constructor
  · rintro ⟨_, _, hequal, hlaw⟩
    obtain ⟨rfl, rfl⟩ := Prod.mk.injEq .. ▸ Except.ok.inj hequal
    exact hcounts.inOneBlock_of_slotLaw hcapacity hlaw
  · intro hblock
    exact ⟨b, _, rfl, hcounts.slotLaw hcapacity hblock⟩

/-- A ring of the default size, after more elements than there are raw indices. -/
theorem slotLaw_default :
    ∃ b issued, (init 16 65536).produce 100000 = .ok (b, issued) ∧ b.SlotLaw 16 issued :=
  (slotLaw_iff 16 (by decide) 65536 100000).mpr (.inl (by decide))

/-- With three entries the call number 65537 breaks the law: it hands out the
first element while its sequence number finds the second. -/
theorem not_slotLaw_three :
    ¬ ∀ capacity : RawIndex, 0 < capacity → ∀ (bufLen : UInt32) (n : ℕ),
      ∃ b issued, (init capacity bufLen).produce n = .ok (b, issued) ∧
        b.SlotLaw capacity issued := by
  intro hall
  obtain ⟨b, hproduce, hcounts⟩ := produce_eq 3 (by decide) 65536 65537
  obtain ⟨_, _, hequal, hlaw⟩ := hall 3 (by decide) 65536 65537
  rw [hproduce] at hequal
  obtain ⟨rfl, rfl⟩ := Prod.mk.injEq .. ▸ Except.ok.inj hequal
  rcases hcounts.inOneBlock_of_slotLaw (by decide) hlaw with hdvd | hblock
  · exact absurd hdvd (by decide)
  · exact absurd hblock (by unfold InOneBlock; decide)

/-! ## The window law -/

/-- What the range test, the size and the two sequence counters say of a run. -/
structure WindowLaw (b : Bookkeeping) (capacity : RawIndex)
    (issued : List (SequenceNumber × RawIndex)) : Prop where
  found : ∀ num, (∃ element, b.getBySequenceNumber num = .ok (some element)) ↔
    num ∈ (live capacity issued).map Prod.fst
  missing : ∀ num, num ∉ (live capacity issued).map Prod.fst → b.getBySequenceNumber num = .ok none
  size_le : b.size ≤ b.capacity
  span : b.nextSequenceNumber - b.beginSequenceNumber = b.size.toUInt32

theorem Counts.relative_lt_iff_mem_live (h : b.Counts capacity n) (num : SequenceNumber) :
    num - b.beginSequenceNumber < b.size.toUInt32 ↔
      num ∈ (live capacity (issuedBy capacity n)).map Prod.fst := by
  have hbound : capacity.toNat < 65536 := capacity.toNat_lt
  rw [h.relative_lt_iff, distance_lt_iff (by omega) num.toNat_lt]
  simp only [List.mem_map, mem_live_issuedBy]
  constructor
  · rintro ⟨s, hfirst, hlast, hmod⟩
    exact ⟨_, ⟨s, hfirst, hlast, rfl⟩, UInt32.toNat_inj.mp (by rw [UInt32.toNat_ofNat', hmod])⟩
  · rintro ⟨_, ⟨s, hfirst, hlast, rfl⟩, rfl⟩
    exact ⟨s, hfirst, hlast, (UInt32.toNat_ofNat' ..).symm⟩

theorem Counts.getBySequenceNumber_isSome_iff (h : b.Counts capacity n) (hcapacity : 0 < capacity)
    (num : SequenceNumber) :
    (∃ element, b.getBySequenceNumber num = .ok (some element)) ↔
      num - b.beginSequenceNumber < b.size.toUInt32 := by
  constructor
  · rintro ⟨element, hget⟩
    by_contra hout
    simp [getBySequenceNumber, hout] at hget
  · intro hin
    have hoffset := (h.relative_lt_iff num).mp hin
    exact ⟨_, h.getBySequenceNumber_of_lt hcapacity (by omega) hin rfl⟩

/-- After any number of calls the lookup accepts exactly the numbers issued by
the last `min n capacity` of them, on both sides of every wrap. -/
theorem windowLaw (capacity : RawIndex) (hcapacity : 0 < capacity) (bufLen : UInt32) (n : ℕ) :
    ∃ b issued, (init capacity bufLen).produce n = .ok (b, issued) ∧
      issued.length = n ∧ b.WindowLaw capacity issued := by
  obtain ⟨b, hproduce, hcounts⟩ := produce_eq capacity hcapacity bufLen n
  refine ⟨b, _, hproduce, by simp [issuedBy], ?_, ?_, ?_, ?_⟩
  · intro num
    rw [hcounts.getBySequenceNumber_isSome_iff hcapacity, hcounts.relative_lt_iff_mem_live]
  · intro num hnum
    rw [getBySequenceNumber, if_neg (mt (hcounts.relative_lt_iff_mem_live num).mp hnum)]
  · rw [UInt16.le_iff_toNat_le, hcounts.size_eq, hcounts.capacity_eq]
    exact min_le_right _ _
  · have hbound : capacity.toNat < 65536 := capacity.toNat_lt
    rw [← UInt32.toNat_inj, UInt16.toNat_toUInt32, hcounts.size_eq, UInt32.toNat_sub,
      hcounts.next_eq, hcounts.first_eq]
    simp only [UInt32.toNat_ofNat', Nat.reducePow]
    omega

theorem windowLaw_three :
    ∃ b issued, (init 3 65536).produce 5 = .ok (b, issued) ∧
      issued.length = 5 ∧ b.WindowLaw 3 issued :=
  windowLaw 3 (by decide) 65536 5

end Bookkeeping
end OSVR.Common
