/-
# What a ring buffer holds

For its readers a ring is the log of what has been put, of which the last entries can be
read under their numbers. It comes to this as long as the data fits the entries, the
buffers are apart, and no wrap of the begin index cuts the window.
-/

import OsvrCore.Common.RingBufferOperations

set_option autoImplicit false

namespace OSVR.Common

/-- What an operation adds to the log: the data that is put, or an entry that a writer
fills later. -/
def RingOperation.logged : RingOperation → List (Option (List UInt8))
  | putData data => [some data]
  | put => [none]
  | get _ | getLatest => []

/-- The data of an operation is not longer than an entry. -/
def RingOperation.Fits (entrySize : ℕ) : RingOperation → Prop
  | putData data => data.length ≤ entrySize
  | put | get _ | getLatest => True

/-- The library gives out buffers that are apart. -/
def SegmentMemory.KeepsApart (memory : SegmentMemory) (opts : IPCRingBufferOptions) : Prop :=
  ∀ first second address other, first ≠ second →
    memory.allocateAligned first opts.entrySize opts.alignment = .allocated address →
    memory.allocateAligned second opts.entrySize opts.alignment = .allocated other →
      address + opts.entrySize.toNat ≤ other ∨ other + opts.entrySize.toNat ≤ address

namespace ServerRing

/-- So many bytes from an address on. -/
def bytesAt (segment : ℕ → UInt8) (address length : ℕ) : List UInt8 :=
  (List.range length).map fun i => segment (address + i)

/-- The buffers of different elements are apart. -/
def Apart (ring : ServerRing) (entrySize : ℕ) : Prop :=
  ∀ first second address other, first ≠ second →
    ring.getBuf first = some address → ring.getBuf second = some other →
      address + entrySize ≤ other ∨ other + entrySize ≤ address

/-- What was put last into an element is there. -/
structure Stores (ring : ServerRing) (capacity : RawIndex) (entrySize : ℕ)
    (log : List (Option (List UInt8))) : Prop where
  fits : ∀ data, some data ∈ log → data.length ≤ entrySize
  apart : ring.Apart entrySize
  stored : ∀ s data address, log[s]? = some (some data) →
    (∀ t, s < t → t < log.length → Bookkeeping.slotOf capacity t ≠ Bookkeeping.slotOf capacity s) →
    ring.getBuf (Bookkeeping.slotOf capacity s) = some address →
      bytesAt ring.segment address data.length = data

/-- A ring as its readers see it: the last entries of a log, by their numbers. -/
structure Serves (ring : ServerRing) (capacity : RawIndex) (log : List (Option (List UInt8))) :
    Prop where
  kept : ∀ s, log.length - capacity.toNat ≤ s → s < log.length → ∃ address,
    ring.get (UInt32.ofNat s) = .ok ⟨some address, UInt32.ofNat s⟩ ∧
      ∀ data, log[s]? = some (some data) → bytesAt ring.segment address data.length = data
  gone : ∀ num, (∀ s, log.length - capacity.toNat ≤ s → s < log.length → UInt32.ofNat s ≠ num) →
    ring.get num = .ok ⟨none, 0⟩
  latest : ring.getLatest =
    if log = [] then .ok ⟨none, 0⟩ else ring.get (UInt32.ofNat (log.length - 1))

/-! ## Bytes -/

section Bytes

variable {segment : ℕ → UInt8} {address dest entrySize : ℕ} {data : List UInt8}

theorem bytesAt_eq_iff : bytesAt segment address data.length = data ↔
    ∀ i (h : i < data.length), segment (address + i) = data[i] := by
  rw [bytesAt, List.ext_getElem_iff]
  simp

theorem bytesAt_memcpy (segment : ℕ → UInt8) (dest : ℕ) (data : List UInt8) :
    bytesAt (memcpy segment dest data) dest data.length = data :=
  bytesAt_eq_iff.mpr (memcpy_inside segment dest data)

/-- A copy into a buffer that is apart from that of other bytes keeps these. -/
theorem bytesAt_memcpy_of_apart {other : List UInt8} (hdata : data.length ≤ entrySize)
    (hother : other.length ≤ entrySize)
    (hapart : address + entrySize ≤ dest ∨ dest + entrySize ≤ address)
    (hbytes : bytesAt segment address other.length = other) :
    bytesAt (memcpy segment dest data) address other.length = other := by
  rw [bytesAt_eq_iff] at hbytes ⊢
  intro i hi
  rw [memcpy_outside, hbytes i hi]
  omega

end Bytes

/-! ## Operations -/

variable {ring : ServerRing} {buffers : Set ℕ} {capacity : RawIndex} {entrySize n : ℕ}
  {log : List (Option (List UInt8))}

theorem Sound.put_eq (h : ring.Sound buffers capacity n) (hcapacity : 0 < capacity) :
    ring.put = .ok ({ ring with bookkeeping := ring.bookkeeping.advance },
      ⟨ring.getBuf (Bookkeeping.slotOf capacity n), UInt32.ofNat n⟩) := by
  rw [ServerRing.put, h.counts.produceElement_eq hcapacity]
  rfl

theorem Sound.putData_eq (h : ring.Sound buffers capacity n) (hcapacity : 0 < capacity)
    (data : List UInt8) : ∃ dest, ring.getBuf (Bookkeeping.slotOf capacity n) = some dest ∧
      ring.putData data = .ok ({ ring with
        bookkeeping := ring.bookkeeping.advance
        segment := memcpy ring.segment dest data }, ⟨some dest, UInt32.ofNat n⟩) := by
  obtain ⟨dest, -, hdest⟩ := h.allocated _ (Bookkeeping.slotOf_lt (n := n) hcapacity)
  refine ⟨dest, hdest, ?_⟩
  rw [putData, h.put_eq hcapacity, hdest]
  rfl

/-- The counters do not matter for what is stored. -/
theorem Stores.append_none (h : ring.Stores capacity entrySize log) (bookkeeping : Bookkeeping) :
    ServerRing.Stores { ring with bookkeeping } capacity entrySize (log ++ [none]) where
  fits data hmem := by
    rcases List.mem_append.mp hmem with hold | hnew
    · exact h.fits data hold
    · cases List.mem_singleton.mp hnew
  apart := h.apart
  stored s data address hdata hlast := by
    have hlt : s < log.length := by
      by_contra hge
      rw [List.getElem?_append_right (Nat.le_of_not_lt hge), List.getElem?_singleton] at hdata
      split at hdata <;> cases hdata
    rw [List.getElem?_append_left hlt] at hdata
    refine h.stored s data address hdata fun t hst ht => hlast t hst ?_
    rw [List.length_append]
    exact Nat.lt_add_right _ ht

/-- New data takes the place of what was in its element, and of nothing else. -/
theorem Stores.append_some (h : ring.Stores capacity entrySize log) {data : List UInt8} {dest : ℕ}
    (hfits : data.length ≤ entrySize)
    (hdest : ring.getBuf (Bookkeeping.slotOf capacity log.length) = some dest)
    (bookkeeping : Bookkeeping) :
    ServerRing.Stores { ring with bookkeeping, segment := memcpy ring.segment dest data } capacity
      entrySize (log ++ [some data]) where
  fits other hmem := by
    rcases List.mem_append.mp hmem with hold | hnew
    · exact h.fits other hold
    · cases List.mem_singleton.mp hnew
      exact hfits
  apart := h.apart
  stored s other address hother hlast haddress := by
    have hbuf : ring.getBuf (Bookkeeping.slotOf capacity s) = some address := haddress
    show bytesAt (memcpy ring.segment dest data) address other.length = other
    rcases Nat.lt_or_ge s log.length with hlt | hge
    · rw [List.getElem?_append_left hlt] at hother
      have hslot : Bookkeeping.slotOf capacity s ≠ Bookkeeping.slotOf capacity log.length :=
        (hlast log.length hlt (by simp)).symm
      refine bytesAt_memcpy_of_apart hfits (h.fits other (List.mem_of_getElem? hother))
        (h.apart _ _ _ _ hslot hbuf hdest) (h.stored s other address hother ?_ hbuf)
      intro t hst ht
      refine hlast t hst ?_
      rw [List.length_append]
      exact Nat.lt_add_right _ ht
    · have hs : s = log.length := by
        have hbound := (List.getElem?_eq_some_iff.mp hother).1
        rw [List.length_append, List.length_singleton] at hbound
        omega
      subst hs
      rw [List.getElem?_append_right (Nat.le_refl _), Nat.sub_self] at hother
      obtain rfl : data = other := Option.some.inj (Option.some.inj hother)
      obtain rfl : dest = address := Option.some.inj (hdest.symm.trans hbuf)
      exact bytesAt_memcpy _ _ _

/-- A step lemma. -/
theorem Stores.step (hsound : ring.Sound buffers capacity log.length) (hcapacity : 0 < capacity)
    (h : ring.Stores capacity entrySize log) {op : RingOperation} (hop : op.Fits entrySize) :
    ∃ after proxy, ring.step op = .ok (after, proxy) ∧
      after.Sound buffers capacity (log ++ op.logged).length ∧
        after.Stores capacity entrySize (log ++ op.logged) := by
  have hread {proxy : BufferProxy} (hstep : ring.step op = .ok (ring, proxy))
      (hlogged : op.logged = []) : ∃ after proxy, ring.step op = .ok (after, proxy) ∧
        after.Sound buffers capacity (log ++ op.logged).length ∧
          after.Stores capacity entrySize (log ++ op.logged) := by
    refine ⟨ring, proxy, hstep, ?_⟩
    rw [hlogged, List.append_nil]
    exact ⟨hsound, h⟩
  cases op with
  | putData data =>
      obtain ⟨dest, hdest, hput⟩ := hsound.putData_eq hcapacity data
      refine ⟨_, _, hput, ?_, h.append_some hop hdest _⟩
      rw [RingOperation.logged, List.length_append]
      exact ⟨hsound.counts.advance, hsound.allocated⟩
  | put =>
      refine ⟨_, _, hsound.put_eq hcapacity, ?_, h.append_none _⟩
      rw [RingOperation.logged, List.length_append]
      exact ⟨hsound.counts.advance, hsound.allocated⟩
  | get num =>
      obtain ⟨found, hfound⟩ : ∃ found, ring.bookkeeping.getBySequenceNumber num = .ok found := by
        rcases hsound.counts.getBySequenceNumber_cases num with hnone | ⟨element, -, hsome⟩
        · exact ⟨_, hnone⟩
        · exact ⟨_, hsome⟩
      apply hread _ rfl
      · exact ring.readProxy found num
      · rw [ServerRing.step, get, hfound]
        rfl
  | getLatest =>
      obtain ⟨found, hfound⟩ : ∃ found, ring.bookkeeping.back = .ok found := by
        rcases hsound.counts.back_cases with hnone | ⟨element, -, hsome⟩
        · exact ⟨_, hnone⟩
        · exact ⟨_, hsome⟩
      apply hread _ rfl
      · exact ring.readProxy found ring.bookkeeping.backSequenceNumber
      · rw [ServerRing.step, getLatest, hfound]
        rfl

/-- A run lemma: after any operations the ring stores its log. -/
theorem Stores.run (hsound : ring.Sound buffers capacity log.length) (hcapacity : 0 < capacity)
    (h : ring.Stores capacity entrySize log) {ops : List RingOperation}
    (hops : ∀ op ∈ ops, op.Fits entrySize) :
    ∃ after, ring.run ops = .ok after ∧
      after.Sound buffers capacity (log ++ ops.flatMap RingOperation.logged).length ∧
        after.Stores capacity entrySize (log ++ ops.flatMap RingOperation.logged) := by
  induction ops generalizing ring log with
  | nil =>
      refine ⟨ring, rfl, ?_⟩
      rw [List.flatMap_nil, List.append_nil]
      exact ⟨hsound, h⟩
  | cons op ops ih =>
      obtain ⟨middle, proxy, hstep, hmiddle, hstores⟩ :=
        Stores.step hsound hcapacity h (hops op List.mem_cons_self)
      obtain ⟨after, hrun, hafter⟩ :=
        ih hmiddle hstores fun other hother => hops other (List.mem_cons_of_mem op hother)
      refine ⟨after, ?_, ?_⟩
      · rw [ServerRing.run, hstep]
        exact hrun
      · rw [List.flatMap_cons, ← List.append_assoc]
        exact hafter

/-- A new ring stores the empty log. -/
theorem stores_of_create {memory : SegmentMemory} {opts : IPCRingBufferOptions}
    {layout : RingLayout} {supports : UInt8 → Bool} {zeroed : ℕ → UInt8} {kept : Option ℕ}
    (hcreate : ((memory.create opts layout supports zeroed).run kept).1 = .ok (some ring))
    (hapart : memory.KeepsApart opts) : ring.Stores capacity opts.entrySize.toNat [] where
  fits _ hmem := by cases hmem
  apart first second address other hne hfirst hsecond := by
    have hbuffers : ring.getBuf = memory.bufferOf opts := by
      rw [SegmentMemory.create, StateT.run_bind] at hcreate
      rcases hrequest : (opts.requestSpace layout supports).run kept with ⟨space, after⟩
      rw [hrequest] at hcreate
      cases space with
      | none => cases hcreate
      | some space =>
          have hconstruct : memory.constructMemorySegment opts zeroed space = .ok (some ring) :=
            hcreate
          rw [SegmentMemory.constructMemorySegment] at hconstruct
          split at hconstruct
          · cases hbookkeeping : memory.constructBookkeeping opts with
            | error error =>
                rw [hbookkeeping] at hconstruct
                cases hconstruct
            | ok bookkeeping =>
                rw [hbookkeeping] at hconstruct
                obtain rfl := Option.some.inj (Except.ok.inj hconstruct)
                rfl
          · cases hconstruct
    have hallocated {element : RawIndex} {place : ℕ} (hplace : ring.getBuf element = some place) :
        memory.allocateAligned element opts.entrySize opts.alignment = .allocated place := by
      rw [hbuffers, SegmentMemory.bufferOf] at hplace
      split at hplace
      next hsame => rw [hsame, Option.some.inj hplace]
      next => cases hplace
      next => cases hplace
    exact hapart first second address other hne (hallocated hfirst) (hallocated hsecond)
  stored _ _ _ hdata := by cases hdata

/-! ## Reading -/

/-- Where no wrap cuts the window, the ring serves the log that it stores. -/
theorem Stores.serves (hsound : ring.Sound buffers capacity log.length) (hcapacity : 0 < capacity)
    (h : ring.Stores capacity entrySize log)
    (hblock : capacity.toNat ∣ 65536 ∨ Bookkeeping.InOneBlock capacity log.length) :
    ring.Serves capacity log := by
  have hpos : 0 < capacity.toNat := hcapacity
  have hlookup (s : ℕ) (hfirst : log.length - capacity.toNat ≤ s) (hlast : s < log.length) :
      ring.bookkeeping.getBySequenceNumber (UInt32.ofNat s) =
        .ok (some (Bookkeeping.slotOf capacity s)) :=
    (hsound.counts.lookup_live_iff hcapacity hfirst hlast).mpr
      (hblock.imp_right fun hone => hone.div_eq hfirst hlast)
  have hget (s : ℕ) (hfirst : log.length - capacity.toNat ≤ s) (hlast : s < log.length) :
      ring.get (UInt32.ofNat s) =
        .ok ⟨ring.getBuf (Bookkeeping.slotOf capacity s), UInt32.ofNat s⟩ := by
    rw [get, hlookup s hfirst hlast]
    rfl
  constructor
  case kept =>
    intro s hfirst hlast
    obtain ⟨address, -, haddress⟩ := hsound.allocated _ (Bookkeeping.slotOf_lt (n := s) hcapacity)
    refine ⟨address, by rw [hget s hfirst hlast, haddress], fun data hdata => ?_⟩
    refine h.stored s data address hdata (fun t hst ht => ?_) haddress
    exact (hsound.counts.slotOf_ne hcapacity ⟨hfirst, hlast⟩ ⟨by omega, ht⟩ (Nat.ne_of_lt hst)
      hlookup).symm
  case gone =>
    intro num hnum
    have hmissing : num ∉ (Bookkeeping.live capacity
        (Bookkeeping.issuedBy capacity log.length)).map Prod.fst := by
      intro hmem
      obtain ⟨entry, hentry, rfl⟩ := List.mem_map.mp hmem
      obtain ⟨s, hfirst, hlast, rfl⟩ := Bookkeeping.mem_live_issuedBy.mp hentry
      exact hnum s hfirst hlast rfl
    have hout := mt (hsound.counts.relative_lt_iff_mem_live num).mp hmissing
    rw [get, Bookkeeping.getBySequenceNumber, if_neg hout]
    rfl
  case latest =>
    rcases hlength : log.length with _ | n
    · obtain rfl := List.length_eq_zero_iff.mp hlength
      have hsize : ring.bookkeeping.size = 0 :=
        UInt16.toNat_inj.mp (by simp [hsound.counts.size_eq])
      rw [getLatest, Bookkeeping.back, Bookkeeping.empty, hsize]
      rfl
    · have hne : log ≠ [] := fun hnil => by simp [hnil] at hlength
      have hcounts := hlength ▸ hsound.counts
      have hnumber : ring.bookkeeping.backSequenceNumber = UInt32.ofNat n := by
        simp [Bookkeeping.backSequenceNumber, hcounts.next_eq, UInt32.ofNat_add]
      rw [if_neg hne, Nat.add_sub_cancel, hget n (by omega) (by omega), getLatest,
        hcounts.back_eq hcapacity, hnumber]
      rfl

/-- After any operations on a ring that was created, whose data fits its entries, its readers
find the last entries of the log under their numbers, byte for byte, and nothing else. -/
theorem serves_of_create {memory : SegmentMemory} {opts : IPCRingBufferOptions}
    {layout : RingLayout} {supports : UInt8 → Bool} {zeroed : ℕ → UInt8} {kept : Option ℕ}
    (hcreate : ((memory.create opts layout supports zeroed).run kept).1 = .ok (some ring))
    (hentries : 0 < ring.getEntries) (hapart : memory.KeepsApart opts) (ops : List RingOperation)
    (hops : ∀ op ∈ ops, op.Fits opts.entrySize.toNat) :
    let log := ops.flatMap RingOperation.logged
    ∃ after, ring.run ops = .ok after ∧
      (ring.getEntries.toNat ∣ 65536 ∨ Bookkeeping.InOneBlock ring.getEntries log.length →
        after.Serves ring.getEntries log) := by
  obtain ⟨after, hrun, hafter, hstores⟩ := Stores.run (SegmentMemory.sound_of_create hcreate)
    hentries (stores_of_create hcreate hapart) hops
  exact ⟨after, hrun, fun hblock => hstores.serves hafter hentries hblock⟩

theorem keepsApart_twoBuffers :
    twoBuffers.KeepsApart { name := [], entries := 3, entrySize := 64 } := by
  have hplaces (element : RawIndex) (address : ℕ)
      (h : twoBuffers.allocateAligned element 64 16 = .allocated address) :
      element = 0 ∧ address = 1024 ∨ element = 1 ∧ address = 1088 := by
    simp only [twoBuffers] at h
    split at h
    next hzero => exact .inl ⟨hzero, (Allocation.allocated.inj h).symm⟩
    next =>
      split at h
      next hone => exact .inr ⟨hone, (Allocation.allocated.inj h).symm⟩
      next => cases h
  intro first second address other hne hfirst hsecond
  obtain ⟨rfl, rfl⟩ | ⟨rfl, rfl⟩ := hplaces first address hfirst
  · obtain ⟨rfl, -⟩ | ⟨-, rfl⟩ := hplaces second other hsecond
    · exact absurd rfl hne
    · exact .inl (by decide)
  · obtain ⟨-, rfl⟩ | ⟨rfl, -⟩ := hplaces second other hsecond
    · exact .inr (by decide)
    · exact absurd rfl hne

theorem serves_of_create_truncated :
    ∃ after, truncatedRing.run [.putData [1, 2], .put, .putData [3], .get 0] = .ok after ∧
      after.Serves 2 [some [1, 2], none, some [3]] := by
  have hcreate : ((twoBuffers.create { name := [], entries := 3, entrySize := 64 }
      ⟨96, 72, by decide⟩ (fun backend => backend == 0) (fun _ => 0)).run none).1 =
        .ok (some truncatedRing) := rfl
  obtain ⟨after, hrun, hserves⟩ := serves_of_create hcreate (by decide) keepsApart_twoBuffers
    [.putData [1, 2], .put, .putData [3], .get 0] (by simp [RingOperation.Fits])
  exact ⟨after, hrun, hserves (.inl (by decide))⟩

end ServerRing

end OSVR.Common
