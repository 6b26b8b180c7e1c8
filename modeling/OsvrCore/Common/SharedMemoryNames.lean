/-
# Names of shared-memory segments

The images of a sensor go into a segment whose name is made from the device and the
sensor, with every character that is not safe replaced. Creating a segment removes any
other of that name first. So two sensors whose names become the same take each other's
segment away; this module says which ones do, and that no others can.
-/

import Mathlib.Data.List.Basic
import OsvrCore.Common.ImagingComponent
import OsvrCore.Math.DecimalText

set_option autoImplicit false

namespace OSVR.Common

open Math

/-- A device that announces images, and one of its sensors. -/
structure Announcer where
  devName : List UInt8
  sensor : UInt32
  deriving DecidableEq

namespace Announcer

/-- The name in the options with which the ring buffer is created. -/
def segmentName (announcer : Announcer) : List UInt8 :=
  (IPCRingBufferOptions.named (ImagingComponent.makeName announcer.sensor announcer.devName)
    BASIC_MANAGED_SHM_ID).name

/-- What `makeNameSafe` makes of a character. -/
def safeChar (c : UInt8) : UInt8 :=
  if isalpha c || isdigit c || UNDERSCORE == c then c else UNDERSCORE

/-- The number of the sensor as it is printed, `int(sensor)`. -/
def number (announcer : Announcer) : ℤ := announcer.sensor.toBitVec.toInt

/-- The device names agree up to unsafe characters and the sensors are the same; or one of
the sensors is printed as a negative number, the other as its absolute value, and the
minus sign makes up for a character of the other device's name. -/
def Collides (first second : Announcer) : Prop :=
  (first.sensor = second.sensor ∧ first.devName.map safeChar = second.devName.map safeChar) ∨
  (first.number < 0 ∧ first.number = -second.number ∧
    first.devName.map safeChar ++ [UNDERSCORE] = second.devName.map safeChar) ∨
  (second.number < 0 ∧ second.number = -first.number ∧
    second.devName.map safeChar ++ [UNDERSCORE] = first.devName.map safeChar)

/-! ## Equal names -/

/-- The part of the name before the last underscore, without the common beginning. -/
def stem (announcer : Announcer) : List UInt8 :=
  announcer.devName.map safeChar ++ if announcer.number < 0 then [UNDERSCORE] else []

theorem safeChar_digit {c : UInt8} (h : 48 ≤ c ∧ c ≤ 57) : safeChar c = c := by
  have hdigit : isdigit c = true := by simp [isdigit, h.1, h.2]
  simp [safeChar, hdigit]

/-- The common beginning starts with a letter. -/
theorem exists_textBytes_imaging :
    ∃ rest, textBytes "com.osvr.imaging/" = 99 :: rest := by
  rw [show "com.osvr.imaging/" = String.ofList "com.osvr.imaging/".toList from
    String.ofList_toList.symm, textBytes_ofList]
  exact ⟨_, rfl⟩

theorem makeNameSafe_imaging (rest : List UInt8) :
    makeNameSafe (textBytes "com.osvr.imaging/" ++ rest) =
      (textBytes "com.osvr.imaging/").map safeChar ++ rest.map safeChar := by
  have ⟨others, hletters⟩ := exists_textBytes_imaging
  rw [hletters, ← List.map_append]
  rfl

theorem textBytes_slash : textBytes "/" = [47] := by
  rw [show "/" = String.ofList ['/'] from rfl, textBytes_ofList]
  rfl

theorem segmentName_eq (announcer : Announcer) :
    announcer.segmentName = (textBytes "com.osvr.imaging/").map safeChar ++
      (announcer.stem ++ UNDERSCORE :: digitBytes announcer.number.natAbs) := by
  have hname : ImagingComponent.makeName announcer.sensor announcer.devName =
      textBytes "com.osvr.imaging/" ++ (announcer.devName ++ (textBytes "/" ++
        textBytes (toString announcer.number))) := by
    simp only [ImagingComponent.makeName, textBytes, number, List.append_assoc]
  have hdigits (n : ℕ) : (digitBytes n).map safeChar = digitBytes n :=
    (List.map_congr_left fun byte hmem => safeChar_digit (mem_digitBytes hmem)).trans
      (List.map_id _)
  rw [segmentName, IPCRingBufferOptions.named, hname, makeNameSafe_imaging, textBytes_slash,
    textBytes_int, stem]
  by_cases hneg : announcer.number < 0
  · simp only [if_pos hneg, List.map_append, List.map_cons, hdigits]
    rw [List.append_assoc]
    rfl
  · simp only [if_neg hneg, List.map_append, List.map_cons, hdigits, List.append_nil]
    rfl

/-- What follows the last separator is determined, where it has no separator. -/
theorem append_cons_eq_iff {front front' back back' : List UInt8} {c : UInt8} (hback : c ∉ back)
    (hback' : c ∉ back') :
    front ++ c :: back = front' ++ c :: back' ↔ front = front' ∧ back = back' := by
  apply Iff.intro
  · intro h
    rcases List.append_eq_append_iff.mp h with ⟨middle, hfront, hrest⟩ | ⟨middle, hfront, hrest⟩
    · cases middle with
      | nil => exact ⟨by simpa using hfront.symm, (List.cons.inj hrest).2⟩
      | cons first middle =>
          apply absurd _ hback
          rw [(List.cons.inj hrest).2]
          exact List.mem_append_right middle List.mem_cons_self
    · cases middle with
      | nil => exact ⟨by simpa using hfront, (List.cons.inj hrest).2.symm⟩
      | cons first middle =>
          apply absurd _ hback'
          rw [(List.cons.inj hrest).2]
          exact List.mem_append_right middle List.mem_cons_self
  · rintro ⟨rfl, rfl⟩
    rfl

theorem underscore_not_mem_digitBytes (n : ℕ) : UNDERSCORE ∉ digitBytes n := by
  intro hmem
  have hbounds := mem_digitBytes hmem
  exact absurd hbounds.2 (by decide)

theorem number_inj {first second : Announcer} :
    first.number = second.number ↔ first.sensor = second.sensor := by
  apply Iff.intro
  · intro h
    exact UInt32.toBitVec_inj.mp (BitVec.eq_of_toInt_eq h)
  · intro h
    rw [number, number, h]

/-- Two names are equal exactly when the announcers collide. -/
theorem segmentName_eq_iff (first second : Announcer) :
    first.segmentName = second.segmentName ↔ first.Collides second := by
  rw [segmentName_eq, segmentName_eq, List.append_right_inj,
    append_cons_eq_iff (underscore_not_mem_digitBytes _) (underscore_not_mem_digitBytes _),
    digitBytes_injective.eq_iff, Collides, ← number_inj, stem, stem]
  by_cases hfirst : first.number < 0 <;> by_cases hsecond : second.number < 0
  · have habs : first.number.natAbs = second.number.natAbs ↔ first.number = second.number := by
      omega
    have hopposite : ¬ first.number = -second.number := by omega
    have hopposite' : ¬ second.number = -first.number := by omega
    simp [hfirst, hsecond, habs, hopposite, hopposite', and_comm]
  · have habs : first.number.natAbs = second.number.natAbs ↔ first.number = -second.number := by
      omega
    have hequal : ¬ first.number = second.number := by omega
    simp [hfirst, hsecond, habs, hequal, and_comm]
  · have habs : first.number.natAbs = second.number.natAbs ↔ second.number = -first.number := by
      omega
    have hequal : ¬ first.number = second.number := by omega
    simp [hfirst, hsecond, habs, hequal, and_comm, eq_comm]
  · have habs : first.number.natAbs = second.number.natAbs ↔ first.number = second.number := by
      omega
    simp [hfirst, hsecond, habs, and_comm]

end Announcer

/-! ## Rings and segments -/

/-- A ring buffer in the process of its device, by the name under which its destructor
removes the segment. -/
structure ImagingRing where
  name : List UInt8
  entrySize : UInt32
  segment : SegmentId
  deriving DecidableEq

/-- The segments of a machine by their names, and the ring buffers of each device by sensor. -/
structure ImagingMachine where
  segments : List UInt8 → Option SegmentId
  created : SegmentId
  tables : List UInt8 → List (Option ImagingRing)

namespace ImagingMachine

open ImagingComponent

/-- No device has a ring yet; segments may have been left by processes that are gone. -/
def start (segments : List UInt8 → Option SegmentId) (created : SegmentId) : ImagingMachine :=
  ⟨segments, created, fun _ => []⟩

variable (machine : ImagingMachine)

def remove (name : List UInt8) : ImagingMachine :=
  { machine with segments := fun other => if other = name then none else machine.segments other }

/-- `create_only`, which fails when there is a segment of the name, or for other reasons. -/
def createOnly (name : List UInt8) (succeeds : Bool) : ImagingMachine × Option SegmentId :=
  if (machine.segments name).isSome || !succeeds then (machine, none)
  else
    ({ machine with
        segments :=
          fun other => if other = name then some machine.created else machine.segments other
        created := machine.created + 1 }, some machine.created)

/-- `ServerSharedMemorySegmentHolder`. A segment that is refused gives no ring; what its
destructor does to a null pointer is not modelled here, and the run may go on. -/
def createRing (name : List UInt8) (entrySize : UInt32) (succeeds : Bool) :
    ImagingMachine × Option ImagingRing :=
  let (machine, segment) := (machine.remove name).createOnly name succeeds
  (machine, segment.map fun segment => ⟨name, entrySize, segment⟩)

/-- Its destructor. -/
def destroyRing : Option ImagingRing → ImagingMachine
  | none => machine
  | some ring => machine.remove ring.name

def setTable (devName : List UInt8) (table : List (Option ImagingRing)) : ImagingMachine :=
  { machine with tables := fun other => if other = devName then table else machine.tables other }

/-- An image of a size is announced. A ring that has another size is replaced: it is
destroyed once the new one is there. -/
def sendImage (announcer : Announcer) (imageBufferSize : UInt32) (succeeds : Bool) :
    Except ImagingFault ImagingMachine :=
  let table := growShmVecIfRequired (machine.tables announcer.devName) announcer.sensor
  match shmBufAt table announcer.sensor with
  | .error fault => .error fault
  | .ok current =>
    if current.any (·.entrySize == imageBufferSize) then
      .ok (machine.setTable announcer.devName table)
    else
      let (machine, ring) := machine.createRing announcer.segmentName imageBufferSize succeeds
      .ok ((machine.destroyRing current).setTable announcer.devName
        (table.set announcer.sensor.toNat ring))

/-- The component of a device is gone, and its rings with it. -/
def destroyComponent (devName : List UInt8) : ImagingMachine :=
  ((machine.tables devName).foldl destroyRing machine).setTable devName []

inductive Step
  | sendImage (announcer : Announcer) (imageBufferSize : UInt32) (succeeds : Bool)
  | destroyComponent (devName : List UInt8)

def step : Step → ImagingMachine → Except ImagingFault ImagingMachine
  | .sendImage announcer imageBufferSize succeeds, machine =>
      machine.sendImage announcer imageBufferSize succeeds
  | .destroyComponent devName, machine => .ok (machine.destroyComponent devName)

def run : List Step → ImagingMachine → Except ImagingFault ImagingMachine
  | [], machine => .ok machine
  | step :: steps, machine => ImagingMachine.step step machine >>= run steps

/-- The ring buffer of an announcer. -/
def ring (announcer : Announcer) : Option ImagingRing :=
  (machine.tables announcer.devName)[announcer.sensor.toNat]?.join

/-! ## What a step changes -/

/-- The announcers whose rings a step creates or destroys. -/
def Step.Concerns : Step → Announcer → Prop
  | .sendImage announcer _ _, other => other = announcer
  | .destroyComponent devName, other => other.devName = devName

/-- Every ring has the name of its place. -/
def Named : Prop :=
  ∀ devName index ring, (machine.tables devName)[index]? = some (some ring) →
    ∃ sensor : UInt32, sensor.toNat = index ∧ ring.name = (Announcer.mk devName sensor).segmentName

variable {machine} {after : ImagingMachine} {announcer : Announcer} {imageBufferSize : UInt32}
  {succeeds : Bool} {name : List UInt8}

/-- A table that has grown to have a place for a sensor has the rings it had. -/
theorem join_getElem?_grow {α : Type} {table : List (Option α)} {sensor : UInt32}
    {current : Option α}
    (h : (growShmVecIfRequired table sensor)[sensor.toNat]? = some current) (index : ℕ) :
    (growShmVecIfRequired table sensor)[index]?.join = table[index]?.join := by
  unfold growShmVecIfRequired at h ⊢
  split
  next hsmall =>
    rw [if_pos hsmall] at h
    have hcount : sensor.toNat < (sensor + 1).toNat := by
      have hindex := (List.getElem?_eq_some_iff.mp h).1
      rwa [length_resize] at hindex
    rw [resize, List.take_of_length_le (by omega)]
    by_cases hindex : index < table.length
    · rw [List.getElem?_append_left hindex]
    · have hlength := Nat.le_of_not_lt hindex
      rw [List.getElem?_append_right hlength, List.getElem?_eq_none hlength]
      rcases hnew : (List.replicate ((sensor + 1).toNat - table.length) none)[index - table.length]?
        with _ | entry
      · rfl
      · rw [(List.mem_replicate.mp (List.mem_of_getElem? hnew)).2]
        rfl
  next => rfl

theorem sendImage_cases (h : machine.sendImage announcer imageBufferSize succeeds = .ok after) :
    ∃ table : List (Option ImagingRing),
      (∀ index : ℕ, table[index]?.join = (machine.tables announcer.devName)[index]?.join) ∧
      announcer.sensor.toNat < table.length ∧
      ((machine.ring announcer).any (·.entrySize == imageBufferSize) = true ∧
          after = machine.setTable announcer.devName table ∨
        (machine.ring announcer).any (·.entrySize == imageBufferSize) = false ∧
          after = ((machine.createRing announcer.segmentName imageBufferSize succeeds).1.destroyRing
              (machine.ring announcer)).setTable announcer.devName
            (table.set announcer.sensor.toNat
              (machine.createRing announcer.segmentName imageBufferSize succeeds).2)) := by
  rw [sendImage, shmBufAt] at h
  cases hcurrent : (growShmVecIfRequired (machine.tables announcer.devName)
      announcer.sensor)[announcer.sensor.toNat]? with
  | none =>
      rw [hcurrent] at h
      cases h
  | some current =>
      have hjoin := join_getElem?_grow hcurrent
      have hring : machine.ring announcer = current := by
        rw [ring, ← hjoin, hcurrent]
        rfl
      refine ⟨_, hjoin, (List.getElem?_eq_some_iff.mp hcurrent).1, ?_⟩
      rw [hring]
      rw [hcurrent] at h
      cases hsize : current.any (·.entrySize == imageBufferSize) with
      | true =>
          simp only [hsize, if_true] at h
          cases h
          exact .inl ⟨rfl, rfl⟩
      | false =>
          simp only [hsize, Bool.false_eq_true, if_false] at h
          cases h
          exact .inr ⟨rfl, rfl⟩

/-! ## Frames -/

theorem segments_remove_of_ne {other : List UInt8} (h : name ≠ other) :
    (machine.remove other).segments name = machine.segments name := if_neg h

theorem tables_createRing (other : List UInt8) :
    (machine.createRing other imageBufferSize succeeds).1.tables = machine.tables := by
  simp only [createRing, createOnly]
  split <;> rfl

theorem segments_createRing_of_ne {other : List UInt8} (h : name ≠ other) :
    (machine.createRing other imageBufferSize succeeds).1.segments name =
      machine.segments name := by
  simp only [createRing, createOnly]
  split
  · exact segments_remove_of_ne h
  · exact (if_neg h).trans (segments_remove_of_ne h)

theorem created_createRing_le (other : List UInt8) :
    machine.created ≤ (machine.createRing other imageBufferSize succeeds).1.created := by
  simp only [createRing, createOnly]
  split
  · exact le_refl _
  · exact Nat.le_succ _

/-- What is found under the name afterwards is new. -/
theorem segments_createRing_self (other : List UInt8) :
    (machine.createRing other imageBufferSize succeeds).1.segments other = none ∨
      (machine.createRing other imageBufferSize succeeds).1.segments other =
        some machine.created := by
  simp only [createRing, createOnly]
  split
  · exact .inl (if_pos rfl)
  · exact .inr (if_pos rfl)

/-- A new ring has the name it was created with and the next number. -/
theorem eq_of_createRing {other : List UInt8} {ring : ImagingRing}
    (h : (machine.createRing other imageBufferSize succeeds).2 = some ring) :
    ring = ⟨other, imageBufferSize, machine.created⟩ ∧
      (machine.createRing other imageBufferSize succeeds).1.created = machine.created + 1 := by
  simp only [createRing, createOnly] at h ⊢
  split at h
  next => cases h
  next hfree =>
    cases h
    rw [if_neg hfree]
    exact ⟨rfl, rfl⟩

theorem createOnly_of_none (h : machine.segments name = none) :
    machine.createOnly name true = ({ machine with
      segments := fun other => if other = name then some machine.created else machine.segments other
      created := machine.created + 1 }, some machine.created) := by
  rw [createOnly, h]
  rfl

/-- After the removal nothing but the library stands in the way of a new segment. -/
theorem createRing_true (other : List UInt8) :
    (machine.createRing other imageBufferSize true).1.segments other = some machine.created ∧
      (machine.createRing other imageBufferSize true).2 =
        some ⟨other, imageBufferSize, machine.created⟩ := by
  have hfree : (machine.remove other).segments other = none := if_pos rfl
  rw [createRing, createOnly_of_none hfree]
  exact ⟨if_pos rfl, rfl⟩

theorem segments_destroyRing_of_ne {ring : Option ImagingRing}
    (h : ∀ old, ring = some old → name ≠ old.name) :
    (machine.destroyRing ring).segments name = machine.segments name := by
  cases ring with
  | none => rfl
  | some old => exact segments_remove_of_ne (h old rfl)

theorem tables_destroyRing (ring : Option ImagingRing) :
    (machine.destroyRing ring).tables = machine.tables := by
  cases ring <;> rfl

theorem created_destroyRing (ring : Option ImagingRing) :
    (machine.destroyRing ring).created = machine.created := by
  cases ring <;> rfl

theorem tables_setTable_self (devName : List UInt8) (table : List (Option ImagingRing)) :
    (machine.setTable devName table).tables devName = table := if_pos rfl

theorem tables_setTable_of_ne {devName other : List UInt8} (table : List (Option ImagingRing))
    (h : other ≠ devName) : (machine.setTable devName table).tables other = machine.tables other :=
  if_neg h

theorem segments_foldl_destroyRing_of_ne {rings : List (Option ImagingRing)}
    (h : ∀ old, some old ∈ rings → name ≠ old.name) :
    (rings.foldl destroyRing machine).segments name = machine.segments name := by
  induction rings generalizing machine with
  | nil => rfl
  | cons ring rings ih =>
      exact (ih fun old hmem => h old (List.mem_cons_of_mem ring hmem)).trans
        (segments_destroyRing_of_ne fun old hold => h old (hold ▸ List.mem_cons_self))

/-- Destroying rings changes nothing but the names of segments. -/
theorem foldl_destroyRing (rings : List (Option ImagingRing)) (machine : ImagingMachine) :
    (rings.foldl destroyRing machine).tables = machine.tables ∧
      (rings.foldl destroyRing machine).created = machine.created := by
  induction rings generalizing machine with
  | nil => exact ⟨rfl, rfl⟩
  | cons ring rings ih => cases ring <;> exact ih _

theorem Named.name_ring (hnamed : machine.Named) {ring : ImagingRing}
    (h : machine.ring announcer = some ring) : ring.name = announcer.segmentName := by
  have ⟨sensor, hsensor, hname⟩ := hnamed _ _ ring (Option.join_eq_some_iff.mp h)
  rw [hname, UInt32.toNat_inj.mp hsensor]

theorem named_start (segments : List UInt8 → Option SegmentId) (created : SegmentId) :
    (start segments created).Named := by
  intro devName index ring h
  cases h

/-- A step leaves alone every name but those of the announcers it concerns. -/
theorem segments_step {taken : Step} (hnamed : machine.Named)
    (hstep : step taken machine = .ok after)
    (hspares : ∀ announcer, taken.Concerns announcer → announcer.segmentName ≠ name) :
    after.segments name = machine.segments name := by
  cases taken with
  | sendImage announcer imageBufferSize succeeds =>
      have hname := (hspares announcer rfl).symm
      rcases sendImage_cases hstep with ⟨table, _, _, ⟨_, rfl⟩ | ⟨_, rfl⟩⟩
      · rfl
      · refine (segments_destroyRing_of_ne fun old hold => ?_).trans
          (segments_createRing_of_ne hname)
        rw [hnamed.name_ring hold]
        exact hname
  | destroyComponent devName =>
      cases hstep
      refine segments_foldl_destroyRing_of_ne fun old hmem => ?_
      have ⟨index, hindex⟩ := List.mem_iff_getElem?.mp hmem
      have ⟨sensor, _, hname⟩ := hnamed devName index old hindex
      rw [hname]
      exact (hspares ⟨devName, sensor⟩ rfl).symm

/-- Announcing an image changes one place of one table. -/
theorem tables_sendImage (h : machine.sendImage announcer imageBufferSize succeeds = .ok after) :
    ∃ (table : List (Option ImagingRing)) (ring : Option ImagingRing),
      after.tables = (machine.setTable announcer.devName table).tables ∧
      (∀ index : ℕ, table[index]?.join = if index = announcer.sensor.toNat then ring
        else (machine.tables announcer.devName)[index]?.join) ∧
      (ring = machine.ring announcer ∨
        ring = (machine.createRing announcer.segmentName imageBufferSize succeeds).2 ∧
          after.created =
            (machine.createRing announcer.segmentName imageBufferSize succeeds).1.created) := by
  obtain ⟨table, hjoin, hlength, ⟨_, rfl⟩ | ⟨_, rfl⟩⟩ := sendImage_cases h
  · refine ⟨table, _, rfl, ?_, .inl rfl⟩
    intro index
    split
    next hindex => rw [hindex, hjoin, ring]
    next => exact hjoin index
  · refine ⟨table.set announcer.sensor.toNat
      (machine.createRing announcer.segmentName imageBufferSize succeeds).2, _, ?_, ?_,
      .inr ⟨rfl, created_destroyRing _⟩⟩
    · simp only [setTable, tables_destroyRing, tables_createRing]
    · intro index
      split
      next hindex => rw [hindex, List.getElem?_set_self hlength, Option.join_some]
      next hindex => rw [List.getElem?_set_ne (Ne.symm hindex), hjoin]

theorem tables_destroyComponent (devName : List UInt8) :
    (machine.destroyComponent devName).tables = (machine.setTable devName []).tables := by
  simp only [destroyComponent, setTable, foldl_destroyRing]

/-- A step leaves alone every ring but those of the announcers it concerns. -/
theorem ring_step {taken : Step} (hstep : step taken machine = .ok after)
    (hspares : ¬ taken.Concerns announcer) : after.ring announcer = machine.ring announcer := by
  cases taken with
  | sendImage other imageBufferSize succeeds =>
      have ⟨table, new, htables, hjoin, _⟩ := tables_sendImage hstep
      rw [ring, ring, htables]
      by_cases hdev : announcer.devName = other.devName
      · have hsensor : announcer.sensor.toNat ≠ other.sensor.toNat := by
          intro h
          apply hspares
          show announcer = other
          cases announcer
          cases other
          simp_all [UInt32.toNat_inj]
        rw [hdev, tables_setTable_self, hjoin, if_neg hsensor]
      · rw [tables_setTable_of_ne table hdev]
  | destroyComponent devName =>
      cases hstep
      rw [ring, ring, tables_destroyComponent, tables_setTable_of_ne [] hspares]

/-- A ring after a step was there before or has been created by it. -/
theorem ring_of_step {taken : Step} {devName : List UInt8} {index : ℕ} {ring : ImagingRing}
    (hstep : step taken machine = .ok after)
    (hring : (after.tables devName)[index]? = some (some ring)) :
    (machine.tables devName)[index]? = some (some ring) ∨
      ∃ sensor imageBufferSize, sensor.toNat = index ∧
        ring = ⟨(Announcer.mk devName sensor).segmentName, imageBufferSize, machine.created⟩ ∧
        after.created = machine.created + 1 := by
  cases taken with
  | sendImage announcer imageBufferSize succeeds =>
      have ⟨table, new, htables, hjoin, hnew⟩ := tables_sendImage hstep
      rw [htables] at hring
      by_cases hdev : devName = announcer.devName
      · rw [hdev, tables_setTable_self] at hring
        have hplace := (hjoin index).symm.trans (Option.join_eq_some_iff.mpr hring)
        by_cases hindex : index = announcer.sensor.toNat
        · rw [if_pos hindex] at hplace
          rcases hnew with hold | ⟨hcreated, hcount⟩
          · have hring' : machine.ring announcer = some ring := hold.symm.trans hplace
            rw [hdev, hindex]
            exact .inl (Option.join_eq_some_iff.mp hring')
          · have ⟨hring', hnext⟩ := eq_of_createRing (hcreated.symm.trans hplace)
            rw [hdev]
            exact .inr ⟨announcer.sensor, imageBufferSize, hindex.symm, hring', hcount.trans hnext⟩
        · rw [if_neg hindex] at hplace
          rw [hdev]
          exact .inl (Option.join_eq_some_iff.mp hplace)
      · rw [tables_setTable_of_ne table hdev] at hring
        exact .inl hring
  | destroyComponent other =>
      cases hstep
      rw [tables_destroyComponent] at hring
      by_cases hdev : devName = other
      · rw [hdev, tables_setTable_self] at hring
        cases hring
      · rw [tables_setTable_of_ne [] hdev] at hring
        exact .inl hring

theorem created_step_le {taken : Step} (hstep : step taken machine = .ok after) :
    machine.created ≤ after.created := by
  cases taken with
  | sendImage announcer imageBufferSize succeeds =>
      obtain ⟨table, _, _, ⟨_, rfl⟩ | ⟨_, rfl⟩⟩ := sendImage_cases hstep
      · exact le_refl _
      · exact (created_createRing_le _).trans_eq (created_destroyRing _).symm
  | destroyComponent devName =>
      cases hstep
      exact (foldl_destroyRing _ machine).2.ge

theorem named_step {taken : Step} (hnamed : machine.Named)
    (hstep : step taken machine = .ok after) : after.Named := by
  intro devName index ring hring
  rcases ring_of_step hstep hring with hold | ⟨sensor, _, hindex, rfl, _⟩
  · exact hnamed devName index ring hold
  · exact ⟨sensor, hindex, rfl⟩

/-! ## Runs -/

/-- A machine that has come from some segments and no rings. -/
def Reachable (machine : ImagingMachine) : Prop :=
  ∃ segments created steps, run steps (start segments created) = .ok machine

theorem run_cons {taken : Step} {steps : List Step} (h : run (taken :: steps) machine = .ok after) :
    ∃ middle, step taken machine = .ok middle ∧ run steps middle = .ok after := by
  rw [run] at h
  cases hstep : step taken machine with
  | error fault =>
      rw [hstep] at h
      cases h
  | ok middle =>
      rw [hstep] at h
      exact ⟨middle, rfl, h⟩

theorem Named.run {steps : List Step} (hnamed : machine.Named)
    (hrun : ImagingMachine.run steps machine = .ok after) : after.Named := by
  induction steps generalizing machine with
  | nil =>
      cases hrun
      exact hnamed
  | cons taken steps ih =>
      have ⟨middle, hstep, hrest⟩ := run_cons hrun
      exact ih (named_step hnamed hstep) hrest

theorem Reachable.named (h : machine.Reachable) : machine.Named := by
  have ⟨segments, created, steps, hrun⟩ := h
  exact (named_start segments created).run hrun

/-- Whatever announcers do whose names are others, a name keeps its segment and an
announcer its ring. -/
theorem frame_run {steps : List Step} (hnamed : machine.Named)
    (hrun : run steps machine = .ok after)
    (hspares : ∀ taken ∈ steps, ∀ other, taken.Concerns other →
      other.segmentName ≠ announcer.segmentName) :
    after.segments announcer.segmentName = machine.segments announcer.segmentName ∧
      after.ring announcer = machine.ring announcer := by
  induction steps generalizing machine with
  | nil =>
      cases hrun
      exact ⟨rfl, rfl⟩
  | cons taken steps ih =>
      have ⟨middle, hstep, hrest⟩ := run_cons hrun
      have ⟨hfirst, hsteps⟩ := List.forall_mem_cons.mp hspares
      have ⟨hsegment, hring⟩ := ih (named_step hnamed hstep) hrest hsteps
      apply And.intro
      · exact hsegment.trans (segments_step hnamed hstep hfirst)
      · exact hring.trans (ring_step hstep fun hconcerns => hfirst announcer hconcerns rfl)

/-- The number of the next segment is above those of all rings. -/
def Numbered (machine : ImagingMachine) : Prop :=
  ∀ (devName : List UInt8) (index : ℕ) (ring : ImagingRing),
    (machine.tables devName)[index]? = some (some ring) →
    ring.segment < machine.created

theorem numbered_run {steps : List Step} (hnumbered : machine.Numbered)
    (hrun : run steps machine = .ok after) : after.Numbered := by
  induction steps generalizing machine with
  | nil =>
      cases hrun
      exact hnumbered
  | cons taken steps ih =>
      have ⟨middle, hstep, hrest⟩ := run_cons hrun
      refine ih ?_ hrest
      intro devName index ring hring
      rcases ring_of_step hstep hring with hold | ⟨_, _, _, rfl, hnext⟩
      · exact Nat.lt_of_lt_of_le (hnumbered devName index ring hold) (created_step_le hstep)
      · rw [hnext]
        exact Nat.lt_succ_self _

theorem Reachable.numbered (h : machine.Reachable) : machine.Numbered := by
  have ⟨segments, created, steps, hrun⟩ := h
  have hstart : (start segments created).Numbered := by
    intro devName index ring hring
    cases hring
  exact numbered_run hstart hrun

/-- Creating a ring takes the segment of every other ring away whose name is the same. -/
theorem segments_sendImage_ne {other : Announcer} {ring : ImagingRing}
    (hreach : machine.Reachable) (hring : machine.ring announcer = some ring)
    (hname : other.segmentName = announcer.segmentName)
    (hsize : (machine.ring other).any (·.entrySize == imageBufferSize) = false)
    (hstep : machine.sendImage other imageBufferSize succeeds = .ok after) :
    after.segments announcer.segmentName ≠ some ring.segment := by
  have hnumber := hreach.numbered _ _ ring (Option.join_eq_some_iff.mp hring)
  obtain ⟨table, _, _, ⟨hsame, _⟩ | ⟨_, rfl⟩⟩ := sendImage_cases hstep
  · rw [hsize] at hsame
    cases hsame
  · have hdestroyed :
        (((machine.createRing other.segmentName imageBufferSize succeeds).1.destroyRing
          (machine.ring other)).segments announcer.segmentName = none) ∨
        (((machine.createRing other.segmentName imageBufferSize succeeds).1.destroyRing
          (machine.ring other)).segments announcer.segmentName = some machine.created) := by
      rw [← hname]
      cases hold : machine.ring other with
      | none => exact segments_createRing_self _
      | some old =>
          rw [← hreach.named.name_ring hold]
          exact .inl (if_pos rfl)
    intro h
    rcases hdestroyed with hnone | hsome
    · cases h.symm.trans hnone
    · exact absurd (Option.some_inj.mp (h.symm.trans hsome)) (Nat.ne_of_lt hnumber)

/-- Two announcers get one name exactly when they collide. Of others, whatever they announce
and whichever of them are destroyed, a segment and its ring see nothing; but the next ring
that a colliding announcer creates takes the segment of a live ring away. -/
theorem segmentName_law :
    (∀ first second : Announcer, first.segmentName = second.segmentName ↔ first.Collides second) ∧
    (∀ (machine after : ImagingMachine) (announcer : Announcer) (steps : List Step),
      machine.Reachable → run steps machine = .ok after →
      (∀ taken ∈ steps, ∀ other, taken.Concerns other → ¬ other.Collides announcer) →
      after.segments announcer.segmentName = machine.segments announcer.segmentName ∧
        after.ring announcer = machine.ring announcer) ∧
    ∀ (machine after : ImagingMachine) (announcer other : Announcer) (ring : ImagingRing)
      (imageBufferSize : UInt32) (succeeds : Bool),
      machine.Reachable → machine.ring announcer = some ring → other ≠ announcer →
      other.Collides announcer → (machine.ring other).any (·.entrySize == imageBufferSize) = false →
      machine.sendImage other imageBufferSize succeeds = .ok after →
      after.ring announcer = some ring ∧
        after.segments announcer.segmentName ≠ some ring.segment := by
  refine ⟨Announcer.segmentName_eq_iff, ?_, ?_⟩
  · intro machine after announcer steps hreach hrun hspares
    apply frame_run hreach.named hrun
    intro taken hmem other hconcerns hname
    exact hspares taken hmem other hconcerns
      ((Announcer.segmentName_eq_iff other announcer).mp hname)
  · intro machine after announcer other ring imageBufferSize succeeds hreach hring hother hcollides
      hsize hstep
    have hsent : step (.sendImage other imageBufferSize succeeds) machine = .ok after := hstep
    have hname := (Announcer.segmentName_eq_iff other announcer).mpr hcollides
    apply And.intro
    · rw [ring_step hsent (Ne.symm hother), hring]
    · exact segments_sendImage_ne hreach hring hname hsize hstep

/-- A device announces its first image, for its first sensor. -/
theorem sendImage_first (hsensor : announcer.sensor = 0)
    (htable : machine.tables announcer.devName = []) :
    ∃ after, machine.sendImage announcer imageBufferSize true = .ok after ∧
      after.ring announcer =
        some ⟨announcer.segmentName, imageBufferSize, machine.created⟩ ∧
      after.segments announcer.segmentName = some machine.created ∧
      ∀ devName, devName ≠ announcer.devName → after.tables devName = machine.tables devName := by
  have hcurrent : shmBufAt (growShmVecIfRequired (machine.tables announcer.devName)
      announcer.sensor) announcer.sensor = .ok none := by
    rw [htable, hsensor]
    rfl
  have hsent : machine.sendImage announcer imageBufferSize true = .ok
      ((machine.createRing announcer.segmentName imageBufferSize true).1.setTable announcer.devName
        ((growShmVecIfRequired (machine.tables announcer.devName) announcer.sensor).set
          announcer.sensor.toNat
          (machine.createRing announcer.segmentName imageBufferSize true).2)) := by
    rw [sendImage, hcurrent]
    rfl
  refine ⟨_, hsent, ?_, ?_, ?_⟩
  · rw [ring, tables_setTable_self, htable, hsensor]
    rw [(createRing_true announcer.segmentName).2]
    rfl
  · exact (createRing_true announcer.segmentName).1
  · intro devName hother
    rw [tables_setTable_of_ne _ hother]
    exact congrFun (tables_createRing _) devName

/-- The devices `cam 1` and `cam_1` get one name for their first sensors, and the second one
takes away the segment of the first. -/
theorem segmentName_cam :
    ∃ (first second : Announcer) (machine after : ImagingMachine) (ring : ImagingRing),
      first ≠ second ∧ first.segmentName = second.segmentName ∧
      machine.Reachable ∧ machine.ring first = some ring ∧
      machine.segments first.segmentName = some ring.segment ∧
      machine.sendImage second 100 true = .ok after ∧ after.ring first = some ring ∧
      after.segments first.segmentName ≠ some ring.segment := by
  let first : Announcer := ⟨[99, 97, 109, 32, 49], 0⟩
  let second : Announcer := ⟨[99, 97, 109, 95, 49], 0⟩
  have hname : first.segmentName = second.segmentName :=
    (Announcer.segmentName_eq_iff first second).mpr (.inl ⟨rfl, by decide⟩)
  have hreach (machine : ImagingMachine)
      (hsent : (start (fun _ => none) 0).sendImage first 100 true = .ok machine) :
      machine.Reachable := by
    refine ⟨fun _ => none, 0, [.sendImage first 100 true], ?_⟩
    show ((start (fun _ => none) 0).sendImage first 100 true >>= fun machine => .ok machine) = _
    rw [hsent]
    rfl
  obtain ⟨machine, hfirst, hring, hsegment, htables⟩ :
      ∃ machine, (start (fun _ => none) 0).sendImage first 100 true = .ok machine ∧ _ :=
    sendImage_first rfl rfl
  have hempty : machine.tables second.devName = [] := htables second.devName (by decide)
  obtain ⟨after, hsecond, _⟩ : ∃ after, machine.sendImage second 100 true = .ok after ∧ _ :=
    sendImage_first rfl hempty
  have hnone : machine.ring second = none := by rw [ImagingMachine.ring, hempty]; rfl
  refine ⟨first, second, machine, after, _, by decide, hname,
    hreach machine hfirst, hring, hsegment, hsecond, ?_,
    segments_sendImage_ne (hreach machine hfirst) hring hname.symm ?_ hsecond⟩
  · have hspares : ¬ (Step.sendImage second 100 true).Concerns first := by
      show ¬ first = second
      decide
    have hsent : step (.sendImage second 100 true) machine = .ok after := hsecond
    rw [ring_step hsent hspares, hring]
  · rw [hnone]
    rfl

end ImagingMachine
end OSVR.Common
