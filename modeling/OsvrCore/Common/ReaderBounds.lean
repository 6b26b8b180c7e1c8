/-
# Reading within the bounds of a buffer

A reader goes on after it has thrown, from wherever it has come to: padding that
was skipped before the throw stays skipped. So a pass over a buffer is a program
here, with the read iterator and every range of bytes copied so far as its state.
Copying from outside of the buffer is undefined, and the results below exclude it
for every order of reads and for all lengths that the bytes themselves declare.
What a pass returns is what the readers of the buffer return.
-/

import OsvrCore.Common.SerializationTraits
import OsvrCore.Math.ProgramLoop

set_option autoImplicit false

namespace OSVR.Common

open Math

/-- A range of bytes that was copied out of the buffer, by its first index. -/
structure Access where
  start : ℕ
  bytes : List UInt8
  deriving DecidableEq

/-- A `BufferReader` in use. -/
structure ReadingPass where
  reader : BufferReader
  accesses : List Access
  deriving DecidableEq

/-- What is thrown: by the reader, or by `reserve` for want of memory. -/
inductive ReadException
  | runtimeError (error : RuntimeError)
  | badAlloc
  deriving DecidableEq

/-- Code that takes a `BufferReader` and may be given it again after it threw. -/
abbrev PassProgram (α : Type) := Program ReadingPass ReadException α

namespace ReadingPass

open Program

def start (buf : Buffer) : ReadingPass := ⟨buf.startReading, []⟩

def throwRuntimeError {α : Type} (what : String) : PassProgram α := throw (.runtimeError ⟨what⟩)

/-- The `n` bytes from an index on. -/
def bytesAt (contents : List UInt8) (iter n : ℕ) (h : iter + n ≤ contents.length) :
    List.Vector UInt8 n :=
  ⟨(contents.drop iter).take n, by
    simp only [List.length_take, List.length_drop]
    omega⟩

/-- Copy the `n` bytes from an iterator into the buffer on. -/
def copy (iter n : ℕ) : PassProgram (List.Vector UInt8 n) := do
  let pass ← get
  if h : iter + n ≤ pass.reader.contents.length then
    let bytes := bytesAt pass.reader.contents iter n h
    modify fun pass => { pass with accesses := pass.accesses ++ [⟨iter, bytes.1⟩] }
    return bytes
  else abort .undefined

/-- Move the read iterator. -/
def moveBy (n : ℕ) : PassProgram PUnit :=
  modify fun pass => { pass with reader.position := pass.reader.position + n }

/-! ## The reader -/

/-- The object representation of a type of `n` bytes. -/
def read (n : ℕ) : PassProgram (List.Vector UInt8 n) := do
  let pass ← get
  if pass.reader.bytesRemaining < n then
    throwRuntimeError "Not enough data in the buffer to read this type!"
  else
    let bytes ← copy pass.reader.position n
    moveBy n
    return bytes

/-- An iterator that is valid for `n` bytes. -/
def readBytes (n : ℕ) : PassProgram ℕ := do
  let pass ← get
  if pass.reader.bytesRemaining < n then
    throwRuntimeError "Not enough data in the buffer to read that many bytes!"
  else
    moveBy n
    return pass.reader.position

def skipPadding (bytes : ℕ) : PassProgram PUnit := do
  if bytes = 0 then return .unit
  else
    let pass ← get
    if pass.reader.bytesRemaining < bytes then
      throwRuntimeError "Can't skip that many padding bytes, not that many bytes left!"
    else moveBy bytes

def readAligned (n alignment : ℕ) : PassProgram (List.Vector UInt8 n) := do
  let pass ← get
  skipPadding (computeAlignmentPadding alignment pass.reader.bytesRead)
  read n

def readBytesAligned (n alignment : ℕ) : PassProgram ℕ := do
  let pass ← get
  skipPadding (computeAlignmentPadding alignment pass.reader.bytesRead)
  readBytes n

/-! ## Traits -/

section Traits

variable (host : HostOrder)

def deserializeInteger (n : ℕ) : PassProgram (BitVec (8 * n)) := do
  let bytes ← readAligned n n
  return host.ntoh (host.words.ofObjectBytes bytes.1)

def deserializeDouble : PassProgram (BitVec (8 * 8)) := do
  let bytes ← readAligned 8 8
  return host.ntohDouble (host.words.ofObjectBytes bytes.1)

def deserializeBool : PassProgram Bool := do
  let cVal ← deserializeInteger host 1
  return cVal == OSVR_TRUE

def deserializeEnum (enum integer : IntegerType) : PassProgram enum.Value := do
  let intVal ← deserializeInteger host integer.width.bytes
  return integer.cast enum intVal

def deserializeString : PassProgram (List UInt8) := do
  let len ← deserializeInteger host 4
  let iter ← readBytes len.toNat
  let bytes ← copy iter len.toNat
  return bytes.1

/-- It takes whatever the reader has left. -/
def deserializeStringOnly : PassProgram (List UInt8) := do
  let pass ← get
  let len := pass.reader.bytesRemaining
  let iter ← readBytes len
  let bytes ← copy iter len
  return bytes.1

def deserializeDataBuffer (length alignment : ℕ) : PassProgram (List.Vector UInt8 length) := do
  let iter ← readBytesAligned length alignment
  copy iter length

/-- Whether a vector gets memory for a number of elements, at each point of a pass. -/
abbrev Memory := ReadingPass → ℕ → Bool

variable (memory : Memory)

def reserve (n : ℕ) : PassProgram PUnit := do
  if memory (← get) n then return .unit else throw .badAlloc

def deserializeVector {α : Type} (deserializeElt : PassProgram α) : PassProgram (List α) := do
  let n ← deserializeInteger host 4
  reserve memory n.toNat
  times deserializeElt n.toNat

mutual

def deserialize : (type : SerialType) → PassProgram type.Value
  | .integer type => deserializeInteger host type.width.bytes
  | .double => deserializeDouble host
  | .bool => deserializeBool host
  | .enumAsInteger enum integer => deserializeEnum host enum integer
  | .string => deserializeString host
  | .vector element => deserializeVector host memory (deserialize element)
  | .struct fields => deserializeFields fields
  | .dataBuffer length alignment => deserializeDataBuffer length alignment

def deserializeFields : (fields : SerialFields) → PassProgram fields.Values
  | .nil => pure PUnit.unit
  | .cons field rest => do
      let val ← deserialize field
      let vals ← deserializeFields rest
      return (val, vals)

end

end Traits

/-! ## Any order of reads -/

/-- What can be asked of a reader. -/
inductive Request
  | read (n : ℕ)
  | readBytes (n : ℕ)
  | readAligned (n alignment : ℕ)
  | readBytesAligned (n alignment : ℕ)
  | skipPadding (bytes : ℕ)
  | deserialize (type : SerialType)
  | deserializeStringOnly

/-- What a request returns; who asks for an iterator copies the bytes it is valid for. -/
inductive Reply
  | bytes (bytes : List UInt8)
  | skipped
  | value (type : SerialType) (value : type.Value)

def perform (host : HostOrder) (memory : Memory) : Request → PassProgram Reply
  | .read n => do return .bytes (← read n).1
  | .readBytes n => do
      let iter ← readBytes n
      return .bytes (← copy iter n).1
  | .readAligned n alignment => do return .bytes (← readAligned n alignment).1
  | .readBytesAligned n alignment => do
      let iter ← readBytesAligned n alignment
      return .bytes (← copy iter n).1
  | .skipPadding bytes => do
      skipPadding bytes
      return .skipped
  | .deserialize type => do return .value type (← deserialize host memory type)
  | .deserializeStringOnly => do return .bytes (← deserializeStringOnly)

end ReadingPass

/-- The bytes of an access are those of the buffer, from its start on. -/
structure Access.InRange (access : Access) (contents : List UInt8) : Prop where
  within : access.start + access.bytes.length ≤ contents.length
  bytes_eq : access.bytes = (contents.drop access.start).take access.bytes.length

namespace ReadingPass

open Program

/-! ## What a read may do -/

/-- The read iterator is in the buffer, or at its end. -/
def Within (pass : ReadingPass) : Prop := pass.reader.position ≤ pass.reader.contents.length

/-- A later moment of a pass that is within its buffer: the iterator has moved on, but
not past the end, and what was copied meanwhile lies between. -/
structure Extends (before after : ReadingPass) : Prop where
  contents : after.reader.contents = before.reader.contents
  position : before.reader.position ≤ after.reader.position
  within : after.Within
  accesses : ∃ added, after.accesses = before.accesses ++ added ∧ ∀ access ∈ added,
    access.InRange before.reader.contents ∧ before.reader.position ≤ access.start ∧
      access.start + access.bytes.length ≤ after.reader.position

namespace Extends

variable {before middle after : ReadingPass}

theorem refl (h : before.Within) : before.Extends before :=
  ⟨rfl, le_refl _, h, [], (List.append_nil _).symm, fun _ hmem => absurd hmem List.not_mem_nil⟩

theorem trans (h : before.Extends middle) (h' : middle.Extends after) : before.Extends after where
  contents := h'.contents.trans h.contents
  position := le_trans h.position h'.position
  within := h'.within
  accesses := by
    have ⟨added, hmiddle, hadded⟩ := h.accesses
    have ⟨more, hafter, hmore⟩ := h'.accesses
    refine ⟨added ++ more, by rw [hafter, hmiddle, List.append_assoc], ?_⟩
    intro access hmem
    rcases List.mem_append.mp hmem with hmem | hmem
    · have ⟨hrange, hstart, hend⟩ := hadded access hmem
      exact ⟨hrange, hstart, le_trans hend h'.position⟩
    · have ⟨hrange, hstart, hend⟩ := hmore access hmem
      exact ⟨h.contents ▸ hrange, le_trans h.position hstart, hend⟩

end Extends

section Sound

variable (memory : Memory)

/-- Why a run may end early: where the reader of the same name throws, or for memory. -/
def Fails {α : Type} (reading : BufferReading α) (before after : ReadingPass) :
    Abort ReadException → Prop
  | .thrown (.runtimeError error) => reading before.reader = .error error
  | .thrown .badAlloc => ∃ n, memory after n = false
  | .undefined | .outOfFuel => False

/-- What a run gives: the value of the reader of the same name, with at least so many bytes
consumed, or a reason to end early. -/
def Answers {α : Type} (least : ℕ) (reading : BufferReading α) (before : ReadingPass) :
    Except (Abort ReadException) α × ReadingPass → Prop
  | (.ok value, after) =>
      reading before.reader = .ok (value, after.reader) ∧
        before.reader.position + least ≤ after.reader.position
  | (.error reason, after) => Fails memory reading before after reason

/-- From anywhere in a buffer, a program stays within it and answers like a reader. -/
def Sound {α : Type} (least : ℕ) (program : PassProgram α) (reading : BufferReading α) : Prop :=
  ∀ pass : ReadingPass, pass.Within → pass.Extends (program.run pass).2 ∧
    Answers memory least reading pass (program.run pass)

variable {memory} {α β : Type} {least more : ℕ} {program : PassProgram α}
    {reading : BufferReading α}

namespace Fails

variable {before middle after : ReadingPass} {reason : Abort ReadException}

/-- The rest is not reached. -/
theorem bind (h : Fails memory reading before after reason) (rest : α → BufferReading β) :
    Fails memory (reading >>= rest) before after reason := by
  match reason, h with
  | .thrown (.runtimeError _), hread => exact Reading.bind_error hread
  | .thrown .badAlloc, hmemory => exact hmemory

/-- The rest has failed. -/
theorem of_eq {whole : BufferReading α} (h : Fails memory reading middle after reason)
    (hwhole : whole before.reader = reading middle.reader) :
    Fails memory whole before after reason := by
  match reason, h with
  | .thrown (.runtimeError _), hread => exact hwhole.trans hread
  | .thrown .badAlloc, hmemory => exact hmemory

theorem thrown (h : Fails memory reading before after reason) :
    ∃ exception, reason = .thrown exception := by
  match reason, h with
  | .thrown exception, _ => exact ⟨exception, rfl⟩

end Fails

namespace Sound

theorem pure (value : α) : Sound memory 0 (Pure.pure value) (Pure.pure value) :=
  fun _ hpass => ⟨.refl hpass, rfl, le_refl _⟩

theorem mono (h : Sound memory more program reading) (hle : least ≤ more) :
    Sound memory least program reading := by
  intro pass hpass
  have ⟨hextends, hanswers⟩ := h pass hpass
  apply And.intro hextends
  rcases hrun : program.run pass with ⟨reason | value, after⟩
  · rw [hrun] at hanswers
    exact hanswers
  · rw [hrun] at hanswers
    exact ⟨hanswers.1, by have := hanswers.2; omega⟩

/-- The second part starts where the first one stopped, in the same buffer. -/
theorem bind {next : α → PassProgram β} {rest : α → BufferReading β}
    (h : Sound memory least program reading)
    (hnext : ∀ value, Sound memory more (next value) (rest value)) :
    Sound memory (least + more) (program >>= next) (reading >>= rest) := by
  intro pass hpass
  have ⟨hextends, hanswers⟩ := h pass hpass
  rcases hrun : program.run pass with ⟨reason | value, middle⟩
  · rw [run_bind_of_error hrun]
    rw [hrun] at hextends hanswers
    apply And.intro hextends
    exact hanswers.bind rest
  · rw [run_bind_of_ok hrun]
    rw [hrun] at hextends hanswers
    have ⟨hextends', hanswers'⟩ := hnext value middle hextends.within
    apply And.intro (hextends.trans hextends')
    have hreading : (reading >>= rest) pass.reader = rest value middle.reader :=
      Reading.bind_ok hanswers.1
    rcases hrun' : (next value).run middle with ⟨reason | result, after⟩
    · rw [hrun'] at hanswers'
      exact hanswers'.of_eq hreading
    · rw [hrun'] at hanswers'
      apply And.intro (hreading.trans hanswers'.1)
      have hfirst := hanswers.2
      have hsecond := hanswers'.2
      omega

theorem map (h : Sound memory least program reading) (f : α → β) :
    Sound memory least (do return f (← program)) (do return f (← reading)) :=
  h.bind fun value => pure (f value)

/-- Both sides may consult the reader. -/
theorem of_reader {program : BufferReader → PassProgram α}
    {reading : BufferReader → BufferReading α}
    (h : ∀ reader, Sound memory least (program reader) (reading reader)) :
    Sound memory least (do let pass ← get; program pass.reader)
      (fun reader => reading reader reader) :=
  fun pass hpass => h pass.reader pass hpass

theorem times (h : Sound memory least program reading) (count : ℕ) :
    Sound memory (count * least) (Program.times program count) (Reading.times reading count) := by
  induction count with
  | zero => exact (pure []).mono (by omega)
  | succ count ih =>
      have hall := h.bind fun value => ih.map (value :: ·)
      exact hall.mono (by rw [Nat.succ_mul]; omega)

end Sound
end Sound

/-! ## The reader -/

section Reader

variable {pass : ReadingPass} {n : ℕ}

/-- The pass after the next `n` bytes were copied. -/
def afterCopy (pass : ReadingPass) (n : ℕ) (h : ¬ pass.reader.bytesRemaining < n) :
    ReadingPass where
  reader := (pass.reader.advance n h).2
  accesses := pass.accesses ++ [⟨pass.reader.position, (pass.reader.advance n h).1.1⟩]

/-- What remains covers `n` bytes, so that the iterator does not pass the end. -/
theorem position_add_le (hpass : pass.Within) (h : ¬ pass.reader.bytesRemaining < n) :
    pass.reader.position + n ≤ pass.reader.contents.length := by
  have hwithin : pass.reader.position ≤ pass.reader.contents.length := hpass
  simp only [BufferReader.bytesRemaining] at h
  omega

theorem extends_moved (hpass : pass.Within) (h : ¬ pass.reader.bytesRemaining < n) :
    pass.Extends { pass with reader := (pass.reader.advance n h).2 } where
  contents := rfl
  position := Nat.le_add_right _ _
  within := position_add_le hpass h
  accesses := ⟨[], (List.append_nil _).symm, fun _ hmem => absurd hmem List.not_mem_nil⟩

theorem extends_afterCopy (hpass : pass.Within) (h : ¬ pass.reader.bytesRemaining < n) :
    pass.Extends (pass.afterCopy n h) where
  contents := rfl
  position := Nat.le_add_right _ _
  within := position_add_le hpass h
  accesses := by
    refine ⟨[⟨pass.reader.position, (pass.reader.advance n h).1.1⟩], rfl, ?_⟩
    intro access hmem
    obtain rfl := List.mem_singleton.mp hmem
    have hlength : (pass.reader.advance n h).1.1.length = n := (pass.reader.advance n h).1.2
    have hend := position_add_le hpass h
    refine ⟨⟨?_, ?_⟩, le_refl _, ?_⟩
    · show pass.reader.position + (pass.reader.advance n h).1.1.length ≤ _
      rw [hlength]
      exact hend
    · show (pass.reader.advance n h).1.1 =
        (pass.reader.contents.drop pass.reader.position).take (pass.reader.advance n h).1.1.length
      rw [hlength]
      rfl
    · show pass.reader.position + (pass.reader.advance n h).1.1.length ≤ pass.reader.position + n
      rw [hlength]

theorem run_throwRuntimeError {α : Type} (what : String) :
    (throwRuntimeError what : PassProgram α).run pass =
      (.error (.thrown (.runtimeError ⟨what⟩)), pass) := rfl

theorem run_copy {iter : ℕ} (h : iter + n ≤ pass.reader.contents.length) :
    (copy iter n).run pass = (.ok (bytesAt pass.reader.contents iter n h),
      { pass with
        accesses := pass.accesses ++ [⟨iter, (bytesAt pass.reader.contents iter n h).1⟩] }) := by
  rw [copy, run_bind_of_ok (run_get pass), dif_pos h]
  rfl

theorem run_read (hpass : pass.Within) (h : ¬ pass.reader.bytesRemaining < n) :
    (read n).run pass = (.ok (pass.reader.advance n h).1, pass.afterCopy n h) := by
  rw [read, run_bind_of_ok (run_get pass), if_neg h,
    run_bind_of_ok (run_copy (position_add_le hpass h))]
  rfl

theorem run_readBytes (h : ¬ pass.reader.bytesRemaining < n) :
    (readBytes n).run pass =
      (.ok pass.reader.position, { pass with reader := (pass.reader.advance n h).2 }) := by
  rw [readBytes, run_bind_of_ok (run_get pass), if_neg h]
  rfl

/-- The iterator is still valid after it was moved from. -/
theorem run_readBytes_copy (hpass : pass.Within) (h : ¬ pass.reader.bytesRemaining < n) :
    (do copy (← readBytes n) n : PassProgram (List.Vector UInt8 n)).run pass =
      (.ok (pass.reader.advance n h).1, pass.afterCopy n h) := by
  let moved : ReadingPass := { pass with reader := (pass.reader.advance n h).2 }
  have hvalid : pass.reader.position + n ≤ moved.reader.contents.length := position_add_le hpass h
  rw [run_bind_of_ok (run_readBytes h)]
  exact run_copy hvalid

variable {memory : Memory}

theorem sound_read (n : ℕ) : Sound memory n (read n) (BufferReader.read n) := by
  intro pass hpass
  by_cases h : pass.reader.bytesRemaining < n
  · rw [read, run_bind_of_ok (run_get pass), if_pos h, run_throwRuntimeError]
    exact ⟨.refl hpass, dif_pos h⟩
  · rw [run_read hpass h]
    exact ⟨extends_afterCopy hpass h, dif_neg h, le_refl _⟩

theorem sound_readBytes (n : ℕ) :
    Sound memory n (do copy (← readBytes n) n) (BufferReader.readBytes n) := by
  intro pass hpass
  by_cases h : pass.reader.bytesRemaining < n
  · rw [run_bind_of_error (by rw [readBytes, run_bind_of_ok (run_get pass), if_pos h,
      run_throwRuntimeError])]
    exact ⟨.refl hpass, dif_pos h⟩
  · rw [run_readBytes_copy hpass h]
    exact ⟨extends_afterCopy hpass h, dif_neg h, le_refl _⟩

theorem sound_skipPadding (bytes : ℕ) :
    Sound memory bytes (skipPadding bytes) (BufferReader.skipPadding bytes) := by
  intro pass hpass
  by_cases hbytes : bytes = 0
  · rw [skipPadding, if_pos hbytes]
    exact ⟨.refl hpass, if_pos hbytes, by rw [hbytes]; exact le_refl _⟩
  · rw [skipPadding, if_neg hbytes, run_bind_of_ok (run_get pass)]
    by_cases h : pass.reader.bytesRemaining < bytes
    · rw [if_pos h, run_throwRuntimeError]
      exact ⟨.refl hpass, (if_neg hbytes).trans (dif_pos h)⟩
    · rw [if_neg h]
      exact ⟨extends_moved hpass h, (if_neg hbytes).trans (dif_neg h), le_refl _⟩

theorem sound_readAligned (n alignment : ℕ) :
    Sound memory n (readAligned n alignment) (BufferReader.readAligned n alignment) :=
  .of_reader fun reader =>
    ((sound_skipPadding (computeAlignmentPadding alignment reader.bytesRead)).bind
      fun _ => sound_read n).mono (Nat.le_add_left _ _)

theorem sound_readBytesAligned (n alignment : ℕ) :
    Sound memory n (do copy (← readBytesAligned n alignment) n)
      (BufferReader.readBytesAligned n alignment) := by
  rw [readBytesAligned]
  simp only [bind_bind]
  exact .of_reader fun reader =>
    ((sound_skipPadding (computeAlignmentPadding alignment reader.bytesRead)).bind
      fun _ => sound_readBytes n).mono (Nat.le_add_left _ _)

end Reader

end ReadingPass

mutual

/-- The least number of bytes that a value of a type is read from, apart from padding. -/
def SerialType.leastBytes : SerialType → ℕ
  | .integer type => type.width.bytes
  | .double => 8
  | .bool => 1
  | .enumAsInteger _ integer => integer.width.bytes
  | .string => 4
  | .vector _ => 4
  | .struct fields => fields.leastBytes
  | .dataBuffer length _ => length

def SerialFields.leastBytes : SerialFields → ℕ
  | .nil => 0
  | .cons field rest => field.leastBytes + rest.leastBytes

end

/-- Arithmetic types, strings and vectors. -/
def SerialType.IsDefault : SerialType → Prop
  | .integer _ | .double | .bool | .string | .vector _ => True
  | .enumAsInteger _ _ | .struct _ | .dataBuffer _ _ => False

/-- None of them is read from nothing. -/
theorem SerialType.IsDefault.one_le_leastBytes {type : SerialType} (h : type.IsDefault) :
    1 ≤ type.leastBytes := by
  cases type with
  | integer type =>
      show 1 ≤ type.width.bytes
      cases type.width <;> decide
  | double | bool => decide
  | string | vector _ => exact Nat.le_of_ble_eq_true rfl
  | enumAsInteger _ _ | struct _ | dataBuffer _ _ => exact h.elim

namespace ReadingPass

open Program

/-! ## Traits -/

section Traits

variable (host : HostOrder) {memory : Memory}

theorem sound_deserializeInteger (n : ℕ) :
    Sound memory n (deserializeInteger host n) (Common.deserializeInteger host n) :=
  (sound_readAligned n n).map _

theorem sound_deserializeString :
    Sound memory 4 (deserializeString host) (Common.deserializeString host) := by
  have h := (sound_deserializeInteger host 4).bind fun len =>
    ((sound_readBytes len.toNat : Sound memory _ _ _).map (·.1)).mono (Nat.zero_le _)
  simp only [bind_bind] at h
  exact h

theorem sound_deserializeStringOnly :
    Sound memory 0 deserializeStringOnly Common.deserializeStringOnly := by
  have h := fun reader : BufferReader =>
    ((sound_readBytes reader.bytesRemaining : Sound memory _ _ _).map (·.1)).mono (Nat.zero_le _)
  simp only [bind_bind] at h
  exact .of_reader h

theorem run_reserve_of_true {pass : ReadingPass} {n : ℕ} (h : memory pass n = true) :
    (reserve memory n).run pass = (.ok .unit, pass) := by
  rw [reserve, run_bind_of_ok (run_get pass), if_pos h]
  rfl

theorem run_reserve_of_false {pass : ReadingPass} {n : ℕ} (h : memory pass n = false) :
    (reserve memory n).run pass = (.error (.thrown .badAlloc), pass) := by
  rw [reserve, run_bind_of_ok (run_get pass), if_neg (by simp [h])]
  rfl

/-- Memory that is granted changes nothing; without it nothing more is read. -/
theorem sound_reserve_bind {α : Type} {least : ℕ} {program : PassProgram α}
    {reading : BufferReading α} (n : ℕ) (h : Sound memory least program reading) :
    Sound memory least (do reserve memory n; program) reading := by
  intro pass hpass
  cases hmemory : memory pass n with
  | true =>
      rw [run_bind_of_ok (run_reserve_of_true hmemory)]
      exact h pass hpass
  | false =>
      rw [run_bind_of_error (run_reserve_of_false hmemory)]
      exact ⟨.refl hpass, n, hmemory⟩

theorem sound_deserializeVector {α : Type} {least : ℕ} {deserializeElt : PassProgram α}
    {readElt : BufferReading α} (h : Sound memory least deserializeElt readElt) :
    Sound memory 4 (deserializeVector host memory deserializeElt)
      (Common.deserializeVector host readElt) :=
  (sound_deserializeInteger host 4).bind fun n =>
    sound_reserve_bind n.toNat ((h.times n.toNat).mono (Nat.zero_le _))

mutual

/-- The traits of every supported type stay within the buffer, by induction on the type. -/
theorem sound_deserialize : (type : SerialType) →
    Sound memory type.leastBytes (deserialize host memory type) (type.deserialize host)
  | .integer type => sound_deserializeInteger host type.width.bytes
  | .double => (sound_readAligned 8 8).map _
  | .bool => (sound_deserializeInteger host 1).map _
  | .enumAsInteger _ integer => (sound_deserializeInteger host integer.width.bytes).map _
  | .string => sound_deserializeString host
  | .vector element => sound_deserializeVector host (sound_deserialize element)
  | .struct fields => sound_deserializeFields fields
  | .dataBuffer length alignment => sound_readBytesAligned length alignment

theorem sound_deserializeFields : (fields : SerialFields) →
    Sound memory fields.leastBytes (deserializeFields host memory fields) (fields.deserialize host)
  | .nil => .pure _
  | .cons field rest =>
      (sound_deserialize field).bind fun val => (sound_deserializeFields rest).map (val, ·)

end

/-- A vector that declares more elements than there are bytes for throws: at once for want of
memory, or in an element, after as many as the bytes have sufficed for. -/
theorem run_deserializeVector {α : Type} {least : ℕ} {deserializeElt : PassProgram α}
    {readElt : BufferReading α} (h : Sound memory least deserializeElt readElt)
    {pass declared : ReadingPass} {n : BitVec (8 * 4)} (hpass : pass.Within)
    (hdeclared : (deserializeInteger host 4).run pass = (.ok n, declared))
    (hlong : declared.reader.bytesRemaining < n.toNat * least) :
    ∃ exception after,
      (deserializeVector host memory deserializeElt).run pass =
        (.error (.thrown exception), after) ∧
      (exception = .badAlloc ∧ after = declared ∨
        ∃ done values middle, done * least ≤ declared.reader.bytesRemaining ∧
          (times deserializeElt done).run declared = (.ok values, middle) ∧
          deserializeElt.run middle = (.error (.thrown exception), after)) := by
  have hwithin : declared.Within := by
    have hextends := (sound_deserializeInteger host 4 pass hpass : _ ∧ Answers memory 4 _ _ _).1
    rw [hdeclared] at hextends
    exact hextends.within
  have hconsumed {count : ℕ} {values : List α} {middle : ReadingPass}
      (hrun : (times deserializeElt count).run declared = (.ok values, middle)) :
      count * least ≤ declared.reader.bytesRemaining := by
    have ⟨hextends, hanswers⟩ := h.times count declared hwithin
    rw [hrun] at hextends hanswers
    have hposition := hanswers.2
    have hend : middle.reader.position ≤ middle.reader.contents.length := hextends.within
    rw [hextends.contents] at hend
    simp only [BufferReader.bytesRemaining]
    omega
  rw [deserializeVector, run_bind_of_ok hdeclared]
  cases hmemory : memory declared n.toNat with
  | false =>
      rw [run_bind_of_error (run_reserve_of_false hmemory)]
      exact ⟨.badAlloc, declared, rfl, .inl ⟨rfl, rfl⟩⟩
  | true =>
      rw [run_bind_of_ok (run_reserve_of_true hmemory)]
      rcases hrun : (times deserializeElt n.toNat).run declared with ⟨reason | values, after⟩
      · have hfails := (h.times n.toNat declared hwithin).2
        rw [hrun] at hfails
        have ⟨exception, hreason⟩ := hfails.thrown
        have ⟨done, values, middle, _, hvalues, hended⟩ := ended_of_times hrun
        rw [hreason] at hended ⊢
        exact ⟨exception, after, rfl, .inr ⟨done, values, middle, hconsumed hvalues,
          hvalues, hended⟩⟩
      · have := hconsumed hrun
        omega

end Traits

/-! ## Any order of reads -/

section Requests

variable (host : HostOrder) {memory : Memory}

/-- The padding and the bytes that a request takes, where it asks for bytes. -/
def Request.extent (reader : BufferReader) : Request → ℕ × ℕ
  | .read n | .readBytes n => (0, n)
  | .readAligned n alignment | .readBytesAligned n alignment =>
      (computeAlignmentPadding alignment reader.bytesRead, n)
  | .skipPadding bytes => (bytes, 0)
  | .deserializeStringOnly => (0, reader.bytesRemaining)
  | .deserialize _ => (0, 0)

/-- A reply is what the buffer has at the place of the request. -/
def Exact (request : Request) (before after : BufferReader) : Reply → Prop
  | .bytes bytes =>
      let (padding, n) := request.extent before
      bytes.length = n ∧ bytes = (before.contents.drop (before.position + padding)).take n ∧
        after.position = before.position + padding + n
  | .skipped => after.position = before.position + (request.extent before).1
  | .value type value => type.deserialize host before = .ok (value, after)

variable {reader after : BufferReader} {n : ℕ}

/-- The bytes at a place, with the position behind them. -/
theorem eq_of_advance {bytes : List.Vector UInt8 n} {error : RuntimeError}
    (h : (if h : reader.bytesRemaining < n then .error error else .ok (reader.advance n h)) =
      (Except.ok (bytes, after) : Except RuntimeError _)) :
    bytes.1 = (reader.contents.drop reader.position).take n ∧
      after = { reader with position := reader.position + n } := by
  split at h
  next => cases h
  next =>
    cases h
    exact ⟨rfl, rfl⟩

theorem eq_of_skipPadding {bytes : ℕ}
    (h : BufferReader.skipPadding bytes reader = .ok (.unit, after)) :
    after = { reader with position := reader.position + bytes } := by
  unfold BufferReader.skipPadding at h
  split at h
  next hzero =>
    cases h
    rw [hzero, Nat.add_zero]
  next =>
    split at h
    next => cases h
    next =>
      cases h
      rfl

/-- After padding, the same from further on. -/
theorem eq_of_aligned {padding : ℕ} {bytes : List.Vector UInt8 n}
    {next : BufferReading (List.Vector UInt8 n)} {what : String}
    (hnext : next = fun (reader : BufferReader) =>
      if h : reader.bytesRemaining < n then .error ⟨what⟩ else .ok (reader.advance n h))
    (h : (do BufferReader.skipPadding padding; next : BufferReading (List.Vector UInt8 n)) reader =
      .ok (bytes, after)) :
    bytes.1 = (reader.contents.drop (reader.position + padding)).take n ∧
      after.position = reader.position + padding + n := by
  have ⟨_, middle, hskip, hread⟩ := Reading.of_bind_ok h
  rw [hnext] at hread
  have ⟨hbytes, hafter⟩ := eq_of_advance hread
  rw [hbytes, hafter, eq_of_skipPadding hskip]
  exact ⟨rfl, rfl⟩

/-- What a request gives: its exact reply, or an exception. -/
def Serves (request : Request) (before : ReadingPass) :
    Except (Abort ReadException) Reply × ReadingPass → Prop
  | (.ok reply, after) => Exact host request before.reader after.reader reply
  | (.error reason, _) => ∃ exception, reason = .thrown exception

theorem Sound.serves {α : Type} {least : ℕ} {program : PassProgram α} {reading : BufferReading α}
    (request : Request) (reply : α → Reply) (h : Sound memory least program reading)
    {pass : ReadingPass} (hpass : pass.Within)
    (hexact : ∀ value reader after, reading reader = .ok (value, after) →
      Exact host request reader after (reply value)) :
    pass.Extends ((do return reply (← program) : PassProgram Reply).run pass).2 ∧
      Serves host request pass ((do return reply (← program) : PassProgram Reply).run pass) := by
  have ⟨hextends, hanswers⟩ := h pass hpass
  rcases hrun : program.run pass with ⟨reason | value, after⟩
  · rw [run_bind_of_error hrun]
    rw [hrun] at hextends hanswers
    exact ⟨hextends, hanswers.thrown⟩
  · rw [run_bind_of_ok hrun]
    rw [hrun] at hextends hanswers
    exact ⟨hextends, hexact value pass.reader after.reader hanswers.1⟩

theorem perform_serves (request : Request) {pass : ReadingPass} (hpass : pass.Within) :
    pass.Extends ((perform host memory request).run pass).2 ∧
      Serves host request pass ((perform host memory request).run pass) := by
  cases request with
  | read n =>
      have hsound : Sound memory n (read n) (BufferReader.read n) := sound_read n
      apply hsound.serves host _ (fun bytes => .bytes bytes.1) hpass
      intro bytes reader after h
      have ⟨hbytes, hafter⟩ := eq_of_advance h
      exact ⟨bytes.2, hbytes, by rw [hafter]; rfl⟩
  | readBytes n =>
      have hsound : Sound memory n _ (BufferReader.readBytes n) := sound_readBytes n
      rw [perform, ← bind_bind]
      apply hsound.serves host _ (fun bytes => .bytes bytes.1) hpass
      intro bytes reader after h
      have ⟨hbytes, hafter⟩ := eq_of_advance h
      exact ⟨bytes.2, hbytes, by rw [hafter]; rfl⟩
  | readAligned n alignment =>
      have hsound : Sound memory n _ (BufferReader.readAligned n alignment) :=
        sound_readAligned n alignment
      apply hsound.serves host _ (fun bytes => .bytes bytes.1) hpass
      intro bytes reader after h
      exact ⟨bytes.2, eq_of_aligned rfl h⟩
  | readBytesAligned n alignment =>
      have hsound : Sound memory n _ (BufferReader.readBytesAligned n alignment) :=
        sound_readBytesAligned n alignment
      rw [perform, ← bind_bind]
      apply hsound.serves host _ (fun bytes => .bytes bytes.1) hpass
      intro bytes reader after h
      exact ⟨bytes.2, eq_of_aligned rfl h⟩
  | skipPadding bytes =>
      have hsound : Sound memory bytes _ (BufferReader.skipPadding bytes) := sound_skipPadding bytes
      apply hsound.serves host _ (fun _ => .skipped) hpass
      intro _ reader after h
      show after.position = reader.position + bytes
      rw [eq_of_skipPadding h]
  | deserialize type =>
      have hsound : Sound memory _ _ (type.deserialize host) := sound_deserialize host type
      exact hsound.serves host _ (.value type) hpass fun _ _ _ h => h
  | deserializeStringOnly =>
      have hsound : Sound memory 0 deserializeStringOnly Common.deserializeStringOnly :=
        sound_deserializeStringOnly
      apply hsound.serves host _ .bytes hpass
      intro bytes reader after h
      have ⟨value, middle, hvalue, hreturn⟩ := Reading.of_bind_ok h
      cases hreturn
      have ⟨hbytes, hafter⟩ := eq_of_advance hvalue
      exact ⟨value.2, hbytes, by rw [hafter]; rfl⟩

theorem within_start (buf : Buffer) : (start buf).Within := Nat.zero_le _

/-- However often requests are refused, a pass goes on within its buffer. -/
theorem extends_afterAttempts (requests : List Request) {pass : ReadingPass} (hpass : pass.Within) :
    pass.Extends (afterAttempts (perform host memory) requests pass) := by
  induction requests generalizing pass with
  | nil => exact .refl hpass
  | cons request requests ih =>
      have hextends : pass.Extends ((perform host memory request).run pass).2 :=
        (perform_serves host request hpass).1
      exact hextends.trans (ih hextends.within)

/-- After any requests on any bytes, refused ones included, the position is in the buffer or
at its end and only bytes of the buffer were copied. The next request throws or replies with
the bytes at its place; and a vector that declares more elements than the bytes left suffice
for throws, after no more elements than they do suffice for. -/
theorem reader_bounds (memory : Memory) (buf : Buffer) (requests : List Request) :
    let pass := afterAttempts (perform host memory) requests (start buf)
    (pass.reader.contents = buf ∧ pass.reader.position ≤ buf.length ∧
      ∀ access ∈ pass.accesses, access.InRange buf) ∧
    (∀ request, Serves host request pass ((perform host memory request).run pass)) ∧
    ∀ element : SerialType, element.IsDefault → 1 ≤ element.leastBytes ∧
      ∀ (n : BitVec (8 * 4)) (declared : ReadingPass),
        (deserializeInteger host 4).run pass = (.ok n, declared) →
        declared.reader.bytesRemaining < n.toNat * element.leastBytes →
        ∃ exception after,
          (deserialize host memory (.vector element)).run pass =
            (.error (.thrown exception), after) ∧
          (exception = .badAlloc ∧ after = declared ∨
            ∃ done values middle, done * element.leastBytes ≤ declared.reader.bytesRemaining ∧
              (times (deserialize host memory element) done).run declared = (.ok values, middle) ∧
              (deserialize host memory element).run middle =
                (.error (.thrown exception), after)) := by
  intro pass
  have hextends : (start buf).Extends pass := extends_afterAttempts host requests (within_start buf)
  have hcontents : pass.reader.contents = buf := hextends.contents
  have hposition : pass.reader.position ≤ pass.reader.contents.length := hextends.within
  refine ⟨⟨hcontents, hcontents ▸ hposition, ?_⟩, ?_, ?_⟩
  · intro access hmem
    have ⟨added, haccesses, hadded⟩ := hextends.accesses
    rw [haccesses] at hmem
    exact (hadded access hmem).1
  · intro request
    exact (perform_serves host request hextends.within).2
  · intro element helement
    apply And.intro helement.one_le_leastBytes
    intro n declared hdeclared hlong
    have hsound : Sound memory _ _ (element.deserialize host) := sound_deserialize host element
    exact run_deserializeVector host hsound hextends.within hdeclared hlong

/-- Four billion bytes are declared where one is left, behind a byte and padding. -/
theorem reader_bounds_vector :
    let pass : ReadingPass := ⟨⟨[1, 0, 0, 0, 255, 255, 255, 255, 7], 1⟩, [⟨0, [1]⟩]⟩
    ∃ exception after,
      (deserialize ⟨.bigEndian, false⟩ (fun _ _ => true)
        (.vector (.integer ⟨.one, false⟩))).run pass = (.error (.thrown exception), after) :=
  have ⟨exception, after, hrun, _⟩ := ((reader_bounds ⟨.bigEndian, false⟩ (fun _ _ => true)
    [1, 0, 0, 0, 255, 255, 255, 255, 7] [.read 1]).2.2 (.integer ⟨.one, false⟩) trivial).2
    (BitVec.ofNat 32 (2 ^ 32 - 1))
    ⟨⟨[1, 0, 0, 0, 255, 255, 255, 255, 7], 8⟩, [⟨0, [1]⟩, ⟨4, [255, 255, 255, 255]⟩]⟩
    (by decide) (by decide)
  ⟨exception, after, hrun⟩

end Requests

end ReadingPass
end OSVR.Common
