/-
# Message buffers

A buffer is appended to, with padding computed from its size; a reader makes one
pass over a finished buffer and skips the padding computed from its position.
-/

import Mathlib.Data.Vector.Defs
import OsvrCore.Math.CursorCodec

set_option autoImplicit false

namespace OSVR.Common

open Math

/-- `std::runtime_error`, with its text. -/
structure RuntimeError where
  what : String
  deriving DecidableEq, Repr

/-- The contents of a `Buffer`. -/
abbrev Buffer := List UInt8

/-- `BufferReader`: a buffer with the position of the read iterator. -/
abbrev BufferReader := Cursor UInt8

/-- Code that takes a `BufferReader`. -/
abbrev BufferReading (α : Type) := Reading UInt8 RuntimeError α

/-- Padding that aligns the next field; alignments 0 and 1 ask for none. -/
def computeAlignmentPadding (alignment currentSize : ℕ) : ℕ :=
  if 2 > alignment then 0
  else
    let leftover := currentSize % alignment
    if leftover = 0 then 0 else alignment - leftover

namespace Buffer

def append (buf : Buffer) (bytes : List UInt8) : Buffer := List.append buf bytes

def appendPadding (buf : Buffer) (bytes : ℕ) : Buffer :=
  if bytes = 0 then buf else List.append buf (List.replicate bytes 0)

/-- Append the bytes of a value or of an array after padding to the alignment. -/
def appendAligned (buf : Buffer) (bytes : List UInt8) (alignment : ℕ) : Buffer :=
  (buf.appendPadding (computeAlignmentPadding alignment buf.length)).append bytes

def startReading (buf : Buffer) : BufferReader := ⟨buf, 0⟩

end Buffer

namespace BufferReader

def bytesRead (reader : BufferReader) : ℕ := reader.position

def bytesRemaining (reader : BufferReader) : ℕ := reader.contents.length - reader.position

/-- The next `n` bytes, which the test before has found to exist. -/
def advance (reader : BufferReader) (n : ℕ) (h : ¬ reader.bytesRemaining < n) :
    List.Vector UInt8 n × BufferReader :=
  (⟨(reader.contents.drop reader.position).take n, by
      simp only [bytesRemaining] at h
      simp only [List.length_take, List.length_drop]
      omega⟩,
    { reader with position := reader.position + n })

/-- The object representation of a type of `n` bytes. -/
def read (n : ℕ) : BufferReading (List.Vector UInt8 n) := fun (reader : BufferReader) =>
  if h : reader.bytesRemaining < n then
    .error ⟨"Not enough data in the buffer to read this type!"⟩
  else .ok (reader.advance n h)

def readBytes (n : ℕ) : BufferReading (List.Vector UInt8 n) := fun (reader : BufferReader) =>
  if h : reader.bytesRemaining < n then
    .error ⟨"Not enough data in the buffer to read that many bytes!"⟩
  else .ok (reader.advance n h)

def skipPadding (bytes : ℕ) : BufferReading PUnit := fun (reader : BufferReader) =>
  if bytes = 0 then .ok (.unit, reader)
  else if h : reader.bytesRemaining < bytes then
    .error ⟨"Can't skip that many padding bytes, not that many bytes left!"⟩
  else .ok (.unit, (reader.advance bytes h).2)

def readAligned (n alignment : ℕ) :
    BufferReading (List.Vector UInt8 n) := fun (reader : BufferReader) =>
  (do skipPadding (computeAlignmentPadding alignment reader.bytesRead); read n :
    BufferReading (List.Vector UInt8 n)) reader

def readBytesAligned (n alignment : ℕ) :
    BufferReading (List.Vector UInt8 n) := fun (reader : BufferReader) =>
  (do skipPadding (computeAlignmentPadding alignment reader.bytesRead); readBytes n :
    BufferReading (List.Vector UInt8 n)) reader

end BufferReader

/-! ## Appending and reading back -/

namespace BufferReader

open Buffer

variable {n : ℕ}

/-- A reader in front of `n` bytes that were written. -/
theorem not_bytesRemaining_lt (before after : List UInt8) (bytes : List.Vector UInt8 n) :
    ¬ bytesRemaining ⟨before ++ bytes.1 ++ after, before.length⟩ < n := by
  have hbytes := bytes.2
  simp only [bytesRemaining, List.length_append]
  omega

theorem advance_written (before after : List UInt8) (bytes : List.Vector UInt8 n)
    (h : ¬ bytesRemaining ⟨before ++ bytes.1 ++ after, before.length⟩ < n) :
    advance ⟨before ++ bytes.1 ++ after, before.length⟩ n h =
      (bytes, ⟨before ++ bytes.1 ++ after, (before ++ bytes.1).length⟩) := by
  have hbytes : ((before ++ bytes.1 ++ after).drop before.length).take n = bytes.1 := by
    rw [List.append_assoc, List.drop_left, List.take_left' bytes.2]
  have hlength : (before ++ bytes.1).length = before.length + n := by
    rw [List.length_append, bytes.2]
  rw [advance, hlength]
  exact Prod.ext (Subtype.ext hbytes) rfl

theorem readsBack_read (bytes : List.Vector UInt8 n) :
    ReadsBack (append · bytes.1) (read n) bytes := by
  intro before
  refine ⟨bytes.1, rfl, ?_⟩
  intro after
  have h := not_bytesRemaining_lt before after bytes
  rw [read, dif_neg h, advance_written]

theorem readsBack_readBytes (bytes : List.Vector UInt8 n) :
    ReadsBack (append · bytes.1) (readBytes n) bytes := by
  intro before
  refine ⟨bytes.1, rfl, ?_⟩
  intro after
  have h := not_bytesRemaining_lt before after bytes
  rw [readBytes, dif_neg h, advance_written]

theorem readsBack_skipPadding (count : ℕ) :
    ReadsBack (appendPadding · count) (skipPadding count) .unit := by
  intro before
  by_cases hcount : count = 0
  · refine ⟨[], by simp [appendPadding, hcount], ?_⟩
    intro after
    simp [skipPadding, hcount]
  · let padding : List.Vector UInt8 count := ⟨List.replicate count 0, by simp⟩
    refine ⟨padding.1, by simp [appendPadding, hcount, padding], ?_⟩
    intro after
    have h := not_bytesRemaining_lt before after padding
    rw [skipPadding, if_neg hcount, dif_neg h, advance_written]

/-- Writer and reader pad alike, whatever was written before. -/
theorem readsBack_readAligned (bytes : List.Vector UInt8 n) (alignment : ℕ) :
    ReadsBack (appendAligned · bytes.1 alignment) (readAligned n alignment) bytes := by
  have h (position : ℕ) :=
    (readsBack_skipPadding (computeAlignmentPadding alignment position)).andThen
      (readsBack_read bytes)
  exact ReadsBack.at_position h

theorem readsBack_readBytesAligned (bytes : List.Vector UInt8 n) (alignment : ℕ) :
    ReadsBack (appendAligned · bytes.1 alignment) (readBytesAligned n alignment) bytes := by
  have h (position : ℕ) :=
    (readsBack_skipPadding (computeAlignmentPadding alignment position)).andThen
      (readsBack_readBytes bytes)
  exact ReadsBack.at_position h

end BufferReader
end OSVR.Common
