/-
# Matrix conventions

Flags say how a matrix is stored, which side of it vectors stand on, and what a projection
takes and gives. They are put together as the bits of a small set, of which there is one
less than there are flags.
-/

import Mathlib.Data.Nat.Notation

set_option autoImplicit false

namespace OSVR.Util

/-- `OSVR_MatrixConventions`. -/
abbrev MatrixConventions := BitVec 16

def OSVR_MATRIX_MASK_ROWMAJOR : MatrixConventions := 0x1
def OSVR_MATRIX_MASK_ROWVECTORS : MatrixConventions := 0x2
def OSVR_MATRIX_MASK_LHINPUT : MatrixConventions := 0x4
def OSVR_MATRIX_MASK_UNSIGNEDZ : MatrixConventions := 0x8

namespace MatrixConventions

/-- A flag bit is set. -/
def has (flags mask : MatrixConventions) : Bool := 0 != flags &&& mask

end MatrixConventions

def matrixNeedsTranspose (flags : MatrixConventions) : Bool :=
  let rowmaj := flags.has OSVR_MATRIX_MASK_ROWMAJOR
  let rowvec := flags.has OSVR_MATRIX_MASK_ROWVECTORS
  -- One alone implies a transpose, both together imply none.
  rowmaj ^^ rowvec

/-! ## Sets of bits -/

/-- `std::out_of_range`, as it is thrown by `std::bitset::set`. -/
structure OutOfRange where
  deriving DecidableEq

/-- `std::bitset::set`. -/
def bitsetSet {size : ℕ} (bits : BitVec size) (position : ℕ) : Except OutOfRange (BitVec size) :=
  if position < size then .ok (bits ||| BitVec.twoPow size position) else .error ⟨⟩

inductive CompactMatrixFlags
  | needsTranspose
  | leftHandInput
  | unsignedZ
  deriving DecidableEq

namespace CompactMatrixFlags

def index : CompactMatrixFlags → ℕ
  | needsTranspose => 0
  | leftHandInput => 1
  | unsignedZ => 2

def SIZEPLUSONE : ℕ := 3

end CompactMatrixFlags

namespace CompactMatrixConventions

def SIZE : ℕ := CompactMatrixFlags.SIZEPLUSONE - 1

end CompactMatrixConventions

structure CompactMatrixConventions where
  data : BitVec CompactMatrixConventions.SIZE
  deriving DecidableEq

namespace CompactMatrixConventions

def set (conventions : CompactMatrixConventions) (flag : CompactMatrixFlags) :
    Except OutOfRange CompactMatrixConventions :=
  (bitsetSet conventions.data flag.index).map CompactMatrixConventions.mk

/-- `set`, of a flag that is wanted. -/
def setIf (conventions : CompactMatrixConventions) (wanted : Bool) (flag : CompactMatrixFlags) :
    Except OutOfRange CompactMatrixConventions :=
  if wanted then conventions.set flag else .ok conventions

/-- The constructor from flags. -/
def ofFlags (flags : MatrixConventions) : Except OutOfRange CompactMatrixConventions := do
  let compact ← setIf ⟨0⟩ (matrixNeedsTranspose flags) .needsTranspose
  let compact ← compact.setIf (flags.has OSVR_MATRIX_MASK_LHINPUT) .leftHandInput
  compact.setIf (flags.has OSVR_MATRIX_MASK_UNSIGNEDZ) .unsignedZ

def getValue (conventions : CompactMatrixConventions) : ℕ := conventions.data.toNat

/-- `ComputeBits`. -/
def computeBits (flags : List CompactMatrixFlags) : ℕ :=
  flags.foldl (fun state flag => state ||| 1 <<< flag.index) 0

variable {flags : MatrixConventions}

/-- There is no bit for the last flag. -/
theorem ofFlags_of_unsignedZ (h : flags.has OSVR_MATRIX_MASK_UNSIGNEDZ = true) :
    ofFlags flags = .error ⟨⟩ := by
  rw [ofFlags, h]
  cases matrixNeedsTranspose flags <;> cases flags.has OSVR_MATRIX_MASK_LHINPUT <;> rfl

/-- Without the last flag, the value is made up of the others. -/
theorem ofFlags_of_signedZ (h : flags.has OSVR_MATRIX_MASK_UNSIGNEDZ = false) :
    ∃ compact, ofFlags flags = .ok compact ∧ compact.getValue =
      computeBits ((if matrixNeedsTranspose flags then [.needsTranspose] else []) ++
        if flags.has OSVR_MATRIX_MASK_LHINPUT then [.leftHandInput] else []) := by
  rw [ofFlags, h]
  cases matrixNeedsTranspose flags <;> cases flags.has OSVR_MATRIX_MASK_LHINPUT <;>
    exact ⟨_, rfl, rfl⟩

end CompactMatrixConventions

end OSVR.Util
