/-
# Object representations of fixed-width words

The bytes of a word of `n` bytes in the memory of a host of either byte order,
and words computed by rearranging these bytes.
-/

import Mathlib.Algebra.Group.Nat.Defs
import Mathlib.Logic.Function.Basic

set_option autoImplicit false

namespace OSVR.Math

inductive ByteOrder
  | littleEndian
  | bigEndian
  deriving DecidableEq, Repr

/-- The low `n` bytes of a number, lowest first. -/
def littleEndian : ℕ → ℕ → List UInt8
  | 0, _ => []
  | n + 1, value => UInt8.ofNat value :: littleEndian n (value / 256)

/-- The number with the given bytes, lowest first. -/
def ofLittleEndian : List UInt8 → ℕ
  | [] => 0
  | byte :: bytes => byte.toNat + 256 * ofLittleEndian bytes

@[simp] theorem length_littleEndian (n value : ℕ) : (littleEndian n value).length = n := by
  induction n generalizing value with
  | zero => rfl
  | succ n ih => simp [littleEndian, ih]

theorem ofLittleEndian_lt (bytes : List UInt8) : ofLittleEndian bytes < 256 ^ bytes.length := by
  induction bytes with
  | nil => simp [ofLittleEndian]
  | cons byte bytes ih =>
      have hbyte := byte.toNat_lt
      simp only [ofLittleEndian, List.length_cons, Nat.pow_succ]
      omega

theorem ofLittleEndian_littleEndian {n value : ℕ} (hvalue : value < 256 ^ n) :
    ofLittleEndian (littleEndian n value) = value := by
  induction n generalizing value with
  | zero =>
      simp only [Nat.pow_zero, Nat.lt_one_iff] at hvalue
      simp [littleEndian, ofLittleEndian, hvalue]
  | succ n ih =>
      rw [Nat.pow_succ] at hvalue
      have hlt : value / 256 < 256 ^ n := by omega
      have hrest := ih hlt
      simp only [littleEndian, ofLittleEndian, hrest, UInt8.toNat_ofNat']
      omega

theorem littleEndian_ofLittleEndian (bytes : List UInt8) :
    littleEndian bytes.length (ofLittleEndian bytes) = bytes := by
  induction bytes with
  | nil => rfl
  | cons byte bytes ih =>
      have hbyte := byte.toNat_lt
      have hquotient : (byte.toNat + 256 * ofLittleEndian bytes) / 256 = ofLittleEndian bytes := by
        omega
      have hfirst : UInt8.ofNat (byte.toNat + 256 * ofLittleEndian bytes) = byte := by
        apply UInt8.toNat.inj
        rw [UInt8.toNat_ofNat']
        omega
      simp only [List.length_cons, ofLittleEndian, littleEndian, hquotient, hfirst, ih]

/-! ## Words in memory -/

namespace ByteOrder

variable {n : ℕ} (order : ByteOrder)

/-- The bytes of a word, in the order of their addresses. -/
def objectBytes (word : BitVec (8 * n)) : List UInt8 :=
  match order with
  | .littleEndian => Math.littleEndian n word.toNat
  | .bigEndian => (Math.littleEndian n word.toNat).reverse

/-- The word with the given bytes. -/
def ofObjectBytes (bytes : List UInt8) : BitVec (8 * n) :=
  match order with
  | .littleEndian => BitVec.ofNat _ (ofLittleEndian bytes)
  | .bigEndian => BitVec.ofNat _ (ofLittleEndian bytes.reverse)

/-- The word with the bytes of another one, rearranged. -/
def rearrange (f : List UInt8 → List UInt8) (word : BitVec (8 * n)) : BitVec (8 * n) :=
  order.ofObjectBytes (f (order.objectBytes word))

@[simp] theorem length_objectBytes (word : BitVec (8 * n)) :
    (order.objectBytes word).length = n := by
  cases order <;> simp [objectBytes]

theorem pow_eq (n : ℕ) : 256 ^ n = 2 ^ (8 * n) := by
  rw [Nat.pow_mul]

@[simp] theorem ofObjectBytes_objectBytes (word : BitVec (8 * n)) :
    order.ofObjectBytes (order.objectBytes word) = word := by
  have hword : word.toNat < 256 ^ n := by
    rw [pow_eq]
    exact word.isLt
  cases order <;> simp [ofObjectBytes, objectBytes, ofLittleEndian_littleEndian hword]

theorem objectBytes_ofObjectBytes {bytes : List UInt8} (hlength : bytes.length = n) :
    order.objectBytes (order.ofObjectBytes bytes : BitVec (8 * n)) = bytes := by
  subst hlength
  cases order with
  | littleEndian =>
      have hlt := ofLittleEndian_lt bytes
      rw [pow_eq] at hlt
      simp only [objectBytes, ofObjectBytes, BitVec.toNat_ofNat, Nat.mod_eq_of_lt hlt,
        littleEndian_ofLittleEndian]
  | bigEndian =>
      have hlt := ofLittleEndian_lt bytes.reverse
      rw [pow_eq, List.length_reverse] at hlt
      have hbytes := littleEndian_ofLittleEndian bytes.reverse
      rw [List.length_reverse] at hbytes
      simp only [objectBytes, ofObjectBytes, BitVec.toNat_ofNat, Nat.mod_eq_of_lt hlt, hbytes,
        List.reverse_reverse]

theorem objectBytes_rearrange {f : List UInt8 → List UInt8}
    (hlength : ∀ bytes, (f bytes).length = bytes.length) (word : BitVec (8 * n)) :
    order.objectBytes (order.rearrange f word) = f (order.objectBytes word) := by
  rw [rearrange, objectBytes_ofObjectBytes]
  rw [hlength, length_objectBytes]

/-- One rearrangement after another. -/
theorem rearrange_rearrange {f g : List UInt8 → List UInt8}
    (hlength : ∀ bytes, (g bytes).length = bytes.length) (word : BitVec (8 * n)) :
    order.rearrange f (order.rearrange g word) = order.rearrange (f ∘ g) word := by
  rw [rearrange, objectBytes_rearrange order hlength, rearrange, Function.comp_apply]

/-- An arrangement that leaves `n` bytes where they are changes no word. -/
theorem rearrange_eq_self {f : List UInt8 → List UInt8}
    (hsame : ∀ bytes, bytes.length = n → f bytes = bytes) (word : BitVec (8 * n)) :
    order.rearrange f word = word := by
  rw [rearrange, hsame _ (length_objectBytes order word), ofObjectBytes_objectBytes]

end ByteOrder
end OSVR.Math
