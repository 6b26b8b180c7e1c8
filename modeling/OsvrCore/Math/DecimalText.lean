/-
# Decimal text

The bytes of a number that is printed in decimal. They are digits, after a minus sign
where the number is negative, and different numbers have different text.
-/

import Mathlib.Data.Int.Notation
import Mathlib.Data.List.Basic

set_option autoImplicit false

namespace OSVR.Math

/-- The bytes of a string. -/
def textBytes (text : String) : List UInt8 := text.toUTF8.toList

/-! ## Bytes of ASCII text -/

theorem byteArray_toList_loop (bytes : ByteArray) (index : ℕ) (front : List UInt8) :
    ByteArray.toList.loop bytes index front = front.reverse ++ bytes.data.toList.drop index := by
  induction index, front using ByteArray.toList.loop.induct bytes with
  | case1 index front hless ih =>
      have hindex : index < bytes.data.toList.length := hless
      have hbyte : bytes.get! index = bytes.data.toList[index] := by
        rw [ByteArray.get!, getElem!_pos bytes.data index hless]
        rfl
      rw [ByteArray.toList.loop, if_pos hless, ih, hbyte, List.drop_eq_getElem_cons hindex]
      simp
  | case2 index front hnot =>
      have hend : bytes.data.toList.length ≤ index := Nat.le_of_not_lt hnot
      rw [ByteArray.toList.loop, if_neg hnot, List.drop_eq_nil_of_le hend, List.append_nil]

theorem textBytes_ofList (chars : List Char) :
    textBytes (String.ofList chars) = chars.flatMap String.utf8EncodeChar := by
  rw [textBytes, String.toUTF8_eq_toByteArray, String.toByteArray_ofList, List.utf8Encode,
    ByteArray.toList, byteArray_toList_loop]
  simp

/-- A character below 128 is one byte. -/
theorem textBytes_ofList_ascii {chars : List Char} (h : ∀ c ∈ chars, c.val ≤ 127) :
    textBytes (String.ofList chars) = chars.map fun c => c.val.toUInt8 := by
  rw [textBytes_ofList]
  induction chars with
  | nil => rfl
  | cons c chars ih =>
      have ⟨hc, hchars⟩ := List.forall_mem_cons.mp h
      have hsize : c.utf8Size = 1 := if_pos hc
      rw [List.flatMap_cons, List.map_cons, ih hchars, String.utf8EncodeChar_eq_singleton hsize]
      rfl

/-! ## Digits -/

/-- The decimal digits of a natural number. -/
def digitBytes (n : ℕ) : List UInt8 := textBytes (toString n)

theorem isDigit_bounds {c : Char} (h : c.isDigit = true) : 48 ≤ c.val ∧ c.val ≤ 57 := by
  simpa [Char.isDigit] using h

theorem digitBytes_eq (n : ℕ) :
    digitBytes n = (Nat.toDigits 10 n).map fun c => c.val.toUInt8 := by
  rw [digitBytes, Nat.toString_eq_ofList_toDigits]
  apply textBytes_ofList_ascii
  intro c hmem
  have hbound := (isDigit_bounds (Nat.isDigit_of_mem_toDigits (by decide) (by decide) hmem)).2
  exact UInt32.le_trans hbound (by decide)

theorem mem_digitBytes {n : ℕ} {byte : UInt8} (h : byte ∈ digitBytes n) :
    48 ≤ byte ∧ byte ≤ 57 := by
  rw [digitBytes_eq, List.mem_map] at h
  obtain ⟨c, hmem, rfl⟩ := h
  have hbounds := isDigit_bounds (Nat.isDigit_of_mem_toDigits (by decide) (by decide) hmem)
  simp only [UInt32.le_iff_toNat_le, UInt8.le_iff_toNat_le, UInt32.toNat_toUInt8] at hbounds ⊢
  simp at hbounds ⊢
  omega

/-- The character of a digit can be had back from its byte. -/
theorem ofNat_toUInt8 {c : Char} (h : c.isDigit = true) : Char.ofNat c.val.toUInt8.toNat = c := by
  have hbound := UInt32.le_iff_toNat_le.mp (isDigit_bounds h).2
  have hbyte : c.val.toUInt8.toNat = c.toNat := by
    rw [UInt32.toNat_toUInt8]
    exact Nat.mod_eq_of_lt (Nat.lt_of_le_of_lt hbound (by decide))
  rw [hbyte, Char.ofNat_toNat]

theorem digitBytes_injective : Function.Injective digitBytes := by
  intro n m h
  have hback (k : ℕ) :
      (digitBytes k).map (fun byte => Char.ofNat byte.toNat) = Nat.toDigits 10 k := by
    rw [digitBytes_eq, List.map_map]
    refine (List.map_congr_left fun c hmem => ?_).trans (List.map_id _)
    exact ofNat_toUInt8 (Nat.isDigit_of_mem_toDigits (by decide) (by decide) hmem)
  have hdigits : Nat.toDigits 10 n = Nat.toDigits 10 m := by
    rw [← hback, h, hback]
  rw [← Nat.ofDigitChars_ten_toDigits (n := n), hdigits, Nat.ofDigitChars_ten_toDigits]

/-- A negative number has the digits of its absolute value behind a minus sign. -/
theorem textBytes_int (i : ℤ) :
    textBytes (toString i) = if i < 0 then 45 :: digitBytes i.natAbs else digitBytes i.natAbs := by
  rw [Int.toString_eq_repr, Int.repr_eq_if]
  by_cases hneg : i < 0
  · have habs : (-i).toNat = i.natAbs := by omega
    have hminus : textBytes ("-" ++ i.natAbs.repr) = 45 :: textBytes i.natAbs.repr := by
      rw [Nat.repr_eq_ofList_toDigits, show "-" = String.ofList ['-'] from rfl,
        ← String.ofList_append, textBytes_ofList, textBytes_ofList]
      rfl
    rw [if_pos hneg, if_neg (by omega), habs, hminus]
    rfl
  · have habs : i.toNat = i.natAbs := by omega
    rw [if_neg hneg, if_pos (by omega), habs]
    rfl

end OSVR.Math
