-- SUMMARY: Maps of bits in bytes, the most significant bit first: setting, flipping, and the first clear bit.
import Mathlib.Data.Nat.Bitwise
import Mathlib.Logic.Function.Basic

/-!
# Bitmaps

The bits of a sequence of bytes, counted from the most significant bit of the first byte on. A
bit is set and flipped by a mask on its byte. The first clear bit is found by a scan for a byte
that has one, and then for the highest one in it.
-/

namespace Bitmap

open Function (update update_apply)

/-- Bit `k` of a map. -/
def bit (m : Nat → UInt8) (k : Nat) : Bool := (m (k / 8)).toNat.testBit (7 - k % 8)

/-- The byte with bit `j` set. -/
def setbit (v : UInt8) (j : Nat) : UInt8 := UInt8.ofNat (v.toNat ||| 1 <<< j)

/-- The byte with bit `j` flipped. -/
def flipbit (v : UInt8) (j : Nat) : UInt8 := UInt8.ofNat (v.toNat ^^^ 1 <<< j)

/-! ## Bytes -/

theorem testBit_eq_false_of_le (v : UInt8) {i : Nat} (hi : 8 ≤ i) : v.toNat.testBit i = false :=
  Nat.testBit_lt_two_pow (Nat.lt_of_lt_of_le v.toNat_lt (Nat.pow_le_pow_right (by decide) hi))

theorem testBit_ofNat (n i : Nat) : (UInt8.ofNat n).toNat.testBit i = (decide (i < 8) && n.testBit i) := by
  rw [UInt8.toNat_ofNat']
  exact Nat.testBit_mod_two_pow n 8 i

theorem testBit_mask (j i : Nat) : (1 <<< j).testBit i = decide (i = j) := by
  rw [Nat.one_shiftLeft, Nat.testBit_two_pow]
  exact decide_eq_decide.2 eq_comm

theorem testBit_setbit (v : UInt8) {j : Nat} (hj : j < 8) (i : Nat) :
    (setbit v j).toNat.testBit i = (decide (i = j) || v.toNat.testBit i) := by
  rw [setbit, testBit_ofNat, Nat.testBit_or, testBit_mask]
  by_cases hi : i < 8
  · rw [decide_eq_true hi, Bool.true_and, Bool.or_comm]
  · rw [decide_eq_false hi, Bool.false_and, testBit_eq_false_of_le v (by omega), decide_eq_false (by omega)]
    rfl

theorem testBit_flipbit (v : UInt8) {j : Nat} (hj : j < 8) (i : Nat) :
    (flipbit v j).toNat.testBit i = (decide (i = j) ^^ v.toNat.testBit i) := by
  rw [flipbit, testBit_ofNat, Nat.testBit_xor, testBit_mask]
  by_cases hi : i < 8
  · rw [decide_eq_true hi, Bool.true_and, Bool.xor_comm]
  · rw [decide_eq_false hi, Bool.false_and, testBit_eq_false_of_le v (by omega), decide_eq_false (by omega)]
    rfl

/-- A byte below 255 has a clear bit. -/
theorem lt_iff_clear (v : UInt8) : v.toNat < 255 ↔ ∃ j < 8, v.toNat.testBit j = false := by
  have hfull : v.toNat = 255 ↔ ∀ j < 8, v.toNat.testBit j = true := by
    constructor
    · intro hv j hj
      rw [hv, show 255 = 2 ^ 8 - 1 from rfl, Nat.testBit_two_pow_sub_one]
      exact decide_eq_true hj
    · intro hall
      apply Nat.eq_of_testBit_eq
      intro i
      rw [show 255 = 2 ^ 8 - 1 from rfl, Nat.testBit_two_pow_sub_one]
      by_cases hi : i < 8
      · rw [hall i hi, decide_eq_true hi]
      · rw [testBit_eq_false_of_le v (by omega), decide_eq_false hi]
  have hle := v.toNat_lt
  have hne : v.toNat < 255 ↔ ¬v.toNat = 255 := by omega
  rw [hne, hfull]
  push Not
  simp only [ne_eq, Bool.not_eq_true]

/-! ## Maps -/

section

variable {m : Nat → UInt8} {k : Nat}

/-- Two bits of one byte have different masks. -/
theorem place_eq_iff {i k : Nat} (hbyte : i / 8 = k / 8) : 7 - i % 8 = 7 - k % 8 ↔ i = k := by
  omega

theorem bit_setbit (m : Nat → UInt8) (k i : Nat) :
    bit (update m (k / 8) (setbit (m (k / 8)) (7 - k % 8))) i = (decide (i = k) || bit m i) := by
  rw [bit, bit, update_apply]
  split
  · rename_i hbyte
    rw [testBit_setbit _ (by omega), hbyte, decide_eq_decide.2 (place_eq_iff hbyte)]
  · rename_i hbyte
    rw [decide_eq_false (by rintro rfl; exact hbyte rfl), Bool.false_or]

theorem bit_flipbit (m : Nat → UInt8) (k i : Nat) :
    bit (update m (k / 8) (flipbit (m (k / 8)) (7 - k % 8))) i = (decide (i = k) ^^ bit m i) := by
  rw [bit, bit, update_apply]
  split
  · rename_i hbyte
    rw [testBit_flipbit _ (by omega), hbyte, decide_eq_decide.2 (place_eq_iff hbyte)]
  · rename_i hbyte
    rw [decide_eq_false (by rintro rfl; exact hbyte rfl), Bool.false_xor]

/-! ## The first clear bit -/

/-- Bit `k` is clear, and the ones in front of it are set. -/
structure FirstClear (m : Nat → UInt8) (k : Nat) : Prop where
  clear : bit m k = false
  set : ∀ i < k, bit m i = true

/-- The bits of bytes that are full are set. -/
theorem bit_of_full {n : Nat} (hfull : ∀ i < n, ¬(m i).toNat < 255) (hk : k < 8 * n) : bit m k = true := by
  have hbyte := hfull (k / 8) (by omega)
  rw [lt_iff_clear] at hbyte
  push Not at hbyte
  exact Bool.eq_true_of_not_eq_false (hbyte (7 - k % 8) (by omega))

/-- The highest clear bit of the first byte that is not full is the first one. -/
theorem firstClear_of_scan {i j : Nat} (hbefore : ∀ l < i, ¬(m l).toNat < 255) (hj : j < 8)
    (hclear : (m i).toNat.testBit j = false) (habove : ∀ l < 8, j < l → (m i).toNat.testBit l = true) :
    FirstClear m (i * 8 + (7 - j)) where
  clear := by
    rw [bit, show (i * 8 + (7 - j)) / 8 = i by omega, show 7 - (i * 8 + (7 - j)) % 8 = j by omega]
    exact hclear
  set := by
    intro k hk
    by_cases hbyte : k / 8 = i
    · rw [bit, hbyte]
      exact habove _ (by omega) (by omega)
    · exact bit_of_full hbefore (by omega)

end

end Bitmap
