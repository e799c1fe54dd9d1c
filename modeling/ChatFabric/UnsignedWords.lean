import Mathlib.Data.Nat.Bitwise

/- Unsigned machine words of any size as numbers: what masks, shifts and changes of size leave of
   them. -/
namespace UnsignedWords
variable {w v n : ℕ}

theorem toNat_shiftRight (x : BitVec w) (n : ℕ) : (x >>> n).toNat = x.toNat / 2 ^ n := by
  rw [BitVec.toNat_ushiftRight, Nat.shiftRight_eq_div_pow]

theorem toNat_and (x : BitVec w) {mask : BitVec w} (ones : mask.toNat = 2 ^ n - 1) :
    (x &&& mask).toNat = x.toNat % 2 ^ n := by
  rw [BitVec.toNat_and, ones, Nat.and_two_pow_sub_one_eq_mod]

theorem toNat_high {x : BitVec w} (room : x.toNat / 2 ^ n < 2 ^ v) :
    ((x >>> n).setWidth v).toNat = x.toNat / 2 ^ n := by
  rw [BitVec.toNat_setWidth, toNat_shiftRight, Nat.mod_eq_of_lt room]

theorem toNat_low (x : BitVec w) {mask : BitVec v} (ones : mask.toNat = 2 ^ n - 1) (room : n ≤ v) :
    (x.setWidth v &&& mask).toNat = x.toNat % 2 ^ n := by
  rw [toNat_and _ ones, BitVec.toNat_setWidth, Nat.mod_mod_of_dvd _ (Nat.pow_dvd_pow 2 room)]

theorem toNat_wide (x : BitVec w) (room : w ≤ v) : (x.setWidth v).toNat = x.toNat := by
  rw [BitVec.toNat_setWidth, Nat.mod_eq_of_lt (x.isLt.trans_le (Nat.pow_le_pow_right (by omega) room))]

/-- A word shifted past the bits of another. What is shifted out is lost. -/
theorem toNat_join {x : BitVec w} (y : BitVec w) (small : x.toNat < 2 ^ n) (room : n ≤ w) :
    (x ||| (y <<< n)).toNat = x.toNat + 2 ^ n * (y.toNat % 2 ^ (w - n)) := by
  have whole : 2 ^ w = 2 ^ (w - n) * 2 ^ n := by
    rw [← pow_add]
    congr 1
    omega
  rw [BitVec.toNat_or, BitVec.toNat_shiftLeft, Nat.shiftLeft_eq, whole, Nat.mul_mod_mul_right, Nat.or_comm,
    ← Nat.shiftLeft_eq, ← Nat.shiftLeft_add_eq_or_of_lt small, Nat.shiftLeft_eq, Nat.add_comm, Nat.mul_comm]

theorem toNat_sum {x y : BitVec w} {a b : ℕ} (left : x.toNat = a) (right : y.toNat = b)
    (small : a + b < 2 ^ w) : (x + y).toNat = a + b := by
  rw [BitVec.toNat_add_of_lt (by rwa [left, right]), left, right]

theorem toNat_product {x y : BitVec w} {a b : ℕ} (left : x.toNat = a) (right : y.toNat = b)
    (small : a * b < 2 ^ w) : (x * y).toNat = a * b := by
  rw [BitVec.toNat_mul_of_lt (by rwa [left, right]), left, right]

theorem toNat_wideProduct (x y : BitVec w) (room : w + w ≤ v) :
    (x.setWidth v * y.setWidth v).toNat = x.toNat * y.toNat := by
  have size : x.toNat * y.toNat < 2 ^ w * 2 ^ w := Nat.mul_lt_mul'' x.isLt y.isLt
  rw [← pow_add] at size
  exact toNat_product (toNat_wide x (by omega)) (toNat_wide y (by omega))
    (size.trans_le (Nat.pow_le_pow_right (by omega) room))

theorem choose_first {x y mask : BitVec w} (none : mask = 0#w) : (x &&& ~~~mask) ||| (y &&& mask) = x := by
  simp [none]

theorem choose_second {x y mask : BitVec w} (all : mask = BitVec.allOnes w) :
    (x &&& ~~~mask) ||| (y &&& mask) = y := by
  simp [all]

theorem and_digit (x mask k n : ℕ) :
    (x &&& mask) / 2 ^ k % 2 ^ n = x / 2 ^ k % 2 ^ n &&& mask / 2 ^ k % 2 ^ n := by
  rw [Nat.and_div_two_pow, Nat.and_mod_two_pow]

theorem mod_and {x mask n : ℕ} (small : mask < 2 ^ n) : x % 2 ^ n &&& mask = x &&& mask := by
  have left := Nat.and_mod_two_pow (a := x) (b := mask) (n := n)
  rwa [Nat.mod_eq_of_lt small, Nat.mod_eq_of_lt (Nat.and_lt_two_pow x small), eq_comm] at left

end UnsignedWords
