import Mathlib.Algebra.Order.Ring.Int
import Mathlib.Tactic.Linarith
import Mathlib.Tactic.Positivity
import Mathlib.Tactic.Ring

/- Signed machine words that do not overflow. A word is followed by the integer it should hold and by
   a bound on it, through sums, differences, products and shifts; while the bound fits the word, the
   word holds that integer. -/
namespace MachineWords

theorem bmod_small {v : ℤ} {w : ℕ} (low : -2 ^ w ≤ v) (high : v < 2 ^ w) : v.bmod (2 ^ (w + 1)) = v := by
  apply Int.bmod_eq_of_le
  · rw [pow_succ]
    push_cast
    omega
  · rw [pow_succ]
    push_cast
    omega

theorem bitVec_shiftLeft {w : ℕ} (x : BitVec w) (n : ℕ) :
    (x <<< n).toInt = (x.toInt * 2 ^ n).bmod (2 ^ w) := by
  rw [BitVec.toInt_shiftLeft, BitVec.toInt_eq_toNat_bmod, Int.bmod_mul_bmod, Nat.shiftLeft_eq]
  push_cast
  rfl

section
variable {a b : Int64}

theorem toInt_add (low : -2 ^ 63 ≤ a.toInt + b.toInt) (high : a.toInt + b.toInt < 2 ^ 63) :
    (a + b).toInt = a.toInt + b.toInt := by
  rw [Int64.toInt_add, bmod_small low high]

theorem toInt_sub (low : -2 ^ 63 ≤ a.toInt - b.toInt) (high : a.toInt - b.toInt < 2 ^ 63) :
    (a - b).toInt = a.toInt - b.toInt := by
  rw [Int64.toInt_sub, bmod_small low high]

theorem toInt_mul (low : -2 ^ 63 ≤ a.toInt * b.toInt) (high : a.toInt * b.toInt < 2 ^ 63) :
    (a * b).toInt = a.toInt * b.toInt := by
  rw [Int64.toInt_mul, bmod_small low high]

theorem toInt_shiftRight (a : Int64) {k : Int64} {n : ℕ} (amount : (k.toBitVec.smod 64).toNat = n) :
    (a >>> k).toInt = a.toInt / 2 ^ n := by
  have shifted : (a >>> k).toInt = a.toInt >>> (k.toBitVec.smod 64).toNat := BitVec.toInt_sshiftRight'
  rw [shifted, amount, Int.shiftRight_eq_div_pow]
  push_cast
  rfl

theorem toInt_shiftLeft {k : Int64} {n : ℕ} (amount : (k.toBitVec.smod 64).toNat = n)
    (low : -2 ^ 63 ≤ a.toInt * 2 ^ n) (high : a.toInt * 2 ^ n < 2 ^ 63) :
    (a <<< k).toInt = a.toInt * 2 ^ n := by
  have shifted : (a <<< k).toBitVec = a.toBitVec <<< n := by
    rw [Int64.toBitVec_shiftLeft, BitVec.shiftLeft_eq', amount]
  have value : (a <<< k).toInt = (a.toInt * 2 ^ n).bmod (2 ^ 64) := by
    rw [← Int64.toInt_toBitVec, shifted, bitVec_shiftLeft, Int64.toInt_toBitVec]
  rw [value, bmod_small low high]

end

theorem toInt_eq_bmod (v : Int64) : v.toInt = (v.toUInt64.toNat : ℤ).bmod (2 ^ 64) :=
  BitVec.toInt_eq_toNat_bmod v.toBitVec

theorem toInt32_eq_bmod (v : UInt32) : v.toInt32.toInt = (v.toNat : ℤ).bmod (2 ^ 32) :=
  BitVec.toInt_eq_toNat_bmod v.toBitVec

section
variable {a b : Int32}

theorem int32_add (low : -2 ^ 31 ≤ a.toInt + b.toInt) (high : a.toInt + b.toInt < 2 ^ 31) :
    (a + b).toInt = a.toInt + b.toInt := by
  rw [Int32.toInt_add, bmod_small low high]

theorem int32_sub (low : -2 ^ 31 ≤ a.toInt - b.toInt) (high : a.toInt - b.toInt < 2 ^ 31) :
    (a - b).toInt = a.toInt - b.toInt := by
  rw [Int32.toInt_sub, bmod_small low high]

theorem int32_mul (low : -2 ^ 31 ≤ a.toInt * b.toInt) (high : a.toInt * b.toInt < 2 ^ 31) :
    (a * b).toInt = a.toInt * b.toInt := by
  rw [Int32.toInt_mul, bmod_small low high]

theorem int32_neg (low : -2 ^ 31 < a.toInt) : (-a).toInt = -a.toInt := by
  have high := a.toInt_lt
  rw [Int32.toInt_neg, bmod_small (by omega) (by omega)]

theorem int32_shiftRight (a : Int32) {k : Int32} {n : ℕ} (amount : (k.toBitVec.smod 32).toNat = n) :
    (a >>> k).toInt = a.toInt / 2 ^ n := by
  have shifted : (a >>> k).toInt = a.toInt >>> (k.toBitVec.smod 32).toNat := BitVec.toInt_sshiftRight'
  rw [shifted, amount, Int.shiftRight_eq_div_pow]
  push_cast
  rfl

theorem int32_shiftLeft {k : Int32} {n : ℕ} (amount : (k.toBitVec.smod 32).toNat = n) :
    (a <<< k).toInt = (a.toInt * 2 ^ n).bmod (2 ^ 32) := by
  have shifted : (a <<< k).toBitVec = a.toBitVec <<< n := by
    rw [Int32.toBitVec_shiftLeft, BitVec.shiftLeft_eq', amount]
  rw [← Int32.toInt_toBitVec, shifted, bitVec_shiftLeft, Int32.toInt_toBitVec]

end

theorem and_mask {w n : ℕ} (x mask : BitVec (w + 1)) (ones : mask.toNat = 2 ^ n - 1) (short : n ≤ w) :
    (x &&& mask).toInt = x.toInt % 2 ^ n := by
  have low : (x &&& mask).toNat = x.toNat % 2 ^ n := by
    rw [BitVec.toNat_and, ones, Nat.and_two_pow_sub_one_eq_mod]
  have room : 2 ^ n ≤ 2 ^ w := Nat.pow_le_pow_right (by omega) short
  have small : x.toNat % 2 ^ n < 2 ^ n := Nat.mod_lt _ (by positivity)
  have plain : (x &&& mask).toInt = (x &&& mask).toNat := by
    apply BitVec.toInt_eq_toNat_of_lt
    rw [low, pow_succ]
    omega
  have divides : ((2 ^ n : ℕ) : ℤ) ∣ ((2 ^ (w + 1) : ℕ) : ℤ) :=
    Int.natCast_dvd_natCast.mpr (Nat.pow_dvd_pow 2 (by omega))
  have cut : x.toInt % (2 ^ n : ℕ) = (x.toNat : ℤ) % (2 ^ n : ℕ) := by
    rw [BitVec.toInt_eq_toNat_bmod, ← Int.emod_emod_of_dvd _ divides, Int.bmod_emod,
      Int.emod_emod_of_dvd _ divides]
  rw [plain, low]
  push_cast at cut ⊢
  exact cut.symm

theorem highword_toInt (v : Int64) : (v.toUInt64 >>> 32).toUInt32.toInt32.toInt = v.toInt / 2 ^ 32 := by
  have size := v.toUInt64.toNat_lt
  rw [toInt32_eq_bmod, toInt_eq_bmod, UInt64.toNat_toUInt32, UInt64.toNat_shiftRight]
  simp only [Int.bmod_def]
  simp [Nat.shiftRight_eq_div_pow]
  omega

theorem highword_sign (v : Int64) :
    (v.toUInt64 >>> 32).toUInt32.toInt32 >>> 31 = if v.toInt < 0 then -1 else 0 := by
  have low := v.le_toInt
  have high := v.toInt_lt
  apply Int32.toInt_inj.mp
  rw [int32_shiftRight (n := 31) _ rfl, highword_toInt]
  split
  · have value : (-1 : Int32).toInt = -1 := rfl
    omega
  · have value : (0 : Int32).toInt = 0 := rfl
    omega

/-- A shift to the right rounds towards zero if 2^n - 1 is added to what is negative. -/
theorem toInt_roundoff {v roundoff k : Int64} {n : ℕ} (amount : (k.toBitVec.smod 64).toNat = n)
    (small : (2 : ℤ) ^ n ≤ 2 ^ 63) (value : roundoff.toInt = if v.toInt < 0 then 2 ^ n - 1 else 0) :
    ((v + roundoff) >>> k).toInt = (v.toInt + if v.toInt < 0 then 2 ^ n - 1 else 0) / 2 ^ n := by
  have low := v.le_toInt
  have high := v.toInt_lt
  have positive : (0 : ℤ) < 2 ^ n := by positivity
  rw [toInt_shiftRight _ amount, toInt_add, value]
  · rw [value]
    split <;> omega
  · rw [value]
    split <;> omega

/-- An integer that is computed in a 64-bit word: the word, the integer and a bound on it. -/
structure Tracked where
  word : Int64
  exact : ℤ
  bound : ℕ
  positive : 0 < bound
  sound : bound < 2 ^ 63 → word.toInt = exact ∧ |exact| ≤ bound

namespace Tracked

def ofWord (word : Int64) (bound : ℕ) (positive : 0 < bound) (small : |word.toInt| ≤ bound) : Tracked :=
  ⟨word, word.toInt, bound, positive, fun _ ↦ ⟨rfl, small⟩⟩

instance : Add Tracked where
  add a b :=
    { word := a.word + b.word
      exact := a.exact + b.exact
      bound := a.bound + b.bound
      positive := Nat.add_pos_left a.positive _
      sound := by
        intro fits
        obtain ⟨left, leftSmall⟩ := a.sound (by omega)
        obtain ⟨right, rightSmall⟩ := b.sound (by omega)
        have small : |a.exact + b.exact| ≤ (a.bound + b.bound : ℕ) := by
          push_cast
          exact (abs_add_le _ _).trans (add_le_add leftSmall rightSmall)
        have range := abs_le.mp small
        refine ⟨?_, small⟩
        rw [toInt_add (by rw [left, right]; omega) (by rw [left, right]; omega), left, right] }

instance : Mul Tracked where
  mul a b :=
    { word := a.word * b.word
      exact := a.exact * b.exact
      bound := a.bound * b.bound
      positive := Nat.mul_pos a.positive b.positive
      sound := by
        intro fits
        have first : a.bound ≤ a.bound * b.bound := Nat.le_mul_of_pos_right _ b.positive
        have second : b.bound ≤ a.bound * b.bound := Nat.le_mul_of_pos_left _ a.positive
        obtain ⟨left, leftSmall⟩ := a.sound (by omega)
        obtain ⟨right, rightSmall⟩ := b.sound (by omega)
        have small : |a.exact * b.exact| ≤ (a.bound * b.bound : ℕ) := by
          rw [abs_mul]
          push_cast
          exact mul_le_mul leftSmall rightSmall (abs_nonneg _) (by positivity)
        have range := abs_le.mp small
        generalize a.bound * b.bound = bound at fits range small
        refine ⟨?_, small⟩
        rw [toInt_mul (by rw [left, right]; omega) (by rw [left, right]; omega), left, right] }

end Tracked
end MachineWords
