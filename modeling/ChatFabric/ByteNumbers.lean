import ChatFabric.ByteStrings
import Mathlib.Tactic.IntervalCases
import Mathlib.Tactic.Positivity
import Mathlib.Tactic.Ring

/- The number that a byte string writes, its lowest byte first, and the bits of its bytes. -/
namespace ByteNumbers
open ByteStrings

def leNumber (bytes : Bytes) : Nat := bytes.foldr (fun b n ↦ b.toNat + 256 * n) 0

@[simp] theorem leNumber_nil : leNumber [] = 0 := rfl

@[simp] theorem leNumber_cons (b : UInt8) (bytes : Bytes) :
    leNumber (b :: bytes) = b.toNat + 256 * leNumber bytes := rfl

theorem leNumber_append (first second : Bytes) :
    leNumber (first ++ second) = leNumber first + 256 ^ first.length * leNumber second := by
  induction first with
  | nil => simp
  | cons b first ih =>
    simp only [List.cons_append, leNumber_cons, ih, List.length_cons, pow_succ]
    ring

theorem leNumber_lt (bytes : Bytes) : leNumber bytes < 256 ^ bytes.length := by
  induction bytes with
  | nil => simp
  | cons b bytes ih =>
    have small := b.toNat_lt
    rw [leNumber_cons, List.length_cons, pow_succ]
    omega

theorem leNumber_injective {first second : Bytes} (size : first.length = second.length)
    (same : leNumber first = leNumber second) : first = second := by
  induction first generalizing second with
  | nil => exact (List.length_eq_zero_iff.mp size.symm).symm
  | cons b first ih =>
    cases second with
    | nil => simp at size
    | cons c second =>
      have low := b.toNat_lt
      have high := c.toNat_lt
      simp only [leNumber_cons] at same
      simp only [List.length_cons, Nat.add_right_cancel_iff] at size
      have head : b = c := UInt8.toNat_inj.mp (by omega)
      have tail : leNumber first = leNumber second := by
        subst head
        omega
      rw [head, ih size tail]

theorem leNumber_take_drop (bytes : Bytes) (k : Nat) :
    leNumber (bytes.take k) = leNumber bytes % 256 ^ k ∧ leNumber (bytes.drop k) = leNumber bytes / 256 ^ k := by
  by_cases inside : k ≤ bytes.length
  · have split := leNumber_append (bytes.take k) (bytes.drop k)
    have small := leNumber_lt (bytes.take k)
    rw [List.take_append_drop, List.length_take_of_le inside] at split
    rw [List.length_take_of_le inside] at small
    rw [split, Nat.add_mul_mod_self_left, Nat.mod_eq_of_lt small, Nat.add_mul_div_left _ _ (by positivity),
      Nat.div_eq_of_lt small, Nat.zero_add]
    exact ⟨rfl, rfl⟩
  · have short : bytes.length ≤ k := by omega
    have small : leNumber bytes < 256 ^ k := (leNumber_lt bytes).trans_le (Nat.pow_le_pow_right (by omega) short)
    rw [List.take_of_length_le short, List.drop_eq_nil_of_le short, Nat.mod_eq_of_lt small,
      Nat.div_eq_of_lt small]
    exact ⟨rfl, rfl⟩

theorem leNumber_byte (bytes : Bytes) (k : Nat) :
    (bytes.getD k 0).toNat = leNumber bytes / 256 ^ k % 256 := by
  rw [← (leNumber_take_drop bytes k).2, List.getD_eq_getElem?_getD, ← List.head?_drop]
  cases bytes.drop k with
  | nil => rfl
  | cons b rest =>
    have small := b.toNat_lt
    simp only [List.head?_cons, Option.getD_some, leNumber_cons]
    omega

/-- The number that bits write behind a number, the highest first. -/
def extend (n : Nat) (bits : List Bool) : Nat := bits.foldl (fun n bit ↦ 2 * n + bit.toNat) n

def highBits (b : UInt8) : Nat → List Bool
  | 0 => []
  | k + 1 => decide (128 ≤ b) :: highBits (b <<< 1) k

theorem extend_highBits (n : Nat) (b : UInt8) {k : Nat} (inside : k ≤ 8) :
    extend n (highBits b k) = 2 ^ k * n + b.toNat / 2 ^ (8 - k) := by
  induction k generalizing n b with
  | zero =>
    have small := b.toNat_lt
    simp [extend, highBits]
    omega
  | succ k ih =>
    have small := b.toNat_lt
    have shifted : (b <<< 1).toNat = b.toNat * 2 % 256 := by
      rw [UInt8.toNat_shiftLeft, Nat.shiftLeft_eq]
      rfl
    have top : (decide (128 ≤ b)).toNat = b.toNat / 128 := by
      by_cases high : 128 ≤ b.toNat
      · have above : 128 ≤ b := UInt8.le_iff_toNat_le.mpr high
        simp only [above, decide_true, Bool.toNat_true]
        omega
      · have below : ¬128 ≤ b := fun above ↦ high (UInt8.le_iff_toNat_le.mp above)
        simp only [below, decide_false, Bool.toNat_false]
        omega
    have step : extend n (highBits b (k + 1)) = extend (2 * n + b.toNat / 128) (highBits (b <<< 1) k) := by
      rw [← top]
      rfl
    rw [step, ih _ _ (by omega), shifted]
    have few : k < 8 := by omega
    interval_cases k <;> simp only [Nat.reducePow, Nat.reduceSub, Nat.reduceAdd] <;> omega

/-- All bits of a byte string, the highest first; its highest byte is its last. -/
def bitsOf (bytes : Bytes) : List Bool := bytes.reverse.flatMap (highBits · 8)

theorem extend_bitsOf (bytes : Bytes) : extend 0 (bitsOf bytes) = leNumber bytes := by
  have fold (bytes : Bytes) (n : Nat) : extend n (bytes.flatMap (highBits · 8)) =
      bytes.foldl (fun n b ↦ b.toNat + 256 * n) n := by
    induction bytes generalizing n with
    | nil => rfl
    | cons b bytes ih =>
      have split : extend n ((b :: bytes).flatMap (highBits · 8)) =
          extend (extend n (highBits b 8)) (bytes.flatMap (highBits · 8)) := by
        rw [List.flatMap_cons, extend, List.foldl_append]
        rfl
      rw [split, extend_highBits n b le_rfl, ih, List.foldl_cons]
      congr 1
      norm_num
      ring
  rw [bitsOf, fold, List.foldl_reverse]
  rfl

end ByteNumbers
