import ChatFabric.Curve25519
import ChatFabric.LimbNumbers
import ChatFabric.MachineWords
import Mathlib

/- Products and squares of field elements: no word overflows, the limbs that come out are small again,
   and they write the product of what the arguments write, whenever 2^255 = 19. -/
namespace Curve25519
open ByteStrings LimbNumbers MachineWords Function

/-- The integers in an array of limbs, 0 behind its end. -/
def ints {n : Nat} (t : Limbs n) (i : Nat) : ℤ := (t[i]?.getD 0).toInt

theorem ints_of_lt {n : Nat} (t : Limbs n) {i : Nat} (inside : i < n) : ints t i = t[i].toInt := by
  simp [ints, inside]

theorem ints_set {n : Nat} (t : Limbs n) {i : Nat} (inside : i < n) (v : Int64) :
    ints (t.set i v) = update (ints t) i v.toInt := by
  funext j
  by_cases same : i = j
  · subst same
    simp [ints, inside]
  · rw [update_of_ne (Ne.symm same)]
    simp [ints, same]

def Below {n : Nat} (bound : ℤ) (t : Limbs n) : Prop := ∀ i, |ints t i| < bound

def quotient (v : ℤ) (n : ℕ) : ℤ := (v + if v < 0 then 2 ^ n - 1 else 0) / 2 ^ n

theorem divBy2_26_toInt (v : Int64) : (divBy2_26 v).toInt = quotient v.toInt 26 := by
  refine toInt_roundoff rfl (by norm_num) ?_
  rw [highword_sign]
  split <;> rfl

theorem divBy2_25_toInt (v : Int64) : (divBy2_25 v).toInt = quotient v.toInt 25 := by
  refine toInt_roundoff rfl (by norm_num) ?_
  rw [highword_sign]
  split <;> rfl

def width (i : ℕ) : ℕ := if i % 2 = 0 then 26 else 25

theorem width_cases (i : ℕ) : width i = 25 ∨ width i = 26 := by
  unfold width
  split <;> simp

theorem quotient_spec {n : ℕ} (size : n = 25 ∨ n = 26) {v m : ℤ} (small : |v| ≤ m) :
    |v - quotient v n * 2 ^ n| < 2 ^ n ∧ |quotient v n * 2 ^ n| ≤ m := by
  have range := abs_le.mp small
  rw [abs_lt, abs_le]
  unfold quotient
  rcases size with rfl | rfl
  · split <;> omega
  · split <;> omega

section
variable {divide : Int64 → Int64} {bits : Int64} {n : ℕ}

theorem carryLimb_ints (divides : ∀ v, (divide v).toInt = quotient v.toInt n)
    (amount : (bits.toBitVec.smod 64).toNat = n) (size : n = 25 ∨ n = 26) {t : Limbs 19} {i : Fin 18}
    (here : |ints t i| ≤ 3 * 2 ^ 61) (next : |ints t (i + 1)| ≤ 3 * 2 ^ 61) :
    ints (carryLimb divide bits t i) =
      carryOver (ints t) i (2 ^ n) (quotient (ints t i) n) := by
  have hereValue : ints t i = t[i].toInt := ints_of_lt t (by omega)
  have nextValue : ints t (i + 1) = t[i.val + 1].toInt := ints_of_lt t (by omega)
  rw [hereValue] at here ⊢
  rw [nextValue] at next
  obtain ⟨left, moved⟩ := quotient_spec size here
  have excess := divides t[i]
  have range := abs_le.mp here
  have nextRange := abs_le.mp next
  have moves := abs_le.mp moved
  have stays := abs_lt.mp left
  have small : -2 ^ 40 ≤ quotient t[i].toInt n ∧ quotient t[i].toInt n ≤ 2 ^ 40 := by
    rcases size with rfl | rfl <;> omega
  have shifted : (divide t[i] <<< bits).toInt = quotient t[i].toInt n * 2 ^ n := by
    rw [toInt_shiftLeft amount, excess]
    · rw [excess]
      omega
    · rw [excess]
      omega
  have kept : (t[i] - (divide t[i] <<< bits)).toInt = t[i].toInt - quotient t[i].toInt n * 2 ^ n := by
    have bound : (2 : ℤ) ^ n ≤ 2 ^ 26 := by
      rcases size with rfl | rfl <;> norm_num
    rw [toInt_sub, shifted]
    · rw [shifted]
      omega
    · rw [shifted]
      omega
  have given : (t[i.val + 1] + divide t[i]).toInt = t[i.val + 1].toInt + quotient t[i].toInt n := by
    rw [toInt_add, excess]
    · rw [excess]
      omega
    · rw [excess]
      omega
  have apart : (t.set i (t[i] - (divide t[i] <<< bits)))[i.val + 1] = t[i.val + 1] :=
    Vector.getElem_set_ne _ _ (by omega)
  simp only [carryLimb]
  rw [apart, ints_set, ints_set, kept, given, carryOver, hereValue, nextValue]

end

/-- What a limb may hold before the carry of the limb below it arrives. -/
def room (i : ℕ) : ℤ := if i < 10 then 280 * 2 ^ 54 else 0

/-- The limbs below i are reduced, and limb i has its carry. -/
structure Carried (i : ℕ) (x : ℕ → ℤ) : Prop where
  done : ∀ j < i, |x j| < 2 ^ width j
  here : |x i| ≤ room i + 281 * 2 ^ 29
  ahead : ∀ j, i < j → j ≤ 10 → |x j| ≤ room j

theorem room_le (i : ℕ) : 0 ≤ room i ∧ room i ≤ 280 * 2 ^ 54 := by
  unfold room
  split <;> norm_num

theorem Carried.step {i : ℕ} {x : ℕ → ℤ} (carried : Carried i x) (inside : i < 10) :
    Carried (i + 1) (carryOver x i (2 ^ width i) (quotient (x i) (width i))) := by
  obtain ⟨left, moved⟩ := quotient_spec (width_cases i) carried.here
  have size := width_cases i
  have limit := room_le i
  have moves := abs_le.mp moved
  generalize quotient (x i) (width i) = c at left moved moves ⊢
  have small : |c| ≤ 281 * 2 ^ 29 := by
    rw [abs_le]
    rcases size with size | size <;> rw [size] at moves <;> omega
  constructor
  · intro j below
    by_cases same : j = i
    · subst same
      rwa [carryOver_self]
    · rw [carryOver_other _ _ _ _ same (by omega)]
      exact carried.done j (by omega)
  · rw [carryOver_next]
    exact (abs_add_le _ _).trans (add_le_add (carried.ahead _ (by omega) (by omega)) small)
  · intro j beyond last
    rw [carryOver_other _ _ _ _ (by omega) (by omega)]
    exact carried.ahead j (by omega) last

theorem Carried.limits {i : ℕ} {x : ℕ → ℤ} (carried : Carried i x) (inside : i < 10) :
    |x i| ≤ 3 * 2 ^ 61 ∧ |x (i + 1)| ≤ 3 * 2 ^ 61 := by
  have here := room_le i
  have next := room_le (i + 1)
  have hereSmall := carried.here
  have nextSmall := carried.ahead (i + 1) (by omega) (by omega)
  constructor <;> omega

section
variable {R : Type} [CommRing R]

/-- The weight of limb i: 26 and 25 bits in turn. -/
def weight (i : ℕ) : R := 2 ^ ((i + 1) / 2) * (2 ^ 25) ^ i

theorem weight_succ (i : ℕ) : (weight (i + 1) : R) = (2 ^ width i : ℤ) * weight i := by
  unfold weight width
  rcases Nat.mod_two_eq_zero_or_one i with even | odd
  · have half : (i + 1 + 1) / 2 = (i + 1) / 2 + 1 := by omega
    rw [half, if_pos even]
    push_cast
    ring
  · have half : (i + 1 + 1) / 2 = (i + 1) / 2 := by omega
    rw [half, if_neg (by omega)]
    push_cast
    ring

def value {n : ℕ} (t : Limbs n) : R := number weight 10 (ints t)

theorem carryLimb_spec (divide : Int64 → Int64) (bits : Int64) {t : Limbs 19} {i : Fin 18}
    (divides : ∀ v, (divide v).toInt = quotient v.toInt (width i))
    (amount : (bits.toBitVec.smod 64).toNat = width i) (inside : i.val < 10)
    (carried : Carried i (ints t)) :
    Carried (i + 1) (ints (carryLimb divide bits t i)) ∧
      number (weight : ℕ → R) 11 (ints (carryLimb divide bits t i)) = number weight 11 (ints t) := by
  obtain ⟨here, next⟩ := carried.limits inside
  rw [carryLimb_ints divides amount (width_cases i) here next]
  exact ⟨carried.step inside, number_carryOver weight _ (by omega) _ (weight_succ i.val)⟩

theorem carryPair_spec {t : Limbs 19} (half : Fin 9) (inside : half.val < 5)
    (carried : Carried (2 * half) (ints t)) :
    Carried (2 * (half + 1)) (ints (carryPair t half)) ∧
      number (weight : ℕ → R) 11 (ints (carryPair t half)) = number weight 11 (ints t) := by
  have even : width (2 * half) = 26 := if_pos (by omega)
  have odd : width (2 * half + 1) = 25 := if_neg (by omega)
  let i : Fin 18 := ⟨2 * half, by omega⟩
  let j : Fin 18 := ⟨2 * half + 1, by omega⟩
  obtain ⟨first, same⟩ := carryLimb_spec (R := R) (i := i) divBy2_26 26
    (even ▸ divBy2_26_toInt) (even ▸ rfl) (by simp only [i]; omega) carried
  obtain ⟨second, again⟩ := carryLimb_spec (R := R) (i := j) divBy2_25 25
    (odd ▸ divBy2_25_toInt) (odd ▸ rfl) (by simp only [j]; omega) first
  exact ⟨second, again.trans same⟩

theorem foldLimb_ints {t : Limbs 19} {i : Fin 9} {m k : ℤ} (low : |ints t i| ≤ m)
    (high : |ints t (i + 10)| ≤ k) (fits : m + 19 * k < 2 ^ 63) :
    ints (foldLimb t i) = update (ints t) i (ints t i + 19 * ints t (i + 10)) := by
  have lowValue : ints t i = t[i].toInt := ints_of_lt t (by omega)
  have highValue : ints t (i + 10) = t[i.val + 10].toInt := ints_of_lt t (by omega)
  have once : foldLimb t i = t.set i (t[i] + (t[i.val + 10] <<< 4) + (t[i.val + 10] <<< 1) +
      t[i.val + 10]) := by
    simp [foldLimb]
  rw [lowValue] at low ⊢
  rw [highValue] at high ⊢
  have lowRange := abs_le.mp low
  have highRange := abs_le.mp high
  have sixteen : (t[i.val + 10] <<< 4).toInt = t[i.val + 10].toInt * 2 ^ 4 :=
    toInt_shiftLeft (n := 4) rfl (by omega) (by omega)
  have two : (t[i.val + 10] <<< 1).toInt = t[i.val + 10].toInt * 2 ^ 1 :=
    toInt_shiftLeft (n := 1) rfl (by omega) (by omega)
  have first : (t[i] + (t[i.val + 10] <<< 4)).toInt = t[i].toInt + t[i.val + 10].toInt * 2 ^ 4 := by
    rw [toInt_add] <;> rw [sixteen] <;> omega
  have second : (t[i] + (t[i.val + 10] <<< 4) + (t[i.val + 10] <<< 1)).toInt =
      t[i].toInt + t[i.val + 10].toInt * 18 := by
    rw [toInt_add] <;> rw [first, two] <;> omega
  have third : (t[i] + (t[i.val + 10] <<< 4) + (t[i.val + 10] <<< 1) + t[i.val + 10]).toInt =
      t[i].toInt + 19 * t[i.val + 10].toInt := by
    rw [toInt_add] <;> rw [second] <;> omega
  rw [once, ints_set, third]

theorem start_carried {t : Limbs 19} (small : ∀ i < 10, |ints t i| ≤ 280 * 2 ^ 54) :
    Carried 0 (update (ints t) 10 (0 : Int64).toInt) := by
  constructor
  · intro j below
    omega
  · rw [update_of_ne (by omega)]
    have first := small 0 (by omega)
    have roomy : room 0 = 280 * 2 ^ 54 := rfl
    omega
  · intro j _ last
    by_cases same : j = 10
    · subst same
      rw [update_self]
      decide
    · rw [update_of_ne same, room, if_pos (by omega)]
      exact small j (by omega)

theorem carryPairs_spec {t : Limbs 19} (carried : Carried 0 (ints t)) :
    Carried 10 (ints (([0, 1, 2, 3, 4] : List (Fin 9)).foldl carryPair t)) ∧
      number (weight : ℕ → R) 11 (ints (([0, 1, 2, 3, 4] : List (Fin 9)).foldl carryPair t)) =
        number weight 11 (ints t) := by
  refine foldl_take (n := 9) (m := 5) (fun k u ↦ Carried (2 * k) (ints u) ∧
    number (weight : ℕ → R) 11 (ints u) = number weight 11 (ints t)) carryPair (by omega) ?_
    ⟨carried, rfl⟩
  intro half u inside ⟨before, same⟩
  obtain ⟨after, again⟩ := carryPair_spec (R := R) half inside before
  exact ⟨after, again.trans same⟩

theorem width_le (i : ℕ) : (2 : ℤ) ^ width i ≤ 2 ^ 26 := by
  rcases width_cases i with size | size
  · rw [size]
    norm_num
  · rw [size]

theorem weight_add_ten (modulus : (2 : R) ^ 255 = 19) (i : ℕ) : (weight (10 + i) : R) = 19 * weight i := by
  have half : (10 + i + 1) / 2 = 5 + (i + 1) / 2 := by omega
  rw [← modulus, weight, weight, half]
  ring

/-- What follows the loop: limb 10 comes back as 19 times itself, and limb 0 is carried once more. -/
theorem lastCarry_spec (modulus : (2 : R) ^ 255 = 19) {u w : Limbs 19} (carried : Carried 10 (ints u))
    (cleared : ints w = update (ints (foldLimb u 0)) 10 (0 : Int64).toInt) :
    (∀ i < 10, |ints (carry26 w 0) i| < 2 ^ 26) ∧
      number (weight : ℕ → R) 10 (ints (carry26 w 0)) = number weight 11 (ints u) := by
  have first : |ints u (0 : Fin 9)| ≤ 2 ^ 26 := (carried.done 0 (by omega)).le
  have second : |ints u 1| < 2 ^ 25 := carried.done 1 (by omega)
  have excess : |ints u ((0 : Fin 9) + 10)| ≤ 281 * 2 ^ 29 := carried.here
  have folded : ints w = update (update (ints u) 0 (ints u 0 + 19 * ints u 10)) 10 0 := by
    rw [cleared, foldLimb_ints first excess (by norm_num)]
    rfl
  have wZero : ints w 0 = ints u 0 + 19 * ints u 10 := by
    rw [folded, update_of_ne (by omega), update_self]
  have wElse (i : ℕ) (some : i ≠ 0) (low : i < 10) : ints w i = ints u i := by
    rw [folded, update_of_ne (by omega), update_of_ne some]
  have small : |ints w 0| ≤ 2 ^ 26 + 19 * (281 * 2 ^ 29) := by
    have firstRange : -2 ^ 26 ≤ ints u 0 ∧ ints u 0 ≤ 2 ^ 26 := abs_le.mp first
    have excessRange : -(281 * 2 ^ 29) ≤ ints u 10 ∧ ints u 10 ≤ 281 * 2 ^ 29 := abs_le.mp excess
    rw [wZero, abs_le]
    omega
  have next : |ints w 1| < 2 ^ 25 := by
    rwa [wElse 1 (by omega) (by omega)]
  obtain ⟨left, moved⟩ := quotient_spec (width_cases 0) small
  have carry : ints (carry26 w 0) = carryOver (ints w) 0 (2 ^ 26) (quotient (ints w 0) 26) :=
    carryLimb_ints (i := 0) divBy2_26_toInt rfl (.inr rfl) (small.trans (by norm_num))
      (next.le.trans (by norm_num))
  rw [carry]
  constructor
  · intro i low
    rw [carryOver]
    by_cases one : i = 1
    · subst one
      rw [update_self, zero_add, abs_lt]
      have moves : -(2 ^ 26 + 19 * (281 * 2 ^ 29)) ≤ quotient (ints w 0) 26 * 2 ^ 26 ∧
          quotient (ints w 0) 26 * 2 ^ 26 ≤ 2 ^ 26 + 19 * (281 * 2 ^ 29) := abs_le.mp moved
      have range := abs_lt.mp next
      omega
    · rw [update_of_ne one]
      by_cases zero : i = 0
      · subst zero
        rwa [update_self]
      · rw [update_of_ne zero, wElse i zero low]
        exact (carried.done i low).trans_le (width_le i)
  · have next : (weight (0 + 1) : R) = (2 ^ 26 : ℤ) * weight 0 := weight_succ 0
    rw [number_carryOver weight _ (by omega) _ next, folded,
      number_congr weight (fun i inside ↦ update_of_ne (by omega) _ _), number_update weight _ (by omega)]
    have eleven : number (weight : ℕ → R) 11 (ints u) =
        number weight 10 (ints u) + (ints u 10 : R) * weight 10 := by
      rw [number, Finset.sum_range_succ, number]
    rw [eleven, weight_add_ten modulus 0]
    push_cast
    ring

theorem freduceCoefficients_spec (modulus : (2 : R) ^ 255 = 19) {t : Limbs 19}
    (small : ∀ i < 10, |ints t i| ≤ 280 * 2 ^ 54) :
    (∀ i < 10, |ints (freduceCoefficients t) i| < 2 ^ 26) ∧
      number (weight : ℕ → R) 10 (ints (freduceCoefficients t)) = number weight 10 (ints t) := by
  have start : Carried 0 (ints (t.set 10 0)) := by
    rw [ints_set]
    exact start_carried small
  obtain ⟨carried, same⟩ := carryPairs_spec (R := R) start
  simp only [freduceCoefficients]
  generalize ([0, 1, 2, 3, 4] : List (Fin 9)).foldl carryPair (t.set 10 0) = u at carried same ⊢
  obtain ⟨below, again⟩ := lastCarry_spec modulus carried (ints_set ..)
  refine ⟨below, again.trans (same.trans ?_)⟩
  rw [ints_set, number, Finset.sum_range_succ, update_self]
  simp only [Int64.toInt_zero, Int.cast_zero, zero_mul, add_zero]
  exact number_congr weight fun i inside ↦ update_of_ne (by omega) _ _

theorem foldLimbs_ints {t : Limbs 19} (small : ∀ i, |ints t i| ≤ 14 * 2 ^ 54) (indices : List (Fin 9))
    (distinct : indices.Nodup) (i : ℕ) :
    ints (indices.foldl foldLimb t) i =
      if i ∈ indices.map Fin.val then ints t i + 19 * ints t (i + 10) else ints t i := by
  induction indices using List.reverseRecOn generalizing i with
  | nil => simp
  | append_singleton indices k ih =>
    have parts := List.nodup_append.mp distinct
    have before := ih parts.1
    have fresh : k.val ∉ indices.map Fin.val := by
      intro member
      obtain ⟨j, listed, same⟩ := List.mem_map.mp member
      exact parts.2.2 j listed k (by simp) (Fin.ext same)
    have outside : k.val + 10 ∉ indices.map Fin.val := by
      intro member
      obtain ⟨j, _, same⟩ := List.mem_map.mp member
      omega
    rw [List.foldl_append, List.foldl_cons, List.foldl_nil,
      foldLimb_ints (m := 14 * 2 ^ 54) (k := 14 * 2 ^ 54)
        (by rw [before, if_neg fresh]; exact small _) (by rw [before, if_neg outside]; exact small _)
        (by norm_num)]
    by_cases same : i = k.val
    · subst same
      rw [update_self, before, before, if_neg fresh, if_neg outside]
      simp
    · rw [update_of_ne same, before]
      simp [same]

theorem freduceDegree_spec (modulus : (2 : R) ^ 255 = 19) {t : Limbs 19}
    (small : ∀ i, |ints t i| ≤ 14 * 2 ^ 54) :
    (∀ i < 10, |ints (freduceDegree t) i| ≤ 280 * 2 ^ 54) ∧
      number (weight : ℕ → R) 10 (ints (freduceDegree t)) = number weight 19 (ints t) := by
  have all (i : ℕ) : ints (freduceDegree t) i =
      if i < 9 then ints t i + 19 * ints t (i + 10) else ints t i := by
    rw [freduceDegree, foldLimbs_ints small _ (by decide)]
    have members : i ∈ ([8, 7, 6, 5, 4, 3, 2, 1, 0] : List (Fin 9)).map Fin.val ↔ i < 9 := by
      simp
      omega
    simp only [members]
  constructor
  · intro i inside
    have low := abs_le.mp (small i)
    have high := abs_le.mp (small (i + 10))
    rw [all, abs_le]
    split <;> omega
  · have high : ∑ i ∈ Finset.range 9, (ints t (10 + i) : R) * weight (10 + i) =
        ∑ i ∈ Finset.range 9, (19 * ints t (i + 10) : R) * weight i := by
      refine Finset.sum_congr rfl fun i _ ↦ ?_
      rw [weight_add_ten modulus, add_comm 10 i]
      ring
    have low : ∑ i ∈ Finset.range 9, (ints (freduceDegree t) i : R) * weight i =
        ∑ i ∈ Finset.range 9, (ints t i : R) * weight i +
          ∑ i ∈ Finset.range 9, (19 * ints t (i + 10) : R) * weight i := by
      rw [← Finset.sum_add_distrib]
      refine Finset.sum_congr rfl fun i inside ↦ ?_
      rw [all, if_pos (Finset.mem_range.mp inside)]
      push_cast
      ring
    have nine : ints (freduceDegree t) 9 = ints t 9 := by
      rw [all, if_neg (by omega)]
    rw [number, number, Finset.sum_range_add _ 10 9, high, Finset.sum_range_succ, low, nine,
      Finset.sum_range_succ _ 9]
    ring

theorem short_ints (t : Limbs 19) {i : ℕ} (inside : i < 10) : ints (short t) i = ints t i := by
  have taken : (short t)[i] = t[i] := Vector.getElem_ofFn inside
  rw [ints_of_lt _ inside, ints_of_lt _ (by omega), taken]

theorem short_below {t : Limbs 19} {bound : ℤ} (positive : 0 < bound)
    (small : ∀ i < 10, |ints t i| < bound) : Below bound (short t) := by
  intro i
  by_cases inside : i < 10
  · rw [short_ints t inside]
    exact small i inside
  · simpa [ints, inside] using positive

theorem short_value (t : Limbs 19) : (value (short t) : R) = number weight 10 (ints t) :=
  number_congr weight fun _ inside ↦ short_ints t inside

theorem reduce_spec (modulus : (2 : R) ^ 255 = 19) {t : Limbs 19} (small : ∀ i, |ints t i| ≤ 14 * 2 ^ 54) :
    Below (2 ^ 26) (reduce t) ∧ (value (reduce t) : R) = number weight 19 (ints t) := by
  obtain ⟨degree, same⟩ := freduceDegree_spec modulus small
  obtain ⟨below, again⟩ := freduceCoefficients_spec modulus degree
  exact ⟨short_below (by norm_num) below, (short_value _).trans (again.trans same)⟩

end

instance : OfNat Tracked 2 := ⟨.ofWord 2 2 (by norm_num) (by decide)⟩
instance : OfNat Tracked 4 := ⟨.ofWord 4 4 (by norm_num) (by decide)⟩

section
variable (x y : Fin 10 → Tracked) (k : Fin 19)

theorem productTerms_word :
    (productTerms x y)[k].word = (productTerms (fun i ↦ (x i).word) (fun i ↦ (y i).word))[k] := by
  fin_cases k <;> rfl

theorem productTerms_exact :
    (productTerms x y)[k].exact = (productTerms (fun i ↦ (x i).exact) (fun i ↦ (y i).exact))[k] := by
  fin_cases k <;> rfl

theorem productTerms_bound :
    (productTerms x y)[k].bound = (productTerms (fun i ↦ (x i).bound) (fun i ↦ (y i).bound))[k] := by
  fin_cases k <;> rfl

theorem squareTerms_word : (squareTerms x)[k].word = (squareTerms fun i ↦ (x i).word)[k] := by
  fin_cases k <;> rfl

theorem squareTerms_exact : (squareTerms x)[k].exact = (squareTerms fun i ↦ (x i).exact)[k] := by
  fin_cases k <;> rfl

theorem squareTerms_bound : (squareTerms x)[k].bound = (squareTerms fun i ↦ (x i).bound)[k] := by
  fin_cases k <;> rfl

end

theorem productTerms_le (k : Fin 19) :
    (productTerms (fun _ ↦ 2 ^ 27) (fun _ ↦ 2 ^ 27) : Vector ℕ 19)[k] ≤ 14 * 2 ^ 54 := by
  revert k
  decide

theorem squareTerms_le (k : Fin 19) :
    (squareTerms (fun _ ↦ 2 ^ 27) : Vector ℕ 19)[k] ≤ 14 * 2 ^ 54 := by
  revert k
  decide

theorem s32_toInt {v : Int64} (small : |v.toInt| < 2 ^ 31) : (s32 v).toInt = v.toInt := by
  have range := abs_lt.mp small
  rw [s32, Int32.toInt_toInt64, Int64.toInt_toInt32]
  exact bmod_small (w := 31) range.1.le range.2

def tracked {t : Limbs 10} (small : Below (2 ^ 27) t) (i : Fin 10) : Tracked :=
  .ofWord (s32 (t.get i)) (2 ^ 27) (by norm_num) (by
    have below := small i
    rw [ints_of_lt t i.isLt] at below
    change |(s32 t[i.val]).toInt| ≤ _
    rw [s32_toInt (below.trans (by norm_num))]
    exact_mod_cast below.le)

theorem tracked_exact {t : Limbs 10} (small : Below (2 ^ 27) t) (i : Fin 10) :
    (tracked small i).exact = ints t i := by
  have below := small i
  rw [ints_of_lt t i.isLt] at below ⊢
  exact s32_toInt (below.trans (by norm_num))

section
variable {R : Type} [CommRing R]

/-- The limbs of a product or a square, followed exactly, do not overflow and write its value. -/
theorem terms_spec {t : Limbs 19} (terms : Vector Tracked 19) (exact : Fin 19 → ℤ)
    (words : ∀ k : Fin 19, t[k] = terms[k].word) (values : ∀ k : Fin 19, terms[k].exact = exact k)
    (bounds : ∀ k : Fin 19, terms[k].bound ≤ 14 * 2 ^ 54) :
    (∀ i, |ints t i| ≤ 14 * 2 ^ 54) ∧
      number (weight : ℕ → R) 19 (ints t) = ∑ k : Fin 19, (exact k : R) * weight k := by
  have each (k : Fin 19) : ints t k = exact k ∧ |exact k| ≤ 14 * 2 ^ 54 := by
    have bound := bounds k
    obtain ⟨same, small⟩ := terms[k].sound (by omega)
    rw [values] at same small
    refine ⟨?_, small.trans (by exact_mod_cast bound)⟩
    rw [ints_of_lt t k.isLt, ← same]
    exact congrArg Int64.toInt (words k)
  constructor
  · intro i
    by_cases inside : i < 19
    · obtain ⟨same, small⟩ := each ⟨i, inside⟩
      rw [show ints t i = _ from same]
      exact small
    · simp [ints, inside]
  · rw [number, Finset.sum_range]
    exact Finset.sum_congr rfl fun k _ ↦ by rw [(each k).1]

theorem productTerms_sum (x y : Fin 10 → R) :
    ∑ k : Fin 19, (productTerms x y)[k] * weight k =
      (∑ i : Fin 10, x i * weight i) * ∑ i : Fin 10, y i * weight i := by
  simp only [Fin.sum_univ_succ, Fin.sum_univ_zero, productTerms, weight]
  generalize (2 ^ 25 : R) = s
  simp
  ring

theorem squareTerms_eq (x : Fin 10 → R) : squareTerms x = productTerms x x := by
  simp [squareTerms, productTerms]
  refine ⟨?_, ?_, ?_, ?_, ?_, ?_, ?_, ?_, ?_, ?_, ?_, ?_, ?_, ?_, ?_, ?_, ?_⟩ <;> ring

theorem value_eq (t : Limbs 10) : (value t : R) = ∑ i : Fin 10, (ints t i : R) * weight i := by
  rw [value, number, Finset.sum_range]

theorem productTerms_cast (x y : Fin 10 → ℤ) (k : Fin 19) :
    ((productTerms x y)[k] : R) = (productTerms (fun i ↦ (x i : R)) (fun i ↦ (y i : R)))[k] := by
  fin_cases k <;> simp [productTerms]

theorem fproduct_spec {a b : Limbs 10} (first : Below (2 ^ 27) a) (second : Below (2 ^ 27) b) :
    (∀ i, |ints (fproduct a b) i| ≤ 14 * 2 ^ 54) ∧
      number (weight : ℕ → R) 19 (ints (fproduct a b)) = value a * value b := by
  have words (k : Fin 19) : (fproduct a b)[k] = (productTerms (tracked first) (tracked second))[k].word :=
    (productTerms_word (tracked first) (tracked second) k).symm
  have values (k : Fin 19) : (productTerms (tracked first) (tracked second))[k].exact =
      (productTerms (fun i : Fin 10 ↦ ints a i) (fun i ↦ ints b i))[k] := by
    rw [productTerms_exact]
    simp only [tracked_exact]
  have bounds (k : Fin 19) : (productTerms (tracked first) (tracked second))[k].bound ≤ 14 * 2 ^ 54 := by
    rw [productTerms_bound]
    exact productTerms_le k
  obtain ⟨small, sum⟩ := terms_spec (R := R) _ _ words values bounds
  refine ⟨small, sum.trans ?_⟩
  simp only [productTerms_cast]
  rw [productTerms_sum, value_eq, value_eq]

theorem fsquareInner_spec {a : Limbs 10} (small : Below (2 ^ 27) a) :
    (∀ i, |ints (fsquareInner a) i| ≤ 14 * 2 ^ 54) ∧
      number (weight : ℕ → R) 19 (ints (fsquareInner a)) = value a * value a := by
  have words (k : Fin 19) : (fsquareInner a)[k] = (squareTerms (tracked small))[k].word :=
    (squareTerms_word (tracked small) k).symm
  have values (k : Fin 19) : (squareTerms (tracked small))[k].exact =
      (productTerms (fun i : Fin 10 ↦ ints a i) (fun i ↦ ints a i))[k] := by
    rw [squareTerms_exact, ← squareTerms_eq]
    simp only [tracked_exact]
  have bounds (k : Fin 19) : (squareTerms (tracked small))[k].bound ≤ 14 * 2 ^ 54 := by
    rw [squareTerms_bound]
    exact squareTerms_le k
  obtain ⟨below, sum⟩ := terms_spec (R := R) _ _ words values bounds
  refine ⟨below, sum.trans ?_⟩
  simp only [productTerms_cast]
  rw [productTerms_sum, value_eq]

theorem fmul_spec (modulus : (2 : R) ^ 255 = 19) {a b : Limbs 10} (first : Below (2 ^ 27) a)
    (second : Below (2 ^ 27) b) :
    Below (2 ^ 26) (fmul a b) ∧ (value (fmul a b) : R) = value a * value b := by
  obtain ⟨small, product⟩ := fproduct_spec (R := R) first second
  obtain ⟨below, same⟩ := reduce_spec modulus small
  exact ⟨below, same.trans product⟩

theorem fsquare_spec (modulus : (2 : R) ^ 255 = 19) {a : Limbs 10} (small : Below (2 ^ 27) a) :
    Below (2 ^ 26) (fsquare a) ∧ (value (fsquare a) : R) = value a * value a := by
  obtain ⟨products, square⟩ := fsquareInner_spec (R := R) small
  obtain ⟨below, same⟩ := reduce_spec modulus products
  exact ⟨below, same.trans square⟩

end

end Curve25519
