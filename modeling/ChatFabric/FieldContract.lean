import ChatFabric.ByteNumbers
import ChatFabric.FieldProducts
import Mathlib.Tactic.IntervalCases
import Mathlib.Tactic.LinearCombination

/- The passes of fcontract over the limbs of a field element. Two passes of borrows leave no limb
   negative, two passes of carries leave each limb its own bits, and a subtraction that depends on a
   mask leaves the least number of the class modulo 2^255 - 19. -/
namespace Curve25519
open ByteStrings ByteNumbers LimbNumbers MachineWords Function

def wordInts (t : Words) (i : Nat) : ℤ := (t[i]?.getD 0).toInt

theorem wordInts_of_lt (t : Words) {i : Nat} (inside : i < 10) : wordInts t i = t[i].toInt := by
  simp [wordInts, inside]

theorem wordInts_set (t : Words) {i : Nat} (inside : i < 10) (v : Int32) :
    wordInts (t.set i v) = update (wordInts t) i v.toInt := by
  funext j
  by_cases same : i = j
  · subst same
    simp [wordInts, inside]
  · rw [update_of_ne (Ne.symm same)]
    simp [wordInts, same]

theorem limbBits_amount (i : ℕ) : ((limbBits i).toBitVec.smod 32).toNat = width i := by
  unfold limbBits width
  rcases Nat.mod_two_eq_zero_or_one i with even | odd
  · simp only [even, zero_ne_one, if_false, if_true]
    rfl
  · simp only [odd, one_ne_zero, if_false, if_true]
    rfl

theorem limbMask_ones (i : ℕ) : (limbMask i).toBitVec.toNat = 2 ^ width i - 1 := by
  unfold limbMask width
  rcases Nat.mod_two_eq_zero_or_one i with even | odd
  · simp only [even, zero_ne_one, if_false, if_true]
    rfl
  · simp only [odd, one_ne_zero, if_false, if_true]
    rfl

theorem sign_word (v : Int32) : v >>> 31 = if v.toInt < 0 then -1 else 0 := by
  have low := v.le_toInt
  have high := v.toInt_lt
  apply Int32.toInt_inj.mp
  rw [int32_shiftRight (n := 31) v rfl]
  split
  · have value : (-1 : Int32).toInt = -1 := rfl
    omega
  · have value : (0 : Int32).toInt = 0 := rfl
    omega

theorem and_sign (v : Int32) : (v &&& (v >>> 31)).toInt = min v.toInt 0 := by
  by_cases negative : v.toInt < 0
  · rw [sign_word, if_pos negative, Int32.and_neg_one, min_eq_left negative.le]
  · rw [sign_word, if_neg negative, Int32.and_zero, min_eq_right (by omega)]
    rfl

def borrowed (v : ℤ) (n : ℕ) : ℤ := min v 0 / 2 ^ n

theorem borrowed_spec {n : ℕ} (size : n = 25 ∨ n = 26) {v m : ℤ} (small : |v| ≤ m) :
    -m - 2 ^ 26 ≤ borrowed v n * 2 ^ n ∧ borrowed v n * 2 ^ n ≤ 0 ∧ -m ≤ borrowed v n ∧ borrowed v n ≤ 0 := by
  have range := abs_le.mp small
  unfold borrowed
  rcases size with rfl | rfl <;> omega

theorem set_carryOver {t : Words} {i : Fin 9} {kept given : Int32} {base c : ℤ}
    (left : kept.toInt = wordInts t i - c * base) (moved : given.toInt = wordInts t (i + 1) + c) :
    wordInts ((t.set i kept).set (i.val + 1) given) = carryOver (wordInts t) i base c := by
  rw [wordInts_set, wordInts_set, left, moved, carryOver]

/-- Limb 9 gives c times its base to limb 0, which counts it 19 times. -/
def carryRound (x : ℕ → ℤ) (c : ℤ) : ℕ → ℤ := update (update x 9 (x 9 - c * 2 ^ 25)) 0 (x 0 + 19 * c)

theorem set_carryRound {t : Words} {kept given : Int32} {c : ℤ}
    (left : kept.toInt = wordInts t 9 - c * 2 ^ 25) (moved : given.toInt = wordInts t 0 + 19 * c) :
    wordInts ((t.set 9 kept).set 0 given) = carryRound (wordInts t) c := by
  rw [wordInts_set, wordInts_set, left, moved, carryRound]

theorem borrow_words (v bits : Int32) {n : ℕ} (amount : (bits.toBitVec.smod 32).toNat = n)
    (size : n = 25 ∨ n = 26) (small : |v.toInt| ≤ 2 ^ 28) :
    (-((v &&& (v >>> 31)) >>> bits)).toInt = -borrowed v.toInt n ∧
      (v + ((-((v &&& (v >>> 31)) >>> bits)) <<< bits)).toInt = v.toInt - borrowed v.toInt n * 2 ^ n := by
  obtain ⟨low, high, smallLow, smallHigh⟩ := borrowed_spec size small
  have range := abs_le.mp small
  have excess : (-((v &&& (v >>> 31)) >>> bits)).toInt = -borrowed v.toInt n := by
    have shifted : ((v &&& (v >>> 31)) >>> bits).toInt = borrowed v.toInt n := by
      rw [int32_shiftRight _ amount, and_sign, borrowed]
    rw [int32_neg (by omega), shifted]
  refine ⟨excess, ?_⟩
  generalize -((v &&& (v >>> 31)) >>> bits) = c at excess ⊢
  have shifted : (c <<< bits).toInt = -(borrowed v.toInt n * 2 ^ n) := by
    rw [int32_shiftLeft amount, excess, neg_mul, bmod_small (w := 31) (by omega) (by omega)]
  rw [int32_add] <;> rw [shifted] <;> omega

theorem borrow_ints {t : Words} {i : Fin 9} (here : |wordInts t i| ≤ 2 ^ 28)
    (next : |wordInts t (i + 1)| ≤ 2 ^ 28) :
    wordInts (borrow t i) =
      carryOver (wordInts t) i (2 ^ width i) (borrowed (wordInts t i) (width i)) := by
  have hereValue : wordInts t i = t[i].toInt := wordInts_of_lt t (by omega)
  have nextValue : wordInts t (i + 1) = t[i.val + 1].toInt := wordInts_of_lt t (by omega)
  rw [hereValue] at here
  rw [nextValue] at next
  obtain ⟨_, _, smallLow, smallHigh⟩ := borrowed_spec (width_cases i) here
  obtain ⟨excess, kept⟩ := borrow_words _ _ (limbBits_amount i) (width_cases i) here
  have nextRange := abs_le.mp next
  rw [← hereValue] at kept excess
  simp only [borrow]
  rw [Vector.getElem_set_ne _ _ (by omega)]
  refine set_carryOver kept ?_
  rw [nextValue, int32_sub] <;> rw [excess, hereValue] <;> omega

theorem borrowAround_ints {t : Words} (last : |wordInts t 9| ≤ 2 ^ 28) (first : |wordInts t 0| ≤ 2 ^ 28) :
    wordInts (borrowAround t) = carryRound (wordInts t) (borrowed (wordInts t 9) 25) := by
  have lastValue : wordInts t 9 = t[9].toInt := wordInts_of_lt t (by omega)
  have firstValue : wordInts t 0 = t[0].toInt := wordInts_of_lt t (by omega)
  rw [lastValue] at last
  rw [firstValue] at first
  obtain ⟨low, high, _, _⟩ := borrowed_spec (.inl rfl) last
  obtain ⟨excess, kept⟩ := borrow_words _ 25 (n := 25) rfl (.inl rfl) last
  have firstRange := abs_le.mp first
  rw [← lastValue] at kept excess low high
  have nineteen : (19 : Int32).toInt = 19 := rfl
  simp only [borrowAround]
  rw [Vector.getElem_set_ne _ _ (by omega)]
  refine set_carryRound kept ?_
  have times : (-((t[9] &&& (t[9] >>> 31)) >>> 25) * 19).toInt = -(19 * borrowed (wordInts t 9) 25) := by
    rw [int32_mul] <;> rw [excess, nineteen] <;> omega
  rw [firstValue, int32_sub] <;> rw [times] <;> omega

theorem carry_words (v bits mask : Int32) {n : ℕ} (amount : (bits.toBitVec.smod 32).toNat = n)
    (ones : mask.toBitVec.toNat = 2 ^ n - 1) (short : n ≤ 31) :
    (v >>> bits).toInt = v.toInt / 2 ^ n ∧ (v &&& mask).toInt = v.toInt - v.toInt / 2 ^ n * 2 ^ n := by
  refine ⟨int32_shiftRight v amount, ?_⟩
  have low : (v &&& mask).toInt = v.toInt % 2 ^ n := by
    rw [← Int32.toInt_toBitVec, Int32.toBitVec_and, and_mask _ _ ones short, Int32.toInt_toBitVec]
  rw [low, Int.emod_def, mul_comm]

theorem carry_ints {t : Words} {i : Fin 9} (here : |wordInts t i| ≤ 2 ^ 28)
    (next : |wordInts t (i + 1)| ≤ 2 ^ 28) :
    wordInts (carry t i) = carryOver (wordInts t) i (2 ^ width i) (wordInts t i / 2 ^ width i) := by
  have hereValue : wordInts t i = t[i].toInt := wordInts_of_lt t (by omega)
  have nextValue : wordInts t (i + 1) = t[i.val + 1].toInt := wordInts_of_lt t (by omega)
  have range := abs_le.mp here
  have nextRange := abs_le.mp next
  rw [nextValue] at nextRange
  have small : -2 ^ 28 ≤ wordInts t i / 2 ^ width i ∧ wordInts t i / 2 ^ width i ≤ 2 ^ 28 := by
    rcases width_cases i with size | size <;> rw [size] <;> omega
  obtain ⟨excess, kept⟩ := carry_words t[i] _ _ (limbBits_amount i) (limbMask_ones i)
    (by rcases width_cases i with size | size <;> omega)
  rw [← hereValue] at excess kept
  simp only [carry]
  rw [Vector.getElem_set_ne _ _ (by omega)]
  refine set_carryOver kept ?_
  rw [nextValue, int32_add] <;> rw [excess] <;> omega

theorem carryAround_ints {t : Words} (last : |wordInts t 9| ≤ 2 ^ 28) (first : |wordInts t 0| ≤ 2 ^ 28) :
    wordInts (carryAround t) = carryRound (wordInts t) (wordInts t 9 / 2 ^ 25) := by
  have lastValue : wordInts t 9 = t[9].toInt := wordInts_of_lt t (by omega)
  have firstValue : wordInts t 0 = t[0].toInt := wordInts_of_lt t (by omega)
  have range := abs_le.mp last
  have firstRange := abs_le.mp first
  rw [firstValue] at firstRange
  obtain ⟨excess, kept⟩ := carry_words t[9] 25 0x1ffffff (n := 25) rfl rfl (by omega)
  rw [← lastValue] at excess kept
  have nineteen : (19 : Int32).toInt = 19 := rfl
  simp only [carryAround]
  rw [Vector.getElem_set_ne _ _ (by omega)]
  refine set_carryRound kept ?_
  have times : ((19 : Int32) * (t[9] >>> 25)).toInt = 19 * (wordInts t 9 / 2 ^ 25) := by
    rw [int32_mul] <;> rw [excess, nineteen] <;> omega
  rw [firstValue, int32_add] <;> rw [times] <;> omega

theorem carryRound_first (x : ℕ → ℤ) (c : ℤ) : carryRound x c 0 = x 0 + 19 * c := update_self ..

theorem carryRound_last (x : ℕ → ℤ) (c : ℤ) : carryRound x c 9 = x 9 - c * 2 ^ 25 := by
  rw [carryRound, update_of_ne (by omega), update_self]

theorem carryRound_other (x : ℕ → ℤ) (c : ℤ) {j : ℕ} (first : j ≠ 0) (last : j ≠ 9) :
    carryRound x c j = x j := by
  rw [carryRound, update_of_ne first, update_of_ne last]

def Natural (x : ℕ → ℤ) (i : ℕ) : Prop := 0 ≤ x i ∧ x i < 2 ^ 26

structure FirstBorrow (i : ℕ) (x : ℕ → ℤ) : Prop where
  done : ∀ j < i, Natural x j
  here : -2 ^ 26 - 3 ≤ x i ∧ x i < 2 ^ 26
  ahead : ∀ j, i < j → j < 10 → -2 ^ 26 < x j ∧ x j < 2 ^ 26

theorem borrowed_range {n : ℕ} (size : n = 25 ∨ n = 26) {v : ℤ} (low : -2 ^ 26 - 3 ≤ v) (high : v < 2 ^ 26) :
    (0 ≤ v - borrowed v n * 2 ^ n ∧ v - borrowed v n * 2 ^ n < 2 ^ 26) ∧
      -3 ≤ borrowed v n ∧ borrowed v n ≤ 0 ∧ (0 ≤ v → borrowed v n = 0) := by
  unfold borrowed
  rcases size with rfl | rfl <;> omega

theorem FirstBorrow.step {i : ℕ} {x : ℕ → ℤ} (borrow : FirstBorrow i x) (inside : i < 9) :
    FirstBorrow (i + 1) (carryOver x i (2 ^ width i) (borrowed (x i) (width i))) := by
  obtain ⟨kept, low, high, _⟩ := borrowed_range (width_cases i) borrow.here.1 borrow.here.2
  constructor
  · intro j below
    by_cases same : j = i
    · subst same
      rwa [Natural, carryOver_self]
    · rw [Natural, carryOver_other _ _ _ _ same (by omega)]
      exact borrow.done j (by omega)
  · have next := borrow.ahead (i + 1) (by omega) (by omega)
    rw [carryOver_next]
    omega
  · intro j beyond last
    rw [carryOver_other _ _ _ _ (by omega) (by omega)]
    exact borrow.ahead j (by omega) last

structure NearlyNatural (x : ℕ → ℤ) : Prop where
  first : -57 ≤ x 0 ∧ x 0 < 2 ^ 26
  rest : ∀ j, 0 < j → j < 10 → Natural x j

theorem FirstBorrow.around {x : ℕ → ℤ} (borrow : FirstBorrow 9 x) :
    NearlyNatural (carryRound x (borrowed (x 9) 25)) := by
  obtain ⟨kept, low, high, _⟩ := borrowed_range (.inl rfl) borrow.here.1 borrow.here.2
  constructor
  · have first := borrow.done 0 (by omega)
    rw [Natural] at first
    rw [carryRound_first]
    omega
  · intro j some inside
    by_cases last : j = 9
    · subst last
      rwa [Natural, carryRound_last]
    · rw [Natural, carryRound_other _ _ (by omega) last]
      exact borrow.done j (by omega)

/-- A second borrow has come to limb i; beyond limb 0 it goes on only if limb 0 has borrowed. -/
structure SecondBorrow (i : ℕ) (x : ℕ → ℤ) : Prop where
  done : ∀ j < i, Natural x j
  here : -57 ≤ x i ∧ x i < 2 ^ 26
  chain : 0 < i → -1 ≤ x i ∧ (x i < 0 → 2 ^ 26 - 57 ≤ x 0)
  ahead : ∀ j, i < j → j < 10 → Natural x j

theorem NearlyNatural.start {x : ℕ → ℤ} (nearly : NearlyNatural x) : SecondBorrow 0 x where
  done j below := absurd below (by omega)
  here := nearly.first
  chain some := absurd some (by omega)
  ahead := nearly.rest

theorem borrowed_small {n : ℕ} (size : n = 25 ∨ n = 26) {v : ℤ} (low : -57 ≤ v) :
    borrowed v n = if v < 0 then -1 else 0 := by
  unfold borrowed
  rcases size with rfl | rfl <;> split <;> omega

theorem SecondBorrow.step {i : ℕ} {x : ℕ → ℤ} (borrow : SecondBorrow i x) (inside : i < 9) :
    SecondBorrow (i + 1) (carryOver x i (2 ^ width i) (borrowed (x i) (width i))) := by
  obtain ⟨low, high⟩ := borrow.here
  obtain ⟨kept, _⟩ := borrowed_range (width_cases i) (by omega) high
  have small := borrowed_small (width_cases i) low
  have next := borrow.ahead (i + 1) (by omega) (by omega)
  rw [Natural] at next
  generalize borrowed (x i) (width i) = c at kept small ⊢
  constructor
  · intro j below
    by_cases same : j = i
    · subst same
      rwa [Natural, carryOver_self]
    · rw [Natural, carryOver_other _ _ _ _ same (by omega)]
      exact borrow.done j (by omega)
  · rw [carryOver_next]
    split at small <;> omega
  · intro _
    rw [carryOver_next]
    refine ⟨by split at small <;> omega, fun below ↦ ?_⟩
    have negative : x i < 0 := by
      split at small <;> omega
    rw [if_pos negative] at small
    by_cases first : i = 0
    · subst first
      rw [carryOver_self, small]
      have size : (2 : ℤ) ^ width 0 = 2 ^ 26 := rfl
      omega
    · rw [carryOver_other _ _ _ _ (by omega) (by omega)]
      exact (borrow.chain (by omega)).2 negative
  · intro j beyond last
    rw [Natural, carryOver_other _ _ _ _ (by omega) (by omega)]
    exact borrow.ahead j (by omega) last

theorem SecondBorrow.around {x : ℕ → ℤ} (borrow : SecondBorrow 9 x) (j : ℕ) (inside : j < 10) :
    Natural (carryRound x (borrowed (x 9) 25)) j := by
  obtain ⟨low, high⟩ := borrow.here
  obtain ⟨kept, _⟩ := borrowed_range (.inl rfl) (by omega) high
  have small := borrowed_small (.inl rfl) low
  have chain := (borrow.chain (by omega)).2
  have zero := borrow.done 0 (by omega)
  rw [Natural] at zero ⊢
  by_cases first : j = 0
  · subst first
    rw [carryRound_first]
    split at small <;> omega
  · by_cases last : j = 9
    · subst last
      rwa [carryRound_last]
    · rw [carryRound_other _ _ first last]
      exact borrow.done j (by omega)

def Fits (x : ℕ → ℤ) (i : ℕ) : Prop := 0 ≤ x i ∧ x i < 2 ^ width i

structure FirstCarry (i : ℕ) (x : ℕ → ℤ) : Prop where
  done : ∀ j < i, Fits x j
  here : 0 ≤ x i ∧ x i < 2 ^ 26 + 2
  ahead : ∀ j, i < j → j < 10 → Natural x j

theorem carried_range {n : ℕ} (size : n = 25 ∨ n = 26) {v : ℤ} (low : 0 ≤ v) (high : v < 2 ^ 26 + 2) :
    (0 ≤ v - v / 2 ^ n * 2 ^ n ∧ v - v / 2 ^ n * 2 ^ n < 2 ^ n) ∧ 0 ≤ v / 2 ^ n ∧ v / 2 ^ n ≤ 2 := by
  rcases size with rfl | rfl <;> omega

theorem FirstCarry.step {i : ℕ} {x : ℕ → ℤ} (carry : FirstCarry i x) (inside : i < 9) :
    FirstCarry (i + 1) (carryOver x i (2 ^ width i) (x i / 2 ^ width i)) := by
  obtain ⟨kept, low, high⟩ := carried_range (width_cases i) carry.here.1 carry.here.2
  constructor
  · intro j below
    by_cases same : j = i
    · subst same
      rwa [Fits, carryOver_self]
    · rw [Fits, carryOver_other _ _ _ _ same (by omega)]
      exact carry.done j (by omega)
  · have next := carry.ahead (i + 1) (by omega) (by omega)
    rw [Natural] at next
    rw [carryOver_next]
    omega
  · intro j beyond last
    rw [Natural, carryOver_other _ _ _ _ (by omega) (by omega)]
    exact carry.ahead j (by omega) last

structure NearlyFits (x : ℕ → ℤ) : Prop where
  first : 0 ≤ x 0 ∧ x 0 < 2 ^ 26 + 38
  rest : ∀ j, 0 < j → j < 10 → Fits x j

theorem FirstCarry.around {x : ℕ → ℤ} (carry : FirstCarry 9 x) : NearlyFits (carryRound x (x 9 / 2 ^ 25)) := by
  obtain ⟨kept, low, high⟩ := carried_range (.inl rfl) carry.here.1 carry.here.2
  constructor
  · have first : 0 ≤ x 0 ∧ x 0 < 2 ^ 26 := carry.done 0 (by omega)
    rw [carryRound_first]
    omega
  · intro j some inside
    by_cases last : j = 9
    · subst last
      rwa [Fits, carryRound_last]
    · rw [Fits, carryRound_other _ _ (by omega) last]
      exact carry.done j (by omega)

/-- A second carry has come to limb i; beyond limb 0 it goes on only if limb 0 is small. -/
structure SecondCarry (i : ℕ) (x : ℕ → ℤ) : Prop where
  done : ∀ j < i, Fits x j
  here : 0 ≤ x i ∧ x i < 2 ^ width i + 38
  chain : 0 < i → x i ≤ 2 ^ width i ∧ (x i = 2 ^ width i → x 0 < 38)
  ahead : ∀ j, i < j → j < 10 → Fits x j

theorem NearlyFits.start {x : ℕ → ℤ} (nearly : NearlyFits x) : SecondCarry 0 x where
  done j below := absurd below (by omega)
  here := nearly.first
  chain some := absurd some (by omega)
  ahead := nearly.rest

theorem carried_small {n : ℕ} (size : n = 25 ∨ n = 26) {v : ℤ} (low : 0 ≤ v) (high : v < 2 ^ n + 38) :
    (0 ≤ v - v / 2 ^ n * 2 ^ n ∧ v - v / 2 ^ n * 2 ^ n < 2 ^ n) ∧ (v / 2 ^ n = if v < 2 ^ n then 0 else 1) := by
  rcases size with rfl | rfl <;> split <;> omega

theorem SecondCarry.step {i : ℕ} {x : ℕ → ℤ} (carry : SecondCarry i x) (inside : i < 9) :
    SecondCarry (i + 1) (carryOver x i (2 ^ width i) (x i / 2 ^ width i)) := by
  obtain ⟨low, high⟩ := carry.here
  obtain ⟨kept, small⟩ := carried_small (width_cases i) low high
  have next := carry.ahead (i + 1) (by omega) (by omega)
  rw [Fits] at next
  generalize x i / 2 ^ width i = c at kept small ⊢
  constructor
  · intro j below
    by_cases same : j = i
    · subst same
      rwa [Fits, carryOver_self]
    · rw [Fits, carryOver_other _ _ _ _ same (by omega)]
      exact carry.done j (by omega)
  · rw [carryOver_next]
    split at small <;> omega
  · intro _
    rw [carryOver_next]
    refine ⟨by split at small <;> omega, fun full ↦ ?_⟩
    have above : ¬x i < 2 ^ width i := by
      intro below
      rw [if_pos below] at small
      omega
    rw [if_neg above] at small
    by_cases first : i = 0
    · subst first
      rw [carryOver_self, small]
      omega
    · rw [carryOver_other _ _ _ _ (by omega) (by omega)]
      exact (carry.chain (by omega)).2 (by have := (carry.chain (by omega)).1; omega)
  · intro j beyond last
    rw [Fits, carryOver_other _ _ _ _ (by omega) (by omega)]
    exact carry.ahead j (by omega) last

theorem SecondCarry.around {x : ℕ → ℤ} (carry : SecondCarry 9 x) (j : ℕ) (inside : j < 10) :
    Fits (carryRound x (x 9 / 2 ^ 25)) j := by
  obtain ⟨low, high⟩ := carry.here
  obtain ⟨kept, small⟩ := carried_small (.inl rfl) low high
  have chain : x 9 ≤ 2 ^ 25 ∧ (x 9 = 2 ^ 25 → x 0 < 38) := carry.chain (by omega)
  have zero : 0 ≤ x 0 ∧ x 0 < 2 ^ 26 := carry.done 0 (by omega)
  by_cases first : j = 0
  · subst first
    have size : (2 : ℤ) ^ width 0 = 2 ^ 26 := rfl
    rw [Fits, carryRound_first, size]
    split at small <;> omega
  · by_cases last : j = 9
    · subst last
      rwa [Fits, carryRound_last]
    · rw [Fits, carryRound_other _ _ first last]
      exact carry.done j (by omega)

section
variable {K : Type} [CommRing K]

theorem number_carryRound (modulus : (2 : K) ^ 255 = 19) (x : ℕ → ℤ) (c : ℤ) :
    number (weight : ℕ → K) 10 (carryRound x c) = number weight 10 x := by
  have next : (weight 10 : K) = (2 ^ 25 : ℤ) * weight 9 := weight_succ 9
  have around : (weight 10 : K) = 19 * weight 0 := weight_add_ten modulus 0
  rw [carryRound, number_update weight _ (by omega), number_update weight _ (by omega),
    update_of_ne (by omega)]
  push_cast at next ⊢
  linear_combination (c : K) * (next - around)

theorem pass_spec {Inv : ℕ → (ℕ → ℤ) → Prop} {turn : Words → Fin 9 → Words} (amount : (ℕ → ℤ) → ℕ → ℤ)
    (turns : ∀ (t : Words) (i : Fin 9), Inv i (wordInts t) →
      wordInts (turn t i) = carryOver (wordInts t) i (2 ^ width i) (amount (wordInts t) i))
    (step : ∀ i x, i < 9 → Inv i x → Inv (i + 1) (carryOver x i (2 ^ width i) (amount x i)))
    {t : Words} (start : Inv 0 (wordInts t)) :
    Inv 9 (wordInts ((List.finRange 9).foldl turn t)) ∧
      number (weight : ℕ → K) 10 (wordInts ((List.finRange 9).foldl turn t)) =
        number weight 10 (wordInts t) := by
  refine foldl_finRange (fun i u ↦ Inv i (wordInts u) ∧
    number (weight : ℕ → K) 10 (wordInts u) = number weight 10 (wordInts t)) turn ?_ ⟨start, rfl⟩
  intro i u ⟨inv, same⟩
  rw [turns u i inv]
  exact ⟨step i _ i.isLt inv, (number_carryOver weight _ (by omega) _ (weight_succ i.val)).trans same⟩

theorem firstBorrowPass (modulus : (2 : K) ^ 255 = 19) {t : Words} (start : FirstBorrow 0 (wordInts t)) :
    NearlyNatural (wordInts (borrowPass t)) ∧
      number (weight : ℕ → K) 10 (wordInts (borrowPass t)) = number weight 10 (wordInts t) := by
  have turns (t : Words) (i : Fin 9) (inv : FirstBorrow i (wordInts t)) : wordInts (borrow t i) =
      carryOver (wordInts t) i (2 ^ width i) (borrowed (wordInts t i) (width i)) := by
    have here := inv.here
    have next := inv.ahead (i + 1) (by omega) (by omega)
    exact borrow_ints (abs_le.mpr (by omega)) (abs_le.mpr (by omega))
  obtain ⟨inv, same⟩ := pass_spec (K := K) (fun x i ↦ borrowed (x i) (width i)) turns
    (fun i x inside inv ↦ inv.step inside) start
  have here := inv.here
  have first := inv.done 0 (by omega)
  rw [Natural] at first
  rw [borrowPass, borrowAround_ints (abs_le.mpr (by omega)) (abs_le.mpr (by omega))]
  exact ⟨inv.around, (number_carryRound modulus _ _).trans same⟩

theorem secondBorrowPass (modulus : (2 : K) ^ 255 = 19) {t : Words} (start : NearlyNatural (wordInts t)) :
    (∀ j < 10, Natural (wordInts (borrowPass t)) j) ∧
      number (weight : ℕ → K) 10 (wordInts (borrowPass t)) = number weight 10 (wordInts t) := by
  have turns (t : Words) (i : Fin 9) (inv : SecondBorrow i (wordInts t)) : wordInts (borrow t i) =
      carryOver (wordInts t) i (2 ^ width i) (borrowed (wordInts t i) (width i)) := by
    have here := inv.here
    have next := inv.ahead (i + 1) (by omega) (by omega)
    rw [Natural] at next
    exact borrow_ints (abs_le.mpr (by omega)) (abs_le.mpr (by omega))
  obtain ⟨inv, same⟩ := pass_spec (K := K) (fun x i ↦ borrowed (x i) (width i)) turns
    (fun i x inside inv ↦ inv.step inside) start.start
  have here := inv.here
  have first := inv.done 0 (by omega)
  rw [Natural] at first
  rw [borrowPass, borrowAround_ints (abs_le.mpr (by omega)) (abs_le.mpr (by omega))]
  exact ⟨inv.around, (number_carryRound modulus _ _).trans same⟩

/-- The borrow that comparing limb 0 once more would make; there is none left to make. -/
theorem lastBorrow {t : Words} (natural : ∀ j < 10, Natural (wordInts t) j) :
    wordInts (borrow t 0) = wordInts t := by
  have here : 0 ≤ wordInts t 0 ∧ wordInts t 0 < 2 ^ 26 := natural 0 (by omega)
  have next : 0 ≤ wordInts t 1 ∧ wordInts t 1 < 2 ^ 26 := natural 1 (by omega)
  have nothing : borrowed (wordInts t 0) 26 = 0 := by
    rw [borrowed, min_eq_right here.1]
    rfl
  have hereSmall : |wordInts t 0| ≤ 2 ^ 28 := abs_le.mpr (by omega)
  have nextSmall : |wordInts t 1| ≤ 2 ^ 28 := abs_le.mpr (by omega)
  have step : wordInts (borrow t 0) = carryOver (wordInts t) 0 (2 ^ 26) (borrowed (wordInts t 0) 26) :=
    borrow_ints (i := 0) hereSmall nextSmall
  rw [step, nothing, carryOver]
  simp

theorem fits_natural {x : ℕ → ℤ} {i : ℕ} (fits : Fits x i) : Natural x i :=
  ⟨fits.1, fits.2.trans_le (width_le i)⟩

theorem firstCarryPass (modulus : (2 : K) ^ 255 = 19) {t : Words}
    (natural : ∀ j < 10, Natural (wordInts t) j) :
    NearlyFits (wordInts (carryPass t)) ∧
      number (weight : ℕ → K) 10 (wordInts (carryPass t)) = number weight 10 (wordInts t) := by
  have start : FirstCarry 0 (wordInts t) := by
    have first : 0 ≤ wordInts t 0 ∧ wordInts t 0 < 2 ^ 26 := natural 0 (by omega)
    exact ⟨fun j below ↦ absurd below (by omega), by omega, fun j _ inside ↦ natural j inside⟩
  have turns (t : Words) (i : Fin 9) (inv : FirstCarry i (wordInts t)) : wordInts (carry t i) =
      carryOver (wordInts t) i (2 ^ width i) (wordInts t i / 2 ^ width i) := by
    have here := inv.here
    have next := inv.ahead (i + 1) (by omega) (by omega)
    rw [Natural] at next
    exact carry_ints (abs_le.mpr (by omega)) (abs_le.mpr (by omega))
  obtain ⟨inv, same⟩ := pass_spec (K := K) (fun x i ↦ x i / 2 ^ width i) turns
    (fun i x inside inv ↦ inv.step inside) start
  have here := inv.here
  have first := fits_natural (inv.done 0 (by omega))
  rw [Natural] at first
  rw [carryPass, carryAround_ints (abs_le.mpr (by omega)) (abs_le.mpr (by omega))]
  exact ⟨inv.around, (number_carryRound modulus _ _).trans same⟩

theorem secondCarryPass (modulus : (2 : K) ^ 255 = 19) {t : Words} (start : NearlyFits (wordInts t)) :
    (∀ j < 10, Fits (wordInts (carryPass t)) j) ∧
      number (weight : ℕ → K) 10 (wordInts (carryPass t)) = number weight 10 (wordInts t) := by
  have turns (t : Words) (i : Fin 9) (inv : SecondCarry i (wordInts t)) : wordInts (carry t i) =
      carryOver (wordInts t) i (2 ^ width i) (wordInts t i / 2 ^ width i) := by
    have here := inv.here
    have size := width_le i
    have next := fits_natural (inv.ahead (i + 1) (by omega) (by omega))
    rw [Natural] at next
    exact carry_ints (abs_le.mpr (by omega)) (abs_le.mpr (by omega))
  obtain ⟨inv, same⟩ := pass_spec (K := K) (fun x i ↦ x i / 2 ^ width i) turns
    (fun i x inside inv ↦ inv.step inside) start.start
  have here := inv.here
  have size : (2 : ℤ) ^ width 9 = 2 ^ 25 := rfl
  have first := fits_natural (inv.done 0 (by omega))
  rw [size] at here
  rw [Natural] at first
  rw [carryPass, carryAround_ints (abs_le.mpr (by omega)) (abs_le.mpr (by omega))]
  exact ⟨inv.around, (number_carryRound modulus _ _).trans same⟩

end

theorem eq_allOnes_iff {v : BitVec 32} : v = BitVec.allOnes 32 ↔ ∀ i (inside : i < 32), v[i] = true := by
  constructor
  · rintro rfl i inside
    exact BitVec.getElem_allOnes ..
  · intro all
    apply BitVec.eq_of_getElem_eq
    intro i inside
    rw [all i inside, BitVec.getElem_allOnes]

theorem joined_bit (v : BitVec 32) :
    (let a := v
     let a := a &&& (a <<< 16)
     let a := a &&& (a <<< 8)
     let a := a &&& (a <<< 4)
     let a := a &&& (a <<< 2)
     let a := a &&& (a <<< 1)
     a[31]) = true ↔ v = BitVec.allOnes 32 := by
  rw [eq_allOnes_iff]
  constructor
  · intro all i inside
    simp at all
    obtain ⟨⟨⟨⟨⟨_, _⟩, _, _⟩, ⟨_, _⟩, _, _⟩, ⟨⟨_, _⟩, _, _⟩, ⟨_, _⟩, _, _⟩,
      ⟨⟨⟨_, _⟩, _, _⟩, ⟨_, _⟩, _, _⟩, ⟨⟨_, _⟩, _, _⟩, ⟨_, _⟩, _, _⟩ := all
    interval_cases i <;> assumption
  · intro all
    simp [all]

theorem s32Eq_eq (a b : Int32) : s32Eq a b = if a = b then -1 else 0 := by
  have ones : (~~~(a ^^^ b)).toBitVec = BitVec.allOnes 32 ↔ a = b := by
    rw [Int32.toBitVec_not, Int32.toBitVec_xor, ← BitVec.not_zero, BitVec.not_inj, BitVec.xor_eq_zero_iff,
      Int32.toBitVec_inj]
  have sign (w : Int32) : w.toInt < 0 ↔ w.toBitVec[31] = true := by
    have bit : w.toBitVec.msb = w.toBitVec[31] := rfl
    rw [← bit, BitVec.msb_eq_toInt, decide_eq_true_eq, Int32.toInt_toBitVec]
  have joined := joined_bit (~~~(a ^^^ b)).toBitVec
  rw [ones] at joined
  simp only [s32Eq]
  rw [sign_word]
  congr 1
  rw [eq_iff_iff, sign]
  exact joined

theorem s32Gte_eq {a b : Int32} (first : 0 ≤ a.toInt) (second : 0 ≤ b.toInt) :
    s32Gte a b = if b.toInt ≤ a.toInt then -1 else 0 := by
  have aHigh := a.toInt_lt
  have bHigh := b.toInt_lt
  have difference : (a - b).toInt = a.toInt - b.toInt := int32_sub (by omega) (by omega)
  rw [s32Gte, sign_word, difference]
  by_cases less : a.toInt - b.toInt < 0
  · rw [if_pos less, if_neg (by omega)]
    rfl
  · rw [if_neg less, if_pos (by omega)]
    rfl

def modulusLimb (i : ℕ) : ℤ := if i = 0 then 2 ^ 26 - 19 else 2 ^ width i - 1

theorem limbMask_toInt {i : ℕ} (some : i ≠ 0) : (limbMask i).toInt = modulusLimb i := by
  unfold limbMask modulusLimb width
  rw [if_neg some]
  rcases Nat.mod_two_eq_zero_or_one i with even | odd
  · simp only [even, zero_ne_one, if_false, if_true]
    rfl
  · simp only [odd, one_ne_zero, if_false, if_true]
    rfl

def ReachesModulus (x : ℕ → ℤ) : Prop := modulusLimb 0 ≤ x 0 ∧ ∀ i < 9, x (i + 1) = modulusLimb (i + 1)

theorem geMask_eq {t : Words} (fits : ∀ j < 10, Fits (wordInts t) j) [Decidable (ReachesModulus (wordInts t))] :
    geMask t = if ReachesModulus (wordInts t) then -1 else 0 := by
  classical
  let Inv (i : ℕ) (mask : Int32) : Prop :=
    mask = if modulusLimb 0 ≤ wordInts t 0 ∧ ∀ j < i, wordInts t (j + 1) = modulusLimb (j + 1) then -1 else 0
  have start : Inv 0 (s32Gte t[0] 0x3ffffed) := by
    have low := (fits 0 (by omega)).1
    have first : wordInts t 0 = t[0].toInt := wordInts_of_lt t (by omega)
    have limit : (0x3ffffed : Int32).toInt = modulusLimb 0 := rfl
    rw [first] at low
    simp only [Inv]
    rw [s32Gte_eq low (by decide), limit, first]
    simp
  have keep (i : Fin 9) (mask : Int32) (inv : Inv i mask) :
      Inv (i + 1) (mask &&& s32Eq t[i.val + 1] (limbMask (i + 1))) := by
    have equal : t[i.val + 1] = limbMask (i + 1) ↔ wordInts t (i + 1) = modulusLimb (i + 1) := by
      rw [wordInts_of_lt t (by omega), ← limbMask_toInt (by omega), Int32.toInt_inj]
    simp only [Inv] at inv ⊢
    rw [inv, s32Eq_eq]
    by_cases before : modulusLimb 0 ≤ wordInts t 0 ∧ ∀ j < i.val, wordInts t (j + 1) = modulusLimb (j + 1)
    · rw [if_pos before, Int32.neg_one_and]
      refine if_congr ?_ rfl rfl
      rw [equal]
      constructor
      · intro here
        refine ⟨before.1, fun j below ↦ ?_⟩
        by_cases same : j = i.val
        · rw [same]
          exact here
        · exact before.2 j (by omega)
      · intro all
        exact all.2 i (by omega)
    · rw [if_neg before, Int32.zero_and, if_neg]
      exact fun all ↦ before ⟨all.1, fun j below ↦ all.2 j (by omega)⟩
  have last := foldl_finRange Inv (fun mask (i : Fin 9) ↦ mask &&& s32Eq t[i.val + 1] (limbMask (i + 1)))
    keep start
  rw [geMask]
  refine last.trans ?_
  congr 1

theorem subtractModulus_ints {t : Words} (fits : ∀ j < 10, Fits (wordInts t) j) (mask : Int32) (some : ℤ)
    (words : ∀ m : Int32, (mask &&& m).toInt = some * m.toInt) (either : some = 0 ∨ some = 1) :
    ∀ j < 10, wordInts (subtractModulus t mask) j = wordInts t j - some * modulusLimb j := by
  have limb (j : ℕ) : 0 ≤ modulusLimb j ∧ modulusLimb j ≤ 2 ^ 26 := by
    unfold modulusLimb
    split
    · norm_num
    · rcases width_cases j with size | size <;> rw [size] <;> norm_num
  have range (j : ℕ) (inside : j < 10) : -2 ^ 26 ≤ wordInts t j - some * modulusLimb j ∧
      wordInts t j - some * modulusLimb j ≤ 2 ^ 26 := by
    have natural := fits_natural (fits j inside)
    have size := limb j
    rw [Natural] at natural
    rcases either with rfl | rfl <;> omega
  let Inv (i : ℕ) (u : Words) : Prop :=
    ∀ j < 10, wordInts u j = if j ≤ i then wordInts t j - some * modulusLimb j else wordInts t j
  have start : Inv 0 (t.set 0 (t[0] - (mask &&& 0x3ffffed))) := by
    intro j inside
    have first : wordInts t 0 = t[0].toInt := wordInts_of_lt t (by omega)
    have limit : (0x3ffffed : Int32).toInt = modulusLimb 0 := rfl
    have small := range 0 (by omega)
    have subtracted : (t[0] - (mask &&& 0x3ffffed)).toInt = wordInts t 0 - some * modulusLimb 0 := by
      rw [int32_sub] <;> rw [words, limit, ← first] <;> omega
    rw [wordInts_set, subtracted]
    by_cases zero : j = 0
    · subst zero
      rw [update_self, if_pos le_rfl]
    · rw [update_of_ne zero, if_neg (by omega)]
  have keep (i : Fin 9) (u : Words) (inv : Inv i u) :
      Inv (i + 1) (u.set (i.val + 1) (u[i.val + 1] - (mask &&& limbMask (i + 1)))) := by
    intro j inside
    have here := inv (i + 1) (by omega)
    rw [if_neg (by omega)] at here
    have value : u[i.val + 1].toInt = wordInts t (i + 1) := by
      rw [← here, wordInts_of_lt u (by omega)]
    have small := range (i + 1) (by omega)
    have subtracted : (u[i.val + 1] - (mask &&& limbMask (i + 1))).toInt =
        wordInts t (i + 1) - some * modulusLimb (i + 1) := by
      rw [int32_sub] <;> rw [words, limbMask_toInt (by omega), value] <;> omega
    rw [wordInts_set, subtracted]
    by_cases same : j = i.val + 1
    · subst same
      rw [update_self, if_pos le_rfl]
    · rw [update_of_ne same, inv j inside]
      exact if_congr (by omega) rfl rfl
  have last := foldl_finRange Inv (fun (u : Words) (i : Fin 9) ↦
    u.set (i.val + 1) (u[i.val + 1] - (mask &&& limbMask (i + 1)))) keep start
  intro j inside
  refine (last j inside).trans (if_pos (by omega))

theorem weight_int (i : ℕ) : 0 ≤ (weight i : ℤ) := by
  unfold weight
  positivity

theorem number_fits {x : ℕ → ℤ} (fits : ∀ j < 10, Fits x j) :
    0 ≤ number (weight : ℕ → ℤ) 10 x ∧ number (weight : ℕ → ℤ) 10 x < 2 ^ 255 := by
  have next (i : ℕ) : (weight (i + 1) : ℤ) = 2 ^ width i * weight i := by
    simpa using weight_succ i
  have range := number_range rfl next 10 (fun i _ ↦ weight_int i) fits
  have top : (weight 10 : ℤ) = 2 ^ 255 := by norm_num [weight]
  rwa [top] at range

theorem modulusLimb_sum : number (weight : ℕ → ℤ) 10 modulusLimb = 2 ^ 255 - 19 := by
  simp only [number, Finset.sum_range_succ, Finset.sum_range_zero, weight]
  norm_num [modulusLimb, width]

theorem number_lt_modulus {x : ℕ → ℤ} (fits : ∀ j < 10, Fits x j) (less : ¬ReachesModulus x) :
    number (weight : ℕ → ℤ) 10 x < 2 ^ 255 - 19 := by
  have rest (j : ℕ) (inside : j < 9) : 0 ≤ modulusLimb (j + 1) - x (j + 1) := by
    have size := (fits (j + 1) (by omega)).2
    rw [modulusLimb, if_neg (by omega)]
    omega
  have split (y : ℕ → ℤ) : number (weight : ℕ → ℤ) 10 y =
      y 0 + ∑ j ∈ Finset.range 9, y (j + 1) * weight (j + 1) := by
    rw [number, Finset.sum_range_succ']
    simp [weight, add_comm]
  have gap : (2 ^ 255 - 19 : ℤ) - number weight 10 x =
      (modulusLimb 0 - x 0) + ∑ j ∈ Finset.range 9, (modulusLimb (j + 1) - x (j + 1)) * weight (j + 1) := by
    rw [← modulusLimb_sum, split, split x]
    simp only [sub_mul, Finset.sum_sub_distrib]
    ring
  have terms (j : ℕ) (inside : j ∈ Finset.range 9) :
      0 ≤ (modulusLimb (j + 1) - x (j + 1)) * (weight (j + 1) : ℤ) :=
    mul_nonneg (rest j (Finset.mem_range.mp inside)) (weight_int _)
  have first : -18 ≤ modulusLimb 0 - x 0 := by
    have size : x 0 < 2 ^ 26 := (fits 0 (by omega)).2
    have limit : modulusLimb 0 = 2 ^ 26 - 19 := rfl
    omega
  by_cases low : x 0 < modulusLimb 0
  · have sum := Finset.sum_nonneg terms
    linarith
  · have some : ∃ j < 9, x (j + 1) ≠ modulusLimb (j + 1) := by
      by_contra none
      simp only [not_exists, not_and, not_not] at none
      exact less ⟨not_lt.mp low, none⟩
    obtain ⟨j, inside, different⟩ := some
    have one := Finset.single_le_sum terms (Finset.mem_range.mpr inside)
    have positive : 1 ≤ modulusLimb (j + 1) - x (j + 1) := by
      have nonneg := rest j inside
      omega
    have large : (2 ^ 26 : ℤ) ≤ weight (j + 1) := by
      interval_cases j <;> norm_num [weight]
    have above : (2 ^ 26 : ℤ) ≤ (modulusLimb (j + 1) - x (j + 1)) * weight (j + 1) :=
      large.trans (le_mul_of_one_le_left (weight_int _) positive)
    linarith

theorem number_cast {K : Type} [CommRing K] (n : ℕ) (x : ℕ → ℤ) :
    ((number (weight : ℕ → ℤ) n x : ℤ) : K) = number weight n x := by
  simp only [number, weight, Int.cast_sum, Int.cast_mul, Int.cast_pow, Int.cast_ofNat, Int.cast_id]

/-- The conditional subtraction leaves the least number of the class. -/
theorem subtractModulus_spec {K : Type} [CommRing K] (modulus : (2 : K) ^ 255 = 19) {t : Words}
    (fits : ∀ j < 10, Fits (wordInts t) j) :
    (∀ j < 10, Fits (wordInts (subtractModulus t (geMask t))) j) ∧
      number (weight : ℕ → ℤ) 10 (wordInts (subtractModulus t (geMask t))) < 2 ^ 255 - 19 ∧
      number (weight : ℕ → K) 10 (wordInts (subtractModulus t (geMask t))) =
        number weight 10 (wordInts t) := by
  classical
  rw [geMask_eq fits]
  by_cases reaches : ReachesModulus (wordInts t)
  · rw [if_pos reaches]
    have left (j : ℕ) (inside : j < 10) := subtractModulus_ints fits (-1) 1 (fun m ↦ by simp) (.inr rfl) j inside
    simp only [one_mul] at left
    refine ⟨fun j inside ↦ ?_, ?_, ?_⟩
    · have size := fits j inside
      rw [Fits] at size
      rw [Fits, left j inside]
      by_cases first : j = 0
      · subst first
        have low := reaches.1
        have limit : modulusLimb 0 = 2 ^ 26 - 19 := rfl
        omega
      · obtain ⟨k, rfl⟩ := Nat.exists_eq_succ_of_ne_zero first
        have full : wordInts t (k + 1) = modulusLimb (k + 1) := reaches.2 k (by omega)
        rw [Nat.succ_eq_add_one, full] at size ⊢
        omega
    · rw [number_sub _ left, modulusLimb_sum]
      have range := number_fits fits
      linarith
    · have zero : number (weight : ℕ → K) 10 modulusLimb = 0 := by
        rw [← number_cast, modulusLimb_sum, Int.cast_sub, Int.cast_pow, Int.cast_ofNat, Int.cast_ofNat,
          modulus, sub_self]
      rw [number_sub _ left, zero, sub_zero]
  · rw [if_neg reaches]
    have left (j : ℕ) (inside : j < 10) := subtractModulus_ints fits 0 0 (fun m ↦ by simp) (.inl rfl) j inside
    simp only [zero_mul, sub_zero] at left
    refine ⟨fun j inside ↦ ?_, ?_, number_congr _ left⟩
    · rw [Fits, left j inside]
      exact fits j inside
    · rw [number_congr _ left]
      exact number_lt_modulus fits reaches

end Curve25519
