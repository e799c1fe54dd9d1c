import ChatFabric.ByteNumbers
import ChatFabric.FieldProducts
import ChatFabric.MontgomeryCurve
import Mathlib.Data.List.GetD

/- What cmult and crecip compute: the ladder of the Montgomery curve over the limbs, and the inverse as
   a power. -/
namespace Curve25519
open ByteStrings ByteNumbers LimbNumbers MachineWords MontgomeryCurve

theorem zipWith_ints {n : Nat} (f : Int64 → Int64 → Int64) (a b : Limbs n) {i : Nat} (inside : i < n) :
    ints (a.zipWith f b) i = (f a[i] b[i]).toInt := by
  rw [ints_of_lt _ inside, Vector.getElem_zipWith]

theorem ints_outside {n : Nat} (t : Limbs n) {i : Nat} (outside : n ≤ i) : ints t i = 0 := by
  simp [ints, outside]

section
variable {K : Type} [Field K] {a b : Limbs 10}

theorem fsum_spec (first : Below (2 ^ 26) a) (second : Below (2 ^ 26) b) :
    Below (2 ^ 27) (fsum a b) ∧ (value (fsum a b) : K) = value a + value b := by
  have sum (i : ℕ) (inside : i < 10) : ints (fsum a b) i = ints a i + ints b i := by
    have left := abs_lt.mp (first i)
    have right := abs_lt.mp (second i)
    rw [fsum, zipWith_ints _ _ _ inside]
    rw [ints_of_lt _ inside] at left right ⊢
    rw [ints_of_lt _ inside, toInt_add (by omega) (by omega)]
  refine ⟨fun i ↦ ?_, number_add weight sum⟩
  have left := abs_lt.mp (first i)
  have right := abs_lt.mp (second i)
  by_cases inside : i < 10
  · rw [sum i inside, abs_lt]
    omega
  · simp [ints_outside (fsum a b) (Nat.le_of_not_lt inside)]

theorem fdifference_spec (first : Below (2 ^ 26) a) (second : Below (2 ^ 26) b) :
    Below (2 ^ 27) (fdifference a b) ∧ (value (fdifference a b) : K) = value b - value a := by
  have difference (i : ℕ) (inside : i < 10) : ints (fdifference a b) i = ints b i - ints a i := by
    have left := abs_lt.mp (first i)
    have right := abs_lt.mp (second i)
    rw [fdifference, zipWith_ints _ _ _ inside]
    rw [ints_of_lt _ inside] at left right ⊢
    rw [ints_of_lt _ inside, toInt_sub (by omega) (by omega)]
  refine ⟨fun i ↦ ?_, number_sub weight difference⟩
  have left := abs_lt.mp (first i)
  have right := abs_lt.mp (second i)
  by_cases inside : i < 10
  · rw [difference i inside, abs_lt]
    omega
  · simp [ints_outside (fdifference a b) (Nat.le_of_not_lt inside)]

theorem fscalarProduct_spec (modulus : (2 : K) ^ 255 = 19) (small : Below (2 ^ 27) a) :
    Below (2 ^ 26) (short (freduceCoefficients (long (fscalarProduct a 121665)))) ∧
      (value (short (freduceCoefficients (long (fscalarProduct a 121665)))) : K) = value a * 121665 := by
  have product (i : ℕ) (inside : i < 10) : ints (long (fscalarProduct a 121665)) i = ints a i * 121665 := by
    have bound := abs_lt.mp (small i)
    have scalar : (121665 : Int64).toInt = 121665 := rfl
    have same : (long (fscalarProduct a 121665))[i] = a[i] * 121665 := by
      rw [long, Vector.getElem_append_left inside, fscalarProduct, Vector.getElem_map]
    rw [ints_of_lt a inside] at bound ⊢
    rw [ints_of_lt _ (by omega), same, toInt_mul (by rw [scalar]; omega) (by rw [scalar]; omega), scalar]
  have range (i : ℕ) (inside : i < 10) : |ints (long (fscalarProduct a 121665)) i| ≤ 280 * 2 ^ 54 := by
    have bound := abs_lt.mp (small i)
    rw [product i inside, abs_le]
    omega
  obtain ⟨below, same⟩ := freduceCoefficients_spec (R := K) modulus range
  refine ⟨short_below (by norm_num) below, ?_⟩
  rw [short_value, same, number_mul weight product]
  norm_num [value]

theorem Below.loose {n : Nat} {t : Limbs n} (small : Below (2 ^ 26) t) : Below (2 ^ 27) t :=
  fun i ↦ (small i).trans (by norm_num)

structure Point.Reduced (p : Point) : Prop where
  x : Below (2 ^ 26) p.x
  z : Below (2 ^ 26) p.z

def Point.fraction (p : Point) : Fraction K := ⟨value p.x, value p.z⟩

theorem fmonty_spec (modulus : (2 : K) ^ 255 = 19) {q qprime : Point} {qmqp : Limbs 10}
    (first : q.Reduced) (second : qprime.Reduced) (base : Below (2 ^ 26) qmqp) :
    ((fmonty q qprime qmqp).1.Reduced ∧ (fmonty q qprime qmqp).2.Reduced) ∧
      ((fmonty q qprime qmqp).1.fraction : Fraction K) = q.fraction.double 121665 ∧
      ((fmonty q qprime qmqp).2.fraction : Fraction K) =
        .add (value qmqp) q.fraction qprime.fraction := by
  obtain ⟨x, xValue⟩ := fsum_spec (K := K) first.x first.z
  obtain ⟨z, zValue⟩ := fdifference_spec (K := K) first.z first.x
  obtain ⟨xprime, xprimeValue⟩ := fsum_spec (K := K) second.x second.z
  obtain ⟨zprime, zprimeValue⟩ := fdifference_spec (K := K) second.z second.x
  obtain ⟨xxprime, xxprimeValue⟩ := fmul_spec modulus xprime z
  obtain ⟨zzprime, zzprimeValue⟩ := fmul_spec modulus x zprime
  obtain ⟨sum, sumValue⟩ := fsum_spec (K := K) xxprime zzprime
  obtain ⟨difference, differenceValue⟩ := fdifference_spec (K := K) zzprime xxprime
  obtain ⟨x3, x3Value⟩ := fsquare_spec modulus sum
  obtain ⟨zzzprime, zzzprimeValue⟩ := fsquare_spec modulus difference
  obtain ⟨z3, z3Value⟩ := fmul_spec modulus zzzprime.loose base.loose
  obtain ⟨xx, xxValue⟩ := fsquare_spec modulus x
  obtain ⟨zz, zzValue⟩ := fsquare_spec modulus z
  obtain ⟨x2, x2Value⟩ := fmul_spec modulus xx.loose zz.loose
  obtain ⟨gap, gapValue⟩ := fdifference_spec (K := K) zz xx
  obtain ⟨scaled, scaledValue⟩ := fscalarProduct_spec modulus gap
  obtain ⟨zzz, zzzValue⟩ := fsum_spec (K := K) scaled xx
  obtain ⟨z2, z2Value⟩ := fmul_spec modulus gap zzz
  refine ⟨⟨⟨x2, z2⟩, ⟨x3, z3⟩⟩, ?_, ?_⟩
  · simp only [Point.fraction, Fraction.double, Fraction.mk.injEq]
    constructor
    · refine x2Value.trans ?_
      rw [xxValue, zzValue, xValue, zValue]
      ring
    · refine z2Value.trans ?_
      rw [zzzValue, scaledValue, gapValue, xxValue, zzValue, xValue, zValue]
      ring
  · simp only [Point.fraction, Fraction.add, Fraction.mk.injEq]
    constructor
    · refine x3Value.trans ?_
      rw [sumValue, xxprimeValue, zzprimeValue, xValue, zValue, xprimeValue, zprimeValue]
      ring
    · refine z3Value.trans ?_
      rw [zzzprimeValue, differenceValue, xxprimeValue, zzprimeValue, xValue, zValue, xprimeValue,
        zprimeValue]
      ring

end

theorem toInt32_toInt64 {t : Limbs 10} (small : Below (2 ^ 26) t) {i : ℕ} (inside : i < 10) :
    t[i].toInt32.toInt64 = t[i] := by
  have bound := small i
  rw [ints_of_lt t inside] at bound
  exact Int64.toInt_inj.mp (s32_toInt (bound.trans (by norm_num)))

theorem swapConditional_one {a b : Limbs 10} (first : Below (2 ^ 26) a) (second : Below (2 ^ 26) b) :
    swapConditional a b 1 = (b, a) := by
  have swap : (-1 : Int64).toInt32 = -1 := rfl
  simp only [swapConditional, swap, Int32.neg_one_and, Prod.mk.injEq]
  constructor
  · ext i inside
    simp only [Vector.getElem_zipWith, ← Int32.xor_assoc, Int32.xor_self, Int32.zero_xor]
    exact toInt32_toInt64 second inside
  · ext i inside
    simp only [Vector.getElem_zipWith]
    rw [Int32.xor_comm a[i].toInt32, ← Int32.xor_assoc, Int32.xor_self, Int32.zero_xor]
    exact toInt32_toInt64 first inside

theorem swapConditional_zero {a b : Limbs 10} (first : Below (2 ^ 26) a) (second : Below (2 ^ 26) b) :
    swapConditional a b 0 = (a, b) := by
  have swap : (-0 : Int64).toInt32 = 0 := rfl
  simp only [swapConditional, swap, Int32.zero_and, Prod.mk.injEq]
  constructor
  · ext i inside
    simp only [Vector.getElem_zipWith, Int32.xor_zero]
    exact toInt32_toInt64 first inside
  · ext i inside
    simp only [Vector.getElem_zipWith, Int32.xor_zero]
    exact toInt32_toInt64 second inside

def bitWord (bit : Bool) : Int64 := if bit then 1 else 0

theorem swapPoints_eq {p r : Point} (first : p.Reduced) (second : r.Reduced) (bit : Bool) :
    swapPoints p r (bitWord bit) = if bit then (r, p) else (p, r) := by
  cases bit with
  | false => simp [swapPoints, bitWord, swapConditional_zero first.x second.x, swapConditional_zero first.z second.z]
  | true => simp [swapPoints, bitWord, swapConditional_one first.x second.x, swapConditional_one first.z second.z]

section
variable {K : Type} [Field K]

def fractions (points : Point × Point) : Fraction K × Fraction K := (points.1.fraction, points.2.fraction)

theorem cmultBit_spec (modulus : (2 : K) ^ 255 = 19) {q : Limbs 10} (base : Below (2 ^ 26) q)
    {points : Point × Point} (first : points.1.Reduced) (second : points.2.Reduced) (bit : Bool) :
    ((cmultBit q points (bitWord bit)).1.Reduced ∧ (cmultBit q points (bitWord bit)).2.Reduced) ∧
      (fractions (cmultBit q points (bitWord bit)) : Fraction K × Fraction K) =
        ladderStep 121665 (value q) (fractions points) bit := by
  have turned := swapPoints_eq first second bit
  simp only [cmultBit, turned]
  cases bit with
  | false =>
    obtain ⟨⟨left, right⟩, double, add⟩ := fmonty_spec (K := K) modulus first second base
    simp only [Bool.false_eq_true, if_false, swapPoints_eq left right]
    refine ⟨⟨left, right⟩, ?_⟩
    simp only [fractions, ladderStep, double, add, Bool.false_eq_true, if_false]
  | true =>
    obtain ⟨⟨left, right⟩, double, add⟩ := fmonty_spec (K := K) modulus second first base
    simp only [if_true, swapPoints_eq left right]
    refine ⟨⟨right, left⟩, ?_⟩
    simp only [fractions, ladderStep, double, add, if_true]

theorem byte_bit (b : UInt8) : (b >>> 7).toUInt64.toInt64 = bitWord (decide (128 ≤ b)) := by
  have small := b.toNat_lt
  have shifted : (b >>> 7).toNat = b.toNat / 128 := by
    rw [UInt8.toNat_shiftRight, Nat.shiftRight_eq_div_pow]
    rfl
  by_cases high : 128 ≤ b
  · have above := UInt8.le_iff_toNat_le.mp high
    have bit : b >>> 7 = 1 := by
      apply UInt8.toNat_inj.mp
      rw [shifted]
      change 128 ≤ b.toNat at above
      change b.toNat / 128 = 1
      omega
    rw [bit, decide_eq_true high]
    rfl
  · have bit : b >>> 7 = 0 := by
      apply UInt8.toNat_inj.mp
      rw [shifted]
      have below : ¬128 ≤ b.toNat := fun above ↦ high (UInt8.le_iff_toNat_le.mpr above)
      change b.toNat / 128 = 0
      omega
    rw [bit, decide_eq_false high]
    rfl

theorem cmultByte_spec (modulus : (2 : K) ^ 255 = 19) {q : Limbs 10} (base : Below (2 ^ 26) q)
    {points : Point × Point} (first : points.1.Reduced) (second : points.2.Reduced) (byte : UInt8) :
    ((cmultByte q points byte).1.Reduced ∧ (cmultByte q points byte).2.Reduced) ∧
      (fractions (cmultByte q points byte) : Fraction K × Fraction K) =
        (highBits byte 8).foldl (ladderStep 121665 (value q)) (fractions points) := by
  have turns (turns : List ℕ) (points : Point × Point) (byte : UInt8) (first : points.1.Reduced)
      (second : points.2.Reduced) :
      let last := (turns.foldl (fun (s : (Point × Point) × UInt8) _ ↦
        (cmultBit q s.1 (s.2 >>> 7).toUInt64.toInt64, s.2 <<< 1)) (points, byte)).1
      (last.1.Reduced ∧ last.2.Reduced) ∧ (fractions last : Fraction K × Fraction K) =
        (highBits byte turns.length).foldl (ladderStep 121665 (value q)) (fractions points) := by
    induction turns generalizing points byte with
    | nil => exact ⟨⟨first, second⟩, rfl⟩
    | cons _ turns ih =>
      obtain ⟨⟨left, right⟩, step⟩ := cmultBit_spec modulus base first second (decide (128 ≤ byte))
      rw [← byte_bit] at left right step
      obtain ⟨reduced, rest⟩ := ih _ (byte <<< 1) left right
      refine ⟨reduced, rest.trans ?_⟩
      rw [step]
      rfl
  exact turns (List.range 8) points byte first second

theorem limbsOf_ints (low : Int64) : ints (limbsOf low) = Function.update (fun _ ↦ 0) 0 low.toInt := by
  have zeros : ints (Vector.replicate 10 (0 : Int64)) = fun _ ↦ 0 := by
    funext i
    by_cases inside : i < 10
    · simp [ints, inside]
    · simp [ints, inside]
  rw [limbsOf, ints_set, zeros]

theorem limbsOf_spec {low : Int64} (small : |low.toInt| < 2 ^ 26) :
    Below (2 ^ 26) (limbsOf low) ∧ (value (limbsOf low) : K) = low.toInt := by
  rw [value, Below, limbsOf_ints]
  constructor
  · intro i
    by_cases first : i = 0
    · subst first
      rwa [Function.update_self]
    · rw [Function.update_of_ne first]
      norm_num
  · rw [number_update weight _ (by omega)]
    simp [number, weight]

theorem cmult_spec (modulus : (2 : K) ^ 255 = 19) {q : Limbs 10} (base : Below (2 ^ 26) q)
    (n : Block 32) :
    (cmult n q).Reduced ∧
      ((cmult n q).fraction : Fraction K) = (ladder 121665 (value q) (bitsOf n.val)).1 := by
  obtain ⟨one, oneValue⟩ : Below (2 ^ 26) (limbsOf 1) ∧ (value (limbsOf 1) : K) = (1 : Int64).toInt :=
    limbsOf_spec (by decide)
  obtain ⟨zero, zeroValue⟩ : Below (2 ^ 26) (limbsOf 0) ∧ (value (limbsOf 0) : K) = (0 : Int64).toInt :=
    limbsOf_spec (by decide)
  have bytes : (List.range 32).map (fun i ↦ n.val.getD (31 - i) 0) = n.val.reverse := by
    apply List.ext_getElem
    · simp
    · intro i left right
      have inside : i < 32 := by simpa using left
      have size := n.length_val
      have last : 31 - i < n.val.length := by omega
      rw [List.getElem_map, List.getElem_range, List.getElem_reverse, List.getD_eq_getElem _ _ last]
      congr 1
      omega
  have turns (rest : List UInt8) (points : Point × Point) (first : points.1.Reduced)
      (second : points.2.Reduced) :
      let last := rest.foldl (cmultByte q) points
      (last.1.Reduced ∧ last.2.Reduced) ∧ (fractions last : Fraction K × Fraction K) =
        (rest.flatMap (highBits · 8)).foldl (ladderStep 121665 (value q)) (fractions points) := by
    induction rest generalizing points with
    | nil => exact ⟨⟨first, second⟩, rfl⟩
    | cons byte rest ih =>
      obtain ⟨⟨left, right⟩, step⟩ := cmultByte_spec modulus base first second byte
      obtain ⟨reduced, same⟩ := ih _ left right
      refine ⟨reduced, same.trans ?_⟩
      rw [step, List.flatMap_cons, List.foldl_append]
  obtain ⟨⟨reduced, _⟩, same⟩ := turns n.val.reverse (⟨limbsOf 1, limbsOf 0⟩, ⟨q, limbsOf 1⟩)
    ⟨one, zero⟩ ⟨base, one⟩
  have run : cmult n q = (n.val.reverse.foldl (cmultByte q) (⟨limbsOf 1, limbsOf 0⟩, ⟨q, limbsOf 1⟩)).1 := by
    rw [cmult, ← bytes, List.foldl_map]
  rw [run]
  refine ⟨reduced, (congrArg Prod.fst same).trans ?_⟩
  rw [ladder, bitsOf]
  congr 2
  simp [fractions, Point.fraction, oneValue, zeroValue]

structure IsPower (v : K) (n : ℕ) (t : Limbs 10) : Prop where
  below : Below (2 ^ 26) t
  power : value t = v ^ n

namespace IsPower
variable {v : K} {m n : ℕ}

theorem fmul (modulus : (2 : K) ^ 255 = 19) (first : IsPower v m a) (second : IsPower v n b) :
    IsPower v (m + n) (fmul a b) := by
  obtain ⟨below, product⟩ := fmul_spec modulus first.below.loose second.below.loose
  refine ⟨below, product.trans ?_⟩
  rw [first.power, second.power, pow_add]

theorem fsquare (modulus : (2 : K) ^ 255 = 19) (power : IsPower v n a) : IsPower v (2 * n) (fsquare a) := by
  obtain ⟨below, square⟩ := fsquare_spec modulus power.below.loose
  refine ⟨below, square.trans ?_⟩
  rw [power.power, two_mul, pow_add]

theorem fsquareTimes (modulus : (2 : K) ^ 255 = 19) (power : IsPower v n a) (k : ℕ) :
    IsPower v (2 ^ k * n) (fsquareTimes k a) := by
  induction k with
  | zero => simpa [Curve25519.fsquareTimes, Nat.repeat] using power
  | succ k ih =>
    rw [pow_succ', mul_assoc]
    exact ih.fsquare modulus

end IsPower

theorem crecip_spec (modulus : (2 : K) ^ 255 = 19) {z : Limbs 10} (small : Below (2 ^ 26) z) :
    IsPower (value z : K) (2 ^ 255 - 21) (crecip z) := by
  have one : IsPower (value z : K) 1 z := ⟨small, (pow_one _).symm⟩
  have z2 := one.fsquare modulus
  have z9 := ((z2.fsquare modulus).fsquare modulus).fmul modulus one
  have z11 := z9.fmul modulus z2
  have z2_5_0 := (z11.fsquare modulus).fmul modulus z9
  have z2_10_0 := (z2_5_0.fsquareTimes modulus 5).fmul modulus z2_5_0
  have z2_20_0 := (z2_10_0.fsquareTimes modulus 10).fmul modulus z2_10_0
  have z2_40_0 := (z2_20_0.fsquareTimes modulus 20).fmul modulus z2_20_0
  have z2_50_0 := (z2_40_0.fsquareTimes modulus 10).fmul modulus z2_10_0
  have z2_100_0 := (z2_50_0.fsquareTimes modulus 50).fmul modulus z2_50_0
  have z2_200_0 := (z2_100_0.fsquareTimes modulus 100).fmul modulus z2_100_0
  have z2_250_0 := (z2_200_0.fsquareTimes modulus 50).fmul modulus z2_50_0
  have last := (z2_250_0.fsquareTimes modulus 5).fmul modulus z11
  refine ⟨last.below, last.power.trans ?_⟩
  norm_num

end

end Curve25519
