import ChatFabric.Poly1305Tag
import Mathlib

/- The arithmetic of poly1305-donna-64.h is lawful: no word overflows, and the three limbs keep the sum
   of the blocks modulo 2^130 - 5. -/
namespace Poly1305
open ByteStrings ByteNumbers UnsignedWords

namespace Header64

/-- The numbers r and h in limbs of 44, 44 and 42 bits; pad has whole words. -/
structure Numbers where
  r : Vector (BitVec 64) 3
  h : Vector (BitVec 64) 3
  pad : Vector (BitVec 64) 2

def init (key : Block 32) : Numbers :=
  let t0 := u8to64 key.val
  let t1 := u8to64 (key.val.drop 8)
  { r := #v[
      t0 &&& 0xffc0fffffff,
      ((t0 >>> 44) ||| (t1 <<< 20)) &&& 0xfffffc0ffff,
      (t1 >>> 24) &&& 0x00ffffffc0f]
    h := #v[0, 0, 0]
    pad := #v[u8to64 (key.val.drop 16), u8to64 (key.val.drop 24)] }

def limbsOf (t0 t1 : BitVec 64) : Vector (BitVec 64) 3 :=
  #v[t0 &&& 0xfffffffffff,
    ((t0 >>> 44) ||| (t1 <<< 20)) &&& 0xfffffffffff,
    (t1 >>> 24) &&& 0x3ffffffffff]

def addBlock (final : Bool) (h : Vector (BitVec 64) 3) (m : Bytes) : Vector (BitVec 64) 3 :=
  let hibit : BitVec 64 := if final then 0 else (1 : BitVec 64) <<< 40
  let t := limbsOf (u8to64 m) (u8to64 (m.drop 8))
  #v[h[0] + t[0], h[1] + t[1], h[2] + (t[2] ||| hibit)]

/-- The macros MUL and ADD on a row of three factors. -/
def sumOfProducts (h row : Vector (BitVec 64) 3) : BitVec 128 :=
  h[0].setWidth 128 * row[0].setWidth 128 + h[1].setWidth 128 * row[1].setWidth 128 +
    h[2].setWidth 128 * row[2].setWidth 128

def products (h r : Vector (BitVec 64) 3) : Vector (BitVec 128) 3 :=
  let s1 := r[1] * ((5 : BitVec 64) <<< 2)
  let s2 := r[2] * ((5 : BitVec 64) <<< 2)
  #v[sumOfProducts h #v[r[0], s2, s1],
    sumOfProducts h #v[r[1], r[0], s2],
    sumOfProducts h #v[r[2], r[1], r[0]]]

/-- The macros SHR and LO. -/
def shr (d : BitVec 128) (shift : Nat) : BitVec 64 := (d >>> shift).setWidth 64
def lo (d : BitVec 128) : BitVec 64 := d.setWidth 64

def carryProducts (d : Vector (BitVec 128) 3) : Vector (BitVec 64) 3 :=
  let d1 := d[1] + (shr d[0] 44).setWidth 128
  let d2 := d[2] + (shr d1 44).setWidth 128
  let h0 := (lo d[0] &&& 0xfffffffffff) + shr d2 42 * 5
  #v[h0 &&& 0xfffffffffff, (lo d1 &&& 0xfffffffffff) + (h0 >>> 44), lo d2 &&& 0x3ffffffffff]

def block (final : Bool) (numbers : Numbers) (m : Bytes) : Numbers :=
  { numbers with h := carryProducts (products (addBlock final numbers.h m) numbers.r) }

/-- Limb 1 carries to limb 2, limb 2 to limb 0, which counts it five times, and limb 0 to limb 1. -/
def carryRound (h : Vector (BitVec 64) 3) : Vector (BitVec 64) 3 :=
  let h2 := h[2] + (h[1] >>> 44)
  let h0 := h[0] + (h2 >>> 42) * 5
  #v[h0 &&& 0xfffffffffff, (h[1] &&& 0xfffffffffff) + (h0 >>> 44), h2 &&& 0x3ffffffffff]

def fullCarry (h : Vector (BitVec 64) 3) : Vector (BitVec 64) 3 := carryRound (carryRound h)

def select (h : Vector (BitVec 64) 3) : Vector (BitVec 64) 3 :=
  let g0 := h[0] + 5
  let g1 := h[1] + (g0 >>> 44)
  let g2 := h[2] + (g1 >>> 44) - ((1 : BitVec 64) <<< 42)
  let c := (g2 >>> 63) - 1
  #v[(h[0] &&& ~~~c) ||| (g0 &&& 0xfffffffffff &&& c),
    (h[1] &&& ~~~c) ||| (g1 &&& 0xfffffffffff &&& c),
    (h[2] &&& ~~~c) ||| (g2 &&& c)]

def addPad (h : Vector (BitVec 64) 3) (pad : Vector (BitVec 64) 2) : Vector (BitVec 64) 3 :=
  let t := limbsOf pad[0] pad[1]
  let h0 := h[0] + t[0]
  let h1 := h[1] + t[1] + (h0 >>> 44)
  let h2 := h[2] + t[2] + (h1 >>> 44)
  #v[h0 &&& 0xfffffffffff, h1 &&& 0xfffffffffff, h2 &&& 0x3ffffffffff]

def pack (h : Vector (BitVec 64) 3) : Vector (BitVec 64) 2 :=
  #v[h[0] ||| (h[1] <<< 44), (h[1] >>> 20) ||| (h[2] <<< 24)]

def mac (numbers : Numbers) : Bytes :=
  let h := pack (addPad (select (fullCarry numbers.h)) numbers.pad)
  u64to8 h[0] ++ u64to8 h[1]

def clear (_ : Numbers) : Numbers := ⟨.replicate 3 0, .replicate 3 0, .replicate 2 0⟩

instance : Arithmetic Numbers := ⟨init, block, mac, clear⟩

abbrev Limbs := Vector (BitVec 64) 3

def value (h : Limbs) : ℕ := h[0].toNat + 2 ^ 44 * h[1].toNat + 2 ^ 88 * h[2].toNat

structure Within (b0 b1 b2 : ℕ) (h : Limbs) : Prop where
  zero : h[0].toNat < b0
  one : h[1].toNat < b1
  two : h[2].toNat < b2

/-- What a block leaves, what a sum with a block leaves, and limbs of their bits. -/
abbrev Reduced := Within (2 ^ 44) (2 ^ 44 + 2 ^ 7) (2 ^ 42)
abbrev Summed := Within (2 ^ 45) (2 ^ 45 + 2 ^ 7) (2 ^ 42 + 2 ^ 41)
abbrev Exact := Within (2 ^ 44) (2 ^ 44) (2 ^ 42)

theorem Exact.value_lt {h : Limbs} (exact : Exact h) : value h < 2 ^ 130 := by
  obtain ⟨zero, one, two⟩ := exact
  rw [value]
  omega

theorem middle_toNat (t0 t1 : BitVec 64) :
    ((t0 >>> 44) ||| (t1 <<< 20)).toNat = (t0.toNat + 2 ^ 64 * t1.toNat) / 2 ^ 44 % 2 ^ 64 := by
  have low := t0.isLt
  have joined := toNat_join (x := t0 >>> 44) (n := 20) t1 (by rw [toNat_shiftRight]; omega) (by omega)
  rw [joined, toNat_shiftRight]
  omega

theorem limbsOf_toNat (t0 t1 : BitVec 64) :
    (limbsOf t0 t1)[0].toNat = (t0.toNat + 2 ^ 64 * t1.toNat) % 2 ^ 44 ∧
      (limbsOf t0 t1)[1].toNat = (t0.toNat + 2 ^ 64 * t1.toNat) / 2 ^ 44 % 2 ^ 44 ∧
      (limbsOf t0 t1)[2].toNat = (t0.toNat + 2 ^ 64 * t1.toNat) / 2 ^ 88 := by
  have low := t0.isLt
  have high := t1.isLt
  refine ⟨?_, ?_, ?_⟩
  · have limb : (limbsOf t0 t1)[0].toNat = t0.toNat % 2 ^ 44 := toNat_and t0 rfl
    omega
  · have limb : (limbsOf t0 t1)[1].toNat = ((t0 >>> 44) ||| (t1 <<< 20)).toNat % 2 ^ 44 := toNat_and _ rfl
    rw [limb, middle_toNat]
    omega
  · have limb : (limbsOf t0 t1)[2].toNat = (t1 >>> 24).toNat % 2 ^ 42 := toNat_and _ rfl
    rw [limb, toNat_shiftRight]
    omega

theorem blockLimbs_toNat {m : Bytes} (full : m.length = 16) :
    (limbsOf (u8to64 m) (u8to64 (m.drop 8)))[0].toNat = leNumber m % 2 ^ 44 ∧
      (limbsOf (u8to64 m) (u8to64 (m.drop 8)))[1].toNat = leNumber m / 2 ^ 44 % 2 ^ 44 ∧
      (limbsOf (u8to64 m) (u8to64 (m.drop 8)))[2].toNat = leNumber m / 2 ^ 88 := by
  have size := leNumber_lt m
  rw [full] at size
  have low : (u8to64 m).toNat = leNumber m % 256 ^ 8 := u8to_toNat m (by omega)
  have high : (u8to64 (m.drop 8)).toNat = leNumber m / 256 ^ 8 % 256 ^ 8 := u8to_drop m 8 (by omega)
  have whole : (u8to64 m).toNat + 2 ^ 64 * (u8to64 (m.drop 8)).toNat = leNumber m := by omega
  rw [← whole]
  exact limbsOf_toNat _ _

theorem addBlock_spec (final : Bool) {h : Limbs} (reduced : Reduced h) {m : Bytes} (full : m.length = 16) :
    Summed (addBlock final h m) ∧
      value (addBlock final h m) = value h + (leNumber m + if final then 0 else 2 ^ 128) := by
  have size := leNumber_lt m
  rw [full] at size
  obtain ⟨zero, one, two⟩ := blockLimbs_toNat full
  obtain ⟨h0, h1, h2⟩ := reduced
  obtain ⟨bit, small, bits, joined⟩ : ∃ bit, bit ≤ 2 ^ 40 ∧
      (if final then 0 else 2 ^ 128) = 2 ^ 88 * bit ∧
      ((limbsOf (u8to64 m) (u8to64 (m.drop 8)))[2] |||
        (if final then (0 : BitVec 64) else (1 : BitVec 64) <<< 40)).toNat = leNumber m / 2 ^ 88 + bit := by
    cases final with
    | true => exact ⟨0, by omega, rfl, by simpa using two⟩
    | false =>
      have joined := toNat_join (x := (limbsOf (u8to64 m) (u8to64 (m.drop 8)))[2]) (n := 40) 1 (by omega)
        (by omega)
      refine ⟨2 ^ 40, by omega, rfl, ?_⟩
      rw [if_neg Bool.false_ne_true, joined, two]
      rfl
  have sum0 : (addBlock final h m)[0].toNat = h[0].toNat + leNumber m % 2 ^ 44 :=
    toNat_sum rfl zero (by omega)
  have sum1 : (addBlock final h m)[1].toNat = h[1].toNat + leNumber m / 2 ^ 44 % 2 ^ 44 :=
    toNat_sum rfl one (by omega)
  have sum2 : (addBlock final h m)[2].toNat = h[2].toNat + (leNumber m / 2 ^ 88 + bit) :=
    toNat_sum rfl joined (by omega)
  refine ⟨⟨by omega, by omega, by omega⟩, ?_⟩
  rw [value, sum0, sum1, sum2, value, bits]
  simp only [Nat.reducePow]
  omega

theorem row_toNat {a : Limbs} (summed : Summed a) (x0 x1 x2 : BitVec 64) (bound : ℕ) {n0 n1 n2 : ℕ}
    (most : bound ≤ 2 ^ 49) (zero : x0.toNat = n0 ∧ n0 ≤ bound) (one : x1.toNat = n1 ∧ n1 ≤ bound)
    (two : x2.toNat = n2 ∧ n2 ≤ bound) :
    (sumOfProducts a #v[x0, x1, x2]).toNat = a[0].toNat * n0 + a[1].toNat * n1 + a[2].toNat * n2 ∧
      (sumOfProducts a #v[x0, x1, x2]).toNat ≤ (2 ^ 46 + 2 ^ 43) * bound := by
  obtain ⟨a0, a1, a2⟩ := summed
  have first : a[0].toNat * n0 ≤ 2 ^ 45 * bound := Nat.mul_le_mul (by omega) zero.2
  have second : a[1].toNat * n1 ≤ (2 ^ 45 + 2 ^ 7) * bound := Nat.mul_le_mul (by omega) one.2
  have third : a[2].toNat * n2 ≤ (2 ^ 42 + 2 ^ 41) * bound := Nat.mul_le_mul (by omega) two.2
  have product (x y : BitVec 64) {n : ℕ} (value : y.toNat = n) :
      (x.setWidth 128 * y.setWidth 128).toNat = x.toNat * n := by
    rw [toNat_wideProduct x y (by omega), value]
  have sum : (sumOfProducts a #v[x0, x1, x2]).toNat = a[0].toNat * n0 + a[1].toNat * n1 + a[2].toNat * n2 :=
    toNat_sum (toNat_sum (product _ _ zero.1) (product _ _ one.1) (by omega)) (product _ _ two.1) (by omega)
  exact ⟨sum, by omega⟩

/-- What lies 132 bits too high counts twenty times. -/
theorem rows_product {R : Type} [CommRing R] (modulus : (2 : R) ^ 130 = 5) (a0 a1 a2 r0 r1 r2 : R) :
    a0 * r0 + a1 * (r2 * 20) + a2 * (r1 * 20) + 2 ^ 44 * (a0 * r1 + a1 * r0 + a2 * (r2 * 20)) +
        2 ^ 88 * (a0 * r2 + a1 * r1 + a2 * r0) =
      (a0 + 2 ^ 44 * a1 + 2 ^ 88 * a2) * (r0 + 2 ^ 44 * r1 + 2 ^ 88 * r2) := by
  linear_combination (-4 * (a1 * r2 + a2 * r1 + 2 ^ 44 * (a2 * r2))) * modulus

theorem products_spec {a r : Limbs} (summed : Summed a) (exact : Exact r) :
    ((products a r)[0].toNat < 2 ^ 97 ∧ (products a r)[1].toNat < 2 ^ 97 ∧
        (products a r)[2].toNat ≤ (2 ^ 46 + 2 ^ 43) * 2 ^ 44) ∧
      (((products a r)[0].toNat + 2 ^ 44 * (products a r)[1].toNat + 2 ^ 88 * (products a r)[2].toNat : ℕ) :
        Residue) = (value a : Residue) * value r := by
  obtain ⟨r0, r1, r2⟩ := exact
  have s1 : (r[1] * ((5 : BitVec 64) <<< 2)).toNat = r[1].toNat * 20 := toNat_product rfl rfl (by omega)
  have s2 : (r[2] * ((5 : BitVec 64) <<< 2)).toNat = r[2].toNat * 20 := toNat_product rfl rfl (by omega)
  obtain ⟨d0, small0⟩ := row_toNat summed r[0] (r[2] * ((5 : BitVec 64) <<< 2)) (r[1] * ((5 : BitVec 64) <<< 2))
    (2 ^ 49) le_rfl ⟨rfl, by omega⟩ ⟨s2, by omega⟩ ⟨s1, by omega⟩
  obtain ⟨d1, small1⟩ := row_toNat summed r[1] r[0] (r[2] * ((5 : BitVec 64) <<< 2)) (2 ^ 49) le_rfl
    ⟨rfl, by omega⟩ ⟨rfl, by omega⟩ ⟨s2, by omega⟩
  obtain ⟨d2, small2⟩ := row_toNat summed r[2] r[1] r[0] (2 ^ 44) (by omega) ⟨rfl, by omega⟩ ⟨rfl, by omega⟩
    ⟨rfl, by omega⟩
  change ((sumOfProducts a _).toNat < _ ∧ (sumOfProducts a _).toNat < _ ∧ (sumOfProducts a _).toNat ≤ _) ∧
    (((sumOfProducts a _).toNat + 2 ^ 44 * (sumOfProducts a _).toNat + 2 ^ 88 * (sumOfProducts a _).toNat : ℕ) :
      Residue) = _
  refine ⟨⟨by omega, by omega, small2⟩, ?_⟩
  rw [d0, d1, d2, value, value]
  push_cast
  exact rows_product modulus _ _ _ _ _ _

theorem shr_toNat {x : BitVec 128} {shift : ℕ} (room : x.toNat / 2 ^ shift < 2 ^ 64) :
    (shr x shift).toNat = x.toNat / 2 ^ shift := toNat_high room

theorem given_toNat {x y : BitVec 128} (left : x.toNat < 2 ^ 100) (right : y.toNat < 2 ^ 100) :
    (x + (shr y 44).setWidth 128).toNat = x.toNat + y.toNat / 2 ^ 44 :=
  toNat_sum rfl ((toNat_wide _ (by omega)).trans (shr_toNat (by omega))) (by omega)

theorem carryProducts_spec {d : Vector (BitVec 128) 3} (zero : d[0].toNat < 2 ^ 97) (one : d[1].toNat < 2 ^ 97)
    (two : d[2].toNat ≤ (2 ^ 46 + 2 ^ 43) * 2 ^ 44) :
    Reduced (carryProducts d) ∧ ∃ k, value (carryProducts d) + (2 ^ 130 - 5) * k =
      d[0].toNat + 2 ^ 44 * d[1].toNat + 2 ^ 88 * d[2].toNat := by
  let d1 := d[1] + (shr d[0] 44).setWidth 128
  let d2 := d[2] + (shr d1 44).setWidth 128
  let h0 := (lo d[0] &&& 0xfffffffffff) + shr d2 42 * 5
  have first : d1.toNat = d[1].toNat + d[0].toNat / 2 ^ 44 := given_toNat (by omega) (by omega)
  have second : d2.toNat = d[2].toNat + d1.toNat / 2 ^ 44 := given_toNat (by omega) (by omega)
  have five : (shr d2 42 * 5).toNat = d2.toNat / 2 ^ 42 * 5 :=
    toNat_product (shr_toNat (by omega)) rfl (by omega)
  have low : h0.toNat = d[0].toNat % 2 ^ 44 + d2.toNat / 2 ^ 42 * 5 :=
    toNat_sum (toNat_low d[0] rfl (by omega)) five (by omega)
  have limb0 : (carryProducts d)[0].toNat = h0.toNat % 2 ^ 44 := toNat_and h0 rfl
  have limb1 : (carryProducts d)[1].toNat = d1.toNat % 2 ^ 44 + h0.toNat / 2 ^ 44 :=
    toNat_sum (toNat_low d1 rfl (by omega)) (toNat_shiftRight h0 44) (by omega)
  have limb2 : (carryProducts d)[2].toNat = d2.toNat % 2 ^ 42 := toNat_low d2 rfl (by omega)
  refine ⟨⟨by omega, by omega, by omega⟩, d2.toNat / 2 ^ 42, ?_⟩
  rw [value, limb0, limb1, limb2]
  omega

theorem block_spec {numbers : Numbers} (final : Bool) (reduced : Reduced numbers.h)
    (exact : Exact numbers.r) {m : Bytes} (full : m.length = 16) :
    Reduced (block final numbers m).h ∧ ((value (block final numbers m).h : ℕ) : Residue) =
      (value numbers.h + (leNumber m + if final then 0 else 2 ^ 128 : ℕ)) * value numbers.r := by
  obtain ⟨summed, sum⟩ := addBlock_spec final reduced full
  obtain ⟨⟨zero, one, two⟩, product⟩ := products_spec summed exact
  obtain ⟨last, k, carried⟩ := carryProducts_spec zero one two
  refine ⟨last, ?_⟩
  have cast := congrArg (Nat.cast : ℕ → Residue) carried
  rw [product, sum, Nat.cast_add, Nat.cast_mul, modulus_cast, zero_mul, add_zero, Nat.cast_add] at cast
  exact cast

/-- Where limb 2 has to give, limb 1 has given before and is small. -/
theorem carryRound_spec {h : Limbs} (reduced : Reduced h) :
    Exact (carryRound h) ∧ ∃ k, value (carryRound h) + (2 ^ 130 - 5) * k = value h := by
  obtain ⟨zero, one, two⟩ := reduced
  let h2 := h[2] + (h[1] >>> 44)
  let h0 := h[0] + (h2 >>> 42) * 5
  have second : h2.toNat = h[2].toNat + h[1].toNat / 2 ^ 44 := toNat_sum rfl (toNat_shiftRight ..) (by omega)
  have first : h0.toNat = h[0].toNat + h2.toNat / 2 ^ 42 * 5 :=
    toNat_sum rfl (toNat_product (toNat_shiftRight ..) rfl (by omega)) (by omega)
  have limb0 : (carryRound h)[0].toNat = h0.toNat % 2 ^ 44 := toNat_and h0 rfl
  have limb1 : (carryRound h)[1].toNat = h[1].toNat % 2 ^ 44 + h0.toNat / 2 ^ 44 :=
    toNat_sum (toNat_and h[1] rfl) (toNat_shiftRight ..) (by omega)
  have limb2 : (carryRound h)[2].toNat = h2.toNat % 2 ^ 42 := toNat_and h2 rfl
  have small : (carryRound h)[1].toNat < 2 ^ 44 := by
    rw [limb1]
    by_cases none : h[1].toNat < 2 ^ 44
    · have still : h2.toNat / 2 ^ 42 = 0 := by omega
      omega
    · have few : h0.toNat / 2 ^ 44 ≤ 1 := by omega
      omega
  refine ⟨⟨by omega, small, by omega⟩, h2.toNat / 2 ^ 42, ?_⟩
  rw [value, limb0, limb1, limb2, value]
  omega

theorem fullCarry_spec {h : Limbs} (reduced : Reduced h) :
    Exact (fullCarry h) ∧ ∃ k, value (fullCarry h) + (2 ^ 130 - 5) * k = value h := by
  obtain ⟨⟨zero, one, two⟩, k, first⟩ := carryRound_spec reduced
  obtain ⟨exact, j, second⟩ := carryRound_spec ⟨zero, one.trans (by omega), two⟩
  refine ⟨exact, j + k, ?_⟩
  rw [← first, ← second, fullCarry]
  ring

theorem select_spec {h : Limbs} (exact : Exact h) :
    Exact (select h) ∧ value (select h) = value h % (2 ^ 130 - 5) := by
  obtain ⟨zero, one, two⟩ := exact
  let g0 := h[0] + 5
  let g1 := h[1] + (g0 >>> 44)
  let top := h[2] + (g1 >>> 44)
  let g2 := top - ((1 : BitVec 64) <<< 42)
  let c := (g2 >>> 63) - 1
  have first : g0.toNat = h[0].toNat + 5 := toNat_sum rfl rfl (by omega)
  have second : g1.toNat = h[1].toNat + g0.toNat / 2 ^ 44 := toNat_sum rfl (toNat_shiftRight ..) (by omega)
  have third : top.toNat = h[2].toNat + g1.toNat / 2 ^ 44 := toNat_sum rfl (toNat_shiftRight ..) (by omega)
  have wrapped : g2.toNat = (2 ^ 64 - 2 ^ 42 + top.toNat) % 2 ^ 64 := BitVec.toNat_sub ..
  by_cases less : top.toNat < 2 ^ 42
  · have bit : g2 >>> 63 = 1#64 := by
      apply BitVec.eq_of_toNat_eq
      rw [toNat_shiftRight, wrapped]
      change _ = 1
      omega
    have none : c = 0#64 := congrArg (· - 1) bit
    have same : select h = h := by
      apply Vector.ext
      intro i inside
      interval_cases i <;> exact choose_first none
    rw [same]
    refine ⟨⟨zero, one, two⟩, (Nat.mod_eq_of_lt ?_).symm⟩
    rw [value]
    omega
  · have bit : g2 >>> 63 = 0#64 := by
      apply BitVec.eq_of_toNat_eq
      rw [toNat_shiftRight, wrapped]
      change _ = 0
      omega
    have all : c = BitVec.allOnes 64 := congrArg (· - 1) bit
    have limb0 : (select h)[0].toNat = g0.toNat % 2 ^ 44 :=
      (congrArg BitVec.toNat (choose_second all)).trans (toNat_and g0 rfl)
    have limb1 : (select h)[1].toNat = g1.toNat % 2 ^ 44 :=
      (congrArg BitVec.toNat (choose_second all)).trans (toNat_and g1 rfl)
    have limb2 : (select h)[2].toNat = g2.toNat := congrArg BitVec.toNat (choose_second all)
    have reached : value (select h) + (2 ^ 130 - 5) = value h := by
      rw [value, limb0, limb1, limb2, value]
      omega
    have below : value h < 2 ^ 130 := Exact.value_lt ⟨zero, one, two⟩
    refine ⟨⟨by omega, by omega, by omega⟩, ?_⟩
    rw [← reached, Nat.add_mod_right, Nat.mod_eq_of_lt (by omega)]

def wordsValue (w : Vector (BitVec 64) 2) : ℕ := w[0].toNat + 2 ^ 64 * w[1].toNat

theorem addPad_spec {h : Limbs} (exact : Exact h) (pad : Vector (BitVec 64) 2) :
    Exact (addPad h pad) ∧ value (addPad h pad) = (value h + wordsValue pad) % 2 ^ 130 := by
  obtain ⟨zero, one, two⟩ := exact
  obtain ⟨t0, t1, t2⟩ := limbsOf_toNat pad[0] pad[1]
  have left := pad[0].isLt
  have right := pad[1].isLt
  let t := limbsOf pad[0] pad[1]
  let h0 := h[0] + t[0]
  let h1 := h[1] + t[1] + (h0 >>> 44)
  let h2 := h[2] + t[2] + (h1 >>> 44)
  have first : h0.toNat = h[0].toNat + (pad[0].toNat + 2 ^ 64 * pad[1].toNat) % 2 ^ 44 :=
    toNat_sum rfl t0 (by omega)
  have second : h1.toNat =
      h[1].toNat + (pad[0].toNat + 2 ^ 64 * pad[1].toNat) / 2 ^ 44 % 2 ^ 44 + h0.toNat / 2 ^ 44 :=
    toNat_sum (toNat_sum rfl t1 (by omega)) (toNat_shiftRight ..) (by omega)
  have third : h2.toNat =
      h[2].toNat + (pad[0].toNat + 2 ^ 64 * pad[1].toNat) / 2 ^ 88 + h1.toNat / 2 ^ 44 :=
    toNat_sum (toNat_sum rfl t2 (by omega)) (toNat_shiftRight ..) (by omega)
  have limb0 : (addPad h pad)[0].toNat = h0.toNat % 2 ^ 44 := toNat_and h0 rfl
  have limb1 : (addPad h pad)[1].toNat = h1.toNat % 2 ^ 44 := toNat_and h1 rfl
  have limb2 : (addPad h pad)[2].toNat = h2.toNat % 2 ^ 42 := toNat_and h2 rfl
  refine ⟨⟨by omega, by omega, by omega⟩, ?_⟩
  rw [value, limb0, limb1, limb2, value, wordsValue]
  omega

theorem pack_spec {h : Limbs} (exact : Exact h) : wordsValue (pack h) = value h % 2 ^ 128 := by
  obtain ⟨zero, one, two⟩ := exact
  have word0 : (pack h)[0].toNat = h[0].toNat + 2 ^ 44 * (h[1].toNat % 2 ^ 20) :=
    toNat_join h[1] zero (by omega)
  have word1 : (pack h)[1].toNat = h[1].toNat / 2 ^ 20 + 2 ^ 24 * (h[2].toNat % 2 ^ 40) := by
    have joined := toNat_join (x := h[1] >>> 20) (n := 24) h[2] (by rw [toNat_shiftRight]; omega) (by omega)
    rwa [toNat_shiftRight] at joined
  rw [wordsValue, word0, word1, value]
  omega

theorem mac_number (numbers : Numbers) :
    leNumber (mac numbers) = wordsValue (pack (addPad (select (fullCarry numbers.h)) numbers.pad)) := by
  have word (v : BitVec 64) : leNumber (u64to8 v) = v.toNat := by
    rw [u64to8, toU8_number]
    exact Nat.mod_eq_of_lt v.isLt
  have length (v : BitVec 64) : (u64to8 v).length = 8 := length_toU8 8 v
  simp only [mac, leNumber_append, word, length, wordsValue]
  norm_num

theorem init_pad (key : Block 32) : wordsValue (init key).pad = padOf key := by
  have bytes := leNumber_lt key.val
  rw [Block.length_val] at bytes
  have word0 : (init key).pad[0].toNat = leNumber key.val / 256 ^ 16 % 256 ^ 8 := u8to_drop _ _ (by omega)
  have word1 : (init key).pad[1].toNat = leNumber key.val / 256 ^ 24 % 256 ^ 8 := u8to_drop _ _ (by omega)
  rw [wordsValue, word0, word1, padOf, (leNumber_take_drop key.val 16).2]
  omega

theorem init_sum (key : Block 32) : Reduced (init key).h ∧ value (init key).h = 0 := by
  have zeros : (init key).h = #v[0, 0, 0] := rfl
  rw [zeros]
  exact ⟨⟨by decide, by decide, by decide⟩, by decide⟩

theorem init_factor (key : Block 32) :
    Exact (init key).r ∧ value (init key).r = factor key := by
  have low : (u8to64 key.val).toNat = leNumber key.val % 256 ^ 8 := u8to_toNat _ (by omega)
  have high : (u8to64 (key.val.drop 8)).toNat = leNumber key.val / 256 ^ 8 % 256 ^ 8 := u8to_drop _ 8 (by omega)
  have middle := middle_toNat (u8to64 key.val) (u8to64 (key.val.drop 8))
  have last := toNat_shiftRight (u8to64 (key.val.drop 8)) 24
  have limb0 : (init key).r[0].toNat = factor key / 2 ^ 0 % 2 ^ 44 := factor_limb key 0 44 (by omega) rfl
  have limb1 : (init key).r[1].toNat = factor key / 2 ^ 44 % 2 ^ 44 :=
    factor_limb key 44 44 (by rw [middle]; omega) rfl
  have limb2 : (init key).r[2].toNat = factor key / 2 ^ 88 % 2 ^ 42 :=
    factor_limb key 88 42 (by rw [last]; omega) rfl
  have small := factor_lt key
  refine ⟨⟨by omega, by omega, by omega⟩, ?_⟩
  rw [value, limb0, limb1, limb2]
  simp only [Nat.reducePow]
  omega

def lawful : Lawful Numbers where
  Holds r pad a numbers := Exact numbers.r ∧ value numbers.r = r ∧ wordsValue numbers.pad = pad ∧
    Reduced numbers.h ∧ (value numbers.h : Residue) = a
  init key := by
    obtain ⟨exact, factor⟩ := init_factor key
    obtain ⟨reduced, zero⟩ := init_sum key
    exact ⟨exact, factor, init_pad key, reduced, (congrArg Nat.cast zero).trans Nat.cast_zero⟩
  block final m full holds := by
    obtain ⟨exact, factor, pad, reduced, sum⟩ := holds
    obtain ⟨still, product⟩ := block_spec final reduced exact full
    rw [sum, factor] at product
    exact ⟨exact, factor, pad, still, product⟩
  mac {r pad a numbers} holds := by
    obtain ⟨exact, factor, same, reduced, sum⟩ := holds
    obtain ⟨carried, k, number⟩ := fullCarry_spec reduced
    obtain ⟨selected, least⟩ := select_spec carried
    obtain ⟨padded, added⟩ := addPad_spec selected numbers.pad
    refine ⟨by simp [Arithmetic.mac, mac, u64to8], fun n small cast ↦ ?_⟩
    have value := mac_number numbers
    rw [pack_spec padded, added, least, least_eq number small (cast.trans sum.symm), same,
      Nat.mod_mod_of_dvd _ (Nat.pow_dvd_pow 2 (by omega))] at value
    exact value

end Header64
end Poly1305
