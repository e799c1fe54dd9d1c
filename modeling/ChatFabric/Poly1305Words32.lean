import ChatFabric.Poly1305Tag
import Mathlib

/- The arithmetic of poly1305-donna-32.h is lawful: no word overflows, and the five limbs keep the sum
   of the blocks modulo 2^130 - 5. -/
namespace Poly1305
open ByteStrings ByteNumbers UnsignedWords

namespace Header32

/-- The numbers r, h and pad in limbs of 26 bits; pad has whole words. -/
structure Numbers where
  r : Vector (BitVec 32) 5
  h : Vector (BitVec 32) 5
  pad : Vector (BitVec 32) 4

def init (key : Block 32) : Numbers where
  r := #v[
    u8to32 key.val &&& 0x3ffffff,
    (u8to32 (key.val.drop 3) >>> 2) &&& 0x3ffff03,
    (u8to32 (key.val.drop 6) >>> 4) &&& 0x3ffc0ff,
    (u8to32 (key.val.drop 9) >>> 6) &&& 0x3f03fff,
    (u8to32 (key.val.drop 12) >>> 8) &&& 0x00fffff]
  h := #v[0, 0, 0, 0, 0]
  pad := #v[
    u8to32 (key.val.drop 16),
    u8to32 (key.val.drop 20),
    u8to32 (key.val.drop 24),
    u8to32 (key.val.drop 28)]

def addBlock (final : Bool) (h : Vector (BitVec 32) 5) (m : Bytes) : Vector (BitVec 32) 5 :=
  let hibit : BitVec 32 := if final then 0 else (1 : BitVec 32) <<< 24
  #v[h[0] + (u8to32 m &&& 0x3ffffff),
    h[1] + ((u8to32 (m.drop 3) >>> 2) &&& 0x3ffffff),
    h[2] + ((u8to32 (m.drop 6) >>> 4) &&& 0x3ffffff),
    h[3] + ((u8to32 (m.drop 9) >>> 6) &&& 0x3ffffff),
    h[4] + ((u8to32 (m.drop 12) >>> 8) ||| hibit)]

def sumOfProducts (h row : Vector (BitVec 32) 5) : BitVec 64 :=
  h[0].setWidth 64 * row[0].setWidth 64 + h[1].setWidth 64 * row[1].setWidth 64 +
    h[2].setWidth 64 * row[2].setWidth 64 + h[3].setWidth 64 * row[3].setWidth 64 +
    h[4].setWidth 64 * row[4].setWidth 64

def products (h r : Vector (BitVec 32) 5) : Vector (BitVec 64) 5 :=
  let s1 := r[1] * 5
  let s2 := r[2] * 5
  let s3 := r[3] * 5
  let s4 := r[4] * 5
  #v[sumOfProducts h #v[r[0], s4, s3, s2, s1],
    sumOfProducts h #v[r[1], r[0], s4, s3, s2],
    sumOfProducts h #v[r[2], r[1], r[0], s4, s3],
    sumOfProducts h #v[r[3], r[2], r[1], r[0], s4],
    sumOfProducts h #v[r[4], r[3], r[2], r[1], r[0]]]

def excess (d : BitVec 64) : BitVec 32 := (d >>> 26).setWidth 32
def kept (d : BitVec 64) : BitVec 32 := d.setWidth 32 &&& 0x3ffffff

/-- The limbs of the products; what limb 4 cannot keep counts five times in limb 0. -/
def carryProducts (d : Vector (BitVec 64) 5) : Vector (BitVec 32) 5 :=
  let d1 := d[1] + (excess d[0]).setWidth 64
  let d2 := d[2] + (excess d1).setWidth 64
  let d3 := d[3] + (excess d2).setWidth 64
  let d4 := d[4] + (excess d3).setWidth 64
  let h0 := kept d[0] + excess d4 * 5
  #v[h0 &&& 0x3ffffff, kept d1 + (h0 >>> 26), kept d2, kept d3, kept d4]

def block (final : Bool) (numbers : Numbers) (m : Bytes) : Numbers :=
  { numbers with h := carryProducts (products (addBlock final numbers.h m) numbers.r) }

def fullCarry (h : Vector (BitVec 32) 5) : Vector (BitVec 32) 5 :=
  let h2 := h[2] + (h[1] >>> 26)
  let h3 := h[3] + (h2 >>> 26)
  let h4 := h[4] + (h3 >>> 26)
  let h0 := h[0] + (h4 >>> 26) * 5
  #v[h0 &&& 0x3ffffff,
    (h[1] &&& 0x3ffffff) + (h0 >>> 26),
    h2 &&& 0x3ffffff,
    h3 &&& 0x3ffffff,
    h4 &&& 0x3ffffff]

/-- The limbs of h, or those of h - (2^130 - 5) if that is not negative. -/
def select (h : Vector (BitVec 32) 5) : Vector (BitVec 32) 5 :=
  let g0 := h[0] + 5
  let g1 := h[1] + (g0 >>> 26)
  let g2 := h[2] + (g1 >>> 26)
  let g3 := h[3] + (g2 >>> 26)
  let g4 := h[4] + (g3 >>> 26) - ((1 : BitVec 32) <<< 26)
  let mask := (g4 >>> 31) - 1
  #v[(h[0] &&& ~~~mask) ||| (g0 &&& 0x3ffffff &&& mask),
    (h[1] &&& ~~~mask) ||| (g1 &&& 0x3ffffff &&& mask),
    (h[2] &&& ~~~mask) ||| (g2 &&& 0x3ffffff &&& mask),
    (h[3] &&& ~~~mask) ||| (g3 &&& 0x3ffffff &&& mask),
    (h[4] &&& ~~~mask) ||| (g4 &&& mask)]

def pack (h : Vector (BitVec 32) 5) : Vector (BitVec 32) 4 :=
  #v[h[0] ||| (h[1] <<< 26),
    (h[1] >>> 6) ||| (h[2] <<< 20),
    (h[2] >>> 12) ||| (h[3] <<< 14),
    (h[3] >>> 18) ||| (h[4] <<< 8)]

def addPad (h pad : Vector (BitVec 32) 4) : Vector (BitVec 32) 4 :=
  let f0 : BitVec 64 := h[0].setWidth 64 + pad[0].setWidth 64
  let f1 : BitVec 64 := h[1].setWidth 64 + pad[1].setWidth 64 + (f0 >>> 32)
  let f2 : BitVec 64 := h[2].setWidth 64 + pad[2].setWidth 64 + (f1 >>> 32)
  let f3 : BitVec 64 := h[3].setWidth 64 + pad[3].setWidth 64 + (f2 >>> 32)
  #v[f0.setWidth 32, f1.setWidth 32, f2.setWidth 32, f3.setWidth 32]

def mac (numbers : Numbers) : Bytes :=
  let h := addPad (pack (select (fullCarry numbers.h))) numbers.pad
  u32to8 h[0] ++ u32to8 h[1] ++ u32to8 h[2] ++ u32to8 h[3]

def clear (_ : Numbers) : Numbers := ⟨.replicate 5 0, .replicate 5 0, .replicate 4 0⟩

instance : Arithmetic Numbers := ⟨init, block, mac, clear⟩

abbrev Limbs := Vector (BitVec 32) 5

def value (h : Limbs) : ℕ :=
  h[0].toNat + 2 ^ 26 * h[1].toNat + 2 ^ 52 * h[2].toNat + 2 ^ 78 * h[3].toNat + 2 ^ 104 * h[4].toNat

structure Within (b0 b1 b2 b3 b4 : ℕ) (h : Limbs) : Prop where
  zero : h[0].toNat < b0
  one : h[1].toNat < b1
  two : h[2].toNat < b2
  three : h[3].toNat < b3
  four : h[4].toNat < b4

abbrev Reduced := Within (2 ^ 26) (2 ^ 26 + 2 ^ 6) (2 ^ 26) (2 ^ 26) (2 ^ 26)

section
variable {m : Bytes}

theorem limb_toNat {mask : BitVec 32} (k s : ℕ) (ones : mask.toNat = 2 ^ 26 - 1) (inside : s ≤ 6) :
    (((u8to32 (m.drop k)) >>> s) &&& mask).toNat = leNumber m / (256 ^ k * 2 ^ s) % 2 ^ 26 := by
  have word : (u8to32 (m.drop k)).toNat = leNumber m / 256 ^ k % 2 ^ 32 := u8to_drop m k (by omega)
  have whole : 2 ^ 32 = 2 ^ s * 2 ^ (32 - s) := by
    rw [← pow_add]
    congr 1
    omega
  rw [toNat_and _ ones, toNat_shiftRight, word, ← Nat.div_div_eq_div_mul, whole, Nat.mod_mul_right_div_self,
    Nat.mod_mod_of_dvd _ (Nat.pow_dvd_pow 2 (by omega))]

theorem addBlock_spec (final : Bool) {h : Limbs} (reduced : Reduced h) (full : m.length = 16) :
    Within (2 ^ 27) (2 ^ 27 + 2 ^ 6) (2 ^ 27) (2 ^ 27) (2 ^ 26 + 2 ^ 25) (addBlock final h m) ∧
      value (addBlock final h m) = value h + (leNumber m + if final then 0 else 2 ^ 128) := by
  have size : leNumber m < 2 ^ 128 := by
    have bytes := leNumber_lt m
    rwa [full] at bytes
  have zero : (u8to32 m &&& 0x3ffffff).toNat = leNumber m % 2 ^ 26 := by
    have limb : ((u8to32 (m.drop 0) >>> 0) &&& 0x3ffffff).toNat = leNumber m / 2 ^ 0 % 2 ^ 26 :=
      limb_toNat 0 0 rfl (by omega)
    simpa using limb
  have one : ((u8to32 (m.drop 3) >>> 2) &&& 0x3ffffff).toNat = leNumber m / 2 ^ 26 % 2 ^ 26 :=
    limb_toNat 3 2 rfl (by omega)
  have two : ((u8to32 (m.drop 6) >>> 4) &&& 0x3ffffff).toNat = leNumber m / 2 ^ 52 % 2 ^ 26 :=
    limb_toNat 6 4 rfl (by omega)
  have three : ((u8to32 (m.drop 9) >>> 6) &&& 0x3ffffff).toNat = leNumber m / 2 ^ 78 % 2 ^ 26 :=
    limb_toNat 9 6 rfl (by omega)
  have last : (u8to32 (m.drop 12) >>> 8).toNat = leNumber m / 2 ^ 104 := by
    have word : (u8to32 (m.drop 12)).toNat = leNumber m / 256 ^ 12 % 256 ^ 4 := u8to_drop m 12 (by omega)
    rw [toNat_shiftRight, word]
    omega
  obtain ⟨bit, small, bits, joined⟩ : ∃ bit, bit ≤ 2 ^ 24 ∧
      (if final then 0 else 2 ^ 128) = 2 ^ 104 * bit ∧
      ((u8to32 (m.drop 12) >>> 8) ||| (if final then (0 : BitVec 32) else (1 : BitVec 32) <<< 24)).toNat =
        leNumber m / 2 ^ 104 + bit := by
    cases final with
    | true => exact ⟨0, by omega, rfl, by simpa using last⟩
    | false =>
      have joined := toNat_join (x := u8to32 (m.drop 12) >>> 8) (n := 24) 1 (by omega) (by omega)
      refine ⟨2 ^ 24, by omega, rfl, ?_⟩
      rw [if_neg Bool.false_ne_true, joined, last]
      rfl
  obtain ⟨h0, h1, h2, h3, h4⟩ := reduced
  have sum0 : (addBlock final h m)[0].toNat = h[0].toNat + leNumber m % 2 ^ 26 := by
    rw [← zero]
    exact BitVec.toNat_add_of_lt (by omega)
  have sum1 : (addBlock final h m)[1].toNat = h[1].toNat + leNumber m / 2 ^ 26 % 2 ^ 26 := by
    rw [← one]
    exact BitVec.toNat_add_of_lt (by omega)
  have sum2 : (addBlock final h m)[2].toNat = h[2].toNat + leNumber m / 2 ^ 52 % 2 ^ 26 := by
    rw [← two]
    exact BitVec.toNat_add_of_lt (by omega)
  have sum3 : (addBlock final h m)[3].toNat = h[3].toNat + leNumber m / 2 ^ 78 % 2 ^ 26 := by
    rw [← three]
    exact BitVec.toNat_add_of_lt (by omega)
  have sum4 : (addBlock final h m)[4].toNat = h[4].toNat + (leNumber m / 2 ^ 104 + bit) := by
    rw [← joined]
    exact BitVec.toNat_add_of_lt (by omega)
  refine ⟨⟨by omega, by omega, by omega, by omega, by omega⟩, ?_⟩
  rw [value, sum0, sum1, sum2, sum3, sum4, value, bits]
  simp only [Nat.reducePow]
  omega

abbrev Summed := Within (2 ^ 27) (2 ^ 27 + 2 ^ 6) (2 ^ 27) (2 ^ 27) (2 ^ 26 + 2 ^ 25)

abbrev Exact := Within (2 ^ 26) (2 ^ 26) (2 ^ 26) (2 ^ 26) (2 ^ 26)

theorem row_toNat {a : Limbs} (summed : Summed a) (x0 x1 x2 x3 x4 : BitVec 32) (bound : ℕ)
    {n0 n1 n2 n3 n4 : ℕ} (most : bound ≤ 5 * 2 ^ 26) (zero : x0.toNat = n0 ∧ n0 ≤ bound) (one : x1.toNat = n1 ∧ n1 ≤ bound)
    (two : x2.toNat = n2 ∧ n2 ≤ bound) (three : x3.toNat = n3 ∧ n3 ≤ bound)
    (four : x4.toNat = n4 ∧ n4 ≤ bound) :
    (sumOfProducts a #v[x0, x1, x2, x3, x4]).toNat = a[0].toNat * n0 + a[1].toNat * n1 + a[2].toNat * n2 +
        a[3].toNat * n3 + a[4].toNat * n4 ∧
      (sumOfProducts a #v[x0, x1, x2, x3, x4]).toNat ≤
        (4 * (2 ^ 27 + 2 ^ 6) + (2 ^ 26 + 2 ^ 25)) * bound := by
  obtain ⟨a0, a1, a2, a3, a4⟩ := summed
  have first : a[0].toNat * n0 ≤ (2 ^ 27 + 2 ^ 6) * bound := Nat.mul_le_mul (by omega) zero.2
  have second : a[1].toNat * n1 ≤ (2 ^ 27 + 2 ^ 6) * bound := Nat.mul_le_mul (by omega) one.2
  have third : a[2].toNat * n2 ≤ (2 ^ 27 + 2 ^ 6) * bound := Nat.mul_le_mul (by omega) two.2
  have fourth : a[3].toNat * n3 ≤ (2 ^ 27 + 2 ^ 6) * bound := Nat.mul_le_mul (by omega) three.2
  have fifth : a[4].toNat * n4 ≤ (2 ^ 26 + 2 ^ 25) * bound := Nat.mul_le_mul (by omega) four.2
  have product (x y : BitVec 32) {n : ℕ} (value : y.toNat = n) :
      (x.setWidth 64 * y.setWidth 64).toNat = x.toNat * n := by
    rw [toNat_wideProduct x y (by omega), value]
  have sum : (sumOfProducts a #v[x0, x1, x2, x3, x4]).toNat = a[0].toNat * n0 + a[1].toNat * n1 +
      a[2].toNat * n2 + a[3].toNat * n3 + a[4].toNat * n4 :=
    toNat_sum (toNat_sum (toNat_sum (toNat_sum (product _ _ zero.1) (product _ _ one.1) (by omega))
      (product _ _ two.1) (by omega)) (product _ _ three.1) (by omega)) (product _ _ four.1) (by omega)
  exact ⟨sum, by omega⟩

/-- A product of limbs i and j with i + j ≥ 5 counts five times at i + j - 5. -/
theorem rows_product {R : Type} [CommRing R] (modulus : (2 : R) ^ 130 = 5)
    (a0 a1 a2 a3 a4 r0 r1 r2 r3 r4 : R) :
    a0 * r0 + a1 * (r4 * 5) + a2 * (r3 * 5) + a3 * (r2 * 5) + a4 * (r1 * 5) +
          2 ^ 26 * (a0 * r1 + a1 * r0 + a2 * (r4 * 5) + a3 * (r3 * 5) + a4 * (r2 * 5)) +
        2 ^ 52 * (a0 * r2 + a1 * r1 + a2 * r0 + a3 * (r4 * 5) + a4 * (r3 * 5)) +
      2 ^ 78 * (a0 * r3 + a1 * r2 + a2 * r1 + a3 * r0 + a4 * (r4 * 5)) +
    2 ^ 104 * (a0 * r4 + a1 * r3 + a2 * r2 + a3 * r1 + a4 * r0) =
      (a0 + 2 ^ 26 * a1 + 2 ^ 52 * a2 + 2 ^ 78 * a3 + 2 ^ 104 * a4) *
        (r0 + 2 ^ 26 * r1 + 2 ^ 52 * r2 + 2 ^ 78 * r3 + 2 ^ 104 * r4) := by
  linear_combination (-(a1 * r4 + a2 * r3 + a3 * r2 + a4 * r1 + 2 ^ 26 * (a2 * r4 + a3 * r3 + a4 * r2) +
    2 ^ 52 * (a3 * r4 + a4 * r3) + 2 ^ 78 * (a4 * r4))) * modulus

theorem products_toNat {a r : Limbs} (summed : Summed a) (exact : Exact r) :
    ((products a r)[0].toNat = a[0].toNat * r[0].toNat + a[1].toNat * (r[4].toNat * 5) +
        a[2].toNat * (r[3].toNat * 5) + a[3].toNat * (r[2].toNat * 5) + a[4].toNat * (r[1].toNat * 5) ∧
      (products a r)[0].toNat ≤ (4 * (2 ^ 27 + 2 ^ 6) + (2 ^ 26 + 2 ^ 25)) * (5 * 2 ^ 26)) ∧
    ((products a r)[1].toNat = a[0].toNat * r[1].toNat + a[1].toNat * r[0].toNat +
        a[2].toNat * (r[4].toNat * 5) + a[3].toNat * (r[3].toNat * 5) + a[4].toNat * (r[2].toNat * 5) ∧
      (products a r)[1].toNat ≤ (4 * (2 ^ 27 + 2 ^ 6) + (2 ^ 26 + 2 ^ 25)) * (5 * 2 ^ 26)) ∧
    ((products a r)[2].toNat = a[0].toNat * r[2].toNat + a[1].toNat * r[1].toNat +
        a[2].toNat * r[0].toNat + a[3].toNat * (r[4].toNat * 5) + a[4].toNat * (r[3].toNat * 5) ∧
      (products a r)[2].toNat ≤ (4 * (2 ^ 27 + 2 ^ 6) + (2 ^ 26 + 2 ^ 25)) * (5 * 2 ^ 26)) ∧
    ((products a r)[3].toNat = a[0].toNat * r[3].toNat + a[1].toNat * r[2].toNat +
        a[2].toNat * r[1].toNat + a[3].toNat * r[0].toNat + a[4].toNat * (r[4].toNat * 5) ∧
      (products a r)[3].toNat ≤ (4 * (2 ^ 27 + 2 ^ 6) + (2 ^ 26 + 2 ^ 25)) * (5 * 2 ^ 26)) ∧
    ((products a r)[4].toNat = a[0].toNat * r[4].toNat + a[1].toNat * r[3].toNat +
        a[2].toNat * r[2].toNat + a[3].toNat * r[1].toNat + a[4].toNat * r[0].toNat ∧
      (products a r)[4].toNat ≤ (4 * (2 ^ 27 + 2 ^ 6) + (2 ^ 26 + 2 ^ 25)) * 2 ^ 26) := by
  have plain (x : BitVec 32) (small : x.toNat < 2 ^ 26) : x.toNat = x.toNat ∧ x.toNat ≤ 5 * 2 ^ 26 :=
    ⟨rfl, by omega⟩
  have less (x : BitVec 32) (small : x.toNat < 2 ^ 26) : x.toNat = x.toNat ∧ x.toNat ≤ 2 ^ 26 := ⟨rfl, by omega⟩
  have times (x : BitVec 32) (small : x.toNat < 2 ^ 26) :
      (x * 5).toNat = x.toNat * 5 ∧ x.toNat * 5 ≤ 5 * 2 ^ 26 :=
    ⟨toNat_product rfl rfl (by omega), by omega⟩
  obtain ⟨r0, r1, r2, r3, r4⟩ := exact
  refine ⟨?_, ?_, ?_, ?_, ?_⟩
  · exact row_toNat summed _ _ _ _ _ _ le_rfl (plain _ r0) (times _ r4) (times _ r3) (times _ r2) (times _ r1)
  · exact row_toNat summed _ _ _ _ _ _ le_rfl (plain _ r1) (plain _ r0) (times _ r4) (times _ r3) (times _ r2)
  · exact row_toNat summed _ _ _ _ _ _ le_rfl (plain _ r2) (plain _ r1) (plain _ r0) (times _ r4) (times _ r3)
  · exact row_toNat summed _ _ _ _ _ _ le_rfl (plain _ r3) (plain _ r2) (plain _ r1) (plain _ r0) (times _ r4)
  · exact row_toNat summed _ _ _ _ _ _ (by norm_num) (less _ r4) (less _ r3) (less _ r2) (less _ r1) (less _ r0)

theorem products_spec {a r : Limbs} (summed : Summed a) (exact : Exact r) :
    ((products a r)[0].toNat < 26 * 2 ^ 53 ∧ (products a r)[1].toNat < 26 * 2 ^ 53 ∧
        (products a r)[2].toNat < 26 * 2 ^ 53 ∧ (products a r)[3].toNat < 26 * 2 ^ 53 ∧
        (products a r)[4].toNat < 5 * 2 ^ 53) ∧
      (((products a r)[0].toNat + 2 ^ 26 * (products a r)[1].toNat + 2 ^ 52 * (products a r)[2].toNat +
        2 ^ 78 * (products a r)[3].toNat + 2 ^ 104 * (products a r)[4].toNat : ℕ) : Residue) =
        (value a : Residue) * value r := by
  obtain ⟨⟨d0, small0⟩, ⟨d1, small1⟩, ⟨d2, small2⟩, ⟨d3, small3⟩, d4, small4⟩ := products_toNat summed exact
  refine ⟨⟨small0.trans_lt (by norm_num), small1.trans_lt (by norm_num), small2.trans_lt (by norm_num),
    small3.trans_lt (by norm_num), small4.trans_lt (by norm_num)⟩, ?_⟩
  rw [d0, d1, d2, d3, d4, value, value]
  push_cast
  exact rows_product modulus _ _ _ _ _ _ _ _ _ _

theorem excess_toNat {x : BitVec 64} (small : x.toNat < 2 ^ 58) : (excess x).toNat = x.toNat / 2 ^ 26 :=
  toNat_high (by omega)

theorem kept_toNat (x : BitVec 64) : (kept x).toNat = x.toNat % 2 ^ 26 := toNat_low x rfl (by omega)

theorem given_toNat {x y : BitVec 64} (left : x.toNat < 2 ^ 58) (right : y.toNat < 2 ^ 58) :
    (x + (excess y).setWidth 64).toNat = x.toNat + y.toNat / 2 ^ 26 :=
  toNat_sum rfl ((toNat_wide _ (by omega)).trans (excess_toNat right)) (by omega)

theorem carryProducts_toNat {d : Vector (BitVec 64) 5} (zero : d[0].toNat < 26 * 2 ^ 53)
    (one : d[1].toNat < 26 * 2 ^ 53) (two : d[2].toNat < 26 * 2 ^ 53) (three : d[3].toNat < 26 * 2 ^ 53)
    (four : d[4].toNat < 5 * 2 ^ 53) :
    ∃ d1 d2 d3 d4 h0 : ℕ, d1 = d[1].toNat + d[0].toNat / 2 ^ 26 ∧ d2 = d[2].toNat + d1 / 2 ^ 26 ∧
      d3 = d[3].toNat + d2 / 2 ^ 26 ∧ d4 = d[4].toNat + d3 / 2 ^ 26 ∧
      h0 = d[0].toNat % 2 ^ 26 + d4 / 2 ^ 26 * 5 ∧
      (carryProducts d)[0].toNat = h0 % 2 ^ 26 ∧ (carryProducts d)[1].toNat = d1 % 2 ^ 26 + h0 / 2 ^ 26 ∧
      (carryProducts d)[2].toNat = d2 % 2 ^ 26 ∧ (carryProducts d)[3].toNat = d3 % 2 ^ 26 ∧
      (carryProducts d)[4].toNat = d4 % 2 ^ 26 := by
  let d1 := d[1] + (excess d[0]).setWidth 64
  let d2 := d[2] + (excess d1).setWidth 64
  let d3 := d[3] + (excess d2).setWidth 64
  let d4 := d[4] + (excess d3).setWidth 64
  let h0 := kept d[0] + excess d4 * 5
  have first : d1.toNat = d[1].toNat + d[0].toNat / 2 ^ 26 := given_toNat (by omega) (by omega)
  have second : d2.toNat = d[2].toNat + d1.toNat / 2 ^ 26 := given_toNat (by omega) (by omega)
  have third : d3.toNat = d[3].toNat + d2.toNat / 2 ^ 26 := given_toNat (by omega) (by omega)
  have fourth : d4.toNat = d[4].toNat + d3.toNat / 2 ^ 26 := given_toNat (by omega) (by omega)
  have five : (excess d4 * 5).toNat = d4.toNat / 2 ^ 26 * 5 :=
    toNat_product (excess_toNat (by omega)) rfl (by omega)
  have low : h0.toNat = d[0].toNat % 2 ^ 26 + d4.toNat / 2 ^ 26 * 5 :=
    toNat_sum (kept_toNat _) five (by omega)
  exact ⟨d1.toNat, d2.toNat, d3.toNat, d4.toNat, h0.toNat, first, second, third, fourth, low, toNat_and h0 rfl,
    toNat_sum (kept_toNat d1) (toNat_shiftRight h0 26) (by omega), kept_toNat d2, kept_toNat d3, kept_toNat d4⟩

theorem carryProducts_spec {d : Vector (BitVec 64) 5} (zero : d[0].toNat < 26 * 2 ^ 53)
    (one : d[1].toNat < 26 * 2 ^ 53) (two : d[2].toNat < 26 * 2 ^ 53) (three : d[3].toNat < 26 * 2 ^ 53)
    (four : d[4].toNat < 5 * 2 ^ 53) :
    Reduced (carryProducts d) ∧ ∃ k, value (carryProducts d) + (2 ^ 130 - 5) * k =
      d[0].toNat + 2 ^ 26 * d[1].toNat + 2 ^ 52 * d[2].toNat + 2 ^ 78 * d[3].toNat + 2 ^ 104 * d[4].toNat := by
  obtain ⟨d1, d2, d3, d4, h0, first, second, third, fourth, low, limb0, limb1, limb2, limb3, limb4⟩ :=
    carryProducts_toNat zero one two three four
  refine ⟨⟨by omega, by omega, by omega, by omega, by omega⟩, d4 / 2 ^ 26, ?_⟩
  rw [value, limb0, limb1, limb2, limb3, limb4]
  omega

theorem block_spec {numbers : Numbers} (final : Bool) (reduced : Reduced numbers.h)
    (exact : Exact numbers.r) (full : m.length = 16) :
    Reduced (block final numbers m).h ∧ ((value (block final numbers m).h : ℕ) : Residue) =
      (value numbers.h + (leNumber m + if final then 0 else 2 ^ 128 : ℕ)) * value numbers.r := by
  obtain ⟨summed, sum⟩ := addBlock_spec final reduced full
  obtain ⟨⟨zero, one, two, three, four⟩, product⟩ := products_spec summed exact
  obtain ⟨last, k, carried⟩ := carryProducts_spec zero one two three four
  refine ⟨last, ?_⟩
  have cast := congrArg (Nat.cast : ℕ → Residue) carried
  rw [product, sum, Nat.cast_add, Nat.cast_mul, modulus_cast, zero_mul, add_zero, Nat.cast_add] at cast
  exact cast

theorem Exact.value_lt {h : Limbs} (exact : Exact h) : value h < 2 ^ 130 := by
  obtain ⟨zero, one, two, three, four⟩ := exact
  rw [value]
  omega

/-- A second carry all around would move nothing: where limb 4 had to give, limb 1 was left small. -/
theorem fullCarry_spec {h : Limbs} (reduced : Reduced h) :
    Exact (fullCarry h) ∧ ∃ k, value (fullCarry h) + (2 ^ 130 - 5) * k = value h := by
  obtain ⟨zero, one, two, three, four⟩ := reduced
  let h2 := h[2] + (h[1] >>> 26)
  let h3 := h[3] + (h2 >>> 26)
  let h4 := h[4] + (h3 >>> 26)
  let h0 := h[0] + (h4 >>> 26) * 5
  have second : h2.toNat = h[2].toNat + h[1].toNat / 2 ^ 26 := toNat_sum rfl (toNat_shiftRight ..) (by omega)
  have third : h3.toNat = h[3].toNat + h2.toNat / 2 ^ 26 := toNat_sum rfl (toNat_shiftRight ..) (by omega)
  have fourth : h4.toNat = h[4].toNat + h3.toNat / 2 ^ 26 := toNat_sum rfl (toNat_shiftRight ..) (by omega)
  have first : h0.toNat = h[0].toNat + h4.toNat / 2 ^ 26 * 5 :=
    toNat_sum rfl (toNat_product (toNat_shiftRight ..) rfl (by omega)) (by omega)
  have limb0 : (fullCarry h)[0].toNat = h0.toNat % 2 ^ 26 := toNat_and h0 rfl
  have limb1 : (fullCarry h)[1].toNat = h[1].toNat % 2 ^ 26 + h0.toNat / 2 ^ 26 :=
    toNat_sum (toNat_and h[1] rfl) (toNat_shiftRight ..) (by omega)
  have limb2 : (fullCarry h)[2].toNat = h2.toNat % 2 ^ 26 := toNat_and h2 rfl
  have limb3 : (fullCarry h)[3].toNat = h3.toNat % 2 ^ 26 := toNat_and h3 rfl
  have limb4 : (fullCarry h)[4].toNat = h4.toNat % 2 ^ 26 := toNat_and h4 rfl
  have small : (fullCarry h)[1].toNat < 2 ^ 26 := by
    rw [limb1]
    by_cases none : h[1].toNat < 2 ^ 26
    · have still : h4.toNat / 2 ^ 26 = 0 := by omega
      omega
    · have few : h0.toNat / 2 ^ 26 ≤ 1 := by omega
      omega
  refine ⟨⟨by omega, small, by omega, by omega, by omega⟩, h4.toNat / 2 ^ 26, ?_⟩
  rw [value, limb0, limb1, limb2, limb3, limb4, value]
  omega

theorem select_spec {h : Limbs} (exact : Exact h) :
    Exact (select h) ∧ value (select h) = value h % (2 ^ 130 - 5) := by
  obtain ⟨zero, one, two, three, four⟩ := exact
  let g0 := h[0] + 5
  let g1 := h[1] + (g0 >>> 26)
  let g2 := h[2] + (g1 >>> 26)
  let g3 := h[3] + (g2 >>> 26)
  let top := h[4] + (g3 >>> 26)
  let g4 := top - ((1 : BitVec 32) <<< 26)
  let mask := (g4 >>> 31) - 1
  have first : g0.toNat = h[0].toNat + 5 := toNat_sum rfl rfl (by omega)
  have second : g1.toNat = h[1].toNat + g0.toNat / 2 ^ 26 := toNat_sum rfl (toNat_shiftRight ..) (by omega)
  have third : g2.toNat = h[2].toNat + g1.toNat / 2 ^ 26 := toNat_sum rfl (toNat_shiftRight ..) (by omega)
  have fourth : g3.toNat = h[3].toNat + g2.toNat / 2 ^ 26 := toNat_sum rfl (toNat_shiftRight ..) (by omega)
  have fifth : top.toNat = h[4].toNat + g3.toNat / 2 ^ 26 := toNat_sum rfl (toNat_shiftRight ..) (by omega)
  have wrapped : g4.toNat = (2 ^ 32 - 2 ^ 26 + top.toNat) % 2 ^ 32 := BitVec.toNat_sub ..
  by_cases less : top.toNat < 2 ^ 26
  · have bit : g4 >>> 31 = 1#32 := by
      apply BitVec.eq_of_toNat_eq
      rw [toNat_shiftRight, wrapped]
      change _ = 1
      omega
    have none : mask = 0#32 := congrArg (· - 1) bit
    have same : select h = h := by
      apply Vector.ext
      intro i inside
      interval_cases i <;> exact choose_first none
    rw [same]
    refine ⟨⟨zero, one, two, three, four⟩, (Nat.mod_eq_of_lt ?_).symm⟩
    rw [value]
    omega
  · have bit : g4 >>> 31 = 0#32 := by
      apply BitVec.eq_of_toNat_eq
      rw [toNat_shiftRight, wrapped]
      change _ = 0
      omega
    have all : mask = BitVec.allOnes 32 := congrArg (· - 1) bit
    have limb0 : (select h)[0].toNat = g0.toNat % 2 ^ 26 :=
      (congrArg BitVec.toNat (choose_second all)).trans (toNat_and g0 rfl)
    have limb1 : (select h)[1].toNat = g1.toNat % 2 ^ 26 :=
      (congrArg BitVec.toNat (choose_second all)).trans (toNat_and g1 rfl)
    have limb2 : (select h)[2].toNat = g2.toNat % 2 ^ 26 :=
      (congrArg BitVec.toNat (choose_second all)).trans (toNat_and g2 rfl)
    have limb3 : (select h)[3].toNat = g3.toNat % 2 ^ 26 :=
      (congrArg BitVec.toNat (choose_second all)).trans (toNat_and g3 rfl)
    have limb4 : (select h)[4].toNat = g4.toNat := congrArg BitVec.toNat (choose_second all)
    have reached : value (select h) + (2 ^ 130 - 5) = value h := by
      rw [value, limb0, limb1, limb2, limb3, limb4, value]
      omega
    have below : value h < 2 ^ 130 := Exact.value_lt ⟨zero, one, two, three, four⟩
    refine ⟨⟨by omega, by omega, by omega, by omega, by omega⟩, ?_⟩
    rw [← reached, Nat.add_mod_right, Nat.mod_eq_of_lt (by omega)]

def wordsValue (w : Vector (BitVec 32) 4) : ℕ :=
  w[0].toNat + 2 ^ 32 * w[1].toNat + 2 ^ 64 * w[2].toNat + 2 ^ 96 * w[3].toNat

theorem pack_spec {h : Limbs} (exact : Exact h) : wordsValue (pack h) = value h % 2 ^ 128 := by
  obtain ⟨zero, one, two, three, four⟩ := exact
  have word0 : (pack h)[0].toNat = h[0].toNat + 2 ^ 26 * (h[1].toNat % 2 ^ 6) :=
    toNat_join h[1] zero (by omega)
  have word1 : (pack h)[1].toNat = h[1].toNat / 2 ^ 6 + 2 ^ 20 * (h[2].toNat % 2 ^ 12) := by
    have joined := toNat_join (x := h[1] >>> 6) (n := 20) h[2] (by rw [toNat_shiftRight]; omega) (by omega)
    rwa [toNat_shiftRight] at joined
  have word2 : (pack h)[2].toNat = h[2].toNat / 2 ^ 12 + 2 ^ 14 * (h[3].toNat % 2 ^ 18) := by
    have joined := toNat_join (x := h[2] >>> 12) (n := 14) h[3] (by rw [toNat_shiftRight]; omega) (by omega)
    rwa [toNat_shiftRight] at joined
  have word3 : (pack h)[3].toNat = h[3].toNat / 2 ^ 18 + 2 ^ 8 * (h[4].toNat % 2 ^ 24) := by
    have joined := toNat_join (x := h[3] >>> 18) (n := 8) h[4] (by rw [toNat_shiftRight]; omega) (by omega)
    rwa [toNat_shiftRight] at joined
  rw [wordsValue, word0, word1, word2, word3, value]
  omega

theorem addPad_spec (w pad : Vector (BitVec 32) 4) :
    wordsValue (addPad w pad) = (wordsValue w + wordsValue pad) % 2 ^ 128 := by
  have sum (x y : BitVec 32) : (x.setWidth 64 + y.setWidth 64).toNat = x.toNat + y.toNat := by
    have left := x.isLt
    have right := y.isLt
    exact toNat_sum (toNat_wide x (by omega)) (toNat_wide y (by omega)) (by omega)
  let f0 : BitVec 64 := w[0].setWidth 64 + pad[0].setWidth 64
  let f1 : BitVec 64 := w[1].setWidth 64 + pad[1].setWidth 64 + (f0 >>> 32)
  let f2 : BitVec 64 := w[2].setWidth 64 + pad[2].setWidth 64 + (f1 >>> 32)
  let f3 : BitVec 64 := w[3].setWidth 64 + pad[3].setWidth 64 + (f2 >>> 32)
  have first : f0.toNat = w[0].toNat + pad[0].toNat := sum _ _
  have second : f1.toNat = w[1].toNat + pad[1].toNat + f0.toNat / 2 ^ 32 :=
    toNat_sum (sum _ _) (toNat_shiftRight ..) (by omega)
  have third : f2.toNat = w[2].toNat + pad[2].toNat + f1.toNat / 2 ^ 32 :=
    toNat_sum (sum _ _) (toNat_shiftRight ..) (by omega)
  have fourth : f3.toNat = w[3].toNat + pad[3].toNat + f2.toNat / 2 ^ 32 :=
    toNat_sum (sum _ _) (toNat_shiftRight ..) (by omega)
  have word0 : (addPad w pad)[0].toNat = f0.toNat % 2 ^ 32 := BitVec.toNat_setWidth ..
  have word1 : (addPad w pad)[1].toNat = f1.toNat % 2 ^ 32 := BitVec.toNat_setWidth ..
  have word2 : (addPad w pad)[2].toNat = f2.toNat % 2 ^ 32 := BitVec.toNat_setWidth ..
  have word3 : (addPad w pad)[3].toNat = f3.toNat % 2 ^ 32 := BitVec.toNat_setWidth ..
  rw [wordsValue, word0, word1, word2, word3, wordsValue, wordsValue]
  omega

theorem mac_number (numbers : Numbers) :
    leNumber (mac numbers) = wordsValue (addPad (pack (select (fullCarry numbers.h))) numbers.pad) := by
  have word (v : BitVec 32) : leNumber (u32to8 v) = v.toNat := by
    rw [u32to8, toU8_number]
    exact Nat.mod_eq_of_lt v.isLt
  have length (v : BitVec 32) : (u32to8 v).length = 4 := length_toU8 4 v
  simp only [mac, leNumber_append, word, List.length_append, length, wordsValue]
  norm_num

theorem init_pad (key : Block 32) : wordsValue (init key).pad = padOf key := by
  have bytes := leNumber_lt key.val
  rw [Block.length_val] at bytes
  have word0 : (init key).pad[0].toNat = leNumber key.val / 256 ^ 16 % 256 ^ 4 := u8to_drop _ _ (by omega)
  have word1 : (init key).pad[1].toNat = leNumber key.val / 256 ^ 20 % 256 ^ 4 := u8to_drop _ _ (by omega)
  have word2 : (init key).pad[2].toNat = leNumber key.val / 256 ^ 24 % 256 ^ 4 := u8to_drop _ _ (by omega)
  have word3 : (init key).pad[3].toNat = leNumber key.val / 256 ^ 28 % 256 ^ 4 := u8to_drop _ _ (by omega)
  rw [wordsValue, word0, word1, word2, word3, padOf, (leNumber_take_drop key.val 16).2]
  omega

theorem init_sum (key : Block 32) : Reduced (init key).h ∧ value (init key).h = 0 := by
  have zeros : (init key).h = #v[0, 0, 0, 0, 0] := rfl
  rw [zeros]
  exact ⟨⟨by decide, by decide, by decide, by decide, by decide⟩, by decide⟩

theorem init_factor (key : Block 32) :
    Exact (init key).r ∧ value (init key).r = factor key := by
  have low : (u8to32 key.val).toNat = leNumber key.val % 256 ^ 4 := u8to_toNat _ (by omega)
  have high (k s : ℕ) :
      (u8to32 (key.val.drop k) >>> s).toNat = leNumber key.val / 256 ^ k % 256 ^ 4 / 2 ^ s := by
    rw [toNat_shiftRight]
    exact congrArg (· / 2 ^ s) (u8to_drop _ k (by omega))
  have limb0 : (init key).r[0].toNat = factor key / 2 ^ 0 % 2 ^ 26 :=
    factor_limb key 0 26 (by rw [low]; omega) rfl
  have limb1 : (init key).r[1].toNat = factor key / 2 ^ 26 % 2 ^ 26 :=
    factor_limb key 26 26 (by rw [high]; omega) rfl
  have limb2 : (init key).r[2].toNat = factor key / 2 ^ 52 % 2 ^ 26 :=
    factor_limb key 52 26 (by rw [high]; omega) rfl
  have limb3 : (init key).r[3].toNat = factor key / 2 ^ 78 % 2 ^ 26 :=
    factor_limb key 78 26 (by rw [high]; omega) rfl
  have limb4 : (init key).r[4].toNat = factor key / 2 ^ 104 % 2 ^ 26 :=
    factor_limb key 104 26 (by rw [high]; omega) rfl
  have small := factor_lt key
  refine ⟨⟨by omega, by omega, by omega, by omega, by omega⟩, ?_⟩
  rw [value, limb0, limb1, limb2, limb3, limb4]
  simp only [Nat.reducePow]
  omega

def lawful : Lawful Numbers where
  Holds r pad a numbers := Exact numbers.r ∧ value numbers.r = r ∧ wordsValue numbers.pad = pad ∧
    Reduced numbers.h ∧ (value numbers.h : Residue) = a
  init key := by
    obtain ⟨exact, factor⟩ := init_factor key
    obtain ⟨reduced, zero⟩ := init_sum key
    exact ⟨exact, factor, init_pad key, reduced, (congrArg Nat.cast zero).trans Nat.cast_zero⟩
  block final m full holds := by
    obtain ⟨exact, factor, pad, reduced, sum⟩ := holds
    obtain ⟨still, product⟩ := block_spec final reduced exact full
    rw [sum, factor] at product
    exact ⟨exact, factor, pad, still, product⟩
  mac {r pad a numbers} holds := by
    obtain ⟨exact, factor, same, reduced, sum⟩ := holds
    obtain ⟨carried, k, number⟩ := fullCarry_spec reduced
    obtain ⟨selected, least⟩ := select_spec carried
    refine ⟨by simp [Arithmetic.mac, mac, u32to8], fun n small cast ↦ ?_⟩
    have value := mac_number numbers
    rw [addPad_spec, pack_spec selected, least, least_eq number small (cast.trans sum.symm), same,
      Nat.mod_add_mod] at value
    exact value

end

end Header32
end Poly1305
