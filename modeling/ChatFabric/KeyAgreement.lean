import ChatFabric.FieldBytes
import ChatFabric.LucasTest
import Mathlib.FieldTheory.Finite.Basic

/- What curve25519_donna computes: a multiple of a point of y² = x³ + 486662 x² + x over the field of
   2^255 - 19 elements, by its x-coordinate. -/
namespace KeyAgreement
open ByteStrings ByteNumbers Curve25519 LimbNumbers MontgomeryCurve WeierstrassCurve.Affine

abbrev Residue := ZMod (2 ^ 255 - 19)

instance residue_prime : Fact (Nat.Prime (2 ^ 255 - 19)) := ⟨LucasTest.prime_25519⟩

theorem modulus : (2 : Residue) ^ 255 = 19 := by
  have zero : ((2 ^ 255 - 19 : ℕ) : Residue) = 0 := ZMod.natCast_self _
  rw [Nat.cast_sub (by norm_num), Nat.cast_pow, Nat.cast_ofNat, Nat.cast_ofNat] at zero
  exact sub_eq_zero.mp zero

theorem natCast_ne_zero {n : ℕ} (some : 0 < n) (small : n < 2 ^ 255 - 19) : (n : Residue) ≠ 0 := by
  rw [Ne, ZMod.natCast_eq_zero_iff]
  exact Nat.not_dvd_of_pos_of_lt some small

theorem smooth : Smooth (486662 : Residue) 121665 where
  two := natCast_ne_zero (n := 2) (by omega) (by omega)
  param := by norm_num
  minus := by
    have apart := natCast_ne_zero (n := 486660) (by omega) (by omega)
    intro same
    exact apart (by linear_combination same)
  plus := by
    have apart := natCast_ne_zero (n := 486664) (by omega) (by omega)
    intro same
    exact apart (by linear_combination same)

/-- The chain of squares and products in crecip ends at the inverse. -/
theorem pow_inverse (z : Residue) : z ^ (2 ^ 255 - 21) = z⁻¹ := by
  by_cases zero : z = 0
  · rw [zero, inv_zero, zero_pow (by norm_num)]
  · have fermat := ZMod.pow_card_sub_one_eq_one zero
    have product : z ^ (2 ^ 255 - 21) * z = 1 := by
      rw [← pow_succ]
      exact fermat
    exact eq_inv_of_mul_eq_one_left product

theorem leNumber_patch {n k : ℕ} (b : Block n) (inside : k < n) (v : UInt8) :
    leNumber (b.patch k [v]).val + 256 ^ k * (b.val.getD k 0).toNat = leNumber b.val + 256 ^ k * v.toNat := by
  have size := b.length_val
  have front : (b.val.take k).length = k := by
    rw [List.length_take]
    omega
  have old : b.val = b.val.take k ++ b.val.getD k 0 :: b.val.drop (k + 1) := by
    rw [List.getD_eq_getElem _ _ (by omega), ← List.drop_eq_getElem_cons, List.take_append_drop]
  have after : leNumber b.val = leNumber (b.val.take k) +
      256 ^ k * ((b.val.getD k 0).toNat + 256 * leNumber (b.val.drop (k + 1))) := by
    conv_lhs => rw [old, leNumber_append, front, leNumber_cons]
  rw [Block.patch_val b (by simpa using inside), List.append_assoc, leNumber_append, front, after]
  simp only [List.singleton_append, leNumber_cons, List.length_singleton]
  ring

def scalarOf (secret : Block 32) : ℕ := 2 ^ 254 + 8 * (leNumber secret.val / 8 % 2 ^ 251)

theorem leNumber_clamp (secret : Block 32) : leNumber (clamp secret).val = scalarOf secret := by
  have cleared : ∀ n < 256, n &&& 248 = n / 8 * 8 := by decide +kernel
  have topless : ∀ n < 256, n &&& 127 = n % 128 := by decide +kernel
  have raised : ∀ n < 128, n ||| 64 = 64 + n % 64 := by decide +kernel
  have first := leNumber_patch secret (k := 0) (by omega) (secret.val.getD 0 0 &&& 248)
  have firstByte := leNumber_byte secret.val 0
  rw [UInt8.toNat_and, firstByte, UInt8.toNat_ofNat, cleared _ (by omega), pow_zero, Nat.div_one] at first
  have whole := leNumber_lt (secret.patch 0 [secret.val.getD 0 0 &&& 248]).val
  rw [Block.length_val] at whole
  simp only [clamp]
  generalize secret.patch 0 [secret.val.getD 0 0 &&& 248] = e at first whole ⊢
  have second := leNumber_patch e (k := 31) (by omega) (e.val.getD 31 0 &&& 127)
  have secondByte := leNumber_byte e.val 31
  rw [UInt8.toNat_and, secondByte, UInt8.toNat_ofNat, topless _ (by omega)] at second
  generalize e.patch 31 [e.val.getD 31 0 &&& 127] = capped at second ⊢
  have third := leNumber_patch capped (k := 31) (by omega) (capped.val.getD 31 0 ||| 64)
  have thirdByte := leNumber_byte capped.val 31
  rw [UInt8.toNat_or, thirdByte, UInt8.toNat_ofNat, raised _ (by omega)] at third
  have low : leNumber e.val = 8 * (leNumber secret.val / 8) := by omega
  have middle : leNumber capped.val = leNumber e.val % 2 ^ 255 := by omega
  generalize leNumber (capped.patch 31 [capped.val.getD 31 0 ||| 64]).val = last at third ⊢
  have high : last = 2 ^ 254 + leNumber capped.val % 2 ^ 254 := by
    clear first second low
    omega
  have place : 2 ^ 254 = 8 * 2 ^ 251 := by norm_num
  rw [scalarOf, high, middle, low, Nat.mod_mod_of_dvd _ (Nat.pow_dvd_pow 2 (by omega)), place,
    Nat.mul_mod_mul_left]

/-- The number that a public key stands for: its highest bit does not count. -/
def coordinateOf (basepoint : Block 32) : ℕ := leNumber basepoint.val % 2 ^ 255

theorem curve25519Donna_cast {K : Type} [Field K] (modulus : (2 : K) ^ 255 = 19)
    (inverse : ∀ z : K, z ^ (2 ^ 255 - 21) = z⁻¹) (mypublic : Vector UInt8 32) (secret basepoint : Block 32) :
    leNumber (curve25519Donna mypublic secret basepoint).toList < 2 ^ 255 - 19 ∧
      ((leNumber (curve25519Donna mypublic secret basepoint).toList : ℕ) : K) =
        multiple 121665 (coordinateOf basepoint : K) (bitsOf (clamp secret).val) := by
  have base := fexpand_below basepoint
  have start : (value (fexpand basepoint) : K) = coordinateOf basepoint := fexpand_value basepoint
  obtain ⟨reduced, fraction⟩ := cmult_spec modulus base (clamp secret)
  obtain ⟨below, power⟩ := crecip_spec modulus reduced.z
  obtain ⟨small, product⟩ := fmul_spec modulus reduced.x.loose below.loose
  obtain ⟨least, same⟩ := fcontract_spec modulus small mypublic
  refine ⟨least, same.trans ?_⟩
  rw [product, power, inverse, multiple, ← start]
  exact congrArg Fraction.quotient fraction

theorem scalar_clamp (secret : Block 32) : scalar (bitsOf (clamp secret).val) = scalarOf secret := by
  rw [← leNumber_clamp, ← extend_bitsOf]
  rfl

/-- What the key holds, over every field in which 2^255 = 19: the x-coordinate of the multiple, as the
    least number of its class. A key that belongs to no point over the smallest such field has one
    over a larger field. -/
theorem curve25519Donna_multiple {K : Type} [Field K] [DecidableEq K] [CharP K (2 ^ 255 - 19)]
    (P : (curve (486662 : K)).Point) {basepoint : Block 32} (on : xCoordinate P = (coordinateOf basepoint : K))
    (mypublic : Vector UInt8 32) (secret : Block 32) :
    leNumber (curve25519Donna mypublic secret basepoint).toList < 2 ^ 255 - 19 ∧
      ((leNumber (curve25519Donna mypublic secret basepoint).toList : ℕ) : K) =
        xCoordinate (scalarOf secret • P) := by
  obtain ⟨least, same⟩ := curve25519Donna_cast modulus pow_inverse mypublic secret basepoint
  refine ⟨least, ?_⟩
  let f : Residue →+* K := ZMod.castHom dvd_rfl K
  have above : Smooth (486662 : K) 121665 := by
    have mapped := smooth.map f
    rwa [map_ofNat, map_ofNat] at mapped
  have mapped := congrArg f same
  rwa [map_natCast, map_multiple, map_natCast, map_ofNat, ← on, multiple_eq above, scalar_clamp] at mapped

/-- Every basepoint is the x-coordinate of a point over the algebraic closure, and every key made of it
    that of a multiple of this point, whatever the buffer held. -/
theorem curve25519Donna_everywhere (basepoint : Block 32) :
    open Classical in ∃ P : (curve (486662 : AlgebraicClosure Residue)).Point,
      xCoordinate P = coordinateOf basepoint ∧
        ∀ (mypublic : Vector UInt8 32) (secret : Block 32),
          leNumber (curve25519Donna mypublic secret basepoint).toList < 2 ^ 255 - 19 ∧
            ((leNumber (curve25519Donna mypublic secret basepoint).toList : ℕ) : AlgebraicClosure Residue) =
              xCoordinate (scalarOf secret • P) := by
  classical
  have above : Smooth (486662 : AlgebraicClosure Residue) 121665 := by
    have mapped := smooth.map (algebraMap Residue (AlgebraicClosure Residue))
    rwa [map_ofNat, map_ofNat] at mapped
  obtain ⟨P, on⟩ := exists_point above (coordinateOf basepoint : AlgebraicClosure Residue)
  exact ⟨P, on, curve25519Donna_multiple P on⟩

theorem curve25519Donna_number (mypublic : Vector UInt8 32) (secret basepoint : Block 32) :
    leNumber (curve25519Donna mypublic secret basepoint).toList =
      (multiple (121665 : Residue) (coordinateOf basepoint) (bitsOf (clamp secret).val)).val := by
  obtain ⟨least, same⟩ := curve25519Donna_cast modulus pow_inverse mypublic secret basepoint
  rw [← same, ZMod.val_natCast_of_lt least]

theorem eq_of_leNumber {a b : Vector UInt8 32} (same : leNumber a.toList = leNumber b.toList) : a = b := by
  have lists := leNumber_injective (by simp) same
  exact Vector.toArray_inj.mp (Array.toList_inj.mp lists)

theorem curve25519Donna_buffer (mypublic held : Vector UInt8 32) (secret basepoint : Block 32) :
    curve25519Donna mypublic secret basepoint = curve25519Donna held secret basepoint :=
  eq_of_leNumber (by rw [curve25519Donna_number, curve25519Donna_number])

/-- curve25519_donna into a buffer of zeros, or into any other one. -/
def donna (secret basepoint : Block 32) : Block 32 :=
  ⟨(curve25519Donna (.replicate 32 0) secret basepoint).toList, by simp⟩

theorem donna_val (mypublic : Vector UInt8 32) (secret basepoint : Block 32) :
    (donna secret basepoint).val = (curve25519Donna mypublic secret basepoint).toList := by
  rw [donna, curve25519Donna_buffer mypublic]

/-- Three bits and the highest two of a secret do not count, nor the highest bit of a public key, and of
    its number only the class does. -/
theorem donna_congr (mypublic held : Vector UInt8 32) {secret other basepoint twin : Block 32}
    (scalars : scalarOf secret = scalarOf other)
    (points : coordinateOf basepoint ≡ coordinateOf twin [MOD 2 ^ 255 - 19]) :
    curve25519Donna mypublic secret basepoint = curve25519Donna held other twin := by
  have clamped : clamp secret = clamp other := by
    apply Subtype.ext
    apply leNumber_injective (by simp)
    rw [leNumber_clamp, leNumber_clamp, scalars]
  have start : (coordinateOf basepoint : Residue) = coordinateOf twin :=
    (ZMod.natCast_eq_natCast_iff _ _ _).mpr points
  apply eq_of_leNumber
  rw [curve25519Donna_number, curve25519Donna_number, clamped, start]

theorem donna_congr_bits :
    curve25519Donna (.replicate 32 0) (.ofBytes 32 [1]) (.ofBytes 32 (List.replicate 31 0 ++ [0x80])) =
      curve25519Donna (.replicate 32 0xFF) (.zero 32) (.zero 32) :=
  donna_congr _ _ (by decide) (by decide)

theorem donna_comm (first second basepoint : Block 32) :
    donna first (donna second basepoint) = donna second (donna first basepoint) := by
  have inner (secret : Block 32) : (coordinateOf (donna secret basepoint) : Residue) =
      multiple 121665 (coordinateOf basepoint : Residue) (bitsOf (clamp secret).val) := by
    obtain ⟨least, same⟩ := curve25519Donna_cast modulus pow_inverse (.replicate 32 0) secret basepoint
    rw [← same, coordinateOf, donna_val (.replicate 32 0), Nat.mod_eq_of_lt (least.trans (by norm_num))]
  apply Subtype.ext
  apply leNumber_injective (by simp)
  have outer (secret other : Block 32) : leNumber (donna secret (donna other basepoint)).val =
      (multiple (121665 : Residue) (coordinateOf (donna other basepoint)) (bitsOf (clamp secret).val)).val := by
    rw [donna_val (.replicate 32 0), curve25519Donna_number]
  rw [outer, outer, inner, inner, multiple_comm smooth]

theorem donna_multiple {K : Type} [Field K] [DecidableEq K] [CharP K (2 ^ 255 - 19)]
    (P : (curve (486662 : K)).Point) {basepoint : Block 32} (on : xCoordinate P = (coordinateOf basepoint : K))
    (first second : Block 32) :
    ((leNumber (donna first (donna second basepoint)).val : ℕ) : K) =
      xCoordinate ((scalarOf first * scalarOf second) • P) := by
  obtain ⟨least, same⟩ := curve25519Donna_multiple P on (.replicate 32 0) second
  have inner : xCoordinate (scalarOf second • P) = (coordinateOf (donna second basepoint) : K) := by
    rw [coordinateOf, donna_val (.replicate 32 0), Nat.mod_eq_of_lt (least.trans (by norm_num)), same]
  obtain ⟨_, outer⟩ := curve25519Donna_multiple _ inner (.replicate 32 0) first
  rw [donna_val (.replicate 32 0), outer, mul_nsmul']

theorem nine_root : (14781619447589544791020593568409986887264606134616475288964881837755586237401 : Residue) ^ 2 =
    9 ^ 3 + 486662 * 9 ^ 2 + 9 := by
  have whole : 14781619447589544791020593568409986887264606134616475288964881837755586237401 ^ 2 =
      9 ^ 3 + 486662 * 9 ^ 2 + 9 +
        (2 ^ 255 - 19) * 3773941293097298634799158394344131590250402624247855264280139529679695560109 := by
    norm_num
  have cast := congrArg (Nat.cast : ℕ → Residue) whole
  have zero : ((2 ^ 255 - 19 : ℕ) : Residue) = 0 := ZMod.natCast_self _
  rw [Nat.cast_add, Nat.cast_mul, zero, zero_mul, add_zero] at cast
  exact_mod_cast cast

/-- The point that every public key is made of. -/
def nine : (curve (486662 : Residue)).Point := .some 9 _ (smooth.nonsingular nine_root)

/-- A public key of a point whose order divides 8 makes zeros of every secret, whatever the buffer
    held. -/
theorem donna_low_order {K : Type} [Field K] [DecidableEq K] [CharP K (2 ^ 255 - 19)]
    (P : (curve (486662 : K)).Point) (order : 8 • P = 0) {basepoint : Block 32}
    (on : xCoordinate P = (coordinateOf basepoint : K)) (mypublic : Vector UInt8 32) (secret : Block 32) :
    curve25519Donna mypublic secret basepoint = .replicate 32 0 := by
  obtain ⟨least, same⟩ := curve25519Donna_multiple P on mypublic secret
  have eights : scalarOf secret = 8 * (2 ^ 251 + leNumber secret.val / 8 % 2 ^ 251) := by
    rw [scalarOf, mul_add]
    norm_num
  have infinity : scalarOf secret • P = 0 := by
    rw [eights, mul_comm, mul_nsmul', order, nsmul_zero]
  rw [infinity] at same
  have divides := (CharP.cast_eq_zero_iff K (2 ^ 255 - 19) _).mp same
  have zero := Nat.eq_zero_of_dvd_of_lt divides least
  apply eq_of_leNumber
  rw [zero]
  simp [leNumber]

theorem one_root : (9094040566125962849133224048217411091405536248825867518642941381412595940312 : Residue) ^ 2 =
    1 ^ 3 + 486662 * 1 ^ 2 + 1 := by
  have whole : 9094040566125962849133224048217411091405536248825867518642941381412595940312 ^ 2 =
      1 ^ 3 + 486662 * 1 ^ 2 + 1 +
        (2 ^ 255 - 19) * 1428449462533619666780640068011049604205306357370831658999374237211783063320 := by
    norm_num
  have cast := congrArg (Nat.cast : ℕ → Residue) whole
  have zero : ((2 ^ 255 - 19 : ℕ) : Residue) = 0 := ZMod.natCast_self _
  rw [Nat.cast_add, Nat.cast_mul, zero, zero_mul, add_zero] at cast
  exact_mod_cast cast

theorem donna_low_order_one :
    curve25519Donna (.replicate 32 0xFF) (.ofBytes 32 [1]) (.ofBytes 32 [1]) = .replicate 32 0 := by
  let P : (curve (486662 : Residue)).Point := .some 1 _ (smooth.nonsingular one_root)
  have four : 4 • P = 0 := four_nsmul_of_one smooth rfl
  have order : 8 • P = 0 := by
    have halves : 8 • P = 2 • 4 • P := mul_nsmul P 4 2
    rw [halves, four, nsmul_zero]
  have one : coordinateOf (.ofBytes 32 [1]) = 1 := by decide
  exact donna_low_order P order (by rw [one, Nat.cast_one]; rfl) _ _

end KeyAgreement
