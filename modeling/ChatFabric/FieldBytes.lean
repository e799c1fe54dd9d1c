import ChatFabric.ByteNumbers
import ChatFabric.ByteOrder
import ChatFabric.FieldContract
import ChatFabric.FieldLadder

/- Field elements and their 32 bytes: fexpand reads a number modulo 2^255, and fcontract writes the
   least number of the class modulo 2^255 - 19, its lowest byte first. -/
namespace Curve25519
open ByteStrings ByteNumbers LimbNumbers MachineWords Function

theorem joined_bytes (a b c d : UInt8) :
    (a.toUInt64.toInt64 ||| b.toUInt64.toInt64 <<< 8 ||| c.toUInt64.toInt64 <<< 16 |||
      d.toUInt64.toInt64 <<< 24 : Int64).toBitVec.toNat =
      a.toNat + 256 * b.toNat + 256 ^ 2 * c.toNat + 256 ^ 3 * d.toNat := by
  have plain (b : UInt8) : b.toUInt64.toInt64.toBitVec.toNat = b.toNat := rfl
  have moved (b : UInt8) {s : Int64} {n : Nat} (amount : (s.toBitVec.smod 64).toNat = n) (room : n ≤ 24) :
      (b.toUInt64.toInt64 <<< s).toBitVec.toNat = b.toNat * 2 ^ n := by
    have small := b.toNat_lt
    have most : 2 ^ n ≤ 2 ^ 24 := Nat.pow_le_pow_right (by omega) room
    have product : b.toNat * 2 ^ n ≤ 255 * 2 ^ 24 := Nat.mul_le_mul (by omega) most
    rw [Int64.toBitVec_shiftLeft, BitVec.shiftLeft_eq', amount, BitVec.toNat_shiftLeft, Nat.shiftLeft_eq,
      plain, Nat.mod_eq_of_lt (by omega)]
  have aSmall := a.toNat_lt
  have bSmall := b.toNat_lt
  have cSmall := c.toNat_lt
  have two := ByteOrder.or_eq_add (k := 8) b.toNat aSmall
  have three : c.toNat * 2 ^ 16 ||| (b.toNat * 2 ^ 8 + a.toNat) = c.toNat * 2 ^ 16 + (b.toNat * 2 ^ 8 + a.toNat) :=
    ByteOrder.or_eq_add _ (by omega)
  rw [Int64.toBitVec_or, Int64.toBitVec_or, Int64.toBitVec_or, BitVec.toNat_or, BitVec.toNat_or,
    BitVec.toNat_or, plain, moved b (n := 8) rfl (by omega), moved c (n := 16) rfl (by omega),
    moved d (n := 24) rfl (by omega), Nat.or_comm, Nat.or_comm _ (c.toNat * _),
    Nat.or_comm _ (b.toNat * _), two, three, ByteOrder.or_eq_add _ (by omega)]
  omega

section Expand
variable (input : Block 32)

theorem expandLimb_toInt (i shift : Nat) {start : Nat} {s mask : Int64}
    (amount : (s.toBitVec.smod 64).toNat = shift) (ones : mask.toBitVec.toNat = 2 ^ width i - 1)
    (room : width i + shift ≤ 32) (place : (weight i : ℤ) = 256 ^ start * 2 ^ shift) :
    (expandLimb input start s mask).toInt = (leNumber input.val : ℤ) / weight i % 2 ^ width i := by
  have byte (k : Nat) : (input.val.getD (start + k) 0).toNat =
      leNumber input.val / 256 ^ start / 256 ^ k % 256 := by
    rw [Nat.div_div_eq_div_mul, ← pow_add, ← leNumber_byte]
  have joined := joined_bytes (input.val.getD (start + 0) 0) (input.val.getD (start + 1) 0)
    (input.val.getD (start + 2) 0) (input.val.getD (start + 3) 0)
  rw [byte, byte, byte, byte] at joined
  have rest : ((leNumber input.val / 256 ^ start : ℕ) : ℤ) = (leNumber input.val : ℤ) / 256 ^ start := by
    push_cast
    rfl
  rw [place, ← Int.ediv_ediv_of_nonneg (by positivity), ← rest]
  simp only [expandLimb]
  generalize leNumber input.val / 256 ^ start = rest at joined ⊢
  generalize ((input.val.getD (start + 0) 0).toUInt64.toInt64 |||
    (input.val.getD (start + 1) 0).toUInt64.toInt64 <<< 8 |||
    (input.val.getD (start + 2) 0).toUInt64.toInt64 <<< 16 |||
    (input.val.getD (start + 3) 0).toUInt64.toInt64 <<< 24 : Int64) = v at joined ⊢
  have window : v.toBitVec.toNat = rest % 2 ^ 32 := by omega
  have plain : v.toInt = (rest % 2 ^ 32 : ℕ) := by
    rw [← window]
    exact BitVec.toInt_eq_toNat_of_lt (by omega)
  have cut (x : ℕ) : x % 2 ^ 32 / 2 ^ shift % 2 ^ width i = x / 2 ^ shift % 2 ^ width i := by
    have whole : 2 ^ 32 = 2 ^ shift * 2 ^ (32 - shift) := by
      rw [← pow_add]
      congr 1
      omega
    rw [whole, Nat.mod_mul_right_div_self, Nat.mod_mod_of_dvd _ (Nat.pow_dvd_pow 2 (by omega))]
  rw [← Int64.toInt_toBitVec, Int64.toBitVec_and, and_mask _ _ ones (by omega), Int64.toInt_toBitVec,
    toInt_shiftRight _ amount, plain]
  exact_mod_cast cut rest

theorem fexpand_ints {i : ℕ} (inside : i < 10) :
    ints (fexpand input) i = (leNumber input.val : ℤ) / weight i % 2 ^ width i := by
  rw [ints_of_lt _ inside]
  interval_cases i
  · exact expandLimb_toInt input 0 0 rfl rfl (by decide) (by norm_num [weight])
  · exact expandLimb_toInt input 1 2 rfl rfl (by decide) (by norm_num [weight])
  · exact expandLimb_toInt input 2 3 rfl rfl (by decide) (by norm_num [weight])
  · exact expandLimb_toInt input 3 5 rfl rfl (by decide) (by norm_num [weight])
  · exact expandLimb_toInt input 4 6 rfl rfl (by decide) (by norm_num [weight])
  · exact expandLimb_toInt input 5 0 rfl rfl (by decide) (by norm_num [weight])
  · exact expandLimb_toInt input 6 1 rfl rfl (by decide) (by norm_num [weight])
  · exact expandLimb_toInt input 7 3 rfl rfl (by decide) (by norm_num [weight])
  · exact expandLimb_toInt input 8 4 rfl rfl (by decide) (by norm_num [weight])
  · exact expandLimb_toInt input 9 6 rfl rfl (by decide) (by norm_num [weight])

theorem fexpand_below : Below (2 ^ 26) (fexpand input) := by
  intro i
  by_cases inside : i < 10
  · have low := Int.emod_nonneg ((leNumber input.val : ℤ) / weight i) (b := 2 ^ width i) (by positivity)
    have high := Int.emod_lt_of_pos ((leNumber input.val : ℤ) / weight i) (b := 2 ^ width i) (by positivity)
    rw [fexpand_ints input inside, abs_lt]
    have size := width_le i
    omega
  · rw [ints_outside _ (by omega)]
    norm_num

theorem fexpand_value {K : Type} [CommRing K] :
    (value (fexpand input) : K) = (leNumber input.val % 2 ^ 255 : ℕ) := by
  have next (i : ℕ) : (weight (i + 1) : ℤ) = 2 ^ width i * weight i := by
    simpa using weight_succ i
  have natural : (leNumber input.val : ℤ) % 2 ^ 255 = (leNumber input.val % 2 ^ 255 : ℕ) := by
    push_cast
    rfl
  have digits := number_digits rfl next weight_int (leNumber input.val) 10
  have top : (weight 10 : ℤ) = 2 ^ 255 := by norm_num [weight]
  rw [top, natural] at digits
  rw [value, number_congr weight (fun i inside ↦ fexpand_ints input inside), ← number_cast, digits,
    Int.cast_natCast]

end Expand

theorem lowByte_toNat (v : Int32) : ((lowByte v).toNat : ℤ) = v.toInt % 256 := by
  have low : (lowByte v).toNat = v.toBitVec.toNat % 2 ^ 8 := by
    have cut : (lowByte v).toNat = (v.toBitVec &&& 255).toNat % 2 ^ 8 := rfl
    have mask : (255 : BitVec 32).toNat = 2 ^ 8 - 1 := rfl
    rw [cut, BitVec.toNat_and, mask, Nat.and_two_pow_sub_one_eq_mod, Nat.mod_mod]
  have whole : v.toInt = (v.toBitVec.toNat : ℤ).bmod (2 ^ 32) := BitVec.toInt_eq_toNat_bmod _
  rw [low, whole, Int.bmod_def]
  push_cast
  split <;> omega

/-- The bytes that a limb writes behind those that are written; it shares its first byte with them. -/
theorem storeLimb_take (v : Int32) (output : Vector UInt8 32) (s : Fin 29) (inside : s.val < 32) :
    (storeLimb v output s).toList.take (s + 4) = output.toList.take s ++
      [output[s.val] ||| lowByte v, lowByte (v >>> 8), lowByte (v >>> 16), lowByte (v >>> 24)] := by
  have size := s.isLt
  apply List.ext_getElem
  · simp
    omega
  · intro i left right
    have inside : i < s + 4 := by
      simp at left
      omega
    simp only [List.getElem_take, Vector.getElem_toList, storeLimb, Vector.getElem_set]
    by_cases front : i < s
    · rw [List.getElem_append_left (by simp; omega), if_neg (by omega), if_neg (by omega), if_neg (by omega),
        if_neg (by omega)]
      simp
    · rw [List.getElem_append_right (by simp; omega)]
      obtain ⟨k, rfl⟩ : ∃ k, i = s + k := ⟨i - s, by omega⟩
      have few : k < 4 := by omega
      have start : min s.val 32 = s := by omega
      interval_cases k <;> simp [start]

theorem storeLimb_spec {v : Int32} {output : Vector UInt8 32} {s : Fin 29} {y shift : ℕ}
    (word : v.toInt % 2 ^ 32 = (y * 2 ^ shift : ℕ)) (few : shift ≤ 6)
    (room : leNumber (output.toList.take (s + 1)) < 256 ^ s.val * 2 ^ shift) :
    leNumber ((storeLimb v output s).toList.take (s + 4)) =
      leNumber (output.toList.take (s + 1)) + 256 ^ s.val * (y * 2 ^ shift) := by
  have size := s.isLt
  have before : output.toList.take (s + 1) = output.toList.take s ++ [output[s.val]] := by
    rw [List.take_succ_eq_append_getElem (by simp; omega)]
    simp
  have front : (output.toList.take s).length = s := by
    simp
    omega
  rw [before, leNumber_append, front] at room ⊢
  rw [storeLimb_take v output s (by omega), leNumber_append, front]
  have small : output[s.val].toNat < 2 ^ shift := by
    simp only [leNumber_cons, leNumber_nil, mul_zero, add_zero] at room
    exact Nat.lt_of_mul_lt_mul_left ((Nat.le_add_left _ _).trans_lt room)
  have first : ((lowByte v).toNat : ℤ) = v.toInt % 256 := lowByte_toNat v
  have second : ((lowByte (v >>> 8)).toNat : ℤ) = v.toInt / 2 ^ 8 % 256 := by
    rw [lowByte_toNat, int32_shiftRight (n := 8) v rfl]
  have third : ((lowByte (v >>> 16)).toNat : ℤ) = v.toInt / 2 ^ 16 % 256 := by
    rw [lowByte_toNat, int32_shiftRight (n := 16) v rfl]
  have fourth : ((lowByte (v >>> 24)).toNat : ℤ) = v.toInt / 2 ^ 24 % 256 := by
    rw [lowByte_toNat, int32_shiftRight (n := 24) v rfl]
  have shared : (output[s.val] ||| lowByte v).toNat = output[s.val].toNat + (lowByte v).toNat := by
    have multiple : (lowByte v).toNat = y % 2 ^ (8 - shift) * 2 ^ shift := by
      interval_cases shift <;> omega
    rw [UInt8.toNat_or, multiple, Nat.or_comm, ByteOrder.or_eq_add _ small, Nat.add_comm]
  simp only [leNumber_cons, leNumber_nil, shared, mul_zero, add_zero]
  generalize y * 2 ^ shift = whole at word ⊢
  have sum : (lowByte v).toNat + 256 * ((lowByte (v >>> 8)).toNat + 256 * ((lowByte (v >>> 16)).toNat +
      256 * (lowByte (v >>> 24)).toNat)) = whole := by
    omega
  rw [← sum]
  ring

theorem storeLimb_beyond (v : Int32) (output : Vector UInt8 32) {s : Fin 29} {k : ℕ} (inside : k < 32)
    (beyond : s + 3 < k) : (storeLimb v output s)[k] = output[k] := by
  simp only [storeLimb, Vector.getElem_set]
  rw [if_neg (by omega), if_neg (by omega), if_neg (by omega), if_neg (by omega)]

theorem leNumber_zero {output : Vector UInt8 32} {k : ℕ} (inside : k < 32) (zero : output[k] = 0) :
    leNumber (output.toList.take (k + 1)) = leNumber (output.toList.take k) := by
  rw [List.take_succ_eq_append_getElem (by simpa using inside), leNumber_append, Vector.getElem_toList, zero]
  simp

section Store
variable {x : ℕ → ℤ} (fits : ∀ j < 10, Fits x j)
include fits

theorem storeLimb_number {v : Int32} {output : Vector UInt8 32} (i shift : ℕ) (s : Fin 29)
    (inside : i < 10) (few : shift ≤ 6) (word : v.toInt % 2 ^ 32 = ((x i).toNat * 2 ^ shift : ℕ))
    (place : (weight i : ℤ) = 256 ^ s.val * 2 ^ shift)
    (written : (leNumber (output.toList.take (s + 1)) : ℤ) = number weight i x) :
    (leNumber ((storeLimb v output s).toList.take (s + 4)) : ℤ) = number weight (i + 1) x := by
  have next (i : ℕ) : (weight (i + 1) : ℤ) = 2 ^ width i * weight i := by
    simpa using weight_succ i
  obtain ⟨_, room⟩ := number_range rfl next i (fun j _ ↦ weight_int j) (fun j below ↦ fits j (by omega))
  have split : number weight (i + 1) x = number weight i x + x i * (weight i : ℤ) := by
    simp [number, Finset.sum_range_succ]
  obtain ⟨y, limb⟩ := Int.eq_ofNat_of_zero_le (fits i inside).1
  rw [limb, Int.toNat_natCast] at word
  rw [← written, place] at room
  rw [storeLimb_spec word few (by exact_mod_cast room), split, ← written, place, limb]
  push_cast
  ring

theorem shifted_word {t : Words} (same : wordInts t = x) {i : ℕ} (inside : i < 10) {k : Int32} {shift : ℕ}
    (amount : (k.toBitVec.smod 32).toNat = shift) (room : width i + shift ≤ 32) :
    (t[i] <<< k).toInt % 2 ^ 32 = ((x i).toNat * 2 ^ shift : ℕ) := by
  obtain ⟨low, high⟩ := fits i inside
  have limb : ((x i).toNat : ℤ) = x i := Int.toNat_of_nonneg low
  have most : (2 : ℤ) ^ width i * 2 ^ shift ≤ 2 ^ 32 := by
    rw [← pow_add]
    exact pow_le_pow_right₀ (by norm_num) room
  have small : x i * 2 ^ shift < 2 ^ 32 :=
    (mul_lt_mul_of_pos_right high (by positivity)).trans_le most
  have positive : 0 ≤ x i * 2 ^ shift := mul_nonneg low (by positivity)
  have modulus : (2 : ℤ) ^ 32 = (2 ^ 32 : ℕ) := by norm_num
  rw [int32_shiftLeft amount, ← wordInts_of_lt t inside, same, modulus, Int.bmod_emod, ← modulus,
    Int.emod_eq_of_lt positive small, Nat.cast_mul, limb, Nat.cast_pow, Nat.cast_ofNat]

theorem plain_word {t : Words} (same : wordInts t = x) {i : ℕ} (inside : i < 10) :
    t[i].toInt % 2 ^ 32 = ((x i).toNat * 2 ^ 0 : ℕ) := by
  obtain ⟨low, high⟩ := fits i inside
  have size := width_le i
  rw [← wordInts_of_lt t inside, same]
  omega

theorem storeLimbs_spec {t : Words} (same : wordInts t = x) (output : Vector UInt8 32) :
    (leNumber (storeLimbs (alignLimbs t) output).toList : ℤ) = number weight 10 x := by
  have start : leNumber (((output.set 0 0).set 16 0).toList.take 1) = 0 := leNumber_zero (by omega) (by simp)
  have bytes := storeLimb_number fits 0 0 0 (by decide) (by decide)
    (plain_word fits same (by omega)) rfl (congrArg Nat.cast start)
  have bytes := storeLimb_number fits 1 2 3 (by decide) (by decide)
    (shifted_word fits same (i := 1) (k := 2) (by omega) rfl (by decide)) (by norm_num [weight]) bytes
  have bytes := storeLimb_number fits 2 3 6 (by decide) (by decide)
    (shifted_word fits same (i := 2) (k := 3) (by omega) rfl (by decide)) (by norm_num [weight]) bytes
  have bytes := storeLimb_number fits 3 5 9 (by decide) (by decide)
    (shifted_word fits same (i := 3) (k := 5) (by omega) rfl (by decide)) (by norm_num [weight]) bytes
  have bytes := storeLimb_number fits 4 6 12 (by decide) (by decide)
    (shifted_word fits same (i := 4) (k := 6) (by omega) rfl (by decide)) (by norm_num [weight]) bytes
  -- Limb 5 starts a byte of its own, which is still 0.
  have bytes := storeLimb_number fits 5 0 16 (by decide) (by decide) (plain_word fits same (by omega))
    (by norm_num [weight]) ((congrArg Nat.cast (leNumber_zero (k := 16) (by omega) (by
      simp [storeLimb_beyond]))).trans bytes)
  have bytes := storeLimb_number fits 6 1 19 (by decide) (by decide)
    (shifted_word fits same (i := 6) (k := 1) (by omega) rfl (by decide)) (by norm_num [weight]) bytes
  have bytes := storeLimb_number fits 7 3 22 (by decide) (by decide)
    (shifted_word fits same (i := 7) (k := 3) (by omega) rfl (by decide)) (by norm_num [weight]) bytes
  have bytes := storeLimb_number fits 8 4 25 (by decide) (by decide)
    (shifted_word fits same (i := 8) (k := 4) (by omega) rfl (by decide)) (by norm_num [weight]) bytes
  have bytes := storeLimb_number fits 9 6 28 (by decide) (by decide)
    (shifted_word fits same (i := 9) (k := 6) (by omega) rfl (by decide)) (by norm_num [weight]) bytes
  rw [List.take_of_length_le (by simp)] at bytes
  have aligned : alignLimbs t = #v[t[0], t[1] <<< 2, t[2] <<< 3, t[3] <<< 5, t[4] <<< 6, t[5], t[6] <<< 1,
      t[7] <<< 3, t[8] <<< 4, t[9] <<< 6] := by
    ext i inside
    interval_cases i <;> simp [alignLimbs]
  rw [aligned]
  exact bytes

end Store

theorem words_ints {t : Limbs 10} (small : Below (2 ^ 26) t) : wordInts (t.map Int64.toInt32) = ints t := by
  funext i
  by_cases inside : i < 10
  · have limb := abs_lt.mp (small i)
    rw [wordInts_of_lt _ inside, ints_of_lt _ inside, Vector.getElem_map, Int64.toInt_toInt32,
      ← ints_of_lt t inside, bmod_small (w := 31) (by omega) (by omega)]
  · rw [ints_outside _ (by omega)]
    simp [wordInts, inside]

/-- The bytes write the least number of the class, whatever the buffer held. -/
theorem fcontract_spec {K : Type} [CommRing K] (modulus : (2 : K) ^ 255 = 19) {t : Limbs 10}
    (small : Below (2 ^ 26) t) (output : Vector UInt8 32) :
    leNumber (fcontract output t).toList < 2 ^ 255 - 19 ∧
      ((leNumber (fcontract output t).toList : ℕ) : K) = value t := by
  have start : FirstBorrow 0 (wordInts (t.map Int64.toInt32)) := by
    rw [words_ints small]
    have limb (i : ℕ) := abs_lt.mp (small i)
    exact ⟨fun j below ↦ absurd below (by omega), ⟨by have := limb 0; omega, (limb 0).2⟩, fun j _ _ ↦ limb j⟩
  obtain ⟨nearlyNatural, first⟩ := firstBorrowPass modulus start
  obtain ⟨natural, second⟩ := secondBorrowPass modulus nearlyNatural
  have last := lastBorrow natural
  rw [← last] at natural
  obtain ⟨nearlyFits, third⟩ := firstCarryPass modulus natural
  obtain ⟨fits, fourth⟩ := secondCarryPass modulus nearlyFits
  obtain ⟨least, below, fifth⟩ := subtractModulus_spec modulus fits
  have bytes := storeLimbs_spec least rfl output
  have number : (leNumber (fcontract output t).toList : ℤ) = number weight 10 (wordInts (subtractModulus _ _)) :=
    bytes
  refine ⟨by omega, ?_⟩
  have cast := congrArg (Int.cast : ℤ → K) number
  rw [Int.cast_natCast, number_cast, fifth, fourth, third, last, second, first, words_ints small] at cast
  exact cast

end Curve25519
