import ChatFabric.ByteNumbers
import ChatFabric.Poly1305
import ChatFabric.UnsignedWords
import Mathlib.Data.ZMod.Basic

/- The tag that Poly1305 stands for, and that poly1305_auth computes it, on whatever arithmetic keeps
   the sum of the blocks. -/
namespace Poly1305
open ByteStrings ByteNumbers UnsignedWords

theorem u8to_toNat {w n : ℕ} (p : Bytes) (room : 8 * n ≤ w) :
    (u8to w n p).toNat = leNumber p % 256 ^ n := by
  induction n with
  | zero =>
    rw [pow_zero, Nat.mod_one]
    rfl
  | succ n ih =>
    have step : u8to w (n + 1) p = u8to w n p ||| ((p.getD n 0).toBitVec.setWidth w <<< (8 * n)) := by
      rw [u8to, List.range_succ, List.foldl_append]
      rfl
    have base : 256 ^ n = 2 ^ (8 * n) := (pow_mul 2 8 n).symm
    have small : (u8to w n p).toNat < 2 ^ (8 * n) := by
      rw [ih (by omega), base]
      exact Nat.mod_lt _ (by positivity)
    have byte : ((p.getD n 0).toBitVec.setWidth w).toNat = leNumber p / 256 ^ n % 256 := by
      rw [toNat_wide _ (by omega), ← leNumber_byte]
      rfl
    have fits : leNumber p / 256 ^ n % 256 < 2 ^ (w - 8 * n) :=
      (Nat.mod_lt _ (by omega)).trans_le (Nat.pow_le_pow_right (n := 2) (by omega) (show 8 ≤ w - 8 * n by omega))
    rw [step, toNat_join _ small (by omega), ih (by omega), byte, Nat.mod_eq_of_lt fits, Nat.mod_pow_succ, base]

theorem u8to_drop {w n : ℕ} (p : Bytes) (k : ℕ) (room : 8 * n ≤ w) :
    (u8to w n (p.drop k)).toNat = leNumber p / 256 ^ k % 256 ^ n := by
  rw [u8to_toNat _ room, (leNumber_take_drop p k).2]

theorem toU8_number {w : ℕ} (n : ℕ) (v : BitVec w) : leNumber (toU8 n v) = v.toNat % 256 ^ n := by
  induction n with
  | zero =>
    rw [pow_zero, Nat.mod_one]
    rfl
  | succ n ih =>
    have step : toU8 (n + 1) v = toU8 n v ++ [UInt8.ofBitVec ((v >>> (8 * n)).setWidth 8)] := by
      rw [toU8, List.range_succ, List.map_append]
      rfl
    have byte : (UInt8.ofBitVec ((v >>> (8 * n)).setWidth 8)).toNat = v.toNat / 256 ^ n % 256 := by
      have plain : (UInt8.ofBitVec ((v >>> (8 * n)).setWidth 8)).toNat = ((v >>> (8 * n)).setWidth 8).toNat := rfl
      rw [plain, BitVec.toNat_setWidth, toNat_shiftRight, pow_mul]
      rfl
    have length : (toU8 n v).length = n := by simp [toU8]
    rw [step, leNumber_append, length, ih, leNumber_cons, leNumber_nil, byte, Nat.mod_pow_succ, mul_zero,
      add_zero]

@[simp] theorem length_toU8 {w : ℕ} (n : ℕ) (v : BitVec w) : (toU8 n v).length = n := by simp [toU8]

abbrev Residue := ZMod (2 ^ 130 - 5)

theorem modulus_cast : ((2 ^ 130 - 5 : ℕ) : Residue) = 0 := ZMod.natCast_self _

theorem modulus : (2 : Residue) ^ 130 = 5 := by
  have zero := modulus_cast
  rw [Nat.cast_sub (by norm_num), Nat.cast_pow, Nat.cast_ofNat, Nat.cast_ofNat] at zero
  exact sub_eq_zero.mp zero

/-- Carrying all around changes a number by a multiple of the modulus. -/
theorem least_eq {v w k n : ℕ} (carried : v + (2 ^ 130 - 5) * k = w) (least : n < 2 ^ 130 - 5)
    (same : (n : Residue) = w) : v % (2 ^ 130 - 5) = n := by
  have cast := congrArg (Nat.cast : ℕ → Residue) carried
  rw [Nat.cast_add, Nat.cast_mul, modulus_cast, zero_mul, add_zero, ← same] at cast
  have classes := (ZMod.natCast_eq_natCast_iff' _ _ _).mp cast
  rwa [Nat.mod_eq_of_lt least] at classes

def factor (key : Block 32) : Nat := leNumber (key.val.take 16) &&& 0x0ffffffc0ffffffc0ffffffc0fffffff
def padOf (key : Block 32) : Nat := leNumber (key.val.drop 16)

/-- A digit of the factor: the digit of the key under the digit of the mask. -/
theorem factor_limb (key : Block 32) (k n : ℕ) {w : ℕ} {v digit : BitVec w}
    (place : v.toNat % 2 ^ n = leNumber key.val % 256 ^ 16 / 2 ^ k % 2 ^ n)
    (mask : digit.toNat = 0x0ffffffc0ffffffc0ffffffc0fffffff / 2 ^ k % 2 ^ n) :
    (v &&& digit).toNat = factor key / 2 ^ k % 2 ^ n := by
  have small : digit.toNat < 2 ^ n := mask ▸ Nat.mod_lt _ (by positivity)
  rw [factor, and_digit, ← mask, (leNumber_take_drop key.val 16).1, ← place, BitVec.toNat_and, mod_and small]

theorem factor_lt (key : Block 32) : factor key < 2 ^ 124 := Nat.and_lt_two_pow _ (by norm_num)

def parts (m : Bytes) : List Bytes :=
  (List.range ((m.length + 15) / 16)).map fun i ↦ (m.drop (16 * i)).take 16

def numberOf (part : Bytes) : Nat := leNumber part + 256 ^ part.length

def sum (r : Nat) (m : Bytes) : Nat :=
  (parts m).foldl (fun a part ↦ (a + numberOf part) * r % (2 ^ 130 - 5)) 0

def tag (key : Block 32) (m : Bytes) : Nat := (sum (factor key) m + padOf key) % 2 ^ 128

theorem parts_cons {m : Bytes} (some : m ≠ []) : parts m = m.take 16 :: parts (m.drop 16) := by
  have positive := List.length_pos_iff.mpr some
  have count : (m.length + 15) / 16 = ((m.drop 16).length + 15) / 16 + 1 := by
    rw [List.length_drop]
    omega
  rw [parts, count, List.range_succ_eq_map, List.map_cons, List.map_map, parts]
  congr 1
  refine List.map_congr_left fun i _ ↦ ?_
  simp only [Function.comp_apply, List.drop_drop]
  congr 2
  omega

def sumFrom (r a : Residue) (m : Bytes) : Residue :=
  (parts m).foldl (fun a part ↦ (a + numberOf part) * r) a

@[simp] theorem sumFrom_nil (r a : Residue) : sumFrom r a [] = a := rfl

theorem sumFrom_step (r a : Residue) {m : Bytes} (some : m ≠ []) :
    sumFrom r a m = sumFrom r ((a + numberOf (m.take 16)) * r) (m.drop 16) := by
  rw [sumFrom, parts_cons some]
  rfl

theorem sumFrom_append (r a : Residue) {m : Bytes} (full : m.length % 16 = 0) (rest : Bytes) :
    sumFrom r a (m ++ rest) = sumFrom r (sumFrom r a m) rest := by
  induction blocks : m.length / 16 generalizing a m with
  | zero =>
    have empty : m = [] := List.length_eq_zero_iff.mp (by omega)
    simp [empty]
  | succ k ih =>
    have some : m ≠ [] := by
      rintro rfl
      simp at blocks
    have size : 16 ≤ m.length := by omega
    rw [sumFrom_step r a some, sumFrom_step r a (by simp [some]), List.take_append_of_le_length size,
      List.drop_append_of_le_length size]
    exact ih _ (by rw [List.length_drop]; omega) (by rw [List.length_drop]; omega)

theorem sum_cast (r : Nat) (m : Bytes) : ((sum r m : ℕ) : Residue) = sumFrom r 0 m := by
  have fold (parts : List Bytes) (n : ℕ) (a : Residue) (same : (n : Residue) = a) :
      ((parts.foldl (fun a part ↦ (a + numberOf part) * r % (2 ^ 130 - 5)) n : ℕ) : Residue) =
        parts.foldl (fun (a : Residue) part ↦ (a + numberOf part) * r) a := by
    induction parts generalizing n a with
    | nil => exact same
    | cons part parts ih =>
      refine ih _ _ ?_
      rw [ZMod.natCast_mod, Nat.cast_mul, Nat.cast_add, same]
  exact fold _ 0 0 Nat.cast_zero

theorem sum_lt (r : Nat) (m : Bytes) : sum r m < 2 ^ 130 - 5 := by
  have fold (parts : List Bytes) (n : ℕ) (small : n < 2 ^ 130 - 5) :
      parts.foldl (fun a part ↦ (a + numberOf part) * r % (2 ^ 130 - 5)) n < 2 ^ 130 - 5 := by
    induction parts generalizing n with
    | nil => exact small
    | cons part parts ih => exact ih _ (Nat.mod_lt _ (by norm_num))
  exact fold _ 0 (by norm_num)

/-- What the arithmetic of a header must do: Holds r pad a says that the numbers stand for the factor
    r, the pad and the sum a. -/
structure Lawful (Numbers : Type) [Arithmetic Numbers] where
  Holds : Nat → Nat → Residue → Numbers → Prop
  init (key : Block 32) : Holds (factor key) (padOf key) 0 (Arithmetic.init key)
  block {r pad : Nat} {a : Residue} {numbers : Numbers} (final : Bool) {m : Bytes} (full : m.length = 16)
    (holds : Holds r pad a numbers) :
    Holds r pad ((a + (leNumber m + if final then 0 else 2 ^ 128 : ℕ)) * r)
      (Arithmetic.block final numbers m)
  mac {r pad : Nat} {a : Residue} {numbers : Numbers} (holds : Holds r pad a numbers) :
    (Arithmetic.mac numbers).length = 16 ∧
      ∀ n : ℕ, n < 2 ^ 130 - 5 → (n : Residue) = a →
        leNumber (Arithmetic.mac numbers) = (n + pad) % 2 ^ 128

namespace Lawful
variable {Numbers : Type} [Arithmetic Numbers] (lawful : Lawful Numbers) {r pad : Nat} {a : Residue}
  {numbers : Numbers}

theorem blocksLoop (turns : Nat) {m : Bytes} (size : m.length = 16 * turns)
    (holds : lawful.Holds r pad a numbers) :
    lawful.Holds r pad (sumFrom r a m) (blocksLoop false turns numbers m) := by
  induction turns generalizing a numbers m with
  | zero =>
    have empty : m = [] := List.length_eq_zero_iff.mp size
    rwa [empty]
  | succ k ih =>
    have some : m ≠ [] := by
      rintro rfl
      simp at size
    have front : (m.take 16).length = 16 := by
      rw [List.length_take]
      omega
    have step := lawful.block false front holds
    rw [sumFrom_step r a some, numberOf, front]
    exact ih (by rw [List.length_drop]; omega) step

/-- The state of a sum over m: its full blocks are in the numbers and its rest is in the buffer. -/
structure Absorbed (key : Block 32) (m : Bytes) (st : State Numbers) : Prop where
  numbers : lawful.Holds (factor key) (padOf key) (sumFrom (factor key) 0 (m.take (m.length / 16 * 16)))
    st.numbers
  leftover : st.leftover = m.length % 16
  buffer : st.buffer.val.take st.leftover = m.drop (m.length / 16 * 16)
  going : st.final = false

variable {lawful} {key : Block 32} {m : Bytes} {st : State Numbers}

theorem absorbed_init (memory : Block 16) (key : Block 32) :
    Absorbed lawful key [] (poly1305Init memory key) :=
  ⟨lawful.init key, rfl, rfl, rfl⟩

theorem patch_take {n : Nat} (b : Block n) (start : Nat) (bytes : Bytes) (fits : start + bytes.length ≤ n) :
    (b.patch start bytes).val.take (start + bytes.length) = b.val.take start ++ bytes := by
  have front : (b.val.take start ++ bytes).length = start + bytes.length := by
    rw [List.length_append, List.length_take, Block.length_val]
    omega
  rw [Block.patch_val b fits, List.take_left' front]

theorem Absorbed.updateBlocks (absorbed : Absorbed lawful key m st) (full : m.length % 16 = 0)
    (more : Bytes) : Absorbed lawful key (m ++ more) (updateBlocks st more) := by
  have want : (if blockSize ≤ more.length then more.length / blockSize * blockSize else 0) =
      more.length / 16 * 16 := by
    rw [blockSize]
    split <;> omega
  have size : (more.take (more.length / 16 * 16)).length = 16 * (more.length / 16) := by
    rw [List.length_take]
    omega
  have turns : (if blockSize ≤ more.length then poly1305Blocks st (more.take (more.length / 16 * 16)) else st) =
      { st with
        numbers := Poly1305.blocksLoop false (more.length / 16) st.numbers
          (more.take (more.length / 16 * 16)) } := by
    split
    · rw [poly1305Blocks, absorbed.going, size, blockSize, Nat.mul_div_cancel_left _ (by omega)]
    · rename_i short
      have none : more.length / 16 = 0 := by
        rw [blockSize] at short
        omega
      rw [none]
      rfl
  have whole : m.take (m.length / 16 * 16) = m := List.take_of_length_le (by omega)
  have numbers := absorbed.numbers
  rw [whole] at numbers
  have last := lawful.blocksLoop (more.length / 16) size numbers
  rw [← sumFrom_append _ _ full] at last
  have position : (m ++ more).length / 16 * 16 = m.length + more.length / 16 * 16 := by
    rw [List.length_append]
    omega
  have none : st.leftover = 0 := absorbed.leftover.trans full
  simp only [Poly1305.updateBlocks, want, turns]
  split
  · rename_i empty
    constructor
    · rwa [position, List.take_length_add_append]
    · rw [none, List.length_append]
      rw [List.drop_eq_nil_iff] at empty
      omega
    · rw [position, List.drop_length_add_append, empty]
      simp [none]
    · exact absorbed.going
  · have short : (more.drop (more.length / 16 * 16)).length = more.length % 16 := by
      rw [List.length_drop]
      omega
    have stored := patch_take st.buffer 0 (more.drop (more.length / 16 * 16)) (by omega)
    rw [List.take_zero, List.nil_append] at stored
    constructor
    · rwa [position, List.take_length_add_append]
    · simp only [none, short, List.length_append]
      omega
    · rwa [position, List.drop_length_add_append, none]
    · exact absorbed.going

theorem Absorbed.update (absorbed : Absorbed lawful key m st) (more : Bytes) :
    Absorbed lawful key (m ++ more) (poly1305Update st more) := by
  have leftover := absorbed.leftover
  by_cases none : st.leftover = 0
  · rw [poly1305Update, if_pos none]
    exact absorbed.updateBlocks (by omega) more
  · have sixteen : blockSize = 16 := rfl
    obtain ⟨want, copied⟩ : ∃ want, want = min (blockSize - st.leftover) more.length := ⟨_, rfl⟩
    simp only [poly1305Update, if_neg none, ← copied]
    have front : (more.take want).length = want := by
      rw [List.length_take]
      omega
    have buffer : (st.buffer.patch st.leftover (more.take want)).val.take (st.leftover + want) =
        m.drop (m.length / 16 * 16) ++ more.take want := by
      have both := patch_take st.buffer st.leftover (more.take want) (by omega)
      rwa [front, absorbed.buffer] at both
    split
    · rename_i short
      have all : want = more.length := by omega
      have position : (m ++ more).length / 16 * 16 = m.length / 16 * 16 := by
        rw [List.length_append]
        omega
      constructor
      · rw [position, List.take_append_of_le_length (by omega)]
        exact absorbed.numbers
      · simp only [List.length_append]
        omega
      · rw [position, List.drop_append_of_le_length (by omega)]
        simpa only [all, List.take_length] using buffer
      · exact absorbed.going
    · rename_i filled
      have size : (m.take (m.length / 16 * 16)).length % 16 = 0 := by
        rw [List.length_take]
        omega
      have block : (st.buffer.patch st.leftover (more.take want)).val =
          m.drop (m.length / 16 * 16) ++ more.take want := by
        rwa [List.take_of_length_le (by rw [Block.length_val]; omega)] at buffer
      have last := lawful.blocksLoop 1 (Block.length_val _) absorbed.numbers
        (m := (st.buffer.patch st.leftover (more.take want)).val)
      rw [← sumFrom_append _ _ size, block, ← List.append_assoc, List.take_append_drop] at last
      have length : (m ++ more.take want).length % 16 = 0 := by
        rw [List.length_append, front]
        omega
      have between : Absorbed lawful key (m ++ more.take want)
          { poly1305Blocks { st with
              buffer := st.buffer.patch st.leftover (more.take want), leftover := st.leftover + want }
              (st.buffer.patch st.leftover (more.take want)).val with leftover := 0 } := by
        constructor
        · rw [List.take_of_length_le (by omega)]
          simp only [poly1305Blocks, Block.length_val, absorbed.going, blockSize]
          rw [block]
          exact last
        · exact length.symm
        · rw [List.drop_eq_nil_of_le (by omega)]
          rfl
        · exact absorbed.going
      have after := between.updateBlocks length (more.drop want)
      rwa [List.append_assoc, List.take_append_drop] at after

theorem leNumber_zeros (k : Nat) : leNumber (List.replicate k 0) = 0 := by
  induction k with
  | zero => rfl
  | succ k ih =>
    rw [List.replicate_succ, leNumber_cons, ih]
    rfl

theorem Absorbed.finish (absorbed : Absorbed lawful key m st) :
    (poly1305Finish st).1.length = 16 ∧ leNumber (poly1305Finish st).1 = tag key m := by
  have leftover := absorbed.leftover
  have answer {numbers : Numbers} (holds : lawful.Holds (factor key) (padOf key) (sumFrom (factor key) 0 m) numbers) :
      (Arithmetic.mac numbers).length = 16 ∧ leNumber (Arithmetic.mac numbers) = tag key m :=
    ⟨(lawful.mac holds).1, (lawful.mac holds).2 _ (sum_lt _ m) (sum_cast _ m)⟩
  by_cases none : st.leftover = 0
  · simp only [poly1305Finish, if_pos none]
    refine answer ?_
    have numbers := absorbed.numbers
    rwa [List.take_of_length_le (by omega)] at numbers
  · simp only [poly1305Finish, if_neg none, blockSize]
    refine answer ?_
    generalize padded : (1 : UInt8) :: List.replicate (16 - (st.leftover + 1)) 0 = rest
    have size : rest.length = 16 - st.leftover := by
      rw [← padded, List.length_cons, List.length_replicate]
      omega
    have block : (st.buffer.patch st.leftover rest).val = m.drop (m.length / 16 * 16) ++ rest := by
      have both := patch_take st.buffer st.leftover rest (by omega)
      rwa [absorbed.buffer, List.take_of_length_le (by rw [Block.length_val]; omega)] at both
    have some : m.drop (m.length / 16 * 16) ≠ [] := by
      rw [Ne, List.drop_eq_nil_iff]
      omega
    have short : (m.drop (m.length / 16 * 16)).take 16 = m.drop (m.length / 16 * 16) :=
      List.take_of_length_le (by rw [List.length_drop]; omega)
    have number : leNumber (m.drop (m.length / 16 * 16) ++ rest) = numberOf (m.drop (m.length / 16 * 16)) := by
      rw [leNumber_append, ← padded, leNumber_cons, leNumber_zeros, numberOf]
      simp
    have last := lawful.block true (Block.length_val (st.buffer.patch st.leftover rest)) absorbed.numbers
    have full : (m.take (m.length / 16 * 16)).length % 16 = 0 := by
      rw [List.length_take]
      omega
    have whole := sumFrom_append (factor key : Residue) 0 full (m.drop (m.length / 16 * 16))
    have nothing : (m.drop (m.length / 16 * 16)).drop 16 = [] :=
      List.drop_eq_nil_of_le (by rw [List.length_drop]; omega)
    rw [List.take_append_drop, sumFrom_step _ _ some, short, nothing, sumFrom_nil] at whole
    rw [block, number, if_pos rfl, Nat.add_zero, ← whole] at last
    simp only [poly1305Blocks, Block.length_val, blockSize]
    rw [block]
    have front : (m.drop (m.length / 16 * 16) ++ rest).take 16 = m.drop (m.length / 16 * 16) ++ rest :=
      List.take_of_length_le (by rw [← block, Block.length_val])
    simp only [Nat.reduceDiv, Poly1305.blocksLoop, blockSize, front]
    exact last

theorem Absorbed.updates (absorbed : Absorbed lawful key m st) (pieces : List Bytes) :
    Absorbed lawful key (m ++ pieces.flatten) (pieces.foldl poly1305Update st) := by
  induction pieces generalizing m st with
  | nil => simpa using absorbed
  | cons piece pieces ih =>
    have rest := ih (absorbed.update piece)
    rwa [List.append_assoc] at rest

theorem finish_pieces (lawful : Lawful Numbers) (memory : Block 16) (key : Block 32) (pieces : List Bytes) :
    (poly1305Finish (pieces.foldl poly1305Update (poly1305Init memory key : State Numbers))).1.length = 16 ∧
      leNumber (poly1305Finish (pieces.foldl poly1305Update (poly1305Init memory key : State Numbers))).1 =
        tag key pieces.flatten := by
  have start : Absorbed lawful key [] (poly1305Init memory key) := absorbed_init memory key
  exact (start.updates pieces).finish

end Lawful

end Poly1305
