import ChatFabric.BlockPolynomials
import ChatFabric.CryptoBuilds
import ChatFabric.LucasTest

/- Two messages have given tags under few of the factors that a key may have: a tag seen for one message
   says little of the tag of another one. -/
namespace TagForgery
open ByteStrings ByteNumbers ChatFabric Poly1305 BlockPolynomials CryptoBuilds

instance residue1305_prime : Fact (Nat.Prime (2 ^ 130 - 5)) := ⟨LucasTest.prime_1305⟩

theorem parts_flatten (m : Bytes) : (parts m).flatten = m := by
  induction size : m.length using Nat.strong_induction_on generalizing m with
  | _ n ih =>
    by_cases empty : m = []
    · rw [empty]
      rfl
    · have positive := List.length_pos_iff.mpr empty
      have shorter : (m.drop 16).length < n := by
        rw [List.length_drop]
        omega
      rw [parts_cons empty, List.flatten_cons, ih _ shorter _ rfl, List.take_append_drop]

theorem length_part {m part : Bytes} (member : part ∈ parts m) : part.length ≤ 16 := by
  obtain ⟨i, _, rfl⟩ := List.mem_map.mp member
  exact List.length_take_le 16 _

theorem numberOf_range (part : Bytes) :
    256 ^ part.length ≤ numberOf part ∧ numberOf part < 2 * 256 ^ part.length := by
  have small := leNumber_lt part
  rw [numberOf]
  omega

theorem numberOf_lt {part : Bytes} (short : part.length ≤ 16) : numberOf part < 2 ^ 130 - 5 := by
  have most : 256 ^ part.length ≤ 256 ^ 16 := Nat.pow_le_pow_right (by omega) short
  have small := (numberOf_range part).2
  omega

/-- The end bit tells how long a part is. -/
theorem numberOf_injective {a b : Bytes} (same : numberOf a = numberOf b) : a = b := by
  have order {a b : Bytes} (shorter : a.length < b.length) : numberOf a < numberOf b := by
    have next : 256 ^ (a.length + 1) ≤ 256 ^ b.length := Nat.pow_le_pow_right (by omega) shorter
    have left := (numberOf_range a).2
    have right := (numberOf_range b).1
    rw [pow_succ] at next
    omega
  have length : a.length = b.length := by
    rcases Nat.lt_trichotomy a.length b.length with less | equal | more
    · exact absurd same (order less).ne
    · exact equal
    · exact absurd same.symm (order more).ne
  refine leNumber_injective length ?_
  rw [numberOf, numberOf, length] at same
  omega

theorem residue_injective {x y : ℕ} (left : x < 2 ^ 130 - 5) (right : y < 2 ^ 130 - 5)
    (same : (x : Residue) = y) : x = y := by
  have classes := (ZMod.natCast_eq_natCast_iff' _ _ _).mp same
  rwa [Nat.mod_eq_of_lt left, Nat.mod_eq_of_lt right] at classes

def blocksOf (m : Bytes) : List Residue := (parts m).map fun part ↦ (numberOf part : Residue)

theorem blocksOf_ne_zero {m : Bytes} : ∀ c ∈ blocksOf m, c ≠ 0 := by
  intro c member zero
  obtain ⟨part, inside, rfl⟩ := List.mem_map.mp member
  have none : numberOf part = 0 :=
    residue_injective (numberOf_lt (length_part inside)) (by norm_num) (zero.trans Nat.cast_zero.symm)
  have some := (numberOf_range part).1
  have positive : 0 < 256 ^ part.length := by positivity
  omega

theorem blocksOf_injective {m other : Bytes} (same : blocksOf m = blocksOf other) : m = other := by
  have numbers {l r : List Bytes} (left : ∀ a ∈ l, a.length ≤ 16) (right : ∀ b ∈ r, b.length ≤ 16)
      (same : l.map (fun part ↦ (numberOf part : Residue)) = r.map fun part ↦ (numberOf part : Residue)) : l = r := by
    induction l generalizing r with
    | nil => exact (List.map_eq_nil_iff.mp same.symm).symm
    | cons a l ih =>
      cases r with
      | nil => cases same
      | cons b r =>
        obtain ⟨head, tail⟩ := List.cons.inj same
        have first : a = b := numberOf_injective
          (residue_injective (numberOf_lt (left a List.mem_cons_self)) (numberOf_lt (right b List.mem_cons_self)) head)
        rw [first, ih (fun x member ↦ left x (List.mem_cons_of_mem _ member))
          (fun x member ↦ right x (List.mem_cons_of_mem _ member)) tail]
  rw [← parts_flatten m, ← parts_flatten other, numbers (fun _ ↦ length_part) (fun _ ↦ length_part) same]

theorem sum_horner (r : ℕ) (m : Bytes) : ((sum r m : ℕ) : Residue) = horner (blocksOf m) r := by
  rw [sum_cast, horner, blocksOf, List.foldl_map]
  rfl

/-- Tags are sums modulo 2^128, so two tags leave eight differences of the sums modulo 2^130 - 5. -/
theorem difference_of_tags {a b pad t u : ℕ} (left : a < 2 ^ 130 - 5) (right : b < 2 ^ 130 - 5)
    (first : (a + pad) % 2 ^ 128 = t) (second : (b + pad) % 2 ^ 128 = u) :
    ∃ j ∈ Finset.Icc (-4 : ℤ) 3, (a : ℤ) = b + (((t : ℤ) - u) % 2 ^ 128 + j * 2 ^ 128) := by
  refine ⟨((a : ℤ) - b - ((t : ℤ) - u) % 2 ^ 128) / 2 ^ 128, ?_, ?_⟩
  · rw [Finset.mem_Icc]
    omega
  · omega

/-- Whatever the two tags are, at most eight factors for each block of the longer message make them. -/
theorem forged_factors {m other : Bytes} (apart : m ≠ other) (t u : Block 16) :
    ∃ s : Finset ℕ, s.card ≤ 8 * max (parts m).length (parts other).length ∧
      ∀ memory key, (espCrypto memory).poly1305Auth m key = t →
        (espCrypto memory).poly1305Auth other key = u → factor key ∈ s := by
  have different : blocksOf m ≠ blocksOf other := fun same ↦ apart (blocksOf_injective same)
  let shift (j : ℤ) : ℤ := ((leNumber t.val : ℤ) - leNumber u.val) % 2 ^ 128 + j * 2 ^ 128
  have each (j : ℤ) := collisions blocksOf_ne_zero blocksOf_ne_zero different (shift j : Residue)
  choose roots few met using each
  refine ⟨(Finset.Icc (-4 : ℤ) 3).biUnion fun j ↦ (roots j).image ZMod.val, ?_, fun memory key first second ↦ ?_⟩
  · have bound (j : ℤ) : ((roots j).image ZMod.val).card ≤ max (parts m).length (parts other).length := by
      have most := few j
      rw [blocksOf, blocksOf, List.length_map, List.length_map] at most
      exact Finset.card_image_le.trans most
    exact Finset.card_biUnion_le_card_mul _ _ _ fun j _ ↦ bound j
  · have left : tag key m = leNumber t.val := by
      rw [← first]
      exact (poly1305Auth_spec Header32.lawful memory m key).2.symm
    have right : tag key other = leNumber u.val := by
      rw [← second]
      exact (poly1305Auth_spec Header32.lawful memory other key).2.symm
    obtain ⟨j, inside, sums⟩ := difference_of_tags (sum_lt _ m) (sum_lt _ other) left right
    have hit : horner (blocksOf m) (factor key : Residue) =
        horner (blocksOf other) (factor key : Residue) + (shift j : Residue) := by
      have cast := congrArg (Int.cast : ℤ → Residue) sums
      rwa [Int.cast_add, Int.cast_natCast, Int.cast_natCast, sum_horner, sum_horner] at cast
    exact Finset.mem_biUnion.mpr ⟨j, inside, Finset.mem_image.mpr
      ⟨_, met j _ hit, ZMod.val_natCast_of_lt ((factor_lt key).trans (by norm_num))⟩⟩

theorem forged_factors_short : ∃ s : Finset ℕ, s.card ≤ 8 ∧
    ∀ memory key, (espCrypto memory).poly1305Auth [2, 3] key = .zero 16 →
      (espCrypto memory).poly1305Auth [1] key = .zero 16 → factor key ∈ s := by
  have apart : ([2, 3] : Bytes) ≠ [1] := by decide
  obtain ⟨s, few, found⟩ := forged_factors apart (.zero 16) (.zero 16)
  have one : max (parts [2, 3]).length (parts [1]).length = 1 := by decide
  rw [one] at few
  exact ⟨s, few, found⟩

end TagForgery
