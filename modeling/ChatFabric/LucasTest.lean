import Mathlib.Data.List.Prime
import Mathlib.NumberTheory.LucasPrimality
import Mathlib.Tactic.NormNum.Prime

/- Lucas' test of primality as a computation: a number is prime when some number has the order of
   all its units, which the prime factors of p - 1 show. -/
namespace LucasTest

def power (p a : ℕ) : ℕ → ℕ → ℕ
  | 0, _ => 1
  | bits + 1, n =>
    let root := power p a bits (n / 2)
    root * root * (if n % 2 = 1 then a else 1) % p

def passes (p a bits : ℕ) (factors : List ℕ) : Bool :=
  1 < p && p ≤ 2 ^ bits && factors.prod == p - 1 && power p a (bits + 1) (p - 1) == 1 &&
    factors.all fun q ↦ power p a (bits + 1) ((p - 1) / q) != 1

theorem power_eq (p a : ℕ) {bits n : ℕ} (fits : n < 2 ^ bits) :
    (power p a bits n : ZMod p) = (a : ZMod p) ^ n := by
  induction bits generalizing n with
  | zero =>
    obtain rfl : n = 0 := by simpa using fits
    simp [power]
  | succ bits ih =>
    have half : n / 2 < 2 ^ bits := by
      rw [pow_succ] at fits
      omega
    simp only [power, ZMod.natCast_mod, Nat.cast_mul, ih half]
    rcases Nat.mod_two_eq_zero_or_one n with even | odd
    · simp only [even, zero_ne_one, if_false, Nat.cast_one, mul_one, ← pow_add]
      congr 1
      omega
    · simp only [odd, if_true, ← pow_add, ← pow_succ]
      congr 1
      omega

theorem power_lt {p : ℕ} (large : 1 < p) (a bits n : ℕ) : power p a (bits + 1) n < p :=
  Nat.mod_lt _ (by omega)

theorem power_eq_one {p a bits n : ℕ} (large : 1 < p) (fits : n < 2 ^ (bits + 1)) :
    power p a (bits + 1) n = 1 ↔ (a : ZMod p) ^ n = 1 := by
  have cast : (power p a (bits + 1) n : ZMod p) = (1 : ℕ) ↔ power p a (bits + 1) n = 1 := by
    rw [ZMod.natCast_eq_natCast_iff, Nat.ModEq, Nat.mod_eq_of_lt (power_lt large ..),
      Nat.mod_eq_of_lt large]
  rw [← power_eq p a fits, ← cast, Nat.cast_one]

theorem prime_of_passes {p : ℕ} (a bits : ℕ) (factors : List ℕ) (test : passes p a bits factors)
    (primes : factors.Forall Nat.Prime) : p.Prime := by
  rw [List.forall_iff_forall_mem] at primes
  simp only [passes, Bool.and_eq_true, decide_eq_true_eq, beq_iff_eq, List.all_eq_true,
    bne_iff_ne] at test
  obtain ⟨⟨⟨⟨large, fits⟩, product⟩, order⟩, proper⟩ := test
  have below (q : ℕ) : (p - 1) / q < 2 ^ (bits + 1) := by
    have quotient := Nat.div_le_self (p - 1) q
    rw [pow_succ]
    omega
  refine lucas_primality p a ((power_eq_one large (by simpa using below 1)).mp order) ?_
  intro q prime divides
  rw [← product] at divides
  have known : q ∈ factors := by
    obtain ⟨r, member, same⟩ := (prime.prime.dvd_prod_iff).mp divides
    rwa [(Nat.prime_dvd_prime_iff_eq prime (primes r member)).mp same]
  exact fun one ↦ proper q known ((power_eq_one large (below q)).mpr one)

/-- The tests of the primes below, one computation for all of them. -/
theorem tests_pass :
    passes 2773320623 5 32 [2, 2437, 569003] ∧
    passes 72106336199 7 37 [2, 13, 2773320623] ∧
    passes 1919519569386763 2 51 [2, 3, 7, 19, 47, 47, 127, 8574133] ∧
    passes 31757755568855353 10 55 [2, 2, 2, 3, 31, 107, 223, 4153, 430751] ∧
    passes 75445702479781427272750846543864801 7 116
      [72106336199, 1919519569386763, 2, 2, 2, 2, 2, 3, 3, 5, 5, 75707] ∧
    passes 74058212732561358302231226437062788676166966415465897661863160754340907 2 236
      [31757755568855353, 75445702479781427272750846543864801, 2, 3, 353, 57467, 132049, 1923133] ∧
    passes (2 ^ 255 - 19) 2 255
      [74058212732561358302231226437062788676166966415465897661863160754340907, 2, 2, 3, 65147] ∧
    passes 4024685905107147541 2 62 [2, 2, 3, 3, 5, 13, 43, 4889, 37003, 221101] ∧
    passes 897064739519922787230182993783 5 100 [4024685905107147541, 2, 73, 487, 3134801] ∧
    passes (2 ^ 130 - 5) 2 130 [897064739519922787230182993783, 2, 23, 32985101] := by
  decide +kernel

theorem prime_25519 : Nat.Prime (2 ^ 255 - 19) := by
  obtain ⟨test1, test2, test3, test4, test5, test6, last, _⟩ := tests_pass
  have prime1 := prime_of_passes _ _ _ test1 ⟨by norm_num, by norm_num, by norm_num⟩
  have prime2 := prime_of_passes _ _ _ test2 ⟨by norm_num, by norm_num, prime1⟩
  have prime3 := prime_of_passes _ _ _ test3 (by norm_num [List.Forall])
  have prime4 := prime_of_passes _ _ _ test4 (by norm_num [List.Forall])
  have prime5 := prime_of_passes _ _ _ test5 ⟨prime2, prime3, by norm_num [List.Forall]⟩
  have prime6 := prime_of_passes _ _ _ test6 ⟨prime4, prime5, by norm_num [List.Forall]⟩
  exact prime_of_passes _ _ _ last ⟨prime6, by norm_num [List.Forall]⟩

theorem prime_1305 : Nat.Prime (2 ^ 130 - 5) := by
  obtain ⟨_, _, _, _, _, _, _, test1, test2, last⟩ := tests_pass
  have prime1 := prime_of_passes _ _ _ test1 (by norm_num [List.Forall])
  have prime2 := prime_of_passes _ _ _ test2 ⟨prime1, by norm_num [List.Forall]⟩
  exact prime_of_passes _ _ _ last ⟨prime2, by norm_num [List.Forall]⟩

end LucasTest
