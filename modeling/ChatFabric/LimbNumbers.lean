import Mathlib.Algebra.BigOperators.Ring.Finset
import Mathlib.Algebra.Order.BigOperators.Group.Finset
import Mathlib.Data.List.FinRange
import Mathlib.Tactic.Linarith
import Mathlib.Tactic.Positivity
import Mathlib.Tactic.Ring

/- Numbers written in limbs, each with its own weight. A limb may be negative or larger than the next
   weight allows; a carry moves a part of it to the next limb and leaves the number alone. -/
namespace LimbNumbers
open Finset Function

section
variable {R : Type*} [CommRing R] (weight : ℕ → R) {n : ℕ}

def number (n : ℕ) (limbs : ℕ → ℤ) : R := ∑ i ∈ range n, (limbs i : R) * weight i

theorem number_congr {limbs other : ℕ → ℤ} (same : ∀ i < n, limbs i = other i) :
    number weight n limbs = number weight n other := by
  refine sum_congr rfl fun i inside ↦ ?_
  rw [same i (mem_range.mp inside)]

theorem number_update (limbs : ℕ → ℤ) {i : ℕ} (inside : i < n) (v : ℤ) :
    number weight n (update limbs i v) = number weight n limbs + ((v - limbs i : ℤ) : R) * weight i := by
  have rest (values : ℕ → ℤ) : number weight n values =
      (values i : R) * weight i + ∑ j ∈ (range n).erase i, (values j : R) * weight j :=
    (add_sum_erase _ _ (mem_range.mpr inside)).symm
  have others : ∑ j ∈ (range n).erase i, (update limbs i v j : R) * weight j =
      ∑ j ∈ (range n).erase i, (limbs j : R) * weight j := by
    refine sum_congr rfl fun j other ↦ ?_
    rw [update_of_ne (ne_of_mem_erase other)]
  rw [rest, rest limbs, others, update_self]
  push_cast
  ring

/-- Limb i gives c times the weight of the next limb to it. -/
def carryOver (limbs : ℕ → ℤ) (i : ℕ) (base c : ℤ) : ℕ → ℤ :=
  update (update limbs i (limbs i - c * base)) (i + 1) (limbs (i + 1) + c)

section
variable (limbs : ℕ → ℤ) (i : ℕ) (base c : ℤ)

theorem carryOver_self : carryOver limbs i base c i = limbs i - c * base := by
  rw [carryOver, update_of_ne (by omega), update_self]

theorem carryOver_next : carryOver limbs i base c (i + 1) = limbs (i + 1) + c := update_self ..

theorem carryOver_other {j : ℕ} (apart : j ≠ i) (after : j ≠ i + 1) :
    carryOver limbs i base c j = limbs j := by
  rw [carryOver, update_of_ne after, update_of_ne apart]

end

theorem number_carryOver (limbs : ℕ → ℤ) {i : ℕ} (inside : i + 1 < n) {base : ℤ} (c : ℤ)
    (next : weight (i + 1) = base * weight i) :
    number weight n (carryOver limbs i base c) = number weight n limbs := by
  have apart : i + 1 ≠ i := by omega
  rw [carryOver, number_update weight _ inside, number_update weight _ (by omega),
    update_of_ne apart, next]
  push_cast
  ring

theorem number_add {limbs first second : ℕ → ℤ} (sum : ∀ i < n, limbs i = first i + second i) :
    number weight n limbs = number weight n first + number weight n second := by
  rw [number, number, number, ← sum_add_distrib]
  refine sum_congr rfl fun i inside ↦ ?_
  rw [sum i (mem_range.mp inside)]
  push_cast
  ring

theorem number_sub {limbs first second : ℕ → ℤ} (difference : ∀ i < n, limbs i = first i - second i) :
    number weight n limbs = number weight n first - number weight n second := by
  rw [number, number, number, ← sum_sub_distrib]
  refine sum_congr rfl fun i inside ↦ ?_
  rw [difference i (mem_range.mp inside)]
  push_cast
  ring

theorem number_mul {limbs first : ℕ → ℤ} {scalar : ℤ} (product : ∀ i < n, limbs i = first i * scalar) :
    number weight n limbs = number weight n first * scalar := by
  rw [number, number, sum_mul]
  refine sum_congr rfl fun i inside ↦ ?_
  rw [product i (mem_range.mp inside)]
  push_cast
  ring

end

theorem number_range {weight base : ℕ → ℤ} {limbs : ℕ → ℤ} (one : weight 0 = 1)
    (next : ∀ i, weight (i + 1) = base i * weight i) (n : ℕ)
    (positive : ∀ i < n, 0 ≤ weight i) (digits : ∀ i < n, 0 ≤ limbs i ∧ limbs i < base i) :
    0 ≤ number weight n limbs ∧ number weight n limbs < weight n := by
  induction n with
  | zero => simp [number, one]
  | succ n ih =>
    obtain ⟨low, high⟩ := ih (fun i inside ↦ positive i (by omega)) (fun i inside ↦ digits i (by omega))
    have split : number weight (n + 1) limbs = number weight n limbs + limbs n * weight n := by
      simp [number, sum_range_succ]
    obtain ⟨digitLow, digitHigh⟩ := digits n (by omega)
    have position := positive n (by omega)
    have above : limbs n * weight n ≤ (base n - 1) * weight n :=
      mul_le_mul_of_nonneg_right (by omega) position
    rw [split, next]
    constructor
    · positivity
    · linarith

theorem number_digits {weight base : ℕ → ℤ} (one : weight 0 = 1)
    (next : ∀ i, weight (i + 1) = base i * weight i) (positive : ∀ i, 0 ≤ weight i) (value : ℤ) (n : ℕ) :
    number weight n (fun i ↦ value / weight i % base i) = value % weight n := by
  induction n with
  | zero => simp [number, one]
  | succ n ih =>
    have split : number weight (n + 1) (fun i ↦ value / weight i % base i) =
        number weight n (fun i ↦ value / weight i % base i) + value / weight n % base n * weight n := by
      simp [number, sum_range_succ]
    have parts : value % (weight n * base n) = value % weight n + weight n * (value / weight n % base n) := by
      rw [Int.emod_def value (weight n * base n), Int.emod_def value (weight n), Int.emod_def,
        Int.ediv_ediv_of_nonneg (positive n)]
      ring
    rw [split, ih, next, mul_comm (base n), parts]
    ring

theorem foldl_take {State : Type} {n m : ℕ} (Inv : ℕ → State → Prop) (turn : State → Fin n → State)
    (inside : m ≤ n) (keep : ∀ (i : Fin n) s, i.val < m → Inv i s → Inv (i + 1) (turn s i)) {s : State}
    (start : Inv 0 s) : Inv m (((List.finRange n).take m).foldl turn s) := by
  induction m with
  | zero => exact start
  | succ m ih =>
    have last : (List.finRange n).take (m + 1) = (List.finRange n).take m ++ [⟨m, by omega⟩] := by
      rw [List.take_succ_eq_append_getElem (by simp; omega)]
      simp
    have before := ih (by omega) (fun i s below ↦ keep i s (by omega))
    rw [last, List.foldl_append]
    exact keep ⟨m, by omega⟩ _ (Nat.lt_succ_self m) before

theorem foldl_finRange {State : Type} {n : ℕ} (Inv : ℕ → State → Prop) (turn : State → Fin n → State)
    (keep : ∀ (i : Fin n) s, Inv i s → Inv (i + 1) (turn s i)) {s : State} (start : Inv 0 s) :
    Inv n ((List.finRange n).foldl turn s) := by
  have whole := foldl_take Inv turn le_rfl (fun i s _ ↦ keep i s) start
  rwa [List.take_of_length_le (by simp)] at whole

end LimbNumbers
