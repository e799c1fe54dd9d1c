import Mathlib.Algebra.Polynomial.Roots

/- Sums of blocks by Horner's rule, as polynomials in the factor. -/
namespace BlockPolynomials
open Polynomial
variable {R : Type*} [CommRing R]

def horner (cs : List R) (r : R) : R := cs.foldl (fun a c ↦ (a + c) * r) 0

theorem horner_append (cs : List R) (c r : R) : horner (cs ++ [c]) r = (horner cs r + c) * r := by
  rw [horner, List.foldl_append]
  rfl

/-- The polynomial of a list of blocks, the last one first. -/
noncomputable def rows : List R → R[X]
  | [] => 0
  | c :: cs => (rows cs + C c) * X

theorem rows_eval (cs : List R) (r : R) : (rows cs).eval r = horner cs.reverse r := by
  induction cs with
  | nil => simp [rows, horner]
  | cons c cs ih => rw [List.reverse_cons, horner_append, ← ih, rows, eval_mul_X, eval_add, eval_C]

theorem rows_coeff_zero (cs : List R) : (rows cs).coeff 0 = 0 := by
  cases cs <;> simp [rows]

theorem natDegree_rows [Nontrivial R] (cs : List R) : (rows cs).natDegree ≤ cs.length := by
  induction cs with
  | nil => simp [rows]
  | cons c cs ih =>
    have sum : (rows cs + C c).natDegree ≤ cs.length := by rwa [natDegree_add_C]
    exact natDegree_mul_le_of_le sum natDegree_X_le

/-- The constant term is 0, so a polynomial shows its blocks one by one. -/
theorem rows_injective {cs ds : List R} (some : ∀ c ∈ cs, c ≠ 0) (others : ∀ d ∈ ds, d ≠ 0)
    (same : rows cs = rows ds) : cs = ds := by
  have last (c : R) (cs : List R) : (rows (c :: cs)).coeff 1 = c := by
    rw [rows, coeff_mul_X, coeff_add, rows_coeff_zero, coeff_C_zero, zero_add]
  induction cs generalizing ds with
  | nil =>
    cases ds with
    | nil => rfl
    | cons d ds =>
      have zero := last d ds
      rw [← same, rows, coeff_zero] at zero
      exact absurd zero.symm (others d List.mem_cons_self)
  | cons c cs ih =>
    cases ds with
    | nil =>
      have zero := last c cs
      rw [same, rows, coeff_zero] at zero
      exact absurd zero.symm (some c List.mem_cons_self)
    | cons d ds =>
      have equal : c = d := by rw [← last c cs, same, last]
      subst equal
      have rest : rows cs = rows ds := add_right_cancel (isRegular_X.right same)
      rw [ih (fun x member ↦ some x (List.mem_cons_of_mem _ member))
        (fun x member ↦ others x (List.mem_cons_of_mem _ member)) rest]

theorem collisions [IsDomain R] {cs ds : List R} (some : ∀ c ∈ cs, c ≠ 0) (others : ∀ d ∈ ds, d ≠ 0)
    (apart : cs ≠ ds) (k : R) :
    ∃ s : Finset R, s.card ≤ max cs.length ds.length ∧ ∀ r, horner cs r = horner ds r + k → r ∈ s := by
  classical
  let difference := rows cs.reverse - (rows ds.reverse + C k)
  have nonzero : difference ≠ 0 := by
    intro zero
    have same : rows cs.reverse = rows ds.reverse + C k := sub_eq_zero.mp zero
    have constant := congrArg (fun p : R[X] ↦ p.coeff 0) same
    simp only [coeff_add, rows_coeff_zero, coeff_C_zero, zero_add] at constant
    rw [← constant, C_0, add_zero] at same
    have equal := rows_injective (by simpa using some) (by simpa using others) same
    exact apart (List.reverse_injective equal)
  refine ⟨difference.roots.toFinset, ?_, fun r met ↦ ?_⟩
  · calc difference.roots.toFinset.card
        ≤ difference.roots.card := Multiset.toFinset_card_le _
      _ ≤ difference.natDegree := card_roots' _
      _ ≤ max (rows cs.reverse).natDegree (rows ds.reverse + C k).natDegree := natDegree_sub_le _ _
      _ ≤ max cs.length ds.length := by
        have first := natDegree_rows cs.reverse
        have second := natDegree_rows ds.reverse
        rw [List.length_reverse] at first second
        rw [natDegree_add_C]
        exact max_le_max first second
  · rw [Multiset.mem_toFinset, mem_roots nonzero, IsRoot.def, eval_sub, eval_add, eval_C, rows_eval, rows_eval,
      List.reverse_reverse, List.reverse_reverse, met, sub_self]

end BlockPolynomials
