import Mathlib.AlgebraicGeometry.EllipticCurve.Affine.Point
import Mathlib.FieldTheory.IsAlgClosed.AlgebraicClosure

/- Curves y² = x³ + A x² + x and the ladder that multiplies their points, in which a point is known
   by its x-coordinate alone, as a fraction. -/
namespace MontgomeryCurve
open WeierstrassCurve WeierstrassCurve.Affine

section
variable {F : Type*} [Field F]

def curve (A : F) : Affine F := ⟨0, A, 0, 1, 0⟩

/-- A fraction x / z, where z = 0 stands for the point at infinity. -/
structure Fraction (F : Type*) where
  x : F
  z : F

namespace Fraction

/-- The fraction of P + P, if a24 = (A - 2) / 4. -/
def double (a24 : F) (p : Fraction F) : Fraction F :=
  let xx := (p.x + p.z) ^ 2
  let zz := (p.x - p.z) ^ 2
  ⟨xx * zz, (xx - zz) * (a24 * (xx - zz) + xx)⟩

/-- The fraction of P + Q, if q is the x-coordinate of P - Q. -/
def add (q : F) (p r : Fraction F) : Fraction F :=
  let u := (r.x + r.z) * (p.x - p.z)
  let v := (p.x + p.z) * (r.x - r.z)
  ⟨(u + v) ^ 2, (u - v) ^ 2 * q⟩

def quotient (p : Fraction F) : F := p.x * p.z⁻¹

def Represents {A : F} (p : Fraction F) (P : (curve A).Point) : Prop :=
  ∃ k, k ≠ 0 ∧ p = ⟨k * P.xRep 0, k * P.xRep 1⟩

end Fraction

/-- The x-coordinate, or 0 at infinity. -/
def xCoordinate {A : F} : (curve A).Point → F
  | .zero => 0
  | .some x _ _ => x

variable {A a24 : F}

/-- What the formulas of doubling rest on: the curve is smooth and 2 is invertible. -/
structure Smooth (A a24 : F) : Prop where
  two : (2 : F) ≠ 0
  param : 4 * a24 = A - 2
  minus : A ≠ 2
  plus : A ≠ -2

theorem Smooth.four (smooth : Smooth A a24) : (4 : F) ≠ 0 := by
  have product := mul_ne_zero smooth.two smooth.two
  norm_num at product
  exact product

theorem Smooth.apart (smooth : Smooth A a24) {x : F} (root : x ^ 3 + A * x ^ 2 + x = 0) :
    x ^ 2 - 1 ≠ 0 := by
  intro one
  have factors : (x - 1) * (x + 1) = 0 := by linear_combination one
  rcases mul_eq_zero.mp factors with plus | minus
  · obtain rfl : x = 1 := by linear_combination plus
    exact smooth.plus (by linear_combination root)
  · obtain rfl : x = -1 := by linear_combination minus
    exact smooth.minus (by linear_combination root)

theorem equation_iff {x y : F} : (curve A).Equation x y ↔ y ^ 2 = x ^ 3 + A * x ^ 2 + x := by
  simp [Affine.equation_iff, curve]

theorem negY_eq (x y : F) : (curve A).negY x y = -y := by
  simp [curve, negY]

theorem addX_eq (x y l : F) : (curve A).addX x y l = l ^ 2 - A - x - y := by
  simp [curve, addX]

theorem ne_negY (two : (2 : F) ≠ 0) {x y : F} (some : y ≠ 0) : y ≠ (curve A).negY x y := by
  rw [negY_eq]
  intro same
  have double : 2 * y = 0 := by linear_combination same
  exact some ((mul_eq_zero.mp double).resolve_left two)

theorem Fraction.Represents.quotient {p : Fraction F} {P : (curve A).Point} (rep : p.Represents P) :
    p.quotient = xCoordinate P := by
  obtain ⟨k, some, rfl⟩ := rep
  cases P with
  | zero =>
    have infinity : (Point.zero : (curve A).Point).xRep = ![1, 0] := rfl
    simp [Fraction.quotient, xCoordinate, infinity]
  | some x y on =>
    simp [Fraction.quotient, xCoordinate, mul_comm k x, some]

theorem Fraction.Represents.infinity {p : Fraction F} {P : (curve A).Point} (rep : p.Represents P)
    (below : p.z = 0) : P = 0 := by
  obtain ⟨k, some, rfl⟩ := rep
  cases P with
  | zero => rfl
  | some x y on => exact absurd (by simpa using below) some

theorem represents_zero {k : F} (some : k ≠ 0) : Fraction.Represents ⟨k, 0⟩ (0 : (curve A).Point) :=
  ⟨k, some, by simp⟩

theorem represents_some {p : Fraction F} {x y : F} {on : (curve A).Nonsingular x y} (some : p.z ≠ 0)
    (same : p.x = x * p.z) : p.Represents (.some x y on) :=
  ⟨p.z, some, by cases p; simp_all [mul_comm]⟩

theorem add_fractions (q k m x z u w : F) :
    Fraction.add q ⟨k * x, k * z⟩ ⟨m * u, m * w⟩ =
      ⟨(2 * k * m) ^ 2 * (x * u - z * w) ^ 2, (2 * k * m) ^ 2 * (x * w - z * u) ^ 2 * q⟩ := by
  simp only [Fraction.add, Fraction.mk.injEq]
  constructor <;> ring

end

section
variable {F : Type*} [Field F] [DecidableEq F] {A a24 : F}

theorem double_x (two : (2 : F) ≠ 0) {x y : F} (on : y ^ 2 = x ^ 3 + A * x ^ 2 + x) (some : y ≠ 0) :
    (curve A).addX x x ((curve A).slope x x y y) * (4 * y ^ 2) = (x ^ 2 - 1) ^ 2 := by
  have slope : (curve A).slope x x y y * (2 * y) = 3 * x ^ 2 + 2 * A * x + 1 := by
    have below : y + y ≠ 0 := by
      rw [← two_mul]
      exact mul_ne_zero two some
    rw [slope_of_Y_ne rfl (ne_negY two some), negY_eq, sub_neg_eq_add, ← two_mul]
    rw [← two_mul] at below
    rw [div_mul_cancel₀ _ below]
    simp [curve]
  rw [addX_eq]
  linear_combination ((curve A).slope x x y y * (2 * y) + (3 * x ^ 2 + 2 * A * x + 1)) * slope -
    4 * (A + 2 * x) * on

theorem double_represents (smooth : Smooth A a24) {p : Fraction F} {P : (curve A).Point}
    (rep : p.Represents P) : (p.double a24).Represents (P + P) := by
  obtain ⟨k, nonzero, rfl⟩ := rep
  have param := smooth.param
  cases P with
  | zero =>
    have below : Fraction.double a24 ⟨k * (Point.zero : (curve A).Point).xRep 0,
        k * (Point.zero : (curve A).Point).xRep 1⟩ = ⟨k ^ 4, 0⟩ := by
      simp [Fraction.double, Point.xRep]
      ring
    rw [below]
    exact represents_zero (pow_ne_zero 4 nonzero)
  | some x y smoothAt =>
    have on := equation_iff.mp smoothAt.1
    have formula : Fraction.double a24 ⟨k * (Point.some x y smoothAt).xRep 0,
        k * (Point.some x y smoothAt).xRep 1⟩ = ⟨k ^ 4 * (x ^ 2 - 1) ^ 2, k ^ 4 * (4 * y ^ 2)⟩ := by
      simp only [Fraction.double, Point.xRep_some, Matrix.cons_val_zero, Matrix.cons_val_one, mul_one,
        Fraction.mk.injEq]
      constructor
      · ring
      · linear_combination 4 * x ^ 2 * k ^ 4 * param - 4 * k ^ 4 * on
    rw [formula]
    by_cases flat : y = 0
    · subst flat
      -- a point of order two: the sum is at infinity, and the numerator is not zero
      have infinity : Point.some x 0 smoothAt + Point.some x 0 smoothAt = 0 :=
        Point.add_self_of_Y_eq (by rw [negY_eq, neg_zero])
      have apart : x ^ 2 - 1 ≠ 0 := smooth.apart (by linear_combination -on)
      rw [infinity]
      simpa using represents_zero (mul_ne_zero (pow_ne_zero 4 nonzero) (pow_ne_zero 2 apart))
    · have double : Point.some x y smoothAt + Point.some x y smoothAt = _ :=
        Point.add_self_of_Y_ne (ne_negY smooth.two flat)
      rw [double]
      refine represents_some (mul_ne_zero (pow_ne_zero 4 nonzero) (mul_ne_zero smooth.four (pow_ne_zero 2 flat))) ?_
      rw [← double_x smooth.two on flat]
      ring

/-- A point whose x-coordinate is 1 has the order 4: that of its double is 0, and that of the double's
    double at infinity. -/
theorem four_nsmul_of_one (smooth : Smooth A a24) {P : (curve A).Point} (one : xCoordinate P = 1) :
    4 • P = 0 := by
  have start : Fraction.Represents ⟨1, 1⟩ P := by
    cases P with
    | zero => exact absurd one zero_ne_one
    | some x y on =>
      have same : x = 1 := one
      exact represents_some one_ne_zero (by simp [same])
  have doubled := double_represents smooth (double_represents smooth start)
  have below : (Fraction.double a24 (.double a24 ⟨1, 1⟩)).z = 0 := by
    simp only [Fraction.double]
    ring
  have infinity := doubled.infinity below
  have sum : 4 • P = P + P + (P + P) := by abel
  rw [sum, infinity]

theorem sum_difference_x {x y u v : F} (left : y ^ 2 = x ^ 3 + A * x ^ 2 + x)
    (right : v ^ 2 = u ^ 3 + A * u ^ 2 + u) (apart : x ≠ u) :
    (curve A).addX x u ((curve A).slope x u y v) * (curve A).addX x u ((curve A).slope x u y (-v)) *
      (x - u) ^ 2 = (x * u - 1) ^ 2 := by
  have gap : x - u ≠ 0 := sub_ne_zero.mpr apart
  rw [slope_of_X_ne apart, slope_of_X_ne apart, addX_eq, addX_eq]
  have sum : (y - v) / (x - u) * (x - u) = y - v := div_mul_cancel₀ _ gap
  have difference : (y - -v) / (x - u) * (x - u) = y + v := by
    rw [div_mul_cancel₀ _ gap, sub_neg_eq_add]
  generalize (y - v) / (x - u) = s at sum
  generalize (y - -v) / (x - u) = d at difference
  have product : (s ^ 2 - A - x - u) * (d ^ 2 - A - x - u) * (x - u) ^ 2 * (x - u) ^ 2 =
      (x * u - 1) ^ 2 * (x - u) ^ 2 := by
    have first : s ^ 2 * (x - u) ^ 2 = (y - v) ^ 2 := by rw [← mul_pow, sum]
    have second : d ^ 2 * (x - u) ^ 2 = (y + v) ^ 2 := by rw [← mul_pow, difference]
    have both : (s ^ 2 - A - x - u) * (d ^ 2 - A - x - u) * (x - u) ^ 2 * (x - u) ^ 2 =
        ((y - v) ^ 2 - (A + x + u) * (x - u) ^ 2) * ((y + v) ^ 2 - (A + x + u) * (x - u) ^ 2) := by
      rw [← first, ← second]
      ring
    rw [both]
    linear_combination (y ^ 2 + x ^ 3 + A * x ^ 2 + x - 2 * v ^ 2 - 2 * (A + x + u) * (x - u) ^ 2) * left +
      (v ^ 2 + u ^ 3 + A * u ^ 2 + u - 2 * (x ^ 3 + A * x ^ 2 + x) - 2 * (A + x + u) * (x - u) ^ 2) * right
  exact mul_right_cancel₀ (pow_ne_zero 2 gap) product

theorem add_represents (smooth : Smooth A a24) {p r : Fraction F} {Q : (curve A).Point} {q t : F}
    {on : (curve A).Nonsingular q t} (nonzero : q ≠ 0) (left : p.Represents Q)
    (right : r.Represents (Q + .some q t on)) :
    (Fraction.add q p r).Represents (Q + (Q + .some q t on)) := by
  obtain ⟨k, kNonzero, rfl⟩ := left
  obtain ⟨m, mNonzero, rfl⟩ := right
  have scale : (2 * k * m) ^ 2 ≠ 0 :=
    pow_ne_zero 2 (mul_ne_zero (mul_ne_zero smooth.two kNonzero) mNonzero)
  rw [add_fractions]
  generalize (2 * k * m) ^ 2 = c at scale ⊢
  generalize sum : Q + Point.some q t on = R
  have difference : Point.some q t on = R + -Q := by
    rw [← sum]
    abel
  match Q, R with
  | .zero, R =>
    have same : R = Point.some q t on := by
      rw [← sum, ← Point.zero_def, zero_add]
    rw [same, ← Point.zero_def, zero_add]
    exact represents_some (by simpa using ⟨scale, nonzero⟩) (by simp; ring)
  | .some x y smoothAt, .zero =>
    have same : Point.some x y smoothAt = -Point.some q t on := by
      rw [← Point.zero_def, zero_add] at difference
      rw [difference, neg_neg]
    have xs : x = q := by
      rw [Point.neg_some, Point.some.injEq] at same
      exact same.1
    subst xs
    rw [← Point.zero_def, add_zero]
    exact represents_some (by simpa using ⟨scale, nonzero⟩) (by simp; ring)
  | .some x y onQ, .some u v onR =>
    have eqR := equation_iff.mp onR.1
    have eqQ := equation_iff.mp onQ.1
    by_cases apart : u = x
    · subst apart
      have either : Point.some u v onR = Point.some u y onQ ∨
          Point.some u v onR = -Point.some u y onQ := Point.X_eq_iff.mp rfl
      rcases either with same | opposite
      · rw [same, add_neg_cancel] at difference
        exact absurd difference (Point.some_ne_zero on)
      · rw [opposite, add_neg_cancel]
        rw [← opposite] at difference
        have steep : v ≠ 0 := by
          rintro rfl
          have flat : Point.some u 0 onR + Point.some u 0 onR = 0 :=
            Point.add_self_of_Y_eq (by rw [negY_eq, neg_zero])
          rw [flat] at difference
          exact Point.some_ne_zero on difference
        rw [Point.add_self_of_Y_ne (ne_negY smooth.two steep), Point.some.injEq] at difference
        have formula := double_x smooth.two eqR steep
        rw [← difference.1] at formula
        have above : (u ^ 2 - 1) ^ 2 ≠ 0 := by
          rw [← formula]
          exact mul_ne_zero nonzero (mul_ne_zero smooth.four (pow_ne_zero 2 steep))
        convert represents_zero (A := A) (mul_ne_zero scale above) using 1
        simp only [Point.neg_some, Point.xRep_some, Matrix.cons_val_zero, Matrix.cons_val_one,
          Fraction.mk.injEq]
        constructor <;> ring
    · have shifted : Point.some q t on = Point.some u v onR + Point.some x (-y) (by
          rw [← negY_eq x y]
          exact (nonsingular_neg ..).mpr onQ) := by
        rw [difference, Point.neg_some]
        simp only [negY_eq]
      rw [Point.add_of_X_ne apart, Point.some.injEq] at shifted
      have product := sum_difference_x eqR eqQ apart
      rw [← shifted.1] at product
      rw [add_comm, Point.add_of_X_ne apart]
      refine represents_some (by simpa using ⟨⟨scale, sub_ne_zero.mpr (Ne.symm apart)⟩, nonzero⟩) ?_
      simp only [Point.xRep_some, Matrix.cons_val_zero, Matrix.cons_val_one]
      linear_combination (-c) * product

end

section
variable {F : Type*} [Field F]

def scalar (bits : List Bool) : ℕ :=
  bits.foldl (fun n bit ↦ 2 * n + bit.toNat) 0

/-- A pair of fractions, of nP and of (n + 1)P, after one more bit of n; q is the x-coordinate
    of P. -/
def ladderStep (a24 q : F) (pair : Fraction F × Fraction F) (bit : Bool) :
    Fraction F × Fraction F :=
  if bit then (.add q pair.2 pair.1, pair.2.double a24) else (pair.1.double a24, .add q pair.1 pair.2)

def ladder (a24 q : F) (bits : List Bool) : Fraction F × Fraction F :=
  bits.foldl (ladderStep a24 q) (⟨1, 0⟩, ⟨q, 1⟩)

def multiple (a24 q : F) (bits : List Bool) : F := (ladder a24 q bits).1.quotient

theorem ladder_append (a24 q : F) (bits : List Bool) (bit : Bool) :
    ladder a24 q (bits ++ [bit]) = ladderStep a24 q (ladder a24 q bits) bit := by
  simp [ladder]

@[simp]
theorem scalar_append (bits : List Bool) (bit : Bool) :
    scalar (bits ++ [bit]) = 2 * scalar bits + bit.toNat := by
  simp [scalar]

theorem Fraction.add_comm (q : F) (p r : Fraction F) : Fraction.add q p r = Fraction.add q r p := by
  simp only [Fraction.add, Fraction.mk.injEq]
  constructor <;> ring

theorem ladder_zero (a24 : F) (bits : List Bool) :
    (ladder a24 0 bits).1.z = 0 ∧ (ladder a24 0 bits).2.x * (ladder a24 0 bits).2.z = 0 := by
  induction bits using List.reverseRecOn with
  | nil => simp [ladder]
  | append_singleton bits bit ih =>
    rw [ladder_append]
    obtain ⟨first, second⟩ := ih
    cases bit with
    | false => simp [ladderStep, Fraction.double, Fraction.add, first]
    | true =>
      have flat : ((ladder a24 0 bits).2.x + (ladder a24 0 bits).2.z) ^ 2 -
          ((ladder a24 0 bits).2.x - (ladder a24 0 bits).2.z) ^ 2 = 0 := by
        linear_combination 4 * second
      simp [ladderStep, Fraction.double, Fraction.add, flat]

variable [DecidableEq F] {A a24 : F}

theorem ladderStep_represents (smooth : Smooth A a24) {q t : F} {on : (curve A).Nonsingular q t}
    (nonzero : q ≠ 0) {pair : Fraction F × Fraction F} {N : (curve A).Point} (bit : Bool)
    (first : pair.1.Represents N) (second : pair.2.Represents (N + .some q t on)) :
    (ladderStep a24 q pair bit).1.Represents (N + N + bit.toNat • Point.some q t on) ∧
      (ladderStep a24 q pair bit).2.Represents
        (N + N + bit.toNat • Point.some q t on + .some q t on) := by
  have sum := add_represents smooth nonzero first second
  cases bit with
  | false =>
    simp only [ladderStep, Bool.toNat_false, zero_nsmul, add_zero, Bool.false_eq_true, if_false]
    exact ⟨double_represents smooth first, by rwa [add_assoc]⟩
  | true =>
    simp only [ladderStep, Bool.toNat_true, one_nsmul, if_true]
    rw [Fraction.add_comm]
    refine ⟨by rwa [add_assoc], ?_⟩
    have twice : N + N + .some q t on + .some q t on =
        (N + .some q t on) + (N + .some q t on) := by
      abel
    rw [twice]
    exact double_represents smooth second

theorem ladder_represents (smooth : Smooth A a24) {q t : F} (on : (curve A).Nonsingular q t)
    (nonzero : q ≠ 0) (bits : List Bool) :
    (ladder a24 q bits).1.Represents (scalar bits • Point.some q t on) ∧
      (ladder a24 q bits).2.Represents (scalar bits • Point.some q t on + .some q t on) := by
  induction bits using List.reverseRecOn with
  | nil =>
    constructor
    · simpa [ladder, scalar] using represents_zero (A := A) one_ne_zero
    · simpa [ladder, scalar] using represents_some (p := ⟨q, 1⟩) one_ne_zero (by simp)
  | append_singleton bits bit ih =>
    rw [ladder_append, scalar_append, add_nsmul, two_mul, add_nsmul]
    exact ladderStep_represents smooth nonzero bit ih.1 ih.2

/-- The ladder computes the x-coordinate of the multiple, also of (0, 0) and of infinity, for which
    it answers 0. -/
theorem multiple_eq (smooth : Smooth A a24) (P : (curve A).Point) (bits : List Bool) :
    multiple a24 (xCoordinate P) bits = xCoordinate (scalar bits • P) := by
  have infinity : multiple a24 0 bits = 0 := by
    simp [multiple, Fraction.quotient, (ladder_zero a24 bits).1]
  match P with
  | .zero =>
    rw [← Point.zero_def, nsmul_zero]
    exact infinity
  | .some q t on =>
    by_cases nonzero : q = 0
    · subst nonzero
      rw [show xCoordinate (Point.some 0 t on) = 0 from rfl, infinity]
      have flat : t = 0 := by simpa using equation_iff.mp on.1
      subst flat
      have order : Point.some 0 0 on + Point.some 0 0 on = 0 :=
        Point.add_self_of_Y_eq (by rw [negY_eq, neg_zero])
      have values (n : ℕ) : n • Point.some 0 0 on = 0 ∨ n • Point.some 0 0 on = Point.some 0 0 on := by
        induction n with
        | zero => simp
        | succ n ih =>
          rw [succ_nsmul]
          rcases ih with zero | one
          · exact .inr (by rw [zero, zero_add])
          · exact .inl (by rw [one, order])
      rcases values (scalar bits) with zero | one
      · rw [zero]
        rfl
      · rw [one]
        rfl
    · exact (ladder_represents smooth on nonzero bits).1.quotient

end

section
variable {F : Type*} [Field F] {A a24 : F}

theorem Smooth.nonsingular (smooth : Smooth A a24) {x y : F} (root : y ^ 2 = x ^ 3 + A * x ^ 2 + x) :
    (curve A).Nonsingular x y := by
  refine (nonsingular_iff' ..).mpr ⟨equation_iff.mpr root, ?_⟩
  simp only [curve, zero_mul, zero_sub, add_zero]
  by_cases flat : y = 0
  · left
    rw [flat] at root
    have apart := smooth.apart (x := x) (by linear_combination -root)
    intro tangent
    have product : (x ^ 2 - 1) * x = 0 := by linear_combination (-x) * tangent + 2 * root
    have zero : x = 0 := (mul_eq_zero.mp product).resolve_left apart
    rw [zero] at tangent
    exact one_ne_zero (by linear_combination -tangent)
  · exact .inr (mul_ne_zero smooth.two flat)

theorem exists_point [IsAlgClosed F] (smooth : Smooth A a24) (x : F) :
    ∃ P : (curve A).Point, xCoordinate P = x := by
  obtain ⟨y, root⟩ := IsAlgClosed.exists_pow_nat_eq (x ^ 3 + A * x ^ 2 + x) two_pos
  exact ⟨.some x y (smooth.nonsingular root), rfl⟩

def Fraction.map {K : Type*} [Field K] (f : F →+* K) (p : Fraction F) : Fraction K := ⟨f p.x, f p.z⟩

theorem map_multiple {K : Type*} [Field K] (f : F →+* K) (q : F) (bits : List Bool) :
    f (multiple a24 q bits) = multiple (f a24) (f q) bits := by
  have pairs : ladder (f a24) (f q) bits =
      ((ladder a24 q bits).1.map f, (ladder a24 q bits).2.map f) := by
    induction bits using List.reverseRecOn with
    | nil => simp [ladder, Fraction.map]
    | append_singleton bits bit ih =>
      rw [ladder_append, ladder_append, ih]
      cases bit <;> simp [ladderStep, Fraction.map, Fraction.double, Fraction.add]
  rw [multiple, multiple, pairs]
  simp [Fraction.quotient, Fraction.map]

theorem Smooth.map {K : Type*} [Field K] (smooth : Smooth A a24) (f : F →+* K) :
    Smooth (f A) (f a24) where
  two := by
    rw [← map_ofNat f 2]
    exact (map_ne_zero f).mpr smooth.two
  param := by
    rw [← map_ofNat f 4, ← map_ofNat f 2, ← map_mul, ← map_sub, smooth.param]
  minus := by
    rw [← map_ofNat f 2]
    exact f.injective.ne smooth.minus
  plus := by
    rw [← map_ofNat f 2, ← map_neg]
    exact f.injective.ne smooth.plus

theorem multiple_comm (smooth : Smooth A a24) (x : F) (first second : List Bool) :
    multiple a24 (multiple a24 x first) second = multiple a24 (multiple a24 x second) first := by
  classical
  let f : F →+* AlgebraicClosure F := algebraMap F (AlgebraicClosure F)
  have above : Smooth (f A) (f a24) := smooth.map f
  obtain ⟨P, known⟩ := exists_point above (f x)
  apply f.injective
  simp only [map_multiple, ← known, multiple_eq above]
  rw [← mul_nsmul, ← mul_nsmul, Nat.mul_comm]

end

end MontgomeryCurve
