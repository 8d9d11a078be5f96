import Mathlib.LinearAlgebra.Lagrange
import Mathlib.Tactic.LinearCombination

set_option autoImplicit false

/-! # Least squares of polynomials

Points with weights, and polynomials below a degree. A polynomial whose error is orthogonal to the
powers of the degree is the only one with the least sum of squares, when enough different places
have a positive weight.
-/

namespace Gpsdo.LeastSquares

open Polynomial

variable {ι K : Type*} [Field K]

/-- Points: a place, a value and a weight for each of `s`. -/
structure Points (ι K : Type*) where
  s : Finset ι
  x : ι → K
  y : ι → K
  w : ι → K

namespace Points

variable (P : Points ι K)

/-- The weighted sum of the squares of a function's values. -/
def energy (f : ι → K) : K := ∑ i ∈ P.s, P.w i * f i ^ 2

/-- The error of a polynomial at a point. -/
def error (p : K[X]) (i : ι) : K := P.y i - p.eval (P.x i)

/-- The error is orthogonal to the powers below `n`. -/
def Normal (n : ℕ) (p : K[X]) : Prop := ∀ k < n, ∑ i ∈ P.s, P.w i * P.error p i * P.x i ^ k = 0

variable {P} {n : ℕ} {p q d : K[X]}

/-- The error is orthogonal to all polynomials below the degree. -/
theorem Normal.sum_mul_eval (h : P.Normal n p) (hd : d.degree < n) :
    ∑ i ∈ P.s, P.w i * P.error p i * d.eval (P.x i) = 0 := by
  have heval : ∀ i, d.eval (P.x i) = ∑ k ∈ Finset.range n, d.coeff k * P.x i ^ k := by
    intro i
    by_cases h0 : d = 0
    · simp [h0]
    · exact eval_eq_sum_range' ((natDegree_lt_iff_degree_lt h0).mpr hd) _
  calc ∑ i ∈ P.s, P.w i * P.error p i * d.eval (P.x i)
      = ∑ i ∈ P.s, ∑ k ∈ Finset.range n, d.coeff k * (P.w i * P.error p i * P.x i ^ k) := by
        refine Finset.sum_congr rfl fun i _ => ?_
        rw [heval, Finset.mul_sum]
        exact Finset.sum_congr rfl fun k _ => by ring
    _ = ∑ k ∈ Finset.range n, d.coeff k * ∑ i ∈ P.s, P.w i * P.error p i * P.x i ^ k := by
        rw [Finset.sum_comm]
        exact Finset.sum_congr rfl fun k _ => (Finset.mul_sum _ _ _).symm
    _ = 0 := Finset.sum_eq_zero fun k hk => by rw [h k (Finset.mem_range.mp hk), mul_zero]

/-- The squares of two polynomials differ by the energy of their difference. -/
theorem Normal.energy_error (h : P.Normal n p) (hp : p.degree < n) (hq : q.degree < n) :
    P.energy (P.error q) = P.energy (P.error p) + P.energy fun i => (q - p).eval (P.x i) := by
  have hcross := h.sum_mul_eval (lt_of_le_of_lt (degree_sub_le q p) (max_lt hq hp))
  have hsplit : ∀ i, P.w i * P.error q i ^ 2 = P.w i * P.error p i ^ 2 +
      P.w i * ((q - p).eval (P.x i)) ^ 2 - 2 * (P.w i * P.error p i * (q - p).eval (P.x i)) := by
    intro i
    unfold error
    rw [eval_sub]
    ring
  unfold energy
  rw [Finset.sum_congr rfl fun i _ => hsplit i, Finset.sum_sub_distrib, Finset.sum_add_distrib,
    ← Finset.mul_sum, hcross, mul_zero, sub_zero]

end Points

/-! ## Degree two -/

noncomputable def quad (a b c : K) : K[X] := C a + C b * X + C c * X ^ 2

variable {a b c a' b' c' : K}

@[simp] theorem eval_quad (x : K) : (quad a b c).eval x = a + b * x + c * x ^ 2 := by
  simp [quad]

theorem degree_quad_lt (a b c : K) : (quad a b c).degree < (3 : ℕ) := by
  unfold quad
  rw [degree_lt_iff_coeff_zero]
  intro k hk
  simp only [coeff_add, coeff_C_mul, coeff_X_pow, coeff_X, coeff_C]
  rw [if_neg (by omega), if_neg (by omega), if_neg (by omega)]
  ring

theorem degree_line_lt (a b : K) : (quad a b 0).degree < (2 : ℕ) := by
  unfold quad
  rw [degree_lt_iff_coeff_zero]
  intro k hk
  simp only [coeff_add, coeff_C_mul, coeff_X_pow, coeff_X, coeff_C]
  rw [if_neg (by omega), if_neg (by omega)]
  ring

theorem quad_inj : quad a b c = quad a' b' c' ↔ a = a' ∧ b = b' ∧ c = c' := by
  constructor
  · intro h
    have h0 := congrArg (coeff · 0) h
    have h1 := congrArg (coeff · 1) h
    have h2 := congrArg (coeff · 2) h
    simp [quad, coeff_X, coeff_C] at h0 h1 h2
    exact ⟨h0, h1, h2⟩
  · rintro ⟨rfl, rfl, rfl⟩
    rfl

theorem quad_eq_zero_iff : quad a b c = 0 ↔ a = 0 ∧ b = 0 ∧ c = 0 := by
  rw [← quad_inj]
  simp [quad]

namespace Points

variable (P : Points ι K)

/-- The sum of a power of the places. -/
def moment (k : ℕ) : K := ∑ i ∈ P.s, P.w i * P.x i ^ k

/-- The sum of the values with a power of the places. -/
def crossMoment (k : ℕ) : K := ∑ i ∈ P.s, P.w i * P.y i * P.x i ^ k

theorem sum_error_quad (a b c : K) (k : ℕ) :
    ∑ i ∈ P.s, P.w i * P.error (quad a b c) i * P.x i ^ k =
      P.crossMoment k - (a * P.moment k + b * P.moment (k + 1) + c * P.moment (k + 2)) := by
  unfold crossMoment moment error
  rw [Finset.mul_sum, Finset.mul_sum, Finset.mul_sum, ← Finset.sum_add_distrib,
    ← Finset.sum_add_distrib, ← Finset.sum_sub_distrib]
  refine Finset.sum_congr rfl fun i _ => ?_
  rw [eval_quad]
  ring

theorem energy_quad (a b c : K) :
    P.energy (fun i => (quad a b c).eval (P.x i)) =
      a ^ 2 * P.moment 0 + 2 * a * b * P.moment 1 + (b ^ 2 + 2 * a * c) * P.moment 2 +
        2 * b * c * P.moment 3 + c ^ 2 * P.moment 4 := by
  unfold energy moment
  rw [Finset.mul_sum, Finset.mul_sum, Finset.mul_sum, Finset.mul_sum, Finset.mul_sum,
    ← Finset.sum_add_distrib, ← Finset.sum_add_distrib, ← Finset.sum_add_distrib,
    ← Finset.sum_add_distrib]
  refine Finset.sum_congr rfl fun i _ => ?_
  dsimp only
  rw [eval_quad]
  ring

/-- A line that solves the two equations of the moments. -/
theorem normal_line {P : Points ι K} {a b : K} (h0 : P.moment 0 ≠ 0)
    (ha : a * P.moment 0 = P.crossMoment 0 - b * P.moment 1)
    (hb : b * (P.moment 0 * P.moment 2 - P.moment 1 ^ 2) =
      P.moment 0 * P.crossMoment 1 - P.moment 1 * P.crossMoment 0) : P.Normal 2 (quad a b 0) := by
  intro k hk
  rw [sum_error_quad]
  obtain rfl | rfl : k = 0 ∨ k = 1 := by omega
  · linear_combination -ha
  · refine (mul_eq_zero.mp ?_).resolve_left h0
    linear_combination -P.moment 1 * ha - hb

/-! ## The least squares -/

section

variable [LinearOrder K]

/-- At least `n` different places have a positive weight. -/
def Spread (n : ℕ) : Prop := n ≤ ((P.s.filter fun i => 0 < P.w i).image P.x).card

variable [IsStrictOrderedRing K] {P} {n : ℕ} {p q d : K[X]}

theorem energy_nonneg (hw : ∀ i ∈ P.s, 0 ≤ P.w i) (f : ι → K) : 0 ≤ P.energy f :=
  Finset.sum_nonneg fun i hi => mul_nonneg (hw i hi) (sq_nonneg _)

/-- Nothing is left of a function where there is a weight. -/
theorem energy_eq_zero_iff (hw : ∀ i ∈ P.s, 0 ≤ P.w i) (f : ι → K) :
    P.energy f = 0 ↔ ∀ i ∈ P.s, 0 < P.w i → f i = 0 := by
  unfold energy
  rw [Finset.sum_eq_zero_iff_of_nonneg fun i hi => mul_nonneg (hw i hi) (sq_nonneg _)]
  refine forall₂_congr fun i hi => ?_
  rw [mul_eq_zero, sq_eq_zero_iff]
  constructor
  · rintro (h | h) hpos
    · exact absurd h hpos.ne'
    · exact h
  · intro h
    rcases (hw i hi).eq_or_lt with h0 | hpos
    · exact Or.inl h0.symm
    · exact Or.inr (h hpos)

/-- **A polynomial that is not zero has energy** when the places are more than its roots. -/
theorem energy_pos (hw : ∀ i ∈ P.s, 0 ≤ P.w i) (hspread : P.Spread n) (hd : d.degree < n)
    (hne : d ≠ 0) : 0 < P.energy fun i => d.eval (P.x i) := by
  refine lt_of_le_of_ne (energy_nonneg hw _) fun h0 => hne ?_
  have hzero := (energy_eq_zero_iff hw _).mp h0.symm
  refine eq_zero_of_degree_lt_of_eval_finset_eq_zero
    ((P.s.filter fun i => 0 < P.w i).image P.x) (hd.trans_le (Nat.cast_le.mpr hspread)) ?_
  intro x hx
  obtain ⟨i, hi, rfl⟩ := Finset.mem_image.mp hx
  obtain ⟨his, hpos⟩ := Finset.mem_filter.mp hi
  exact hzero i his hpos

/-- **The least squares.** -/
theorem Normal.energy_lt (hw : ∀ i ∈ P.s, 0 ≤ P.w i) (hspread : P.Spread n) (h : P.Normal n p)
    (hp : p.degree < n) (hq : q.degree < n) (hne : q ≠ p) :
    P.energy (P.error p) < P.energy (P.error q) := by
  rw [h.energy_error hp hq]
  exact lt_add_of_pos_right _ (energy_pos hw hspread
    (lt_of_le_of_lt (degree_sub_le q p) (max_lt hq hp)) (sub_ne_zero.mpr hne))

end

end Points

/-- A loop that sums up. -/
theorem foldl_range_add (f : ℕ → K) (n : ℕ) :
    (List.range n).foldl (fun a k => a + f k) 0 = ∑ k ∈ Finset.range n, f k := by
  induction n with
  | zero => rfl
  | succ n ih => rw [List.range_succ, List.foldl_append, ih, Finset.sum_range_succ]; rfl

end Gpsdo.LeastSquares
