import Gpsdo.Basic.LeastSquares
import Gpsdo.Basic.Reading
import Mathlib.Tactic.IntervalCases
import Mathlib.Tactic.LinearCombination

set_option autoImplicit false

/-! # The line through the samples of a source (`fitLinear` in `lib/ntp/Source.cpp`)

The closed form of a weighted fit, over any numbers with the operations of the source. A division
records its divisor. The one that is not plainly positive is the variance of the places, which is
the energy of a line.
-/

namespace Gpsdo.Ntp

namespace FitLinear

variable {K : Type}

/-- What `fitLinear` returns. -/
structure LinearFit (K : Type) where
  offset : K
  slope : K
  offsetVariance : K
  slopeVariance : K
  deriving DecidableEq, Repr

/-- The array `scratch`. -/
structure Scratch (K : Type) where
  scratch0 : K
  scratch1 : K
  scratch2 : K
  scratch3 : K
  scratch4 : K

section

variable [Zero K] [Add K] [Sub K] [Mul K] [Div K] (cnt : ℕ) (x y w : ℕ → K)

/-- The first loop of `fitLinear` -/
def sums : Scratch K :=
  (List.range cnt).foldl (fun s i =>
    { scratch0 := s.scratch0 + w i
      scratch1 := s.scratch1 + w i * x i
      scratch2 := s.scratch2 + w i * x i * x i
      scratch3 := s.scratch3 + w i * y i
      scratch4 := s.scratch4 + w i * y i * x i }) ⟨0, 0, 0, 0, 0⟩

/-- The error of a line at a sample. -/
def lineError (offset slope : K) (i : ℕ) : K := y i - offset - x i * slope

def fitLinear : Reading K (LinearFit K) := do
  let ⟨scratch0, scratch1, scratch2, scratch3, scratch4⟩ := sums cnt x y w
  let scratch1 ← Reading.div scratch1 scratch0
  let scratch2 ← Reading.div scratch2 scratch0
  let scratch3 ← Reading.div scratch3 scratch0
  let scratch4 ← Reading.div scratch4 scratch0
  let slope ← Reading.div (scratch4 - scratch1 * scratch3) (scratch2 - scratch1 * scratch1)
  let offset := scratch3 - scratch1 * slope
  let mse := (List.range cnt).foldl (fun mse i =>
    mse + w i * lineError x y offset slope i * lineError x y offset slope i) 0
  let mse ← Reading.div mse scratch0
  let slopeVariance ← Reading.div mse (scratch2 - scratch1 * scratch1)
  let offsetVariance := slopeVariance * scratch2
  pure ⟨offset, slope, offsetVariance, slopeVariance⟩

end

/-! ## The sums -/

open LeastSquares

section

variable [Field K] (cnt : ℕ) (x y w : ℕ → K)

/-- The samples. -/
def points : Points ℕ K := ⟨Finset.range cnt, x, y, w⟩

/-- A loop that sums up. -/
theorem foldl_sum (f : ℕ → K) : (List.range cnt).foldl (fun s i => s + f i) 0 =
    ∑ i ∈ Finset.range cnt, f i := by
  induction cnt with
  | zero => rfl
  | succ n ih => rw [List.range_succ, List.foldl_append, ih, Finset.sum_range_succ]; rfl

theorem sums_eq :
    let P := points cnt x y w
    sums cnt x y w = ⟨P.moment 0, P.moment 1, P.moment 2, P.crossMoment 0, P.crossMoment 1⟩ := by
  intro P
  induction cnt with
  | zero => rfl
  | succ n ih =>
      unfold sums at ih ⊢
      rw [List.range_succ, List.foldl_append, ih]
      simp only [List.foldl_cons, List.foldl_nil, P, points, Points.moment, Points.crossMoment,
        Finset.sum_range_succ]
      congr 1 <;> ring

/-- The sum of the squares that a line leaves. -/
def lineResiduals (offset slope : K) : K :=
  ∑ i ∈ Finset.range cnt, w i * (y i - offset - slope * x i) ^ 2

variable {cnt x y w}

theorem lineResiduals_eq (offset slope : K) :
    lineResiduals cnt x y w offset slope =
      (points cnt x y w).energy ((points cnt x y w).error (quad offset slope 0)) := by
  refine Finset.sum_congr rfl fun i _ => ?_
  unfold Points.error
  rw [eval_quad]
  show w i * _ = w i * (y i - (offset + slope * x i + 0 * x i ^ 2)) ^ 2
  ring

theorem foldl_mse (offset slope : K) :
    (List.range cnt).foldl (fun mse i =>
      mse + w i * lineError x y offset slope i * lineError x y offset slope i) 0 =
        lineResiduals cnt x y w offset slope := by
  rw [foldl_sum]
  refine Finset.sum_congr rfl fun i _ => ?_
  unfold lineError
  ring

/-- What is computed from the sums. -/
theorem fitLinear_spec (cnt : ℕ) (x y w : ℕ → K) {m₀ m₁ m₂ c₀ c₁ : K}
    (hsums : sums cnt x y w = ⟨m₀, m₁, m₂, c₀, c₁⟩) :
    let fit := fitLinear cnt x y w
    let v := m₂ / m₀ - m₁ / m₀ * (m₁ / m₀)
    fit.val.slope = (c₁ / m₀ - m₁ / m₀ * (c₀ / m₀)) / v ∧
      fit.val.offset = c₀ / m₀ - m₁ / m₀ * fit.val.slope ∧
      fit.val.slopeVariance =
        lineResiduals cnt x y w fit.val.offset fit.val.slope / m₀ / v ∧
      fit.val.offsetVariance = fit.val.slopeVariance * (m₂ / m₀) ∧
      (m₀ ≠ 0 → v ≠ 0 → fit.Within (· ≠ 0)) := by
  intro fit v
  unfold fit fitLinear
  rw [hsums]
  refine ⟨rfl, rfl, congrArg (· / m₀ / v) (foldl_mse _ _), rfl, fun h₀ hv => ?_⟩
  simp only [Reading.val_div, Reading.within_bind, Reading.within_div, Reading.within_pure]
  exact ⟨h₀, h₀, h₀, h₀, hv, h₀, hv, trivial⟩

/-- **The closed form** solves the equations, when it has no divisor that is zero. -/
theorem closed_form {m₀ m₁ m₂ c₀ c₁ slope offset : K} (h₀ : m₀ ≠ 0)
    (hv : m₂ / m₀ - m₁ / m₀ * (m₁ / m₀) ≠ 0)
    (hslope : slope = (c₁ / m₀ - m₁ / m₀ * (c₀ / m₀)) / (m₂ / m₀ - m₁ / m₀ * (m₁ / m₀)))
    (hoffset : offset = c₀ / m₀ - m₁ / m₀ * slope) :
    offset * m₀ + slope * m₁ = c₀ ∧ offset * m₁ + slope * m₂ = c₁ := by
  obtain ⟨f, hf⟩ : ∃ f, f = m₁ / m₀ := ⟨_, rfl⟩
  have hfirst : offset * m₀ + slope * m₁ = c₀ := by
    rw [hoffset]
    field_simp
    ring
  refine ⟨hfirst, ?_⟩
  rw [← hf] at hv hslope
  replace hf : f * m₀ = m₁ := (eq_div_iff h₀).mp hf
  replace hslope := (eq_div_iff hv).mp hslope
  -- the slope, with the variance and the covariance times the sum of the weights
  have hsecond : slope * (m₂ - f * m₁) = c₁ - f * c₀ := by
    have h2 : m₂ / m₀ * m₀ = m₂ := div_mul_cancel₀ m₂ h₀
    have hc1 : c₁ / m₀ * m₀ = c₁ := div_mul_cancel₀ c₁ h₀
    have hc0 : c₀ / m₀ * m₀ = c₀ := div_mul_cancel₀ c₀ h₀
    linear_combination m₀ * hslope - slope * h2 + hc1 - f * hc0 + slope * f * hf
  linear_combination hsecond + f * hfirst - offset * hf

end

/-! ## The fit -/

section

variable [Field K] [LinearOrder K] {cnt : ℕ} {x y w : ℕ → K}

/-- At least two different places have a positive weight. -/
def TwoPlaces (cnt : ℕ) (x w : ℕ → K) : Prop :=
  ∃ i < cnt, ∃ j < cnt, 0 < w i ∧ 0 < w j ∧ x i ≠ x j

/-- All samples with a weight lie on a line. -/
def OnLine (cnt : ℕ) (x y w : ℕ → K) (offset slope : K) : Prop :=
  ∀ i < cnt, 0 < w i → y i = offset + slope * x i

theorem TwoPlaces.spread (h : TwoPlaces cnt x w) : (points cnt x y w).Spread 2 := by
  obtain ⟨i, hi, j, hj, hwi, hwj, hne⟩ := h
  have hmem : ∀ k < cnt, 0 < w k → x k ∈ ((Finset.range cnt).filter fun i => 0 < w i).image x :=
    fun k hk hpos => Finset.mem_image_of_mem x
      (Finset.mem_filter.mpr ⟨Finset.mem_range.mpr hk, hpos⟩)
  exact Finset.one_lt_card.mpr ⟨x i, hmem i hi hwi, x j, hmem j hj hwj, hne⟩

variable [IsStrictOrderedRing K]

/-- Nothing is left by a line through all samples with a weight. -/
theorem lineResiduals_eq_zero_iff (hw : ∀ i < cnt, 0 ≤ w i) (offset slope : K) :
    lineResiduals cnt x y w offset slope = 0 ↔ OnLine cnt x y w offset slope := by
  have hpoints : ∀ i ∈ (points cnt x y w).s, 0 ≤ (points cnt x y w).w i := fun i hi =>
    hw i (Finset.mem_range.mp hi)
  rw [lineResiduals_eq, Points.energy_eq_zero_iff hpoints]
  refine forall_congr' fun i => ?_
  rw [show i ∈ (points cnt x y w).s ↔ i < cnt from Finset.mem_range]
  refine imp_congr_right fun _ => imp_congr_right fun _ => ?_
  unfold Points.error
  rw [eval_quad, sub_eq_zero]
  show y i = offset + slope * x i + 0 * x i ^ 2 ↔ _
  rw [zero_mul, add_zero]

/-- The sum of the weights, of the squares and the variance are energies of lines. -/
theorem moments_pos {P : Points ℕ K} (hw : ∀ i ∈ P.s, 0 ≤ P.w i) (hspread : P.Spread 2) :
    0 < P.moment 0 ∧ 0 < P.moment 2 ∧
      0 < P.moment 2 / P.moment 0 - P.moment 1 / P.moment 0 * (P.moment 1 / P.moment 0) := by
  have henergy : ∀ a b, ¬(a = 0 ∧ b = 0) → 0 < P.energy fun i => (quad a b 0).eval (P.x i) :=
    fun a b hne => Points.energy_pos hw hspread (degree_line_lt a b)
      (mt quad_eq_zero_iff.mp fun h => hne ⟨h.1, h.2.1⟩)
  have h₀ : 0 < P.moment 0 := by
    calc 0 < P.energy fun i => (quad 1 0 0).eval (P.x i) := henergy 1 0 (by simp)
      _ = P.moment 0 := by rw [P.energy_quad]; ring
  have h₂ : 0 < P.moment 2 := by
    calc 0 < P.energy fun i => (quad 0 1 0).eval (P.x i) := henergy 0 1 (by simp)
      _ = P.moment 2 := by rw [P.energy_quad]; ring
  refine ⟨h₀, h₂, ?_⟩
  obtain ⟨f, hf⟩ : ∃ f, f = P.moment 1 / P.moment 0 := ⟨_, rfl⟩
  rw [← hf]
  replace hf : f * P.moment 0 = P.moment 1 := (eq_div_iff h₀.ne').mp hf
  -- the places, from their mean
  have hvariance : 0 < P.moment 2 - f * f * P.moment 0 := by
    calc 0 < P.energy fun i => (quad (-f) 1 0).eval (P.x i) := henergy (-f) 1 (by simp)
      _ = P.moment 2 - f * f * P.moment 0 := by
        rw [P.energy_quad]
        linear_combination 2 * f * hf
  calc 0 < (P.moment 2 - f * f * P.moment 0) / P.moment 0 := div_pos hvariance h₀
    _ = P.moment 2 / P.moment 0 - f * f := by field_simp

/-- **`fitLinear` fits.** It divides by nothing that is zero, its line is the only one with the
least residuals, and its variances are zero on a line alone. -/
theorem fitLinear_least (cnt : ℕ) (x y w : ℕ → K) (hw : ∀ i < cnt, 0 ≤ w i)
    (hplaces : TwoPlaces cnt x w) :
    let fit := fitLinear cnt x y w
    fit.Within (· ≠ 0) ∧
      (∀ offset slope, (offset, slope) ≠ (fit.val.offset, fit.val.slope) →
        lineResiduals cnt x y w fit.val.offset fit.val.slope <
          lineResiduals cnt x y w offset slope) ∧
      0 ≤ fit.val.offsetVariance ∧ 0 ≤ fit.val.slopeVariance ∧
      (fit.val.offsetVariance = 0 ↔ OnLine cnt x y w fit.val.offset fit.val.slope) ∧
      (fit.val.slopeVariance = 0 ↔ OnLine cnt x y w fit.val.offset fit.val.slope) := by
  intro fit
  have hpoints : ∀ i ∈ (points cnt x y w).s, 0 ≤ (points cnt x y w).w i := fun i hi =>
    hw i (Finset.mem_range.mp hi)
  have hspread : (points cnt x y w).Spread 2 := hplaces.spread
  obtain ⟨h₀, h₂, hv⟩ := moments_pos hpoints hspread
  obtain ⟨hslope, hoffset, hslopeVariance, hoffsetVariance, hwithin⟩ :=
    fitLinear_spec cnt x y w (sums_eq cnt x y w)
  obtain ⟨heq₀, heq₁⟩ := closed_form h₀.ne' hv.ne' hslope hoffset
  have hnormal : (points cnt x y w).Normal 2 (quad fit.val.offset fit.val.slope 0) := by
    intro k hk
    rw [Points.sum_error_quad, zero_mul, add_zero, sub_eq_zero]
    interval_cases k
    · exact heq₀.symm
    · exact heq₁.symm
  have hresiduals : 0 ≤ lineResiduals cnt x y w fit.val.offset fit.val.slope := by
    rw [lineResiduals_eq]
    exact Points.energy_nonneg hpoints _
  -- both variances are the residuals, up to divisors and a factor that are positive
  have hslope_zero : fit.val.slopeVariance = 0 ↔
      OnLine cnt x y w fit.val.offset fit.val.slope := by
    rw [← lineResiduals_eq_zero_iff hw, hslopeVariance, div_eq_zero_iff, div_eq_zero_iff,
      or_iff_left hv.ne', or_iff_left h₀.ne']
  have hslope_nonneg : 0 ≤ fit.val.slopeVariance := by
    rw [hslopeVariance]
    exact div_nonneg (div_nonneg hresiduals h₀.le) hv.le
  have hsquares := div_pos h₂ h₀
  refine ⟨hwithin h₀.ne' hv.ne', fun offset slope hne => ?_, ?_, hslope_nonneg, ?_, hslope_zero⟩
  · rw [lineResiduals_eq, lineResiduals_eq]
    refine hnormal.energy_lt hpoints hspread (degree_line_lt _ _) (degree_line_lt _ _) ?_
    intro hline
    obtain ⟨hoff, hsl, -⟩ := quad_inj.mp hline
    exact hne (Prod.ext hoff hsl)
  · rw [hoffsetVariance]
    exact mul_nonneg hslope_nonneg hsquares.le
  · rw [hoffsetVariance, mul_eq_zero, or_iff_left hsquares.ne']
    exact hslope_zero

/-- Three samples, of which the last has no weight. -/
theorem fitLinear_least_line :
    let x : ℕ → ℚ := fun i => i
    let y : ℕ → ℚ := fun i => if i = 2 then 9 else 2 * i + 1
    let w : ℕ → ℚ := fun i => if i = 2 then 0 else 1
    let fit := fitLinear 3 x y w
    fit.val = ⟨1, 2, 0, 0⟩ ∧ fit.Within (· ≠ 0) ∧
      (∀ offset slope, (offset, slope) ≠ (fit.val.offset, fit.val.slope) →
        lineResiduals 3 x y w fit.val.offset fit.val.slope <
          lineResiduals 3 x y w offset slope) := by
  intro x y w fit
  have hw : ∀ i < 3, 0 ≤ w i := by decide +kernel
  have h := fitLinear_least 3 x y w hw ⟨0, by decide, 1, by decide, by decide +kernel,
    by decide +kernel, by decide +kernel⟩
  exact ⟨by decide +kernel, h.1, h.2.1⟩

end

end FitLinear

end Gpsdo.Ntp
