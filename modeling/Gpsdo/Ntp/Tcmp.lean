import Gpsdo.Basic.LeastSquares
import Gpsdo.Basic.Reading
import Mathlib.Tactic.IntervalCases
import Mathlib.Tactic.LinearCombination

set_option autoImplicit false

/-! # The fit of the temperature compensation (`lib/ntp/tcmp.cpp`)

The computations on the nodes of the filter, over any numbers with the operations of the source. A
division records its divisor. In exact arithmetic `fitQuadratic` solves the equations of a least
squares fit; its pivots are the energies of polynomials, and so they are positive.
-/

namespace Gpsdo.Ntp

namespace Tcmp

abbrev SOM_NODE_CNT : ℕ := 16

/-- The `SOM_NODE_DIM` numbers of a node, or of their mean. -/
structure SomVec (K : Type) where
  temp : K
  comp : K
  weight : K
  deriving DecidableEq, Repr

/-- The `REG_DIM_COEF` coefficients. -/
@[ext] structure Coef (K : Type) where
  c0 : K
  c1 : K
  c2 : K
  deriving DecidableEq, Repr

variable {K : Type}

/-! ## The computations -/

section

variable [Zero K] [Add K] [Sub K] [Mul K] [Div K]

/-- `computeMean` -/
def computeMean (data : Fin SOM_NODE_CNT → SomVec K) : Reading K (SomVec K) := do
  let mean := (List.finRange SOM_NODE_CNT).foldl (fun mean i =>
    { temp := mean.temp + (data i).temp * (data i).weight
      comp := mean.comp + (data i).comp * (data i).weight
      weight := mean.weight + (data i).weight : SomVec K }) ⟨0, 0, 0⟩
  let temp ← Reading.div mean.temp mean.weight
  let comp ← Reading.div mean.comp mean.weight
  pure ⟨temp, comp, mean.weight⟩

/-- The cells of the matrix `xx` that are summed up; the other ones follow by symmetry. -/
structure Cells (K : Type) where
  xx00 : K
  xx01 : K
  xx02 : K
  xx03 : K
  xx12 : K
  xx13 : K
  xx22 : K
  xx23 : K

/-- The body of the loop of `fitQuadratic` -/
def Cells.add (xx : Cells K) (x y z : K) : Cells K :=
  -- constant terms
  let xx := { xx with xx22 := xx.xx22 + z, xx23 := xx.xx23 + z * y }
  -- linear terms
  let z := z * x
  let xx := { xx with xx12 := xx.xx12 + z, xx13 := xx.xx13 + z * y }
  -- quadratic terms
  let z := z * x
  let xx := { xx with xx02 := xx.xx02 + z, xx03 := xx.xx03 + z * y }
  -- cubic terms
  let z := z * x
  let xx := { xx with xx01 := xx.xx01 + z }
  -- quartic terms
  let z := z * x
  { xx with xx00 := xx.xx00 + z }

/-- The loop of `fitQuadratic` -/
def cells (mean : SomVec K) (data : Fin SOM_NODE_CNT → SomVec K) : Cells K :=
  (List.finRange SOM_NODE_CNT).foldl (fun xx i =>
    xx.add ((data i).temp - mean.temp) ((data i).comp - mean.comp) (data i).weight)
    ⟨0, 0, 0, 0, 0, 0, 0, 0⟩

/-- The row-echelon reduction of `fitQuadratic`, and the coefficients from it -/
def Cells.solve (xx : Cells K) : Reading K (Coef K) := do
  let ⟨xx00, xx01, xx02, xx03, xx12, xx13, xx22, xx23⟩ := xx
  -- fill remaining cells using matrix symmetry
  let xx10 := xx01
  let xx11 := xx02
  let xx20 := xx02
  let xx21 := xx12
  let f ← Reading.div xx10 xx00
  let xx11 := xx11 - f * xx01
  let xx12 := xx12 - f * xx02
  let xx13 := xx13 - f * xx03
  let f ← Reading.div xx20 xx00
  let xx21 := xx21 - f * xx01
  let xx22 := xx22 - f * xx02
  let xx23 := xx23 - f * xx03
  let f ← Reading.div xx21 xx11
  let xx22 := xx22 - f * xx12
  let xx23 := xx23 - f * xx13
  let c0 ← Reading.div xx23 xx22
  let c1 ← Reading.div (xx13 - xx12 * c0) xx11
  let c2 ← Reading.div (xx03 - xx02 * c0 - xx01 * c1) xx00
  pure ⟨c0, c1, c2⟩

def fitQuadratic (mean : SomVec K) (data : Fin SOM_NODE_CNT → SomVec K) : Reading K (Coef K) :=
  (cells mean data).solve

/-- The error of a node -/
def nodeError (mean : SomVec K) (coef : Coef K) (node : SomVec K) : K :=
  let x := node.temp - mean.temp
  let y := node.comp - mean.comp
  let y := y - coef.c0
  let y := y - x * coef.c1
  y - x * x * coef.c2

/-- `computeMSE` -/
def computeMSE (mean : SomVec K) (coef : Coef K) (data : Fin SOM_NODE_CNT → SomVec K) :
    Reading K K :=
  let acc := (List.finRange SOM_NODE_CNT).foldl (fun acc i =>
    acc + nodeError mean coef (data i) * nodeError mean coef (data i) * (data i).weight) 0
  Reading.div acc mean.weight

def tcmpEstimate (tcmpMean : SomVec K) (tcmpCoeff : Coef K) (temp : K) : K :=
  let x := temp - tcmpMean.temp
  let y := tcmpCoeff.c0
  let y := y + x * tcmpCoeff.c1
  let y := y + x * x * tcmpCoeff.c2
  y + tcmpMean.comp

end

/-! ## The equations -/

open LeastSquares

section

variable [Field K]

/-- The nodes as points, from their mean. -/
def points (mean : SomVec K) (data : Fin SOM_NODE_CNT → SomVec K) :
    Points (Fin SOM_NODE_CNT) K where
  s := Finset.univ
  x i := (data i).temp - mean.temp
  y i := (data i).comp - mean.comp
  w i := (data i).weight

/-- The sums in the cells. -/
def momentCells (P : Points (Fin SOM_NODE_CNT) K) : Cells K where
  xx00 := P.moment 4
  xx01 := P.moment 3
  xx02 := P.moment 2
  xx03 := P.crossMoment 2
  xx12 := P.moment 1
  xx13 := P.crossMoment 1
  xx22 := P.moment 0
  xx23 := P.crossMoment 0

variable (mean : SomVec K) (data : Fin SOM_NODE_CNT → SomVec K)

/-- What the loop has summed up after some nodes. -/
theorem foldl_add (nodes : List (Fin SOM_NODE_CNT)) (xx : Cells K) :
    let P := points mean data
    let sum := fun f : Fin SOM_NODE_CNT → K => (nodes.map f).sum
    nodes.foldl (fun xx i => xx.add (P.x i) (P.y i) (P.w i)) xx =
      { xx00 := xx.xx00 + sum fun i => P.w i * P.x i ^ 4
        xx01 := xx.xx01 + sum fun i => P.w i * P.x i ^ 3
        xx02 := xx.xx02 + sum fun i => P.w i * P.x i ^ 2
        xx03 := xx.xx03 + sum fun i => P.w i * P.y i * P.x i ^ 2
        xx12 := xx.xx12 + sum fun i => P.w i * P.x i ^ 1
        xx13 := xx.xx13 + sum fun i => P.w i * P.y i * P.x i ^ 1
        xx22 := xx.xx22 + sum fun i => P.w i * P.x i ^ 0
        xx23 := xx.xx23 + sum fun i => P.w i * P.y i * P.x i ^ 0 } := by
  intro P sum
  induction nodes generalizing xx with
  | nil => simp [sum]
  | cons i nodes ih =>
      rw [List.foldl_cons, ih]
      simp only [sum, List.map_cons, List.sum_cons, Cells.add]
      congr 1 <;> ring

theorem cells_eq : cells mean data = momentCells (points mean data) := by
  have h := foldl_add mean data (List.finRange SOM_NODE_CNT) ⟨0, 0, 0, 0, 0, 0, 0, 0⟩
  refine Eq.trans h ?_
  simp only [zero_add, ← Fin.sum_univ_def]
  rfl

theorem computeMean_weight : (computeMean data).val.weight = ∑ i, (data i).weight := by
  have hfoldl : ∀ (nodes : List (Fin SOM_NODE_CNT)) (m : SomVec K), (nodes.foldl (fun mean i =>
      { temp := mean.temp + (data i).temp * (data i).weight
        comp := mean.comp + (data i).comp * (data i).weight
        weight := mean.weight + (data i).weight : SomVec K }) m).weight =
      m.weight + (nodes.map fun i => (data i).weight).sum := by
    intro nodes
    induction nodes with
    | nil => exact fun m => (add_zero m.weight).symm
    | cons i nodes ih =>
        intro m
        rw [List.foldl_cons, ih, List.map_cons, List.sum_cons, add_assoc]
  rw [Fin.sum_univ_def, ← zero_add (List.sum _)]
  exact hfoldl (List.finRange SOM_NODE_CNT) ⟨0, 0, 0⟩

/-- A fit, as a polynomial. -/
noncomputable def Coef.poly (coef : Coef K) : Polynomial K := quad coef.c0 coef.c1 coef.c2

variable {P : Points (Fin SOM_NODE_CNT) K}

/-- **The elimination** solves the equations, unless a pivot is zero. -/
theorem solve_spec {s₀ s₁ s₂ s₃ s₄ t₀ t₁ t₂ f g h p₁ p₂ : K} (hf : f = s₃ / s₄) (hg : g = s₂ / s₄)
    (hp₁ : p₁ = s₂ - f * s₃) (hh : h = (s₁ - g * s₃) / p₁)
    (hp₂ : p₂ = s₀ - g * s₂ - h * (s₁ - f * s₂)) (h₀ : s₄ ≠ 0) (h₁ : p₁ ≠ 0) (h₂ : p₂ ≠ 0) :
    let fit := (⟨s₄, s₃, s₂, t₂, s₁, t₁, s₀, t₀⟩ : Cells K).solve
    fit.Within (· ≠ 0) ∧
      fit.val.c0 * s₀ + fit.val.c1 * s₁ + fit.val.c2 * s₂ = t₀ ∧
      fit.val.c0 * s₁ + fit.val.c1 * s₂ + fit.val.c2 * s₃ = t₁ ∧
      fit.val.c0 * s₂ + fit.val.c1 * s₃ + fit.val.c2 * s₄ = t₂ := by
  intro fit
  -- the coefficients, and the quotients they are made of
  obtain ⟨c₀, hc₀⟩ : ∃ c₀, c₀ = (t₀ - g * t₂ - h * (t₁ - f * t₂)) / p₂ := ⟨_, rfl⟩
  obtain ⟨c₁, hc₁⟩ : ∃ c₁, c₁ = (t₁ - f * t₂ - (s₁ - f * s₂) * c₀) / p₁ := ⟨_, rfl⟩
  obtain ⟨c₂, hc₂⟩ : ∃ c₂, c₂ = (t₂ - s₂ * c₀ - s₃ * c₁) / s₄ := ⟨_, rfl⟩
  have hval : fit.val = ⟨c₀, c₁, c₂⟩ := by
    rw [hc₂, hc₁, hc₀, hp₂, hh, hp₁, hg, hf]
    rfl
  have hwithin : fit.Within (· ≠ 0) := by
    rw [hp₂, hh, hp₁, hg, hf] at h₂
    rw [hp₁, hf] at h₁
    simp only [fit, Cells.solve, Reading.within_bind, Reading.within_div, Reading.val_div,
      Reading.within_pure]
    exact ⟨h₀, h₀, h₁, h₂, h₁, h₀, trivial⟩
  -- without quotients, each equation is a linear combination of what defines them
  replace hf : f * s₄ = s₃ := (eq_div_iff h₀).mp hf
  replace hg : g * s₄ = s₂ := (eq_div_iff h₀).mp hg
  replace hh : h * p₁ = s₁ - g * s₃ := (eq_div_iff h₁).mp hh
  replace hc₀ : c₀ * p₂ = t₀ - g * t₂ - h * (t₁ - f * t₂) := (eq_div_iff h₂).mp hc₀
  replace hc₁ : c₁ * p₁ = t₁ - f * t₂ - (s₁ - f * s₂) * c₀ := (eq_div_iff h₁).mp hc₁
  replace hc₂ : c₂ * s₄ = t₂ - s₂ * c₀ - s₃ * c₁ := (eq_div_iff h₀).mp hc₂
  rw [hval]
  dsimp only
  refine ⟨hwithin, ?_, ?_, ?_⟩
  · linear_combination hc₀ + h * hc₁ + g * hc₂ - c₂ * hg - c₁ * hh - c₀ * hp₂
  · linear_combination hc₁ + f * hc₂ - c₂ * hf - c₁ * hp₁
  · linear_combination hc₂

/-! ## The residuals -/

/-- A curve, at a temperature from the mean. -/
def Coef.curve (coef : Coef K) (x : K) : K := coef.c0 + coef.c1 * x + coef.c2 * x ^ 2

/-- The weighted sum of the squares of what a curve leaves. -/
def residuals (mean : SomVec K) (data : Fin SOM_NODE_CNT → SomVec K) (coef : Coef K) : K :=
  ∑ i, (data i).weight * ((data i).comp - mean.comp - coef.curve ((data i).temp - mean.temp)) ^ 2

variable {mean data}

theorem residuals_eq (coef : Coef K) :
    residuals mean data coef = (points mean data).energy ((points mean data).error coef.poly) := by
  refine Finset.sum_congr rfl fun i _ => ?_
  unfold Points.error Coef.poly
  rw [eval_quad]
  rfl

end

/-! ## The fit -/

section

variable [Field K] [LinearOrder K]

/-- At least `n` different temperatures have a positive weight. -/
def Weighted (n : ℕ) (data : Fin SOM_NODE_CNT → SomVec K) : Prop :=
  n ≤ ((Finset.univ.filter fun i => 0 < (data i).weight).image fun i => (data i).temp).card

instance (n : ℕ) (data : Fin SOM_NODE_CNT → SomVec K) : Decidable (Weighted n data) :=
  inferInstanceAs (Decidable (_ ≤ _))

variable [IsStrictOrderedRing K] {mean : SomVec K} {data : Fin SOM_NODE_CNT → SomVec K} {n : ℕ}
  {P : Points (Fin SOM_NODE_CNT) K}

omit [IsStrictOrderedRing K] in
/-- The places are shifted by the mean. -/
theorem Weighted.spread (h : Weighted n data) : (points mean data).Spread n := by
  have himage : (Finset.univ.filter fun i => 0 < (data i).weight).image
      (fun i => (data i).temp - mean.temp) =
        ((Finset.univ.filter fun i => 0 < (data i).weight).image fun i => (data i).temp).image
          (· - mean.temp) := by
    rw [Finset.image_image]
    rfl
  refine h.trans (le_of_eq ?_)
  show _ = ((Finset.univ.filter fun i => 0 < (data i).weight).image
    (fun i => (data i).temp - mean.temp)).card
  rw [himage, Finset.card_image_of_injective _ (sub_left_injective)]

/-- **Every pivot is the energy of a polynomial.** -/
theorem pivots_pos (hw : ∀ i ∈ P.s, 0 ≤ P.w i) (hspread : P.Spread 3) {f g h p₁ : K}
    (hf : f = P.moment 3 / P.moment 4) (hg : g = P.moment 2 / P.moment 4)
    (hp₁ : p₁ = P.moment 2 - f * P.moment 3) (hh : h = (P.moment 1 - g * P.moment 3) / p₁) :
    0 < P.moment 4 ∧ 0 < p₁ ∧
      0 < P.moment 0 - g * P.moment 2 - h * (P.moment 1 - f * P.moment 2) := by
  have henergy : ∀ a b c, ¬(a = 0 ∧ b = 0 ∧ c = 0) →
      0 < P.energy fun i => (quad a b c).eval (P.x i) := fun a b c hne =>
    Points.energy_pos hw hspread (degree_quad_lt a b c) (mt quad_eq_zero_iff.mp hne)
  -- the polynomials are X², X and 1, each without its part along those before it
  have h₀ : 0 < P.moment 4 := by
    calc 0 < P.energy fun i => (quad 0 0 1).eval (P.x i) := henergy 0 0 1 (by simp)
      _ = P.moment 4 := by rw [P.energy_quad]; ring
  replace hf : f * P.moment 4 = P.moment 3 := (eq_div_iff h₀.ne').mp hf
  replace hg : g * P.moment 4 = P.moment 2 := (eq_div_iff h₀.ne').mp hg
  have h₁ : 0 < p₁ := by
    calc 0 < P.energy fun i => (quad 0 1 (-f)).eval (P.x i) := henergy 0 1 (-f) (by simp)
      _ = p₁ := by
        rw [P.energy_quad]
        linear_combination f * hf - hp₁
  replace hh : h * p₁ = P.moment 1 - g * P.moment 3 := (eq_div_iff h₁.ne').mp hh
  refine ⟨h₀, h₁, ?_⟩
  calc 0 < P.energy fun i => (quad 1 (-h) (h * f - g)).eval (P.x i) :=
        henergy 1 (-h) (h * f - g) (by simp)
    _ = P.moment 0 - g * P.moment 2 - h * (P.moment 1 - f * P.moment 2) := by
        rw [P.energy_quad]
        linear_combination (h * f - g) * (h * hf - hg) + h * hh - h ^ 2 * hp₁

/-- **The elimination gives the least squares.** -/
theorem solve_normal (hw : ∀ i ∈ P.s, 0 ≤ P.w i) (hspread : P.Spread 3) :
    (momentCells P).solve.Within (· ≠ 0) ∧ P.Normal 3 (momentCells P).solve.val.poly := by
  obtain ⟨h₀, h₁, h₂⟩ := pivots_pos hw hspread rfl rfl rfl rfl
  generalize hfit : (momentCells P).solve = fit
  have hspec : fit.Within (· ≠ 0) ∧
      fit.val.c0 * P.moment 0 + fit.val.c1 * P.moment 1 + fit.val.c2 * P.moment 2 =
        P.crossMoment 0 ∧
      fit.val.c0 * P.moment 1 + fit.val.c1 * P.moment 2 + fit.val.c2 * P.moment 3 =
        P.crossMoment 1 ∧
      fit.val.c0 * P.moment 2 + fit.val.c1 * P.moment 3 + fit.val.c2 * P.moment 4 =
        P.crossMoment 2 := by
    rw [← hfit]
    exact solve_spec rfl rfl rfl rfl rfl h₀.ne' h₁.ne' h₂.ne'
  obtain ⟨hwithin, heq₀, heq₁, heq₂⟩ := hspec
  refine ⟨hwithin, fun k hk => ?_⟩
  unfold Coef.poly
  rw [P.sum_error_quad, sub_eq_zero]
  interval_cases k
  · exact heq₀.symm
  · exact heq₁.symm
  · exact heq₂.symm

/-- **`fitQuadratic` fits.** It divides by nothing that is zero, its coefficients are the only ones
with the least residuals, and with them `tcmpEstimate` is the curve. -/
theorem fitQuadratic_least (mean : SomVec K) (data : Fin SOM_NODE_CNT → SomVec K)
    (hw : ∀ i, 0 ≤ (data i).weight) (hdata : Weighted 3 data) :
    (fitQuadratic mean data).Within (· ≠ 0) ∧
      (∀ coef, coef ≠ (fitQuadratic mean data).val →
        residuals mean data (fitQuadratic mean data).val < residuals mean data coef) ∧
      ∀ temp, tcmpEstimate mean (fitQuadratic mean data).val temp =
        mean.comp + (fitQuadratic mean data).val.curve (temp - mean.temp) := by
  have hpoints : ∀ i ∈ (points mean data).s, 0 ≤ (points mean data).w i := fun i _ => hw i
  have hfit : fitQuadratic mean data = (momentCells (points mean data)).solve :=
    congrArg Cells.solve (cells_eq mean data)
  rw [hfit]
  obtain ⟨hwithin, hnormal⟩ := solve_normal hpoints hdata.spread
  generalize (momentCells (points mean data)).solve = fit at hwithin hnormal
  refine ⟨hwithin, fun coef hne => ?_, fun temp => ?_⟩
  · rw [residuals_eq, residuals_eq]
    refine hnormal.energy_lt hpoints hdata.spread (degree_quad_lt _ _ _) (degree_quad_lt _ _ _) ?_
    intro hpoly
    obtain ⟨h0, h1, h2⟩ := quad_inj.mp hpoly
    exact hne (Coef.ext h0 h1 h2)
  · unfold tcmpEstimate Coef.curve
    ring

/-- Nodes on a parabola, three of which have a weight. -/
def parabola : Fin SOM_NODE_CNT → SomVec ℚ := fun i =>
  ⟨i.val, i.val * i.val, if i.val < 3 then 1 else 0⟩

theorem fitQuadratic_least_parabola :
    let fit := fitQuadratic ⟨1, 0, 3⟩ parabola
    fit.Within (· ≠ 0) ∧ fit.val = ⟨1, 2, 1⟩ ∧
      ∀ coef, coef ≠ fit.val →
        residuals ⟨1, 0, 3⟩ parabola fit.val < residuals ⟨1, 0, 3⟩ parabola coef := by
  have h := fitQuadratic_least ⟨1, 0, 3⟩ parabola (by decide +kernel) (by decide +kernel)
  exact ⟨h.1, by decide +kernel, h.2.1⟩

end

end Tcmp

end Gpsdo.Ntp
