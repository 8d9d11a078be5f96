import Gpsdo.Basic.Numeral
import Gpsdo.Basic.Run
import Gpsdo.Basic.Span
import Gpsdo.Ntp.FitLinear
import Gpsdo.Ntp.Pll
import Gpsdo.Ntp.Source

set_option autoImplicit false

/-! # The filter of a source (`updateDelay`, `updateFilter` in `lib/ntp/Source.cpp`)

A line is fitted to the offsets in the ring, with less weight on samples whose delay is unusual.
From five samples on, the samples are weighed anew one after the other by their distance from the line,
with a fit after each. The numbers are exact here; the root is an argument, and a division records
its divisor.
-/

namespace Gpsdo.Ntp

open FitLinear LeastSquares Numeral

variable {K : Type} [Field K] [LinearOrder K] [IsStrictOrderedRing K] [FloorRing K]

/-! ## Code -/

section

omit [LinearOrder K] [IsStrictOrderedRing K] [FloorRing K]

def toFloatU (value : BitVec 64) : K :=
  (value.extractLsb' 32 32).toNat + 1 / 2 ^ 32 * (value.extractLsb' 0 32).toNat

def toFloat (value : BitVec 64) : K :=
  if value.toInt < 0 then -toFloatU (-value) else toFloatU value

/-- The number that `pollEnd` stores. -/
def Sample.delaySeconds (smp : Sample) : K := 1 / 2 ^ 31 * (smp.delay.toInt : K)

end

local instance neZero_history : NeZero 16 := ⟨by decide⟩

/-- `ringSamples[(ringPtr - i) & RING_MASK]` -/
def Source.sample {F : Type} (src : Source F) (i : ℕ) : Sample :=
  src.ringSamples (src.ringPtr - Fin.ofNat 16 i)

/-- What `updateFilter` sets, and the weights that it ends with. -/
structure FilterStats (K : Type) where
  span : BitVec 32
  lastOffset : K
  lastDelay : K
  delayMean : K
  delayStdDev : K
  offsetMean : K
  offsetStdDev : K
  freqDrift : K
  freqSkew : K
  used : ℕ
  score : K
  w : ℕ → K

namespace Filter

def CLK_NANOS : K := 8

/-- `updateDelay`: the mean and the variance. -/
def updateDelay (n : ℕ) (delay : ℕ → K) : Reading K (K × K) := do
  let mean ← Reading.div ((List.range n).foldl (fun mean i => mean + delay i) 0) (n : K)
  let var ← Reading.div ((List.range n).foldl (fun var i =>
    var + (delay i - mean) * (delay i - mean)) 0) ((n : K) - 1)
  pure (mean, var)

/-- The loop that weighs the samples by their delay. -/
def weigh (n : ℕ) (delay : ℕ → K) (delayMean delayVariance : K) : Reading K (ℕ → K) :=
  (List.range n).foldlM (fun w i => do
    let jitter := delay i - delayMean
    let v ← Reading.div delayVariance (delayVariance + jitter * jitter)
    pure (Function.update w i v)) fun _ => 0

/-- A turn of the loop that weighs the samples by their distance from the line. -/
def turn (n : ℕ) (x y : ℕ → K) (s : (ℕ → K) × LinearFit K) (i : ℕ) :
    Reading K ((ℕ → K) × LinearFit K) := do
  let error := lineError x y s.2.offset s.2.slope i
  let v ← Reading.div s.2.offsetVariance (s.2.offsetVariance + error * error)
  let w := Function.update s.1 i v
  let fit ← fitLinear n x y w
  pure (w, fit)

/-- The part of `updateFilter` for sufficient samples. -/
def reweigh (n : ℕ) (x y w : ℕ → K) (fit : LinearFit K) : Reading K ((ℕ → K) × LinearFit K) :=
  let offsetVar := fit.offsetVariance + CLK_NANOS / 10 ^ 9 * CLK_NANOS / 10 ^ 9
  (List.range n).foldlM (turn n x y) (w, { fit with offsetVariance := offsetVar })

/-- The statistics of the samples from how old they are, and from their offsets since the last. -/
def fitSamples (sqrtf : K → K) (n : ℕ) (delay x y : ℕ → K) :
    Reading K (K × K × (ℕ → K) × LinearFit K) := do
  let (delayMean, delayVar) ← updateDelay n delay
  let delayStdDev := sqrtf delayVar
  let delayVariance := delayStdDev + CLK_NANOS / 10 ^ 9
  let delayVariance := delayVariance * delayVariance
  let w ← weigh n delay delayMean delayVariance
  let fit ← fitLinear n x y w
  let (w, fit) ← if 4 < n then reweigh n x y w fit else pure (w, fit)
  pure (delayMean, delayStdDev, w, fit)

/-- The ages of samples. -/
def ages (sample : ℕ → Sample) (i : ℕ) : K :=
  toFloatU ((sample 0).taiLocal - (sample i).taiLocal)

/-- The offsets of samples, from the last. -/
def offsets (sample : ℕ → Sample) (i : ℕ) : K :=
  toFloat ((sample i).getOffset - (sample 0).getOffset)

/-- `updateFilter`, for the samples of the ring with the last one first. -/
def updateFilter (sqrtf : K → K) (sampleCount : ℕ) (sample : ℕ → Sample)
    (rootDelay rootDispersion : BitVec 32) : Reading K (FilterStats K) := do
  let (delayMean, delayStdDev, w, fit) ←
    fitSamples sqrtf sampleCount (fun i => (sample i).delaySeconds) (ages sample) (offsets sample)
  let lastOffset := toFloat (sample 0).getOffset
  let offsetStdDev := sqrtf fit.offsetVariance
  let weight := (List.range sampleCount).foldl (fun weight i => weight + w i) 0
  pure {
    span := ((sample 0).taiLocal - (sample (sampleCount - 1)).taiLocal).extractLsb' 32 32
    lastOffset := lastOffset
    lastDelay := (sample 0).delaySeconds
    delayMean := delayMean
    delayStdDev := delayStdDev
    offsetMean := fit.offset + lastOffset
    offsetStdDev := offsetStdDev
    freqDrift := fit.slope
    freqSkew := sqrtf fit.slopeVariance
    used := ⌈weight⌉.toNat
    score := |1 / 2 ^ 16 * (rootDelay.toNat : K)| + 1 / 2 ^ 16 * (rootDispersion.toNat : K) +
      delayMean + delayStdDev + offsetStdDev
    w := w }

/-! ## Fits -/

section

omit [FloorRing K]

variable {n : ℕ} {x y w : ℕ → K} {fit : LinearFit K}

/-- Samples of different ages. -/
def TwoAges (n : ℕ) (x : ℕ → K) : Prop := ∃ i < n, ∃ j < n, x i ≠ x j

/-- The samples lie on a line. -/
def Collinear (n : ℕ) (x y : ℕ → K) : Prop := ∃ a b, ∀ i < n, y i = a + b * x i

/-- Every sample has a weight, and none more than one. -/
def Weights (n : ℕ) (w : ℕ → K) : Prop := ∀ i < n, 0 < w i ∧ w i ≤ 1

omit [LinearOrder K] [IsStrictOrderedRing K] in
theorem fitLinear_within_iff (n : ℕ) (x y w : ℕ → K) :
    (fitLinear n x y w).Within (· ≠ 0) ↔
      (points n x y w).moment 0 ≠ 0 ∧ (points n x y w).moment 2 / (points n x y w).moment 0 -
        (points n x y w).moment 1 / (points n x y w).moment 0 *
          ((points n x y w).moment 1 / (points n x y w).moment 0) ≠ 0 := by
  unfold fitLinear
  rw [sums_eq]
  simp only [Reading.val_div, Reading.within_bind, Reading.within_div, Reading.within_pure]
  tauto

/-- What is computed for samples that all have a weight. -/
structure Fits (n : ℕ) (x y w : ℕ → K) (fit : LinearFit K) : Prop where
  least : ∀ a b, (a, b) ≠ (fit.offset, fit.slope) →
    lineResiduals n x y w fit.offset fit.slope < lineResiduals n x y w a b
  offsetVariance : 0 ≤ fit.offsetVariance
  slopeVariance : 0 ≤ fit.slopeVariance
  exact_iff : fit.offsetVariance = 0 ↔ ∀ i < n, y i = fit.offset + fit.slope * x i

omit [IsStrictOrderedRing K] in
theorem Weights.spread (hw : Weights n w) (hx : TwoAges n x) : (points n x y w).Spread 2 := by
  obtain ⟨i, hi, j, hj, hne⟩ := hx
  exact TwoPlaces.spread ⟨i, hi, j, hj, (hw i hi).1, (hw j hj).1, hne⟩

theorem fitLinear_fits (hw : Weights n w) (hx : TwoAges n x) :
    (fitLinear n x y w).Within (· ≠ 0) ∧ Fits n x y w (fitLinear n x y w).val := by
  have hnonneg : ∀ i ∈ (points n x y w).s, 0 ≤ (points n x y w).w i := fun i hi =>
    (hw i (Finset.mem_range.mp hi)).1.le
  obtain ⟨h₀, h₂, hv⟩ := moments_pos hnonneg (hw.spread (y := y) hx)
  obtain ⟨hslope, hoffset, hslopeVariance, hoffsetVariance, -⟩ :=
    fitLinear_spec n x y w (sums_eq n x y w)
  obtain ⟨heq₀, heq₁⟩ := closed_form h₀.ne' hv.ne' hslope hoffset
  have hnormal : (points n x y w).Normal 2
      (quad (fitLinear n x y w).val.offset (fitLinear n x y w).val.slope 0) :=
    Points.normal_line h₀.ne' (by linear_combination heq₀)
      (by linear_combination (points n x y w).moment 0 * heq₁ - (points n x y w).moment 1 * heq₀)
  have hresiduals : 0 ≤ lineResiduals n x y w (fitLinear n x y w).val.offset
      (fitLinear n x y w).val.slope := by
    rw [lineResiduals_eq]
    exact Points.energy_nonneg hnonneg _
  have hslope0 : 0 ≤ (fitLinear n x y w).val.slopeVariance := by
    rw [hslopeVariance]
    exact div_nonneg (div_nonneg hresiduals h₀.le) hv.le
  have hsquares := div_pos h₂ h₀
  refine ⟨(fitLinear_within_iff n x y w).mpr ⟨h₀.ne', hv.ne'⟩, fun a b hne => ?_, ?_, hslope0, ?_⟩
  · rw [lineResiduals_eq, lineResiduals_eq]
    refine hnormal.energy_lt hnonneg (hw.spread hx) (degree_line_lt _ _) (degree_line_lt _ _) ?_
    intro hline
    obtain ⟨ha, hb, -⟩ := quad_inj.mp hline
    exact hne (Prod.ext ha hb)
  · rw [hoffsetVariance]
    exact mul_nonneg hslope0 hsquares.le
  · rw [hoffsetVariance, mul_eq_zero, or_iff_left hsquares.ne', hslopeVariance, div_eq_zero_iff,
      div_eq_zero_iff, or_iff_left hv.ne', or_iff_left h₀.ne',
      lineResiduals_eq_zero_iff fun i hi => (hw i hi).1.le]
    exact forall₂_congr fun i hi => imp_iff_right (hw i hi).1

/-- The line through samples that lie on one. -/
theorem Fits.collinear (hfit : Fits n x y w fit) (hw : Weights n w) (h : Collinear n x y) :
    fit.offsetVariance = 0 ∧ ∀ i < n, y i = fit.offset + fit.slope * x i := by
  obtain ⟨a, b, hline⟩ := h
  have hnonneg : ∀ i < n, 0 ≤ w i := fun i hi => (hw i hi).1.le
  have hzero : lineResiduals n x y w a b = 0 :=
    (lineResiduals_eq_zero_iff hnonneg a b).mpr fun i hi _ => hline i hi
  have hsame : (a, b) = (fit.offset, fit.slope) := by
    by_contra hne
    have hlt := hfit.least a b hne
    have hge : 0 ≤ lineResiduals n x y w fit.offset fit.slope := by
      rw [lineResiduals_eq]
      exact Points.energy_nonneg (fun i hi => hnonneg i (Finset.mem_range.mp hi)) _
    rw [hzero] at hlt
    exact absurd hge (not_le.mpr hlt)
  obtain ⟨ha, hb⟩ := Prod.mk.inj hsame
  rw [ha, hb] at hline
  exact ⟨hfit.exact_iff.mpr hline, hline⟩

/-- Samples of one age have no slope. -/
theorem not_within_fitLinear (hx : ∀ i < n, x i = 0) : ¬(fitLinear n x y w).Within (· ≠ 0) := by
  rw [fitLinear_within_iff]
  have hmoment : ∀ k, k ≠ 0 → (points n x y w).moment k = 0 := by
    intro k hk
    refine Finset.sum_eq_zero fun i hi => ?_
    show w i * x i ^ k = 0
    rw [hx i (Finset.mem_range.mp hi), zero_pow hk, mul_zero]
  rintro ⟨-, hv⟩
  rw [hmoment 1 one_ne_zero, hmoment 2 two_ne_zero] at hv
  exact hv (by ring)

/-! ## The loops -/

/-- A weight is one when nothing is wrong with the sample, and less else. -/
theorem weight_mem {v d : K} (hv : 0 < v) :
    v + d * d ≠ 0 ∧ 0 < v / (v + d * d) ∧ v / (v + d * d) ≤ 1 := by
  have hd := mul_self_nonneg d
  have hpos : 0 < v + d * d := by linarith
  exact ⟨hpos.ne', div_pos hv hpos, (div_le_one hpos).mpr (by linarith)⟩

omit [IsStrictOrderedRing K] in
theorem Weights.update (hw : Weights n w) {v : K} (hv : 0 < v ∧ v ≤ 1) (i : ℕ) :
    Weights n (Function.update w i v) := by
  intro j hj
  by_cases hji : j = i
  · subst hji
    rw [Function.update_self]
    exact hv
  · rw [Function.update_of_ne hji]
    exact hw j hj

/-- The weights by the delay. -/
theorem weigh_spec (n : ℕ) (delay : ℕ → K) (delayMean : K) {delayVariance : K}
    (hvar : 0 < delayVariance) : (weigh n delay delayMean delayVariance).Within (· ≠ 0) ∧
      Weights n (weigh n delay delayMean delayVariance).val := by
  have hloop : ∀ (l : List ℕ) (w : ℕ → K), (∀ i, i ∉ l → i < n → 0 < w i ∧ w i ≤ 1) →
      (l.foldlM (fun w i => do
        let jitter := delay i - delayMean
        let v ← Reading.div delayVariance (delayVariance + jitter * jitter)
        pure (Function.update w i v) : (ℕ → K) → ℕ → Reading K (ℕ → K)) w).Within (· ≠ 0) ∧
      Weights n (l.foldlM (fun w i => do
        let jitter := delay i - delayMean
        let v ← Reading.div delayVariance (delayVariance + jitter * jitter)
        pure (Function.update w i v) : (ℕ → K) → ℕ → Reading K (ℕ → K)) w).val := by
    intro l
    induction l with
    | nil => exact fun w hw => ⟨Reading.within_pure w, fun i hi => hw i List.not_mem_nil hi⟩
    | cons i l ih =>
        intro w hw
        obtain ⟨hne, hmem⟩ := weight_mem (d := delay i - delayMean) hvar
        have hnext := ih (Function.update w i
          (delayVariance / (delayVariance + (delay i - delayMean) * (delay i - delayMean))))
          fun j hj hlt => by
            by_cases hji : j = i
            · subst hji
              rw [Function.update_self]
              exact hmem
            · rw [Function.update_of_ne hji]
              exact hw j (List.not_mem_cons_of_ne_of_not_mem hji hj) hlt
        rw [List.foldlM_cons]
        simp only [Reading.within_bind, Reading.val_bind, Reading.within_div, Reading.within_pure,
          Reading.val_div, Reading.val_pure]
        exact ⟨⟨⟨hne, trivial⟩, hnext.1⟩, hnext.2⟩
  exact hloop (List.range n) _ fun i hi hlt => absurd (List.mem_range.mpr hlt) hi

/-- What holds before every turn of the second loop: the weights, and the line that was fitted last
or before the loop. -/
structure Turning (n : ℕ) (x y : ℕ → K) (s : (ℕ → K) × LinearFit K) : Prop where
  weights : Weights n s.1
  offset : s.2.offset = (fitLinear n x y s.1).val.offset
  slope : s.2.slope = (fitLinear n x y s.1).val.slope
  offsetVariance : 0 < s.2.offsetVariance

theorem clk_nanos_pos : (0 : K) < CLK_NANOS / 10 ^ 9 := by
  unfold CLK_NANOS
  positivity

/-- The loop starts with a variance that is not zero. -/
theorem Turning.start (hw : Weights n w) (hx : TwoAges n x) :
    Turning n x y (w, { (fitLinear n x y w).val with offsetVariance :=
      (fitLinear n x y w).val.offsetVariance + CLK_NANOS / 10 ^ 9 * CLK_NANOS / 10 ^ 9 }) := by
  obtain ⟨-, hfit⟩ := fitLinear_fits (y := y) hw hx
  have hfloor : (0 : K) < CLK_NANOS / 10 ^ 9 * CLK_NANOS / 10 ^ 9 := by
    rw [mul_div_assoc]
    exact mul_pos clk_nanos_pos clk_nanos_pos
  exact ⟨hw, rfl, rfl, add_pos_of_nonneg_of_pos hfit.offsetVariance hfloor⟩

omit [LinearOrder K] [IsStrictOrderedRing K] in
/-- The weights and the fit after a turn. -/
theorem turn_val (n : ℕ) (x y : ℕ → K) (s : (ℕ → K) × LinearFit K) (i : ℕ) :
    (turn n x y s i).val.2 = (fitLinear n x y (turn n x y s i).val.1).val := rfl

omit [LinearOrder K] [IsStrictOrderedRing K] in
/-- The divisors of a turn. -/
theorem turn_within_iff (n : ℕ) (x y : ℕ → K) (s : (ℕ → K) × LinearFit K) (i : ℕ) :
    (turn n x y s i).Within (· ≠ 0) ↔
      s.2.offsetVariance + lineError x y s.2.offset s.2.slope i *
          lineError x y s.2.offset s.2.slope i ≠ 0 ∧
        (fitLinear n x y (turn n x y s i).val.1).Within (· ≠ 0) := by
  unfold turn
  simp only [Reading.within_bind, Reading.within_div, Reading.within_pure, and_true]
  rfl

theorem Turning.turn {s : (ℕ → K) × LinearFit K} (hs : Turning n x y s) (hx : TwoAges n x)
    (hline : ¬Collinear n x y) (i : ℕ) :
    (Filter.turn n x y s i).Within (· ≠ 0) ∧ Turning n x y (Filter.turn n x y s i).val := by
  obtain ⟨hne, hmem⟩ := weight_mem (d := lineError x y s.2.offset s.2.slope i) hs.offsetVariance
  have hw := hs.weights.update hmem i
  obtain ⟨hwithin, hfit⟩ := fitLinear_fits (y := y) hw hx
  exact ⟨(turn_within_iff n x y s i).mpr ⟨hne, hwithin⟩, hw, rfl, rfl,
    lt_of_le_of_ne hfit.offsetVariance fun h0 => hline ⟨_, _, hfit.exact_iff.mp h0.symm⟩⟩

theorem foldlM_turn {s : (ℕ → K) × LinearFit K} (hs : Turning n x y s) (hx : TwoAges n x)
    (hline : ¬Collinear n x y) (l : List ℕ) :
    (l.foldlM (Filter.turn n x y) s).Within (· ≠ 0) ∧
      Weights n (l.foldlM (Filter.turn n x y) s).val.1 ∧
      (l ≠ [] → (l.foldlM (Filter.turn n x y) s).val.2 =
        (fitLinear n x y (l.foldlM (Filter.turn n x y) s).val.1).val) := by
  induction l generalizing s with
  | nil => exact ⟨Reading.within_pure s, hs.weights, fun h => absurd rfl h⟩
  | cons i l ih =>
      obtain ⟨hwithin, hnext⟩ := hs.turn hx hline i
      obtain ⟨hrest, hw, hlast⟩ := ih hnext
      rw [List.foldlM_cons, Reading.within_bind, Reading.val_bind]
      refine ⟨⟨hwithin, hrest⟩, hw, fun _ => ?_⟩
      cases l with
      | nil => rfl
      | cons j l => exact hlast (List.cons_ne_nil j l)

/-- The second loop. -/
theorem reweigh_spec (hw : Weights n w) (hx : TwoAges n x) (hline : ¬Collinear n x y) :
    let r := reweigh n x y w (fitLinear n x y w).val
    r.Within (· ≠ 0) ∧ Weights n r.val.1 ∧ r.val.2 = (fitLinear n x y r.val.1).val := by
  have hn : List.range n ≠ [] := by
    obtain ⟨i, hi, -⟩ := hx
    rw [Ne, List.range_eq_nil]
    omega
  obtain ⟨hwithin, hweights, hlast⟩ :=
    foldlM_turn (Turning.start hw hx) hx hline (List.range n)
  exact ⟨hwithin, hweights, hlast hn⟩

/-- Samples on a line make the second turn divide by zero. -/
theorem not_within_reweigh (hw : Weights n w) (hx : TwoAges n x) (hline : Collinear n x y)
    (hn : 1 < n) : ¬(reweigh n x y w (fitLinear n x y w).val).Within (· ≠ 0) := by
  obtain ⟨m, rfl⟩ : ∃ m, n = m + 2 := ⟨n - 2, by omega⟩
  have hs := Turning.start (y := y) hw hx
  generalize hstart : (w, { (fitLinear (m + 2) x y w).val with offsetVariance :=
    (fitLinear (m + 2) x y w).val.offsetVariance + CLK_NANOS / 10 ^ 9 * CLK_NANOS / 10 ^ 9 }) = s
    at hs
  have hw₁ : Weights (m + 2) (turn (m + 2) x y s 0).val.1 :=
    hs.weights.update (weight_mem hs.offsetVariance).2 0
  obtain ⟨-, hfit₁⟩ := fitLinear_fits (y := y) hw₁ hx
  -- the fit of the first turn is exact
  obtain ⟨hzero, hexact⟩ := hfit₁.collinear hw₁ hline
  have herror : lineError x y (turn (m + 2) x y s 0).val.2.offset
      (turn (m + 2) x y s 0).val.2.slope 1 = 0 := by
    have hone := hexact 1 (by omega)
    rw [turn_val, lineError, hone]
    ring
  have hrange : List.range (m + 2) = 0 :: 1 :: (List.range m).map (· + 2) := by
    rw [List.range_succ_eq_map, List.range_succ_eq_map, List.map_cons, List.map_map]
    rfl
  unfold reweigh
  dsimp only
  rw [hstart, hrange, List.foldlM_cons, Reading.within_bind, List.foldlM_cons, Reading.within_bind]
  rintro ⟨-, hsecond, -⟩
  refine ((turn_within_iff _ _ _ _ _).mp hsecond).1 ?_
  rw [herror, turn_val, hzero]
  ring

/-! ## The statistics -/

variable {sqrtf : K → K} {delay : ℕ → K}

omit [LinearOrder K] [IsStrictOrderedRing K] in
theorem updateDelay_within_iff (n : ℕ) (delay : ℕ → K) :
    (updateDelay n delay).Within (· ≠ 0) ↔ (n : K) ≠ 0 ∧ (n : K) - 1 ≠ 0 := by
  unfold updateDelay
  simp only [Reading.within_bind, Reading.within_div, Reading.within_pure, and_true]

theorem updateDelay_nonneg (hn : 1 < n) (delay : ℕ → K) : 0 ≤ (updateDelay n delay).val.2 := by
  have hone : (1 : K) < n := by exact_mod_cast hn
  show 0 ≤ (List.range n).foldl (fun var i => var + (delay i - _) * (delay i - _)) 0 / ((n : K) - 1)
  rw [foldl_range_add]
  exact div_nonneg (Finset.sum_nonneg fun i _ => mul_self_nonneg _) (by linarith)

/-- What becomes of the weights and the fit, when there is no division by zero. -/
structure Fitted (n : ℕ) (x y : ℕ → K) (r : K × K × (ℕ → K) × LinearFit K) : Prop where
  weights : Weights n r.2.2.1
  fit : r.2.2.2 = (fitLinear n x y r.2.2.1).val
  delayStdDev : 0 ≤ r.2.1

/-- **When a filter divides by zero**: when all samples are of one age, and when more than four
samples lie on a line. -/
theorem fitSamples_spec (hroot : IsRoot sqrtf) (n : ℕ) (delay y : ℕ → K) (hx0 : x 0 = 0) :
    ((fitSamples sqrtf n delay x y).Within (· ≠ 0) ↔
      TwoAges n x ∧ ¬(4 < n ∧ Collinear n x y)) ∧
    ((fitSamples sqrtf n delay x y).Within (· ≠ 0) →
      Fitted n x y (fitSamples sqrtf n delay x y).val) := by
  have hages : ¬TwoAges n x → ∀ i < n, x i = 0 := fun h i hi => by
    by_contra hne
    exact h ⟨i, hi, 0, Nat.zero_lt_of_lt hi, by rwa [hx0]⟩
  by_cases hx : TwoAges n x
  · have hn : 1 < n := by
      obtain ⟨i, hi, j, hj, hne⟩ := hx
      have hij : i ≠ j := fun h => hne (congrArg x h)
      omega
    have hdelay : (updateDelay n delay).Within (· ≠ 0) := by
      have hone : (1 : K) < n := by exact_mod_cast hn
      exact (updateDelay_within_iff n delay).mpr
        ⟨(zero_lt_one.trans hone).ne', sub_ne_zero.mpr hone.ne'⟩
    obtain ⟨hstd, -⟩ := hroot _ (updateDelay_nonneg hn delay)
    generalize hvariance : (sqrtf (updateDelay n delay).val.2 + CLK_NANOS / 10 ^ 9) *
      (sqrtf (updateDelay n delay).val.2 + CLK_NANOS / 10 ^ 9) = delayVariance
    have hpos : 0 < delayVariance := by
      rw [← hvariance]
      exact mul_self_pos.mpr (add_pos_of_nonneg_of_pos hstd clk_nanos_pos).ne'
    obtain ⟨hweigh, hw⟩ := weigh_spec n delay (updateDelay n delay).val.1 hpos
    obtain ⟨hfit, -⟩ := fitLinear_fits (y := y) hw hx
    unfold fitSamples
    simp only [Reading.within_bind, Reading.val_bind, hvariance]
    by_cases hmany : 4 < n
    · rw [if_pos hmany, Reading.within_bind, Reading.val_bind]
      by_cases hline : Collinear n x y
      · have hnot := not_within_reweigh (y := y) hw hx hline hn
        exact ⟨iff_of_false (fun h => hnot h.2.2.2.1) fun h => h.2 ⟨hmany, hline⟩,
          fun h => absurd h.2.2.2.1 hnot⟩
      · obtain ⟨hwithin, hweights, hlast⟩ := reweigh_spec hw hx hline
        exact ⟨iff_of_true ⟨hdelay, hweigh, hfit, hwithin, Reading.within_pure _⟩
          ⟨hx, fun h => hline h.2⟩, fun _ => ⟨hweights, hlast, hstd⟩⟩
    · rw [if_neg hmany, Reading.within_bind, Reading.val_bind]
      exact ⟨iff_of_true ⟨hdelay, hweigh, hfit, Reading.within_pure _, Reading.within_pure _⟩
        ⟨hx, fun h => hmany h.1⟩, fun _ => ⟨hw, rfl, hstd⟩⟩
  · have hnot : ¬(fitSamples sqrtf n delay x y).Within (· ≠ 0) := by
      unfold fitSamples
      simp only [Reading.within_bind]
      exact fun h => not_within_fitLinear (hages hx) h.2.2.1
    exact ⟨iff_of_false hnot fun h => hx h.1, fun h => absurd h hnot⟩

end

/-! ## The window -/

/-- What happens to the ring: a sample is written, or the clock is stepped. -/
inductive Action
  | sample (smp : Sample)
  | applyOffset (offset : BitVec 64)

section

variable {F : Type}

def step (src : Source F) : Action → Option (Source F)
  | .sample smp => some (src.advanceFilter.setSample smp)
  | .applyOffset offset => some (src.applyOffset offset)

/-- The samples of a run by the clock as it is now, newest first. -/
def samples : List (Source F × Action) → List Sample
  | [] => []
  | (_, .sample smp) :: h => smp :: samples h
  | (_, .applyOffset offset) :: h =>
      (samples h).map fun smp => { smp with taiLocal := smp.taiLocal + offset }

/-- The ring holds the last sixteen samples. -/
structure Window (h : List (Source F × Action)) (src : Source F) : Prop where
  sampleCount : src.sampleCount = min MAX_HISTORY (samples h).length
  sample : ∀ i < src.sampleCount, (samples h)[i]? = some (src.sample i)

theorem sample_setSample (src : Source F) (smp : Sample) {i : ℕ} (hi : i < MAX_HISTORY) :
    (src.advanceFilter.setSample smp).sample i = if i = 0 then smp else src.sample (i - 1) :=
  update_sub_ofNat src.ringSamples src.ringPtr smp hi

theorem window_of_run {s₀ s : Source F} {h : List (Source F × Action)}
    (h0 : s₀.sampleCount = 0) (hrun : Run step s₀ h s) : Window h s := by
  refine hrun.invariant (I := Window) ⟨h0, fun i hi => absurd hi (by omega)⟩ ?_
  intro h s a s' hi hs
  cases a with
  | sample smp =>
      obtain rfl := Option.some.inj hs
      have hcount : (s.advanceFilter.setSample smp).sampleCount =
          min MAX_HISTORY (samples h).length.succ := by
        have hold := hi.sampleCount
        unfold Source.setSample Source.advanceFilter
        dsimp only
        split <;> omega
      refine ⟨hcount, fun i hlt => ?_⟩
      rw [hcount] at hlt
      rw [sample_setSample s smp (hlt.trans_le (min_le_left _ _))]
      cases i with
      | zero => rfl
      | succ i =>
          refine hi.sample i ?_
          rw [hi.sampleCount]
          omega
  | applyOffset offset =>
      obtain rfl := Option.some.inj hs
      refine ⟨?_, fun i hlt => ?_⟩
      · show s.sampleCount = min MAX_HISTORY ((samples h).map _).length
        rw [List.length_map]
        exact hi.sampleCount
      · show ((samples h).map _)[i]? = _
        rw [List.getElem?_map, hi.sample i hlt]
        rfl

end

/-! ## The filter of a run -/

omit [LinearOrder K] [IsStrictOrderedRing K] [FloorRing K] in
theorem toFloatU_eq [CharZero K] (v : BitVec 64) : toFloatU v = (v.toNat : K) / 2 ^ 32 := by
  have hsplit : v.toNat = (v.extractLsb' 32 32).toNat * 2 ^ 32 + (v.extractLsb' 0 32).toNat := by
    have hlt := v.isLt
    rw [BitVec.extractLsb'_toNat, BitVec.extractLsb'_toNat, Nat.shiftRight_eq_div_pow,
      Nat.shiftRight_zero]
    omega
  have hpow : (2 : K) ^ 32 ≠ 0 := pow_ne_zero _ two_ne_zero
  unfold toFloatU
  rw [hsplit, eq_div_iff hpow, Nat.cast_add, Nat.cast_mul, Nat.cast_pow, Nat.cast_ofNat, add_mul,
    mul_right_comm, one_div_mul_cancel hpow, one_mul]

omit [LinearOrder K] [IsStrictOrderedRing K] [FloorRing K] in
theorem toFloatU_inj [CharZero K] {v v' : BitVec 64} :
    toFloatU (K := K) v = toFloatU v' ↔ v = v' := by
  refine ⟨fun h => BitVec.eq_of_toNat_eq ?_, fun h => congrArg _ h⟩
  rw [toFloatU_eq, toFloatU_eq, div_left_inj' (pow_ne_zero _ two_ne_zero)] at h
  exact_mod_cast h

/-- Samples of different times. -/
def TwoTimes (n : ℕ) (sample : ℕ → Sample) : Prop :=
  ∃ i < n, ∃ j < n, (sample i).taiLocal ≠ (sample j).taiLocal

omit [LinearOrder K] [IsStrictOrderedRing K] [FloorRing K] in
theorem twoAges_iff [CharZero K] (n : ℕ) (sample : ℕ → Sample) :
    TwoAges n (ages (K := K) sample) ↔ TwoTimes n sample := by
  unfold TwoAges TwoTimes ages
  simp only [Ne, toFloatU_inj, sub_right_inj]

/-- What the statistics are, when there is no division by zero. -/
structure Filtered (n : ℕ) (sample : ℕ → Sample) (stats : FilterStats K) : Prop where
  weights : Weights n stats.w
  /-- The line is the best one for the weights. -/
  least : ∀ a b, (a, b) ≠ (stats.offsetMean - stats.lastOffset, stats.freqDrift) →
    lineResiduals n (ages sample) (offsets sample) stats.w (stats.offsetMean - stats.lastOffset)
        stats.freqDrift < lineResiduals n (ages sample) (offsets sample) stats.w a b
  /-- No more samples are used than there are. -/
  used : 1 ≤ stats.used ∧ stats.used ≤ n
  deviations : 0 ≤ stats.delayStdDev ∧ 0 ≤ stats.offsetStdDev ∧ 0 ≤ stats.freqSkew

variable {sqrtf : K → K}

omit [IsStrictOrderedRing K] in
theorem updateFilter_within_iff (sqrtf : K → K) (n : ℕ) (sample : ℕ → Sample)
    (rootDelay rootDispersion : BitVec 32) :
    (updateFilter sqrtf n sample rootDelay rootDispersion).Within (· ≠ 0) ↔
      (fitSamples sqrtf n (fun i => (sample i).delaySeconds) (ages sample)
        (offsets sample)).Within (· ≠ 0) := by
  unfold updateFilter
  rw [Reading.within_bind, and_iff_left (Reading.within_pure _)]

theorem updateFilter_spec (hroot : IsRoot sqrtf) (n : ℕ) (sample : ℕ → Sample)
    (rootDelay rootDispersion : BitVec 32) :
    ((updateFilter sqrtf n sample rootDelay rootDispersion).Within (· ≠ 0) ↔
      TwoTimes n sample ∧ ¬(4 < n ∧ Collinear n (ages (K := K) sample) (offsets sample))) ∧
    ((updateFilter sqrtf n sample rootDelay rootDispersion).Within (· ≠ 0) →
      Filtered n sample (updateFilter sqrtf n sample rootDelay rootDispersion).val) := by
  have hage : ages (K := K) sample 0 = 0 := by
    unfold ages
    rw [sub_self, toFloatU_eq]
    show ((0 : ℕ) : K) / 2 ^ 32 = 0
    rw [Nat.cast_zero, zero_div]
  obtain ⟨hiff, hfitted⟩ := fitSamples_spec hroot n (fun i => (sample i).delaySeconds)
    (offsets sample) hage
  rw [updateFilter_within_iff, hiff, twoAges_iff]
  refine ⟨Iff.rfl, fun hok => ?_⟩
  rw [← twoAges_iff (K := K)] at hok
  have hfit := hfitted (hiff.mpr hok)
  generalize hr : (fitSamples sqrtf n (fun i => (sample i).delaySeconds) (ages sample)
    (offsets sample)).val = r at hfit
  obtain ⟨-, hfits⟩ := fitLinear_fits (y := offsets sample) hfit.weights hok.1
  rw [← hfit.fit] at hfits
  have hsum : 0 < ∑ i ∈ Finset.range n, r.2.2.1 i ∧ ∑ i ∈ Finset.range n, r.2.2.1 i ≤ n := by
    obtain ⟨i, hi, -⟩ := hok.1
    refine ⟨Finset.sum_pos (fun j hj => (hfit.weights j (Finset.mem_range.mp hj)).1)
      ⟨i, Finset.mem_range.mpr hi⟩, ?_⟩
    calc ∑ i ∈ Finset.range n, r.2.2.1 i ≤ ∑ i ∈ Finset.range n, 1 :=
          Finset.sum_le_sum fun j hj => (hfit.weights j (Finset.mem_range.mp hj)).2
      _ = n := by simp
  have hused : (updateFilter sqrtf n sample rootDelay rootDispersion).val.used =
      ⌈∑ i ∈ Finset.range n, r.2.2.1 i⌉.toNat := by
    rw [← hr, ← foldl_range_add]
    rfl
  have hmean : (updateFilter sqrtf n sample rootDelay rootDispersion).val.offsetMean -
      (updateFilter sqrtf n sample rootDelay rootDispersion).val.lastOffset = r.2.2.2.offset := by
    rw [← hr]
    exact add_sub_cancel_right _ _
  have hrest : (updateFilter sqrtf n sample rootDelay rootDispersion).val.w = r.2.2.1 ∧
      (updateFilter sqrtf n sample rootDelay rootDispersion).val.freqDrift = r.2.2.2.slope ∧
      (updateFilter sqrtf n sample rootDelay rootDispersion).val.delayStdDev = r.2.1 ∧
      (updateFilter sqrtf n sample rootDelay rootDispersion).val.offsetStdDev =
        sqrtf r.2.2.2.offsetVariance ∧
      (updateFilter sqrtf n sample rootDelay rootDispersion).val.freqSkew =
        sqrtf r.2.2.2.slopeVariance := by
    rw [← hr]
    exact ⟨rfl, rfl, rfl, rfl, rfl⟩
  obtain ⟨hw, hdrift, hdelay, hstd, hskew⟩ := hrest
  refine ⟨?_, ?_, ?_, ?_⟩
  · rw [hw]
    exact hfit.weights
  · rw [hw, hmean, hdrift]
    exact hfits.least
  · rw [hused]
    have hceil : 1 ≤ ⌈∑ i ∈ Finset.range n, r.2.2.1 i⌉ := Int.one_le_ceil_iff.mpr hsum.1
    have hle : ⌈∑ i ∈ Finset.range n, r.2.2.1 i⌉ ≤ (n : ℤ) := by
      rw [Int.ceil_le]
      exact_mod_cast hsum.2
    omega
  · rw [hdelay, hstd, hskew]
    exact ⟨hfit.delayStdDev, (hroot _ hfits.offsetVariance).1, (hroot _ hfits.slopeVariance).1⟩

/-- The samples after a step of the clock. -/
def shifted (sample : ℕ → Sample) (offset : BitVec 64) (i : ℕ) : Sample :=
  { sample i with taiLocal := (sample i).taiLocal + offset }

omit [IsStrictOrderedRing K] in
/-- A step of the clock changes the last offset, and nothing that is measured from it. -/
theorem updateFilter_shifted (sqrtf : K → K) (n : ℕ) (sample : ℕ → Sample) (offset : BitVec 64)
    (rootDelay rootDispersion : BitVec 32) :
    let r := updateFilter sqrtf n sample rootDelay rootDispersion
    let r' := updateFilter sqrtf n (shifted sample offset) rootDelay rootDispersion
    (r'.Within (· ≠ 0) ↔ r.Within (· ≠ 0)) ∧
      r'.val.offsetMean - r'.val.lastOffset = r.val.offsetMean - r.val.lastOffset ∧
      { r'.val with lastOffset := r.val.lastOffset, offsetMean := r.val.offsetMean } = r.val := by
  intro r r'
  have hages : ages (K := K) (shifted sample offset) = ages sample := by
    funext i
    exact congrArg toFloatU (add_sub_add_right_eq_sub _ _ _)
  have hoffsets : offsets (K := K) (shifted sample offset) = offsets sample := by
    funext i
    unfold offsets Sample.getOffset shifted
    dsimp only
    congr 1
    ring
  have hspan : ∀ k, (shifted sample offset 0).taiLocal - (shifted sample offset k).taiLocal =
      (sample 0).taiLocal - (sample k).taiLocal := fun k => add_sub_add_right_eq_sub _ _ _
  have hdelay : (fun i => (shifted sample offset i).delaySeconds (K := K)) =
      fun i => (sample i).delaySeconds := rfl
  refine ⟨?_, ?_, ?_⟩
  · rw [updateFilter_within_iff, updateFilter_within_iff, hages, hoffsets, hdelay]
  · unfold r r' updateFilter
    rw [hages, hoffsets, hdelay, hspan]
    exact (add_sub_cancel_right _ _).trans (add_sub_cancel_right _ _).symm
  · unfold r r' updateFilter
    rw [hages, hoffsets, hdelay, hspan]
    rfl

/-- **The filter of a run.** The samples that it sees are the last sixteen of the run, by the clock
as it is now. It divides by zero exactly if they all have the same time, or if there are more than
four and they lie on a line. Otherwise every sample has a weight of at most one, the line is the
best one for the weights, and no more samples count as used than there are. A step of the clock
changes the last offset, and nothing that is measured from it. -/
theorem filter_of_run {F : Type} {s₀ s : Source F} {h : List (Source F × Action)}
    (h0 : s₀.sampleCount = 0) (hrun : Run step s₀ h s) (hroot : IsRoot sqrtf)
    (rootDelay rootDispersion : BitVec 32) :
    let r := updateFilter sqrtf s.sampleCount s.sample rootDelay rootDispersion
    Window h s ∧
    (r.Within (· ≠ 0) ↔ TwoTimes s.sampleCount s.sample ∧
      ¬(4 < s.sampleCount ∧ Collinear s.sampleCount (ages (K := K) s.sample) (offsets s.sample))) ∧
    (r.Within (· ≠ 0) → Filtered s.sampleCount s.sample r.val) ∧
    ∀ offset, let s' := s.applyOffset offset
      let r' := updateFilter sqrtf s'.sampleCount s'.sample rootDelay rootDispersion
      (r'.Within (· ≠ 0) ↔ r.Within (· ≠ 0)) ∧
        r'.val.offsetMean - r'.val.lastOffset = r.val.offsetMean - r.val.lastOffset ∧
        { r'.val with lastOffset := r.val.lastOffset, offsetMean := r.val.offsetMean } = r.val := by
  intro r
  obtain ⟨hiff, hfiltered⟩ := updateFilter_spec hroot s.sampleCount s.sample rootDelay
    rootDispersion
  refine ⟨window_of_run h0 hrun, hiff, hfiltered, fun offset => ?_⟩
  have hsample : (s.applyOffset offset).sample = shifted s.sample offset := rfl
  have hcount : (s.applyOffset offset).sampleCount = s.sampleCount := rfl
  dsimp only
  rw [hsample, hcount]
  exact updateFilter_shifted sqrtf s.sampleCount s.sample offset rootDelay rootDispersion

/-- Samples without an offset, one a second. -/
def noOffset (n : ℕ) : List Action :=
  (List.range n).map fun i =>
    .sample ⟨BitVec.ofNat 64 (i * 2 ^ 32), BitVec.ofNat 64 (i * 2 ^ 32), 0⟩

/-- Five of them are too many. -/
theorem filter_of_run_noOffset : ∃ h s, Run step (Source.new 1 RPY_SD_MD_CLIENT : Source Nano) h s ∧
    s.sampleCount = 5 ∧ ¬(updateFilter Real.sqrt s.sampleCount s.sample 0 0).Within (· ≠ 0) := by
  obtain ⟨h, s, hrun, hp⟩ := @exists_run_of_replay _ _ step
    (Source.new 1 RPY_SD_MD_CLIENT : Source Nano) (noOffset 5)
    (fun _ s => decide (s.sampleCount = 5 ∧ ∀ i ∈ List.range 5, (s.sample i).getOffset = 0))
    (by decide +kernel)
  obtain ⟨hcount, hoffset⟩ := of_decide_eq_true hp
  obtain ⟨-, hiff, -⟩ := filter_of_run rfl hrun isRoot_sqrt 0 0
  refine ⟨h, s, hrun, hcount, fun hwithin => (hiff.mp hwithin).2 ⟨?_, 0, 0, fun i hi => ?_⟩⟩
  · rw [hcount]
    decide
  · rw [hcount] at hi
    have hzero : (s.sample i).getOffset - (s.sample 0).getOffset = 0 := by
      rw [hoffset i (List.mem_range.mpr hi), hoffset 0 (by decide)]
      rfl
    rw [offsets, hzero]
    simp [toFloat, toFloatU]

end Filter

end Gpsdo.Ntp
