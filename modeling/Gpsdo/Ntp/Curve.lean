import Gpsdo.Ntp.Topology

set_option autoImplicit false

/-! # The curve that the temperature compensation publishes (`lib/ntp/tcmp.cpp`)

A regression goes on after `step1` only when the nodes have enough weight. As no node has a weight
of one, that is a weight at five temperatures at least, and the last fit is the parabola with the
least squares through the nodes, with the outliers weighed down. The error that `step8` looks at is
the root of the mean of these squares.
-/

namespace Gpsdo.Ntp

open Tcmp LeastSquares Numeral

namespace Regression

/-! ## Enough weight -/

section

variable {K : Type} [Number K] {libm : Libm K} {s s' : Regression K}
  {h : List (Regression K × RegressionAction K)}

/-- A regression that has got past `step1` has nodes with enough weight. -/
def Enough (s : Regression K) : Prop :=
  0 < s.tasks → 2 ≤ s.regressionStep → ¬(computeMean s.somNode).val.weight < SOM_FILL_REG

theorem enough_runRegression (hi : Inv libm h s) (he : s.Enough) (htasks : 0 < s.tasks) :
    (s.runRegression libm).Enough := by
  unfold Regression.runRegression
  by_cases hlt : s.regressionStep < STEP_CNT
  · rw [dif_pos hlt]
    dsimp only
    have hspec := steps_spec libm ⟨s.regressionStep, hlt⟩ s
    by_cases hexit : (steps libm ⟨s.regressionStep, hlt⟩ s).2 ≠ 0
    · rw [if_pos hexit]
      exact fun h0 => absurd h0 (Nat.lt_irrefl 0)
    · rw [if_neg hexit]
      intro _ htwo
      show ¬(computeMean (steps libm ⟨s.regressionStep, hlt⟩ s).1.somNode).val.weight <
        SOM_FILL_REG
      rw [hspec.somNode]
      have hnext : 2 ≤ s.regressionStep + 1 := by
        rw [← hspec.regressionStep]
        exact htwo
      by_cases hone : s.regressionStep = 1
      · -- this is the activation that looks at the weight
        obtain ⟨w, hw⟩ := hi.work htasks
        have hmean : s.work.mean = (computeMean s.somNode).val := by
          rw [hw, hone]
          rfl
        have hcode : s.step1.2 = 0 := by
          have hk : (⟨s.regressionStep, hlt⟩ : Fin STEP_CNT) = 1 := Fin.ext hone
          rw [hk] at hexit
          exact not_not.mp hexit
        rw [← hmean]
        intro hless
        unfold step1 at hcode
        by_cases hoff : s.work.mean.weight < SOM_FILL_OFF
        · rw [if_pos hoff] at hcode
          exact absurd hcode one_ne_zero
        · rw [if_neg hoff, if_pos hless] at hcode
          exact absurd hcode two_ne_zero
      · exact he htasks (by omega)
  · rw [dif_neg hlt]
    exact fun h0 => absurd h0 (Nat.lt_irrefl 0)

theorem enough_of_run {eeprom : Nodes K} (hrun : Run (step libm) (init libm eeprom) h s) :
    s.Enough := by
  induction hrun with
  | start => exact fun _ h => absurd h (Nat.not_succ_le_zero 1)
  | @next h s a s' hrun hs ih =>
      cases a with
      | update tempValue target weight now =>
          obtain rfl := Option.some.inj hs
          intro _ htwo
          rw [update_regressionStep] at htwo
          exact absurd htwo (by decide)
      | runRegression =>
          unfold step at hs
          by_cases htasks : s.tasks = 0
          · rw [if_pos htasks] at hs
            cases hs
          · rw [if_neg htasks] at hs
            obtain rfl := Option.some.inj hs
            exact enough_runRegression (inv_of_run hrun) ih (Nat.pos_of_ne_zero htasks)

end

/-- Weights below one that add up to four are on five nodes, which have different temperatures. -/
theorem Ordered.weighted {som : Nodes ℝ} (h : Ordered som)
    (hfill : ¬(computeMean som).val.weight < SOM_FILL_REG) : Tcmp.Weighted 5 som := by
  have hsum : (4 : ℝ) ≤ ∑ i, (som i).weight := by
    have hge := not_lt.mp hfill
    rw [computeMean_weight] at hge
    have hfour : (SOM_FILL_REG : ℝ) = 4 := by norm_num [SOM_FILL_REG]
    rw [hfour] at hge
    exact hge
  have hlt : (4 : ℝ) < (Finset.univ.filter fun i => 0 < (som i).weight).card := by
    have hpos : ∑ i ∈ Finset.univ.filter (fun i => 0 < (som i).weight), (som i).weight =
        ∑ i, (som i).weight :=
      Finset.sum_filter_of_ne fun i _ hne => lt_of_le_of_ne (h.weight i).1 (Ne.symm hne)
    have hne : (Finset.univ.filter fun i => 0 < (som i).weight).Nonempty := by
      by_contra hempty
      rw [Finset.not_nonempty_iff_eq_empty.mp hempty, Finset.sum_empty] at hpos
      linarith
    calc (4 : ℝ) ≤ ∑ i ∈ Finset.univ.filter (fun i => 0 < (som i).weight), (som i).weight := by
          rw [hpos]
          exact hsum
      _ < ∑ i ∈ Finset.univ.filter (fun i => 0 < (som i).weight), 1 :=
          Finset.sum_lt_sum_of_nonempty hne fun i _ => (h.weight i).2
      _ = (Finset.univ.filter fun i => 0 < (som i).weight).card := by simp
  unfold Tcmp.Weighted
  rw [Finset.card_image_of_injective _ h.temp.injective]
  exact_mod_cast hlt

/-! ## The error of a fit -/

/-- The error of a fit is the mean of the squares. -/
theorem computeMSE_eq {K : Type} [Field K] (mean : SomVec K) (coef : Coef K)
    (data : Fin SOM_NODE_CNT → SomVec K) :
    (computeMSE mean coef data).val = residuals mean data coef / mean.weight := by
  have hfoldl : ∀ (nodes : List (Fin SOM_NODE_CNT)) (acc : K), nodes.foldl (fun acc i =>
      acc + nodeError mean coef (data i) * nodeError mean coef (data i) * (data i).weight) acc =
      acc + (nodes.map fun i => (data i).weight *
        ((data i).comp - mean.comp - coef.curve ((data i).temp - mean.temp)) ^ 2).sum := by
    intro nodes
    induction nodes with
    | nil => exact fun acc => (add_zero acc).symm
    | cons i nodes ih =>
        intro acc
        rw [List.foldl_cons, ih, List.map_cons, List.sum_cons, ← add_assoc]
        congr 2
        unfold nodeError Coef.curve
        ring
  show (List.finRange SOM_NODE_CNT).foldl _ 0 / mean.weight = _
  rw [hfoldl, zero_add, residuals, Fin.sum_univ_def]

/-! ## One fit -/

/-- The mean, the fit and its error on some nodes divide by nothing that is zero, and the fit is the
only one with the least squares. -/
structure Fitted (data : Nodes ℝ) (mean : SomVec ℝ) (coef : Coef ℝ) (mse : ℝ) : Prop where
  mean_eq : mean = (computeMean data).val
  divisors : (computeMean data).Within (· ≠ 0) ∧ (fitQuadratic mean data).Within (· ≠ 0) ∧
    (computeMSE mean coef data).Within (· ≠ 0)
  least : ∀ coef', coef' ≠ coef → residuals mean data coef < residuals mean data coef'
  mse_eq : mse = residuals mean data coef / ∑ i, (data i).weight

theorem within_computeMean {K : Type} [Field K] {data : Fin SOM_NODE_CNT → SomVec K}
    (h : ∑ i, (data i).weight ≠ 0) : (computeMean data).Within (· ≠ 0) := by
  rw [← computeMean_weight] at h
  unfold computeMean at h ⊢
  simp only [Reading.within_bind, Reading.within_div, Reading.within_pure]
  exact ⟨h, h, trivial⟩

theorem sum_weight_pos {data : Nodes ℝ} (hw : ∀ i, 0 ≤ (data i).weight) {n : ℕ} (hn : 0 < n)
    (hdata : Tcmp.Weighted n data) : 0 < ∑ i, (data i).weight := by
  obtain ⟨_, htemp⟩ := Finset.card_pos.mp (hn.trans_le hdata)
  obtain ⟨i, hi, -⟩ := Finset.mem_image.mp htemp
  exact Finset.sum_pos' (fun i _ => hw i) ⟨i, Finset.mem_univ i, (Finset.mem_filter.mp hi).2⟩

theorem fitted {data : Nodes ℝ} (hw : ∀ i, 0 ≤ (data i).weight) (hdata : Tcmp.Weighted 3 data) :
    let mean := (computeMean data).val
    let coef := (fitQuadratic mean data).val
    Fitted data mean coef (computeMSE mean coef data).val := by
  intro mean coef
  have hsum := sum_weight_pos hw (by decide) hdata
  have hmean : mean.weight = ∑ i, (data i).weight := computeMean_weight data
  have hfit : fitQuadratic mean data = (momentCells (points mean data)).solve :=
    congrArg Cells.solve (cells_eq mean data)
  have hpoints : ∀ i ∈ (points mean data).s, 0 ≤ (points mean data).w i := fun i _ => hw i
  obtain ⟨hwithin, hnormal⟩ := solve_normal hpoints hdata.spread
  rw [← hfit] at hwithin hnormal
  refine ⟨rfl, ⟨within_computeMean hsum.ne', hwithin, ?_⟩, fun coef' hne => ?_, ?_⟩
  · exact (Reading.within_div _ _).mpr (hmean ▸ hsum.ne')
  · rw [residuals_eq, residuals_eq]
    refine hnormal.energy_lt hpoints hdata.spread (degree_quad_lt _ _ _) (degree_quad_lt _ _ _) ?_
    intro hpoly
    obtain ⟨h0, h1, h2⟩ := quad_inj.mp hpoly
    exact hne (Coef.ext h0 h1 h2)
  · rw [← hmean]
    exact computeMSE_eq mean coef data

/-! ## The outliers -/

/-- The fit that the outliers are found with. -/
noncomputable def firstFit (som : Nodes ℝ) : SomVec ℝ × Coef ℝ :=
  ((computeMean som).val, (fitQuadratic (computeMean som).val som).val)

noncomputable def firstMse (som : Nodes ℝ) : ℝ :=
  (computeMSE (firstFit som).1 (firstFit som).2 som).val

/-- The error of a node on the first curve. -/
noncomputable def firstError (som : Nodes ℝ) (i : Fin SOM_NODE_CNT) : ℝ :=
  nodeError (firstFit som).1 (firstFit som).2 (som i)

/-- Not all of the nodes are on the first curve, so that there is an error to compare with. -/
def Scattered (som : Nodes ℝ) : Prop := ∃ i, 0 < (som i).weight ∧ firstError som i ≠ 0

/-- The nodes that are off the first curve lose weight, the more so the farther they are off, and
nothing else changes. -/
structure Reweighed (som scratch : Nodes ℝ) : Prop where
  temp : ∀ i, (scratch i).temp = (som i).temp
  comp : ∀ i, (scratch i).comp = (som i).comp
  weight : ∀ i, (scratch i).weight =
    (som i).weight * Real.exp (-0.25 * firstError som i * firstError som i / firstMse som)
  le : ∀ i, (scratch i).weight ≤ (som i).weight
  lt : ∀ i, 0 < (som i).weight → ((scratch i).weight < (som i).weight ↔ firstError som i ≠ 0)

theorem reweighed_reweigh {libm : Libm ℝ} (hlibm : IsReal libm) {w : Work ℝ} {som : Nodes ℝ}
    (hmean : w.mean = (firstFit som).1) (hcoef : w.coef = (firstFit som).2)
    (hmse : w.mse = firstMse som) (hpos : 0 < firstMse som) (hsom : ∀ i, 0 ≤ (som i).weight) :
    Reweighed som (w.reweigh libm som).scratch := by
  have hweight : ∀ i, ((w.reweigh libm som).scratch i).weight =
      (som i).weight * Real.exp (-0.25 * firstError som i * firstError som i / firstMse som) := by
    intro i
    rw [← hlibm.exp, firstError, ← hmean, ← hcoef, ← hmse]
    rfl
  have hexp : ∀ y : ℝ, -0.25 * y * y / firstMse som ≤ 0 ∧
      (-0.25 * y * y / firstMse som < 0 ↔ y ≠ 0) := by
    intro y
    have hsq : -0.25 * y * y / firstMse som = -(0.25 / firstMse som * y ^ 2) := by ring
    have hquarter : 0 < 0.25 / firstMse som := div_pos (by norm_num) hpos
    rw [hsq, neg_nonpos, neg_lt_zero, mul_pos_iff_of_pos_left hquarter, sq_pos_iff]
    exact ⟨mul_nonneg hquarter.le (sq_nonneg y), Iff.rfl⟩
  refine ⟨fun _ => rfl, fun _ => rfl, hweight, fun i => ?_, fun i hi => ?_⟩
  · rw [hweight]
    exact mul_le_of_le_one_right (hsom i) (Real.exp_le_one_iff.mpr (hexp _).1)
  · rw [hweight, mul_lt_iff_lt_one_right hi, Real.exp_lt_one_iff]
    exact (hexp _).2

theorem Reweighed.nonneg {som scratch : Nodes ℝ} (h : Reweighed som scratch)
    (hsom : ∀ i, 0 ≤ (som i).weight) (i : Fin SOM_NODE_CNT) : 0 ≤ (scratch i).weight := by
  rw [h.weight]
  exact mul_nonneg (hsom i) (Real.exp_nonneg _)

/-- No node loses all of its weight. -/
theorem Reweighed.weighted {som scratch : Nodes ℝ} (h : Reweighed som scratch) {n : ℕ}
    (hw : Tcmp.Weighted n som) : Tcmp.Weighted n scratch := by
  unfold Tcmp.Weighted at *
  have htemp : (fun i => (scratch i).temp) = fun i => (som i).temp := funext h.temp
  have hpos : ∀ i, 0 < (scratch i).weight ↔ 0 < (som i).weight := by
    intro i
    rw [h.weight]
    exact mul_pos_iff_of_pos_right (Real.exp_pos _)
  simp only [hpos, htemp]
  exact hw

/-! ## Every run -/

/-- What `step8` finds, and what it makes of it. -/
structure Publishes (som : Nodes ℝ) (s s' : Regression ℝ) : Prop where
  enough : Tcmp.Weighted 5 som
  first : 0 < firstMse som ∧ Fitted som (firstFit som).1 (firstFit som).2 (firstMse som)
  reweighed : Reweighed som s.work.scratch
  fitted : Fitted s.work.scratch s.work.mean s.work.coef s.work.mse
  rmse : s'.tcmpRmse = Real.sqrt s.work.mse
  published : if s'.tcmpRmse ≤ REG_MIN_RMSE then
      s'.tcmpMean = s.work.mean ∧ s'.tcmpCoeff = s.work.coef
    else s'.tcmpMean = s.tcmpMean ∧ s'.tcmpCoeff = s.tcmpCoeff

theorem first_mse_pos {som : Nodes ℝ} (hw : ∀ i, 0 ≤ (som i).weight) (hsom : Scattered som)
    {mse : ℝ} (hfit : Fitted som (firstFit som).1 (firstFit som).2 mse) : 0 < mse := by
  obtain ⟨i, hi, herror⟩ := hsom
  have hsum : 0 < ∑ i, (som i).weight :=
    Finset.sum_pos' (fun i _ => hw i) ⟨i, Finset.mem_univ i, hi⟩
  rw [hfit.mse_eq]
  refine div_pos (Finset.sum_pos' (fun i _ => mul_nonneg (hw i) (sq_nonneg _))
    ⟨i, Finset.mem_univ i, mul_pos hi (sq_pos_iff.mpr ?_)⟩) hsum
  convert herror using 1
  unfold firstError nodeError Coef.curve
  ring

/-- The steps up to the third one have made the first fit, on the nodes. -/
theorem progress_first (libm : Libm ℝ) (som : Nodes ℝ) (w : Work ℝ) :
    (progress libm som 4 w).mean = (firstFit som).1 ∧
      (progress libm som 4 w).coef = (firstFit som).2 ∧
      (progress libm som 4 w).mse = firstMse som := by
  simp only [progress, workStep, Work.computeMean, Work.fitQuadratic, Work.computeMSE, firstFit,
    firstMse, and_self]

/-- The steps after them have made the last fit, on the scratch variables. -/
theorem progress_last {K : Type} [Number K] (libm : Libm K) (som : Nodes K) (w : Work K) :
    (progress libm som 8 w).scratch = ((progress libm som 4 w).reweigh libm som).scratch ∧
      (progress libm som 8 w).mean = (computeMean (progress libm som 8 w).scratch).val ∧
      (progress libm som 8 w).coef =
        (fitQuadratic (progress libm som 8 w).mean (progress libm som 8 w).scratch).val ∧
      (progress libm som 8 w).mse = (computeMSE (progress libm som 8 w).mean
        (progress libm som 8 w).coef (progress libm som 8 w).scratch).val := by
  simp only [progress, workStep, Work.computeMean, Work.fitQuadratic, Work.computeMSE,
    Work.reweigh, and_self]

theorem somInv_of_run {libm : Libm ℝ} (hlibm : IsReal libm) {eeprom : Nodes ℝ}
    (heeprom : libm.isfinite (eeprom 0).temp = true → Ordered eeprom) {s : Regression ℝ}
    {h : List (Regression ℝ × RegressionAction ℝ)}
    (hweight : ∀ p ∈ h, (DeviceAction.act p.2).Weighted)
    (hrun : Run (step libm) (init libm eeprom) h s) : SomInv libm s :=
  hrun.invariant_of_forall (I := fun _ s => SomInv libm s)
    (C := fun _ a => (DeviceAction.act a).Weighted) hweight (somInv_init hlibm heeprom)
    fun _ _ _ _ hi ha hs => hi.step hlibm ha hs

/-- **Every published curve is a fit.** From nodes that the firmware saved, in every interleaving of
samples and regression steps: when a task comes to `step8`, five nodes at least have weight, no
quotient of the regression had a zero below it, the curve is the only parabola with the least
squares through the nodes with the outliers weighed down, and the error is the root of the mean of
these squares. -/
theorem publishes_of_run {libm : Libm ℝ} (hlibm : IsReal libm) {eeprom : Nodes ℝ}
    (heeprom : libm.isfinite (eeprom 0).temp = true → Ordered eeprom) {s s' : Regression ℝ}
    {h : List (Regression ℝ × RegressionAction ℝ)}
    (hweight : ∀ p ∈ h, (DeviceAction.act p.2).Weighted)
    (hrun : Run (step libm) (init libm eeprom) h s)
    (hfinite : libm.isfinite (s.somNode 0).temp = true) (hscattered : Scattered s.somNode)
    (hstep : step libm s .runRegression = some s') (h8 : s.regressionStep = 8) :
    Publishes s.somNode s s' := by
  have hordered := (somInv_of_run hlibm heeprom hweight hrun).somNode hfinite
  have hnonneg := fun i => (hordered.weight i).1
  have htasks : 0 < s.tasks := by
    refine Nat.pos_of_ne_zero fun h0 => ?_
    unfold step at hstep
    rw [if_pos h0] at hstep
    cases hstep
  have henough := hordered.weighted (enough_of_run hrun htasks (by omega))
  have hdata : Tcmp.Weighted 3 s.somNode := le_trans (by decide) henough
  have hfirst : Fitted s.somNode (firstFit s.somNode).1 (firstFit s.somNode).2
    (firstMse s.somNode) := fitted hnonneg hdata
  have hpos := first_mse_pos hnonneg hscattered hfirst
  -- the last fit, from the scratch variables
  obtain ⟨w, hw⟩ := (inv_of_run hrun).work htasks
  rw [h8] at hw
  obtain ⟨hscratch, hmean, hcoef, hmse⟩ := progress_last libm s.somNode w
  obtain ⟨hmean', hcoef', hmse'⟩ := progress_first libm s.somNode w
  rw [← hw] at hscratch hmean hcoef hmse
  have hreweighed : Reweighed s.somNode s.work.scratch := by
    rw [hscratch]
    exact reweighed_reweigh hlibm hmean' hcoef' hmse' hpos hnonneg
  have hfit := fitted (hreweighed.nonneg hnonneg) (hreweighed.weighted hdata)
  dsimp only at hfit
  rw [← hmean, ← hcoef, ← hmse] at hfit
  obtain rfl : s' = { (s.step8 libm).1 with regressionStep := 9 } := by
    unfold step at hstep
    rw [if_neg htasks.ne', runRegression_next (k := 8) h8 (step8_code libm s)] at hstep
    exact (Option.some.inj hstep).symm
  have hrmse : (s.step8 libm).1.tcmpRmse = Real.sqrt s.work.mse := by
    rw [← hlibm.sqrt]
    unfold step8
    dsimp only
    split <;> rfl
  refine ⟨henough, ⟨hpos, hfirst⟩, hreweighed, hfit, hrmse, ?_⟩
  · show if (s.step8 libm).1.tcmpRmse ≤ REG_MIN_RMSE then
        (s.step8 libm).1.tcmpMean = _ ∧ (s.step8 libm).1.tcmpCoeff = _
      else (s.step8 libm).1.tcmpMean = _ ∧ (s.step8 libm).1.tcmpCoeff = _
    unfold step8
    dsimp only
    by_cases hless : libm.sqrt s.work.mse ≤ REG_MIN_RMSE
    · rw [if_pos hless]
      exact (if_pos hless).mpr ⟨rfl, rfl⟩
    · rw [if_neg hless]
      exact (if_neg hless).mpr ⟨rfl, rfl⟩

/-- Nodes with one that is off the line of the others. -/
noncomputable def outlierNodes : Nodes ℝ := fun i => ⟨i.val, if i.val = 0 then 1 else 0, 1 / 2⟩

theorem outlierNodes_ordered : Ordered outlierNodes where
  temp _ _ hij := Nat.cast_lt.mpr hij
  weight _ := by norm_num [outlierNodes]

/-- No parabola has the values 1, 0, 0 and 0 in a row. -/
theorem outlierNodes_scattered : Scattered outlierNodes := by
  by_contra hno
  have hzero : ∀ i, nodeError (firstFit outlierNodes).1 (firstFit outlierNodes).2
      (outlierNodes i) = 0 := by
    intro i
    by_contra hne
    exact hno ⟨i, by norm_num [outlierNodes], hne⟩
  have h0 := hzero ⟨0, by decide⟩
  have h1 := hzero ⟨1, by decide⟩
  have h2 := hzero ⟨2, by decide⟩
  have h3 := hzero ⟨3, by decide⟩
  generalize firstFit outlierNodes = fit at h0 h1 h2 h3
  norm_num [nodeError, outlierNodes] at h0 h1 h2 h3
  have hthird : (1 : ℝ) = 0 := by linear_combination h0 - 3 * h1 + 3 * h2 - h3
  exact one_ne_zero hthird

theorem publishes_of_run_outlier : ∃ h s s', Run (step realLibm) (init realLibm outlierNodes) h s ∧
    step realLibm s .runRegression = some s' ∧ Publishes outlierNodes s s' := by
  have hweight : (computeMean outlierNodes).val.weight = 8 := by
    refine (computeMean_weight outlierNodes).trans ?_
    norm_num [outlierNodes]
  have hoff : ¬(computeMean outlierNodes).val.weight < SOM_FILL_OFF := by
    rw [hweight]
    norm_num [SOM_FILL_OFF]
  have hreg : ¬(computeMean outlierNodes).val.weight < SOM_FILL_REG := by
    rw [hweight]
    norm_num [SOM_FILL_REG]
  obtain ⟨h, s, hrun, htasks, h8, hsom, -, hacts⟩ :=
    exists_run_to realLibm rfl hoff hreg 8 (by decide)
  have hstep : step realLibm s .runRegression = some (s.runRegression realLibm) :=
    if_neg (by rw [htasks]; decide)
  refine ⟨h, s, _, hrun, hstep, ?_⟩
  rw [← hsom]
  refine publishes_of_run ⟨rfl, rfl, rfl⟩ (fun _ => outlierNodes_ordered) ?_ hrun rfl
    (by rw [hsom]; exact outlierNodes_scattered) hstep h8
  intro p hp
  rw [hacts p hp]
  exact trivial

end Regression

end Gpsdo.Ntp
