import Gpsdo.Basic.Run
import Gpsdo.Ntp.Tcmp
import Mathlib.Analysis.Real.Sqrt
import Mathlib.Analysis.SpecialFunctions.Exp
import Mathlib.Data.Fin.VecNotation

set_option autoImplicit false

/-! # The regression of the temperature compensation, step by step (`lib/ntp/tcmp.cpp`)

The fit is spread over nine activations of a task, with a counter and variables that all tasks
share. An update of the nodes resets the counter, and may start a second task. While a task is
scheduled, the counter says which steps were executed since the last update.
-/

namespace Gpsdo.Ntp

open Tcmp

/-! ## Data -/

/-- The operations of `float`. -/
class Number (K : Type) extends Zero K, One K, Add K, Sub K, Mul K, Div K, Neg K, IntCast K,
    OfScientific K, LT K, LE K where
  decLT : DecidableLT K
  decLE : DecidableLE K

instance Number.instDecidableLT {K : Type} [Number K] : DecidableLT K := Number.decLT

instance Number.instDecidableLE {K : Type} [Number K] : DecidableLE K := Number.decLE

/-- The functions of the C library. -/
structure Libm (K : Type) where
  isfinite : K → Bool
  abs : K → K
  exp : K → K
  sqrt : K → K

/-- For the literal of the first node. -/
local instance neZero_nodes : NeZero SOM_NODE_CNT := ⟨by decide⟩

/-- The nodes of the filter. -/
abbrev Nodes (K : Type) := Fin SOM_NODE_CNT → SomVec K

/-- The scratch variables of the regression. -/
structure Work (K : Type) where
  mse : K
  mean : SomVec K
  coef : Coef K
  scratch : Nodes K

/-- The variables of `tcmp.cpp` that the regression has a part in. -/
structure Regression (K : Type) where
  tcmpSaved : BitVec 32
  tcmpMean : SomVec K
  tcmpCoeff : Coef K
  tcmpRmse : K
  somNode : Nodes K
  somResidual : Nodes K
  somNW : Fin SOM_NODE_CNT → K
  /-- The nodes in the EEPROM. -/
  eeprom : Nodes K
  regressionStep : ℕ
  work : Work K
  /-- How many tasks with `runRegression` are scheduled. -/
  tasks : ℕ

/-- What happens: a call of `tcmp::update` at a time, with the temperature of that time, or the
activation of one of the tasks. -/
inductive RegressionAction (K : Type)
  | update (tempValue target weight : K) (now : BitVec 32)
  | runRegression

variable {K : Type} [Number K]

namespace Regression

/-! ## The nodes -/

def SOM_RATE : K := 0.000244140625

def TCMP_SAVE_INTV : BitVec 32 := 3600

def seedSom (temp comp : K) : Nodes K := fun i =>
  ⟨temp + 0.1 * ((i.val : ℤ) - (SOM_NODE_CNT / 2 : ℕ) : ℤ), comp, 0⟩

/-- `accumulate`: the accumulator and its residual -/
def accumulate (accumulator residual delta : K) : K × K :=
  let sum := accumulator + (residual + delta)
  (sum, residual + (delta - (sum - accumulator)))

/-- The loop that locates the nearest node. -/
def nearest (libm : Libm K) (som : Nodes K) (temp : K) : Fin SOM_NODE_CNT :=
  ((List.finRange SOM_NODE_CNT).tail.foldl (fun best i =>
    let diff := libm.abs (temp - (som i).temp)
    if diff < best.2 then (i, diff) else best) (0, libm.abs (temp - (som 0).temp))).1

def updateSom (libm : Libm K) (s : Regression K) (temp comp alpha : K) : Regression K :=
  if !libm.isfinite (s.somNode 0).temp then
    if 0.5 ≤ alpha then { s with somNode := seedSom temp comp } else s
  else
    let best := nearest libm s.somNode temp
    let alpha := alpha * SOM_RATE
    let update := fun i : Fin SOM_NODE_CNT =>
      let node := s.somNode i
      let residual := s.somResidual i
      let w := alpha * s.somNW (if i < best then best - i else i - best)
      (accumulate node.temp residual.temp ((temp - node.temp) * w),
        accumulate node.comp residual.comp ((comp - node.comp) * w),
        accumulate node.weight residual.weight ((1 - node.weight) * w))
    { s with
      somNode := fun i => ⟨(update i).1.1, (update i).2.1.1, (update i).2.2.1⟩
      somResidual := fun i => ⟨(update i).1.2, (update i).2.1.2, (update i).2.2.2⟩ }

/-- `tcmp::update` -/
def update (libm : Libm K) (s : Regression K) (tempValue target weight : K) (now : BitVec 32) :
    Regression K :=
  let s := s.updateSom libm tempValue target weight
  let s := if TCMP_SAVE_INTV < now - s.tcmpSaved then
      { s with tcmpSaved := now, eeprom := s.somNode }
    else s
  if s.regressionStep = 0 then { s with tasks := s.tasks + 1 } else { s with regressionStep := 0 }

/-! ## The steps -/

def SOM_FILL_OFF : K := 0.2

def SOM_FILL_REG : K := 4.0

def REG_MIN_RMSE : K := 250e-9

end Regression

namespace Work

/-- The functions that the steps share write to the scratch variables. -/
def computeMean (w : Work K) (data : Nodes K) : Work K :=
  { w with mean := (Tcmp.computeMean data).val }

def fitQuadratic (w : Work K) (data : Nodes K) : Work K :=
  { w with coef := (Tcmp.fitQuadratic w.mean data).val }

def computeMSE (w : Work K) (data : Nodes K) : Work K :=
  { w with mse := (Tcmp.computeMSE w.mean w.coef data).val }

/-- The loop of `step4` -/
def reweigh (libm : Libm K) (w : Work K) (somNode : Nodes K) : Work K :=
  { w with scratch := fun i =>
      let y := nodeError w.mean w.coef (somNode i)
      { somNode i with weight := (somNode i).weight * libm.exp (-0.25 * y * y / w.mse) } }

end Work

namespace Regression

def step0 (s : Regression K) : Regression K × Int :=
  ({ s with work := s.work.computeMean s.somNode }, 0)

def step1 (s : Regression K) : Regression K × Int :=
  if s.work.mean.weight < SOM_FILL_OFF then (s, 1)
  else if s.work.mean.weight < SOM_FILL_REG then ({ s with tcmpMean := s.work.mean }, 2)
  else (s, 0)

def step2 (s : Regression K) : Regression K × Int :=
  ({ s with work := s.work.fitQuadratic s.somNode }, 0)

def step3 (s : Regression K) : Regression K × Int :=
  ({ s with work := s.work.computeMSE s.somNode }, 0)

def step4 (libm : Libm K) (s : Regression K) : Regression K × Int :=
  ({ s with work := s.work.reweigh libm s.somNode }, 0)

def step5 (s : Regression K) : Regression K × Int :=
  ({ s with work := s.work.computeMean s.work.scratch }, 0)

def step6 (s : Regression K) : Regression K × Int :=
  ({ s with work := s.work.fitQuadratic s.work.scratch }, 0)

def step7 (s : Regression K) : Regression K × Int :=
  ({ s with work := s.work.computeMSE s.work.scratch }, 0)

def step8 (libm : Libm K) (s : Regression K) : Regression K × Int :=
  let s := { s with tcmpRmse := libm.sqrt s.work.mse }
  if s.tcmpRmse ≤ REG_MIN_RMSE then
    ({ s with tcmpMean := s.work.mean, tcmpCoeff := s.work.coef }, 0)
  else (s, 0)

abbrev STEP_CNT : ℕ := 9

def steps (libm : Libm K) : Fin STEP_CNT → Regression K → Regression K × Int :=
  ![step0, step1, step2, step3, step4 libm, step5, step6, step7, step8 libm]

/-- `runCancel(runRegression, nullptr)`, and the reset of the counter: all tasks with the callback
are cancelled, the one that is running too. -/
def stop (s : Regression K) : Regression K := { s with tasks := 0, regressionStep := 0 }

def runRegression (libm : Libm K) (s : Regression K) : Regression K :=
  if h : s.regressionStep < STEP_CNT then
    let r := steps libm ⟨s.regressionStep, h⟩ s
    if r.2 ≠ 0 then r.1.stop else { r.1 with regressionStep := r.1.regressionStep + 1 }
  else s.stop

/-! ## The machine -/

/-- `tcmp::init`, with the nodes that the EEPROM has -/
def init (libm : Libm K) (eeprom : Nodes K) : Regression K where
  tcmpSaved := 0
  tcmpMean := ⟨0, 0, 0⟩
  tcmpCoeff := ⟨0, 0, 0⟩
  tcmpRmse := 0
  somNode := eeprom
  somResidual := fun _ => ⟨0, 0, 0⟩
  somNW := fun i => libm.exp (-2.0 * ((i.val * i.val : ℕ) : ℤ))
  eeprom := eeprom
  regressionStep := 0
  work := ⟨0, ⟨0, 0, 0⟩, ⟨0, 0, 0⟩, fun _ => ⟨0, 0, 0⟩⟩
  tasks := if libm.isfinite (eeprom 0).temp then 1 else 0

def step (libm : Libm K) (s : Regression K) : RegressionAction K → Option (Regression K)
  | .update tempValue target weight now => some (s.update libm tempValue target weight now)
  | .runRegression => if s.tasks = 0 then none else some (s.runRegression libm)

/-! ## What was executed -/

/-- The step that an action executes, with the nodes that it sees. -/
def executes (s : Regression K) : RegressionAction K → List (ℕ × Nodes K)
  | .update _ _ _ _ => []
  | .runRegression => if s.regressionStep < STEP_CNT then [(s.regressionStep, s.somNode)] else []

/-- The steps since the last update of the nodes, oldest first. -/
def sinceUpdate : List (Regression K × RegressionAction K) → List (ℕ × Nodes K)
  | [] => []
  | (_, .update _ _ _ _) :: _ => []
  | (s, .runRegression) :: h => sinceUpdate h ++ executes s .runRegression

/-- What a step does with the scratch variables, on some nodes. -/
def workStep (libm : Libm K) (som : Nodes K) (k : ℕ) (w : Work K) : Work K :=
  match k with
  | 0 => w.computeMean som
  | 2 => w.fitQuadratic som
  | 3 => w.computeMSE som
  | 4 => w.reweigh libm som
  | 5 => w.computeMean w.scratch
  | 6 => w.fitQuadratic w.scratch
  | 7 => w.computeMSE w.scratch
  | _ => w

/-- What the steps before `k` do, one after the other. -/
def progress (libm : Libm K) (som : Nodes K) : ℕ → Work K → Work K
  | 0, w => w
  | k + 1, w => workStep libm som k (progress libm som k w)

variable {libm : Libm K} {s s' : Regression K} {h : List (Regression K × RegressionAction K)}

/-- What every step leaves alone, and what it does with the scratch variables. -/
structure StepSpec (libm : Libm K) (k : ℕ) (s s' : Regression K) : Prop where
  somNode : s'.somNode = s.somNode
  tasks : s'.tasks = s.tasks
  regressionStep : s'.regressionStep = s.regressionStep
  work : s'.work = workStep libm s.somNode k s.work

theorem steps_spec (libm : Libm K) (k : Fin STEP_CNT) (s : Regression K) :
    StepSpec libm k s (steps libm k s).1 := by
  match k with
  | 0 => exact ⟨rfl, rfl, rfl, rfl⟩
  | 1 =>
      show StepSpec libm 1 s s.step1.1
      unfold step1
      split
      · exact ⟨rfl, rfl, rfl, rfl⟩
      · split
        · exact ⟨rfl, rfl, rfl, rfl⟩
        · exact ⟨rfl, rfl, rfl, rfl⟩
  | 2 => exact ⟨rfl, rfl, rfl, rfl⟩
  | 3 => exact ⟨rfl, rfl, rfl, rfl⟩
  | 4 => exact ⟨rfl, rfl, rfl, rfl⟩
  | 5 => exact ⟨rfl, rfl, rfl, rfl⟩
  | 6 => exact ⟨rfl, rfl, rfl, rfl⟩
  | 7 => exact ⟨rfl, rfl, rfl, rfl⟩
  | 8 =>
      show StepSpec libm 8 s (s.step8 libm).1
      unfold step8
      dsimp only
      split
      · exact ⟨rfl, rfl, rfl, rfl⟩
      · exact ⟨rfl, rfl, rfl, rfl⟩

/-! ## The invariant -/

/-- While a task is scheduled, the counter says which steps were executed since the last update, all
of them on the nodes of now, and the scratch variables are what these steps give. -/
structure Inv (libm : Libm K) (h : List (Regression K × RegressionAction K)) (s : Regression K) :
    Prop where
  le : s.regressionStep ≤ STEP_CNT
  idle : s.tasks = 0 → s.regressionStep = 0
  order : 0 < s.tasks → sinceUpdate h = (List.range s.regressionStep).map fun k => (k, s.somNode)
  work : 0 < s.tasks → ∃ w, s.work = progress libm s.somNode s.regressionStep w

/-- With the counter at 0, nothing has to be known. -/
theorem Inv.of_reset (hstep : s.regressionStep = 0) (hh : sinceUpdate h = []) : Inv libm h s where
  le := by rw [hstep]; exact Nat.zero_le _
  idle _ := hstep
  order _ := by rw [hstep, hh]; rfl
  work _ := ⟨s.work, by rw [hstep]; rfl⟩

/-- The counter is 0 after an update. -/
theorem update_regressionStep (s : Regression K) (tempValue target weight : K) (now : BitVec 32) :
    (s.update libm tempValue target weight now).regressionStep = 0 := by
  unfold update
  dsimp only
  generalize (if TCMP_SAVE_INTV < _ then _ else _ : Regression K) = t
  split
  · next h => exact h
  · rfl

/-- **An activation** keeps the invariant. -/
theorem Inv.runRegression (hi : Inv libm h s) (htasks : 0 < s.tasks) :
    Inv libm ((s, .runRegression) :: h) (s.runRegression libm) := by
  -- a step that gives up cancels every task, so that nothing has to be known any more
  have hstopped : ∀ {h} {t : Regression K}, Inv libm h t.stop := fun {h t} =>
    ⟨Nat.zero_le _, fun _ => rfl, fun h => absurd h (Nat.lt_irrefl 0),
      fun h => absurd h (Nat.lt_irrefl 0)⟩
  unfold Regression.runRegression
  by_cases hlt : s.regressionStep < STEP_CNT
  · rw [dif_pos hlt]
    dsimp only
    have hspec := steps_spec libm ⟨s.regressionStep, hlt⟩ s
    generalize steps libm ⟨s.regressionStep, hlt⟩ s = r at hspec
    obtain ⟨hsom, hkept, hstep, hwork⟩ := hspec
    by_cases hexit : r.2 ≠ 0
    · rw [if_pos hexit]
      exact hstopped
    · rw [if_neg hexit]
      obtain ⟨w, hw⟩ := hi.work htasks
      refine ⟨?_, fun h0 => ?_, fun _ => ?_, fun _ => ⟨w, ?_⟩⟩
      · rw [hstep]
        exact hlt
      · exact absurd (hkept.symm.trans h0) htasks.ne'
      · rw [hstep]
        show sinceUpdate h ++ executes s .runRegression = _
        rw [hi.order htasks, executes, if_pos hlt, List.range_succ, List.map_append, hsom]
        rfl
      · rw [hstep, hsom]
        exact hwork.trans (congrArg _ hw)
  · rw [dif_neg hlt]
    exact hstopped

theorem inv_of_run {libm : Libm K} {eeprom : Nodes K}
    (hrun : Run (step libm) (init libm eeprom) h s) : Inv libm h s := by
  refine hrun.invariant (Inv.of_reset rfl rfl) fun h s a s' hi hs => ?_
  cases a with
  | update tempValue target weight now =>
      obtain rfl := Option.some.inj hs
      exact Inv.of_reset (update_regressionStep s tempValue target weight now) rfl
  | runRegression =>
      unfold step at hs
      by_cases htasks : s.tasks = 0
      · rw [if_pos htasks] at hs
        cases hs
      · rw [if_neg htasks] at hs
        obtain rfl := Option.some.inj hs
        exact hi.runRegression (Nat.pos_of_ne_zero htasks)

/-- An activation whose step is not the last and does not give up. -/
theorem runRegression_next {k : Fin STEP_CNT} {libm : Libm K} (hk : s.regressionStep = k)
    (hcode : (steps libm k s).2 = 0) :
    s.runRegression libm = { (steps libm k s).1 with regressionStep := k + 1 } := by
  have hlt : s.regressionStep < STEP_CNT := by rw [hk]; exact k.isLt
  obtain rfl : k = ⟨s.regressionStep, hlt⟩ := Fin.ext hk.symm
  unfold runRegression
  rw [dif_pos hlt]
  dsimp only
  rw [if_neg (not_not.mpr hcode), (steps_spec libm _ s).regressionStep]

theorem step8_code (libm : Libm K) (s : Regression K) : (s.step8 libm).2 = 0 := by
  unfold step8
  dsimp only
  split
  · rfl
  · rfl

/-! ## What is published -/

/-- The whole regression on some nodes: the last mean, the last fit and the error. -/
def regression (libm : Libm K) (som : Nodes K) : SomVec K × Coef K × K :=
  let mean := (computeMean som).val
  let coef := (fitQuadratic mean som).val
  let mse := (computeMSE mean coef som).val
  let scratch : Nodes K := fun i =>
    let y := nodeError mean coef (som i)
    { som i with weight := (som i).weight * libm.exp (-0.25 * y * y / mse) }
  let mean := (computeMean scratch).val
  let coef := (fitQuadratic mean scratch).val
  (mean, coef, (computeMSE mean coef scratch).val)

/-- Eight steps are the whole regression, whatever the scratch variables had before. -/
theorem progress_regression (libm : Libm K) (som : Nodes K) (w : Work K) :
    (progress libm som 8 w).mean = (regression libm som).1 ∧
      (progress libm som 8 w).coef = (regression libm som).2.1 ∧
      (progress libm som 8 w).mse = (regression libm som).2.2 := by
  simp only [progress, workStep, Work.computeMean, Work.fitQuadratic, Work.computeMSE,
    Work.reweigh, regression, and_self]

/-- **Nothing that is published is torn.** When a task comes to `step8`, the steps 0 to 7 were
executed in this order since the last update of the nodes, all of them on the nodes of now; and what
is published is the regression of these nodes, if its error is small enough. -/
theorem step8_of_run (libm : Libm K) (eeprom : Nodes K) {s s' : Regression K}
    {h : List (Regression K × RegressionAction K)} (hrun : Run (step libm) (init libm eeprom) h s)
    (hstep : step libm s .runRegression = some s') (h8 : s.regressionStep = 8) :
    sinceUpdate h = (List.range 8).map (fun k => (k, s.somNode)) ∧
      s'.somNode = s.somNode ∧
      s'.tcmpRmse = libm.sqrt (regression libm s.somNode).2.2 ∧
      if s'.tcmpRmse ≤ REG_MIN_RMSE then
        s'.tcmpMean = (regression libm s.somNode).1 ∧ s'.tcmpCoeff = (regression libm s.somNode).2.1
      else s'.tcmpMean = s.tcmpMean ∧ s'.tcmpCoeff = s.tcmpCoeff := by
  have hi := inv_of_run hrun
  unfold step at hstep
  by_cases htasks : s.tasks = 0
  · rw [if_pos htasks] at hstep
    cases hstep
  rw [if_neg htasks] at hstep
  have hpos := Nat.pos_of_ne_zero htasks
  have horder := hi.order hpos
  obtain ⟨w, hw⟩ := hi.work hpos
  rw [h8] at horder hw
  have hregression := progress_regression libm s.somNode w
  rw [← hw] at hregression
  obtain ⟨hmean, hcoef, hmse⟩ := hregression
  obtain rfl := (Option.some.inj hstep).symm
  have hnext : s.runRegression libm = { (s.step8 libm).1 with regressionStep := 9 } :=
    runRegression_next (k := 8) h8 (step8_code libm s)
  rw [hnext]
  show sinceUpdate h = _ ∧ (s.step8 libm).1.somNode = _ ∧ (s.step8 libm).1.tcmpRmse = _ ∧
    if (s.step8 libm).1.tcmpRmse ≤ REG_MIN_RMSE then
      (s.step8 libm).1.tcmpMean = _ ∧ (s.step8 libm).1.tcmpCoeff = _
    else (s.step8 libm).1.tcmpMean = _ ∧ (s.step8 libm).1.tcmpCoeff = _
  rw [← hmean, ← hcoef, ← hmse]
  refine ⟨horder, (steps_spec libm 8 s).somNode, ?_⟩
  unfold step8
  dsimp only
  by_cases hrmse : libm.sqrt s.work.mse ≤ REG_MIN_RMSE
  · rw [if_pos hrmse]
    exact ⟨rfl, by rw [if_pos hrmse]; exact ⟨rfl, rfl⟩⟩
  · rw [if_neg hrmse]
    exact ⟨rfl, by rw [if_neg hrmse]; exact ⟨rfl, rfl⟩⟩

/-! ## A regression that is not disturbed -/

/-- Enough data for the fit. -/
def Filled (s : Regression K) : Prop :=
  ¬s.work.mean.weight < SOM_FILL_OFF ∧ ¬s.work.mean.weight < SOM_FILL_REG

theorem steps_code (libm : Libm K) (k : Fin STEP_CNT) (h1 : k = 1 → s.Filled) :
    (steps libm k s).2 = 0 := by
  match k with
  | 0 => rfl
  | 1 =>
      obtain ⟨hoff, hreg⟩ := h1 rfl
      show s.step1.2 = 0
      unfold step1
      rw [if_neg hoff, if_neg hreg]
  | 2 => rfl
  | 3 => rfl
  | 4 => rfl
  | 5 => rfl
  | 6 => rfl
  | 7 => rfl
  | 8 => exact step8_code libm s

/-- With enough data in the EEPROM, the activations from the start on come to every step. -/
theorem exists_run_to (libm : Libm K) {eeprom : Nodes K}
    (hfinite : libm.isfinite (eeprom 0).temp = true)
    (hoff : ¬(computeMean eeprom).val.weight < SOM_FILL_OFF)
    (hreg : ¬(computeMean eeprom).val.weight < SOM_FILL_REG) :
    ∀ k ≤ STEP_CNT, ∃ h s, Run (step libm) (init libm eeprom) h s ∧ s.tasks = 1 ∧
      s.regressionStep = k ∧ s.somNode = eeprom ∧
      s.work = progress libm eeprom k (init libm eeprom).work ∧
      ∀ p ∈ h, p.2 = .runRegression := by
  intro k
  induction k with
  | zero => exact fun _ => ⟨[], _, .start, if_pos hfinite, rfl, rfl, rfl, by simp⟩
  | succ k ih =>
      intro hk
      obtain ⟨h, s, hrun, htasks, hstep, hsom, hwork, hacts⟩ := ih (Nat.le_of_succ_le hk)
      have hcode : (steps libm ⟨k, hk⟩ s).2 = 0 := by
        refine steps_code libm _ fun h1 => ?_
        obtain rfl : k = 1 := congrArg Fin.val h1
        unfold Filled
        rw [hwork]
        exact ⟨hoff, hreg⟩
      have hspec := steps_spec libm ⟨k, hk⟩ s
      have hnext := runRegression_next (k := ⟨k, hk⟩) hstep hcode
      refine ⟨_, s.runRegression libm, .next hrun (?_ : step libm s .runRegression = _), ?_⟩
      · exact if_neg (by rw [htasks]; decide)
      · rw [hnext]
        refine ⟨hspec.tasks.trans htasks, rfl, hspec.somNode.trans hsom, ?_,
          List.forall_mem_cons.mpr ⟨rfl, hacts⟩⟩
        exact hspec.work.trans (by rw [hsom, hwork]; rfl)

end Regression

/-! ## Real numbers -/

noncomputable instance : Number ℝ where
  decLT := inferInstance
  decLE := inferInstance

/-- The functions of the C library, on real numbers. -/
noncomputable def realLibm : Libm ℝ := ⟨fun _ => true, abs, Real.exp, Real.sqrt⟩

namespace Regression

/-- Nodes with a full weight. -/
noncomputable def fullNodes : Nodes ℝ := fun i => ⟨i.val, 0, 1⟩

theorem step8_of_run_full :
    ∃ h s s', Run (step realLibm) (init realLibm fullNodes) h s ∧ s.regressionStep = 8 ∧
      step realLibm s .runRegression = some s' ∧
      sinceUpdate h = (List.range 8).map (fun k => (k, s.somNode)) ∧ s'.somNode = s.somNode := by
  have hweight : (computeMean fullNodes).val.weight = 16 :=
    (computeMean_weight fullNodes).trans (by simp [fullNodes])
  have hoff : ¬(16 : ℝ) < SOM_FILL_OFF := by
    show ¬(16 : ℝ) < 0.2
    norm_num
  have hreg : ¬(16 : ℝ) < SOM_FILL_REG := by
    show ¬(16 : ℝ) < 4.0
    norm_num
  rw [← hweight] at hoff hreg
  obtain ⟨h, s, hrun, htasks, h8, -⟩ := exists_run_to realLibm rfl hoff hreg 8 (by decide)
  have hstep : step realLibm s .runRegression = some (s.runRegression realLibm) :=
    if_neg (by rw [htasks]; decide)
  obtain ⟨horder, hsom, -⟩ := step8_of_run realLibm fullNodes hrun hstep h8
  exact ⟨h, s, _, hrun, h8, hstep, horder, hsom⟩

end Regression

end Gpsdo.Ntp
