import Gpsdo.Basic.LeastSquares
import Gpsdo.Basic.Numeral
import Gpsdo.Basic.Span
import Gpsdo.Ntp.Pll
import Gpsdo.Ntp.Tcmp

set_option autoImplicit false

/-! # The compensation for the temperature (`runTemperature`, `runCompensation`)

One task puts the temperature into a ring of the last 256. Another one fits a line to them, looks up
its value at the newest one in the curve that the regression has published, and trims the
compensated clock by that. The numbers are exact here; the root is an argument.
-/

namespace Gpsdo.Ntp

open Tcmp LeastSquares Numeral

variable {K : Type} [Field K] [LinearOrder K] [IsStrictOrderedRing K] [FloorRing K]

/-! ## Data -/

namespace Compensation

abbrev RING_SIZE : ℕ := 256

/-- The calls that wait for the ring to fill. -/
def INIT_COUNT : ℕ := 68

end Compensation

open Compensation

local instance neZero_tempRing : NeZero RING_SIZE := ⟨by decide⟩

/-- The variables of `tcmp.cpp` that the two tasks have a part in, and the trim of the compensated
clock. -/
structure Compensation (K : Type) where
  ringPos : Fin RING_SIZE
  tempRing : Fin RING_SIZE → K
  tempValue : K
  tempNoise : K
  initCounter : ℕ
  tcmpValue : K
  tcmpMean : SomVec K
  tcmpCoeff : Coef K
  compTrim : BitVec 32

/-- What happens: the sensor is read, the clock is trimmed, or a regression is published. -/
inductive CompensationAction (K : Type)
  | runTemperature (temp : K)
  | runCompensation
  | publish (mean : SomVec K) (coef : Coef K)

namespace Compensation

/-- The static memory. -/
def init : Compensation K := ⟨0, fun _ => 0, 0, 0, 0, 0, ⟨0, 0, 0⟩, ⟨0, 0, 0⟩, 0⟩

/-! ## The tasks -/

def runTemperature (s : Compensation K) (temp : K) : Compensation K :=
  let head := s.ringPos + 1
  { s with tempRing := Function.update s.tempRing head temp, ringPos := head }

/-- `tempRing[(head - i) & RING_MASK]` -/
def temp (s : Compensation K) (i : ℕ) : K := s.tempRing (s.ringPos - Fin.ofNat RING_SIZE i)

section

variable (K)

def cc : K := RING_SIZE

def xc_ : K := 1 / 2 * cc K * (cc K - 1)

def xx_ : K := 2 * (cc K - 1 / 2) * xc_ K / 3

def xc : K := xc_ K / cc K

def xx : K := xx_ K / cc K

end

/-- The first loop of `runCompensation`. -/
def sums (s : Compensation K) : K × K :=
  (List.range RING_SIZE).foldl (fun (yc, yx) i => (yc + s.temp i, yx + s.temp i * i)) (0, 0)

/-- The second loop of `runCompensation`. -/
def squares (s : Compensation K) (offset slope : K) : K :=
  (List.range RING_SIZE).foldl (fun mse i =>
    let error := s.temp i - offset - i * slope
    mse + error * error) 0

def runCompensation (sqrtf : K → K) (s : Compensation K) : Compensation K :=
  -- wait for ring to fill with valid data
  if s.initCounter < INIT_COUNT then { s with initCounter := s.initCounter + 1 }
  else
    let yc := s.sums.1 / cc K
    let yx := s.sums.2 / cc K
    -- compute offset and slope
    let slope := (yx - yc * xc K) / (xx K - xc K * xc K)
    let offset := yc - xc K * slope
    -- compute mean-squared error
    let mse := s.squares offset slope / cc K
    -- compute variance
    let slopeVariance := mse / (xx K - xc K * xc K)
    let offsetVariance := slopeVariance * xx K
    -- update temperature compensation
    let trim := toInt32 (2 ^ 32 * tcmpEstimate s.tcmpMean s.tcmpCoeff offset)
    { s with
      compTrim := trim, tcmpValue := 1 / 2 ^ 32 * (trim.toInt : K), tempValue := offset,
      tempNoise := sqrtf offsetVariance }

def step (sqrtf : K → K) (s : Compensation K) : CompensationAction K → Option (Compensation K)
  | .runTemperature temp => some (s.runTemperature temp)
  | .runCompensation => some (s.runCompensation sqrtf)
  | .publish mean coef => some { s with tcmpMean := mean, tcmpCoeff := coef }

/-! ## What a run did -/

abbrev History (K : Type) := List (Compensation K × CompensationAction K)

/-- The temperatures that were read, newest first. -/
def temps : History K → List K
  | [] => []
  | (_, .runTemperature temp) :: h => temp :: temps h
  | (_, _) :: h => temps h

/-- The calls of `runCompensation`. -/
def calls : History K → ℕ
  | [] => 0
  | (_, .runCompensation) :: h => calls h + 1
  | (_, _) :: h => calls h

/-- The curve that was published last. -/
def curve : History K → SomVec K × Coef K
  | [] => (⟨0, 0, 0⟩, ⟨0, 0, 0⟩)
  | (_, .publish mean coef) :: _ => (mean, coef)
  | (_, _) :: h => curve h

/-- The last temperatures as points: the place of one is how many there are after it. -/
def tempPoints (l : List K) : Points ℕ K where
  s := Finset.range RING_SIZE
  x k := k
  y k := l.getD k 0
  w _ := 1

/-! ## The line -/

section

omit [LinearOrder K] [IsStrictOrderedRing K] [FloorRing K]

variable {s : Compensation K} {l : List K}

theorem sums_eq (hring : ∀ k < RING_SIZE, s.temp k = l.getD k 0) :
    s.sums = ((tempPoints l).crossMoment 0, (tempPoints l).crossMoment 1) := by
  have hloop : ∀ n, (List.range n).foldl
      (fun (a : K × K) i => (a.1 + s.temp i, a.2 + s.temp i * i)) (0, 0) =
        (∑ k ∈ Finset.range n, s.temp k, ∑ k ∈ Finset.range n, s.temp k * k) := by
    intro n
    induction n with
    | zero => rfl
    | succ n ih =>
        rw [List.range_succ, List.foldl_append, ih, Finset.sum_range_succ, Finset.sum_range_succ]
        rfl
  unfold sums Points.crossMoment
  refine (hloop RING_SIZE).trans (congrArg₂ Prod.mk ?_ ?_)
  · refine Finset.sum_congr rfl fun k hk => ?_
    rw [hring k (Finset.mem_range.mp hk), pow_zero, mul_one]
    exact (one_mul _).symm
  · refine Finset.sum_congr rfl fun k hk => ?_
    rw [hring k (Finset.mem_range.mp hk), pow_one]
    exact congrArg (· * _) (one_mul _).symm

theorem squares_eq (hring : ∀ k < RING_SIZE, s.temp k = l.getD k 0) (offset slope : K) :
    s.squares offset slope =
      (tempPoints l).energy ((tempPoints l).error (quad offset slope 0)) := by
  unfold squares Points.energy Points.error
  rw [foldl_range_add]
  refine Finset.sum_congr rfl fun k hk => ?_
  rw [hring k (Finset.mem_range.mp hk), eval_quad]
  show _ = 1 * (l.getD k 0 - (offset + slope * k + 0 * (k : K) ^ 2)) ^ 2
  ring

theorem moment_eq (l : List K) (n : ℕ) (m : ℕ)
    (hsum : ∑ k ∈ Finset.range RING_SIZE, k ^ n = m) : (tempPoints l).moment n = m := by
  rw [← hsum]
  unfold Points.moment
  push_cast
  exact Finset.sum_congr rfl fun k _ => one_mul _

theorem moment_zero (l : List K) : (tempPoints l).moment 0 = 256 :=
  moment_eq l 0 256 (by decide +kernel)

theorem moment_one (l : List K) : (tempPoints l).moment 1 = 32640 :=
  moment_eq l 1 32640 (by decide +kernel)

theorem moment_two (l : List K) : (tempPoints l).moment 2 = 5559680 :=
  moment_eq l 2 5559680 (by decide +kernel)

end

/-- The line of the code: its value at the newest temperature, and its slope. -/
def line (l : List K) : K × K :=
  let yc := (tempPoints l).crossMoment 0 / cc K
  let yx := (tempPoints l).crossMoment 1 / cc K
  let slope := (yx - yc * xc K) / (xx K - xc K * xc K)
  (yc - xc K * slope, slope)

omit [IsStrictOrderedRing K] in
theorem normal_line (l : List K) :
    (tempPoints l).Normal 2 (quad (line l).1 (line l).2 0) := by
  have hcc : cc K = 256 := Nat.cast_ofNat
  have hxc : xc K = 255 / 2 := by
    rw [xc, xc_, hcc]
    norm_num
  have hxx : xx K = 43435 / 2 := by
    rw [xx, xx_, xc_, hcc]
    norm_num
  refine Points.normal_line ?_ ?_ ?_
  · rw [moment_zero]
    norm_num
  · rw [moment_zero, moment_one]
    unfold line
    rw [hcc, hxc, hxx]
    ring
  · rw [moment_zero, moment_one, moment_two]
    unfold line
    rw [hcc, hxc, hxx]
    field_simp
    ring

omit [IsStrictOrderedRing K] in
theorem spread_temps (l : List K) : (tempPoints l).Spread 2 := by
  have hall : ((tempPoints l).s.filter fun i => 0 < (tempPoints l).w i) = (tempPoints l).s :=
    Finset.filter_true_of_mem fun _ _ => zero_lt_one
  have hinj : Function.Injective (tempPoints l).x := Nat.cast_injective
  unfold Points.Spread
  rw [hall, Finset.card_image_of_injective _ hinj]
  exact (by decide : 2 ≤ 256).trans_eq (Finset.card_range _).symm

/-- No other line has as little error. -/
theorem line_least (l : List K) {a slope : K} (hne : ¬(a = (line l).1 ∧ slope = (line l).2)) :
    (tempPoints l).energy ((tempPoints l).error (quad (line l).1 (line l).2 0)) <
      (tempPoints l).energy ((tempPoints l).error (quad a slope 0)) := by
  refine (normal_line l).energy_lt (fun _ _ => zero_le_one) (spread_temps l) (degree_line_lt _ _)
    (degree_line_lt _ _) fun heq => hne ?_
  obtain ⟨ha, hslope, -⟩ := quad_inj.mp heq
  exact ⟨ha, hslope⟩

/-- Temperatures on a line are on the line of the code. -/
theorem line_exact {l : List K} {a slope : K}
    (hline : ∀ k < RING_SIZE, l.getD k 0 = a + slope * k) :
    (line l).1 = a ∧ (tempPoints l).energy
      ((tempPoints l).error (quad (line l).1 (line l).2 0)) = 0 := by
  have hzero : (tempPoints l).energy ((tempPoints l).error (quad a slope 0)) = 0 := by
    refine Finset.sum_eq_zero fun k hk => ?_
    have hk : k < RING_SIZE := Finset.mem_range.mp hk
    unfold Points.error
    rw [eval_quad]
    show 1 * (l.getD k 0 - (a + slope * k + 0 * (k : K) ^ 2)) ^ 2 = 0
    rw [hline k hk]
    ring
  by_cases hsame : a = (line l).1 ∧ slope = (line l).2
  · rw [← hsame.1, ← hsame.2]
    exact ⟨rfl, hzero⟩
  · have hlt := line_least l hsame
    rw [hzero] at hlt
    exact absurd hlt (not_lt.mpr (Points.energy_nonneg (fun _ _ => zero_le_one) _))

/-! ## The trim -/

/-- What the compensation makes of the last temperatures and of a curve. -/
structure Compensates (l : List K) (mean : SomVec K) (coef : Coef K) (s : Compensation K) :
    Prop where
  /-- The temperature is the value of the best line at the newest one. -/
  fit : ∃ slope,
    (∀ a' slope', ¬(a' = s.tempValue ∧ slope' = slope) →
      (tempPoints l).energy ((tempPoints l).error (quad s.tempValue slope 0)) <
        (tempPoints l).energy ((tempPoints l).error (quad a' slope' 0))) ∧
    0 ≤ s.tempNoise ∧ s.tempNoise ^ 2 = 1022 / 257 *
      ((tempPoints l).energy ((tempPoints l).error (quad s.tempValue slope 0)) / 256)
  /-- A steady rise has no noise. -/
  steady : ∀ newest slope, (∀ k < RING_SIZE, l.getD k 0 = newest + slope * k) →
    s.tempValue = newest ∧ s.tempNoise = 0
  /-- The trim is that of the curve, rounded toward zero. -/
  trim : |tcmpEstimate mean coef s.tempValue| < 1 / 2 →
    s.tcmpValue = s.compTrim.toInt / 2 ^ 32 ∧
    |s.tcmpValue - tcmpEstimate mean coef s.tempValue| < 1 / 2 ^ 32 ∧
    |s.tcmpValue| ≤ |tcmpEstimate mean coef s.tempValue|

theorem compensates_of_ring {sqrtf : K → K} (hroot : IsRoot sqrtf) {s : Compensation K}
    {l : List K} (hring : ∀ k < RING_SIZE, s.temp k = l.getD k 0)
    (hcount : ¬s.initCounter < INIT_COUNT) :
    Compensates l s.tcmpMean s.tcmpCoeff (s.runCompensation sqrtf) := by
  obtain ⟨s', hs'⟩ : ∃ s', s' = s.runCompensation sqrtf := ⟨_, rfl⟩
  generalize henergy : (tempPoints l).energy
    ((tempPoints l).error (quad (line l).1 (line l).2 0)) = energy
  have henergy0 : 0 ≤ energy := by
    rw [← henergy]
    exact Points.energy_nonneg (fun _ _ => zero_le_one) _
  have hvar : energy / cc K / (xx K - xc K * xc K) * xx K = 1022 / 257 * (energy / 256) := by
    have hcc : cc K = 256 := Nat.cast_ofNat
    rw [xx, xc, xx_, xc_, hcc]
    ring
  have hvalue : s'.tempValue = (line l).1 := by
    rw [hs', runCompensation, if_neg hcount, sums_eq hring]
    rfl
  have hnoise : s'.tempNoise = sqrtf (1022 / 257 * (energy / 256)) := by
    rw [← hvar, ← henergy, ← squares_eq hring, hs', runCompensation, if_neg hcount, sums_eq hring]
    rfl
  have htrim : s'.compTrim = toInt32 (2 ^ 32 * tcmpEstimate s.tcmpMean s.tcmpCoeff (line l).1) := by
    rw [← hvalue, hs', runCompensation, if_neg hcount]
  have htcmp : s'.tcmpValue = 1 / 2 ^ 32 * (s'.compTrim.toInt : K) := by
    rw [hs', runCompensation, if_neg hcount]
  obtain ⟨hpos, hsq⟩ := hroot (1022 / 257 * (energy / 256)) (by positivity)
  rw [← hs']
  refine ⟨⟨(line l).2, fun a' slope' hne => ?_, ?_, ?_⟩, fun newest slope hline => ?_,
    fun hrange => ?_⟩
  · rw [hvalue] at hne ⊢
    exact line_least l hne
  · rw [hnoise]
    exact hpos
  · rw [hnoise, hvalue, henergy]
    exact hsq
  · obtain ⟨hnewest, hzero⟩ := line_exact hline
    rw [henergy] at hzero
    refine ⟨hvalue.trans hnewest, ?_⟩
    rw [hzero] at hsq hnoise
    rw [hnoise]
    exact pow_eq_zero_iff two_ne_zero |>.mp (hsq.trans (by ring))
  · rw [hvalue] at hrange ⊢
    generalize tcmpEstimate s.tcmpMean s.tcmpCoeff (line l).1 = estimate at hrange htrim ⊢
    have hpow : (0 : K) < 2 ^ 32 := by positivity
    have hscale : |2 ^ 32 * estimate| = 2 ^ 32 * |estimate| := by
      rw [abs_mul, abs_of_pos hpow]
    have hlt : |2 ^ 32 * estimate| < ((2 ^ 31 : ℕ) : K) := by
      rw [hscale]
      push_cast
      linarith
    obtain ⟨hnear, hle⟩ := toInt32_spec (le_refl _) hlt
    rw [← htrim] at hnear hle
    have hdiv : s'.tcmpValue = s'.compTrim.toInt / 2 ^ 32 := by
      rw [htcmp]
      ring
    refine ⟨hdiv, ?_, ?_⟩
    · have hsub : s'.tcmpValue - estimate = (s'.compTrim.toInt - 2 ^ 32 * estimate) / 2 ^ 32 := by
        rw [hdiv]
        field_simp
      rw [hsub, abs_div, abs_of_pos hpow]
      exact (div_lt_div_iff_of_pos_right hpow).mpr hnear
    · rw [hdiv, abs_div, abs_of_pos hpow, div_le_iff₀ hpow, mul_comm, ← hscale]
      exact hle

/-! ## The law -/

/-- The variables, in what the run did. -/
structure Law (h : History K) (s : Compensation K) : Prop where
  /-- The ring holds the last temperatures, behind zeros. -/
  ring : ∀ k < RING_SIZE, s.temp k = (temps h).getD k 0
  initCounter : s.initCounter = min INIT_COUNT (calls h)
  tcmpMean : s.tcmpMean = (curve h).1
  tcmpCoeff : s.tcmpCoeff = (curve h).2
  untrimmed : calls h ≤ INIT_COUNT → s.compTrim = 0 ∧ s.tempValue = 0

variable {sqrtf : K → K} {h : History K} {s s' : Compensation K}

omit [Field K] [LinearOrder K] [IsStrictOrderedRing K] [FloorRing K] in
/-- The slots, from the one before the newest temperature on. -/
theorem temp_runTemperature (s : Compensation K) (temp : K) {k : ℕ} (hk : k < RING_SIZE) :
    (s.runTemperature temp).temp k = if k = 0 then temp else s.temp (k - 1) :=
  update_sub_ofNat s.tempRing s.ringPos temp hk

omit [IsStrictOrderedRing K] in
theorem law_of_run (hrun : Run (step sqrtf) init h s) : Law h s := by
  refine hrun.invariant (I := Law) ?_ ?_
  · exact ⟨fun _ _ => rfl, rfl, rfl, rfl, fun _ => ⟨rfl, rfl⟩⟩
  · intro h s a s' hi hs
    cases a with
    | runTemperature temp =>
        obtain rfl := Option.some.inj hs
        refine ⟨fun k hk => ?_, hi.initCounter, hi.tcmpMean, hi.tcmpCoeff, hi.untrimmed⟩
        rw [temp_runTemperature s temp hk]
        show _ = (temp :: temps h).getD k 0
        cases k with
        | zero => rfl
        | succ k => exact hi.ring k (Nat.lt_of_succ_lt hk)
    | publish mean coef =>
        obtain rfl := Option.some.inj hs
        exact ⟨hi.ring, hi.initCounter, rfl, rfl, hi.untrimmed⟩
    | runCompensation =>
        obtain rfl := Option.some.inj hs
        have hcount := hi.initCounter
        have hcalls : calls ((s, CompensationAction.runCompensation) :: h) = calls h + 1 := rfl
        unfold runCompensation
        by_cases hwait : s.initCounter < INIT_COUNT
        · rw [if_pos hwait]
          refine ⟨hi.ring, ?_, hi.tcmpMean, hi.tcmpCoeff, fun _ => hi.untrimmed (by omega)⟩
          show s.initCounter + 1 = _
          omega
        · rw [if_neg hwait]
          refine ⟨hi.ring, ?_, hi.tcmpMean, hi.tcmpCoeff, fun hle => ?_⟩
          · show s.initCounter = _
            omega
          · omega

/-- **The compensation of a run.** The clock is not trimmed in the first 68 calls, and from then on
every call takes the temperature from the best line through the last 256 and the trim from the curve
that was published last. The ring is full by then, if the temperatures are no more than a second
late. -/
theorem compensation_of_run (hroot : IsRoot sqrtf) (hrun : Run (step sqrtf) init h s) :
    (calls h ≤ INIT_COUNT → s.compTrim = 0 ∧ s.tempValue = 0) ∧
    (INIT_COUNT ≤ calls h →
      Compensates (temps h) (curve h).1 (curve h).2 (s.runCompensation sqrtf) ∧
      (4 * calls h ≤ (temps h).length + 16 → RING_SIZE ≤ (temps h).length)) := by
  have hlaw := law_of_run hrun
  refine ⟨hlaw.untrimmed, fun hcalls => ⟨?_, fun hpace => ?_⟩⟩
  · rw [← hlaw.tcmpMean, ← hlaw.tcmpCoeff]
    refine compensates_of_ring hroot hlaw.ring ?_
    rw [hlaw.initCounter, min_eq_left hcalls]
    exact Nat.lt_irrefl _
  · unfold INIT_COUNT at hcalls
    unfold RING_SIZE
    omega

/-! ## A room of twenty degrees -/

theorem exists_run_room (n : ℕ) : ∃ h s, Run (step Real.sqrt) init h s ∧ calls h = n ∧
    temps h = List.replicate (4 * n) 20 := by
  induction n with
  | zero => exact ⟨[], init, .start, rfl, rfl⟩
  | succ n ih =>
      obtain ⟨h, s, hrun, hcalls, htemps⟩ := ih
      have hnext := ((((hrun.next (a := .runTemperature 20) rfl).next
        (a := .runTemperature 20) rfl).next (a := .runTemperature 20) rfl).next
        (a := .runTemperature 20) rfl).next (a := .runCompensation) rfl
      refine ⟨_, _, hnext, congrArg (· + 1) hcalls, ?_⟩
      show 20 :: 20 :: 20 :: 20 :: temps h = _
      rw [htemps]
      rfl

/-- A curve is published before the call that trims the clock, by 5 in a million. -/
theorem compensation_of_run_room : ∃ h s, Run (step Real.sqrt) init h s ∧ calls h = 68 ∧
    curve h = (⟨25, (10 ^ 5)⁻¹, 8⟩, ⟨0, (10 ^ 6)⁻¹, 0⟩) ∧
    (s.runCompensation Real.sqrt).tempValue = 20 ∧ (s.runCompensation Real.sqrt).tempNoise = 0 ∧
    (s.runCompensation Real.sqrt).compTrim.toInt = 21474 := by
  obtain ⟨h, s, hrun, hcalls, htemps⟩ := exists_run_room 68
  obtain ⟨mean, hmean⟩ : ∃ mean : SomVec ℝ, mean = ⟨25, (10 ^ 5)⁻¹, 8⟩ := ⟨_, rfl⟩
  obtain ⟨coef, hcoef⟩ : ∃ coef : Coef ℝ, coef = ⟨0, (10 ^ 6)⁻¹, 0⟩ := ⟨_, rfl⟩
  have hpublish := hrun.next (a := .publish mean coef) rfl
  obtain ⟨t, ht⟩ : ∃ t, t = runCompensation Real.sqrt
    { s with tcmpMean := mean, tcmpCoeff := coef } := ⟨_, rfl⟩
  have hcomp : Compensates (temps h) mean coef t := by
    rw [ht]
    exact ((compensation_of_run isRoot_sqrt hpublish).2 hcalls.ge).1
  obtain ⟨hvalue, hnoise⟩ := hcomp.steady 20 0 fun k hk => by
    have hlt : k < (List.replicate (4 * 68) (20 : ℝ)).length := by
      rw [List.length_replicate]
      exact hk.trans (by decide)
    rw [htemps, List.getD_eq_getElem?_getD, List.getElem?_eq_getElem hlt, List.getElem_replicate,
      Option.getD_some]
    ring
  have hestimate : tcmpEstimate mean coef 20 = 5 * (10 ^ 6)⁻¹ := by
    rw [hmean, hcoef, tcmpEstimate]
    norm_num
  have htrim := hcomp.trim
  rw [hvalue, hestimate] at htrim
  obtain ⟨hdiv, hnear, hle⟩ := htrim (by norm_num [abs_lt])
  rw [hdiv] at hnear hle
  have hlo : (21473 : ℝ) < t.compTrim.toInt := by
    have hlt := (abs_lt.mp hnear).1
    norm_num at hlt
    linarith
  have hhi : (t.compTrim.toInt : ℝ) < 21475 := by
    have hlt := (le_abs_self _).trans hle
    norm_num [abs_of_pos] at hlt
    linarith
  have hlo : 21473 < t.compTrim.toInt := by exact_mod_cast hlo
  have hhi : t.compTrim.toInt < 21475 := by exact_mod_cast hhi
  refine ⟨_, _, hpublish, hcalls, by rw [← hmean, ← hcoef]; rfl, ?_⟩
  show (runCompensation Real.sqrt { s with tcmpMean := mean, tcmpCoeff := coef }).tempValue = 20 ∧
    _ = _ ∧ _ = _
  rw [← ht]
  exact ⟨hvalue, hnoise, by omega⟩

end Compensation

end Gpsdo.Ntp
