import Gpsdo.Basic.Numeral
import Gpsdo.Basic.Run
import Gpsdo.Basic.Word
import Gpsdo.Ntp.Table
import Mathlib.Algebra.Order.Floor.Ring
import Mathlib.Algebra.Order.Archimedean.Real.Basic
import Mathlib.Analysis.Real.Sqrt

set_option autoImplicit false

/-! # The controller of the TAI clock (`lib/ntp/pll.cpp`)

`runSelect` hands each new offset to `PLL_updateOffset`, which steps the TAI clock when the offset
is large, and otherwise sets its rate from a proportional and an integral term. `PLL_updateDrift`
gets the resulting rate and hands the frequency to the temperature compensation. The numbers are
exact here; the root is an argument.
-/

namespace Gpsdo.Ntp

open Numeral

variable {K : Type*} [Field K] [LinearOrder K] [IsStrictOrderedRing K] [FloorRing K]

/-! ## Data -/

def PLL_STATS_ALPHA : K := 1 / 2 ^ 4

/-- 250 ppm -/
def PLL_MAX_FREQ_TRIM : K := 250 / 10 ^ 6

/-- 1 ppm -/
def PLL_OFFSET_CORR_BASIS : K := 1 / 10 ^ 6

def PLL_OFFSET_CORR_MAX : K := 1 / 2

def PLL_OFFSET_CORR_MIN : K := 1 / 2 ^ 3

def PLL_OFFSET_INT_RATE : K := 1 / 2 ^ 5

/-- The variables of `pll.cpp`. -/
structure Pll (K : Type*) where
  offsetLast : K
  offsetMean : K
  offsetVar : K
  offsetMS : K
  offsetStdDev : K
  offsetRms : K
  driftLast : K
  driftMean : K
  driftVar : K
  driftMS : K
  driftStdDev : K
  driftRms : K
  driftFreq : K
  offsetProportion : K
  offsetIntegral : K
  deriving DecidableEq, Repr

/-- What the controller does to the TAI clock. -/
inductive PllOutput
  /-- `ntpSetTaiClock` -/
  | setTaiClock (offset : BitVec 64)
  /-- `clock::tai::setTrim` -/
  | setTrim (trim : BitVec 32)
  deriving DecidableEq, Repr

/-- `static_cast<int32_t>` of a number: it is rounded toward zero. -/
def toInt32 (v : K) : BitVec 32 := BitVec.ofInt 32 (if 0 ≤ v then ⌊v⌋ else ⌈v⌉)

/-- The two comparisons that limit a number to a range. -/
def limit (lo hi v : K) : K :=
  let v := if hi < v then hi else v
  if v < lo then lo else v

namespace Pll

/-- The static memory. -/
def init : Pll K := ⟨0, 0, 0, 0, 0, 0, 0, 0, 0, 0, 0, 0, 0, 0, 0⟩

/-! ## Updates -/

/-- The statistics of the offset. -/
def updateStats (sqrtf : K → K) (s : Pll K) (fltOffset : K) : Pll K :=
  if s.offsetMS = 0 then
    { s with
      offsetLast := fltOffset, offsetMean := fltOffset, offsetVar := fltOffset * fltOffset,
      offsetMS := fltOffset * fltOffset, offsetRms := |fltOffset|, offsetStdDev := |fltOffset| }
  else
    let diff := fltOffset - s.offsetMean
    let offsetVar := s.offsetVar + (diff * diff - s.offsetVar) * PLL_STATS_ALPHA
    let offsetMS := s.offsetMS + (fltOffset * fltOffset - s.offsetMS) * PLL_STATS_ALPHA
    { s with
      offsetLast := fltOffset, offsetVar := offsetVar, offsetMS := offsetMS,
      offsetMean := s.offsetMean + diff * PLL_STATS_ALPHA,
      offsetStdDev := sqrtf offsetVar, offsetRms := sqrtf offsetMS }

/-- The proportional rate, for a polling interval of `2 ^ interval` seconds. -/
def rate (s : Pll K) (interval : ℕ) : K :=
  limit PLL_OFFSET_CORR_MIN PLL_OFFSET_CORR_MAX (s.offsetRms / PLL_OFFSET_CORR_BASIS) *
    ((1 / 2 ^ 16 : K) * ((1 <<< (16 - interval) : ℕ) : K))

/-- The terms of the controller. -/
def control (s : Pll K) (interval : ℕ) (fltOffset : K) : Pll K :=
  let offsetProportion := fltOffset * s.rate interval
  { s with
    offsetProportion := offsetProportion,
    offsetIntegral := limit (-PLL_MAX_FREQ_TRIM) PLL_MAX_FREQ_TRIM
      (s.offsetIntegral + offsetProportion * PLL_OFFSET_INT_RATE) }

/-- The rate that the TAI clock is given. -/
def trim (s : Pll K) : BitVec 32 :=
  toInt32 (2 ^ 32 * limit (-PLL_MAX_FREQ_TRIM) PLL_MAX_FREQ_TRIM
    (s.offsetProportion + s.offsetIntegral))

/-- `PLL_updateOffset` -/
def PLL_updateOffset (sqrtf : K → K) (s : Pll K) (interval : ℕ) (offset : BitVec 64) :
    Pll K × PllOutput :=
  if PLL_OFFSET_HARD_ALIGN.toInt < offset.toInt ∨
      offset.toInt < -PLL_OFFSET_HARD_ALIGN.toInt then
    ({ s with offsetMS := 0 }, .setTaiClock offset)
  else
    let fltOffset : K := (1 / 2 ^ 32 : K) * ((offset.setWidth 32).toInt : K)
    let s := (s.updateStats sqrtf fltOffset).control interval fltOffset
    (s, .setTrim s.trim)

/-- `PLL_updateDrift`, with the rate of the compensated clock: the target and the weight that
`tcmp::update` is called with. -/
def PLL_updateDrift (sqrtf : K → K) (s : Pll K) (drift : K) (compTrim : BitVec 32) :
    Pll K × (K × K) :=
  let diff := drift - s.driftMean
  let driftVar := s.driftVar + (diff * diff - s.driftVar) * PLL_STATS_ALPHA
  let driftMS := s.driftMS + (drift * drift - s.driftMS) * PLL_STATS_ALPHA
  let driftFreq := drift + (1 / 2 ^ 32 : K) * (compTrim.toInt : K)
  let s := { s with
    driftLast := drift, driftVar := driftVar, driftMS := driftMS,
    driftMean := s.driftMean + diff * PLL_STATS_ALPHA,
    driftStdDev := sqrtf driftVar, driftRms := sqrtf driftMS, driftFreq := driftFreq }
  (s, (driftFreq, (100 / 10 ^ 9) / (100 / 10 ^ 9 + s.driftStdDev + |diff|)))

end Pll

/-! ## The controller and the table of the sources -/

theorem hardAlign_iff (offset : BitVec 64) :
    Table.hardAlign offset ↔ PLL_OFFSET_HARD_ALIGN.toInt < offset.toInt ∨
      offset.toInt < -PLL_OFFSET_HARD_ALIGN.toInt := by
  simp only [Table.hardAlign, Bool.or_eq_true, BitVec.slt_iff_toInt_lt]
  rw [show (-PLL_OFFSET_HARD_ALIGN).toInt = -PLL_OFFSET_HARD_ALIGN.toInt by decide]

/-- What the controller does to the TAI clock, done to the table. -/
def PllOutput.apply {F : Type} (T : Table F) : PllOutput → Table F
  | .setTaiClock offset => T.ntpSetTaiClock offset
  | .setTrim _ => T

omit [IsStrictOrderedRing K] in
/-- The table is stepped when the controller steps the clock. -/
theorem Table.PLL_updateOffset_eq {F : Type} (T : Table F) (sqrtf : K → K) (s : Pll K)
    (interval : ℕ) (offset : BitVec 64) :
    T.PLL_updateOffset offset = (s.PLL_updateOffset sqrtf interval offset).2.apply T := by
  unfold Table.PLL_updateOffset Pll.PLL_updateOffset
  simp only [hardAlign_iff]
  split <;> rfl

/-! ## Limits and conversions -/

omit [Field K] [IsStrictOrderedRing K] [FloorRing K] in
theorem limit_mem {lo hi : K} (h : lo ≤ hi) (v : K) : lo ≤ limit lo hi v ∧ limit lo hi v ≤ hi := by
  unfold limit
  dsimp only
  by_cases hhi : hi < v
  · rw [if_pos hhi, if_neg (not_lt.mpr h)]
    exact ⟨h, le_refl _⟩
  · rw [if_neg hhi]
    split
    · exact ⟨le_refl _, h⟩
    · exact ⟨not_lt.mp ‹_›, not_lt.mp hhi⟩

omit [Field K] [IsStrictOrderedRing K] [FloorRing K] in
/-- A number in the range stays as it is. -/
theorem limit_eq_self {lo hi v : K} (hlo : lo ≤ v) (hhi : v ≤ hi) : limit lo hi v = v := by
  unfold limit
  rw [if_neg (not_lt.mpr hhi), if_neg (not_lt.mpr hlo)]

/-- The rounding toward zero. -/
theorem toInt32_spec {v : K} {n : ℕ} (hn : n ≤ 2 ^ 31) (hv : |v| < n) :
    |((toInt32 v).toInt : K) - v| < 1 ∧ |((toInt32 v).toInt : K)| ≤ |v| := by
  have hround : |((if 0 ≤ v then ⌊v⌋ else ⌈v⌉ : ℤ) : K) - v| < 1 ∧
      |((if 0 ≤ v then ⌊v⌋ else ⌈v⌉ : ℤ) : K)| ≤ |v| := by
    split
    · rename_i h0
      have hle := Int.floor_le v
      have hlt := Int.lt_floor_add_one v
      have hpos : (0 : K) ≤ ⌊v⌋ := by exact_mod_cast Int.floor_nonneg.mpr h0
      rw [abs_of_nonneg hpos, abs_of_nonneg h0]
      exact ⟨abs_lt.mpr ⟨by linarith, by linarith⟩, hle⟩
    · rename_i h0
      have h0 := (not_le.mp h0).le
      have hle := Int.le_ceil v
      have hlt := Int.ceil_lt_add_one v
      have hneg : ((⌈v⌉ : ℤ) : K) ≤ 0 := by exact_mod_cast Int.ceil_nonpos.mpr h0
      rw [abs_of_nonpos hneg, abs_of_nonpos h0]
      exact ⟨abs_lt.mpr ⟨by linarith, by linarith⟩, by linarith⟩
  have hint : |(if 0 ≤ v then ⌊v⌋ else ⌈v⌉ : ℤ)| < n := by
    exact_mod_cast hround.2.trans_lt hv
  have heq : (toInt32 v).toInt = if 0 ≤ v then ⌊v⌋ else ⌈v⌉ := by
    rw [toInt32, BitVec.toInt_ofInt]
    refine bmod_of_abs_lt (hint.trans_le ?_)
    exact_mod_cast hn
  rw [heq]
  exact hround

omit [FloorRing K] in
theorem max_freq_trim_nonneg : (0 : K) ≤ PLL_MAX_FREQ_TRIM := by
  unfold PLL_MAX_FREQ_TRIM
  positivity

namespace Pll

/-- The proportional rate is one eighth to one half for each polling interval. -/
theorem rate_spec (s : Pll K) {interval : ℕ} (hint : interval ≤ 16) : ∃ r : K,
    1 / 8 ≤ r ∧ r ≤ 1 / 2 ∧ s.rate interval = r / 2 ^ interval := by
  have hle : (PLL_OFFSET_CORR_MIN : K) ≤ PLL_OFFSET_CORR_MAX := by
    unfold PLL_OFFSET_CORR_MIN PLL_OFFSET_CORR_MAX
    norm_num
  obtain ⟨hlo, hhi⟩ := limit_mem hle (s.offsetRms / PLL_OFFSET_CORR_BASIS)
  refine ⟨_, ?_, hhi, ?_⟩
  · refine le_trans (le_of_eq ?_) hlo
    unfold PLL_OFFSET_CORR_MIN
    norm_num
  · have hpow : (2 : K) ^ 16 = 2 ^ (16 - interval) * 2 ^ interval := by
      rw [← pow_add, Nat.sub_add_cancel hint]
    have hne : (2 : K) ^ interval ≠ 0 := by positivity
    have hne' : (2 : K) ^ (16 - interval) ≠ 0 := by positivity
    have hshift : ((1 <<< (16 - interval) : ℕ) : K) = 2 ^ (16 - interval) := by
      rw [Nat.shiftLeft_eq, one_mul]
      push_cast
      rfl
    rw [rate, hshift, hpow]
    field_simp

/-- The trim of the TAI clock is a rate of at most 250 ppm. -/
theorem trim_spec (s : Pll K) :
    |((s.trim).toInt : K) - 2 ^ 32 * limit (-PLL_MAX_FREQ_TRIM) PLL_MAX_FREQ_TRIM
      (s.offsetProportion + s.offsetIntegral)| < 1 ∧ |(s.trim).toInt| ≤ 1073741 := by
  have hmax := max_freq_trim_nonneg (K := K)
  obtain ⟨hlo, hhi⟩ := limit_mem (neg_le_self hmax) (s.offsetProportion + s.offsetIntegral)
  have hbound : |2 ^ 32 * limit (-PLL_MAX_FREQ_TRIM) PLL_MAX_FREQ_TRIM
      (s.offsetProportion + s.offsetIntegral)| ≤ 2 ^ 32 * (PLL_MAX_FREQ_TRIM : K) := by
    rw [abs_mul, abs_of_pos (by positivity : (0 : K) < 2 ^ 32)]
    exact mul_le_mul_of_nonneg_left (abs_le.mpr ⟨hlo, hhi⟩) (by positivity)
  have hval : 2 ^ 32 * (PLL_MAX_FREQ_TRIM : K) < 1073742 := by
    unfold PLL_MAX_FREQ_TRIM
    norm_num
  obtain ⟨hnear, hle⟩ := toInt32_spec (n := 1073742) (by decide)
    (hbound.trans_lt (hval.trans_eq (by norm_num)))
  refine ⟨hnear, ?_⟩
  have hlt : ((|(s.trim).toInt| : ℤ) : K) < 1073742 := by
    rw [Int.cast_abs]
    exact (hle.trans hbound).trans_lt hval
  have hlt' : |(s.trim).toInt| < 1073742 := by exact_mod_cast hlt
  omega

end Pll

/-! ## Every sequence of updates -/

inductive PllAction (K : Type*)
  | updateOffset (interval : ℕ) (offset : BitVec 64)
  | updateDrift (drift : K) (compTrim : BitVec 32)

def Pll.step (sqrtf : K → K) (s : Pll K) : PllAction K → Option (Pll K)
  | .updateOffset interval offset => some (s.PLL_updateOffset sqrtf interval offset).1
  | .updateDrift drift compTrim => some (s.PLL_updateDrift sqrtf drift compTrim).1

/-- The integral term is limited, and the means are not more than the root mean squares. After a
step of the clock the statistics of the offset start again. -/
structure PllInv (s : Pll K) : Prop where
  offsetIntegral : |s.offsetIntegral| ≤ PLL_MAX_FREQ_TRIM
  offsetVar : 0 ≤ s.offsetVar
  offsetMean : s.offsetMS ≠ 0 → s.offsetMean ^ 2 ≤ s.offsetMS ∧ |s.offsetMean| ≤ s.offsetRms
  driftVar : 0 ≤ s.driftVar
  driftMean : s.driftMean ^ 2 ≤ s.driftMS ∧ |s.driftMean| ≤ s.driftRms

/-- `sqrtf` -/
def IsRoot (sqrtf : K → K) : Prop := ∀ v, 0 ≤ v → 0 ≤ sqrtf v ∧ sqrtf v ^ 2 = v

omit [FloorRing K] in
/-- A moving average of the squares stays above the square of the moving average. -/
theorem sq_average_le {mean ms v : K} (h : mean ^ 2 ≤ ms) :
    (mean + (v - mean) * PLL_STATS_ALPHA) ^ 2 ≤ ms + (v * v - ms) * PLL_STATS_ALPHA := by
  have hgap : ms + (v * v - ms) * PLL_STATS_ALPHA - (mean + (v - mean) * PLL_STATS_ALPHA) ^ 2 =
      15 / 16 * (ms - mean ^ 2) + 15 / 256 * (v - mean) ^ 2 := by
    unfold PLL_STATS_ALPHA
    ring
  have h1 := mul_nonneg (by norm_num : (0 : K) ≤ 15 / 16) (sub_nonneg.mpr h)
  have h2 := mul_nonneg (by norm_num : (0 : K) ≤ 15 / 256) (sq_nonneg (v - mean))
  linarith

omit [FloorRing K] in
theorem var_nonneg {var v : K} (h : 0 ≤ var) : 0 ≤ var + (v * v - var) * PLL_STATS_ALPHA := by
  have heq : var + (v * v - var) * PLL_STATS_ALPHA = 15 / 16 * var + 1 / 16 * (v * v) := by
    unfold PLL_STATS_ALPHA
    ring
  have h1 := mul_nonneg (by norm_num : (0 : K) ≤ 15 / 16) h
  have h2 := mul_nonneg (by norm_num : (0 : K) ≤ 1 / 16) (mul_self_nonneg v)
  linarith

omit [FloorRing K] in
theorem IsRoot.abs_le {sqrtf : K → K} (hroot : IsRoot sqrtf) {mean ms : K} (h : mean ^ 2 ≤ ms) :
    |mean| ≤ sqrtf ms := by
  obtain ⟨hpos, hsq⟩ := hroot ms ((sq_nonneg mean).trans h)
  exact abs_le_of_sq_le_sq (by rw [hsq]; exact h) hpos

variable {sqrtf : K → K} {s s' : Pll K}

omit [FloorRing K] in
theorem PllInv.updateStats (hi : PllInv s) (hroot : IsRoot sqrtf) (fltOffset : K) :
    PllInv (s.updateStats sqrtf fltOffset) := by
  unfold Pll.updateStats
  by_cases h0 : s.offsetMS = 0
  · rw [if_pos h0]
    exact ⟨hi.offsetIntegral, mul_self_nonneg _, fun _ => ⟨(sq fltOffset).le, le_refl _⟩,
      hi.driftVar, hi.driftMean⟩
  · rw [if_neg h0]
    have hmean := sq_average_le (v := fltOffset) (hi.offsetMean h0).1
    exact ⟨hi.offsetIntegral, var_nonneg hi.offsetVar, fun _ => ⟨hmean, hroot.abs_le hmean⟩,
      hi.driftVar, hi.driftMean⟩

omit [FloorRing K] in
theorem PllInv.control (hi : PllInv s) (interval : ℕ) (fltOffset : K) :
    PllInv (s.control interval fltOffset) where
  offsetIntegral := abs_le.mpr (limit_mem (neg_le_self max_freq_trim_nonneg) _)
  offsetVar := hi.offsetVar
  offsetMean := hi.offsetMean
  driftVar := hi.driftVar
  driftMean := hi.driftMean

theorem PllInv.step (hi : PllInv s) (hroot : IsRoot sqrtf) {a : PllAction K}
    (hs : s.step sqrtf a = some s') : PllInv s' := by
  cases a with
  | updateOffset interval offset =>
      obtain rfl := Option.some.inj hs
      unfold Pll.PLL_updateOffset
      split
      · exact { hi with offsetMean := fun h => absurd rfl h }
      · exact (hi.updateStats hroot _).control interval _
  | updateDrift drift compTrim =>
      obtain rfl := Option.some.inj hs
      have hmean := sq_average_le (v := drift) hi.driftMean.1
      exact ⟨hi.offsetIntegral, hi.offsetVar, hi.offsetMean, var_nonneg hi.driftVar, hmean,
        hroot.abs_le hmean⟩

theorem pllInv_of_run {h : List (Pll K × PllAction K)} (hroot : IsRoot sqrtf)
    (hrun : Run (Pll.step sqrtf) Pll.init h s) : PllInv s := by
  refine hrun.invariant (I := fun _ s => PllInv s) ?_ fun _ _ _ _ hi hs => hi.step hroot hs
  exact ⟨by simpa [Pll.init] using max_freq_trim_nonneg, le_refl _, fun h => absurd rfl h,
    le_refl _, by simp [Pll.init]⟩

/-- What an update hands on: a rate of the TAI clock that is at most 250 ppm, or a weight for the
temperature compensation. -/
def Pll.Moderate (sqrtf : K → K) (s : Pll K) : PllAction K → Prop
  | .updateOffset interval offset => ∀ trim,
      (s.PLL_updateOffset sqrtf interval offset).2 = .setTrim trim → |trim.toInt| ≤ 1073741
  | .updateDrift drift compTrim =>
      0 < (s.PLL_updateDrift sqrtf drift compTrim).2.2 ∧
        (s.PLL_updateDrift sqrtf drift compTrim).2.2 ≤ 1

theorem PllInv.moderate (hi : PllInv s) (hroot : IsRoot sqrtf) (a : PllAction K) :
    s.Moderate sqrtf a := by
  cases a with
  | updateOffset interval offset =>
      intro trim htrim
      unfold Pll.PLL_updateOffset at htrim
      split at htrim
      · cases htrim
      · obtain rfl := PllOutput.setTrim.inj htrim
        exact (Pll.trim_spec _).2
  | updateDrift drift compTrim =>
      have hdev := (hroot _ (var_nonneg (v := drift - s.driftMean) hi.driftVar)).1
      have habs := abs_nonneg (drift - s.driftMean)
      have hbase : (0 : K) < 100 / 10 ^ 9 := by norm_num
      constructor
      · exact div_pos hbase (add_pos_of_pos_of_nonneg (add_pos_of_pos_of_nonneg hbase hdev) habs)
      · refine div_le_one_of_le₀ ?_ (add_nonneg (add_nonneg hbase.le hdev) habs)
        rw [add_assoc]
        exact le_add_of_nonneg_right (add_nonneg hdev habs)

/-- **The controller is moderate** in every sequence of updates: the integral term is limited, the
means are not more than the root mean squares, no rate is more than 250 ppm, and the weights are
those of an average. -/
theorem pllLaw_of_run {h : List (Pll K × PllAction K)} (hroot : IsRoot sqrtf)
    (hrun : Run (Pll.step sqrtf) Pll.init h s) :
    PllInv s ∧ ∀ p ∈ h, p.1.Moderate sqrtf p.2 := by
  induction hrun with
  | start => exact ⟨pllInv_of_run hroot .start, by simp⟩
  | next hrun hs ih =>
      exact ⟨ih.1.step hroot hs, List.forall_mem_cons.mpr ⟨ih.1.moderate hroot _, ih.2⟩⟩

theorem isRoot_sqrt : IsRoot Real.sqrt := fun v hv => ⟨Real.sqrt_nonneg v, Real.sq_sqrt hv⟩

theorem pllLaw_of_run_offsetAndDrift :
    PllInv (((Pll.init (K := ℝ)).PLL_updateOffset Real.sqrt 4 5000).1.PLL_updateDrift
      Real.sqrt (10 ^ 6)⁻¹ 0).1 :=
  (pllLaw_of_run isRoot_sqrt
    (.next (a := .updateDrift (10 ^ 6)⁻¹ 0) (.next (a := .updateOffset 4 5000) .start rfl)
      rfl)).1

end Gpsdo.Ntp
