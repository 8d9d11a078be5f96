import Gpsdo.Basic.Lyapunov
import Gpsdo.Basic.Numeral
import Gpsdo.Ntp.Pll
import Mathlib.Tactic.Module

set_option autoImplicit false

/-! # The TAI clock under its controller

The controller of `lib/ntp/pll.cpp` and the clock that it sets: between two updates the offset of
the TAI clock grows with what the trim leaves of the rate of the reference, and a step of the clock
takes its length away. In the terms of the offset `x` and of the offset `y` that the rate not yet
integrated makes in a polling interval, an update is linear,

    x' = x + (1 + j) (y - 33/32 r x)      y' = y - 1/32 r x

with the rate `r` of one eighth to one half and the jitter `j` of the interval, up to the noise of
the measurement, the rounding of the trim and the drift of the reference. One energy goes down in
all of these updates.
-/

namespace Gpsdo.Ntp

open Numeral

variable {K : Type*} [Field K] [LinearOrder K] [IsStrictOrderedRing K] [FloorRing K]

/-! ## The loop -/

/-- The conditions the loop works in: the polling interval, the error of a measurement in seconds,
the change of the rate of the reference from one update to the next, and the largest rate. -/
structure Conditions (K : Type*) where
  interval : ℕ
  noise : K
  drift : K
  freq : K

/-- The controller and its clock: the time of the reference less that of the TAI clock in seconds,
the rate of the reference against the clock that is trimmed, and the trim. -/
structure Loop (K : Type*) where
  pll : Pll K
  offset : K
  freq : K
  trim : BitVec 32

/-- One update and the interval after it. -/
structure Update (K : Type*) where
  measured : BitVec 64
  jitter : K
  drift : K

namespace Loop

/-- The update is one that the conditions allow. -/
def Allowed (c : Conditions K) (s : Loop K) (u : Update K) : Prop :=
  |(1 / 2 ^ 32 : K) * (u.measured.toInt : K) - s.offset| ≤ c.noise ∧ |u.jitter| ≤ 1 / 16 ∧
    |u.drift| ≤ c.drift ∧ |s.freq| ≤ c.freq

instance (c : Conditions K) (s : Loop K) (u : Update K) : Decidable (s.Allowed c u) :=
  inferInstanceAs (Decidable (_ ∧ _ ∧ _ ∧ _))

/-- The clock set by the controller. -/
def output (s : Loop K) : PllOutput → Loop K
  | .setTaiClock offset =>
      { s with offset := s.offset - (1 / 2 ^ 32 : K) * (offset.toInt : K) }
  | .setTrim trim => { s with trim := trim }

/-- The clock runs for a polling interval. -/
def elapse (c : Conditions K) (s : Loop K) (u : Update K) : Loop K :=
  { s with
    offset := s.offset +
      2 ^ c.interval * (1 + u.jitter) * (s.freq - (1 / 2 ^ 32 : K) * (s.trim.toInt : K)),
    freq := s.freq + u.drift }

def step (sqrtf : K → K) (c : Conditions K) (s : Loop K) (u : Update K) : Option (Loop K) :=
  if s.Allowed c u then
    let r := s.pll.PLL_updateOffset sqrtf c.interval u.measured
    some (elapse c ({ s with pll := r.1 }.output r.2) u)
  else none

/-! ## Energy -/

/-- The offset, and the offset that the rate not yet integrated makes in a polling interval. -/
def error (c : Conditions K) (s : Loop K) : K × K :=
  (s.offset, 2 ^ c.interval * (s.freq - s.pll.offsetIntegral))

end Loop

def energy (K : Type*) [Field K] [LinearOrder K] [IsStrictOrderedRing K] : PosForm K where
  a := 1
  b := -12
  c := 320
  a_pos := one_pos
  det_pos := by norm_num

/-- An update without noise, rounding and drift. -/
def update (r j : K) (z : K × K) : K × K :=
  (z.1 + (1 + j) * (z.2 - 33 / 32 * r * z.1), z.2 - 1 / 32 * r * z.1)

omit [LinearOrder K] [IsStrictOrderedRing K] [FloorRing K] in
theorem update_segment_rate (r r' t j : K) (z : K × K) :
    update ((1 - t) * r + t * r') j z = (1 - t) • update r j z + t • update r' j z := by
  ext <;> simp only [update, Prod.fst_add, Prod.snd_add, Prod.smul_fst, Prod.smul_snd,
    smul_eq_mul] <;> ring

omit [LinearOrder K] [IsStrictOrderedRing K] [FloorRing K] in
theorem update_segment_jitter (r j j' t : K) (z : K × K) :
    update r ((1 - t) * j + t * j') z = (1 - t) • update r j z + t • update r j' z := by
  ext <;> simp only [update, Prod.fst_add, Prod.snd_add, Prod.smul_fst, Prod.smul_snd,
    smul_eq_mul] <;> ring

omit [FloorRing K] in
/-- What an update takes away from the energy, as a form in the error. -/
theorem energy_update (r j : K) (z : K × K) :
    61 / 64 * (energy K).eval z - (energy K).eval (update r j z) =
      (61 / 64 - (1 - 33 / 32 * (1 + j) * r) ^ 2 - 24 / 32 * (1 - 33 / 32 * (1 + j) * r) * r -
          320 / 1024 * r ^ 2) * z.1 ^ 2 +
        (-183 / 8 - 2 * (1 - 33 / 32 * (1 + j) * r) * (1 + j) +
          24 * (1 - 33 / 32 * (1 + j) * r - 1 / 32 * (1 + j) * r) + 20 * r) * (z.1 * z.2) +
        (-15 - (1 + j) ^ 2 + 24 * (1 + j)) * z.2 ^ 2 := by
  simp only [PosForm.eval, energy, update]
  ring

omit [FloorRing K] in
theorem energy_update_le_of_corner {r j : K} (hr : r = 1 / 8 ∨ r = 1 / 2)
    (hj : j = -(1 / 16) ∨ j = 1 / 16) (z : K × K) :
    (energy K).eval (update r j z) ≤ 61 / 64 * (energy K).eval z := by
  rw [← sub_nonneg, energy_update]
  rcases hr with rfl | rfl <;> rcases hj with rfl | rfl <;>
    exact quadratic_nonneg (by norm_num) (by norm_num) z.1 z.2

omit [FloorRing K] in
/-- A point of a range as one of the segment between the ends. -/
theorem exists_segment {lo hi v : K} (hlt : lo < hi) (hlo : lo ≤ v) (hhi : v ≤ hi) :
    ∃ t, 0 ≤ t ∧ t ≤ 1 ∧ v = (1 - t) * lo + t * hi := by
  have hpos := sub_pos.mpr hlt
  refine ⟨(v - lo) / (hi - lo), div_nonneg (sub_nonneg.mpr hlo) hpos.le, ?_, ?_⟩
  · rw [div_le_one hpos]
    exact sub_le_sub_right hhi lo
  · field_simp
    ring

omit [FloorRing K] in
/-- **Contraction**: whatever the rate and the jitter are, an update takes three parts of sixty-four
of the energy away. -/
theorem energy_update_le {r j : K} (hr : 1 / 8 ≤ r) (hr' : r ≤ 1 / 2) (hj : |j| ≤ 1 / 16)
    (z : K × K) : (energy K).eval (update r j z) ≤ 61 / 64 * (energy K).eval z := by
  obtain ⟨hlo, hhi⟩ := abs_le.mp hj
  obtain ⟨t, ht0, ht1, rfl⟩ := exists_segment (by norm_num) hr hr'
  obtain ⟨u, hu0, hu1, rfl⟩ := exists_segment (by norm_num) hlo hhi
  have hjitter : ∀ r : K, r = 1 / 8 ∨ r = 1 / 2 →
      (energy K).eval (update r ((1 - u) * -(1 / 16) + u * (1 / 16)) z) ≤
        61 / 64 * (energy K).eval z := by
    intro r hr
    rw [update_segment_jitter]
    exact PosForm.eval_segment_le _ hu0 hu1 (energy_update_le_of_corner hr (.inl rfl) z)
      (energy_update_le_of_corner hr (.inr rfl) z)
  rw [update_segment_rate]
  exact PosForm.eval_segment_le _ ht0 ht1 (hjitter _ (.inl rfl)) (hjitter _ (.inr rfl))

omit [FloorRing K] in
/-- The energy of a disturbance. -/
theorem energy_le_sq {d : K × K} {b : K} (h : |d.1| + 18 * |d.2| ≤ b) :
    (energy K).eval d ≤ b ^ 2 := by
  have h1 := abs_nonneg d.1
  have h2 := abs_nonneg d.2
  have hprod : -(d.1 * d.2) ≤ |d.1| * |d.2| := by
    rw [← abs_mul]
    exact neg_le_abs _
  have hcross := mul_nonneg h1 h2
  calc (energy K).eval d = d.1 ^ 2 + 24 * -(d.1 * d.2) + 320 * d.2 ^ 2 := by
        simp only [PosForm.eval, energy]
        ring
    _ = |d.1| ^ 2 + 24 * -(d.1 * d.2) + 320 * |d.2| ^ 2 := by rw [sq_abs, sq_abs]
    _ ≤ (|d.1| + 18 * |d.2|) ^ 2 := by nlinarith only [hprod, hcross, sq_nonneg |d.2|]
    _ ≤ b ^ 2 := by gcongr

/-! ## The controller away from its limits -/

omit [FloorRing K] in
/-- A measurement of less than the threshold of a step is exact in 32 bits. -/
theorem toInt_of_small {measured : BitVec 64}
    (h : |(1 / 2 ^ 32 : K) * (measured.toInt : K)| ≤ 1 / 2 ^ 8) :
    |measured.toInt| ≤ PLL_OFFSET_HARD_ALIGN.toInt ∧
      (measured.setWidth 32).toInt = measured.toInt := by
  have hle : |measured.toInt| ≤ PLL_OFFSET_HARD_ALIGN.toInt := by
    rw [abs_mul, abs_of_pos (by positivity : (0 : K) < 1 / 2 ^ 32)] at h
    have h' : |(measured.toInt : K)| ≤ 2 ^ 24 := by
      have := mul_le_mul_of_nonneg_left h (by positivity : (0 : K) ≤ 2 ^ 32)
      rw [← mul_assoc] at this
      norm_num at this
      linarith
    have h'' : |measured.toInt| ≤ 2 ^ 24 := by exact_mod_cast h'
    exact h''
  refine ⟨hle, ?_⟩
  rw [toInt_lo32]
  exact bmod_of_abs_lt (hle.trans_lt (by decide))

omit [IsStrictOrderedRing K] [FloorRing K] in
theorem Pll.updateStats_offsetIntegral (sqrtf : K → K) (s : Pll K) (fltOffset : K) :
    (s.updateStats sqrtf fltOffset).offsetIntegral = s.offsetIntegral := by
  unfold Pll.updateStats
  split <;> rfl

/-- An update sets the trim, and what it limits is within the limits. -/
structure Pll.Unlimited (sqrtf : K → K) (s : Pll K) (interval : ℕ) (measured : BitVec 64) :
    Prop where
  aligned : ∃ t, (s.PLL_updateOffset sqrtf interval measured).2 = .setTrim t
  integral : |s.offsetIntegral + (s.PLL_updateOffset sqrtf interval measured).1.offsetProportion *
    PLL_OFFSET_INT_RATE| ≤ PLL_MAX_FREQ_TRIM
  trim : |(s.PLL_updateOffset sqrtf interval measured).1.offsetProportion +
    (s.PLL_updateOffset sqrtf interval measured).1.offsetIntegral| ≤ PLL_MAX_FREQ_TRIM

/-- With room below the limits none engages, and an update is linear in the offset, at some rate. -/
theorem Pll.updateOffset_linear (sqrtf : K → K) (s : Pll K) {interval : ℕ} (hint : interval ≤ 16)
    {measured : BitVec 64} {m : K} (hm : (1 / 2 ^ 32 : K) * (measured.toInt : K) = m)
    (hsmall : |m| ≤ 1 / 2 ^ 8)
    (hroom : |s.offsetIntegral| + 33 / 64 * |m| / 2 ^ interval ≤ PLL_MAX_FREQ_TRIM) :
    s.Unlimited sqrtf interval measured ∧ ∃ (r : K) (t : BitVec 32), 1 / 8 ≤ r ∧ r ≤ 1 / 2 ∧
      (s.PLL_updateOffset sqrtf interval measured).2 = .setTrim t ∧
      (s.PLL_updateOffset sqrtf interval measured).1.offsetIntegral =
        s.offsetIntegral + 1 / 32 * r * m / 2 ^ interval ∧
      |(1 / 2 ^ 32 : K) * (t.toInt : K) - (s.offsetIntegral + 33 / 32 * r * m / 2 ^ interval)| ≤
        1 / 2 ^ 32 := by
  obtain ⟨halign, hexact⟩ := toInt_of_small (hm ▸ hsmall)
  obtain ⟨hlo, hhi⟩ := abs_le.mp halign
  obtain ⟨r, hr, hr', hrate⟩ := (s.updateStats sqrtf m).rate_spec hint
  have hpow : (0 : K) < 2 ^ interval := by positivity
  -- both limits are out of reach
  have hwithin : ∀ k, 0 ≤ k → k ≤ 33 / 32 →
      |s.offsetIntegral + k * r * m / 2 ^ interval| ≤ PLL_MAX_FREQ_TRIM := by
    intro k hk hk'
    have hterm : |k * r * m / 2 ^ interval| ≤ 33 / 64 * |m| / 2 ^ interval := by
      rw [abs_div, abs_mul, abs_of_pos hpow, abs_of_nonneg (by positivity : 0 ≤ k * r)]
      have hkr : k * r ≤ 33 / 64 := by nlinarith
      gcongr
    exact (abs_add_le _ _).trans ((add_le_add_right hterm _).trans hroom)
  have hlimit : ∀ k, 0 ≤ k → k ≤ 33 / 32 →
      limit (-PLL_MAX_FREQ_TRIM) PLL_MAX_FREQ_TRIM
        (s.offsetIntegral + k * r * m / 2 ^ interval) =
        s.offsetIntegral + k * r * m / 2 ^ interval := by
    intro k hk hk'
    obtain ⟨hlo, hhi⟩ := abs_le.mp (hwithin k hk hk')
    exact limit_eq_self hlo hhi
  -- the state after the statistics and the control
  let s' := (s.updateStats sqrtf m).control interval m
  have hout : s.PLL_updateOffset sqrtf interval measured = (s', .setTrim s'.trim) := by
    unfold PLL_updateOffset
    rw [if_neg (by omega), hexact, hm]
  have hprop : s'.offsetProportion = m * (r / 2 ^ interval) := by
    show m * (s.updateStats sqrtf m).rate interval = _
    rw [hrate]
  have hterm : s.offsetIntegral + s'.offsetProportion * PLL_OFFSET_INT_RATE =
      s.offsetIntegral + 1 / 32 * r * m / 2 ^ interval := by
    rw [hprop, PLL_OFFSET_INT_RATE]
    ring
  have hintegral : s'.offsetIntegral = s.offsetIntegral + 1 / 32 * r * m / 2 ^ interval := by
    rw [← hlimit (1 / 32) (by norm_num) (by norm_num), ← hterm]
    show limit _ _ ((s.updateStats sqrtf m).offsetIntegral +
      s'.offsetProportion * PLL_OFFSET_INT_RATE) = _
    rw [updateStats_offsetIntegral]
  have hsum : s'.offsetProportion + s'.offsetIntegral =
      s.offsetIntegral + 33 / 32 * r * m / 2 ^ interval := by
    rw [hprop, hintegral]
    ring
  have hunlimited : s.Unlimited sqrtf interval measured := by
    refine ⟨⟨s'.trim, by rw [hout]⟩, ?_, ?_⟩
    · rw [hout, hterm]
      exact hwithin (1 / 32) (by norm_num) (by norm_num)
    · rw [hout, hsum]
      exact hwithin (33 / 32) (by norm_num) (le_refl _)
  refine ⟨hunlimited, r, s'.trim, hr, hr', by rw [hout], by rw [hout]; exact hintegral, ?_⟩
  have hround := s'.trim_spec.1.le
  rw [hsum, hlimit (33 / 32) (by norm_num) (le_refl _)] at hround
  rw [show (1 / 2 ^ 32 : K) * (s'.trim.toInt : K) -
      (s.offsetIntegral + 33 / 32 * r * m / 2 ^ interval) = 1 / 2 ^ 32 * ((s'.trim.toInt : K) -
        2 ^ 32 * (s.offsetIntegral + 33 / 32 * r * m / 2 ^ interval)) by ring, abs_mul,
    abs_of_pos (by positivity : (0 : K) < 1 / 2 ^ 32)]
  exact mul_le_of_le_one_right (by positivity) hround

/-! ## An update of the loop -/

/-- What disturbs an update at most: the noise, the rounding of the trim and the drift. -/
def Conditions.disturbance (c : Conditions K) : K :=
  c.noise + 2 ^ c.interval / 2 ^ 31 + 18 * (2 ^ c.interval * c.drift)

/-- The limits leave room for errors up to `S`, and the disturbances are smaller. -/
structure Conditions.Room (c : Conditions K) (S : K) : Prop where
  interval : c.interval ≤ 16
  freq : 2 ^ c.interval * c.freq + S + c.noise ≤ 2 ^ c.interval * PLL_MAX_FREQ_TRIM
  align : 3 / 2 * S + c.noise ≤ 1 / 2 ^ 8
  disturbance : 45 * c.disturbance ≤ S
  noise_nonneg : 0 ≤ c.noise
  drift_nonneg : 0 ≤ c.drift

variable {sqrtf : K → K} {c : Conditions K} {s s' : Loop K} {u : Update K} {S : K}

omit [FloorRing K] in
theorem Conditions.Room.disturbance_nonneg (hc : c.Room S) : 0 ≤ c.disturbance := by
  have h1 := hc.noise_nonneg
  have h2 := hc.drift_nonneg
  unfold Conditions.disturbance
  positivity

omit [FloorRing K] in
theorem Conditions.Room.nonneg (hc : c.Room S) : 0 ≤ S :=
  (mul_nonneg (by norm_num) hc.disturbance_nonneg).trans hc.disturbance

omit [FloorRing K] in
/-- The errors that the energy allows. -/
theorem sq_error_le (z : K × K) :
    z.1 ^ 2 ≤ 20 / 11 * (energy K).eval z ∧ z.2 ^ 2 ≤ 1 / 176 * (energy K).eval z := by
  have hdet : (176 : K) = 1 * 320 - -12 * -12 := by norm_num
  have h1 : 176 * z.1 ^ 2 ≤ 320 * (energy K).eval z := by
    rw [hdet]
    exact (energy K).sq_fst_le z
  have h2 : 176 * z.2 ^ 2 ≤ 1 * (energy K).eval z := by
    rw [hdet]
    exact (energy K).sq_snd_le z
  constructor <;> linarith

omit [FloorRing K] in
theorem abs_error_le (hS : 0 ≤ S) {z : K × K} (h : (energy K).eval z ≤ S ^ 2) :
    |z.1| ≤ 27 / 20 * S ∧ |z.2| ≤ 1 / 13 * S := by
  obtain ⟨h1, h2⟩ := sq_error_le z
  have hsq := sq_nonneg S
  constructor
  · exact abs_le_of_sq_le_sq (by rw [mul_pow]; linarith) (by positivity)
  · exact abs_le_of_sq_le_sq (by rw [mul_pow]; linarith) (by positivity)

omit [IsStrictOrderedRing K] in
theorem Loop.step_eq_some : s.step sqrtf c u = some s' ↔ s.Allowed c u ∧
    elapse c ({ s with pll := (s.pll.PLL_updateOffset sqrtf c.interval u.measured).1 }.output
      (s.pll.PLL_updateOffset sqrtf c.interval u.measured).2) u = s' := by
  unfold step
  by_cases h : s.Allowed c u
  · rw [if_pos h]
    exact ⟨fun hs => ⟨h, Option.some.inj hs⟩, fun hs => congrArg some hs.2⟩
  · rw [if_neg h]
    exact ⟨fun hs => absurd hs (by simp), fun hs => absurd hs.1 h⟩

/-- **One update**: no limit and no step of the clock engages, and the error changes as the linear
update says, but for the disturbance. -/
theorem Loop.error_step (hc : c.Room S) (he : (energy K).eval (s.error c) ≤ S ^ 2)
    (hs : s.step sqrtf c u = some s') : s.pll.Unlimited sqrtf c.interval u.measured ∧
      ∃ r d, 1 / 8 ≤ r ∧ r ≤ 1 / 2 ∧ s'.error c = update r u.jitter (s.error c) + d ∧
        |d.1| + 18 * |d.2| ≤ c.disturbance := by
  obtain ⟨⟨hnoise, hjitter, hdrift, hfreq⟩, hs⟩ := step_eq_some.mp hs
  have hS := hc.nonneg
  obtain ⟨hx, hy⟩ := abs_error_le hS he
  have hpow : (0 : K) < 2 ^ c.interval := by positivity
  obtain ⟨m, hm⟩ : ∃ m, (1 / 2 ^ 32 : K) * (u.measured.toInt : K) = m := ⟨_, rfl⟩
  rw [hm] at hnoise
  have hmabs : |m| ≤ 27 / 20 * S + c.noise := by
    calc |m| = |m - s.offset + s.offset| := by rw [sub_add_cancel]
      _ ≤ |m - s.offset| + |s.offset| := abs_add_le _ _
      _ ≤ c.noise + 27 / 20 * S := add_le_add hnoise hx
      _ = 27 / 20 * S + c.noise := add_comm _ _
  have hintegral : 2 ^ c.interval * |s.pll.offsetIntegral| ≤
      2 ^ c.interval * c.freq + 1 / 13 * S := by
    calc 2 ^ c.interval * |s.pll.offsetIntegral|
        = |2 ^ c.interval * s.freq - (s.error c).2| := by
          rw [← abs_of_pos hpow, ← abs_mul, abs_of_pos hpow, error]
          congr 1
          ring
      _ ≤ |2 ^ c.interval * s.freq| + |(s.error c).2| := abs_sub _ _
      _ ≤ 2 ^ c.interval * c.freq + 1 / 13 * S := by
          rw [abs_mul, abs_of_pos hpow]
          exact add_le_add (mul_le_mul_of_nonneg_left hfreq hpow.le) hy
  have hroom : |s.pll.offsetIntegral| + 33 / 64 * |m| / 2 ^ c.interval ≤ PLL_MAX_FREQ_TRIM := by
    refine le_of_mul_le_mul_left ?_ hpow
    rw [mul_add, mul_div_cancel₀ _ hpow.ne']
    linarith [hc.freq, hc.noise_nonneg]
  obtain ⟨hunlimited, r, t, hr, hr', hout, hnext, hround⟩ :=
    s.pll.updateOffset_linear sqrtf hc.interval hm (by linarith [hc.align]) hroom
  rw [hout] at hs
  subst hs
  obtain ⟨k, hk⟩ : ∃ k, (1 / 2 ^ 32 : K) * (t.toInt : K) -
    (s.pll.offsetIntegral + 33 / 32 * r * m / 2 ^ c.interval) = k := ⟨_, rfl⟩
  rw [hk] at hround
  refine ⟨hunlimited, r, (-((1 + u.jitter) * (33 / 32 * r * (m - s.offset) + 2 ^ c.interval * k)),
    2 ^ c.interval * u.drift - 1 / 32 * r * (m - s.offset)), hr, hr', ?_, ?_⟩
  · ext
    · show s.offset + 2 ^ c.interval * (1 + u.jitter) *
        (s.freq - (1 / 2 ^ 32 : K) * (t.toInt : K)) = _
      rw [sub_eq_iff_eq_add.mp hk]
      simp only [error, update, Prod.fst_add]
      field_simp
      ring
    · show 2 ^ c.interval * (s.freq + u.drift -
        (s.pll.PLL_updateOffset sqrtf c.interval u.measured).1.offsetIntegral) = _
      rw [hnext]
      simp only [error, update, Prod.snd_add]
      field_simp
      ring
  · obtain ⟨hjlo, hjhi⟩ := abs_le.mp hjitter
    have hfst : |-((1 + u.jitter) * (33 / 32 * r * (m - s.offset) + 2 ^ c.interval * k))| ≤
        17 / 16 * (33 / 64 * c.noise + 2 ^ c.interval * (1 / 2 ^ 32)) := by
      rw [abs_neg, abs_mul, abs_of_nonneg (by linarith : 0 ≤ 1 + u.jitter)]
      refine mul_le_mul (by linarith) ((abs_add_le _ _).trans (add_le_add ?_ ?_))
        (abs_nonneg _) (by norm_num)
      · rw [abs_mul, abs_of_nonneg (by linarith : 0 ≤ 33 / 32 * r)]
        exact mul_le_mul (by linarith) hnoise (abs_nonneg _) (by norm_num)
      · rw [abs_mul, abs_of_pos hpow]
        exact mul_le_mul_of_nonneg_left hround hpow.le
    have hsnd : |2 ^ c.interval * u.drift - 1 / 32 * r * (m - s.offset)| ≤
        2 ^ c.interval * c.drift + 1 / 64 * c.noise := by
      refine (abs_sub _ _).trans (add_le_add ?_ ?_)
      · rw [abs_mul, abs_of_pos hpow]
        exact mul_le_mul_of_nonneg_left hdrift hpow.le
      · rw [abs_mul, abs_of_nonneg (by linarith : 0 ≤ 1 / 32 * r)]
        exact mul_le_mul (by linarith) hnoise (abs_nonneg _) (by norm_num)
    have hdrift0 := mul_nonneg hpow.le hc.drift_nonneg
    dsimp only
    unfold Conditions.disturbance
    linarith [hc.noise_nonneg]

theorem Loop.energy_step (hc : c.Room S) (he : (energy K).eval (s.error c) ≤ S ^ 2)
    (hs : s.step sqrtf c u = some s') :
    (energy K).eval (s'.error c) ≤
      31 / 32 * (energy K).eval (s.error c) + (1 - 31 / 32) * (1984 * c.disturbance ^ 2) := by
  obtain ⟨-, r, d, hr, hr', heq, hd⟩ := error_step hc he hs
  have hjitter := (step_eq_some.mp hs).1.2.1
  calc (energy K).eval (s'.error c) = (energy K).eval (update r u.jitter (s.error c) + d) := by
        rw [heq]
    _ ≤ (1 + 1 / 61) * (energy K).eval (update r u.jitter (s.error c)) +
          (1 + 1 / (1 / 61)) * (energy K).eval d := PosForm.eval_add_le _ (by norm_num) _ _
    _ ≤ (1 + 1 / 61) * (61 / 64 * (energy K).eval (s.error c)) +
          (1 + 1 / (1 / 61)) * c.disturbance ^ 2 := by
        gcongr
        · exact energy_update_le hr hr' hjitter _
        · exact energy_le_sq hd
    _ = 31 / 32 * (energy K).eval (s.error c) + (1 - 31 / 32) * (1984 * c.disturbance ^ 2) := by
        ring

/-! ## Every run -/

omit [FloorRing K] in
theorem Conditions.Room.disturbance_sq (hc : c.Room S) : 1984 * c.disturbance ^ 2 ≤ S ^ 2 := by
  have h0 := hc.disturbance_nonneg
  calc 1984 * c.disturbance ^ 2 ≤ (45 * c.disturbance) ^ 2 := by
        rw [mul_pow]
        gcongr
        norm_num
    _ ≤ S ^ 2 := pow_le_pow_left₀ (by positivity) hc.disturbance 2

/-- An update of a clock that is locked: its error is small, and no limit of the controller and no
step of the clock engages. -/
structure Loop.Locked (sqrtf : K → K) (c : Conditions K) (S : K) (s : Loop K) (u : Update K) :
    Prop where
  energy_le : (energy K).eval (s.error c) ≤ S ^ 2
  unlimited : s.pll.Unlimited sqrtf c.interval u.measured

theorem Loop.locked_of_run {h : List (Loop K × Update K)} {s₀ : Loop K} (hc : c.Room S)
    (hstart : (energy K).eval (s₀.error c) ≤ S ^ 2) (hrun : Run (Loop.step sqrtf c) s₀ h s) :
    (energy K).eval (s.error c) ≤ S ^ 2 ∧ ∀ p ∈ h, p.1.Locked sqrtf c S p.2 := by
  refine hrun.invariant (I := fun h s => (energy K).eval (s.error c) ≤ S ^ 2 ∧
    ∀ p ∈ h, p.1.Locked sqrtf c S p.2) ⟨hstart, by simp⟩ ?_
  intro h s u s' hi hs
  refine ⟨?_, List.forall_mem_cons.mpr ⟨⟨hi.1, (error_step hc hi.1 hs).1⟩, hi.2⟩⟩
  have hle := energy_step hc hi.1 hs
  linarith [hi.1, hc.disturbance_sq]

/-- **The loop locks**: from an error that the limits leave room for, at any rate of the controller,
the energy of the error goes down to that of the noise, the rounding and the drift, and the offset
with it. -/
theorem Loop.locks_of_run {h : List (Loop K × Update K)} {s₀ : Loop K} (hc : c.Room S)
    (hstart : (energy K).eval (s₀.error c) ≤ S ^ 2) (hrun : Run (Loop.step sqrtf c) s₀ h s) :
    s.offset ^ 2 ≤ 20 / 11 *
        ((31 / 32) ^ h.length * (energy K).eval (s₀.error c) + 1984 * c.disturbance ^ 2) ∧
      ∀ p ∈ h, p.1.Locked sqrtf c S p.2 := by
  have hlocked := (locked_of_run hc hstart hrun).2
  refine ⟨?_, hlocked⟩
  have henergy := hrun.energy_le (e := fun s => (energy K).eval (s.error c)) (by norm_num)
    (by positivity) fun p hp s' hs => energy_step hc (hlocked p hp).energy_le hs
  exact (sq_error_le (s.error c)).1.trans (mul_le_mul_of_nonneg_left henergy (by norm_num))

/-- A measurement every second, to a tenth of a microsecond. -/
def everySecond : Conditions ℚ := ⟨0, 1 / 10 ^ 7, 0, 1 / 10 ^ 4⟩

/-- A clock that is a microsecond late. -/
def microsecondLate : Loop ℚ := ⟨Pll.init, 1 / 10 ^ 6, 0, 0⟩

theorem Loop.locks_of_run_microsecond : ∃ h s,
    Run (Loop.step id everySecond) microsecondLate h s ∧ h.length = 2 ∧
      everySecond.Room (1 / 10 ^ 4) ∧
      (energy ℚ).eval (microsecondLate.error everySecond) ≤ (1 / 10 ^ 4) ^ 2 ∧
      s.offset ^ 2 ≤ 20 / 11 * ((31 / 32) ^ h.length *
        (energy ℚ).eval (microsecondLate.error everySecond) +
          1984 * everySecond.disturbance ^ 2) ∧
      ∀ p ∈ h, p.1.Locked id everySecond (1 / 10 ^ 4) p.2 := by
  have hc : everySecond.Room (1 / 10 ^ 4) :=
    ⟨by decide, by norm_num [everySecond, PLL_MAX_FREQ_TRIM], by norm_num [everySecond],
      by norm_num [everySecond, Conditions.disturbance], by norm_num [everySecond],
      by norm_num [everySecond]⟩
  have hstart : (energy ℚ).eval (microsecondLate.error everySecond) ≤ (1 / 10 ^ 4) ^ 2 := by
    norm_num [PosForm.eval, energy, error, everySecond, microsecondLate, Pll.init]
  obtain ⟨h, s, hrun, hlen⟩ := @exists_run_of_replay _ _ (Loop.step id everySecond)
    microsecondLate [⟨4295, 0, 0⟩, ⟨2080, 0, 0⟩] (fun h _ => decide (h.length = 2))
    (by decide +kernel)
  obtain ⟨hle, hlocked⟩ := Loop.locks_of_run hc hstart hrun
  exact ⟨h, s, hrun, of_decide_eq_true hlen, hc, hstart, hle, hlocked⟩

end Gpsdo.Ntp
