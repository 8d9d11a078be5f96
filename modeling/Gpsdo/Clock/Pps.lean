import Gpsdo.Clock.Convert

set_option autoImplicit false

/-! # The PPS output (`lib/clock/tai.cpp`)

`runPpsTai` looks for the monotonic time at which the next second of TAI begins. It takes back the
two corrections of `tai::now` by the same functions with the rates negated, and programs the timer
with the ticks that are left until then.
-/

namespace Gpsdo.Clock

/-! ## Code -/

/-- The time that the output is high: 100 ms. -/
def PPS_HIGH : ℕ := CLK_FREQ / 10

/-- A turn of the first loop does not overflow. -/
theorem toInt_add_CLK_FREQ {delta : BitVec 32} (h : delta.toInt ≤ CLK_FREQ / 2) :
    (delta + BitVec.ofNat 32 CLK_FREQ).toInt = delta.toInt + CLK_FREQ := by
  have hlo := (toInt_bounds delta).1
  have hfreq : (BitVec.ofNat 32 CLK_FREQ).toInt = 125000000 := by decide
  have hticks : (CLK_FREQ : ℤ) = 125000000 := by decide
  rw [hticks] at h ⊢
  rw [BitVec.toInt_add, hfreq]
  exact bmod_of_abs_lt (w := 31) (abs_lt.mpr ⟨by omega, by omega⟩)

/-- Nor does one of the second. -/
theorem toInt_sub_CLK_FREQ {delta : BitVec 32} (h : CLK_FREQ * 2 ≤ delta.toInt) :
    (delta - BitVec.ofNat 32 CLK_FREQ).toInt = delta.toInt - CLK_FREQ := by
  have hhi := (toInt_bounds delta).2
  have hfreq : (BitVec.ofNat 32 CLK_FREQ).toInt = 125000000 := by decide
  have hticks : (CLK_FREQ : ℤ) = 125000000 := by decide
  rw [hticks] at h ⊢
  rw [BitVec.toInt_sub, hfreq]
  exact bmod_of_abs_lt (w := 31) (abs_lt.mpr ⟨by omega, by omega⟩)

/-- `while (delta <= CLK_FREQ / 2)` -/
def raiseDelta (delta : BitVec 32) : BitVec 32 :=
  if delta.toInt ≤ CLK_FREQ / 2 then raiseDelta (delta + BitVec.ofNat 32 CLK_FREQ) else delta
termination_by (2 ^ 31 - delta.toInt).toNat
decreasing_by
  rename_i h
  have hstep := toInt_add_CLK_FREQ h
  have hticks : (CLK_FREQ : ℤ) = 125000000 := by decide
  rw [hticks] at h hstep
  omega

/-- `while (delta >= CLK_FREQ * 2)` -/
def lowerDelta (delta : BitVec 32) : BitVec 32 :=
  if CLK_FREQ * 2 ≤ delta.toInt then lowerDelta (delta - BitVec.ofNat 32 CLK_FREQ) else delta
termination_by delta.toInt.toNat
decreasing_by
  rename_i h
  have hstep := toInt_sub_CLK_FREQ h
  have hticks : (CLK_FREQ : ℤ) = 125000000 := by decide
  rw [hticks] at h hstep
  omega

/-- What `runPpsTai` computes when it schedules a second: the second, its compensated and its
monotonic time, and `clkPpsLow`. -/
structure PpsSecond where
  boundary : BitVec 64
  comp : BitVec 64
  mono : BitVec 64
  low : BitVec 32
  deriving DecidableEq, Repr

/-- `runPpsTai`, when `monotonic::now` reads `now`. -/
def runPpsTai (clkComp clkTai : Trim (BitVec 64)) (now : BitVec 64) (clkMonoPps : BitVec 32) :
    Option PpsSecond :=
  let full := now + clkComp.offset + clkTai.offset
  -- the fraction of the second
  if 0xE0000000#32 ≤ full.setWidth 32 then
    let boundary := ((full >>> 32).setWidth 32 + 1 : BitVec 32).setWidth 64 <<< 32
    -- translate to the compensated domain
    let full := boundary - clkTai.offset
    let r := corrFracRem (-clkTai.rate) (lo32 (full - clkTai.ref)) 0
    let comp := full + ofInt32 r.1
    -- translate to the monotonic domain
    let full := comp - clkComp.offset
    let r := corrFracRem (-clkComp.rate) (lo32 (full - clkComp.ref)) r.2
    let mono := full + ofInt32 r.1
    -- translate to raw timer ticks
    let full := mono * BitVec.ofNat 64 CLK_FREQ
    let delta := (full >>> 32).setWidth 32 - clkMonoPps
    let delta := lowerDelta (raiseDelta delta)
    some ⟨boundary, comp, mono, delta - BitVec.ofNat 32 PPS_HIGH - 1⟩
  else none

/-! ## The interval -/

/-- The first loop ends above half a second. -/
theorem raiseDelta_spec (delta : BitVec 32) :
    (CLK_FREQ : ℤ) / 2 < (raiseDelta delta).toInt ∧
      (raiseDelta delta).toInt ≡ delta.toInt [ZMOD CLK_FREQ] := by
  induction delta using raiseDelta.induct with
  | case1 delta hle ih =>
      rw [raiseDelta, if_pos hle]
      refine ⟨ih.1, ih.2.trans ?_⟩
      rw [toInt_add_CLK_FREQ hle]
      exact Int.add_modEq_right
  | case2 delta hgt =>
      rw [raiseDelta, if_neg hgt]
      exact ⟨not_le.mp hgt, Int.ModEq.refl _⟩

/-- The second loop ends below two seconds, and does not go back below half of one. -/
theorem lowerDelta_spec {delta : BitVec 32} (h : (CLK_FREQ : ℤ) / 2 < delta.toInt) :
    ((CLK_FREQ : ℤ) / 2 < (lowerDelta delta).toInt ∧ (lowerDelta delta).toInt < CLK_FREQ * 2) ∧
      (lowerDelta delta).toInt ≡ delta.toInt [ZMOD CLK_FREQ] := by
  induction delta using lowerDelta.induct with
  | case1 delta hge ih =>
      have hstep := toInt_sub_CLK_FREQ hge
      have hticks : (CLK_FREQ : ℤ) = 125000000 := by decide
      have hnext := ih (by rw [hstep, hticks]; rw [hticks] at hge; omega)
      rw [lowerDelta, if_pos hge]
      refine ⟨hnext.1, hnext.2.trans ?_⟩
      rw [hstep]
      exact (Int.modEq_iff_dvd.mpr ⟨1, by ring⟩)
  | case2 delta hlt =>
      rw [lowerDelta, if_neg hlt]
      exact ⟨⟨h, not_le.mp hlt⟩, Int.ModEq.refl _⟩

/-! ## The second -/

variable {clkComp clkTai : Trim (BitVec 64)} {now : BitVec 64} {clkMonoPps : BitVec 32}
  {p : PpsSecond}

/-- What is computed when a second is scheduled. -/
theorem runPpsTai_some (h : runPpsTai clkComp clkTai now clkMonoPps = some p) :
    p.comp = p.boundary - clkTai.offset + ofInt32 (corrFracRem (-clkTai.rate)
        (lo32 (p.boundary - clkTai.offset - clkTai.ref)) 0).1 ∧
      p.mono = p.comp - clkComp.offset + ofInt32 (corrFracRem (-clkComp.rate)
        (lo32 (p.comp - clkComp.offset - clkComp.ref)) (corrFracRem (-clkTai.rate)
          (lo32 (p.boundary - clkTai.offset - clkTai.ref)) 0).2).1 ∧
      p.low = lowerDelta (raiseDelta (((p.mono * BitVec.ofNat 64 CLK_FREQ) >>> 32).setWidth 32 -
        clkMonoPps)) - BitVec.ofNat 32 PPS_HIGH - 1 := by
  unfold runPpsTai at h
  dsimp only at h
  split at h
  · have hp := Option.some.inj h
    subst hp
    dsimp only
    exact ⟨rfl, rfl, rfl⟩
  · exact absurd h (Option.some_ne_none p).symm

/-- The interval that is programmed ends at the second, modulo a second, and is longer than half of
one and shorter than two. -/
def TicksAligned (p : PpsSecond) (clkMonoPps : BitVec 32) : Prop :=
  ((p.low.toNat : ℤ) + PPS_HIGH + 1 ≡ (BitVec.ofNat 32 (p.mono.toNat * CLK_FREQ / 2 ^ 32) -
      clkMonoPps).toInt [ZMOD CLK_FREQ]) ∧
    (CLK_FREQ : ℤ) / 2 < p.low.toNat + PPS_HIGH + 1 ∧
    (p.low.toNat : ℤ) + PPS_HIGH + 1 < 2 * CLK_FREQ

theorem ticksAligned (h : runPpsTai clkComp clkTai now clkMonoPps = some p) :
    TicksAligned p clkMonoPps := by
  unfold TicksAligned
  have hticks : ((p.mono * BitVec.ofNat 64 CLK_FREQ) >>> 32).setWidth 32 =
      BitVec.ofNat 32 (p.mono.toNat * CLK_FREQ / 2 ^ 32) := by
    apply BitVec.eq_of_toNat_eq
    have hfreq : (BitVec.ofNat 64 CLK_FREQ).toNat = CLK_FREQ := by decide
    rw [BitVec.toNat_setWidth, BitVec.toNat_ushiftRight, BitVec.toNat_mul, hfreq,
      Nat.shiftRight_eq_div_pow, BitVec.toNat_ofNat]
    generalize p.mono.toNat * CLK_FREQ = x
    omega
  rw [(runPpsTai_some h).2.2, hticks]
  generalize BitVec.ofNat 32 (p.mono.toNat * CLK_FREQ / 2 ^ 32) - clkMonoPps = delta
  obtain ⟨hraise, hraised⟩ := raiseDelta_spec delta
  obtain ⟨⟨hlo, hhi⟩, hmod⟩ := lowerDelta_spec hraise
  have hlow : ((lowerDelta (raiseDelta delta) - BitVec.ofNat 32 PPS_HIGH - 1).toNat : ℤ) +
      PPS_HIGH + 1 = (lowerDelta (raiseDelta delta)).toInt := by
    have hfreq : (CLK_FREQ : ℤ) = 125000000 := by decide
    have hhigh : (PPS_HIGH : ℤ) = 12500000 := by decide
    have hhigh' : (BitVec.ofNat 32 PPS_HIGH).toNat = 12500000 := by decide
    have hone : (1 : BitVec 32).toNat = 1 := rfl
    rw [hfreq] at hlo hhi
    rw [BitVec.toNat_sub, BitVec.toNat_sub, hhigh, hhigh', hone]
    rw [BitVec.toInt_eq_toNat_cond] at hlo hhi ⊢
    split at hlo <;> omega
  rw [hlow, mul_comm 2]
  exact ⟨hmod.trans hraised, hlo, hhi⟩

/-! ## The error -/

/-- The corrections that are taken back with the rates negated, and those that are made then: the
fractions carry over, and what does not cancel is the correction of a correction. -/
theorem corrections_cancel {N r c d₁ d₂ c₁ c₂ g₁ g₂ f₁ f₂ h₁ h₂ : ℤ}
    (h1 : N * c₁ + f₁ = -r * d₁) (h2 : N * c₂ + f₂ = -c * d₂ + f₁)
    (h3 : N * g₁ + h₁ = c * (d₂ + c₂)) (h4 : N * g₂ + h₂ = r * (d₁ + c₁ + c₂ + g₁) + h₁) :
    N * (c₁ + c₂ + g₁ + g₂) = c * c₂ + r * (c₁ + c₂ + g₁) - f₂ - h₂ := by
  linear_combination h1 + h2 + h3 + h4

/-- The bounds of the rates: 250 ppm. -/
def RATE_BOUND : ℤ := 1073742

/-- A correction of at most half a second is less than `RATE_BOUND / 2 + 2`. -/
theorem abs_correction_lt {rate d f f' c : ℤ} (hrate : |rate| ≤ RATE_BOUND) (hd : |d| ≤ 2 ^ 31)
    (hf : 0 ≤ f ∧ f < 2 ^ 32) (hf' : 0 ≤ f' ∧ f' < 2 ^ 32) (h : 2 ^ 32 * c + f = rate * d + f') :
    |c| ≤ 536872 := by
  have hprod : |rate * d| ≤ RATE_BOUND * 2 ^ 31 := by
    rw [abs_mul]
    exact mul_le_mul hrate hd (abs_nonneg _) (by decide)
  rw [RATE_BOUND] at hprod
  obtain ⟨hlo, hhi⟩ := abs_le.mp hprod
  exact abs_le.mpr ⟨by omega, by omega⟩

/-- The error of the two corrections: 135 units for a correction of a correction in each stage, and
two units that are rounded away. -/
theorem abs_error_lt {r c d₁ d₂ c₁ c₂ g₁ g₂ f₁ f₂ h₁ h₂ : ℤ} (hr : |r| ≤ RATE_BOUND)
    (hc : |c| ≤ RATE_BOUND) (hd₁ : |d₁| ≤ 2 ^ 31) (hd₂ : |d₂| ≤ 2 ^ 31)
    (hf₁ : 0 ≤ f₁ ∧ f₁ < 2 ^ 32) (hf₂ : 0 ≤ f₂ ∧ f₂ < 2 ^ 32) (hh₁ : 0 ≤ h₁ ∧ h₁ < 2 ^ 32)
    (hh₂ : 0 ≤ h₂ ∧ h₂ < 2 ^ 32) (h1 : 2 ^ 32 * c₁ + f₁ = -r * d₁)
    (h2 : 2 ^ 32 * c₂ + f₂ = -c * d₂ + f₁) (h3 : 2 ^ 32 * g₁ + h₁ = c * (d₂ + c₂))
    (h4 : 2 ^ 32 * g₂ + h₂ = r * (d₁ + c₁ + c₂ + g₁) + h₁) : |c₁ + c₂ + g₁ + g₂| < 512 := by
  have hzero : (0 : ℤ) ≤ 0 ∧ (0 : ℤ) < 2 ^ 32 := by decide
  have hc₁ := abs_correction_lt (by rwa [abs_neg]) hd₁ hf₁ hzero (h1.trans (add_zero _).symm)
  have hc₂ := abs_correction_lt (by rwa [abs_neg]) hd₂ hf₂ hf₁ h2
  -- a correction of a correction: 135 units
  have hprod : |c * c₂| ≤ RATE_BOUND * 536872 := by
    rw [abs_mul]
    exact mul_le_mul hc hc₂ (abs_nonneg _) (by decide)
  -- the second correction and the one that takes it back
  have hpair : |c₂ + g₁| ≤ 137 := by
    have hsum : 2 ^ 32 * (c₂ + g₁) = c * c₂ + f₁ - f₂ - h₁ := by linear_combination h2 + h3
    rw [RATE_BOUND] at hprod
    obtain ⟨hlo, hhi⟩ := abs_le.mp hprod
    exact abs_le.mpr ⟨by omega, by omega⟩
  have hahead : |r * (c₁ + c₂ + g₁)| ≤ RATE_BOUND * 537009 := by
    rw [abs_mul, add_assoc]
    refine mul_le_mul hr ?_ (abs_nonneg _) (by decide)
    calc |c₁ + (c₂ + g₁)| ≤ |c₁| + |c₂ + g₁| := abs_add_le _ _
      _ ≤ 536872 + 137 := add_le_add hc₁ hpair
      _ = 537009 := by norm_num
  have hsum := corrections_cancel h1 h2 h3 h4
  rw [RATE_BOUND] at hprod hahead
  obtain ⟨hlo, hhi⟩ := abs_le.mp hprod
  obtain ⟨hlo', hhi'⟩ := abs_le.mp hahead
  exact abs_lt.mpr ⟨by omega, by omega⟩

/-! ## The monotonic time of the second -/

theorem toInt_add_ofInt32 {x : BitVec 64} (h : |x.toInt| ≤ 2 ^ 40) (c : BitVec 32) :
    (x + ofInt32 c).toInt = x.toInt + c.toInt := by
  have hc := toInt_bounds c
  obtain ⟨hlo, hhi⟩ := abs_le.mp h
  have hcast : (ofInt32 c : BitVec 64) = BitVec.ofInt 64 c.toInt := rfl
  rw [hcast, BitVec.toInt_add, BitVec.toInt_ofInt, Int.add_bmod_bmod]
  exact bmod_of_abs_lt (w := 63) (abs_lt.mpr ⟨by omega, by omega⟩)

/-- Three corrections in a row. -/
theorem toInt_add_three {x : BitVec 64} (h : |x.toInt| ≤ 2 ^ 31) (a b c : BitVec 32) :
    (x + ofInt32 a + ofInt32 b + ofInt32 c).toInt = x.toInt + a.toInt + b.toInt + c.toInt := by
  obtain ⟨hlo, hhi⟩ := abs_le.mp h
  have ha := toInt_bounds a
  have hb := toInt_bounds b
  have hfst : (x + ofInt32 a).toInt = x.toInt + a.toInt :=
    toInt_add_ofInt32 (abs_le.mpr ⟨by omega, by omega⟩) a
  have hsnd : (x + ofInt32 a + ofInt32 b).toInt = x.toInt + a.toInt + b.toInt := by
    rw [toInt_add_ofInt32, hfst]
    exact abs_le.mpr ⟨by omega, by omega⟩
  rw [toInt_add_ofInt32, hsnd]
  exact abs_le.mpr ⟨by omega, by omega⟩

theorem toInt_ofInt32 (c : BitVec 32) : (ofInt32 c : BitVec 64).toInt = c.toInt := by
  have hc := toInt_bounds c
  have hcast : (ofInt32 c : BitVec 64) = BitVec.ofInt 64 c.toInt := rfl
  rw [hcast, BitVec.toInt_ofInt]
  exact bmod_of_abs_lt (w := 63) (abs_lt.mpr ⟨by omega, by omega⟩)

theorem toInt_neg_rate {rate : BitVec 32} (h : |rate.toInt| ≤ RATE_BOUND) :
    (-rate).toInt = -rate.toInt := by
  rw [RATE_BOUND] at h
  obtain ⟨hlo, hhi⟩ := abs_le.mp h
  rw [BitVec.toInt_neg]
  exact bmod_of_abs_lt (w := 31) (abs_lt.mpr ⟨by omega, by omega⟩)

theorem abs_le_of_near {d : ℤ} (h : Near d) : |d| ≤ 2 ^ 31 := abs_le.mpr ⟨h.1, h.2.le⟩

/-- The reading of `tai::now` goes over that of `compensated::now`. -/
theorem tai.now_eq (clkComp clkTai : Trim (BitVec 64)) (ts : BitVec 64) :
    tai.now clkComp clkTai ts = compensated.now clkComp ts +
      ofInt32 (corrFracRem clkTai.rate (lo32 (compensated.now clkComp ts - clkTai.ref))
        (corrFracRem clkComp.rate (lo32 (ts - clkComp.ref)) 0).2).1 + clkTai.offset := by
  have hread : ts + ofInt32 (corrFracRem clkComp.rate (lo32 (ts - clkComp.ref)) 0).1 +
      clkComp.offset = compensated.now clkComp ts := by
    rw [compensated.now_eq_corrFracRem]
    ring
  unfold tai.now
  dsimp only
  rw [hread]

/-- **The second begins when it is scheduled**, to within 512 units, if the differences from the
references fit into 32 bits on the way there and on the way back. -/
theorem abs_now_sub_boundary_lt (hrun : runPpsTai clkComp clkTai now clkMonoPps = some p)
    (hcomp : |clkComp.rate.toInt| ≤ RATE_BOUND) (htai : |clkTai.rate.toInt| ≤ RATE_BOUND)
    (h1 : Near (p.boundary - clkTai.offset - clkTai.ref).toInt)
    (h2 : Near (p.comp - clkComp.offset - clkComp.ref).toInt)
    (h3 : Near (p.mono - clkComp.ref).toInt)
    (h4 : Near (compensated.now clkComp p.mono - clkTai.ref).toInt) :
    |(tai.now clkComp clkTai p.mono - p.boundary).toInt| < 512 := by
  obtain ⟨hc, hm, -⟩ := runPpsTai_some hrun
  have e1 := corrFracRem_eq (-clkTai.rate) h1 0
  have e2 := corrFracRem_eq (-clkComp.rate) h2 (corrFracRem (-clkTai.rate)
    (lo32 (p.boundary - clkTai.offset - clkTai.ref)) 0).2
  have e3 := corrFracRem_eq clkComp.rate h3 0
  have e4 := corrFracRem_eq clkTai.rate h4
    (corrFracRem clkComp.rate (lo32 (p.mono - clkComp.ref)) 0).2
  have hnow := tai.now_eq clkComp clkTai p.mono
  have hread := compensated.now_eq_corrFracRem clkComp p.mono
  generalize corrFracRem (-clkTai.rate) (lo32 (p.boundary - clkTai.offset - clkTai.ref)) 0 = q₁ at *
  generalize corrFracRem (-clkComp.rate) (lo32 (p.comp - clkComp.offset - clkComp.ref)) q₁.2 = q₂ at *
  generalize corrFracRem clkComp.rate (lo32 (p.mono - clkComp.ref)) 0 = q₃ at *
  generalize corrFracRem clkTai.rate (lo32 (compensated.now clkComp p.mono - clkTai.ref)) q₃.2 = q₄
    at *
  -- the differences on the way back are those on the way there, and the corrections in between
  have hback : p.mono - clkComp.ref = p.comp - clkComp.offset - clkComp.ref + ofInt32 q₂.1 := by
    rw [hm]
    ring
  have hback' : compensated.now clkComp p.mono - clkTai.ref =
      p.boundary - clkTai.offset - clkTai.ref + ofInt32 q₁.1 + ofInt32 q₂.1 + ofInt32 q₃.1 := by
    rw [hread, hm, hc]
    ring
  have hdiff : tai.now clkComp clkTai p.mono - p.boundary =
      ofInt32 q₁.1 + ofInt32 q₂.1 + ofInt32 q₃.1 + ofInt32 q₄.1 := by
    rw [hnow, hread, hm, hc]
    ring
  have hsum : (tai.now clkComp clkTai p.mono - p.boundary).toInt =
      q₁.1.toInt + q₂.1.toInt + q₃.1.toInt + q₄.1.toInt := by
    rw [hdiff, toInt_add_three, toInt_ofInt32]
    rw [toInt_ofInt32]
    exact abs_le_of_near (toInt_bounds q₁.1)
  have hzero : ((0 : BitVec 32).toNat : ℤ) = 0 := rfl
  rw [hzero, add_zero] at e1 e3
  rw [toInt_neg_rate htai] at e1
  rw [toInt_neg_rate hcomp] at e2
  rw [hback, toInt_add_ofInt32 ((abs_le_of_near h2).trans (by norm_num))] at e3
  rw [hback', toInt_add_three (abs_le_of_near h1)] at e4
  rw [hsum]
  exact abs_error_lt htai hcomp (abs_le_of_near h1) (abs_le_of_near h2) (toNat_bounds q₁.2)
    (toNat_bounds q₂.2) (toNat_bounds q₃.2) (toNat_bounds q₄.2) e1 e2 e3 e4

/-- **The PPS output is aligned with TAI.** -/
theorem runPpsTai_aligned (hrun : runPpsTai clkComp clkTai now clkMonoPps = some p)
    (hcomp : |clkComp.rate.toInt| ≤ RATE_BOUND) (htai : |clkTai.rate.toInt| ≤ RATE_BOUND)
    (h1 : Near (p.boundary - clkTai.offset - clkTai.ref).toInt)
    (h2 : Near (p.comp - clkComp.offset - clkComp.ref).toInt)
    (h3 : Near (p.mono - clkComp.ref).toInt)
    (h4 : Near (compensated.now clkComp p.mono - clkTai.ref).toInt) :
    |(tai.now clkComp clkTai p.mono - p.boundary).toInt| < 512 ∧ TicksAligned p clkMonoPps :=
  ⟨abs_now_sub_boundary_lt hrun hcomp htai h1 h2 h3 h4, ticksAligned hrun⟩

/-! ## Runs before the first second -/

/-- A clock without an offset. -/
def clockSince (ref : BitVec 64) (rate : BitVec 32) : Trim (BitVec 64) := ⟨0, ref, rate, 0⟩

theorem exists_firstSecond :
    ∃ p, runPpsTai (clockSince 0xF0000000 1000) (clockSince 0xF0000000 (-1000)) 0xF0000000 0 =
        some p ∧ p.boundary = 0x100000000 ∧ p.comp = 0x10000003E ∧ p.mono = 0xFFFFFFFF := by
  unfold runPpsTai
  dsimp only
  rw [if_pos (by decide)]
  refine ⟨_, rfl, ?_, ?_, ?_⟩
  · decide
  · decide
  · decide

theorem runPpsTai_aligned_firstSecond :
    ∃ p, runPpsTai (clockSince 0xF0000000 1000) (clockSince 0xF0000000 (-1000)) 0xF0000000 0 =
        some p ∧
      |(tai.now (clockSince 0xF0000000 1000) (clockSince 0xF0000000 (-1000)) p.mono -
        p.boundary).toInt| < 512 ∧ TicksAligned p 0 := by
  obtain ⟨p, hrun, hboundary, hcomp, hmono⟩ := exists_firstSecond
  refine ⟨p, hrun, runPpsTai_aligned hrun (by decide) (by decide) ?_ ?_ ?_ ?_⟩
  · rw [hboundary]
    decide
  · rw [hcomp]
    decide
  · rw [hmono]
    decide
  · rw [hmono]
    decide

/-- The compensated clock was updated half a second before the second, less a unit. -/
theorem exists_lateSecond :
    ∃ p, runPpsTai (clockSince 0x80000001 (-1073742)) (clockSince 0x100000000 0) 0xF0000000 0 =
        some p ∧ p.boundary = 0x100000000 ∧ p.comp = 0x100000000 ∧ p.mono = 0x100083126 := by
  unfold runPpsTai
  dsimp only
  rw [if_pos (by decide)]
  refine ⟨_, rfl, ?_, ?_, ?_⟩
  · decide
  · decide
  · decide

/-- The monotonic time of the second is then more than half a second after the update, and
`tai::now` takes the difference for a negative one. -/
theorem runPpsTai_lateSecond :
    ¬∀ (clkComp clkTai : Trim (BitVec 64)) (now : BitVec 64) (clkMonoPps : BitVec 32)
      (p : PpsSecond), runPpsTai clkComp clkTai now clkMonoPps = some p →
      |clkComp.rate.toInt| ≤ RATE_BOUND → |clkTai.rate.toInt| ≤ RATE_BOUND →
      Near (p.boundary - clkTai.offset - clkTai.ref).toInt →
      Near (p.comp - clkComp.offset - clkComp.ref).toInt →
      |(tai.now clkComp clkTai p.mono - p.boundary).toInt| ≤ 512 ∧ TicksAligned p clkMonoPps := by
  intro h
  obtain ⟨p, hrun, hboundary, hcomp, hmono⟩ := exists_lateSecond
  have herror := (h _ _ _ _ p hrun (by decide) (by decide) (by rw [hboundary]; decide)
    (by rw [hcomp]; decide)).1
  rw [hmono, hboundary] at herror
  exact absurd herror (by decide)

end Gpsdo.Clock
