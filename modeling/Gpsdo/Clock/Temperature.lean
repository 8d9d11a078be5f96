import Gpsdo.Basic.LeastSquares
import Gpsdo.Basic.Numeral
import Gpsdo.Clock.Capture

set_option autoImplicit false

/-! # The temperature (`lib/clock/capture.cpp`)

The sensor puts out a frequency of four cycles a second for every kelvin. `temperature` fits a line
to the last 255 edges in the ring: the slope is the period of the output, in ticks. Here the
computation is in exact numbers.
-/

namespace Gpsdo.Clock

open LeastSquares Numeral

/-! ## Code -/

namespace Capture

local instance neZero_ring : NeZero RING_SIZE := ⟨by decide⟩

/-- `RING_MASK / 2` -/
def mid : ℕ := 127

/-- `ringBuffer[pos & RING_MASK]` -/
def sample (s : Capture) (pos : ℤ) : BitVec 32 :=
  s.ringBuffer (Fin.ofNat RING_SIZE (pos % RING_SIZE).toNat)

section

variable (K : Type*) [Field K]

/-- `timeScale` -/
def timeScale : K := 1 / CLK_FREQ

/-- `scale`, with the constant terms before it. -/
def scale : K :=
  let cc_ : K := mid + 1
  let xc_ := 1 / 2 * cc_ * (cc_ - 1)
  let xx_ := 2 * (cc_ - 1 / 2) * xc_ / 3
  1 / 2 * xx_ / timeScale K

/-- The loop of `temperature`, over `i = k - mid`. -/
def slopeSum (s : Capture) : K :=
  let pivot : ℤ := s.ringPos.val - mid
  let first := s.sample pivot
  (List.range (2 * mid + 1)).foldl (fun yx (k : ℕ) =>
    let i : ℤ := k - mid
    let x : K := i
    let y : K := (first - s.sample (pivot - i)).toInt
    yx + y * x) 0

/-- `clock::capture::temperature` -/
def temperature (s : Capture) : K := scale K / s.slopeSum K - 27315 / 100

end

end Capture

/-! ## The edges as points -/

variable {K : Type*} [Field K]

/-- The edges in the window: the place of an edge is how much older it is than the one in the
middle, its value is by how many ticks. The edges are listed newest first. -/
def edgePoints (K : Type*) [Field K] (edges : List ℕ) : Points ℕ K where
  s := Finset.range (2 * Capture.mid + 1)
  x k := (k : K) - Capture.mid
  y k := (edges.getD Capture.mid 0 : K) - edges.getD k 0
  w _ := 1

/-- The slot of a sample. -/
theorem sample_eq {s : Capture} {k : ℕ} (hk : k < RING_SIZE) :
    s.sample (s.ringPos.val - k) = s.ringBuffer (s.ringPos - Fin.ofNat RING_SIZE k) := by
  have hpos := s.ringPos.isLt
  unfold Capture.sample
  congr 1
  apply Fin.ext
  rw [Fin.sub_def, Fin.val_ofNat, Fin.val_ofNat, Nat.mod_eq_of_lt hk]
  show ((s.ringPos.val - k : ℤ) % 256).toNat % 256 = (256 - k + s.ringPos.val) % 256
  have hk : k < 256 := hk
  omega

variable {start : ℕ} {h : CaptureHistory} {s : Capture}

/-- What the loop computes, in the edges. -/
theorem slopeSum_eq (hlaw : CaptureLaw start h s)
    (hlen : 2 * Capture.mid < (served .sensor h).length)
    (hnear : ∀ k ≤ 2 * Capture.mid, |((served .sensor h).getD Capture.mid 0 : ℤ) -
      (served .sensor h).getD k 0| < 2 ^ 31) :
    s.slopeSum K = (edgePoints K (served .sensor h)).crossMoment 1 := by
  have hsample : ∀ k ≤ 2 * Capture.mid, s.sample (s.ringPos.val - k) =
      BitVec.ofNat 32 ((served .sensor h).getD k 0) := by
    intro k hk
    have hlt : k < RING_SIZE := hk.trans_lt (by decide)
    rw [sample_eq hlt]
    refine hlaw.sensor k hlt _ ?_
    rw [List.getD_eq_getElem?_getD, List.getElem?_eq_getElem (by omega)]
    rfl
  unfold Capture.slopeSum
  dsimp only
  rw [foldl_range_add, Points.crossMoment]
  refine Finset.sum_congr rfl fun k hk => ?_
  have hk : k ≤ 2 * Capture.mid := Nat.lt_succ_iff.mp (Finset.mem_range.mp hk)
  have hindex : (s.ringPos.val : ℤ) - Capture.mid - (k - Capture.mid) = s.ringPos.val - k := by ring
  have hdiff : (BitVec.ofNat 32 ((served .sensor h).getD Capture.mid 0) -
      BitVec.ofNat 32 ((served .sensor h).getD k 0)).toInt =
        ((served .sensor h).getD Capture.mid 0 : ℤ) - (served .sensor h).getD k 0 := by
    rw [← BitVec.ofInt_natCast, ← BitVec.ofInt_natCast, ← ofInt_sub, BitVec.toInt_ofInt]
    exact bmod_of_abs_lt (w := 31) (hnear k hk)
  rw [hindex, hsample k hk, hsample Capture.mid (by decide), hdiff]
  show _ = 1 * ((_ : K) - _) * ((k : K) - Capture.mid) ^ 1
  push_cast
  ring

/-! ## The line -/

/-- The places are those around the middle. -/
theorem moment_one (edges : List ℕ) : (edgePoints K edges).moment 1 = 0 := by
  have hsum : ∑ k ∈ Finset.range (2 * Capture.mid + 1), ((k : ℤ) - Capture.mid) = 0 := by
    decide +kernel
  calc (edgePoints K edges).moment 1
      = ((∑ k ∈ Finset.range (2 * Capture.mid + 1), ((k : ℤ) - Capture.mid) : ℤ) : K) := by
        unfold Points.moment
        push_cast
        exact Finset.sum_congr rfl fun k _ => by simp [edgePoints]
    _ = 0 := by rw [hsum, Int.cast_zero]

/-- The sum of the squares of the places. -/
def SQUARES : ℕ := 1381760

theorem moment_two (edges : List ℕ) : (edgePoints K edges).moment 2 = SQUARES := by
  have hsum : ∑ k ∈ Finset.range (2 * Capture.mid + 1), ((k : ℤ) - Capture.mid) ^ 2 = SQUARES := by
    decide +kernel
  calc (edgePoints K edges).moment 2
      = ((∑ k ∈ Finset.range (2 * Capture.mid + 1), ((k : ℤ) - Capture.mid) ^ 2 : ℤ) : K) := by
        unfold Points.moment
        push_cast
        exact Finset.sum_congr rfl fun k _ => by simp [edgePoints]
    _ = SQUARES := by rw [hsum, Int.cast_natCast]

theorem moment_zero (edges : List ℕ) : (edgePoints K edges).moment 0 = 255 := by
  unfold Points.moment
  simp [edgePoints, Capture.mid]

section

variable [CharZero K]

/-- The line whose errors are orthogonal to the lines. -/
theorem normal_line (edges : List ℕ) :
    (edgePoints K edges).Normal 2 (quad ((edgePoints K edges).crossMoment 0 / 255)
      ((edgePoints K edges).crossMoment 1 / SQUARES) 0) := by
  have hsquares : ((SQUARES : ℕ) : K) ≠ 0 := Nat.cast_ne_zero.mpr (by decide)
  have hcount : (255 : K) ≠ 0 := by norm_num
  refine Points.normal_line ?_ ?_ ?_
  · rwa [moment_zero]
  · rw [moment_zero, moment_one, div_mul_cancel₀ _ hcount, mul_zero, sub_zero]
  · rw [moment_zero, moment_one, moment_two]
    field_simp
    ring

theorem scale_eq : Capture.scale K = SQUARES * CLK_FREQ / 4 := by
  unfold Capture.scale Capture.timeScale Capture.mid SQUARES CLK_FREQ
  norm_num

/-- The temperature of a slope. -/
theorem temperature_eq (hlaw : CaptureLaw start h s)
    (hlen : 2 * Capture.mid < (served .sensor h).length)
    (hnear : ∀ k ≤ 2 * Capture.mid, |((served .sensor h).getD Capture.mid 0 : ℤ) -
      (served .sensor h).getD k 0| < 2 ^ 31) :
    s.temperature K = CLK_FREQ / (4 * ((edgePoints K (served .sensor h)).crossMoment 1 / SQUARES)) -
      27315 / 100 := by
  have hsquares : ((SQUARES : ℕ) : K) ≠ 0 := Nat.cast_ne_zero.mpr (by decide)
  unfold Capture.temperature
  rw [slopeSum_eq hlaw hlen hnear, scale_eq]
  congr 1
  field_simp

/-- The slope through edges at regular intervals. -/
theorem crossMoment_regular {edges : List ℕ} {first period : ℕ}
    (hregular : ∀ k ≤ 2 * Capture.mid, edges.getD k 0 + k * period = first) :
    (edgePoints K edges).crossMoment 1 / SQUARES = period := by
  have hsquares : ((SQUARES : ℕ) : K) ≠ 0 := Nat.cast_ne_zero.mpr (by decide)
  have hedge : ∀ k ≤ 2 * Capture.mid, (edges.getD k 0 : K) = first - k * period := by
    intro k hk
    have h := hregular k hk
    rw [← h]
    push_cast
    ring
  have hmoment : (edgePoints K edges).crossMoment 1 = period * (edgePoints K edges).moment 2 := by
    unfold Points.crossMoment Points.moment
    rw [Finset.mul_sum]
    refine Finset.sum_congr rfl fun k hk => ?_
    have hk : k ≤ 2 * Capture.mid := Nat.lt_succ_iff.mp (Finset.mem_range.mp hk)
    show 1 * ((edges.getD Capture.mid 0 : K) - edges.getD k 0) * ((k : K) - Capture.mid) ^ 1 =
      period * (1 * ((k : K) - Capture.mid) ^ 2)
    rw [hedge k hk, hedge Capture.mid (by decide)]
    ring
  rw [hmoment, moment_two, mul_div_cancel_right₀ _ hsquares]

end

/-! ## The law -/

section

variable [LinearOrder K] [IsStrictOrderedRing K]

theorem spread_edges (edges : List ℕ) : (edgePoints K edges).Spread 2 := by
  have hinj : Function.Injective (edgePoints K edges).x := fun i j hij =>
    Nat.cast_injective (sub_left_injective hij)
  have hall : ((edgePoints K edges).s.filter fun i => 0 < (edgePoints K edges).w i) =
      (edgePoints K edges).s := Finset.filter_true_of_mem fun _ _ => zero_lt_one
  unfold Points.Spread
  rw [hall, Finset.card_image_of_injective _ hinj]
  exact (by decide : 2 ≤ 255).trans_eq (Finset.card_range _).symm

/-- **The temperature is that of the best line**: its slope is the one of the line with the least
sum of squares through the last 255 edges, and so it is exact when they are at regular intervals, as
long as all of them are within 2^31 ticks of the one in the middle. -/
theorem temperature_of_run (hrun : Run (Capture.step start) Capture.init h s)
    (hprompt : ∀ p ∈ h, Prompt p.1 p.2) (hlen : 2 * Capture.mid < (served .sensor h).length)
    (hnear : ∀ k ≤ 2 * Capture.mid, |((served .sensor h).getD Capture.mid 0 : ℤ) -
      (served .sensor h).getD k 0| < 2 ^ 31) :
    (∃ a slope : K, s.temperature K = CLK_FREQ / (4 * slope) - 27315 / 100 ∧
      ∀ a' slope', ¬(a' = a ∧ slope' = slope) →
        (edgePoints K (served .sensor h)).energy
            ((edgePoints K (served .sensor h)).error (quad a slope 0)) <
          (edgePoints K (served .sensor h)).energy
            ((edgePoints K (served .sensor h)).error (quad a' slope' 0))) ∧
    ∀ first period : ℕ, (∀ k ≤ 2 * Capture.mid, (served .sensor h).getD k 0 + k * period = first) →
      s.temperature K = CLK_FREQ / (4 * period) - 27315 / 100 := by
  have hlaw := (captureInv_of_run hrun hprompt).law
  have htemp := temperature_eq (K := K) hlaw hlen hnear
  refine ⟨⟨(edgePoints K (served .sensor h)).crossMoment 0 / 255, _, htemp,
    fun a' slope' hne => ?_⟩, fun first period hregular => ?_⟩
  · refine (normal_line (served .sensor h)).energy_lt (fun _ _ => zero_le_one)
      (spread_edges _) (degree_line_lt _ _) (degree_line_lt _ _) fun heq => hne ?_
    obtain ⟨ha, hslope, -⟩ := quad_inj.mp heq
    exact ⟨ha, hslope⟩
  · rw [htemp, crossMoment_regular hregular]

end

/-- An edge of the sensor at every tick. -/
def fastSensor : List CaptureAction :=
  (List.replicate 255 [CaptureAction.edge .sensor, .interrupt .sensor, .tick]).flatten

theorem temperature_of_run_fastSensor : ∃ h s, Run (Capture.step 0) Capture.init h s ∧
    s.temperature ℚ = 125000000 / 4 - 27315 / 100 := by
  obtain ⟨h, s, hrun, hp⟩ := @exists_run_of_replay _ _ (Capture.step 0) Capture.init fastSensor
    (fun h _ => decide (served .sensor h = (List.range 255).reverse ∧ ∀ p ∈ h, Prompt p.1 p.2))
    (by decide +kernel)
  obtain ⟨hserved, hprompt⟩ := of_decide_eq_true hp
  have hget : ∀ k ≤ 2 * Capture.mid, (served .sensor h).getD k 0 = 254 - k := by
    intro k hk
    have hlt : k < 255 := Nat.lt_succ_of_le hk
    rw [hserved, List.getD_eq_getElem?_getD, List.getElem?_reverse (by simpa using hlt),
      List.length_range, List.getElem?_range (by omega)]
    rfl
  refine ⟨h, s, hrun, ?_⟩
  have hmid : Capture.mid = 127 := rfl
  have htemp := (temperature_of_run (K := ℚ) hrun hprompt (by rw [hserved]; simp [hmid])
    fun k hk => by
      rw [hget _ (by decide), hget k hk, abs_lt]
      omega).2 254 1 fun k hk => by
        rw [hget k hk]
        omega
  rw [htemp, CLK_FREQ]
  norm_num

end Gpsdo.Clock
