import Gpsdo.Clock.Mono

set_option autoImplicit false

/-! # Reading the monotonic clock (`lib/clock/mono.cpp`)

The hardware counter wraps after 2^32 ticks, which are not a whole number of seconds. An interrupt
counts the seconds and keeps the count of the counter at the last one. It may be late: a reading is
moved by whole seconds until its ticks are those of one second, so that it does not matter whether
the interrupt has come.
-/

namespace Gpsdo.Clock

/-! ## Code -/

/-- The static variables of `mono.cpp`. -/
structure MonoClock where
  clkMonoInt : BitVec 32
  clkMonoOff : BitVec 32
  deriving DecidableEq, Repr

namespace MonoClock

def init : MonoClock := ⟨0, 0⟩

/-- `ISR_Timer0A`, which also sets the next second boundary of the timer. -/
def ISR_Timer0A (s : MonoClock) : MonoClock where
  clkMonoInt := s.clkMonoInt + 1
  clkMonoOff := s.clkMonoOff + BitVec.ofNat 32 CLK_FREQ

/-- The loop of `fromRaw` that adjusts for underflow. -/
def underflow (ticks : ℤ) (integer : BitVec 32) : ℤ × BitVec 32 :=
  if ticks < 0 then underflow (ticks + CLK_FREQ) (integer - 1) else (ticks, integer)
termination_by (-ticks).toNat
decreasing_by
  unfold CLK_FREQ
  omega

/-- The loop of `fromRaw` that adjusts for overflow. -/
def overflow (ticks : ℤ) (integer : BitVec 32) : ℤ × BitVec 32 :=
  if CLK_FREQ ≤ ticks then overflow (ticks - CLK_FREQ) (integer + 1) else (ticks, integer)
termination_by ticks.toNat
decreasing_by
  unfold CLK_FREQ at *
  omega

/-- `clock::monotonic::fromRaw` -/
def fromRaw (s : MonoClock) (monoRaw : BitVec 32) : BitVec 64 :=
  let (ticks, integer) := underflow (monoRaw - s.clkMonoOff).toInt s.clkMonoInt
  let (ticks, integer) := overflow ticks integer
  integer ++ nanosToFrac (BitVec.ofInt 32 (ticks * CLK_NANOS))

/-! ## The loops -/

theorem underflow_eq {ticks : ℤ} (h : ticks < CLK_FREQ) (integer : BitVec 32) :
    underflow ticks integer =
      (ticks % CLK_FREQ, integer + BitVec.ofInt 32 (ticks / CLK_FREQ)) := by
  have hfreq : (0 : ℤ) < CLK_FREQ := by decide
  induction ticks, integer using underflow.induct with
  | case1 ticks integer hneg ih =>
      have hdiv : (ticks + CLK_FREQ) / (CLK_FREQ : ℤ) = ticks / CLK_FREQ + 1 := by
        have h := Int.add_mul_ediv_right ticks 1 hfreq.ne'
        rwa [one_mul] at h
      rw [underflow, if_pos hneg, ih (by omega), Int.add_emod_right, hdiv, BitVec.ofInt_add]
      congr 1
      show integer - 1#32 + (_ + 1#32) = _
      ring
  | case2 ticks integer hneg =>
      have hpos : 0 ≤ ticks := not_lt.mp hneg
      rw [underflow, if_neg hneg, Int.emod_eq_of_lt hpos h, Int.ediv_eq_zero_of_lt hpos h]
      simp

theorem overflow_eq {ticks : ℤ} (h : 0 ≤ ticks) (integer : BitVec 32) :
    overflow ticks integer =
      (ticks % CLK_FREQ, integer + BitVec.ofInt 32 (ticks / CLK_FREQ)) := by
  have hfreq : (0 : ℤ) < CLK_FREQ := by decide
  induction ticks, integer using overflow.induct with
  | case1 ticks integer hover ih =>
      have hdiv : (ticks - CLK_FREQ) / (CLK_FREQ : ℤ) = ticks / CLK_FREQ - 1 := by
        have h := Int.add_mul_ediv_right ticks (-1) hfreq.ne'
        rwa [neg_one_mul, ← sub_eq_add_neg, ← sub_eq_add_neg] at h
      rw [overflow, if_pos hover, ih (by omega), Int.sub_emod_right, hdiv]
      congr 1
      rw [sub_eq_add_neg (ticks / _), BitVec.ofInt_add]
      show integer + 1#32 + (_ + -1#32) = _
      ring
  | case2 ticks integer hover =>
      have hlt : ticks < CLK_FREQ := not_le.mp hover
      rw [overflow, if_neg hover, Int.emod_eq_of_lt h hlt, Int.ediv_eq_zero_of_lt h hlt]
      simp

/-- Both loops together leave the ticks within one second. -/
theorem fromRaw_eq (s : MonoClock) (monoRaw : BitVec 32) :
    s.fromRaw monoRaw =
      (s.clkMonoInt + BitVec.ofInt 32 ((monoRaw - s.clkMonoOff).toInt / CLK_FREQ)) ++
        nanosToFrac (BitVec.ofInt 32 ((monoRaw - s.clkMonoOff).toInt % CLK_FREQ * CLK_NANOS)) := by
  have hfreq : (0 : ℤ) < CLK_FREQ := by decide
  unfold fromRaw
  generalize (monoRaw - s.clkMonoOff).toInt = ticks
  rcases lt_or_ge ticks 0 with hneg | hpos
  · have hmod := Int.emod_nonneg ticks hfreq.ne'
    have hlt := Int.emod_lt_of_pos ticks hfreq
    rw [underflow_eq (hneg.trans hfreq)]
    dsimp only
    rw [overflow_eq hmod, Int.emod_emod, Int.ediv_eq_zero_of_lt hmod hlt]
    simp
  · have hunder : underflow ticks s.clkMonoInt = (ticks, s.clkMonoInt) := by
      rw [underflow, if_neg (not_lt.mpr hpos)]
    rw [hunder]
    dsimp only
    rw [overflow_eq hpos]

/-- **The interrupt counts seconds**, whenever it runs. -/
theorem iterate_ISR_Timer0A (N : ℕ) :
    ISR_Timer0A^[N] init = ⟨BitVec.ofNat 32 N, BitVec.ofNat 32 (N * CLK_FREQ)⟩ := by
  induction N with
  | zero => rfl
  | succ N ih =>
      rw [Function.iterate_succ_apply', ih, ISR_Timer0A, Nat.succ_mul, BitVec.ofNat_add,
        BitVec.ofNat_add]
      rfl

/-! ## The stamp of a tick -/

/-- What is read at a tick, before it wraps. -/
def stampOf (K : ℤ) : ℤ :=
  K / CLK_FREQ * 2 ^ 32 + (nanosToFrac (BitVec.ofInt 32 (8 * (K % CLK_FREQ)))).toNat

theorem stampOf_natCast (ticks : ℕ) : stampOf ticks = monotonicAt ticks := by
  have hmod : (8 * ((ticks : ℤ) % CLK_FREQ)) = ((ticks % CLK_FREQ * CLK_NANOS : ℕ) : ℤ) := by
    rw [mul_comm]
    push_cast
    rfl
  unfold stampOf monotonicAt
  rw [hmod, BitVec.ofInt_natCast]
  push_cast
  rfl

/-- A second later the stamp is one second later. -/
theorem stampOf_add_seconds (K : ℤ) (n : ℕ) : stampOf (K + n * CLK_FREQ) = stampOf K + n * 2 ^ 32 := by
  have hfreq : (CLK_FREQ : ℤ) ≠ 0 := by decide
  unfold stampOf
  rw [Int.add_mul_ediv_right _ _ hfreq, Int.add_mul_emod_self_right]
  ring

/-- The stamps advance with every tick, also before the counter started. -/
theorem stampOf_add (K : ℤ) (n : ℕ) : stampOf K + 34 * n ≤ stampOf (K + n) := by
  have hfreq : (1 : ℤ) ≤ CLK_FREQ := by decide
  -- so many seconds later the count is not negative
  obtain ⟨ticks, hticks⟩ : ∃ ticks : ℕ, K + K.natAbs * CLK_FREQ = ticks := by
    have hle : (K.natAbs : ℤ) * 1 ≤ K.natAbs * CLK_FREQ :=
      mul_le_mul_of_nonneg_left hfreq (Int.natCast_nonneg _)
    exact Int.eq_ofNat_of_zero_le (by omega)
  have h := monotonicAt_add ticks n
  have h0 := stampOf_add_seconds K K.natAbs
  have h1 := stampOf_add_seconds (K + n) K.natAbs
  rw [hticks, stampOf_natCast] at h0
  rw [add_right_comm, hticks, ← Nat.cast_add, stampOf_natCast] at h1
  omega

theorem stampOf_bounds (K : ℤ) :
    K / CLK_FREQ * 2 ^ 32 ≤ stampOf K ∧ stampOf K < (K / CLK_FREQ + 1) * 2 ^ 32 := by
  have hfrac := (nanosToFrac (BitVec.ofInt 32 (8 * (K % CLK_FREQ)))).isLt
  unfold stampOf
  omega

/-- The 64 bits of a stamp. -/
theorem ofInt_stampOf (K : ℤ) :
    BitVec.ofInt 64 (stampOf K) =
      BitVec.ofInt 32 (K / CLK_FREQ) ++ nanosToFrac (BitVec.ofInt 32 (8 * (K % CLK_FREQ))) := by
  apply BitVec.eq_of_toNat_eq
  have hfrac := (nanosToFrac (BitVec.ofInt 32 (8 * (K % CLK_FREQ)))).isLt
  rw [BitVec.toNat_append, ← Nat.shiftLeft_add_eq_or_of_lt hfrac, Nat.shiftLeft_eq,
    BitVec.toNat_ofInt, BitVec.toNat_ofInt, stampOf]
  omega

/-! ## Every reading -/

/-- **`fromRaw` reads the stamp of the tick**, on either side of the boundaries in its window. -/
theorem fromRaw_stampOf (N : ℕ) {K : ℤ} (hK : |K - N * CLK_FREQ| < 2 ^ 31) :
    (ISR_Timer0A^[N] init).fromRaw (BitVec.ofInt 32 K) = BitVec.ofInt 64 (stampOf K) := by
  have hfreq : (CLK_FREQ : ℤ) ≠ 0 := by decide
  have hticks : (BitVec.ofInt 32 K - BitVec.ofNat 32 (N * CLK_FREQ)).toInt = K - N * CLK_FREQ := by
    rw [← BitVec.ofInt_natCast, ← ofInt_sub, BitVec.toInt_ofInt]
    push_cast
    exact bmod_of_abs_lt hK
  have hdiv : (K - N * CLK_FREQ) / (CLK_FREQ : ℤ) = K / CLK_FREQ - N := by
    have h := Int.add_mul_ediv_right K (-N) hfreq
    rwa [neg_mul, ← sub_eq_add_neg, ← sub_eq_add_neg] at h
  have hmod : (K - N * CLK_FREQ) % (CLK_FREQ : ℤ) = K % CLK_FREQ := by
    have h := Int.add_mul_emod_self_right K (-N) CLK_FREQ
    rwa [neg_mul, ← sub_eq_add_neg] at h
  rw [fromRaw_eq, iterate_ISR_Timer0A]
  dsimp only
  rw [hticks, hdiv, hmod, ofInt_stampOf, ← BitVec.ofInt_natCast, ← BitVec.ofInt_add,
    add_sub_cancel, mul_comm 8]
  rfl

/-- **`fromRaw` is exact**: it does not depend on how many interrupts have come, and a later tick
has a later stamp. -/
theorem fromRaw_exact (N : ℕ) {K : ℤ} (hK : |K - N * CLK_FREQ| < 2 ^ 31) :
    ISR_Timer0A^[N] init = ⟨BitVec.ofNat 32 N, BitVec.ofNat 32 (N * CLK_FREQ)⟩ ∧
      (ISR_Timer0A^[N] init).fromRaw (BitVec.ofInt 32 K) =
        BitVec.ofInt 32 (K / CLK_FREQ) ++ nanosToFrac (BitVec.ofInt 32 (8 * (K % CLK_FREQ))) ∧
      (∀ N' : ℕ, |K - N' * CLK_FREQ| < 2 ^ 31 →
        (ISR_Timer0A^[N'] init).fromRaw (BitVec.ofInt 32 K) =
          (ISR_Timer0A^[N] init).fromRaw (BitVec.ofInt 32 K)) ∧
      ∀ K' : ℤ, K < K' → |K' - N * CLK_FREQ| < 2 ^ 31 →
        0 < ((ISR_Timer0A^[N] init).fromRaw (BitVec.ofInt 32 K') -
          (ISR_Timer0A^[N] init).fromRaw (BitVec.ofInt 32 K)).toInt := by
  have hstamp := fromRaw_stampOf N hK
  refine ⟨iterate_ISR_Timer0A N, hstamp.trans (ofInt_stampOf K), ?_, ?_⟩
  · intro N' hN'
    rw [hstamp, fromRaw_stampOf N' hN']
  · intro K' hlt hK'
    obtain ⟨n, hn⟩ := Int.eq_ofNat_of_zero_le (sub_nonneg.mpr hlt.le)
    obtain rfl : K' = K + n := by omega
    have hadd := stampOf_add K n
    have hbounds := stampOf_bounds K
    have hbounds' := stampOf_bounds (K + n)
    -- the window is less than 40 seconds wide
    have hseconds : (K + n) / (CLK_FREQ : ℤ) < K / CLK_FREQ + 40 := by
      have h := abs_lt.mp hK
      have h' := abs_lt.mp hK'
      unfold CLK_FREQ at h h' ⊢
      omega
    have hsmall : |stampOf (K + n) - stampOf K| < 2 ^ 63 := by
      rw [abs_lt]
      constructor <;> omega
    rw [hstamp, fromRaw_stampOf N hK', ← ofInt_sub, BitVec.toInt_ofInt]
    have hexact : (stampOf (K + n) - stampOf K).bmod (2 ^ 64) = stampOf (K + n) - stampOf K :=
      bmod_of_abs_lt hsmall
    rw [hexact]
    omega

/-- A reading just before the counter wraps, one second after the last interrupt that came. -/
theorem fromRaw_exact_lateInterrupt :
    (ISR_Timer0A^[33] init).fromRaw 0xFFFFFFFF =
        (ISR_Timer0A^[34] init).fromRaw 0xFFFFFFFF ∧
      0 < ((ISR_Timer0A^[34] init).fromRaw 0 - (ISR_Timer0A^[34] init).fromRaw 0xFFFFFFFF).toInt :=
  have h := fromRaw_exact 34 (K := 0xFFFFFFFF) (by decide)
  ⟨h.2.2.1 33 (by decide), h.2.2.2 0x100000000 (by decide) (by decide)⟩

end MonoClock

end Gpsdo.Clock
