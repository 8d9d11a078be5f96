import Gpsdo.Clock.Util

set_option autoImplicit false

/-! # The monotonic clock (`lib/clock/mono.cpp`)

The hardware counter counts ticks of 8 ns. The monotonic clock reads its count as seconds and a
32-bit fraction.
-/

namespace Gpsdo.Clock

/-- CLK = 125 MHz -/
def CLK_FREQ : ℕ := 125000000

/-- Nanoseconds per clock cycle. -/
def CLK_NANOS : ℕ := 8

/-- What `monotonic::now` reads when the hardware has counted `ticks`, before it wraps: the seconds
and the fraction that `fromRaw` assembles. -/
def monotonicAt (ticks : ℕ) : ℕ :=
  ticks / CLK_FREQ * 2 ^ 32 + (nanosToFrac (BitVec.ofNat 32 (ticks % CLK_FREQ * CLK_NANOS))).toNat

/-! ## The fraction -/

/-- `nanosToFrac` in numbers without a width. -/
def unboundedFrac (nanos : ℕ) : ℕ :=
  let nanos := 4 * nanos
  let correction := nanos * 0x12E0BE82
  nanos + correction % 2 ^ 32 / 2 ^ 31 + correction / 2 ^ 32

/-- It multiplies by 4.294967296 and rounds to nearest. -/
theorem unboundedFrac_eq (n : ℕ) :
    unboundedFrac n = (4 * n * (2 ^ 32 + 0x12E0BE82) + 2 ^ 31) / 2 ^ 32 := by
  have hround : ∀ c : ℕ, c % 2 ^ 32 / 2 ^ 31 + c / 2 ^ 32 = (c + 2 ^ 31) / 2 ^ 32 := by
    intro c
    omega
  have hsum : (4 * n * (2 ^ 32 + 0x12E0BE82) + 2 ^ 31) / 2 ^ 32 =
      4 * n + (4 * n * 0x12E0BE82 + 2 ^ 31) / 2 ^ 32 := by omega
  rw [hsum, ← hround, ← Nat.add_assoc]
  rfl

theorem unboundedFrac_lt {n : ℕ} (hn : n < 10 ^ 9) : unboundedFrac n < 2 ^ 32 := by
  rw [unboundedFrac_eq]
  omega

/-- **No overflow** below a second. -/
theorem nanosToFrac_eq {n : BitVec 32} (hn : n.toNat < 10 ^ 9) :
    (nanosToFrac n).toNat = unboundedFrac n.toNat := by
  have hshift : (n <<< 2).toNat = 4 * n.toNat := by
    rw [BitVec.toNat_shiftLeft, Nat.shiftLeft_eq]
    omega
  have hcorr : ((n <<< 2).setWidth 64 * 0x12E0BE82 : BitVec 64).toNat =
      4 * n.toNat * 0x12E0BE82 := by
    have hfactor : (0x12E0BE82 : BitVec 64).toNat = 316718722 := by decide
    rw [BitVec.toNat_mul, BitVec.toNat_setWidth, hshift, hfactor]
    omega
  unfold nanosToFrac
  rw [BitVec.toNat_add, BitVec.toNat_add, BitVec.toNat_ushiftRight, BitVec.toNat_setWidth,
    BitVec.toNat_setWidth, BitVec.toNat_ushiftRight, hcorr, hshift, Nat.shiftRight_eq_div_pow,
    Nat.shiftRight_eq_div_pow, Nat.mod_add_mod, Nat.add_mod_mod]
  exact Nat.mod_eq_of_lt (unboundedFrac_lt hn)

theorem nanosToFrac_toNat {n : ℕ} (hn : n < 10 ^ 9) :
    (nanosToFrac (BitVec.ofNat 32 n)).toNat = (4 * n * (2 ^ 32 + 0x12E0BE82) + 2 ^ 31) / 2 ^ 32 := by
  have hnat : (BitVec.ofNat 32 n).toNat = n := by
    rw [BitVec.toNat_ofNat]
    omega
  rw [nanosToFrac_eq (by rwa [hnat]), hnat, unboundedFrac_eq]

/-! ## Progress -/

/-- One tick is more than 34 units. -/
theorem monotonicAt_succ (ticks : ℕ) : monotonicAt ticks + 34 ≤ monotonicAt (ticks + 1) := by
  unfold monotonicAt CLK_FREQ CLK_NANOS
  have hlt : ticks % 125000000 < 125000000 := Nat.mod_lt _ (by decide)
  rw [nanosToFrac_toNat (by omega), nanosToFrac_toNat (by omega)]
  by_cases hlast : ticks % 125000000 = 124999999
  · -- the last tick of a second
    rw [hlast, show (ticks + 1) % 125000000 = 0 by omega,
      show (ticks + 1) / 125000000 = ticks / 125000000 + 1 by omega]
    omega
  · rw [show (ticks + 1) % 125000000 = ticks % 125000000 + 1 by omega,
      show (ticks + 1) / 125000000 = ticks / 125000000 by omega]
    omega

/-- **The monotonic clock advances with every tick.** -/
theorem monotonicAt_add (ticks n : ℕ) : monotonicAt ticks + 34 * n ≤ monotonicAt (ticks + n) := by
  induction n with
  | zero => simp
  | succ n ih =>
      have h := monotonicAt_succ (ticks + n)
      rw [← Nat.add_assoc]
      omega

end Gpsdo.Clock
