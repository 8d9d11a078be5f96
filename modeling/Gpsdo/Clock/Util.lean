import Gpsdo.Basic.Word

set_option autoImplicit false

/-! # Fixed-point corrections (`lib/clock/util.cpp`)

A trim rate is a signed 0.32 fraction: a clock with rate `r` gains `r` units of 2^-32 s for each
second. Two functions compute the gain: `corrFracRem` for a time of less than half a second, with a
remainder that is carried from call to call, and `corrValue` for any time.
-/

namespace Gpsdo.Clock

/-! ## Code -/

/-- `nanosToFrac` -/
def nanosToFrac (nanos : BitVec 32) : BitVec 32 :=
  let nanos := nanos <<< 2
  let correction : BitVec 64 := nanos.setWidth 64 * 0x12E0BE82
  let nanos := nanos + correction.setWidth 32 >>> 31
  nanos + (correction >>> 32).setWidth 32

/-- `corrValue` -/
def corrValue (rate : BitVec 32) (delta : BitVec 64) : BitVec 64 :=
  let neg := delta.slt 0
  let delta := if neg then -delta else delta
  -- the integral part of the time, then its fraction
  let scratch : BitVec 64 := ((delta.sshiftRight 32).setWidth 32).setWidth 64
  let scratch := scratch * rate.signExtend 64
  let frac : BitVec 64 := (delta.setWidth 32).setWidth 64
  let frac := frac * rate.signExtend 64
  let scratch := scratch + ((frac >>> 32).setWidth 32).signExtend 64
  if neg then -scratch else scratch

/-- `corrFracRem`, with the new value of `rem`. -/
def corrFracRem (rate delta rem : BitVec 32) : BitVec 32 × BitVec 32 :=
  let scratch : BitVec 64 := delta.signExtend 64
  let scratch := scratch * rate.signExtend 64
  let scratch := scratch + rem.setWidth 64
  ((scratch.sshiftRight 32).setWidth 32, scratch.setWidth 32)

/-! ## What they compute -/

/-- **`corrFracRem` rounds down and keeps the rest.** -/
theorem corrFracRem_spec (rate delta rem : BitVec 32) :
    (corrFracRem rate delta rem).1.toInt =
      (rate.toInt * delta.toInt + rem.toNat) / 2 ^ 32 ∧
    ((corrFracRem rate delta rem).2.toNat : ℤ) =
      (rate.toInt * delta.toInt + rem.toNat) % 2 ^ 32 := by
  have hprod : |delta.toInt * rate.toInt| ≤ 2 ^ 62 := by
    have h := toInt_bounds delta
    exact abs_mul_toInt_le rate (abs_le.mpr ⟨h.1, h.2.le⟩)
  have hrem := rem.isLt
  obtain ⟨hlo, hhi⟩ := abs_le.mp hprod
  have hscratch : (delta.signExtend 64 * rate.signExtend 64 + rem.setWidth 64).toInt =
      delta.toInt * rate.toInt + rem.toNat := by
    have hrem' : (rem.setWidth 64).toInt = rem.toNat := by
      rw [BitVec.toInt_setWidth]
      exact bmod_of_abs_lt (by rw [Nat.abs_cast]; omega)
    rw [BitVec.toInt_add, BitVec.toInt_mul, BitVec.toInt_signExtend_of_le (by decide),
      BitVec.toInt_signExtend_of_le (by decide), hrem', Int.bmod_add_bmod]
    exact bmod_of_abs_lt (abs_lt.mpr ⟨by omega, by omega⟩)
  rw [mul_comm rate.toInt]
  unfold corrFracRem
  constructor
  · rw [toInt_lo32, BitVec.toInt_sshiftRight, hscratch, Int.shiftRight_eq_div_pow, Nat.cast_pow,
      Nat.cast_ofNat]
    exact bmod_of_abs_lt (w := 31) (abs_lt.mpr ⟨by omega, by omega⟩)
  · rw [toNat_lo32, hscratch]

theorem toInt_hi32 (x : BitVec 64) : ((x >>> 32).setWidth 32).toInt = x.toInt / 2 ^ 32 := by
  have hx := x.isLt
  rw [BitVec.toInt_setWidth, BitVec.toNat_ushiftRight, Nat.shiftRight_eq_div_pow,
    BitVec.toInt_eq_toNat_cond]
  split
  · rw [Int.bmod_eq_of_le_mul_two] <;> omega
  · have hwrap : ((x.toNat / 2 ^ 32 : ℕ) : ℤ) =
        ((x.toNat : ℤ) - ((2 ^ 64 : ℕ) : ℤ)) / 2 ^ 32 + ((2 ^ 32 : ℕ) : ℤ) := by omega
    rw [hwrap, Int.add_bmod_right, Int.bmod_eq_of_le_mul_two] <;> omega

/-- The correction for a magnitude of up to half a second. -/
theorem corrValue_magnitude (rate : BitVec 32) {delta : BitVec 64} (hd : delta.toNat ≤ 2 ^ 31) :
    (((delta.sshiftRight 32).setWidth 32).setWidth 64 * rate.signExtend 64 +
      (((((delta.setWidth 32).setWidth 64 * rate.signExtend 64) >>> 32).setWidth 32).signExtend
        64)).toInt = rate.toInt * delta.toNat / 2 ^ 32 := by
  have hint : delta.toInt = delta.toNat := by
    rw [BitVec.toInt_eq_toNat_cond]
    split <;> omega
  -- there is no integral part
  have hhigh : (delta.sshiftRight 32).setWidth 32 = 0 := by
    apply BitVec.eq_of_toInt_eq
    rw [toInt_lo32, BitVec.toInt_sshiftRight, hint, Int.shiftRight_eq_div_pow, Nat.cast_pow,
      Nat.cast_ofNat, show (delta.toNat : ℤ) / 2 ^ 32 = 0 by omega]
    rfl
  have hlow : (delta.setWidth 32).setWidth 64 = delta := by
    apply BitVec.eq_of_toNat_eq
    rw [BitVec.toNat_setWidth, BitVec.toNat_setWidth]
    omega
  have hprod : |(delta.toNat : ℤ) * rate.toInt| ≤ 2 ^ 62 := by
    apply abs_mul_toInt_le
    rw [Nat.abs_cast]
    exact_mod_cast hd
  have hfrac : (delta * rate.signExtend 64).toInt = delta.toNat * rate.toInt := by
    rw [BitVec.toInt_mul, BitVec.toInt_signExtend_of_le (by decide), hint]
    exact bmod_of_abs_lt (w := 63) (lt_of_le_of_lt hprod (by norm_num))
  rw [hhigh, hlow, show BitVec.setWidth 64 (0 : BitVec 32) = 0 from rfl, zero_mul, zero_add,
    BitVec.toInt_signExtend_of_le (by decide), toInt_hi32, hfrac, mul_comm]

/-- **`corrValue` rounds toward zero.** -/
theorem corrValue_spec (rate : BitVec 32) {delta : BitVec 64} (hd : |delta.toInt| ≤ 2 ^ 31) :
    (corrValue rate delta).toInt =
      if delta.toInt < 0 then -(rate.toInt * -delta.toInt / 2 ^ 32)
      else rate.toInt * delta.toInt / 2 ^ 32 := by
  obtain ⟨hlo, hhi⟩ := abs_le.mp hd
  have hneg : delta.slt 0 = decide (delta.toInt < 0) := by simp [BitVec.slt]
  unfold corrValue
  by_cases h : delta.toInt < 0
  · have hmag : ((-delta).toNat : ℤ) = -delta.toInt := by
      have hx := delta.isLt
      rw [BitVec.toNat_neg]
      rw [BitVec.toInt_eq_toNat_cond] at h ⊢
      split at h <;> omega
    have hprod : |-delta.toInt * rate.toInt| ≤ 2 ^ 62 := by
      apply abs_mul_toInt_le
      rwa [abs_neg]
    have hquot : |-(rate.toInt * -delta.toInt / 2 ^ 32)| < 2 ^ 63 := by
      rw [mul_comm]
      have hp := abs_le.mp hprod
      exact abs_lt.mpr ⟨by omega, by omega⟩
    simp only [hneg, h, decide_true, if_true]
    rw [BitVec.toInt_neg, corrValue_magnitude rate (by omega), hmag]
    exact bmod_of_abs_lt hquot
  · have hmag : (delta.toNat : ℤ) = delta.toInt := by
      rw [BitVec.toInt_eq_toNat_cond] at h ⊢
      split at h <;> omega
    simp only [hneg, h, decide_false, if_false, Bool.false_eq_true]
    rw [corrValue_magnitude rate (by omega), hmag]

end Gpsdo.Clock
