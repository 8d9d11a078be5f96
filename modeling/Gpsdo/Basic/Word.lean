import Mathlib.Data.BitVec
import Mathlib.Tactic

set_option autoImplicit false

/-! # Words as signed numbers

The integers that the words of a width stand for in two's complement. An operation on words is the
one on integers up to a wrap (`Int.bmod`), and there is none as long as the result is in range.
-/

namespace Gpsdo

/-- No wrap in the range. -/
theorem bmod_of_range {x : ℤ} {w : ℕ} (hlo : -2 ^ w ≤ x) (hhi : x < 2 ^ w) :
    x.bmod (2 ^ (w + 1)) = x := by
  have hpow : (2 : ℤ) ^ (w + 1) = 2 * 2 ^ w := by ring
  apply Int.bmod_eq_of_le_mul_two
  · push_cast
    rw [hpow]
    omega
  · push_cast
    rw [hpow]
    omega

theorem bmod_of_abs_lt {x : ℤ} {w : ℕ} (hx : |x| < 2 ^ w) : x.bmod (2 ^ (w + 1)) = x := by
  obtain ⟨hlo, hhi⟩ := abs_lt.mp hx
  exact bmod_of_range hlo.le hhi

theorem toInt_bounds (x : BitVec 32) : -2 ^ 31 ≤ x.toInt ∧ x.toInt < 2 ^ 31 :=
  ⟨BitVec.le_toInt x, BitVec.toInt_lt⟩

theorem toNat_bounds (x : BitVec 32) : (0 : ℤ) ≤ x.toNat ∧ (x.toNat : ℤ) < 2 ^ 32 :=
  ⟨Int.natCast_nonneg _, by exact_mod_cast x.isLt⟩

theorem abs_mul_toInt_le (x : BitVec 32) {d : ℤ} (hd : |d| ≤ 2 ^ 31) :
    |d * x.toInt| ≤ 2 ^ 62 := by
  have hx : |x.toInt| ≤ 2 ^ 31 := by
    have h := toInt_bounds x
    exact abs_le.mpr ⟨h.1, h.2.le⟩
  calc |d * x.toInt| = |d| * |x.toInt| := abs_mul _ _
    _ ≤ 2 ^ 31 * 2 ^ 31 := mul_le_mul hd hx (abs_nonneg _) (by positivity)
    _ = 2 ^ 62 := by norm_num

theorem ofInt_sub {w : ℕ} (x y : ℤ) :
    BitVec.ofInt w (x - y) = BitVec.ofInt w x - BitVec.ofInt w y := by
  rw [sub_eq_add_neg, BitVec.ofInt_add, BitVec.ofInt_neg, ← BitVec.sub_eq_add_neg]

/-! ## The low half -/

theorem toInt_lo32 (x : BitVec 64) : (x.setWidth 32).toInt = x.toInt.bmod (2 ^ 32) := by
  rw [BitVec.toInt_setWidth, BitVec.toInt_eq_toNat_bmod, Int.bmod_bmod_of_dvd (by decide)]

theorem toNat_lo32 (x : BitVec 64) : ((x.setWidth 32).toNat : ℤ) = x.toInt % 2 ^ 32 := by
  rw [BitVec.toNat_setWidth, BitVec.toInt_eq_toNat_cond]
  split <;> omega

end Gpsdo
