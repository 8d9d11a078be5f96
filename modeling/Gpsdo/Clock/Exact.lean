import Gpsdo.Clock.Clocks

set_option autoImplicit false

/-! # What the clocks compute

Within half a second of `ref` on either side the code's 32-bit arithmetic is exact, and the
functions of the clocks are those of trimmed clocks. The 64-bit variables are the unbounded ones
modulo 2^64, at any time.
-/

namespace Gpsdo.Clock

/-! ## Wrapping -/

/-- The 64-bit variables. -/
def Trim.wrap (c : Trim ℤ) : Trim (BitVec 64) where
  offset := c.offset
  ref := c.ref
  rate := c.rate
  rem := c.rem

theorem lo32_intCast (x : ℤ) : lo32 (x : BitVec 64) = lo32 x := by
  rw [map_intCast]
  rfl

theorem intCast_ofInt32 (x : BitVec 32) : ((ofInt32 x : ℤ) : BitVec 64) = ofInt32 x := rfl

theorem Trim.wrap_update (c : Trim ℤ) (now : ℤ) :
    (c.update now).wrap = c.wrap.update (now : BitVec 64) := by
  simp only [Trim.update, Trim.wrap, ← Int.cast_sub, lo32_intCast, Int.cast_add, intCast_ofInt32]

theorem tai.wrap_adjust (c : Trim ℤ) (delta : BitVec 64) :
    (tai.adjust c delta).wrap = tai.adjust c.wrap delta := by
  simp [tai.adjust, Trim.wrap]

theorem compensated.now_wrap (c : Trim ℤ) (t : ℤ) :
    compensated.now c.wrap (t : BitVec 64) = (compensated.now c t : ℤ) := by
  simp only [compensated.now, Trim.wrap, ← Int.cast_sub, lo32_intCast, Int.cast_add,
    intCast_ofInt32]

theorem tai.now_wrap (c d : Trim ℤ) (t : ℤ) :
    tai.now c.wrap d.wrap (t : BitVec 64) = (tai.now c d t : ℤ) := by
  simp only [tai.now, Trim.wrap, ← Int.cast_sub, lo32_intCast, ← intCast_ofInt32, ← Int.cast_add]

/-! ## Trimmed clocks -/

/-- A clock as a trimmed clock. -/
def Trim.trimmed (c : Trim ℤ) : Trimmed (2 ^ 32) where
  offset := c.offset
  ref := c.ref
  rate := c.rate.toInt
  rem := c.rem.toNat
  rem_nonneg := by positivity
  rem_lt := by exact_mod_cast c.rem.isLt

/-- The rate is at most one half. -/
theorem Trim.abs_rate_le (c : Trim ℤ) : |2 * c.trimmed.rate| ≤ 2 ^ 32 := by
  have h := toInt_bounds c.rate
  show |2 * c.rate.toInt| ≤ 2 ^ 32
  rw [abs_le]
  constructor <;> linarith [h.1, h.2]

/-- A time difference that fits into 32 bits. -/
def Near (d : ℤ) : Prop := -2 ^ 31 ≤ d ∧ d < 2 ^ 31

instance (d : ℤ) : Decidable (Near d) := inferInstanceAs (Decidable (_ ∧ _))

theorem toInt_lo32_of_near {d : ℤ} (h : Near d) : (lo32 d).toInt = d := by
  show ((d : ℤ) : BitVec 32).toInt = d
  rw [BitVec.toInt_intCast]
  obtain ⟨hlo, hhi⟩ := h
  apply Int.bmod_eq_of_le_mul_two
  · push_cast
    omega
  · push_cast
    omega

theorem corrFracRem_near {c : Trim ℤ} {t : ℤ} (h : Near (t - c.ref)) (r : BitVec 32) :
    ofInt32 (corrFracRem c.rate (lo32 (t - c.ref)) r).1 = c.trimmed.corr t r.toNat ∧
      ((corrFracRem c.rate (lo32 (t - c.ref)) r).2.toNat : ℤ) = c.trimmed.corrRem t r.toNat := by
  obtain ⟨h1, h2⟩ := corrFracRem_spec c.rate (lo32 (t - c.ref)) r
  rw [toInt_lo32_of_near h] at h1 h2
  exact ⟨h1, h2⟩

theorem two_pow_32_pos : (0 : ℤ) < 2 ^ 32 := by decide

/-- **An update with a new rate** is one of the trimmed clock. -/
theorem Trim.trimmed_update {c : Trim ℤ} {now : ℤ} (h : Near (now - c.ref)) (rate : BitVec 32) :
    ({ c.update now with rate := rate } : Trim ℤ).trimmed =
      c.trimmed.trim two_pow_32_pos now rate.toInt := by
  obtain ⟨h1, h2⟩ := corrFracRem_near h c.rem
  have hoffset : (c.update now).offset = c.offset + c.trimmed.corr now c.rem.toNat := by
    rw [← h1]
    rfl
  simp only [Trim.trimmed, Trimmed.trim, Trimmed.mk.injEq]
  exact ⟨hoffset, rfl, trivial, h2⟩

theorem compensated.now_eq_corrFracRem {W : Type} [CommRing W] [Word W] (c : Trim W) (t : W) :
    compensated.now c t =
      t + c.offset + ofInt32 (corrFracRem c.rate (lo32 (t - c.ref)) 0).1 := by
  have h0 : (0 : BitVec 32).setWidth 64 = 0#64 := rfl
  unfold compensated.now corrFracRem
  dsimp only
  rw [h0, BitVec.add_zero]

theorem compensated.now_near {c : Trim ℤ} {t : ℤ} (h : Near (t - c.ref)) :
    compensated.now c t = c.trimmed.read t 0 := by
  rw [compensated.now_eq_corrFracRem, (corrFracRem_near h 0).1]
  rfl

/-- **`tai::now` reads two trimmed clocks in a row.** -/
theorem tai.now_near {c d : Trim ℤ} {t : ℤ} (h : Near (t - c.ref))
    (h' : Near (compensated.now c t - d.ref)) :
    tai.now c d t = c.trimmed.read₂ d.trimmed t := by
  have hzero : ((0 : BitVec 32).toNat : ℤ) = 0 := rfl
  obtain ⟨h1, h2⟩ := corrFracRem_near h 0
  rw [hzero] at h1 h2
  have hcomp : t + ofInt32 (corrFracRem c.rate (lo32 (t - c.ref)) 0).1 + c.offset =
      c.trimmed.read t 0 := by
    rw [h1]
    exact add_right_comm _ _ _
  rw [compensated.now_near h, ← hcomp] at h'
  obtain ⟨h3, -⟩ := corrFracRem_near h' (corrFracRem c.rate (lo32 (t - c.ref)) 0).2
  unfold tai.now
  dsimp only
  rw [h3, h2, hcomp]
  exact add_right_comm _ _ _

end Gpsdo.Clock
