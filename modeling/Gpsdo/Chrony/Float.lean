import Gpsdo.Basic.Word
import Gpsdo.Ntp.Peer

set_option autoImplicit false

/-! # The floats of chronyc (`lib/chrony/util.cpp`, `candm.h`)

`htonf` turns a float of IEEE 754 into the format of chronyc: an exponent of 7 bits and a
coefficient of 25 bits, both signed, in the order of the network. The format has no infinity; what
is too large for it becomes one of two words that are meant to be its extremes.
-/

namespace Gpsdo.Chrony

open Ntp (htonl htonl_htonl)

/-! ## Single precision -/

def negative (raw : BitVec 32) : Bool := raw.msb

/-- The biased exponent. -/
def expField (raw : BitVec 32) : ℕ := (raw.extractLsb' 23 8).toNat

def fraction (raw : BitVec 32) : ℕ := (raw.extractLsb' 0 23).toNat

/-- What the bits of a float stand for. -/
inductive Single
  | finite (v : ℚ)
  | infinite (negative : Bool)
  | nan

/-- A magnitude with its sign. -/
def signed (negative : Bool) (x : ℚ) : ℚ := if negative then -x else x

/-- The magnitude of a number whose exponent is not the greatest one. -/
def magnitude (raw : BitVec 32) : ℚ :=
  if expField raw = 0 then fraction raw * 2 ^ (-149 : ℤ)
  else (2 ^ 23 + fraction raw : ℕ) * 2 ^ (expField raw - 150 : ℤ)

def single (raw : BitVec 32) : Single :=
  if expField raw = 255 then if fraction raw = 0 then .infinite (negative raw) else .nan
  else .finite (signed (negative raw) (magnitude raw))

/-! ## The format of chronyc -/

/-- The exponent and the coefficient of a word, in the order of the processor. -/
def exponent (f : BitVec 32) : ℤ := (f.extractLsb' 25 7).toInt

def coefficient (f : BitVec 32) : ℤ := (f.extractLsb' 0 25).toInt

/-- What a word that was received stands for: `2^(exp - 25) * coef`. -/
def decode (f : BitVec 32) : ℚ := coefficient (htonl f) * 2 ^ (exponent (htonl f) - 25)

/-- `chrony::htonf`, on the bits of its argument. -/
def htonf (raw : BitVec 32) : BitVec 32 :=
  let coef := raw &&& (1#32 <<< 23 - 1#32)
  let exp := (raw.sshiftRight 23 &&& 0xFF) - 127
  -- small values and NaNs
  if exp.slt (-65) || (exp == 128 && coef != 0) then 0
  -- large values
  else if (61 : BitVec 32).slt exp then htonl (if raw.slt 0 then 0xFF000000 else 0xFEFFFFFF)
  else
    let coef := coef ||| 1#32 <<< 23
    let coef := if raw.slt 0 then -coef else coef
    let coef := coef &&& (1#32 <<< 25 - 1#32)
    let coef := coef ||| (exp + 2) <<< 25
    htonl coef

example : htonf 0x3F800000 = htonl 0x04800000 := by decide

/-! ## Words -/

/-- The mask of the coefficient. -/
theorem mask_bit : ∀ i < 32, (1#32 <<< 25 - 1#32).getLsbD i = decide (i < 25) := by
  decide

/-- The fields of a word that is put together from a coefficient and an exponent. -/
theorem extract_coef (c e : BitVec 32) :
    (c &&& (1#32 <<< 25 - 1#32) ||| e <<< 25).extractLsb' 0 25 = c.extractLsb' 0 25 := by
  ext i hi
  rw [BitVec.getElem_extractLsb', BitVec.getElem_extractLsb', BitVec.getLsbD_or,
    BitVec.getLsbD_and, BitVec.getLsbD_shiftLeft, mask_bit _ (by omega)]
  simp [hi]

theorem extract_exp (c e : BitVec 32) :
    (c &&& (1#32 <<< 25 - 1#32) ||| e <<< 25).extractLsb' 25 7 = e.extractLsb' 0 7 := by
  ext i hi
  rw [BitVec.getElem_extractLsb', BitVec.getElem_extractLsb', BitVec.getLsbD_or,
    BitVec.getLsbD_and, BitVec.getLsbD_shiftLeft, mask_bit _ (by omega)]
  have hbit : 25 + i < 32 := by omega
  simp [hbit]

/-- The low bits of a word whose value fits in them. -/
theorem toInt_extract {x : BitVec 32} {w : ℕ} (hw : w + 1 ≤ 32) (hlo : -2 ^ w ≤ x.toInt)
    (hhi : x.toInt < 2 ^ w) : (x.extractLsb' 0 (w + 1)).toInt = x.toInt := by
  have hwrap : (x.toNat : ℤ).bmod (2 ^ (w + 1)) = x.toInt.bmod (2 ^ (w + 1)) := by
    rw [BitVec.toInt_eq_toNat_bmod, Int.bmod_bmod_of_dvd (pow_dvd_pow 2 hw)]
  rw [← BitVec.setWidth_eq_extractLsb' hw, BitVec.toInt_setWidth, hwrap]
  exact bmod_of_range hlo hhi

/-! ## The fields of the argument -/

theorem expField_lt (raw : BitVec 32) : expField raw < 256 := (raw.extractLsb' 23 8).isLt

theorem fraction_lt (raw : BitVec 32) : fraction raw < 2 ^ 23 := (raw.extractLsb' 0 23).isLt

theorem coef_eq (raw : BitVec 32) :
    raw &&& (1#32 <<< 23 - 1#32) = BitVec.ofNat 32 (fraction raw) := by
  have hmask : ∀ i < 32, (1#32 <<< 23 - 1#32).getLsbD i = decide (i < 23) := by decide
  ext i hi
  rw [← BitVec.getLsbD_eq_getElem, ← BitVec.getLsbD_eq_getElem, BitVec.getLsbD_and, hmask i hi,
    fraction, BitVec.ofNat_toNat, BitVec.getLsbD_setWidth, BitVec.getLsbD_extractLsb']
  simp [hi, Bool.and_comm]

theorem exp_eq (raw : BitVec 32) :
    raw.sshiftRight 23 &&& 0xFF = BitVec.ofNat 32 (expField raw) := by
  have hmask : ∀ i < 32, (0xFF : BitVec 32).getLsbD i = decide (i < 8) := by decide
  ext i hi
  rw [← BitVec.getLsbD_eq_getElem, ← BitVec.getLsbD_eq_getElem, BitVec.getLsbD_and, hmask i hi,
    expField, BitVec.ofNat_toNat, BitVec.getLsbD_setWidth, BitVec.getLsbD_extractLsb',
    BitVec.getLsbD_sshiftRight]
  by_cases h8 : i < 8
  · have hin : 23 + i < 32 := by omega
    have hpos : ¬ 32 ≤ i := by omega
    simp [h8, hi, hin, hpos]
  · simp [h8]

/-- The exponent without its bias, as an `int32_t`. -/
theorem toInt_exp (raw : BitVec 32) :
    (BitVec.ofNat 32 (expField raw) - 127 : BitVec 32).toInt = expField raw - 127 := by
  have hlt := expField_lt raw
  have hnat : (BitVec.ofNat 32 (expField raw)).toInt = expField raw := by
    rw [BitVec.toInt_ofNat']
    exact bmod_of_range (by omega) (by omega)
  have hbias : (127 : BitVec 32).toInt = 127 := by decide
  rw [BitVec.toInt_sub, hnat, hbias]
  exact bmod_of_range (by omega) (by omega)

/-! ## The cases of `htonf` -/

/-- The coefficient with its hidden bit and its sign. -/
def signedCoef (raw : BitVec 32) : BitVec 32 :=
  if negative raw then -(BitVec.ofNat 32 (fraction raw) ||| 1#32 <<< 23)
  else BitVec.ofNat 32 (fraction raw) ||| 1#32 <<< 23

/-- The word of a number that the format has. -/
def normal (raw : BitVec 32) : BitVec 32 :=
  signedCoef raw &&& (1#32 <<< 25 - 1#32) |||
    (BitVec.ofNat 32 (expField raw) - 127 + 2) <<< 25

/-- The word for what is too large. -/
def saturated (negative : Bool) : BitVec 32 := if negative then 0xFF000000 else 0xFEFFFFFF

theorem htonf_eq (raw : BitVec 32) :
    htonf raw =
      if expField raw < 62 ∨ (expField raw = 255 ∧ fraction raw ≠ 0) then 0
      else if 188 < expField raw then htonl (saturated (negative raw))
      else htonl (normal raw) := by
  have hlt := expField_lt raw
  have hfrac := fraction_lt raw
  have hexp := toInt_exp raw
  have hneg : raw.slt 0 = negative raw := BitVec.slt_zero_eq_msb
  have hsmall : (BitVec.ofNat 32 (expField raw) - 127 : BitVec 32).slt (-65) =
      decide (expField raw < 62) := by
    rw [BitVec.slt, hexp, show (-65 : BitVec 32).toInt = -65 by decide, decide_eq_decide]
    omega
  have hlarge : (61 : BitVec 32).slt (BitVec.ofNat 32 (expField raw) - 127 : BitVec 32) =
      decide (188 < expField raw) := by
    rw [BitVec.slt, hexp, show (61 : BitVec 32).toInt = 61 by decide, decide_eq_decide]
    omega
  have hgreatest : (BitVec.ofNat 32 (expField raw) - 127 == (128 : BitVec 32)) =
      decide (expField raw = 255) := by
    rw [beq_eq_decide, decide_eq_decide, ← BitVec.toInt_inj, hexp,
      show (128 : BitVec 32).toInt = 128 by decide]
    omega
  have hpayload : (BitVec.ofNat 32 (fraction raw) != 0) = decide (fraction raw ≠ 0) := by
    rw [bne, beq_eq_decide, ← decide_not, decide_eq_decide, ← BitVec.toNat_inj,
      BitVec.toNat_ofNat, show (0 : BitVec 32).toNat = 0 from rfl]
    omega
  unfold htonf
  simp only [coef_eq, exp_eq, hneg, hsmall, hlarge, hgreatest, hpayload]
  simp only [← Bool.decide_and, ← Bool.decide_or, decide_eq_true_eq]
  rfl

/-! ## What the words stand for -/

theorem decode_htonl (f : BitVec 32) :
    decode (htonl f) = coefficient f * 2 ^ (exponent f - 25) := by
  unfold decode
  rw [htonl_htonl]

/-- The coefficient of a word of `htonf`. -/
theorem coefficient_normal (raw : BitVec 32) :
    coefficient (normal raw) =
      if negative raw then -(2 ^ 23 + fraction raw : ℤ) else 2 ^ 23 + fraction raw := by
  have hlt := fraction_lt raw
  have hmagnitude : (BitVec.ofNat 32 (fraction raw) ||| 1#32 <<< 23).toNat =
      2 ^ 23 + fraction raw := by
    rw [BitVec.toNat_or, BitVec.toNat_ofNat, Nat.mod_eq_of_lt (by omega), Nat.or_comm]
    exact (Nat.two_pow_add_eq_or_of_lt hlt 1).symm
  have hpos : (BitVec.ofNat 32 (fraction raw) ||| 1#32 <<< 23).toInt = 2 ^ 23 + fraction raw := by
    rw [BitVec.toInt_eq_toNat_bmod, hmagnitude]
    exact bmod_of_range (by omega) (by push_cast; omega)
  have hvalue : (signedCoef raw).toInt =
      if negative raw then -(2 ^ 23 + fraction raw : ℤ) else 2 ^ 23 + fraction raw := by
    unfold signedCoef
    split
    · rw [BitVec.toInt_neg, hpos]
      exact bmod_of_range (by omega) (by omega)
    · exact hpos
  unfold coefficient normal
  rw [extract_coef, ← hvalue]
  apply toInt_extract (by decide)
  · rw [hvalue]
    split <;> omega
  · rw [hvalue]
    split <;> omega

theorem exponent_normal {raw : BitVec 32} (hmin : 62 ≤ expField raw) (hmax : expField raw ≤ 188) :
    exponent (normal raw) = expField raw - 125 := by
  have hvalue : (BitVec.ofNat 32 (expField raw) - 127 + 2 : BitVec 32).toInt =
      expField raw - 125 := by
    rw [BitVec.toInt_add, toInt_exp, show (2 : BitVec 32).toInt = 2 by decide]
    refine (bmod_of_range (by omega) (by omega)).trans ?_
    omega
  unfold exponent normal
  rw [extract_exp, ← hvalue]
  apply toInt_extract (by decide)
  · rw [hvalue]
    omega
  · rw [hvalue]
    omega

/-- **A number of the format is encoded exactly.** -/
theorem decode_normal {raw : BitVec 32} (hmin : 62 ≤ expField raw) (hmax : expField raw ≤ 188) :
    decode (htonl (normal raw)) = signed (negative raw) (magnitude raw) := by
  have hscale : ((expField raw : ℤ) - 125 - 25 : ℤ) = expField raw - 150 := by ring
  rw [decode_htonl, coefficient_normal, exponent_normal hmin hmax, hscale]
  unfold signed magnitude
  rw [if_neg (by omega : expField raw ≠ 0)]
  split
  · push_cast
    ring
  · push_cast
    ring

/-- **How large a number is** depends on its exponent. -/
theorem magnitude_lt_iff (raw : BitVec 32) {k : ℕ} (hk : 0 < k) :
    magnitude raw < 2 ^ (k - 127 : ℤ) ↔ expField raw < k := by
  have hfrac : (fraction raw : ℚ) < 2 ^ 23 := by exact_mod_cast fraction_lt raw
  have hmono : ∀ {a b : ℤ}, a ≤ b → (2 : ℚ) ^ a ≤ 2 ^ b := fun h =>
    zpow_le_zpow_right₀ one_le_two h
  unfold magnitude
  by_cases hzero : expField raw = 0
  · rw [if_pos hzero, hzero]
    refine iff_of_true ?_ hk
    calc (fraction raw : ℚ) * 2 ^ (-149 : ℤ) < 2 ^ 23 * 2 ^ (-149 : ℤ) :=
          mul_lt_mul_of_pos_right hfrac (by positivity)
      _ = 2 ^ (-126 : ℤ) := by norm_num
      _ ≤ 2 ^ (k - 127 : ℤ) := hmono (by omega)
  · rw [if_neg hzero]
    push_cast
    have hscale : ∀ n : ℕ, (2 : ℚ) ^ n * 2 ^ (expField raw - 150 : ℤ) =
        2 ^ (n + (expField raw - 150) : ℤ) := by
      intro n
      rw [zpow_add₀ two_ne_zero, zpow_natCast]
    constructor
    · intro hlt
      by_contra hge
      refine absurd hlt (not_lt.mpr ?_)
      calc (2 : ℚ) ^ (k - 127 : ℤ) ≤ 2 ^ ((23 : ℕ) + (expField raw - 150) : ℤ) :=
            hmono (by omega)
        _ = 2 ^ 23 * 2 ^ (expField raw - 150 : ℤ) := (hscale 23).symm
        _ ≤ (2 ^ 23 + fraction raw) * 2 ^ (expField raw - 150 : ℤ) :=
            mul_le_mul_of_nonneg_right (le_add_of_nonneg_right (Nat.cast_nonneg _))
              (by positivity)
    · intro hlt
      calc (2 ^ 23 + fraction raw : ℚ) * 2 ^ (expField raw - 150 : ℤ)
          < 2 ^ 24 * 2 ^ (expField raw - 150 : ℤ) :=
            mul_lt_mul_of_pos_right (by linarith) (by positivity)
        _ = 2 ^ ((24 : ℕ) + (expField raw - 150) : ℤ) := hscale 24
        _ ≤ 2 ^ (k - 127 : ℤ) := hmono (by omega)

theorem abs_signed (raw : BitVec 32) :
    |signed (negative raw) (magnitude raw)| = magnitude raw := by
  have hnonneg : 0 ≤ magnitude raw := by
    unfold magnitude
    split <;> positivity
  unfold signed
  split
  · rw [abs_neg, abs_of_nonneg hnonneg]
  · exact abs_of_nonneg hnonneg

/-! ## The law -/

/-- No word is beyond `x` on the side of its sign. -/
def Extreme (negative : Bool) (x : ℚ) : Prop :=
  if negative then ∀ f, x ≤ decode f else ∀ f, decode f ≤ x

/-- What `htonf` has to do with a float: exact in the range of the format, nothing below it, and the
extreme of its sign above it. -/
def Encodes (raw : BitVec 32) : Prop :=
  match single raw with
  | .nan => True
  | .infinite negative => Extreme negative (decode (htonf raw))
  | .finite v =>
      if |v| < 2 ^ (-65 : ℤ) then decode (htonf raw) = 0
      else if |v| < 2 ^ 62 then decode (htonf raw) = v
      else Extreme (negative raw) (decode (htonf raw))

/-- The words for what is too large have the exponent -1 and not the greatest one. -/
theorem not_extreme_saturated (negative : Bool) :
    ¬ Extreme negative (decode (htonl (saturated negative))) := by
  intro h
  cases negative with
  | true =>
      have hmost : decode (htonl 0xFF000000) ≤ decode (htonl 0x7F000000) := h _
      rw [decode_htonl, decode_htonl, show coefficient 0xFF000000 = -2 ^ 24 by decide,
        show coefficient 0x7F000000 = -2 ^ 24 by decide, show exponent 0xFF000000 = -1 by decide,
        show exponent 0x7F000000 = 63 by decide] at hmost
      norm_num at hmost
  | false =>
      have hmost : decode (htonl 0x7EFFFFFF) ≤ decode (htonl 0xFEFFFFFF) := h _
      rw [decode_htonl, decode_htonl, show coefficient 0xFEFFFFFF = 2 ^ 24 - 1 by decide,
        show coefficient 0x7EFFFFFF = 2 ^ 24 - 1 by decide,
        show exponent 0xFEFFFFFF = -1 by decide, show exponent 0x7EFFFFFF = 63 by decide] at hmost
      norm_num at hmost

theorem single_finite {raw : BitVec 32} (h : expField raw ≠ 255) :
    single raw = .finite (signed (negative raw) (magnitude raw)) := by
  rw [single, if_neg h]

theorem finite_small_iff (raw : BitVec 32) :
    |signed (negative raw) (magnitude raw)| < 2 ^ (-65 : ℤ) ↔ expField raw < 62 := by
  rw [abs_signed, ← magnitude_lt_iff raw (by decide : 0 < 62)]
  norm_num

theorem finite_inRange_iff (raw : BitVec 32) :
    |signed (negative raw) (magnitude raw)| < 2 ^ 62 ↔ expField raw < 189 := by
  rw [abs_signed, ← magnitude_lt_iff raw (by decide : 0 < 189)]
  norm_num

/-- A float below the greatest exponent of the format. -/
theorem encodes_of_lt {raw : BitVec 32} (h : expField raw < 189) : Encodes raw := by
  unfold Encodes
  rw [single_finite (by omega)]
  dsimp only
  by_cases hmin : expField raw < 62
  · have hword : htonf raw = 0 := by rw [htonf_eq, if_pos (Or.inl hmin)]
    rw [if_pos ((finite_small_iff raw).mpr hmin), hword]
    decide +kernel
  · have hword : htonf raw = htonl (normal raw) := by
      rw [htonf_eq, if_neg (by omega), if_neg (by omega)]
    rw [if_neg (hmin ∘ (finite_small_iff raw).mp), if_pos ((finite_inRange_iff raw).mpr h), hword]
    exact decode_normal (by omega) (by omega)

/-- A float above it, and an infinity. -/
theorem not_encodes_of_ge {raw : BitVec 32} (h : 189 ≤ expField raw) (hnan : single raw ≠ .nan) :
    ¬ Encodes raw := by
  have hpayload : ¬ (expField raw = 255 ∧ fraction raw ≠ 0) := by
    rintro ⟨hgreatest, hfrac⟩
    exact hnan (by rw [single, if_pos hgreatest, if_neg hfrac])
  have hword : htonf raw = htonl (saturated (negative raw)) := by
    rw [htonf_eq, if_neg (by omega), if_pos (by omega)]
  unfold Encodes
  by_cases hgreatest : expField raw = 255
  · have hfrac : fraction raw = 0 := by
      by_contra hfrac
      exact hpayload ⟨hgreatest, hfrac⟩
    rw [single, if_pos hgreatest, if_pos hfrac, hword]
    exact not_extreme_saturated _
  · have hsmall := (finite_small_iff raw).not.mpr (by omega)
    have hrange := (finite_inRange_iff raw).not.mpr (by omega)
    rw [single_finite hgreatest]
    dsimp only
    rw [if_neg hsmall, if_neg hrange, hword]
    exact not_extreme_saturated _

/-- **A float is encoded as it has to be if and only if it is in the range of the format.** -/
theorem htonf_encodes_iff (raw : BitVec 32) (h : single raw ≠ .nan) :
    Encodes raw ↔ ∃ v, single raw = .finite v ∧ |v| < 2 ^ 62 := by
  constructor
  · intro hencodes
    have hlt : expField raw < 189 := by
      by_contra hge
      exact not_encodes_of_ge (by omega) h hencodes
    exact ⟨_, single_finite (by omega), (finite_inRange_iff raw).mpr hlt⟩
  · rintro ⟨v, hv, hrange⟩
    have hfinite : expField raw ≠ 255 := by
      intro hgreatest
      rw [single, if_pos hgreatest] at hv
      split at hv <;> cases hv
    obtain rfl := Single.finite.inj ((single_finite hfinite).symm.trans hv)
    exact encodes_of_lt ((finite_inRange_iff raw).mp hrange)

/-- The float 1. -/
theorem htonf_encodes_iff_one : Encodes 0x3F800000 := by
  have hfinite := single_finite (by decide : expField 0x3F800000 ≠ 255)
  refine (htonf_encodes_iff 0x3F800000 (by rw [hfinite]; simp)).mpr ⟨_, hfinite, ?_⟩
  decide +kernel

/-- The float 2^62 is the least one that is too large. -/
theorem htonf_saturates_wrong :
    single 0x5E800000 = .finite (2 ^ 62) ∧ ¬ Encodes 0x5E800000 := by
  have hfinite := single_finite (by decide : expField 0x5E800000 ≠ 255)
  have hvalue : signed (negative 0x5E800000) (magnitude 0x5E800000) = 2 ^ 62 := by
    decide +kernel
  refine ⟨by rw [hfinite, hvalue], not_encodes_of_ge (by decide) ?_⟩
  rw [hfinite]
  simp

end Gpsdo.Chrony
