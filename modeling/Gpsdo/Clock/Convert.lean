import Gpsdo.Clock.Exact

set_option autoImplicit false

/-! # The conversions of a monotonic time agree

`tai::now` and `capture::rawToFull` round every correction down and carry the fraction of the first
into the second; `tai::fromMono` works on magnitudes and rounds toward zero.
-/

namespace Gpsdo.Clock

/-! ## One correction -/

/-- `corrValue` is less than a unit away from the exact correction. -/
theorem corrValue_bounds (rate : BitVec 32) {delta : BitVec 64} (h : |delta.toInt| ≤ 2 ^ 31) :
    rate.toInt * delta.toInt - 2 ^ 32 < 2 ^ 32 * (corrValue rate delta).toInt ∧
      2 ^ 32 * (corrValue rate delta).toInt < rate.toInt * delta.toInt + 2 ^ 32 := by
  rw [corrValue_spec rate h]
  split
  · have hneg : rate.toInt * -delta.toInt = -(rate.toInt * delta.toInt) := mul_neg _ _
    rw [hneg]
    generalize rate.toInt * delta.toInt = x
    omega
  · generalize rate.toInt * delta.toInt = x
    omega

theorem toInt_lo32_near {x : BitVec 64} (h : Near x.toInt) :
    (lo32 x : BitVec 32).toInt = x.toInt := by
  obtain ⟨hlo, hhi⟩ := h
  show (x.setWidth 32).toInt = _
  rw [toInt_lo32]
  apply Int.bmod_eq_of_le_mul_two <;> omega

/-- The correction of a small difference of 64-bit times, with what it leaves. -/
theorem corrFracRem_eq (rate : BitVec 32) {delta : BitVec 64} (h : Near delta.toInt)
    (rem : BitVec 32) :
    2 ^ 32 * (corrFracRem rate (lo32 delta) rem).1.toInt +
        (corrFracRem rate (lo32 delta) rem).2.toNat =
      rate.toInt * delta.toInt + rem.toNat := by
  obtain ⟨h1, h2⟩ := corrFracRem_spec rate (lo32 delta) rem
  rw [h1, h2, toInt_lo32_near h]
  exact Int.mul_ediv_add_emod _ _

/-- `corrValue` rounds to the same unit as `corrFracRem` or to the next one. -/
theorem corrValue_eq_add (rate : BitVec 32) {delta : BitVec 64} (h : Near delta.toInt) :
    ∃ e : ℤ, (0 ≤ e ∧ e ≤ 1) ∧ corrValue rate delta =
      ofInt32 (corrFracRem rate (lo32 delta) 0).1 + BitVec.ofInt 64 e := by
  have hfloor := corrFracRem_eq rate h 0
  have hrem := (corrFracRem rate (lo32 delta) 0).2.isLt
  obtain ⟨hlo, hhi⟩ := corrValue_bounds rate (abs_le.mpr ⟨h.1, h.2.le⟩)
  have hzero : ((0 : BitVec 32).toNat : ℤ) = 0 := rfl
  rw [hzero, add_zero] at hfloor
  refine ⟨(corrValue rate delta).toInt - (corrFracRem rate (lo32 delta) 0).1.toInt, by omega, ?_⟩
  have hcast : (ofInt32 (corrFracRem rate (lo32 delta) 0).1 : BitVec 64) =
      BitVec.ofInt 64 (corrFracRem rate (lo32 delta) 0).1.toInt := rfl
  rw [hcast, ← BitVec.ofInt_add, add_sub_cancel, BitVec.ofInt_toInt]

theorem toInt_add_small {x : BitVec 64} (h : Near x.toInt) {e : ℤ} (he : 0 ≤ e ∧ e ≤ 1) :
    (x + BitVec.ofInt 64 e).toInt = x.toInt + e := by
  obtain ⟨hlo, hhi⟩ := h
  rw [BitVec.toInt_add, BitVec.toInt_ofInt, Int.add_bmod_bmod]
  apply Int.bmod_eq_of_le_mul_two <;> omega

/-! ## Two corrections in a row -/

/-- A correction of a time that is up to a unit ahead, and one with a fraction carried in, differ by
at most 3 units, the unit included. -/
theorem corrValue_sub_corrFracRem (rate rem : BitVec 32) {delta : BitVec 64}
    (h : Near delta.toInt) {e : ℤ} (he : 0 ≤ e ∧ e ≤ 1) :
    |(BitVec.ofInt 64 e + corrValue rate (delta + BitVec.ofInt 64 e) -
      ofInt32 (corrFracRem rate (lo32 delta) rem).1).toInt| ≤ 3 := by
  have hfloor := corrFracRem_eq rate h rem
  have hleft := (corrFracRem rate (lo32 delta) rem).2.isLt
  have hcarry := rem.isLt
  have hsum := toInt_add_small h he
  have habs : |(delta + BitVec.ofInt 64 e).toInt| ≤ 2 ^ 31 := by
    rw [hsum]
    exact abs_le.mpr ⟨by linarith [h.1], by linarith [h.2]⟩
  obtain ⟨hlo, hhi⟩ := corrValue_bounds rate habs
  rw [hsum] at hlo hhi
  -- the unit ahead counts for half a unit up to one and a half
  have hunit : 0 ≤ 2 ^ 32 * e + rate.toInt * e ∧ 2 ^ 32 * e + rate.toInt * e ≤ 3 * 2 ^ 31 := by
    have hrate := toInt_bounds rate
    obtain rfl | rfl : e = 0 ∨ e = 1 := by omega
    · norm_num
    · constructor <;> linarith [hrate.1, hrate.2]
  have hbound : |e + (corrValue rate (delta + BitVec.ofInt 64 e)).toInt -
      (corrFracRem rate (lo32 delta) rem).1.toInt| ≤ 3 := by
    rw [mul_add] at hlo hhi
    generalize rate.toInt * delta.toInt = x at *
    generalize rate.toInt * e = y at *
    rw [abs_le]
    constructor <;> omega
  have hcast : BitVec.ofInt 64 e + corrValue rate (delta + BitVec.ofInt 64 e) -
      ofInt32 (corrFracRem rate (lo32 delta) rem).1 =
      BitVec.ofInt 64 (e + (corrValue rate (delta + BitVec.ofInt 64 e)).toInt -
        (corrFracRem rate (lo32 delta) rem).1.toInt) := by
    show _ = ((e + _ - _ : ℤ) : BitVec 64)
    rw [Int.cast_sub, Int.cast_add]
    congr 2
    exact BitVec.ofInt_toInt.symm
  rw [hcast, BitVec.toInt_ofInt, bmod_of_abs_lt (w := 63) (by linarith)]
  exact hbound

/-- **The conversions agree.** `capture::rawToFull` and `tai::now` compute the same TAI time, and
`tai::fromMono` one that is at most 3 units away. -/
theorem conversions_agree (clkComp clkTai : Trim (BitVec 64)) (ts : BitVec 64)
    (hcomp : Near (ts - clkComp.ref).toInt)
    (htai : Near ((capture.rawToFull clkComp clkTai ts).2.1 - clkTai.ref).toInt) :
    (capture.rawToFull clkComp clkTai ts).2.2 = tai.now clkComp clkTai ts ∧
      |(tai.fromMono clkComp clkTai ts - tai.now clkComp clkTai ts).toInt| ≤ 3 := by
  refine ⟨rfl, ?_⟩
  obtain ⟨e, he, hfirst⟩ := corrValue_eq_add clkComp.rate hcomp
  have hsecond := corrValue_sub_corrFracRem clkTai.rate
    (corrFracRem clkComp.rate (lo32 (ts - clkComp.ref)) 0).2 htai he
  have hdiff : tai.fromMono clkComp clkTai ts - tai.now clkComp clkTai ts =
      BitVec.ofInt 64 e + corrValue clkTai.rate ((capture.rawToFull clkComp clkTai ts).2.1 -
        clkTai.ref + BitVec.ofInt 64 e) -
      ofInt32 (corrFracRem clkTai.rate
        (lo32 ((capture.rawToFull clkComp clkTai ts).2.1 - clkTai.ref))
        (corrFracRem clkComp.rate (lo32 (ts - clkComp.ref)) 0).2).1 := by
    have hahead : ts + corrValue clkComp.rate (ts - clkComp.ref) + clkComp.offset - clkTai.ref =
        (capture.rawToFull clkComp clkTai ts).2.1 - clkTai.ref + BitVec.ofInt 64 e := by
      rw [hfirst]
      show _ = ts + _ + _ - _ + _
      ring
    rw [← hahead]
    show ts + _ + _ + _ + _ - (ts + _ + _ + _ + _) = _
    rw [hfirst]
    show _ = _ + _ - ofInt32 (corrFracRem clkTai.rate (lo32 (ts + _ + _ - _)) _).1
    ring
  rw [hdiff]
  exact hsecond

/-- A time before both references, at negative rates. -/
theorem conversions_agree_beforeReference :
    let clkComp : Trim (BitVec 64) := ⟨0, 5 <<< 32, 0x80000000, 0⟩
    let clkTai : Trim (BitVec 64) := ⟨7, 5 <<< 32, 0xFFFF0000, 0⟩
    |(tai.fromMono clkComp clkTai 21000000001 - tai.now clkComp clkTai 21000000001).toInt| ≤ 3 :=
  (conversions_agree ⟨0, 5 <<< 32, 0x80000000, 0⟩ ⟨7, 5 <<< 32, 0xFFFF0000, 0⟩ 21000000001
    (by decide) (by decide)).2

end Gpsdo.Clock
