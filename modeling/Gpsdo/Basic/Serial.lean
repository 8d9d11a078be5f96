import Gpsdo.Basic.Word

set_option autoImplicit false

/-! # Serial number arithmetic

Values of a counter that wraps around are compared through their difference read as a signed
number: `sdiff a b` is `a - b` in two's complement. On all values this is no order. It is one
inside a window: values that lie within a quarter of the range of one common point `t` are
compared as the integers `sdiff t a`, `sdiff t b` (`sdiff_of_window`).
-/

namespace Gpsdo

variable {w : Nat}

/-- The difference of two counter values as a signed number. -/
def sdiff (a b : BitVec w) : Int := (a - b).toInt

/-- `a` lies within a quarter of the range of `t`, on either side; the lower end is
included. -/
def InWindow (t a : BitVec (w + 2)) : Prop := -2 ^ w ≤ sdiff t a ∧ sdiff t a < 2 ^ w

@[simp] theorem sdiff_self (a : BitVec w) : sdiff a a = 0 := by
  simp [sdiff]

theorem eq_of_sdiff_eq_zero {a b : BitVec w} (h : sdiff a b = 0) : a = b := by
  have h0 : a - b = 0#w := by
    apply BitVec.eq_of_toInt_eq
    simpa [sdiff] using h
  calc a = a - b + b := by rw [BitVec.sub_add_cancel]
    _ = b := by rw [h0, BitVec.zero_add]

/-- The signed difference is a difference of integers, up to the wrap. -/
theorem sdiff_eq_bmod (t a b : BitVec w) :
    sdiff a b = (sdiff t b - sdiff t a).bmod (2 ^ w) := by
  have hab : a - b = (t - b) - (t - a) := by ring
  rw [sdiff, hab, BitVec.toInt_sub]
  rfl

/-- **Inside a window the comparison is exact.** -/
theorem sdiff_of_window {t a b : BitVec (w + 2)} (ha : InWindow t a) (hb : InWindow t b) :
    sdiff a b = sdiff t b - sdiff t a := by
  have hpow : (2 : Int) ^ (w + 1) = 2 * 2 ^ w := by ring
  have hloa := ha.1
  have hhia := ha.2
  have hlob := hb.1
  have hhib := hb.2
  rw [sdiff_eq_bmod t a b]
  apply bmod_of_range (w := w + 1)
  · omega
  · omega

/-- Moving the point of view forward by `d` adds `d`, as long as the window is not left. -/
theorem sdiff_add {t a : BitVec (w + 2)} {d : Nat} (ha : -2 ^ w ≤ sdiff t a)
    (hd : sdiff t a + d < 2 ^ w) : sdiff (t + BitVec.ofNat (w + 2) d) a = sdiff t a + d := by
  have hpow : (2 : Int) ^ (w + 1) = 2 * 2 ^ w := by ring
  have hta : t + BitVec.ofNat (w + 2) d - a = (t - a) + BitVec.ofInt (w + 2) d := by
    rw [BitVec.ofInt_natCast]; ring
  rw [sdiff, hta, BitVec.toInt_add, BitVec.toInt_ofInt, Int.add_bmod_bmod]
  simp only [sdiff] at ha hd
  apply bmod_of_range (w := w + 1)
  · omega
  · omega

/-- Putting a value off by `i` subtracts `i`, from a value that has been reached and for `i` up to
a quarter of the range. -/
theorem sdiff_postpone {t a i : BitVec (w + 2)} (ha : 0 ≤ sdiff t a) (ha' : sdiff t a < 2 ^ w)
    (hi : i.toNat ≤ 2 ^ w) : sdiff t (i + a) = sdiff t a - i.toNat := by
  have hpow : (2 : Int) ^ (w + 1) = 2 * 2 ^ w := by ring
  have hpos : (0 : Int) < 2 ^ w := by positivity
  have hi' : (i.toNat : Int) ≤ 2 ^ w := by exact_mod_cast hi
  have hta : t - (i + a) = (t - a) - i := by ring
  rw [sdiff, hta, BitVec.toInt_sub, BitVec.toInt_eq_toNat_bmod i, Int.sub_bmod_bmod]
  simp only [sdiff] at ha ha'
  apply bmod_of_range (w := w + 1)
  · omega
  · omega

/-- **Counters that do not wrap** compare as their low bits, when they are less than half of the
range apart. -/
theorem sdiff_ofNat {a b : Nat} (h : (b : Int) - a ≤ 2 ^ w) (h' : (a : Int) - b < 2 ^ w) :
    sdiff (BitVec.ofNat (w + 1) a) (BitVec.ofNat (w + 1) b) = a - b := by
  rw [sdiff, BitVec.toInt_sub, BitVec.toInt_ofNat', BitVec.toInt_ofNat', Int.bmod_sub_bmod,
    Int.sub_bmod_bmod]
  apply bmod_of_range
  · omega
  · omega

end Gpsdo
