import Gpsdo.Clock.Mono
import Gpsdo.Ntp.Peer

set_option autoImplicit false

/-! # Timestamps of PTP (`lib/ptp/common.cpp`)

A timestamp of PTP counts seconds and nanoseconds, a stamp of the clocks is a fixed-point number of
seconds. The way from nanoseconds to a fraction rounds to the nearest (`nanosToFrac`), the way back
rounds down, so that a nanosecond can get lost.
-/

namespace Gpsdo.Ptp

open Clock
open Ntp (htonl htonl_htonl)

/-- The fields are in the order of the network. -/
structure PTP2_TIMESTAMP where
  secondsHi : BitVec 16
  secondsLo : BitVec 32
  nanoseconds : BitVec 32
  deriving DecidableEq, Repr

/-- What the field stands for. -/
def PTP2_TIMESTAMP.nanos (tsPtp : PTP2_TIMESTAMP) : ℕ := (htonl tsPtp.nanoseconds).toNat

def toPtpTimestamp (ts : BitVec 64) : PTP2_TIMESTAMP :=
  let ipart : BitVec 32 := (ts >>> 32).setWidth 32
  -- the seconds are cleared, and the nanoseconds are carried into their place
  let full : BitVec 64 := (ts.setWidth 32).setWidth 64 * 1000000000
  { secondsHi := 0
    secondsLo := htonl ipart
    nanoseconds := htonl ((full >>> 32).setWidth 32) }

def fromPtpTimestamp (tsPtp : PTP2_TIMESTAMP) : BitVec 64 :=
  let fpart := nanosToFrac (htonl tsPtp.nanoseconds)
  let ipart := htonl tsPtp.secondsLo
  ipart ++ fpart

/-! ## From nanoseconds to a fraction -/

variable {n : BitVec 32}

/-- The error is half a unit of rounding, and what the constant is too small by. -/
theorem unboundedFrac_error {n : ℕ} (hn : n < 10 ^ 9) :
    n * 2 ^ 32 < unboundedFrac n * 10 ^ 9 + 10 ^ 9 ∧
      unboundedFrac n * 10 ^ 9 < n * 2 ^ 32 + 10 ^ 9 := by
  rw [unboundedFrac_eq]
  omega

theorem abs_nanosToFrac_sub_lt (hn : n.toNat < 10 ^ 9) :
    |((nanosToFrac n).toNat : ℚ) - n.toNat * 2 ^ 32 / 10 ^ 9| < 1 := by
  obtain ⟨hlo, hhi⟩ := unboundedFrac_error hn
  rw [← nanosToFrac_eq hn] at hlo hhi
  have hlo : (n.toNat * 2 ^ 32 : ℚ) < (nanosToFrac n).toNat * 10 ^ 9 + 10 ^ 9 := by
    exact_mod_cast hlo
  have hhi : ((nanosToFrac n).toNat * 10 ^ 9 : ℚ) < n.toNat * 2 ^ 32 + 10 ^ 9 := by
    exact_mod_cast hhi
  rw [abs_lt]
  constructor
  · linarith
  · linarith

theorem unboundedFrac_strictMono : StrictMono unboundedFrac := by
  refine strictMono_nat_of_lt_succ fun n => ?_
  rw [unboundedFrac_eq, unboundedFrac_eq]
  omega

/-! ## From a fraction to nanoseconds -/

theorem nanos_toPtpTimestamp (ts : BitVec 64) :
    (toPtpTimestamp ts).nanos = (ts.setWidth 32).toNat * 10 ^ 9 / 2 ^ 32 := by
  have hfrac := (ts.setWidth 32).isLt
  unfold toPtpTimestamp PTP2_TIMESTAMP.nanos
  dsimp only
  rw [htonl_htonl, BitVec.toNat_setWidth, BitVec.toNat_ushiftRight, BitVec.toNat_mul,
    BitVec.toNat_setWidth (x := ts.setWidth 32), Nat.shiftRight_eq_div_pow,
    show (1000000000 : BitVec 64).toNat = 10 ^ 9 by decide,
    Nat.mod_eq_of_lt (hfrac.trans (by decide) : _ < 2 ^ 64),
    Nat.mod_eq_of_lt (by omega : _ < 2 ^ 64)]
  exact Nat.mod_eq_of_lt (by omega)

/-- The nanoseconds of a fraction that was made of nanoseconds. -/
theorem nanos_unboundedFrac {n : ℕ} (hn : n < 10 ^ 9) :
    unboundedFrac n * 10 ^ 9 / 2 ^ 32 = n ∨ unboundedFrac n * 10 ^ 9 / 2 ^ 32 + 1 = n := by
  obtain ⟨hlo, hhi⟩ := unboundedFrac_error hn
  omega

/-- The halves of a stamp. -/
theorem append_halves (ipart fpart : BitVec 32) :
    ((ipart ++ fpart) >>> 32).setWidth 32 = ipart ∧ (ipart ++ fpart).setWidth 32 = fpart := by
  constructor
  · ext i hi
    rw [BitVec.getElem_setWidth, BitVec.getLsbD_ushiftRight, BitVec.getLsbD_append,
      if_neg (by omega), Nat.add_sub_cancel_left, BitVec.getLsbD_eq_getElem]
  · ext i hi
    rw [BitVec.getElem_setWidth, BitVec.getLsbD_append, if_pos hi, BitVec.getLsbD_eq_getElem]

/-! ## There and back -/

theorem seconds_roundTrip {tsPtp : PTP2_TIMESTAMP} (hhi : tsPtp.secondsHi = 0) :
    (toPtpTimestamp (fromPtpTimestamp tsPtp)).secondsHi = tsPtp.secondsHi ∧
      (toPtpTimestamp (fromPtpTimestamp tsPtp)).secondsLo = tsPtp.secondsLo := by
  refine ⟨hhi.symm, ?_⟩
  unfold toPtpTimestamp fromPtpTimestamp
  dsimp only
  rw [(append_halves _ _).1, htonl_htonl]

theorem nanos_fromPtpTimestamp {tsPtp : PTP2_TIMESTAMP} (hn : tsPtp.nanos < 10 ^ 9) :
    (toPtpTimestamp (fromPtpTimestamp tsPtp)).nanos =
      unboundedFrac tsPtp.nanos * 10 ^ 9 / 2 ^ 32 := by
  unfold fromPtpTimestamp
  rw [nanos_toPtpTimestamp, (append_halves _ _).2, nanosToFrac_eq hn]
  rfl

/-- **Nanoseconds.** Below a second, `nanosToFrac` does not overflow, its error is less than a unit,
and it increases; a timestamp that goes through a stamp loses a nanosecond or nothing; and the
nanoseconds of a stamp are less than a second and do not decrease when its fraction increases. -/
theorem nanos_roundTrip :
    (∀ n : BitVec 32, n.toNat < 10 ^ 9 →
      4 * n.toNat < 2 ^ 32 ∧ (nanosToFrac n).toNat = unboundedFrac n.toNat ∧
        |((nanosToFrac n).toNat : ℚ) - n.toNat * 2 ^ 32 / 10 ^ 9| < 1) ∧
    (∀ n n' : BitVec 32, n < n' → n'.toNat < 10 ^ 9 → nanosToFrac n < nanosToFrac n') ∧
    (∀ tsPtp : PTP2_TIMESTAMP, tsPtp.secondsHi = 0 → tsPtp.nanos < 10 ^ 9 →
      let back := toPtpTimestamp (fromPtpTimestamp tsPtp)
      back.secondsHi = tsPtp.secondsHi ∧ back.secondsLo = tsPtp.secondsLo ∧
        (back.nanos = tsPtp.nanos ∨ back.nanos + 1 = tsPtp.nanos)) ∧
    (∀ ts, (toPtpTimestamp ts).nanos < 10 ^ 9) ∧
    ∀ ts ts' : BitVec 64, ts.setWidth 32 ≤ ts'.setWidth 32 →
      (toPtpTimestamp ts).nanos ≤ (toPtpTimestamp ts').nanos := by
  refine ⟨fun n hn => ⟨by omega, nanosToFrac_eq hn, abs_nanosToFrac_sub_lt hn⟩,
    fun n n' hlt hn' => ?_, fun tsPtp hhi hn => ?_, fun ts => ?_, fun ts ts' hle => ?_⟩
  · rw [BitVec.lt_def] at hlt ⊢
    rw [nanosToFrac_eq hn', nanosToFrac_eq (hlt.trans hn')]
    exact unboundedFrac_strictMono hlt
  · obtain ⟨hsecondsHi, hsecondsLo⟩ := seconds_roundTrip hhi
    refine ⟨hsecondsHi, hsecondsLo, ?_⟩
    rw [nanos_fromPtpTimestamp hn]
    exact nanos_unboundedFrac hn
  · have hfrac := (ts.setWidth 32).isLt
    rw [nanos_toPtpTimestamp]
    omega
  · rw [BitVec.le_def] at hle
    rw [nanos_toPtpTimestamp, nanos_toPtpTimestamp]
    exact Nat.div_le_div_right (Nat.mul_le_mul_right _ hle)

/-- One nanosecond is lost. -/
theorem nanos_roundTrip_one :
    let tsPtp : PTP2_TIMESTAMP := ⟨0, htonl 5, htonl 1⟩
    let back := toPtpTimestamp (fromPtpTimestamp tsPtp)
    back.secondsLo = tsPtp.secondsLo ∧ back.nanos = 0 := by
  intro tsPtp back
  obtain ⟨-, hseconds, hnanos⟩ :=
    nanos_roundTrip.2.2.1 tsPtp (by decide) (by decide)
  exact ⟨hseconds, by decide⟩

end Gpsdo.Ptp
