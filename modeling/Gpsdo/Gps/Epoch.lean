import Gpsdo.Basic.Calendar
import Gpsdo.Gps.Pvt

set_option autoImplicit false

/-! # The epoch of a PVT message (`lib/gps.cpp`)

`processUbxPVT` counts days from 1900 with a rule for leap years of its own, and days of the month
from one. From March 2000 to the end of 2399 this gives the days since 1970.
-/

namespace Gpsdo.Gps

open Net

/-! ## Days -/

/-- The tables of days are those of the calendar. -/
theorem lutDays_eq (env : Env) (leap : Bool) {month : Byte} (hpos : 1 ≤ month.toNat)
    (hle : month.toNat ≤ 12) :
    lutDays env leap month = BitVec.ofNat 32 (daysBeforeMonth leap month.toNat) := by
  unfold lutDays
  generalize month.toNat = m at hpos hle ⊢
  interval_cases m <;> cases leap <;> rfl

/-- What `processUbxPVT` takes for a leap year. -/
def takenLeap (y : ℕ) : Bool := (y - 1900) % 4 = 0 ∧ (y - 1900) % 100 ≠ 0

/-- The years are counted from 1900, with a day for each fourth one but the hundredth ones. -/
theorem yearDays_eq {year : BitVec 16} (h : 1900 < year.toNat) :
    Receiver.yearDays year = (BitVec.ofNat 32 (365 * (year.toNat - 1900) + ((year.toNat - 1900) / 4 -
      (year.toNat - 1900) / 100 - if takenLeap year.toNat then 1 else 0)), takenLeap year.toNat) := by
  have hyear := year.isLt
  have hnumber : year.setWidth 32 - 1900 = BitVec.ofNat 32 (year.toNat - 1900) := by
    apply BitVec.eq_of_toNat_eq
    have h1900 : (1900 : BitVec 32).toNat = 1900 := rfl
    rw [BitVec.toNat_sub, BitVec.toNat_setWidth, h1900, BitVec.toNat_ofNat]
    omega
  -- from here on the years are counted from 1900, and no difference wraps
  generalize ho : year.toNat - 1900 = o at *
  have hlt : o < 2 ^ 16 := by omega
  have htoNat : (BitVec.ofNat 32 o).toNat = o := by
    rw [BitVec.toNat_ofNat]
    omega
  have hleap : (BitVec.ofNat 32 o &&& 3 = 0 ∧ BitVec.ofNat 32 o % 100 ≠ 0) ↔
      (o % 4 = 0 ∧ o % 100 ≠ 0) := by
    have hand : (BitVec.ofNat 32 o &&& 3).toNat = o % 4 := by
      rw [BitVec.toNat_and, htoNat]
      exact Nat.and_two_pow_sub_one_eq_mod o 2
    have hmod : (BitVec.ofNat 32 o % 100).toNat = o % 100 := by
      rw [BitVec.toNat_umod, htoNat]
      rfl
    rw [ne_eq, ← BitVec.toNat_inj, ← BitVec.toNat_inj, hand, hmod]
    rfl
  unfold Receiver.yearDays takenLeap
  dsimp only
  rw [hnumber, ho]
  simp only [hleap]
  refine Prod.ext ?_ rfl
  apply BitVec.eq_of_toNat_eq
  have hquarter : (BitVec.ofNat 32 o >>> 2).toNat = o / 4 := by
    rw [BitVec.toNat_ushiftRight, htoNat, Nat.shiftRight_eq_div_pow]
  have hhundredth : (BitVec.ofNat 32 o >>> 2 / 25).toNat = o / 100 := by
    rw [BitVec.toNat_udiv, hquarter, ← Nat.div_div_eq_div_mul o 4 25]
    rfl
  have h365 : (365 : BitVec 32).toNat = 365 := rfl
  have hone : (1 : BitVec 32).toNat = 1 := rfl
  rw [BitVec.toNat_add, BitVec.toNat_mul, htoNat, h365, BitVec.toNat_sub, BitVec.toNat_sub, hquarter,
    hhundredth, BitVec.toNat_ofNat]
  by_cases htaken : o % 4 = 0 ∧ o % 100 ≠ 0
  · rw [if_pos htaken, if_pos (decide_eq_true htaken), hone]
    omega
  · rw [if_neg htaken, if_neg (by rwa [decide_eq_true_eq])]
    have hzero : (0 : BitVec 32).toNat = 0 := rfl
    rw [hzero]
    omega

theorem takenLeap_eq {y : ℕ} (hfrom : 2000 < y) (hto : y ≤ 2399) : takenLeap y = isLeapYear y := by
  unfold takenLeap isLeapYear
  rw [decide_eq_decide]
  omega

/-- Behind February, a leap year is a day ahead. -/
theorem daysBeforeMonth_leap {m : ℕ} (hfrom : 3 ≤ m) (hle : m ≤ 12) :
    daysBeforeMonth true m = daysBeforeMonth false m + 1 := by
  interval_cases m <;> rfl

/-- The day that is counted from 1900 on: the first of January of 1900 has the number one. -/
theorem day_eq {date : Date} (hfrom : 2000 < date.year ∨ date.year = 2000 ∧ 3 ≤ date.month)
    (hto : date.year ≤ 2399) :
    365 * (date.year - 1900) + ((date.year - 1900) / 4 - (date.year - 1900) / 100 -
      if takenLeap date.year then 1 else 0) + daysBeforeMonth (takenLeap date.year) date.month +
        date.day = date.number 1970 + 25567 := by
  have hyears := sum_yearLength (show 1 ≤ 1970 by decide) (show 1970 ≤ date.year by omega)
  have hday := date.day_pos
  have h1970 : leapYearsBefore 1970 = 477 := by decide
  unfold Date.number
  rw [h1970] at hyears
  rcases hfrom with hfrom | ⟨h2000, hmarch⟩
  · rw [takenLeap_eq hfrom hto]
    unfold leapYearsBefore at hyears
    -- the leap day of the year itself is in the table of its months, or there is none
    by_cases hleap : isLeapYear date.year = true
    · have hrule := of_decide_eq_true hleap
      rw [if_pos hleap]
      omega
    · have hrule := of_decide_eq_false (Bool.not_eq_true _ ▸ hleap)
      rw [if_neg hleap]
      omega
  · -- 2000 is taken for a year without a leap day, which has not been counted then
    have htaken : takenLeap 2000 = false := by decide
    have hleap : isLeapYear 2000 = true := by decide
    have hbefore : leapYearsBefore 2000 = 484 := by decide
    have hmonths := daysBeforeMonth_leap hmarch date.month_le
    rw [h2000] at hyears ⊢
    rw [htaken, hleap, hmonths, if_neg (by decide)]
    omega

/-! ## The message -/

/-- The message has a valid time, with a date. -/
structure HasDate (g : Receiver) (payload : ℕ) (date : Date) : Prop where
  valid : g.msgBuff (payload + 11) &&& 3 = 3
  year : (g.msgBuff (payload + 5) ++ g.msgBuff (payload + 4)).toNat = date.year
  month : (g.msgBuff (payload + 6)).toNat = date.month
  day : (g.msgBuff (payload + 7)).toNat = date.day

/-- The seconds since 1970 of a date and a time, in UTC. -/
def utcSeconds (date : Date) (hour minute second : ℕ) : ℕ :=
  86400 * date.number 1970 + 3600 * hour + 60 * minute + second

/-- The seconds that are counted from 1900 on. -/
theorem seconds_eq (date : Date) (hour minute second : ℕ) :
    ((BitVec.ofNat 32 (date.number 1970 + 25567) * 24 + BitVec.ofNat 32 hour) * 60 +
      BitVec.ofNat 32 minute) * 60 + BitVec.ofNat 32 second - 2208988800 =
      BitVec.ofNat 32 (utcSeconds date hour minute second) := by
  have hsum : (((date.number 1970 + 25567) * 24 + hour) * 60 + minute) * 60 + second =
      utcSeconds date hour minute second + 2208988800 := by
    unfold utcSeconds
    ring
  generalize date.number 1970 + 25567 = days at hsum ⊢
  calc ((BitVec.ofNat 32 days * 24 + BitVec.ofNat 32 hour) * 60 + BitVec.ofNat 32 minute) * 60 +
        BitVec.ofNat 32 second - 2208988800
      = BitVec.ofNat 32 (((days * 24 + hour) * 60 + minute) * 60 + second) -
          BitVec.ofNat 32 2208988800 := by
        simp only [BitVec.ofNat_add, BitVec.ofNat_mul]
        rfl
    _ = BitVec.ofNat 32 (utcSeconds date hour minute second) := by
        rw [hsum, BitVec.ofNat_add, BitVec.add_sub_cancel]

variable {g : Receiver} {payload : ℕ} {date : Date}

/-- The message tells the time of its date. -/
theorem pvtSeconds_eq (env : Env) (hdate : HasDate g payload date)
    (hfrom : 2000 < date.year ∨ date.year = 2000 ∧ 3 ≤ date.month) (hto : date.year ≤ 2399) :
    g.pvtSeconds env payload - 2208988800 =
      BitVec.ofNat 32 (utcSeconds date (g.msgBuff (payload + 8)).toNat
        (g.msgBuff (payload + 9)).toNat (g.msgBuff (payload + 10)).toNat) := by
  have hyear : 1900 < (g.msgBuff (payload + 5) ++ g.msgBuff (payload + 4)).toNat := by
    rw [hdate.year]
    omega
  have hmonth : lutDays env (takenLeap date.year) (g.msgBuff (payload + 6)) =
      BitVec.ofNat 32 (daysBeforeMonth (takenLeap date.year) date.month) := by
    rw [← hdate.month]
    apply lutDays_eq
    · rw [hdate.month]
      exact date.month_pos
    · rw [hdate.month]
      exact date.month_le
  have hday : (g.msgBuff (payload + 7)).setWidth 32 = BitVec.ofNat 32 date.day := by
    rw [← hdate.day, BitVec.ofNat_toNat]
  unfold Receiver.pvtSeconds
  rw [yearDays_eq hyear, hdate.year]
  dsimp only
  rw [hmonth, hday, ← BitVec.ofNat_add, ← BitVec.ofNat_add, day_eq hfrom hto,
    ← BitVec.ofNat_toNat, ← BitVec.ofNat_toNat, ← BitVec.ofNat_toNat]
  exact seconds_eq date _ _ _

/-- **The epoch** of a valid message is the time in UTC since 1970, with the offset of TAI added,
from March 2000 to the end of 2399. -/
theorem processUbxPVT_taiEpoch (env : Env) (hdate : HasDate g payload date)
    (hfrom : 2000 < date.year ∨ date.year = 2000 ∧ 3 ≤ date.month) (hto : date.year ≤ 2399) :
    (g.processUbxPVT env payload).val.taiEpoch =
      BitVec.ofNat 32 (utcSeconds date (g.msgBuff (payload + 8)).toNat
        (g.msgBuff (payload + 9)).toNat (g.msgBuff (payload + 10)).toNat) + g.taiOffset := by
  have hepoch := g.processUbxPVT_epoch env payload
  rw [if_pos hdate.valid] at hepoch
  rw [← pvtSeconds_eq env hdate hfrom hto]
  exact congrArg Prod.fst hepoch

/-- The last second of the 29th of February of 2024, and a leap second behind it. -/
theorem processUbxPVT_taiEpoch_leapDay :
    ((Uart.init fun i => [0, 0, 0, 0, 0xE8, 0x07, 2, 29, 23, 59, 60, 3].getD i 0).gps.processUbxPVT
      ⟨0, fun _ => 0, fun _ => 0⟩ 0).val.taiEpoch = 1709251200 + 37 := by
  have hdate : HasDate (Uart.init fun i =>
      [0, 0, 0, 0, 0xE8, 0x07, 2, 29, 23, 59, 60, 3].getD i 0).gps 0
      ⟨2024, 2, 29, by decide, by decide, by decide, by decide⟩ := by
    constructor <;> decide
  have hseconds : utcSeconds ⟨2024, 2, 29, by decide, by decide, by decide, by decide⟩ 23 59 60 =
      1709251200 := by
    decide +kernel
  rw [processUbxPVT_taiEpoch _ hdate (by decide) (by decide)]
  show BitVec.ofNat 32 (utcSeconds _ 23 59 60) + 37 = _
  rw [hseconds]
  rfl

end Gpsdo.Gps
