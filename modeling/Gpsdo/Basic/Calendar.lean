import Mathlib.Algebra.BigOperators.Intervals

set_option autoImplicit false

/-! # The Gregorian calendar

Dates of the proleptic Gregorian calendar, and their number: the days that have passed since the
first of January of some year. The number is a sum over the years and the months in between; in
closed form, a year brings 365 days, and one more for each leap year in front of it.
-/

namespace Gpsdo

/-- A leap year. -/
def isLeapYear (y : ℕ) : Bool := y % 4 = 0 ∧ (y % 100 ≠ 0 ∨ y % 400 = 0)

/-- The days of a year. -/
def yearLength (y : ℕ) : ℕ := if isLeapYear y then 366 else 365

/-- The days of a month, in a leap year or not. -/
def monthLength (leap : Bool) (m : ℕ) : ℕ :=
  match m with
  | 2 => if leap then 29 else 28
  | 4 | 6 | 9 | 11 => 30
  | _ => 31

/-- A date. -/
structure Date where
  year : ℕ
  month : ℕ
  day : ℕ
  month_pos : 1 ≤ month
  month_le : month ≤ 12
  day_pos : 1 ≤ day
  day_le : day ≤ monthLength (isLeapYear year) month

/-- The days of the months in front of `m`. -/
def daysBeforeMonth (leap : Bool) (m : ℕ) : ℕ := ∑ k ∈ Finset.Ico 1 m, monthLength leap k

/-- The days from the first of January of the year `epoch` to a date. -/
def Date.number (date : Date) (epoch : ℕ) : ℕ :=
  ∑ y ∈ Finset.Ico epoch date.year, yearLength y +
    daysBeforeMonth (isLeapYear date.year) date.month + (date.day - 1)

/-- The leap years in front of a year. -/
def leapYearsBefore (y : ℕ) : ℕ := (y - 1) / 4 - (y - 1) / 100 + (y - 1) / 400

/-- A period that `n` years make up begins anew in the years that `n` divides. -/
theorem succ_div_eq (n z : ℕ) : (z + 1) / n = z / n + if (z + 1) % n = 0 then 1 else 0 := by
  rw [Nat.succ_div]
  simp only [Nat.dvd_iff_mod_eq_zero]

theorem leapYearsBefore_succ {y : ℕ} (hy : 1 ≤ y) :
    365 + leapYearsBefore (y + 1) = yearLength y + leapYearsBefore y := by
  obtain ⟨z, rfl⟩ : ∃ z, y = z + 1 := ⟨y - 1, (Nat.sub_add_cancel hy).symm⟩
  have hcenturies : z / 100 ≤ z / 4 := Nat.div_le_div_left (by decide) (by decide)
  have hcentury : (z + 1) % 100 = 0 → (z + 1) % 4 = 0 := by omega
  have hquarter : (z + 1) % 400 = 0 → (z + 1) % 100 = 0 := by omega
  unfold leapYearsBefore yearLength isLeapYear
  simp only [Nat.add_sub_cancel, succ_div_eq, decide_eq_true_eq]
  generalize z / 100 = centuries, z / 4 = quarters, z / 400 = periods at *
  -- the three rules for a leap year, the later ones within the earlier ones
  by_cases h4 : (z + 1) % 4 = 0
  · by_cases h100 : (z + 1) % 100 = 0
    · by_cases h400 : (z + 1) % 400 = 0
      · rw [if_pos h4, if_pos h100, if_pos h400, if_pos ⟨h4, Or.inr h400⟩]
        omega
      · rw [if_pos h4, if_pos h100, if_neg h400, if_neg fun h => h.2.elim (absurd h100) h400]
        omega
    · rw [if_pos h4, if_neg h100, if_neg (mt hquarter h100), if_pos ⟨h4, Or.inl h100⟩]
      omega
  · have h100 := mt hcentury h4
    rw [if_neg h4, if_neg h100, if_neg (mt hquarter h100), if_neg fun h => h4 h.1]
    omega

/-- **The days of the years** from `epoch` on. -/
theorem sum_yearLength {epoch y : ℕ} (hepoch : 1 ≤ epoch) (hy : epoch ≤ y) :
    ∑ z ∈ Finset.Ico epoch y, yearLength z + leapYearsBefore epoch =
      365 * (y - epoch) + leapYearsBefore y := by
  induction y, hy using Nat.le_induction with
  | base => rw [Finset.Ico_self, Finset.sum_empty, Nat.sub_self, Nat.mul_zero]
  | succ y hy ih =>
      have hsucc := leapYearsBefore_succ (hepoch.trans hy)
      rw [Finset.sum_Ico_succ_top hy]
      omega

end Gpsdo
