import Gpsdo.Basic.BitMatrix
import Mathlib.Data.Fintype.BigOperators
import Mathlib.Data.Nat.Prime.Basic
import Mathlib.Tactic.NormNum.Prime

set_option autoImplicit false

/-! # The random numbers of the polls (`lib/random.cpp`)

The polls of the NTP peers are spread by the numbers of a generator that shifts its state and adds
it to itself without carries. The state is seeded with the number of the device.
-/

namespace Gpsdo.Ntp.Random

open Function

/-! ## The generator -/

/-- `random::init` -/
def init (UNIQUEID : Fin 4 → BitVec 32) : BitVec 32 :=
  (List.finRange 4).foldl (fun state i => state + UNIQUEID i) 0

/-- `random::next`: what is returned is the new state. -/
def next (state : BitVec 32) : BitVec 32 :=
  let x := state
  let x := x ^^^ (x <<< 13)
  let x := x ^^^ (x >>> 17)
  x ^^^ (x <<< 5)

/-! ## On numbers -/

def shiftLeft (k x : ℕ) : ℕ := x ^^^ ((x <<< k) % 2 ^ 32)

def shiftRight (k x : ℕ) : ℕ := x ^^^ (x >>> k)

def nextNat (x : ℕ) : ℕ := shiftLeft 5 (shiftRight 17 (shiftLeft 13 x))

theorem toNat_next (x : BitVec 32) : (next x).toNat = nextNat x.toNat := by
  simp only [next, nextNat, shiftLeft, shiftRight, BitVec.toNat_xor, BitVec.toNat_shiftLeft,
    BitVec.toNat_ushiftRight]

theorem linear_shiftLeft (k : ℕ) : BitMatrix.Linear (shiftLeft k) := by
  intro x y
  unfold shiftLeft
  rw [Nat.shiftLeft_xor_distrib, Nat.xor_mod_two_pow]
  ac_rfl

theorem linear_shiftRight (k : ℕ) : BitMatrix.Linear (shiftRight k) := by
  intro x y
  unfold shiftRight
  rw [Nat.shiftRight_xor_distrib]
  ac_rfl

theorem linear_nextNat : BitMatrix.Linear nextNat := by
  intro x y
  unfold nextNat
  rw [linear_shiftLeft 13, linear_shiftRight 17, linear_shiftLeft 5]

/-- The generator as a matrix. -/
def matrix : BitMatrix := BitMatrix.columns nextNat 32

theorem apply_matrix (x : BitVec 32) : matrix.apply x.toNat = (next x).toNat := by
  rw [toNat_next]
  exact BitMatrix.apply_columns linear_nextNat x.isLt

theorem iterate_matrix (n : ℕ) (x : BitVec 32) :
    matrix.apply^[n] x.toNat = (next^[n] x).toNat := by
  induction n generalizing x with
  | zero => rfl
  | succ n ih => rw [iterate_succ_apply, iterate_succ_apply, apply_matrix, ih]

/-! ## The period -/

/-- The bits of a number of steps. -/
def bits : ℕ → ℕ → List Bool
  | 0, _ => []
  | w + 1, n => (n % 2 == 1) :: bits w (n / 2)

/-- All states but one. -/
def period : ℕ := 2 ^ 32 - 1

theorem steps_bits {w n : ℕ} (hn : n < 2 ^ w) : BitMatrix.steps (bits w n) = n := by
  induction w generalizing n with
  | zero => exact (Nat.lt_one_iff.mp hn).symm
  | succ w ih =>
      rw [bits, BitMatrix.steps, ih (by omega)]
      rcases Nat.mod_two_eq_zero_or_one n with h | h
      · rw [h]
        show 0 + _ = n
        omega
      · rw [h]
        show 1 + _ = n
        omega

/-- Whether a number of steps is a period is computed with the squares of the matrix. -/
theorem isPeriodicPt_iff {n : ℕ} (hn : n < 2 ^ 32) :
    IsPeriodicPt next n 1 ↔ matrix.iterate (bits 32 n) 1 = 1 := by
  have h := iterate_matrix n 1
  rw [BitMatrix.iterate_eq, steps_bits hn]
  show next^[n] 1 = 1 ↔ _
  rw [← BitVec.toNat_inj, ← h]
  rfl

theorem prime_dvd_period {p : ℕ} (hp : p.Prime) (h : p ∣ period) :
    p = 3 ∨ p = 5 ∨ p = 17 ∨ p = 257 ∨ p = 65537 := by
  have hperiod : period = 3 * (5 * (17 * (257 * 65537))) := by decide
  rw [hperiod, hp.dvd_mul, hp.dvd_mul, hp.dvd_mul, hp.dvd_mul] at h
  rw [Nat.prime_dvd_prime_iff_eq hp (by norm_num), Nat.prime_dvd_prime_iff_eq hp (by norm_num),
    Nat.prime_dvd_prime_iff_eq hp (by norm_num), Nat.prime_dvd_prime_iff_eq hp (by norm_num),
    Nat.prime_dvd_prime_iff_eq hp (by norm_num)] at h
  exact h

/-- **The period is full**: no prime can be taken out of it. -/
theorem minimalPeriod_one : minimalPeriod next 1 = period := by
  refine minimalPeriod_eq_of_forall_prime ((isPeriodicPt_iff (by decide)).mpr ?_) ?_
  · decide +kernel
  · intro p hp hdvd
    rcases prime_dvd_period hp hdvd with rfl | rfl | rfl | rfl | rfl <;>
      rw [isPeriodicPt_iff (by decide)] <;> decide +kernel

theorem next_zero : next 0 = 0 := rfl

theorem iterate_next_zero (n : ℕ) : next^[n] 0 = 0 := iterate_fixed next_zero n

/-- The orbit of one does not come to zero, as it comes back. -/
theorem iterate_next_one_ne (k : ℕ) : next^[k] 1 ≠ 0 := by
  intro hk
  have hperiodic : IsPeriodicPt next (period * (k + 1)) 1 :=
    (minimalPeriod_one ▸ isPeriodicPt_minimalPeriod next 1).mul_const (k + 1)
  have hle : k ≤ period * (k + 1) :=
    (Nat.le_succ k).trans (Nat.le_mul_of_pos_left _ (by decide))
  have hone : next^[period * (k + 1)] 1 = 0 := by
    rw [← Nat.sub_add_cancel hle, iterate_add_apply, hk, iterate_next_zero]
  rw [hperiodic.eq] at hone
  exact absurd hone (by decide)

theorem period_eq_card : (Finset.Ico 1 (2 ^ 32)).card = period := by rw [Nat.card_Ico]; rfl

theorem toNat_mem_Ico {x : BitVec 32} : x.toNat ∈ Finset.Ico 1 (2 ^ 32) ↔ x ≠ 0 := by
  rw [Finset.mem_Ico, and_iff_left x.isLt, Nat.one_le_iff_ne_zero, Ne, Ne, ← BitVec.toNat_inj]
  rfl

/-- Every state but zero is in the orbit of one. -/
theorem exists_iterate_one {x : BitVec 32} (hx : x ≠ 0) : ∃ k, next^[k] 1 = x := by
  obtain ⟨k, ⟨-, hk⟩, -⟩ := existsUnique_iterate (fun _ _ => BitVec.eq_of_toNat_eq)
    (fun k => toNat_mem_Ico.mpr (iterate_next_one_ne k))
    (period_eq_card.trans minimalPeriod_one.symm) (toNat_mem_Ico.mpr hx)
  exact ⟨k, hk⟩

theorem iterate_next_ne {x : BitVec 32} (hx : x ≠ 0) (n : ℕ) : next^[n] x ≠ 0 := by
  obtain ⟨k, rfl⟩ := exists_iterate_one hx
  rw [← iterate_add_apply]
  exact iterate_next_one_ne (n + k)

theorem minimalPeriod_next {x : BitVec 32} (hx : x ≠ 0) : minimalPeriod next x = period := by
  obtain ⟨k, rfl⟩ := exists_iterate_one hx
  rw [minimalPeriod_apply_iterate, minimalPeriod_one]
  refine minimalPeriod_pos_iff_mem_periodicPts.mp ?_
  rw [minimalPeriod_one]
  decide

/-- **The numbers.** With a device number that adds up to zero, every number is zero. With any other
one no number is, and each run of `2 ^ 32 - 1` calls, from any call on, returns every other number
exactly once. -/
theorem next_from_init (UNIQUEID : Fin 4 → BitVec 32) :
    if init UNIQUEID = 0 then ∀ n, next^[n + 1] (init UNIQUEID) = 0
    else ∀ n, next^[n + 1] (init UNIQUEID) ≠ 0 ∧
      ∀ y, y ≠ 0 → ∃! k, k < period ∧ next^[n + k + 1] (init UNIQUEID) = y := by
  split
  · rename_i h0
    rw [h0]
    exact fun n => iterate_next_zero (n + 1)
  · rename_i h0
    intro n
    have hstart := iterate_next_ne h0 (n + 1)
    refine ⟨hstart, fun y hy => ?_⟩
    have hunique := existsUnique_iterate (x := next^[n + 1] (init UNIQUEID))
      (fun _ _ => BitVec.eq_of_toNat_eq) (fun k => toNat_mem_Ico.mpr (iterate_next_ne hstart k))
      (period_eq_card.trans (minimalPeriod_next hstart).symm) (toNat_mem_Ico.mpr hy)
    rw [minimalPeriod_next hstart] at hunique
    have hshift : ∀ k, next^[n + k + 1] (init UNIQUEID) =
        next^[k] (next^[n + 1] (init UNIQUEID)) := by
      intro k
      rw [← iterate_add_apply]
      congr 1
      omega
    simp only [hshift]
    exact hunique

end Gpsdo.Ntp.Random
