import Mathlib.Data.Nat.Bitwise
import Mathlib.Dynamics.PeriodicPts.Lemmas
import Mathlib.Tactic.Ring

set_option autoImplicit false

/-! # Matrices of bits, and long periods

A map of words that respects exclusive or is given by the images of the bits, its columns. Matrices
are multiplied, so that a long iteration is computed by squaring; and a period is the least one if
no prime can be taken out of it.
-/

namespace Gpsdo

/-! ## Matrices -/

/-- The columns, that of the lowest bit first. -/
abbrev BitMatrix := List ℕ

namespace BitMatrix

/-- The columns of the bits that are set, put together. -/
def apply : BitMatrix → ℕ → ℕ
  | [], _ => 0
  | c :: m, x => (if x % 2 = 1 then c else 0) ^^^ apply m (x / 2)

def mul (m n : BitMatrix) : BitMatrix := n.map m.apply

/-- The columns of a map on words of `w` bits. -/
def columns (f : ℕ → ℕ) : ℕ → BitMatrix
  | 0 => []
  | w + 1 => f 1 :: columns (fun x => f (2 * x)) w

@[simp] theorem apply_zero (m : BitMatrix) : m.apply 0 = 0 := by
  induction m with
  | nil => rfl
  | cons c m ih => simp [apply, ih]

theorem apply_xor (m : BitMatrix) (x y : ℕ) : m.apply (x ^^^ y) = m.apply x ^^^ m.apply y := by
  induction m generalizing x y with
  | nil => exact (Nat.xor_self 0).symm
  | cons c m ih =>
      have hdiv : (x ^^^ y) / 2 = x / 2 ^^^ y / 2 := Nat.xor_div_two
      have hmod : (x ^^^ y) % 2 = x % 2 ^^^ y % 2 := Nat.xor_mod_two_pow (n := 1)
      rw [apply, apply, apply, hdiv, hmod, ih]
      rcases Nat.mod_two_eq_zero_or_one x with hx | hx <;>
        rcases Nat.mod_two_eq_zero_or_one y with hy | hy <;>
          simp [hx, hy, Nat.xor_assoc, Nat.xor_left_comm]

theorem apply_mul (m n : BitMatrix) (x : ℕ) : (m.mul n).apply x = m.apply (n.apply x) := by
  induction n generalizing x with
  | nil => exact (apply_zero m).symm
  | cons c n ih =>
      show (if x % 2 = 1 then m.apply c else 0) ^^^ (m.mul n).apply (x / 2) = _
      rw [ih, apply, apply_xor]
      split <;> simp

/-- A map that respects exclusive or. -/
def Linear (f : ℕ → ℕ) : Prop := ∀ x y, f (x ^^^ y) = f x ^^^ f y

theorem Linear.map_zero {f : ℕ → ℕ} (hf : Linear f) : f 0 = 0 := by
  have h := hf 0 0
  rw [Nat.xor_self, Nat.xor_self] at h
  exact h

theorem double_xor (x y : ℕ) : 2 * (x ^^^ y) = 2 * x ^^^ 2 * y := by
  have h := Nat.shiftLeft_xor_distrib (a := x) (b := y) (i := 1)
  simpa [Nat.shiftLeft_eq, mul_comm] using h

/-- A word is its lowest bit and the other ones. -/
theorem mod_two_xor (x : ℕ) : x % 2 ^^^ 2 * (x / 2) = x := by
  refine Nat.eq_of_testBit_eq fun i => ?_
  rw [Nat.testBit_xor]
  cases i with
  | zero => simp [Nat.testBit_zero]
  | succ i => simp [Nat.testBit_succ, Nat.div_eq_of_lt (Nat.mod_lt x two_pos)]

/-- The columns of a linear map give the map. -/
theorem apply_columns {f : ℕ → ℕ} (hf : Linear f) {w x : ℕ} (hx : x < 2 ^ w) :
    (columns f w).apply x = f x := by
  induction w generalizing f x with
  | zero =>
      obtain rfl : x = 0 := Nat.lt_one_iff.mp hx
      exact hf.map_zero.symm
  | succ w ih =>
      have hrest : Linear fun x => f (2 * x) := fun x y => by
        show f (2 * (x ^^^ y)) = _
        rw [double_xor, hf]
      have hhigh := ih hrest (x := x / 2) (by omega)
      calc (columns f (w + 1)).apply x
          = (if x % 2 = 1 then f 1 else 0) ^^^ f (2 * (x / 2)) := by rw [columns, apply, hhigh]
        _ = f (x % 2) ^^^ f (2 * (x / 2)) := by
            rcases Nat.mod_two_eq_zero_or_one x with h | h
            · simp [h, hf.map_zero]
            · simp [h]
        _ = f x := by rw [← hf, mod_two_xor]

/-! ## Iteration by squaring -/

/-- The bits of a number of steps, the lowest first, are worked off with the squares of a matrix. -/
def iterate (m : BitMatrix) : List Bool → ℕ → ℕ
  | [], x => x
  | b :: bits, x => iterate (m.mul m) bits (if b then m.apply x else x)

/-- The number with some bits, the lowest first. -/
def steps : List Bool → ℕ
  | [] => 0
  | b :: bits => b.toNat + 2 * steps bits

theorem iterate_eq (m : BitMatrix) (bits : List Bool) (x : ℕ) :
    m.iterate bits x = m.apply^[steps bits] x := by
  induction bits generalizing m x with
  | nil => rfl
  | cons b bits ih =>
      have hsquare : (m.mul m).apply = m.apply^[2] := funext (apply_mul m m)
      rw [iterate, ih, hsquare, ← Function.iterate_mul, steps, add_comm, Function.iterate_add_apply]
      cases b with
      | false => rfl
      | true => rfl

end BitMatrix

/-! ## Periods -/

section

variable {α : Type*} {f : α → α} {x : α} {n : ℕ}

open Function

/-- A period that no prime can be taken out of is the least one. -/
theorem minimalPeriod_eq_of_forall_prime (hx : IsPeriodicPt f n x)
    (hprime : ∀ p, p.Prime → p ∣ n → ¬IsPeriodicPt f (n / p) x) : minimalPeriod f x = n := by
  obtain ⟨k, hk⟩ := hx.minimalPeriod_dvd
  by_contra hne
  have hk1 : k ≠ 1 := fun h => hne (by rw [hk, h, mul_one])
  obtain ⟨p, hp, hpk⟩ := Nat.exists_prime_and_dvd hk1
  obtain ⟨j, rfl⟩ := hpk
  refine hprime p hp ⟨minimalPeriod f x * j, by rw [hk]; ring⟩ ?_
  refine isPeriodicPt_iff_minimalPeriod_dvd.mpr ⟨j, ?_⟩
  refine Nat.div_eq_of_eq_mul_right hp.pos ?_
  rw [hk]
  ring

/-- An orbit that is as long as the set it stays in comes to all of the set, to each element once in
a period. -/
theorem existsUnique_iterate {β : Type*} [DecidableEq β] {g : α → β} (hg : Injective g)
    {S : Finset β} (hS : ∀ k, g (f^[k] x) ∈ S) (hcard : S.card = minimalPeriod f x) {y : α}
    (hy : g y ∈ S) : ∃! k, k < minimalPeriod f x ∧ f^[k] x = y := by
  have hinj := iterate_injOn_Iio_minimalPeriod (f := f) (x := x)
  have horbit : (Finset.range (minimalPeriod f x)).image (fun k => g (f^[k] x)) = S := by
    refine Finset.eq_of_subset_of_card_le (fun y hy => ?_) ?_
    · obtain ⟨k, -, rfl⟩ := Finset.mem_image.mp hy
      exact hS k
    · rw [Finset.card_image_of_injOn, Finset.card_range, hcard]
      rw [Finset.coe_range]
      exact fun k hk j hj h => hinj hk hj (hg h)
  rw [← horbit] at hy
  obtain ⟨k, hk, hky⟩ := Finset.mem_image.mp hy
  refine ⟨k, ⟨Finset.mem_range.mp hk, hg hky⟩, fun j hj => ?_⟩
  exact hinj hj.1 (Finset.mem_range.mp hk) (hj.2.trans (hg hky).symm)

end

end Gpsdo
