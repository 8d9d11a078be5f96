import Mathlib.Tactic

set_option autoImplicit false

/-! # Sums of one's complement

Words of one's complement are the numbers from `0` to `M`, where `M` is a second representation of
zero. `Ones.add` brings the carry around; `Ones.norm M n` is the word that a sum of value `n` ends
in, whatever the order of its additions. The checksum of the internet is such a sum over the words
of two bytes of a message, an odd last byte being padded. The order of the bytes in a word does not
matter for what sums to `M`, as `256` has an inverse modulo `65535`.
-/

namespace Gpsdo

namespace Ones

/-! ## Words -/

/-- Addition of words, with the carry brought around. -/
def add (M a b : ℕ) : ℕ := if a + b ≤ M then a + b else a + b - M

/-- The word of a sum: zero is the word of the empty sum only. -/
def norm (M n : ℕ) : ℕ := if n = 0 then 0 else (n - 1) % M + 1

variable {M a b n : ℕ}

@[simp] theorem norm_zero : norm M 0 = 0 := rfl

theorem norm_eq_zero : norm M n = 0 ↔ n = 0 := by
  unfold norm
  split <;> simp_all

theorem norm_le (hM : 0 < M) (n : ℕ) : norm M n ≤ M := by
  unfold norm
  split
  · exact Nat.zero_le M
  · exact Nat.mod_lt _ hM

theorem norm_modEq (M n : ℕ) : norm M n ≡ n [MOD M] := by
  unfold norm
  split
  · next h => rw [h]
  · next h =>
      have hmod := (Nat.mod_modEq (n - 1) M).add_right 1
      rwa [Nat.sub_add_cancel (Nat.pos_of_ne_zero h)] at hmod

/-- **The word of a sum** is fixed by the value modulo `M`, and by whether there is a sum at all. -/
theorem norm_eq_norm (hzero : a = 0 ↔ b = 0) (hmod : a ≡ b [MOD M]) : norm M a = norm M b := by
  rcases Nat.eq_zero_or_pos a with ha | ha
  · rw [ha, hzero.mp ha]
  have hb : b ≠ 0 := fun hb => ha.ne' (hzero.mpr hb)
  unfold norm
  rw [if_neg ha.ne', if_neg hb]
  congr 1
  apply Nat.ModEq.add_right_cancel' 1
  rwa [Nat.sub_add_cancel ha, Nat.sub_add_cancel (Nat.pos_of_ne_zero hb)]

theorem norm_of_le (h : n ≤ M) : norm M n = n := by
  unfold norm
  split
  · next hn => exact hn.symm
  · rw [Nat.mod_eq_of_lt (by omega)]
    omega

/-- A part of a sum may be added up first. -/
theorem norm_norm_add (M a b : ℕ) : norm M (norm M a + b) = norm M (a + b) := by
  refine norm_eq_norm ?_ ((norm_modEq M a).add_right b)
  rw [Nat.add_eq_zero_iff, Nat.add_eq_zero_iff, norm_eq_zero]

theorem norm_add_norm (M a b : ℕ) : norm M (a + norm M b) = norm M (a + b) := by
  rw [Nat.add_comm, norm_norm_add, Nat.add_comm]

theorem add_eq_norm (ha : a ≤ M) (hb : b ≤ M) : add M a b = norm M (a + b) := by
  unfold add
  split
  · next h => exact (norm_of_le h).symm
  · next h =>
      calc a + b - M = norm M (a + b - M) := (norm_of_le (by omega)).symm
        _ = norm M (a + b) := by
            refine norm_eq_norm (by omega) ?_
            have hround : a + b - M + M ≡ a + b - M [MOD M] := Nat.add_modEq_right
            rw [Nat.sub_add_cancel (by omega)] at hround
            exact hround.symm

/-- One turn of the loop that folds the carries of a wide sum. -/
theorem norm_carry (M n : ℕ) : norm M (n % (M + 1) + n / (M + 1)) = norm M n := by
  have hsplit := Nat.mod_add_div n (M + 1)
  refine norm_eq_norm ?_ ?_
  · constructor
    · intro h
      obtain ⟨hmod, hdiv⟩ := Nat.add_eq_zero_iff.mp h
      rw [← hsplit, hmod, hdiv, Nat.mul_zero]
    · intro h
      rw [h, Nat.zero_mod, Nat.zero_div]
  · calc n % (M + 1) + n / (M + 1)
        ≡ n % (M + 1) + n / (M + 1) + M * (n / (M + 1)) [MOD M] :=
          (Nat.add_mul_mod_self_left _ _ _).symm
      _ = n := by
          rw [Nat.add_assoc, Nat.add_comm (n / (M + 1)), ← Nat.succ_mul]
          exact hsplit

/-! ## Sums that are full -/

theorem norm_eq_full (hM : 0 < M) : norm M n = M ↔ 0 < n ∧ M ∣ n := by
  constructor
  · intro h
    refine ⟨Nat.pos_of_ne_zero fun hn => ?_, ?_⟩
    · rw [hn, norm_zero] at h
      exact hM.ne h
    · have hmod := norm_modEq M n
      rw [h] at hmod
      exact (Nat.modEq_zero_iff_dvd.mp (hmod.symm.trans (Nat.modEq_zero_iff_dvd.mpr dvd_rfl)))
  · rintro ⟨hpos, hdvd⟩
    have hmod : n ≡ M [MOD M] :=
      (Nat.modEq_zero_iff_dvd.mpr hdvd).trans (Nat.modEq_zero_iff_dvd.mpr dvd_rfl).symm
    calc norm M n = norm M M := norm_eq_norm (by omega) hmod
      _ = M := norm_of_le (le_refl M)

/-- **A sum with its complement is full.** -/
theorem norm_add_compl (hM : 0 < M) (n : ℕ) : norm M (n + (M - norm M n)) = M := by
  rw [← norm_norm_add, Nat.add_sub_cancel' (norm_le hM n)]
  exact norm_of_le (le_refl M)

end Ones

/-! ## Words of bytes -/

/-- The sum of the words of a message, the low byte first. -/
def leSum : List (BitVec 8) → ℕ
  | [] => 0
  | [a] => a.toNat
  | a :: b :: l => a.toNat + 256 * b.toNat + leSum l

/-- The sum of one's complement that is defined for a message on the wire, the high byte of a word
first. -/
def onesSum : List (BitVec 8) → ℕ
  | [] => 0
  | [a] => 256 * a.toNat
  | a :: b :: l => Ones.add 65535 (256 * a.toNat + b.toNat) (onesSum l)

variable {l l' : List (BitVec 8)}

theorem leSum_append (heven : l.length % 2 = 0) : leSum (l ++ l') = leSum l + leSum l' := by
  induction l using leSum.induct with
  | case1 => exact (Nat.zero_add _).symm
  | case2 a => simp at heven
  | case3 a b l ih =>
      rw [List.length_cons, List.length_cons] at heven
      show a.toNat + 256 * b.toNat + leSum (l ++ l') = a.toNat + 256 * b.toNat + leSum l + leSum l'
      rw [ih (by omega), ← Nat.add_assoc]

/-- **The order of the bytes** in a word multiplies the sum by `256`. -/
theorem onesSum_eq_norm (l : List (BitVec 8)) : onesSum l = Ones.norm 65535 (256 * leSum l) := by
  induction l using leSum.induct with
  | case1 => rfl
  | case2 a =>
      have ha := a.isLt
      show 256 * a.toNat = Ones.norm 65535 (256 * a.toNat)
      exact (Ones.norm_of_le (by omega)).symm
  | case3 a b l ih =>
      have ha := a.isLt
      have hb := b.isLt
      rw [onesSum, ih, Ones.add_eq_norm (by omega) (Ones.norm_le (by decide) _), Ones.norm_add_norm,
        leSum]
      refine Ones.norm_eq_norm (by omega) ?_
      rw [Nat.ModEq]
      omega

/-- The word with its bytes the other way round. -/
def swap16 (n : ℕ) : ℕ := 256 * (n % 256) + n / 256

theorem swap16_le {n : ℕ} (h : n ≤ 65535) : swap16 n ≤ 65535 := by
  unfold swap16
  omega

theorem onesSum_eq_swap16 (l : List (BitVec 8)) :
    onesSum l = swap16 (Ones.norm 65535 (leSum l)) := by
  have hle := Ones.norm_le (M := 65535) (by decide) (leSum l)
  have hzero := Ones.norm_eq_zero (M := 65535) (n := leSum l)
  have hmod := Ones.norm_modEq 65535 (leSum l)
  rw [onesSum_eq_norm, ← Ones.norm_of_le (swap16_le hle)]
  refine Ones.norm_eq_norm ?_ ?_
  · unfold swap16
    omega
  · unfold swap16
    rw [Nat.ModEq] at hmod ⊢
    omega

/-- **A full sum** is full in either order of the bytes. -/
theorem onesSum_eq_full : onesSum l = 0xFFFF ↔ 0 < leSum l ∧ 65535 ∣ leSum l := by
  rw [onesSum_eq_norm, Ones.norm_eq_full (by decide)]
  have hcoprime : Nat.Coprime 65535 256 := by decide
  rw [hcoprime.dvd_mul_left]
  omega

end Gpsdo
