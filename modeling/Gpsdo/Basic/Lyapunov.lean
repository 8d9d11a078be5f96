import Gpsdo.Basic.Run
import Mathlib.Algebra.Module.Basic
import Mathlib.Algebra.Order.Field.Basic
import Mathlib.Algebra.Order.Ring.Abs
import Mathlib.Tactic.FieldSimp
import Mathlib.Tactic.Linarith
import Mathlib.Tactic.Positivity
import Mathlib.Tactic.Ring

set_option autoImplicit false

/-! # Quadratic energies

A positive definite form in two variables measures how far a system is from rest. It is convex, so
that a bound at the ends of a range of parameters holds in the range. If each step takes a part of
the energy away and a disturbance adds a bounded amount, the energy goes down to that of the
disturbances.
-/

namespace Gpsdo

variable {K : Type*} [Field K] [LinearOrder K] [IsStrictOrderedRing K]

/-! ## Forms -/

/-- The positive definite form `a x² + 2 b x y + c y²`. -/
structure PosForm (K : Type*) [Field K] [LinearOrder K] [IsStrictOrderedRing K] where
  a : K
  b : K
  c : K
  a_pos : 0 < a
  det_pos : 0 < a * c - b * b

namespace PosForm

variable (V : PosForm K)

def eval (z : K × K) : K := V.a * z.1 ^ 2 + 2 * V.b * (z.1 * z.2) + V.c * z.2 ^ 2

theorem a_mul_eval (z : K × K) :
    V.a * V.eval z = (V.a * z.1 + V.b * z.2) ^ 2 + (V.a * V.c - V.b * V.b) * z.2 ^ 2 := by
  unfold eval
  ring

theorem c_mul_eval (z : K × K) :
    V.c * V.eval z = (V.b * z.1 + V.c * z.2) ^ 2 + (V.a * V.c - V.b * V.b) * z.1 ^ 2 := by
  unfold eval
  ring

theorem eval_nonneg (z : K × K) : 0 ≤ V.eval z := by
  have hsum := V.a_mul_eval z
  have hdet := mul_nonneg V.det_pos.le (sq_nonneg z.2)
  refine nonneg_of_mul_nonneg_right (a := V.a) ?_ V.a_pos
  rw [hsum]
  exact add_nonneg (sq_nonneg _) hdet

/-- The energy bounds the two variables. -/
theorem sq_fst_le (z : K × K) : (V.a * V.c - V.b * V.b) * z.1 ^ 2 ≤ V.c * V.eval z := by
  rw [c_mul_eval]
  exact le_add_of_nonneg_left (sq_nonneg _)

theorem sq_snd_le (z : K × K) : (V.a * V.c - V.b * V.b) * z.2 ^ 2 ≤ V.a * V.eval z := by
  rw [a_mul_eval]
  exact le_add_of_nonneg_left (sq_nonneg _)

/-- What a disturbance adds, at any price `d`. -/
theorem eval_add_le {d : K} (hd : 0 < d) (u v : K × K) :
    V.eval (u + v) ≤ (1 + d) * V.eval u + (1 + 1 / d) * V.eval v := by
  have hsq : d * V.eval (u - (1 / d) • v) =
      (1 + d) * V.eval u + (1 + 1 / d) * V.eval v - V.eval (u + v) := by
    simp only [eval, Prod.fst_add, Prod.snd_add, Prod.fst_sub, Prod.snd_sub, Prod.smul_fst,
      Prod.smul_snd, smul_eq_mul]
    field_simp
    ring
  have hnonneg := mul_nonneg hd.le (V.eval_nonneg (u - (1 / d) • v))
  linarith

/-- **Convexity**: between two points the energy is no more than at the ends. -/
theorem eval_segment_le {u v : K × K} {t m : K} (ht0 : 0 ≤ t) (ht1 : t ≤ 1) (hu : V.eval u ≤ m)
    (hv : V.eval v ≤ m) : V.eval ((1 - t) • u + t • v) ≤ m := by
  have hchord : V.eval ((1 - t) • u + t • v) =
      (1 - t) * V.eval u + t * V.eval v - t * (1 - t) * V.eval (u - v) := by
    simp only [eval, Prod.fst_add, Prod.snd_add, Prod.fst_sub, Prod.snd_sub, Prod.smul_fst,
      Prod.smul_snd, smul_eq_mul]
    ring
  have hsag := mul_nonneg (mul_nonneg ht0 (sub_nonneg.mpr ht1)) (V.eval_nonneg (u - v))
  have hu' := mul_le_mul_of_nonneg_left hu (sub_nonneg.mpr ht1)
  have hv' := mul_le_mul_of_nonneg_left hv ht0
  linarith

end PosForm

/-- A quadratic without a negative value. -/
theorem quadratic_nonneg {p s t : K} (hp : 0 < p) (hdisc : s * s ≤ 4 * p * t) (x y : K) :
    0 ≤ p * x ^ 2 + s * (x * y) + t * y ^ 2 := by
  have hsum : 4 * p * (p * x ^ 2 + s * (x * y) + t * y ^ 2) =
      (2 * p * x + s * y) ^ 2 + (4 * p * t - s * s) * y ^ 2 := by ring
  have hrest := mul_nonneg (sub_nonneg.mpr hdisc) (sq_nonneg y)
  refine nonneg_of_mul_nonneg_right (a := 4 * p) ?_ (by positivity)
  rw [hsum]
  exact add_nonneg (sq_nonneg _) hrest

/-! ## Runs -/

/-- **Descent.** A machine each of whose steps keeps the part `q` of the energy, and adds the part
`1 - q` of `w` at most, goes down to `w`. -/
theorem Run.energy_le {σ α : Type*} {step : σ → α → Option σ} {s₀ s : σ} {h : List (σ × α)}
    {e : σ → K} {q w : K} (hq : 0 ≤ q) (hw : 0 ≤ w) (hrun : Run step s₀ h s)
    (hstep : ∀ p ∈ h, ∀ s', step p.1 p.2 = some s' → e s' ≤ q * e p.1 + (1 - q) * w) :
    e s ≤ q ^ h.length * e s₀ + w := by
  induction hrun with
  | start => simpa using hw
  | @next h s a s' _ hs ih =>
      have ih := ih fun p hp => hstep p (List.mem_cons_of_mem _ hp)
      calc e s' ≤ q * e s + (1 - q) * w := hstep (s, a) List.mem_cons_self s' hs
        _ ≤ q * (q ^ h.length * e s₀ + w) + (1 - q) * w := by gcongr
        _ = q ^ (h.length + 1) * e s₀ + w := by ring

end Gpsdo
