import Mathlib.Data.List.Basic

set_option autoImplicit false

/-! # Machines with an output for every input

A machine answers an input and goes on to a state. Two machines whose states are related by a
simulation cannot be told apart by their outputs.
-/

namespace Gpsdo

variable {σ τ ι o : Type*} {exec : σ → ι → σ × o} {exec' : τ → ι → τ × o} {R : σ → τ → Prop}

/-- The outputs for a list of inputs. -/
def answers (exec : σ → ι → σ × o) : σ → List ι → List o
  | _, [] => []
  | s, i :: is => (exec s i).2 :: answers exec (exec s i).1 is

/-- The related states give the same output, and go on to related states. -/
def Simulates (exec : σ → ι → σ × o) (exec' : τ → ι → τ × o) (R : σ → τ → Prop) : Prop :=
  ∀ s t i, R s t → R (exec s i).1 (exec' t i).1 ∧ (exec s i).2 = (exec' t i).2

/-- **Refinement.** -/
theorem Simulates.answers_eq (h : Simulates exec exec' R) {s : σ} {t : τ} (hst : R s t)
    (is : List ι) : answers exec s is = answers exec' t is := by
  induction is generalizing s t with
  | nil => rfl
  | cons i is ih =>
      obtain ⟨hnext, hout⟩ := h s t i hst
      rw [answers, answers, hout, ih hnext]

end Gpsdo
