import Mathlib.Data.List.FinRange

set_option autoImplicit false

/-! # Tables of slots

A table of a fixed number of slots is searched from its first slot on.
-/

namespace Gpsdo

variable {n : ℕ} {p : Fin n → Bool} {i : Fin n}

/-- The search stops at the first slot that passes the test. -/
theorem find?_finRange_eq_some_iff :
    (List.finRange n).find? p = some i ↔ p i = true ∧ ∀ j < i, p j = false := by
  rw [List.find?_eq_some_iff_getElem]
  simp only [List.length_finRange, List.getElem_finRange, Bool.not_eq_true']
  refine and_congr_right fun _ => ⟨?_, fun h => ⟨i, i.isLt, rfl, fun j hj => h _ hj⟩⟩
  rintro ⟨k, hk, rfl, h⟩ j hj
  exact h j hj

end Gpsdo
