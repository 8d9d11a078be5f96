import Mathlib.Data.List.Basic

set_option autoImplicit false

/-! # The first of the least elements of a list

A loop that keeps the best element so far, and gives it up only for one that is better, ends with
the leftmost of the least. Elements that fail a test are passed over.
-/

namespace Gpsdo

variable {α : Type*} {ok : α → Prop} {lt : α → α → Prop} {l : List α} {x r : α}

/-- `r` passes the test. Nothing in front of it that passes is as good, and nothing behind it is
better. -/
structure Leftmost (ok : α → Prop) (lt : α → α → Prop) (l : List α) (r : α) : Prop where
  passes : ok r
  split : ∃ l₁ l₂, l = l₁ ++ r :: l₂ ∧ (∀ y ∈ l₁, ok y → lt r y) ∧ ∀ y ∈ l₂, ok y → ¬ lt y r

theorem Leftmost.mem (h : Leftmost ok lt l r) : r ∈ l := by
  obtain ⟨l₁, l₂, rfl, -, -⟩ := h.split
  exact List.mem_append_right l₁ List.mem_cons_self

/-- The first element that passes the test. -/
theorem Leftmost.first (hx : ok x) (hl : ∀ y ∈ l, ¬ ok y) : Leftmost ok lt (l ++ [x]) x where
  passes := hx
  split := ⟨l, [], rfl, fun y hy hok => absurd hok (hl y hy), by simp⟩

/-- An element that is not better is passed over. -/
theorem Leftmost.concat (h : Leftmost ok lt l r) (hx : ok x → ¬ lt x r) :
    Leftmost ok lt (l ++ [x]) r where
  passes := h.passes
  split := by
    obtain ⟨l₁, l₂, rfl, hfront, hback⟩ := h.split
    refine ⟨l₁, l₂ ++ [x], by simp, hfront, fun y hy hok => ?_⟩
    rcases List.mem_append.mp hy with hy | hy
    · exact hback y hy hok
    · obtain rfl := List.mem_singleton.mp hy
      exact hx hok

/-- A better element is taken. The order is asked for its transitivity and for that of its negation,
each at the elements of the list. -/
theorem Leftmost.better (h : Leftmost ok lt l r) (hx : ok x) (hlt : lt x r)
    (htrans : ∀ y ∈ l, lt r y → lt x y) (hneg : ∀ y ∈ l, lt x y ∨ lt y r) :
    Leftmost ok lt (l ++ [x]) x where
  passes := hx
  split := by
    obtain ⟨l₁, l₂, rfl, hfront, hback⟩ := h.split
    refine ⟨l₁ ++ r :: l₂, [], rfl, fun y hy hok => ?_, by simp⟩
    rcases List.mem_append.mp hy with hy' | hy'
    · exact htrans y hy (hfront y hy' hok)
    · rcases List.mem_cons.mp hy' with rfl | hy'
      · exact hlt
      · exact (hneg y hy).resolve_right (hback y hy' hok)

end Gpsdo
