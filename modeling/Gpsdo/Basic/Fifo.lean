import Mathlib.Data.List.Sort

set_option autoImplicit false

/-! # Priority queues with ties in insertion order

A list kept by ordered insertion, where each element has a priority and ties go to the one that
was inserted first. The stamps that say when an element was inserted are not compared by the
insertion: it is enough that the new element's stamp is the latest.
-/

namespace Gpsdo

variable {N : Type*} {rank rank' : N → Int} {stamp stamp' : N → Nat}

/-- `a` comes before `b`: its rank is higher, or they tie and `a` is the older one. -/
def Before (rank : N → Int) (stamp : N → Nat) (a b : N) : Prop :=
  rank b < rank a ∨ rank a = rank b ∧ stamp a < stamp b

theorem Before.trans {a b c : N} (h : Before rank stamp a b) (h' : Before rank stamp b c) :
    Before rank stamp a c := by
  unfold Before at *
  omega

/-- The order only depends on differences of ranks, and on the stamps of the elements. -/
theorem pairwise_before_congr {l : List N} (h : l.Pairwise (Before rank stamp)) {d : Int}
    (hr : ∀ a ∈ l, rank' a = rank a + d) (hs : ∀ a ∈ l, stamp' a = stamp a) :
    l.Pairwise (Before rank' stamp') := by
  refine h.imp_of_mem fun {a b} ha hb hab => ?_
  unfold Before at *
  rw [hr a ha, hr b hb, hs a ha, hs b hb]
  omega

/-- Ordered insertion keeps a list sorted by `r` if it compares the new element as `r` does. -/
theorem pairwise_orderedInsert {r s : N → N → Prop} [DecidableRel s] {x : N} {l : List N}
    (h : l.Pairwise r) (htrans : ∀ a b c, r a b → r b c → r a c)
    (hlt : ∀ b ∈ l, s x b → r x b) (hge : ∀ b ∈ l, ¬ s x b → r b x) :
    (l.orderedInsert s x).Pairwise r := by
  induction l with
  | nil => exact List.pairwise_singleton r x
  | cons y l ih =>
      obtain ⟨hy, hl⟩ := List.pairwise_cons.mp h
      rw [List.orderedInsert_cons]
      by_cases hs : s x y
      · rw [if_pos hs]
        have hxy := hlt y List.mem_cons_self hs
        refine List.pairwise_cons.mpr ⟨fun b hb => ?_, h⟩
        rcases List.mem_cons.mp hb with rfl | hb
        · exact hxy
        · exact htrans x y b hxy (hy b hb)
      · rw [if_neg hs]
        have hyx := hge y List.mem_cons_self hs
        refine List.pairwise_cons.mpr ⟨fun b hb => ?_, ?_⟩
        · rcases (List.mem_orderedInsert s).mp hb with rfl | hb
          · exact hyx
          · exact hy b hb
        · exact ih hl (fun b hb => hlt b (List.mem_cons_of_mem _ hb))
            (fun b hb => hge b (List.mem_cons_of_mem _ hb))

/-- **Inserting the latest element** in front of the elements of lower rank. -/
theorem pairwise_before_insert {s : N → N → Prop} [DecidableRel s] {x : N} {l : List N}
    (h : l.Pairwise (Before rank stamp)) (hs : ∀ b ∈ l, s x b ↔ rank b < rank x)
    (hx : ∀ b ∈ l, stamp b < stamp x) : (l.orderedInsert s x).Pairwise (Before rank stamp) := by
  refine pairwise_orderedInsert h (fun _ _ _ => Before.trans) (fun b hb hxb => ?_)
    (fun b hb hxb => ?_)
  · exact Or.inl ((hs b hb).mp hxb)
  · rw [hs b hb, not_lt] at hxb
    rcases hxb.lt_or_eq with hlt | heq
    · exact Or.inl hlt
    · exact Or.inr ⟨heq.symm, hx b hb⟩

end Gpsdo
