import Mathlib.Data.List.Nodup
import Mathlib.Data.List.Pairwise

set_option autoImplicit false

/-! # Frames that leave in order

A transmitter hands its frames out in the order in which it took them, and keeps each one with the
time at which it left until the frame is reclaimed, again in this order. Of the lists, the frames
that were offered and those that are gone have the last one first, and what the transmitter has is
in its order.
-/

namespace Gpsdo

variable {α κ : Type*}

/-- The frames `left` of the transmitter have left, and its other ones wait. -/
structure Outbox (offered ring : List α) (left gone : List (α × ℕ)) : Prop where
  waits : ∃ waiting, ring = left.map Prod.fst ++ waiting ∧
    (waiting.reverse ++ gone.map Prod.fst).Sublist offered
  gone : ∀ e ∈ left, e ∈ gone

namespace Outbox

variable {offered ring : List α} {left gone : List (α × ℕ)}

theorem start : Outbox ([] : List α) [] [] [] := ⟨⟨[], rfl, List.Sublist.refl _⟩, by simp⟩

/-- A frame is not taken. -/
theorem refuse (hi : Outbox offered ring left gone) (x : α) :
    Outbox (x :: offered) ring left gone := by
  obtain ⟨⟨waiting, hring, hsub⟩, hgone⟩ := hi
  exact ⟨⟨waiting, hring, hsub.cons x⟩, hgone⟩

/-- A frame is taken. -/
theorem push (hi : Outbox offered ring left gone) (x : α) :
    Outbox (x :: offered) (ring ++ [x]) left gone := by
  obtain ⟨⟨waiting, hring, hsub⟩, hgone⟩ := hi
  refine ⟨⟨waiting ++ [x], by rw [hring, List.append_assoc], ?_⟩, hgone⟩
  rw [List.reverse_append]
  exact hsub.cons_cons x

/-- A frame at most is offered. -/
theorem offer (hi : Outbox offered ring left gone) {l : List α} (hl : l.length ≤ 1)
    (accepted : Bool) :
    Outbox (l ++ offered) (ring ++ if accepted then l else []) left gone := by
  cases l with
  | nil =>
      rw [ite_self, List.append_nil]
      exact hi
  | cons x l =>
      obtain rfl := List.length_eq_zero_iff.mp (Nat.le_zero.mp (Nat.le_of_succ_le_succ hl))
      cases accepted with
      | true => exact hi.push x
      | false =>
          show Outbox _ (ring ++ []) _ _
          rw [List.append_nil]
          exact hi.refuse x

/-- The oldest frame that waits leaves. -/
theorem leave (hi : Outbox offered ring left gone) {x : α} (hx : ring[left.length]? = some x)
    (now : ℕ) : Outbox offered ring (left ++ [(x, now)]) ((x, now) :: gone) := by
  obtain ⟨⟨waiting, hring, hsub⟩, hgone⟩ := hi
  obtain ⟨rest, rfl⟩ : ∃ rest, waiting = x :: rest := by
    rw [hring, ← List.length_map Prod.fst, List.getElem?_append_right (Nat.le_refl _),
      Nat.sub_self] at hx
    cases waiting with
    | nil => cases hx
    | cons y rest => exact ⟨rest, by rw [Option.some.inj hx]⟩
  refine ⟨⟨rest, by rw [hring]; simp, ?_⟩, ?_⟩
  · rwa [List.reverse_cons, List.append_assoc] at hsub
  · intro e he
    rcases List.mem_append.mp he with he | he
    · exact List.mem_cons_of_mem _ (hgone e he)
    · rw [List.mem_singleton.mp he]
      exact List.mem_cons_self

/-- The oldest frame is reclaimed. -/
theorem reclaim {x y : α} {time : ℕ} (hi : Outbox offered (x :: ring) ((y, time) :: left) gone) :
    x = y ∧ (x, time) ∈ gone ∧ Outbox offered ring left gone := by
  obtain ⟨⟨waiting, hring, hsub⟩, hgone⟩ := hi
  rw [List.map_cons, List.cons_append] at hring
  obtain ⟨rfl, hrest⟩ := List.cons.inj hring
  exact ⟨rfl, hgone _ List.mem_cons_self, ⟨waiting, hrest, hsub⟩,
    fun e he => hgone e (List.mem_cons_of_mem _ he)⟩

/-- What is gone was offered. -/
theorem gone_offered (hi : Outbox offered ring left gone) {e : α × ℕ} (he : e ∈ gone) :
    e.1 ∈ offered := by
  obtain ⟨⟨waiting, -, hsub⟩, -⟩ := hi
  exact hsub.subset (List.mem_append_right _ (List.mem_map_of_mem he))

/-- No two of the frames that are gone have the same key, if no two have that were offered. -/
theorem unique (hi : Outbox offered ring left gone) {f : α → Option κ}
    (hnd : (offered.filterMap f).Nodup) {a b : α × ℕ} (ha : a ∈ gone) (hb : b ∈ gone) {k : κ}
    (hka : f a.1 = some k) (hkb : f b.1 = some k) : a = b := by
  obtain ⟨⟨waiting, -, hsub⟩, -⟩ := hi
  have hgone : (gone.filterMap fun e => f e.1).Nodup := by
    have h := ((List.sublist_append_right _ _).trans hsub).filterMap f
    rw [List.filterMap_map] at h
    exact hnd.sublist h
  have hkeys := List.pairwise_filterMap.mp hgone
  by_contra hne
  have : Std.Symm fun a a' : α × ℕ => ∀ b, f a.1 = some b → ∀ b', f a'.1 = some b' → b ≠ b' :=
    ⟨fun _ _ h i hi j hj hij => h j hj i hi hij.symm⟩
  exact hkeys.forall ha hb hne k hka k hkb rfl

end Outbox

end Gpsdo
