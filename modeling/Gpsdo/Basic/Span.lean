import Mathlib.Tactic

set_option autoImplicit false

/-! # Lists laid out on a ring of slots

The slots of a ring are `Fin n`; `slot p k` is the one `k` steps after `p`. `Span P p l` says that
the elements of `l` lie in the slots from `p` on, one each, where `P q a` says that slot `q` holds
`a`. A list of at most `n` elements does not overlap itself, so an edit of one slot changes one
element (`Span.replace`), and a full ring can be read from any of its slots (`Span.rotate`).
-/

namespace Gpsdo

variable {n : ℕ} [NeZero n] {α β : Type*}

/-! ## Slots -/

/-- The slot `k` steps after `p`. -/
def slot (p : Fin n) (k : ℕ) : Fin n := p + Fin.ofNat n k

theorem slot_val (p : Fin n) (k : ℕ) : (slot p k).val = (p.val + k) % n := by
  unfold slot
  rw [Fin.val_add, Fin.val_ofNat, Nat.add_mod_mod]

@[simp] theorem slot_zero (p : Fin n) : slot p 0 = p := by
  apply Fin.ext
  rw [slot_val, Nat.add_zero, Nat.mod_eq_of_lt p.isLt]

theorem slot_slot (p : Fin n) (j k : ℕ) : slot (slot p j) k = slot p (j + k) := by
  apply Fin.ext
  rw [slot_val, slot_val, slot_val, Nat.mod_add_mod, Nat.add_assoc]

theorem slot_one (p : Fin n) : slot p 1 = p + 1 := rfl

theorem slot_add_one (p : Fin n) (k : ℕ) : slot p k + 1 = slot p (k + 1) := by
  rw [← slot_one, slot_slot]

theorem slot_succ (p : Fin n) (k : ℕ) : slot (p + 1) k = slot p (k + 1) := by
  rw [← slot_one, slot_slot, Nat.add_comm]

@[simp] theorem slot_self (p : Fin n) : slot p n = p := by
  apply Fin.ext
  rw [slot_val, Nat.add_mod_right, Nat.mod_eq_of_lt p.isLt]

theorem slot_inj {p : Fin n} {j k : ℕ} (hj : j < n) (hk : k < n) (h : slot p j = slot p k) :
    j = k := by
  have hval := congrArg Fin.val h
  rw [slot_val, slot_val] at hval
  have hp := p.isLt
  by_contra hne
  rcases Nat.lt_or_ge (p.val + j) n with h1 | h1 <;> rcases Nat.lt_or_ge (p.val + k) n with h2 | h2
  · rw [Nat.mod_eq_of_lt h1, Nat.mod_eq_of_lt h2] at hval
    omega
  · rw [Nat.mod_eq_of_lt h1, Nat.mod_eq_sub_mod h2, Nat.mod_eq_of_lt (by omega)] at hval
    omega
  · rw [Nat.mod_eq_of_lt h2, Nat.mod_eq_sub_mod h1, Nat.mod_eq_of_lt (by omega)] at hval
    omega
  · rw [Nat.mod_eq_sub_mod h1, Nat.mod_eq_sub_mod h2, Nat.mod_eq_of_lt (by omega),
      Nat.mod_eq_of_lt (by omega)] at hval
    omega

/-- How far a slot is from another. -/
theorem slot_sub (p : Fin n) {k : ℕ} (hk : k < n) : (slot p k - p).val = k := by
  unfold slot
  rw [add_sub_cancel_left, Fin.val_ofNat, Nat.mod_eq_of_lt hk]

/-! ## A ring that is written forwards and read backwards -/

theorem sub_ofNat_succ (p : Fin n) (k : ℕ) :
    p + 1 - Fin.ofNat n (k + 1) = p - Fin.ofNat n k := by
  have hsucc : Fin.ofNat n (k + 1) = Fin.ofNat n k + 1 := by
    apply Fin.ext
    simp [Fin.val_add]
  rw [hsucc]
  exact add_sub_add_right_eq_sub _ _ _

theorem sub_ofNat_ne (p : Fin n) {k : ℕ} (hk : k + 1 < n) : p - Fin.ofNat n k ≠ p + 1 := by
  intro heq
  have hself : p + 1 - Fin.ofNat n (k + 1) = p + 1 := (sub_ofNat_succ p k).trans heq
  have hval := congrArg Fin.val (sub_eq_self.mp hself)
  rw [Fin.val_ofNat, Nat.mod_eq_of_lt hk] at hval
  exact Nat.succ_ne_zero k hval

/-- The element that is written comes first, and the others move back by one. -/
theorem update_sub_ofNat (f : Fin n → α) (p : Fin n) (a : α) {k : ℕ} (hk : k < n) :
    Function.update f (p + 1) a (p + 1 - Fin.ofNat n k) =
      if k = 0 then a else f (p - Fin.ofNat n (k - 1)) := by
  cases k with
  | zero =>
      have hslot : p + 1 - Fin.ofNat n 0 = p + 1 := sub_zero _
      rw [if_pos rfl, hslot, Function.update_self]
  | succ k =>
      rw [if_neg k.succ_ne_zero, sub_ofNat_succ, Function.update_of_ne (sub_ofNat_ne p hk),
        Nat.add_sub_cancel]

/-! ## Spans -/

/-- The elements of `l` lie in the slots from `p` on. -/
def Span (P : Fin n → α → Prop) : Fin n → List α → Prop
  | _, [] => True
  | p, a :: l => P p a ∧ Span P (p + 1) l

variable {P Q : Fin n → α → Prop} {p : Fin n} {l l' : List α} {a a' : α}

theorem span_append : Span P p (l ++ l') ↔ Span P p l ∧ Span P (slot p l.length) l' := by
  induction l generalizing p with
  | nil => simp [Span]
  | cons a l ih =>
      show P p a ∧ Span P (p + 1) (l ++ l') ↔ (P p a ∧ Span P (p + 1) l) ∧ _
      rw [ih, slot_succ, and_assoc]
      rfl

theorem span_iff : Span P p l ↔ ∀ k a, l[k]? = some a → P (slot p k) a := by
  induction l generalizing p with
  | nil => simp [Span]
  | cons a l ih =>
      show P p a ∧ Span P (p + 1) l ↔ _
      rw [ih]
      constructor
      · rintro ⟨ha, hl⟩ k b hb
        cases k with
        | zero =>
            obtain rfl : a = b := by simpa using hb
            simpa using ha
        | succ k =>
            rw [← slot_succ]
            exact hl k b (by simpa using hb)
      · intro h
        refine ⟨by simpa using h 0 a rfl, fun k b hb => ?_⟩
        rw [slot_succ]
        exact h (k + 1) b (by simpa using hb)

/-- What the slots of a span hold may be weakened. -/
theorem Span.imp (h : Span P p l)
    (himp : ∀ k a, l[k]? = some a → P (slot p k) a → Q (slot p k) a) : Span Q p l :=
  span_iff.mpr fun k a ha => himp k a ha (span_iff.mp h k a ha)

theorem span_map {P : Fin n → β → Prop} {f : α → β} :
    Span P p (l.map f) ↔ Span (fun q a => P q (f a)) p l := by
  induction l generalizing p with
  | nil => rfl
  | cons a l ih => exact and_congr Iff.rfl ih

/-- The middle of a span is at its slot. -/
theorem Span.mid (h : Span P p (l ++ a :: l')) : P (slot p l.length) a := (span_append.mp h).2.1

/-- **Editing one slot** replaces one element. -/
theorem Span.replace (h : Span P p (l ++ a :: l')) (hlen : l.length + l'.length < n)
    (ha : Q (slot p l.length) a')
    (hframe : ∀ q b, q ≠ slot p l.length → P q b → Q q b) : Span Q p (l ++ a' :: l') := by
  obtain ⟨hl, -, hl'⟩ := span_append.mp h
  refine span_append.mpr ⟨hl.imp fun k b hb => hframe _ b fun heq => ?_, ha,
    hl'.imp fun k b hb => hframe _ b fun heq => ?_⟩
  · have hk := (List.getElem?_eq_some_iff.mp hb).1
    have := slot_inj (by omega) (by omega) heq
    omega
  · have hk := (List.getElem?_eq_some_iff.mp hb).1
    rw [slot_succ, slot_slot] at heq
    have := slot_inj (by omega) (by omega) heq
    omega

/-- **A full ring** can be read from any slot. -/
theorem Span.rotate (h : Span P p (l ++ l')) (hlen : l.length + l'.length = n) :
    Span P (slot p l.length) (l' ++ l) := by
  obtain ⟨hl, hl'⟩ := span_append.mp h
  refine span_append.mpr ⟨hl', ?_⟩
  rwa [slot_slot, hlen, slot_self]

end Gpsdo
