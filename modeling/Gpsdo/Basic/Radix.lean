import Mathlib.Data.Nat.Digits.Lemmas
import Mathlib.Tactic

set_option autoImplicit false

/-! # Numerals

Strings of digits in a base, the most significant one first: the numeral of a number, without zeros
in front of it, and what is left of a string when it is aligned to the right in a field of some
width. A string that is aligned with zeros keeps its value up to a power of the base.
-/

namespace Gpsdo.Radix

/-! ## Alignment -/

section

variable {α β : Type*} (pad : α) (w : ℕ) (l : List α)

/-- The last `w` of a list, and `pad` where it is too short. -/
def align : List α := List.replicate (w - l.length) pad ++ l.drop (l.length - w)

variable {w l}

@[simp] theorem length_align : (align pad w l).length = w := by
  unfold align
  rw [List.length_append, List.length_replicate, List.length_drop]
  omega

theorem align_of_length_le (h : l.length ≤ w) :
    align pad w l = List.replicate (w - l.length) pad ++ l := by
  rw [align, Nat.sub_eq_zero_of_le h, List.drop_zero]

theorem align_of_le_length (h : w ≤ l.length) : align pad w l = l.drop (l.length - w) := by
  rw [align, Nat.sub_eq_zero_of_le h, List.replicate_zero, List.nil_append]

theorem map_align (f : α → β) : (align pad w l).map f = align (f pad) w (l.map f) := by
  unfold align
  rw [List.map_append, List.map_replicate, List.map_drop, List.length_map]

theorem mem_align {a : α} (h : a ∈ align pad w l) : a = pad ∨ a ∈ l := by
  rcases List.mem_append.mp h with h | h
  · exact Or.inl (List.eq_of_mem_replicate h)
  · exact Or.inr (List.mem_of_mem_drop h)

theorem reverse_align :
    (align pad w l).reverse = l.reverse.take w ++ List.replicate (w - l.length) pad := by
  unfold align
  rw [List.reverse_append, List.reverse_replicate, List.reverse_drop]
  rcases Nat.le_total w l.length with h | h
  · rw [Nat.sub_sub_self h]
  · rw [Nat.sub_eq_zero_of_le h, Nat.sub_zero, List.take_of_length_le (by simp),
      List.take_of_length_le (by simpa using h)]

/-- From the right, a place is one of the list or it is padded. -/
theorem getElem?_reverse_align {i : ℕ} (h : i < w) :
    (align pad w l).reverse[i]? = some (l.reverse.getD i pad) := by
  rw [reverse_align, List.getD_eq_getElem?_getD]
  rcases Nat.lt_or_ge i l.length with hi | hi
  · have hi' : i < l.reverse.length := by rwa [List.length_reverse]
    rw [List.getElem?_append_left (by rw [List.length_take]; omega), List.getElem?_take_of_lt h,
      List.getElem?_eq_getElem hi', Option.getD_some]
  · have hlen : (l.reverse.take w).length = l.length := by
      rw [List.length_take, List.length_reverse]
      omega
    rw [List.getElem?_append_right (by omega), hlen, List.getElem?_replicate, if_pos (by omega),
      List.getElem?_eq_none (by rwa [List.length_reverse]), Option.getD_none]

end

/-! ## Values -/

/-- The number that a string of digits stands for. -/
def value (b : ℕ) (l : List ℕ) : ℕ := Nat.ofDigits b l.reverse

variable {b : ℕ} {l l' : List ℕ}

theorem value_concat (b : ℕ) (l : List ℕ) (d : ℕ) : value b (l ++ [d]) = b * value b l + d := by
  rw [value, List.reverse_append, List.reverse_singleton, List.singleton_append, Nat.ofDigits_cons,
    Nat.add_comm]
  rfl

theorem value_lt (hb : 1 < b) (hl : ∀ d ∈ l, d < b) : value b l < b ^ l.length := by
  rw [← List.length_reverse]
  exact Nat.ofDigits_lt_base_pow_length hb fun d hd => hl d (List.mem_reverse.mp hd)

/-- Strings of one length are told apart by their values. -/
theorem eq_of_value_eq (hb : 1 < b) (hlen : l.length = l'.length) (hl : ∀ d ∈ l, d < b)
    (hl' : ∀ d ∈ l', d < b) (h : value b l = value b l') : l = l' :=
  List.reverse_injective <| Nat.ofDigits_inj_of_len_eq hb
    (by rw [List.length_reverse, List.length_reverse, hlen])
    (fun d hd => hl d (List.mem_reverse.mp hd)) (fun d hd => hl' d (List.mem_reverse.mp hd)) h

/-- **Alignment with zeros** keeps the value up to a power of the base. -/
theorem value_align (hb : 0 < b) (hl : ∀ d ∈ l, d < b) (w : ℕ) :
    value b (align 0 w l) = value b l % b ^ w := by
  have hmod := Nat.ofDigits_mod_pow_eq_ofDigits_take w hb l.reverse fun d hd =>
    hl d (List.mem_reverse.mp hd)
  unfold value
  rw [hmod, reverse_align, Nat.ofDigits_append_replicate_zero]

/-! ## The numeral of a number -/

/-- The digits without zeros in front, and a single zero for zero. -/
def numeral (b n : ℕ) : List ℕ := if n = 0 then [0] else (Nat.digits b n).reverse

theorem value_numeral (b n : ℕ) : value b (numeral b n) = n := by
  unfold numeral value
  split
  · next h => simp [h]
  · rw [List.reverse_reverse, Nat.ofDigits_digits]

theorem lt_of_mem_numeral (hb : 1 < b) {n d : ℕ} (h : d ∈ numeral b n) : d < b := by
  unfold numeral at h
  split at h
  · rw [List.mem_singleton] at h
    omega
  · exact Nat.digits_lt_base hb (List.mem_reverse.mp h)

/-- No zero in front, but for zero. -/
theorem head_numeral_ne_zero {n : ℕ} (hn : n ≠ 0) : (numeral b n).head? ≠ some 0 := by
  have hne := Nat.digits_ne_nil_iff_ne_zero (b := b).mpr hn
  rw [numeral, if_neg hn, List.head?_reverse, List.getLast?_eq_getLast_of_ne_nil hne]
  exact fun h => Nat.getLast_digit_ne_zero b hn (Option.some.inj h)

theorem length_numeral_le (hb : 1 < b) {n k : ℕ} (hk : 0 < k) (hn : n < b ^ k) :
    (numeral b n).length ≤ k := by
  unfold numeral
  split
  · exact hk
  · rw [List.length_reverse]
    exact (Nat.digits_length_le_iff hb n).mpr hn

/-- The digits of a number that is aligned in a field. -/
theorem forall_align_numeral_iff (hb : 1 < b) (n w : ℕ) {P : ℕ → Prop} :
    (∀ d ∈ align 0 w (numeral b n), P d) ↔ ∀ i < w, P (n / b ^ i % b) := by
  have hdigit : ∀ i, (numeral b n).reverse.getD i 0 = n / b ^ i % b := by
    intro i
    rw [← Nat.getD_digits n i hb, numeral]
    split
    · next h => cases i <;> simp [h]
    · rw [List.reverse_reverse]
  constructor
  · intro h i hi
    rw [← hdigit]
    exact h _ (List.mem_reverse.mp (List.mem_of_getElem? (getElem?_reverse_align 0 hi)))
  · intro h d hd
    obtain ⟨i, hi⟩ := List.mem_iff_getElem?.mp (List.mem_reverse.mpr hd)
    have hlt : i < w := by
      have hlt := (List.getElem?_eq_some_iff.mp hi).1
      rwa [List.length_reverse, length_align] at hlt
    rw [getElem?_reverse_align 0 hlt, hdigit] at hi
    rw [← Option.some.inj hi]
    exact h i hlt

end Gpsdo.Radix
