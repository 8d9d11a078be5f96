import Mathlib.Algebra.Order.Field.Basic
import Mathlib.Algebra.Order.Ring.Abs
import Mathlib.Order.Interval.Set.Basic
import Mathlib.Tactic.Linarith
import Mathlib.Tactic.Ring

set_option autoImplicit false

/-! # Points that move towards a value

Each of the points goes a part of its way to a value, the nearest point the largest part and the
other ones less the further they are from it. The points keep their order, and each point stays
where it is convex to be. The nearest point is the one that a loop over the points ends with.
-/

namespace Gpsdo

variable {ι K : Type*}

/-! ## The nearest -/

/-- A loop that keeps the element with the least key so far. -/
theorem foldl_least [LinearOrder K] (f : ι → K) (l : List ι) (b : ι × K) (hb : f b.1 = b.2) :
    let r := l.foldl (fun best i => if f i < best.2 then (i, f i) else best) b
    f r.1 = r.2 ∧ r.2 ≤ b.2 ∧ ∀ i ∈ l, r.2 ≤ f i := by
  induction l generalizing b with
  | nil => exact ⟨hb, le_refl _, by simp⟩
  | cons i l ih =>
      rw [List.foldl_cons]
      by_cases hlt : f i < b.2
      · rw [if_pos hlt]
        obtain ⟨hr, hle, hall⟩ := ih (i, f i) rfl
        exact ⟨hr, hle.trans hlt.le, List.forall_mem_cons.mpr ⟨hle, hall⟩⟩
      · rw [if_neg hlt]
        obtain ⟨hr, hle, hall⟩ := ih b hb
        exact ⟨hr, hle, List.forall_mem_cons.mpr ⟨hle.trans (not_lt.mp hlt), hall⟩⟩

/-! ## The movement -/

section

variable [Field K]

/-- Every point goes its part `w` of the way to `v`. -/
def attract (w : ι → K) (v : K) (x : ι → K) (i : ι) : K := x i + (v - x i) * w i

variable [LinearOrder K] [IsStrictOrderedRing K] {w x : ι → K} {v lo hi : K} {i j b : ι}

/-- Between the old places and the value. -/
theorem attract_mem_Icc (hw : w i ∈ Set.Icc 0 1) (hx : x i ∈ Set.Icc lo hi)
    (hv : v ∈ Set.Icc lo hi) : attract w v x i ∈ Set.Icc lo hi := by
  have hsplit : attract w v x i = (1 - w i) * x i + w i * v := by
    unfold attract
    ring
  have h0 := hw.1
  have h1 := sub_nonneg.mpr hw.2
  rw [hsplit]
  constructor
  · linarith [mul_le_mul_of_nonneg_left hx.1 h1, mul_le_mul_of_nonneg_left hv.1 h0]
  · linarith [mul_le_mul_of_nonneg_left hx.2 h1, mul_le_mul_of_nonneg_left hv.2 h0]

theorem attract_lt (hw : w i < 1) (hx : x i < v) : attract w v x i < v := by
  have hgap : v - attract w v x i = (1 - w i) * (v - x i) := by
    unfold attract
    ring
  have hpos := mul_pos (sub_pos.mpr hw) (sub_pos.mpr hx)
  linarith

variable [LinearOrder ι]

/-- The parts are less from `b` on in both directions. -/
structure DecreasingFrom (w : ι → K) (b : ι) : Prop where
  nonneg : ∀ i, 0 ≤ w i
  lt_one : ∀ i, w i < 1
  above : ∀ i j, b ≤ i → i ≤ j → w j ≤ w i
  below : ∀ i j, i ≤ j → j ≤ b → w i ≤ w j

/-- The value is on the near side of all points but the nearest. -/
theorem lt_of_nearest (hx : StrictMono x) (hb : ∀ j, |v - x b| ≤ |v - x j|) :
    (∀ j, b < j → v < x j) ∧ ∀ i, i < b → x i < v := by
  constructor
  · intro j hj
    by_contra hle
    have hle := not_lt.mp hle
    have hlt := hx hj
    have hnear := hb j
    rw [abs_of_nonneg (by linarith), abs_of_nonneg (by linarith)] at hnear
    linarith
  · intro i hi
    by_contra hle
    have hle := not_lt.mp hle
    have hlt := hx hi
    have hnear := hb i
    rw [abs_of_nonpos (by linarith), abs_of_nonpos (by linarith)] at hnear
    linarith

/-- **The order is kept** when the parts decrease from the nearest point on. -/
theorem strictMono_attract (hx : StrictMono x) (hb : ∀ j, |v - x b| ≤ |v - x j|)
    (hw : DecreasingFrom w b) : StrictMono (attract w v x) := by
  obtain ⟨habove, hbelow⟩ := lt_of_nearest hx hb
  have hright : ∀ i j, b ≤ i → i < j → attract w v x i < attract w v x j := by
    intro i j hbi hij
    have hgap : attract w v x j - attract w v x i =
        (1 - w i) * (x j - x i) + (w i - w j) * (x j - v) := by
      unfold attract
      ring
    have hpos := mul_pos (sub_pos.mpr (hw.lt_one i)) (sub_pos.mpr (hx hij))
    have hrest := mul_nonneg (sub_nonneg.mpr (hw.above i j hbi hij.le))
      (sub_nonneg.mpr (habove j (hbi.trans_lt hij)).le)
    linarith
  have hleft : ∀ i j, i < j → j ≤ b → attract w v x i < attract w v x j := by
    intro i j hij hjb
    have hgap : attract w v x j - attract w v x i =
        (1 - w j) * (x j - x i) + (w j - w i) * (v - x i) := by
      unfold attract
      ring
    have hpos := mul_pos (sub_pos.mpr (hw.lt_one j)) (sub_pos.mpr (hx hij))
    have hrest := mul_nonneg (sub_nonneg.mpr (hw.below i j hij.le hjb))
      (sub_nonneg.mpr (hbelow i (hij.trans_le hjb)).le)
    linarith
  intro i j hij
  rcases le_total b i with hbi | hib
  · exact hright i j hbi hij
  · rcases le_total j b with hjb | hbj
    · exact hleft i j hij hjb
    · -- the two points are on different sides of the nearest one
      rcases hib.eq_or_lt with rfl | hib
      · exact hright i j (le_refl _) hij
      · rcases hbj.eq_or_lt with rfl | hbj
        · exact hleft i b hij (le_refl _)
        · exact (hleft i b hib (le_refl _)).trans (hright b j (le_refl _) hbj)

end

end Gpsdo
