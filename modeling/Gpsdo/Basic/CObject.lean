import Mathlib.Tactic

set_option autoImplicit false

/-! # Objects of C: their layout and the memory they lie in

The size and the alignment of scalars, arrays, structs and unions, as a C compiler lays them out
without packing: every member at the next multiple of its alignment, and the size rounded up to the
alignment. A memory is a total function of the address; `AgreeBelow n` relates memories that are the
same below `n`.
-/

namespace Gpsdo

/-! ## Layout -/

/-- The least multiple of `a` from `n` on. -/
def alignUp (a n : ℕ) : ℕ := (n + (a - 1)) / a * a

theorem le_alignUp {a : ℕ} (ha : 0 < a) (n : ℕ) : n ≤ alignUp a n := by
  have hlt := Nat.lt_div_mul_add ha (a := n + (a - 1))
  unfold alignUp
  omega

theorem dvd_alignUp (a n : ℕ) : a ∣ alignUp a n := Nat.dvd_mul_left _ _

/-- A type of objects. -/
structure CType where
  size : ℕ
  align : ℕ
  align_pos : 0 < align
  align_dvd : align ∣ size

namespace CType

/-- A number of `n` bytes. -/
def scalar (n : ℕ) (hn : 0 < n) : CType := ⟨n, n, hn, dvd_rfl⟩

def uint8_t : CType := scalar 1 (by decide)

def uint16_t : CType := scalar 2 (by decide)

def uint32_t : CType := scalar 4 (by decide)

def array (n : ℕ) (t : CType) : CType := ⟨n * t.size, t.align, t.align_pos, t.align_dvd.mul_left n⟩

/-- The alignment that all members agree on. -/
def maxAlign (ts : List CType) : ℕ := ts.foldr (fun t a => max t.align a) 1

theorem maxAlign_pos (ts : List CType) : 0 < maxAlign ts := by
  induction ts with
  | nil => exact Nat.one_pos
  | cons t ts ih => exact lt_max_of_lt_right ih

/-- The end of members that are laid out from `n` on. -/
def place : ℕ → List CType → ℕ
  | n, [] => n
  | n, t :: ts => place (alignUp t.align n + t.size) ts

/-- Where the member `k` is when the members are laid out from `n` on. -/
def offset : ℕ → List CType → ℕ → ℕ
  | n, [], _ => n
  | n, t :: _, 0 => alignUp t.align n
  | n, t :: ts, k + 1 => offset (alignUp t.align n + t.size) ts k

def struct (ts : List CType) : CType :=
  ⟨alignUp (maxAlign ts) (place 0 ts), maxAlign ts, maxAlign_pos ts, dvd_alignUp _ _⟩

/-- `offsetof`, for the member `k` of a struct. -/
def offsetof (ts : List CType) (k : ℕ) : ℕ := offset 0 ts k

def union (ts : List CType) : CType :=
  ⟨alignUp (maxAlign ts) (ts.foldr (fun t n => max t.size n) 0), maxAlign ts, maxAlign_pos ts,
    dvd_alignUp _ _⟩

theorem le_place (n : ℕ) (ts : List CType) : n ≤ place n ts := by
  induction ts generalizing n with
  | nil => exact le_refl n
  | cons t ts ih => exact ((le_alignUp t.align_pos n).trans (Nat.le_add_right _ _)).trans (ih _)

theorem offset_add_size_le {n k : ℕ} {ts : List CType} {t : CType} (h : ts[k]? = some t) :
    offset n ts k + t.size ≤ place n ts := by
  induction ts generalizing n k with
  | nil => simp at h
  | cons u ts ih =>
      cases k with
      | zero =>
          obtain rfl : u = t := by simpa using h
          exact le_place _ ts
      | succ k => exact ih (by simpa using h)

/-- **A member lies in its struct.** -/
theorem offsetof_add_size_le {k : ℕ} {ts : List CType} {t : CType} (h : ts[k]? = some t) :
    offsetof ts k + t.size ≤ (struct ts).size :=
  (offset_add_size_le h).trans (le_alignUp (maxAlign_pos ts) _)

/-- **A member lies in its union.** -/
theorem size_le_union {ts : List CType} {t : CType} (h : t ∈ ts) : t.size ≤ (union ts).size := by
  refine le_trans ?_ (le_alignUp (maxAlign_pos ts) _)
  induction ts with
  | nil => cases h
  | cons u ts ih =>
      rcases List.mem_cons.mp h with rfl | h
      · exact le_max_left _ _
      · exact (ih h).trans (le_max_right _ _)

end CType

/-! ## Memory -/

variable {α : Type*}

/-- A memory, from the address of some object on. -/
abbrev Mem (α : Type*) := ℕ → α

namespace Mem

/-- The elements of `l` are written from `off` on. -/
def store (m : Mem α) (off : ℕ) (l : List α) : Mem α :=
  fun i => if off ≤ i then (l[i - off]?).getD (m i) else m i

/-- `n` elements. -/
def load (m : Mem α) (off n : ℕ) : List α := (List.range n).map fun i => m (off + i)

/-- A function changes the object of `n` elements at `off`. -/
def modify (m : Mem α) (off n : ℕ) (f : (Fin n → α) → Fin n → α) : Mem α :=
  fun i => if h : off ≤ i ∧ i - off < n then f (fun j => m (off + j)) ⟨i - off, h.2⟩ else m i

/-- Memories that are the same below `n`. -/
def AgreeBelow (n : ℕ) (m m' : Mem α) : Prop := ∀ i < n, m i = m' i

variable {n : ℕ} {m m' : Mem α}

/-- The elements of a list lie in the memory, from an offset on. -/
def Holds (m : Mem α) : ℕ → List α → Prop
  | _, [] => True
  | off, a :: l => m off = a ∧ Holds m (off + 1) l

theorem holds_append {off : ℕ} {l l' : List α} :
    m.Holds off (l ++ l') ↔ m.Holds off l ∧ m.Holds (off + l.length) l' := by
  induction l generalizing off with
  | nil => simp [Holds]
  | cons a l ih =>
      show m off = a ∧ m.Holds (off + 1) (l ++ l') ↔ (m off = a ∧ m.Holds (off + 1) l) ∧ _
      rw [ih, and_assoc, List.length_cons, Nat.add_right_comm, Nat.add_assoc]

@[simp] theorem length_load (m : Mem α) (off k : ℕ) : (m.load off k).length = k := by
  rw [load, List.length_map, List.length_range]

theorem load_add (m : Mem α) (off j k : ℕ) :
    m.load off (j + k) = m.load off j ++ m.load (off + j) k := by
  unfold load
  rw [List.range_add, List.map_append, List.map_map]
  refine congrArg _ (List.map_congr_left fun i _ => ?_)
  exact congrArg m (Nat.add_assoc off j i).symm

theorem load_congr {off k : ℕ} (h : ∀ i, off ≤ i → i < off + k → m i = m' i) :
    m.load off k = m'.load off k := by
  refine List.map_congr_left fun i hi => h _ (Nat.le_add_right off i) ?_
  exact Nat.add_lt_add_left (List.mem_range.mp hi) off

theorem store_apply_congr {off i : ℕ} {l : List α} (h : m i = m' i) :
    m.store off l i = m'.store off l i := by
  unfold Mem.store
  rw [h]

theorem store_of_notMem {l : List α} {off i : ℕ} (h : i < off ∨ off + l.length ≤ i) :
    m.store off l i = m i := by
  unfold Mem.store
  split
  · rw [List.getElem?_eq_none (by omega), Option.getD_none]
  · rfl

/-- What a write leaves alone. -/
theorem load_store_of_disjoint {l : List α} {off off' k : ℕ}
    (h : off' + k ≤ off ∨ off + l.length ≤ off') : (m.store off l).load off' k = m.load off' k :=
  load_congr fun i h1 h2 => store_of_notMem (by omega)

/-- What was written. -/
theorem load_store_self (m : Mem α) (off : ℕ) (l : List α) :
    (m.store off l).load off l.length = l := by
  refine List.ext_getElem (length_load _ _ _) fun i h1 h2 => ?_
  simp only [load, Mem.store, List.getElem_map, List.getElem_range, Nat.le_add_right, if_true,
    Nat.add_sub_cancel_left, List.getElem?_eq_getElem h2, Option.getD_some]

theorem store_singleton (m : Mem α) (off i : ℕ) (a : α) :
    m.store off [a] i = if i = off then a else m i := by
  split
  · next h => simp [Mem.store, h]
  · next h =>
      rw [store_of_notMem]
      rw [List.length_singleton]
      omega

theorem store_nil (m : Mem α) (off : ℕ) : m.store off [] = m := by
  funext i
  rw [Mem.store, List.getElem?_nil, Option.getD_none, ite_self]

/-- A write over a write. -/
theorem store_store (m : Mem α) (off : ℕ) {l l' : List α} (h : l.length = l'.length) :
    (m.store off l).store off l' = m.store off l' := by
  funext i
  unfold Mem.store
  split
  · next hi =>
      rcases Nat.lt_or_ge (i - off) l'.length with hlt | hge
      · rw [List.getElem?_eq_getElem hlt, Option.getD_some, Option.getD_some]
      · rw [List.getElem?_eq_none hge, List.getElem?_eq_none (h ▸ hge)]
        rfl
  · rfl

/-- Writes one behind the other, the front one first. -/
theorem store_append (m : Mem α) (off : ℕ) (l l' : List α) :
    (m.store off l).store (off + l.length) l' = m.store off (l ++ l') := by
  funext i
  unfold Mem.store
  rcases Nat.lt_or_ge i (off + l.length) with hlt | hge
  · rw [if_neg (by omega)]
    split
    · rw [List.getElem?_append_left (by omega)]
    · rfl
  · rw [if_pos hge, if_pos (by omega), if_pos (by omega), List.getElem?_append_right (by omega),
      List.getElem?_eq_none (l := l) (by omega), Option.getD_none, Nat.sub_sub]

/-- Writes to different places. -/
theorem store_comm (m : Mem α) {off off' : ℕ} {l l' : List α} (h : off + l.length ≤ off') :
    (m.store off' l').store off l = (m.store off l).store off' l' := by
  funext i
  rcases Nat.lt_or_ge i off' with hlt | hge
  · rw [store_of_notMem (m := m.store off l) (Or.inl hlt)]
    exact store_apply_congr (store_of_notMem (Or.inl hlt))
  · rw [store_of_notMem (m := m.store off' l') (Or.inr (h.trans hge))]
    exact store_apply_congr (store_of_notMem (Or.inr (h.trans hge))).symm

/-- Writes one behind the other, the front one last. -/
theorem store_prepend (m : Mem α) (off : ℕ) (l l' : List α) :
    (m.store (off + l.length) l').store off l = m.store off (l ++ l') := by
  rw [store_comm m (le_refl _), store_append]

/-- A loop that writes element after element. -/
theorem foldl_store (m : Mem α) (off n : ℕ) (c : ℕ → α) :
    (List.range n).foldl (fun m i => m.store (off + i) [c i]) m =
      m.store off ((List.range n).map c) := by
  induction n with
  | zero => exact (store_nil m off).symm
  | succ n ih =>
      have hlen : ((List.range n).map c).length = n := by simp
      rw [List.range_succ, List.foldl_append, ih, List.map_append, ← store_append, hlen]
      rfl

theorem store_cons_self (m : Mem α) (off : ℕ) (a : α) (l : List α) : m.store off (a :: l) off = a := by
  simp [Mem.store]

theorem AgreeBelow.store (h : AgreeBelow n m m') (off : ℕ) (l : List α) :
    AgreeBelow n (m.store off l) (m'.store off l) :=
  fun i hi => store_apply_congr (h i hi)

theorem AgreeBelow.load (h : AgreeBelow n m m') (off : ℕ) {k : ℕ} (hk : off + k ≤ n) :
    m.load off k = m'.load off k := by
  refine List.map_congr_left fun i hi => h _ ?_
  have := List.mem_range.mp hi
  omega

theorem AgreeBelow.modify (h : AgreeBelow n m m') {off k : ℕ} (hk : off + k ≤ n)
    (f : (Fin k → α) → Fin k → α) : AgreeBelow n (m.modify off k f) (m'.modify off k f) := by
  intro i hi
  have hobject : (fun j : Fin k => m (off + j)) = fun j : Fin k => m' (off + j) :=
    funext fun j => h _ (by omega)
  unfold Mem.modify
  rw [hobject, h i hi]

end Mem

end Gpsdo
