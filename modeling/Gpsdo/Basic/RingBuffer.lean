import Gpsdo.Basic.Span

set_option autoImplicit false

/-! # Ring buffers

A writer puts elements in front of it and a reader takes them behind it. Neither looks at the other,
but for the test whether the reader has caught up: so a ring of `n` slots holds less than `n`
elements, and a writer without room loses what is in the ring. `Queued r l` says that `l` waits.
-/

namespace Gpsdo

/-- The slots, where the writer is and where the reader is. -/
structure RingBuffer (n : ℕ) (α : Type*) where
  slots : Fin n → α
  head : Fin n
  tail : Fin n

namespace RingBuffer

variable {n : ℕ} [NeZero n] {α : Type*} {r : RingBuffer n α} {l l' : List α} {a : α}

def put (r : RingBuffer n α) (a : α) : RingBuffer n α :=
  { r with slots := Function.update r.slots r.head a, head := r.head + 1 }

def putAll (r : RingBuffer n α) (l : List α) : RingBuffer n α := l.foldl put r

/-- The next element, if there is one. -/
def front (r : RingBuffer n α) : Option α :=
  if r.tail = r.head then none else some (r.slots r.tail)

def drop (r : RingBuffer n α) : RingBuffer n α := { r with tail := r.tail + 1 }

/-- At most `k` elements are taken. -/
def takeUpTo : ℕ → RingBuffer n α → RingBuffer n α × List α
  | 0, r => (r, [])
  | k + 1, r =>
      match r.front with
      | none => (r, [])
      | some a =>
          let s := takeUpTo k r.drop
          (s.1, a :: s.2)

/-- The elements of `l` wait, the first of them next. -/
structure Queued (r : RingBuffer n α) (l : List α) : Prop where
  span : Span (fun q a => r.slots q = a) r.tail l
  head : r.head = slot r.tail l.length
  room : l.length < n

theorem Queued.nil (h : r.head = r.tail) : r.Queued [] where
  span := trivial
  head := h.trans (slot_zero _).symm
  room := Nat.pos_of_ne_zero (NeZero.ne n)

theorem Queued.put (h : r.Queued l) (hroom : l.length + 1 < n) : (r.put a).Queued (l ++ [a]) where
  span := by
    refine span_append.mpr ⟨h.span.imp fun k b hb hold => ?_, ?_, trivial⟩
    · have hk := (List.getElem?_eq_some_iff.mp hb).1
      have hne : slot r.tail k ≠ r.head := by
        intro heq
        rw [h.head] at heq
        have := slot_inj (by omega) h.room heq
        omega
      exact (Function.update_of_ne hne _ _).trans hold
    · show Function.update r.slots r.head a (slot r.tail l.length) = a
      rw [← h.head, Function.update_self]
  head := by
    show r.head + 1 = _
    rw [h.head, slot_add_one, List.length_append, List.length_singleton]
    rfl
  room := by rwa [List.length_append, List.length_singleton]

theorem Queued.putAll (h : r.Queued l) (hroom : l.length + l'.length < n) :
    (r.putAll l').Queued (l ++ l') := by
  induction l' generalizing r l with
  | nil => simpa [RingBuffer.putAll] using h
  | cons a l' ih =>
      rw [List.length_cons] at hroom
      have hput := ih (h.put (a := a) (by omega))
        (by rw [List.length_append, List.length_singleton]; omega)
      rwa [List.append_assoc] at hput

theorem Queued.front_eq (h : r.Queued l) : r.front = l.head? := by
  unfold RingBuffer.front
  cases l with
  | nil =>
      rw [if_pos]
      · rfl
      · rw [h.head]
        exact (slot_zero _).symm
  | cons a l =>
      rw [if_neg]
      · exact congrArg some h.span.1
      · intro heq
        have hroom := h.room
        have hzero : slot r.tail 0 = slot r.tail (a :: l).length := by rw [slot_zero, ← h.head, heq]
        have := slot_inj (Nat.pos_of_ne_zero (NeZero.ne n)) hroom hzero
        simp at this

theorem Queued.drop (h : r.Queued (a :: l)) : r.drop.Queued l where
  span := h.span.2
  head := by
    show r.head = slot (r.tail + 1) l.length
    rw [slot_succ, h.head]
    rfl
  room := Nat.lt_of_succ_lt h.room

/-- **The elements come out as they went in.** -/
theorem Queued.takeUpTo (h : r.Queued l) (k : ℕ) :
    (takeUpTo k r).2 = l.take k ∧ (RingBuffer.takeUpTo k r).1.Queued (l.drop k) := by
  induction k generalizing r l with
  | zero => exact ⟨rfl, h⟩
  | succ k ih =>
      unfold RingBuffer.takeUpTo
      rw [h.front_eq]
      cases l with
      | nil => exact ⟨rfl, h⟩
      | cons a l =>
          obtain ⟨htaken, hrest⟩ := ih h.drop
          exact ⟨congrArg (a :: ·) htaken, hrest⟩

end RingBuffer

end Gpsdo
