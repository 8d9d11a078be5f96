import Mathlib.Data.List.Chain
import Mathlib.Data.List.Nodup
import Mathlib.Tactic

set_option autoImplicit false

/-! # Linked lists threaded through nodes

Two views of link fields `next prev : N → Option N` (`none` is the null pointer):

* `Path next p l q`: following `next` from the pointer `p` one meets exactly the nodes of `l`
  and then has the pointer `q`. A null-terminated list is a path to `none`. `walk` computes
  the nodes with a bound on the number of steps, and finds them when the bound is large enough
  (`walk_eq_some_iff`).
* `Ring next prev r l`: the nodes `r :: l` are distinct and linked both ways into a circle
  through the root `r`. `Ring.unlink` and `Ring.link` are the two edits of a ring; they say
  which link fields have to change, and that all others have to stay.
-/

namespace Gpsdo

variable {N : Type*} {next prev next' prev' : N → Option N}

/-! ## Paths -/

/-- Following `next` from `p` one meets the nodes of the list and is left with `q`. -/
def Path (next : N → Option N) : Option N → List N → Option N → Prop
  | p, [], q => p = q
  | p, x :: l, q => p = some x ∧ Path next (next x) l q

theorem Path.congr {l : List N} {p q : Option N} (h : Path next p l q)
    (hn : ∀ x ∈ l, next' x = next x) : Path next' p l q := by
  induction l generalizing p with
  | nil => exact h
  | cons x l ih =>
      refine ⟨h.1, ?_⟩
      rw [hn x List.mem_cons_self]
      exact ih h.2 fun y hy => hn y (List.mem_cons_of_mem _ hy)

/-- Past the nodes of a path, either the end is reached or the next node is on the path. -/
theorem Path.next_mem {l : List N} {p q : Option N} (h : Path next p l q) {x : N}
    (hx : x ∈ l) : next x = q ∨ ∃ y ∈ l, next x = some y := by
  induction l generalizing p with
  | nil => cases hx
  | cons y l ih =>
      rcases List.mem_cons.mp hx with rfl | hx
      · cases l with
        | nil => exact Or.inl h.2
        | cons z l => exact Or.inr ⟨z, by simp, h.2.1⟩
      · rcases ih h.2 hx with h' | ⟨z, hz, h'⟩
        · exact Or.inl h'
        · exact Or.inr ⟨z, List.mem_cons_of_mem _ hz, h'⟩

section walk

variable [DecidableEq N]

/-- The nodes met when following `next` from `p` until the pointer equals `stop`, within the
given number of steps; `none` if `stop` is not reached in them. -/
def walk (next : N → Option N) (stop : Option N) : Nat → Option N → Option (List N)
  | 0, p => if p = stop then some [] else none
  | n + 1, p =>
      if p = stop then some []
      else p.bind fun x => (walk next stop n (next x)).map (x :: ·)

/-- A walk finds `l` exactly when `l` is a path to `stop` that does not meet `stop` earlier and
is short enough. -/
theorem walk_eq_some_iff {stop : Option N} {n : Nat} {p : Option N} {l : List N} :
    walk next stop n p = some l ↔
      Path next p l stop ∧ (∀ x ∈ l, some x ≠ stop) ∧ l.length ≤ n := by
  induction n generalizing p l with
  | zero =>
      cases l with
      | nil => simp [walk, Path]
      | cons x l => simp [walk]
  | succ n ih =>
      rw [walk]
      by_cases hp : p = stop
      · subst hp
        cases l with
        | nil => simp [Path]
        | cons x l =>
            simp only [if_true, Option.some.injEq, reduceCtorEq, Path, List.mem_cons, false_iff]
            rintro ⟨⟨rfl, -⟩, h, -⟩
            exact h x (Or.inl rfl) rfl
      · rw [if_neg hp]
        cases l with
        | nil => simp [Path, hp, Option.bind_eq_some_iff]
        | cons x l =>
            simp only [Option.bind_eq_some_iff, Option.map_eq_some_iff, List.cons.injEq, Path,
              List.mem_cons, forall_eq_or_imp, List.length_cons, Nat.add_le_add_iff_right]
            constructor
            · rintro ⟨y, rfl, l', hl', rfl, rfl⟩
              obtain ⟨h1, h2, h3⟩ := ih.mp hl'
              exact ⟨⟨rfl, h1⟩, ⟨hp, h2⟩, h3⟩
            · rintro ⟨⟨rfl, h1⟩, ⟨-, h2⟩, h3⟩
              exact ⟨x, rfl, l, ih.mpr ⟨h1, h2, h3⟩, rfl, rfl⟩

end walk

/-! ## Rings -/

/-- `v` follows `u`: the two link fields between them agree. -/
def Linked (next prev : N → Option N) (u v : N) : Prop := next u = some v ∧ prev v = some u

/-- The nodes of `l` are linked both ways into a circle through the root `r`. -/
def Ring (next prev : N → Option N) (r : N) (l : List N) : Prop :=
  (r :: l).Nodup ∧ List.IsChain (Linked next prev) (r :: (l ++ [r]))

/-- A linked chain only reads `next` of its nodes but the last, `prev` of those but the
first. -/
theorem isChain_linked_congr {l : List N} (h : List.IsChain (Linked next prev) l)
    (hn : ∀ u ∈ l.dropLast, next' u = next u) (hp : ∀ v ∈ l.tail, prev' v = prev v) :
    List.IsChain (Linked next' prev') l := by
  induction l with
  | nil => exact .nil
  | cons u l ih =>
      cases l with
      | nil => exact .singleton u
      | cons v l =>
          rw [List.isChain_cons_cons] at h ⊢
          refine ⟨⟨?_, ?_⟩, ih h.2 (fun y hy => hn y ?_) (fun y hy => hp y ?_)⟩
          · rw [hn u (by simp)]; exact h.1.1
          · rw [hp v (by simp)]; exact h.1.2
          · rw [List.dropLast_cons_of_ne_nil (by simp)]
            exact List.mem_cons_of_mem _ hy
          · exact List.mem_cons_of_mem _ hy

theorem Ring.nodup {r : N} {l : List N} (h : Ring next prev r l) : l.Nodup :=
  (List.nodup_cons.mp h.1).2

theorem Ring.root_notMem {r : N} {l : List N} (h : Ring next prev r l) : r ∉ l :=
  (List.nodup_cons.mp h.1).1

/-- A ring only reads the link fields of its nodes. -/
theorem Ring.congr {r : N} {l : List N} (h : Ring next prev r l)
    (hn : ∀ u ∈ r :: l, next' u = next u) (hp : ∀ u ∈ r :: l, prev' u = prev u) :
    Ring next' prev' r l := by
  refine ⟨h.1, isChain_linked_congr h.2 (fun u hu => hn u ?_) (fun u hu => hp u ?_)⟩
  · rw [← List.cons_append, List.dropLast_concat] at hu
    exact hu
  · simp only [List.tail_cons, List.mem_append, List.mem_singleton] at hu
    rcases hu with hu | rfl
    · exact List.mem_cons_of_mem _ hu
    · exact List.mem_cons_self

/-- Around a ring, `next` walks from the root through the nodes and back to the root. -/
theorem Ring.path {r : N} {l : List N} (h : Ring next prev r l) :
    Path next (next r) l (some r) := by
  have key : ∀ (l : List N) (u : N), List.IsChain (Linked next prev) (u :: (l ++ [r])) →
      Path next (next u) l (some r) := by
    intro l
    induction l with
    | nil => intro u hu; exact (List.isChain_cons_cons.mp hu).1.1
    | cons v l ih =>
        intro u hu
        obtain ⟨huv, hv⟩ := List.isChain_cons_cons.mp hu
        exact ⟨huv.1, ih v hv⟩
  exact key l r h.2

/-- In a chain with fixed ends every element but the last has a successor, every element but the
first a predecessor. -/
private theorem isChain_exists {R : N → N → Prop} {a b : N} {m : List N}
    (h : List.IsChain R (a :: (m ++ [b]))) :
    (∀ u ∈ a :: m, ∃ v, R u v) ∧ ∀ v ∈ m ++ [b], ∃ u, R u v := by
  induction m generalizing a with
  | nil =>
      have hab : R a b := (List.isChain_cons_cons.mp h).1
      exact ⟨by simpa using ⟨b, hab⟩, by simpa using ⟨a, hab⟩⟩
  | cons c m ih =>
      obtain ⟨hac, hrest⟩ := List.isChain_cons_cons.mp h
      obtain ⟨hs, hp⟩ := ih hrest
      refine ⟨fun u hu => ?_, fun v hv => ?_⟩
      · rcases List.mem_cons.mp hu with rfl | hu
        · exact ⟨c, hac⟩
        · exact hs u hu
      · rcases List.mem_cons.mp hv with rfl | hv
        · exact ⟨a, hac⟩
        · exact hp v hv

/-- On the nodes of a ring, `next` and `prev` are inverse to each other. -/
theorem Ring.next_eq_iff {r : N} {l : List N} (h : Ring next prev r l) {u v : N}
    (hu : u ∈ r :: l) (hv : v ∈ r :: l) : next u = some v ↔ prev v = some u := by
  obtain ⟨hs, hp⟩ := isChain_exists h.2
  constructor
  · intro hn
    obtain ⟨w, hw⟩ := hs u hu
    obtain rfl : w = v := Option.some.inj (hw.1.symm.trans hn)
    exact hw.2
  · intro hn
    obtain ⟨w, hw⟩ := hp v (by simpa [or_comm] using hv)
    obtain rfl : w = u := Option.some.inj (hw.2.symm.trans hn)
    exact hw.1

/-- The first node of a ring, or the root itself. -/
theorem Ring.next_root {r : N} {l : List N} (h : Ring next prev r l) :
    next r = some (l.headD r) := by
  cases l with
  | nil => exact h.path
  | cons x l => exact h.path.1

/-- The circle `r, A, x, B, r` opened at a place: what comes before ends with a predecessor,
what comes after starts with a successor. -/
private theorem exists_concat (r : N) (A : List N) : ∃ P a, r :: A = P ++ [a] := by
  rcases List.eq_nil_or_concat (r :: A) with h | ⟨P, a, h⟩
  · cases h
  · exact ⟨P, a, by rw [h, List.concat_eq_append]⟩

private theorem append_root_eq (B : List N) (r : N) : ∃ S, B ++ [r] = B.headD r :: S := by
  cases B with
  | nil => exact ⟨[], rfl⟩
  | cons b B => exact ⟨B ++ [r], rfl⟩

/-- The two arcs of a ring cut before the nodes `B`: edits that change `next` of the last node
`a` of the first arc and `prev` of the first node `b` of the second arc only, keep both. -/
private theorem Ring.arcs {r a : N} {A B P : List N} (hnd : (r :: (A ++ B)).Nodup)
    (hP : r :: A = P ++ [a])
    (h1 : List.IsChain (Linked next prev) (r :: A))
    (h2 : List.IsChain (Linked next prev) (B ++ [r]))
    (hn : ∀ u ∈ r :: (A ++ B), u ≠ a → next' u = next u)
    (hp : ∀ v ∈ r :: (A ++ B), v ≠ B.headD r → prev' v = prev v) :
    List.IsChain (Linked next' prev') (r :: A) ∧
      List.IsChain (Linked next' prev') (B ++ [r]) := by
  have hnd' : (P ++ [a] ++ B).Nodup := by rw [← hP]; exact hnd
  obtain ⟨hPa, hBnd, hdisj⟩ := List.nodup_append.mp hnd'
  have haP : a ∉ P := fun h => (List.nodup_append.mp hPa).2.2 a h a (by simp) rfl
  have hrA : r ∉ A := fun h => (List.nodup_cons.mp hnd).1 (List.mem_append_left _ h)
  have hrB : r ∉ B := fun h => (List.nodup_cons.mp hnd).1 (List.mem_append_right _ h)
  constructor
  · refine isChain_linked_congr h1 (fun u hu => hn u ?_ ?_) (fun v hv => hp v ?_ ?_)
    · have : u ∈ r :: A := List.mem_of_mem_dropLast hu
      simp only [List.mem_cons, List.mem_append] at this ⊢
      tauto
    · rintro rfl
      rw [hP, List.dropLast_concat] at hu
      exact haP hu
    · exact List.mem_cons_of_mem _ (List.mem_append_left _ hv)
    · rintro rfl
      cases B with
      | nil => exact hrA hv
      | cons b B =>
          refine hdisj b ?_ b List.mem_cons_self rfl
          rw [← hP]
          exact List.mem_cons_of_mem _ hv
  · refine isChain_linked_congr h2 (fun u hu => hn u ?_ ?_) (fun v hv => hp v ?_ ?_)
    · rw [List.dropLast_concat] at hu
      exact List.mem_cons_of_mem _ (List.mem_append_right _ hu)
    · rintro rfl
      rw [List.dropLast_concat] at hu
      exact hdisj u (by simp) u hu rfl
    · have : v ∈ B ++ [r] := List.mem_of_mem_tail hv
      simp only [List.mem_cons, List.mem_append, List.not_mem_nil, or_false] at this ⊢
      tauto
    · cases B with
      | nil => simp at hv
      | cons b B =>
          rintro rfl
          simp only [List.cons_append, List.tail_cons, List.mem_append,
            List.mem_singleton] at hv
          rcases hv with hv | hv
          · exact (List.nodup_cons.mp hBnd).1 hv
          · exact hrB (hv ▸ List.mem_cons_self)

/-- **Unlinking a node.** With `a` and `b` the neighbours of `x`, the links of `a` to `b` are
all that has to change for `x` to leave the ring. -/
theorem Ring.unlink {r x : N} {A B : List N} (h : Ring next prev r (A ++ x :: B)) :
    ∃ a b, prev x = some a ∧ next x = some b ∧ a ∈ r :: (A ++ B) ∧ b ∈ r :: (A ++ B) ∧
      ∀ next' prev' : N → Option N, next' a = some b → prev' b = some a →
        (∀ u ∈ r :: (A ++ B), u ≠ a → next' u = next u) →
        (∀ v ∈ r :: (A ++ B), v ≠ b → prev' v = prev v) → Ring next' prev' r (A ++ B) := by
  obtain ⟨P, a, hP⟩ := exists_concat r A
  obtain ⟨S, hS⟩ := append_root_eq B r
  obtain ⟨hnd, hch⟩ := h
  have hcut : r :: ((A ++ x :: B) ++ [r]) = P ++ a :: x :: B.headD r :: S := by
    rw [List.append_assoc, ← List.cons_append, hP, List.cons_append, hS]
    simp
  rw [hcut, List.isChain_append_cons_cons, List.isChain_cons_cons, ← hP, ← hS] at hch
  obtain ⟨h1, hax, hxb, h2⟩ := hch
  have hnd' : (r :: (A ++ B)).Nodup :=
    hnd.sublist (List.cons_sublist_cons.mpr
      (List.Sublist.append (List.Sublist.refl A) (List.sublist_cons_self x B)))
  have ha : a ∈ r :: A := by rw [hP]; simp
  refine ⟨a, B.headD r, hax.2, hxb.1, ?_, ?_, fun next' prev' hn hp hnu hpv => ⟨hnd', ?_⟩⟩
  · simp only [List.mem_cons, List.mem_append] at ha ⊢
    tauto
  · cases B <;> simp
  · obtain ⟨g1, g2⟩ := Ring.arcs hnd' hP h1 h2 hnu hpv
    have hjoin : r :: ((A ++ B) ++ [r]) = P ++ a :: B.headD r :: S := by
      rw [List.append_assoc, ← List.cons_append, hP, hS]
      simp
    rw [hjoin, List.isChain_append_cons_cons, ← hP, ← hS]
    exact ⟨g1, ⟨hn, hp⟩, g2⟩

/-- **Linking a node in.** A new node `x` enters the ring in front of the nodes `B` (of the root,
if there are none) when it is linked between the first of them and its predecessor `a`. -/
theorem Ring.link {r x : N} {A B : List N} (h : Ring next prev r (A ++ B))
    (hx : x ∉ r :: (A ++ B)) :
    ∃ a, prev (B.headD r) = some a ∧ a ∈ r :: (A ++ B) ∧
      ∀ next' prev' : N → Option N, next' a = some x → prev' x = some a →
        next' x = some (B.headD r) → prev' (B.headD r) = some x →
        (∀ u ∈ r :: (A ++ B), u ≠ a → next' u = next u) →
        (∀ v ∈ r :: (A ++ B), v ≠ B.headD r → prev' v = prev v) →
        Ring next' prev' r (A ++ x :: B) := by
  obtain ⟨P, a, hP⟩ := exists_concat r A
  obtain ⟨S, hS⟩ := append_root_eq B r
  obtain ⟨hnd, hch⟩ := h
  have hcut : r :: ((A ++ B) ++ [r]) = P ++ a :: B.headD r :: S := by
    rw [List.append_assoc, ← List.cons_append, hP, hS]
    simp
  rw [hcut, List.isChain_append_cons_cons, ← hP, ← hS] at hch
  obtain ⟨h1, hab, h2⟩ := hch
  have ha : a ∈ r :: A := by rw [hP]; simp
  refine ⟨a, hab.2, ?_, fun next' prev' hax hxa hxb hbx hnu hpv => ⟨?_, ?_⟩⟩
  · simp only [List.mem_cons, List.mem_append] at ha ⊢
    tauto
  · have : (r :: (A ++ x :: B)).Perm (x :: r :: (A ++ B)) := by
      rw [← List.cons_append, ← List.cons_append]
      exact List.perm_middle
    exact this.nodup_iff.mpr (List.nodup_cons.mpr ⟨hx, hnd⟩)
  · obtain ⟨g1, g2⟩ := Ring.arcs hnd hP h1 h2 hnu hpv
    have hjoin : r :: ((A ++ x :: B) ++ [r]) = P ++ a :: x :: B.headD r :: S := by
      rw [List.append_assoc, ← List.cons_append, hP, List.cons_append, hS]
      simp
    rw [hjoin, List.isChain_append_cons_cons, List.isChain_cons_cons, ← hP, ← hS]
    exact ⟨g1, ⟨hax, hxa⟩, ⟨hxb, hbx⟩, g2⟩

/-- The empty ring: the root is linked to itself. -/
theorem ring_nil_iff {r : N} : Ring next prev r [] ↔ next r = some r ∧ prev r = some r := by
  simp [Ring, Linked]

end Gpsdo
