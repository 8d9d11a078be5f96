import Gpsdo.Basic.CObject

set_option autoImplicit false

/-! # Tests of a memory that is known in part

`Known` says what is known of a memory, address by address. A test looks at some addresses with a
predicate for each. Its result is the same for all memories that fit what is known if and only if it
is refuted by a known element, or all that it looks at is known and passes.
-/

namespace Gpsdo

variable {α : Type*}

/-- What is known of a memory. -/
abbrev Known (α : Type*) := ℕ → Option α

/-- A test: addresses, and what has to hold of the element at each. -/
abbrev Probes (α : Type*) := List (ℕ × (α → Bool))

namespace Known

variable {known : Known α} {probes : Probes α} {m m' : Mem α} {f : ℕ → α}

/-- The memory has what is known. -/
def Fits (known : Known α) (m : Mem α) : Prop := ∀ i, ∀ v ∈ known i, m i = v

/-- What is known, with the rest filled up. -/
def complete (known : Known α) (f : ℕ → α) : Mem α := fun i => (known i).getD (f i)

theorem fits_complete (known : Known α) (f : ℕ → α) : known.Fits (known.complete f) := by
  intro i v hv
  unfold complete
  rw [Option.mem_def.mp hv, Option.getD_some]

/-- The memory passes the test. -/
def passes (probes : Probes α) (m : Mem α) : Bool := probes.all fun p => p.2 (m p.1)

/-- Something that is known fails the test. -/
def Refuted (known : Known α) (probes : Probes α) : Prop :=
  ∃ p ∈ probes, ∃ v ∈ known p.1, p.2 v = false

/-- All that the test looks at is known and passes. -/
def Confirmed (known : Known α) (probes : Probes α) : Prop :=
  ∀ p ∈ probes, ∃ v ∈ known p.1, p.2 v = true

instance : Decidable (known.Refuted probes) :=
  inferInstanceAs (Decidable (∃ p ∈ probes, ∃ v ∈ known p.1, p.2 v = false))

instance : Decidable (known.Confirmed probes) :=
  inferInstanceAs (Decidable (∀ p ∈ probes, ∃ v ∈ known p.1, p.2 v = true))

theorem Confirmed.passes (h : known.Confirmed probes) (hm : known.Fits m) :
    passes probes m = true := by
  refine List.all_eq_true.mpr fun p hp => ?_
  obtain ⟨v, hv, hpass⟩ := h p hp
  rw [hm p.1 v hv]
  exact hpass

theorem Refuted.passes (h : known.Refuted probes) (hm : known.Fits m) :
    passes probes m = false := by
  obtain ⟨p, hp, v, hv, hfail⟩ := h
  refine List.all_eq_false.mpr ⟨p, hp, ?_⟩
  rw [hm p.1 v hv, hfail]
  decide

/-- What is not refuted passes when the rest is filled up rightly. -/
theorem passes_complete (h : ¬ known.Refuted probes) (hf : ∀ p ∈ probes, p.2 (f p.1) = true) :
    passes probes (known.complete f) = true := by
  refine List.all_eq_true.mpr fun p hp => ?_
  unfold complete
  cases hv : known p.1 with
  | none => exact hf p hp
  | some v =>
      by_contra hfail
      exact h ⟨p, hp, v, hv, eq_false_of_ne_true hfail⟩

/-- What is not confirmed fails when the rest is filled up wrongly. -/
theorem not_passes_complete (h : ¬ known.Confirmed probes)
    (hf : ∀ p ∈ probes, p.2 (f p.1) = false) : passes probes (known.complete f) = false := by
  unfold Confirmed at h
  push Not at h
  obtain ⟨p, hp, hfail⟩ := h
  refine List.all_eq_false.mpr ⟨p, hp, ?_⟩
  unfold complete
  cases hv : known p.1 with
  | none =>
      rw [Option.getD_none, hf p hp]
      decide
  | some v => exact hfail v hv

/-- **A test that is settled** has one result. -/
theorem passes_congr (h : known.Refuted probes ∨ known.Confirmed probes) (hm : known.Fits m)
    (hm' : known.Fits m') : passes probes m = passes probes m' := by
  rcases h with h | h
  · rw [h.passes hm, h.passes hm']
  · rw [h.passes hm, h.passes hm']

end Known

end Gpsdo
