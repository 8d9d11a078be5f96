import Mathlib.Data.List.Basic

set_option autoImplicit false

/-! # Computations that record what they read

A result together with the addresses that were read for it, or with the divisors of its quotients.
`Within P` says that all of these meet `P`; it is computed along the binds of a computation.
-/

namespace Gpsdo

/-- A result, and the addresses that were read for it, in their order. -/
structure Reading (ι α : Type) where
  val : α
  reads : List ι
  deriving DecidableEq, Repr

namespace Reading

variable {ι α β : Type} {P : ι → Prop}

instance : Monad (Reading ι) where
  pure a := ⟨a, []⟩
  bind x f := ⟨(f x.val).val, x.reads ++ (f x.val).reads⟩

/-- An element of a memory is read. -/
def load (m : ι → α) (i : ι) : Reading ι α := ⟨m i, [i]⟩

/-- A quotient, for which the divisor is recorded. -/
def div [Div α] (a b : α) : Reading α α := ⟨a / b, [b]⟩

/-- All addresses that are read meet `P`. -/
def Within (P : ι → Prop) (x : Reading ι α) : Prop := ∀ i ∈ x.reads, P i

@[simp] theorem val_pure (a : α) : (pure a : Reading ι α).val = a := rfl

@[simp] theorem val_bind (x : Reading ι α) (f : α → Reading ι β) :
    (x >>= f).val = (f x.val).val := rfl

@[simp] theorem val_load (m : ι → α) (i : ι) : (load m i).val = m i := rfl

@[simp] theorem val_div [Div α] (a b : α) : (div a b).val = a / b := rfl

@[simp] theorem within_pure (a : α) : (pure a : Reading ι α).Within P := by
  intro i hi
  cases hi

@[simp] theorem within_bind (x : Reading ι α) (f : α → Reading ι β) :
    (x >>= f).Within P ↔ x.Within P ∧ (f x.val).Within P := by
  show (∀ i ∈ x.reads ++ (f x.val).reads, P i) ↔ _
  simp only [List.mem_append, or_imp, forall_and]
  rfl

@[simp] theorem within_load (m : ι → α) (i : ι) : (load m i).Within P ↔ P i := by
  simp [Within, load]

@[simp] theorem within_div [Div ι] (a b : ι) : (div a b).Within P ↔ P b := by
  simp [Within, div]

end Reading

end Gpsdo
