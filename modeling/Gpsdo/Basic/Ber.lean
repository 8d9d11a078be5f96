import Mathlib.Tactic

set_option autoImplicit false

/-! # Elements of BER

An element is a tag, the length of its contents and the contents. The length is of a definite form:
of one byte below `0x80`, or of a byte that says how many bytes follow, which are a number with its
most significant byte first. A length need not be the shortest possible.
-/

namespace Gpsdo

namespace Ber

/-- The number with the given bytes, the most significant first. -/
def beValue (l : List (BitVec 8)) : ℕ := l.foldl (fun n b => 256 * n + b.toNat) 0

/-- A length field of definite form, and its value. -/
inductive LengthField : List (BitVec 8) → ℕ → Prop
  | short {b : BitVec 8} (h : b.toNat < 128) : LengthField [b] b.toNat
  | long {head : BitVec 8} {l : List (BitVec 8)} (hl : l ≠ [])
      (hhead : head.toNat = 128 + l.length) (h : l.length < 127) :
      LengthField (head :: l) (beValue l)

/-- An element with a tag and contents. -/
def IsTlv (tag : BitVec 8) (content bytes : List (BitVec 8)) : Prop :=
  ∃ field, LengthField field content.length ∧ bytes = tag :: (field ++ content)

variable {head tag : BitVec 8} {l l' content bytes : List (BitVec 8)} {n n' : ℕ}

theorem LengthField.ne_nil (h : LengthField l n) : l ≠ [] := by
  cases h <;> exact List.cons_ne_nil _ _

/-- **The first byte** of a length field tells how long it is. -/
theorem LengthField.length_eq (h : LengthField (head :: l) n) (h' : LengthField (head :: l') n') :
    l.length = l'.length := by
  cases h with
  | short hb =>
      cases h' with
      | short _ => rfl
      | long _ hhead _ => omega
  | long _ hhead _ =>
      cases h' with
      | short hb => omega
      | long _ hhead' _ => omega

end Ber

end Gpsdo
