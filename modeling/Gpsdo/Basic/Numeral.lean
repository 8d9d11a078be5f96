import Mathlib.Data.Nat.Cast.Defs

set_option autoImplicit false

/-! # Numerals

Numerals of the code as elements of a field. The proofs that they are at least two have names here,
so that a definition with a numeral is the same one in whatever module it stands.
-/

namespace Gpsdo.Numeral

scoped instance atLeastTwo_two : Nat.AtLeastTwo 2 := ⟨by decide⟩

scoped instance atLeastTwo_three : Nat.AtLeastTwo 3 := ⟨by decide⟩

scoped instance atLeastTwo_ten : Nat.AtLeastTwo 10 := ⟨by decide⟩

scoped instance atLeastTwo_hundred : Nat.AtLeastTwo 100 := ⟨by decide⟩

end Gpsdo.Numeral
