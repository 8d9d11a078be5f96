import Gpsdo.Basic.Ber
import Gpsdo.Snmp.Fields

set_option autoImplicit false

/-! # What `readInt32` makes of an INTEGER

The contents of an INTEGER are a number in two's complement. `readInt32` takes its sign from the
first byte or from the first two, and appends words of two bytes to it; this is the number for
contents of one to four bytes. It does not look at the length otherwise.
-/

namespace Gpsdo.Snmp

open Net

/-! ## Numbers in two's complement -/

/-- The number that the bytes of `c` stand for. -/
def twosComplement (c : List Byte) : ℤ :=
  if Ber.beValue c < 2 ^ (8 * c.length - 1) then Ber.beValue c
  else Ber.beValue c - 2 ^ (8 * c.length)

theorem toNat_word (a b : Byte) : (a ++ b).toNat = 256 * a.toNat + b.toNat := by
  have hb := b.isLt
  rw [BitVec.toNat_append, ← Nat.shiftLeft_add_eq_or_of_lt hb, Nat.shiftLeft_eq]
  omega

/-- A turn of the loop that appends words. -/
theorem toNat_appendWord (temp : BitVec 32) (a b : Byte) :
    (temp <<< 16 ||| (a ++ b).setWidth 32).toNat =
      temp.toNat % 65536 * 65536 + (256 * a.toNat + b.toNat) := by
  have ha := a.isLt
  have hb := b.isLt
  have hword : ((a ++ b).setWidth 32).toNat = 256 * a.toNat + b.toNat := by
    rw [BitVec.toNat_setWidth, toNat_word]
    omega
  have hmod : temp.toNat * 2 ^ 16 % 2 ^ 32 = temp.toNat % 65536 * 2 ^ 16 := by omega
  rw [BitVec.toNat_or, hword, BitVec.toNat_shiftLeft, Nat.shiftLeft_eq, hmod, ← Nat.shiftLeft_eq,
    ← Nat.shiftLeft_add_eq_or_of_lt (by omega), Nat.shiftLeft_eq]

theorem toNat_signExtend {w : ℕ} (x : BitVec w) :
    (x.signExtend 32).toNat = (x.toInt % 2 ^ 32).toNat := by
  rw [BitVec.signExtend, BitVec.toNat_ofInt]
  rfl

/-- **The number** is read from one to four bytes. -/
theorem integerValue_eq {c : List Byte} (hpos : 1 ≤ c.length) (hle : c.length ≤ 4) :
    integerValue c = BitVec.ofInt 32 (twosComplement c) := by
  apply BitVec.eq_of_toNat_eq
  rw [BitVec.toNat_ofInt]
  match c, hpos, hle with
  | [a], _, _ =>
      have ha := a.isLt
      have hvalue : integerValue [a] = a.signExtend 32 := rfl
      rw [hvalue, toNat_signExtend, BitVec.toInt_eq_toNat_cond]
      simp only [twosComplement, Ber.beValue, List.foldl_cons, List.foldl_nil, List.length_singleton]
      split_ifs <;> omega
  | [a, b], _, _ =>
      have ha := a.isLt
      have hb := b.isLt
      have hvalue : integerValue [a, b] = (a ++ b).signExtend 32 := by
        simp [integerValue, wordsValue]
      rw [hvalue, toNat_signExtend, BitVec.toInt_eq_toNat_cond, toNat_word]
      simp only [twosComplement, Ber.beValue, List.foldl_cons, List.foldl_nil, List.length_cons,
        List.length_nil]
      split_ifs <;> omega
  -- the sign is that of the first byte when their number is odd
  | [a, b, d], _, _ =>
      have ha := a.isLt
      have hb := b.isLt
      have hd := d.isLt
      have hvalue : integerValue [a, b, d] =
          a.signExtend 32 <<< 16 ||| (b ++ d).setWidth 32 := by
        simp [integerValue, wordsValue]
      rw [hvalue, toNat_appendWord, toNat_signExtend, BitVec.toInt_eq_toNat_cond]
      simp only [twosComplement, Ber.beValue, List.foldl_cons, List.foldl_nil, List.length_cons,
        List.length_nil]
      split_ifs <;> omega
  -- the sign of the first word is shifted out
  | [a, b, d, e], _, _ =>
      have ha := a.isLt
      have hb := b.isLt
      have hd := d.isLt
      have he := e.isLt
      have hvalue : integerValue [a, b, d, e] =
          (0#32 <<< 16 ||| (a ++ b).setWidth 32) <<< 16 ||| (d ++ e).setWidth 32 := by
        simp [integerValue, wordsValue]
      rw [hvalue, toNat_appendWord, toNat_appendWord]
      simp only [twosComplement, Ber.beValue, List.foldl_cons, List.foldl_nil, List.length_cons,
        List.length_nil, BitVec.toNat_ofNat]
      split_ifs <;> omega

/-! ## `readInt32` -/

/-- The bytes of a buffer in front of the limit. -/
def bytesBelow (data : ℤ → Byte) (dlen : ℤ) : List Byte :=
  (List.range dlen.toNat).map fun k : ℕ => data k

/-- The complete INTEGER at an offset: its contents, and where it ends. -/
def integerElement (data : ℤ → Byte) (offset dlen : ℤ) : Option (List Byte × ℤ) :=
  if 0 ≤ offset then
    (elementAt (bytesBelow data dlen) 0x02 offset.toNat).map fun p =>
      (((bytesBelow data dlen).drop p.2).take p.1, ((p.2 + p.1 : ℕ) : ℤ))
  else none

/-- What is expected of `readInt32`. -/
def int32At (data : ℤ → Byte) (offset dlen : ℤ) (result : BitVec 32) : ℤ × BitVec 32 :=
  match integerElement data offset dlen with
  | some (c, e) =>
      if 1 ≤ c.length ∧ c.length ≤ 4 then (e, BitVec.ofInt 32 (twosComplement c)) else (-1, result)
  | none => (-1, result)

variable {data : ℤ → Byte} {m : List Byte} {k n o : ℕ}

theorem length_bytesBelow (data : ℤ → Byte) (dlen : ℤ) :
    (bytesBelow data dlen).length = dlen.toNat := by
  rw [bytesBelow, List.length_map, List.length_range]

theorem holds_bytesBelow (data : ℤ → Byte) (dlen : ℤ) : Holds data (bytesBelow data dlen) := by
  intro k hk
  rw [length_bytesBelow] at hk
  rw [bytesBelow, List.getD_eq_getElem?_getD, List.getElem?_map, List.getElem?_range hk]
  rfl

/-- The end of an INTEGER is returned whatever its length is. -/
theorem readInt32_fst (hm : Holds data m) {z : ℤ} (hz : z = k) (result : BitVec 32)
    (h : elementAt m 0x02 k = some (n, o)) :
    (readInt32 data z m.length result).val.1 = ((o + n : ℕ) : ℤ) := by
  obtain ⟨⟨hk, htag⟩, hfield, hfits⟩ := elementAt_eq_some_iff.mp h
  have hnext : z + 1 = (k + 1 : ℕ) := by omega
  have hsign : (readSign data o n).val.2.1 + (readSign data o n).val.2.2 = (o : ℤ) + n := by
    unfold readSign
    split_ifs <;> simp only [Reading.val_bind, Reading.val_pure] <;> omega
  unfold readInt32
  rw [if_neg (by omega), if_neg (by omega)]
  simp only [Reading.val_bind, Reading.val_load, hm.load hz hk]
  rw [if_neg (not_not.mpr htag)]
  simp only [Reading.val_bind, readLength_some hm hnext 0 hfield]
  rw [if_neg (by omega)]
  simp only [Reading.val_bind, Reading.val_pure]
  rw [hsign]
  push_cast
  rfl

/-- There is nothing outside of the buffer. -/
theorem readInt32_outside (data : ℤ → Byte) {offset dlen : ℤ} (h : offset < 0 ∨ dlen ≤ offset)
    (result : BitVec 32) :
    (readInt32 data offset dlen result).val = (-1, result) ∧
      integerElement data offset dlen = none := by
  unfold readInt32 integerElement
  by_cases hneg : offset < 0
  · rw [if_pos hneg, if_neg (by omega)]
    exact ⟨rfl, rfl⟩
  · have hnone : elementAt (bytesBelow data dlen) 0x02 offset.toNat = none := by
      unfold elementAt
      rw [if_neg]
      rw [length_bytesBelow]
      omega
    rw [if_neg hneg, if_pos (by omega), if_pos (by omega), hnone]
    exact ⟨rfl, rfl⟩

/-- An INTEGER of one to four bytes is found. -/
theorem readInt32_short (hm : Holds data m) {z : ℤ} (hz : z = k) (result : BitVec 32)
    (h : elementAt m 0x02 k = some (n, o)) (hpos : 1 ≤ n) (hle : n ≤ 4) :
    (readInt32 data z m.length result).val =
      (((o + n : ℕ) : ℤ), BitVec.ofInt 32 (twosComplement ((m.drop o).take n))) := by
  have hlen : ((m.drop o).take n).length = n :=
    length_drop_take (elementAt_eq_some_iff.mp h).2.2
  have hat : integerAt m k = some (integerValue ((m.drop o).take n), o + n) := by
    unfold integerAt
    rw [h, Option.bind_some, if_neg (by omega), if_neg (by omega)]
  rw [readInt32_some hm hz result hat, integerValue_eq (by omega) (by omega)]

/-- **`readInt32` reads the INTEGER at the offset** unless this has no contents, or more than four
bytes of them. -/
theorem readInt32_iff (data : ℤ → Byte) (offset dlen : ℤ) :
    (∀ result, (readInt32 data offset dlen result).val = int32At data offset dlen result) ↔
      ∀ c e, integerElement data offset dlen = some (c, e) → 1 ≤ c.length ∧ c.length ≤ 4 := by
  by_cases hout : offset < 0 ∨ dlen ≤ offset
  · constructor
    · intro _ c e helem
      rw [(readInt32_outside data hout 0).2] at helem
      cases helem
    · intro _ result
      obtain ⟨hval, hnone⟩ := readInt32_outside data hout result
      rw [hval, int32At, hnone]
  have hm := holds_bytesBelow data dlen
  have hlen : ((bytesBelow data dlen).length : ℤ) = dlen := by
    rw [length_bytesBelow]
    omega
  have hoffset : offset = (offset.toNat : ℤ) := by omega
  unfold int32At integerElement
  rw [if_pos (by omega)]
  cases helem : elementAt (bytesBelow data dlen) 0x02 offset.toNat with
  | none =>
      constructor
      · intro _ c e hce
        cases hce
      · intro _ result
        have hnone := readInt32_none hm hoffset result helem
        rwa [hlen] at hnone
  | some p =>
      obtain ⟨n, o⟩ := p
      have hcontent : (((bytesBelow data dlen).drop o).take n).length = n :=
        length_drop_take (elementAt_eq_some_iff.mp helem).2.2
      simp only [Option.map_some, hcontent, Option.some.injEq, Prod.mk.injEq]
      constructor
      · rintro h c e ⟨rfl, -⟩
        rw [hcontent]
        -- the end of the element is returned, which is not -1
        by_contra hlong
        have hfst := readInt32_fst hm hoffset 0 helem
        rw [hlen, h 0, if_neg hlong] at hfst
        omega
      · intro h result
        have hn := h _ _ ⟨rfl, rfl⟩
        rw [hcontent] at hn
        have hshort := readInt32_short hm hoffset result helem hn.1 hn.2
        rw [hlen] at hshort
        rw [if_pos hn, hshort]

/-- An INTEGER of five bytes, `01 00 00 00 2A`. -/
def fiveBytes (offset : ℤ) : Byte := [0x02, 0x05, 0x01, 0x00, 0x00, 0x00, 0x2A].getD offset.toNat 0

/-- It is read as 42, with its first byte dropped. -/
theorem readInt32_fiveBytes :
    ¬∀ (data : ℤ → Byte) (offset dlen : ℤ) (result : BitVec 32),
      (readInt32 data offset dlen result).val = int32At data offset dlen result := by
  intro h
  have hread : (readInt32 fiveBytes 0 7 0).val = (7, 42) := by decide
  have hexpected : int32At fiveBytes 0 7 0 = (-1, 0) := by decide
  have heq := h fiveBytes 0 7 0
  rw [hread, hexpected] at heq
  exact absurd heq (by decide)

end Gpsdo.Snmp
