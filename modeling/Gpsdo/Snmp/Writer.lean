import Gpsdo.Basic.Ber
import Gpsdo.Net.Udp

set_option autoImplicit false

/-! # Writing SNMP responses (`lib/snmp/util.cpp`)

A writer is given the place to write to, and returns how many bytes it has written there. The
lengths are those of objects, so they are not negative.
-/

namespace Gpsdo.Snmp

open Net

/-- The first bytes of a response that reports success. -/
def RESP_HEAD : List Byte :=
  [0x02, 0x01, 0x00, 0x04, 0x06, 0x73, 0x74, 0x61, 0x74, 0x75, 0x73, 0xA2]

/-- The status of a response that reports success. -/
def RESP_ERR : List Byte := [0x02, 0x01, 0x00, 0x02, 0x01, 0x00]

/-- `lengthSize` -/
def lengthSize (len : ℕ) : ℕ :=
  if len < 128 then 1
  else if len < 1 <<< 8 then 2
  else if len < 1 <<< 16 then 3
  else if len < 1 <<< 24 then 4
  else 5

/-- `lengthBytes` -/
def lengthBytes (len : ℕ) : ℕ := 1 + lengthSize len + len

/-- `lengthInteger` -/
def lengthInteger (size : ℕ) : ℕ := 2 + size

/-- The bytes that `writeLength` writes. -/
def lengthField (len : ℕ) : List Byte :=
  let byte (shift : ℕ) : Byte := BitVec.ofNat 8 (len >>> shift)
  if len < 128 then [byte 0]
  else if len < 1 <<< 8 then [0x81, byte 0]
  else if len < 1 <<< 16 then [0x82, byte 8, byte 0]
  else if len < 1 <<< 24 then [0x83, byte 16, byte 8, byte 0]
  else [0x84, byte 24, byte 16, byte 8, byte 0]

/-- `writeLength` -/
def writeLength (m : Mem Byte) (dst len : ℕ) : Mem Byte × ℕ :=
  (m.store dst (lengthField len), (lengthField len).length)

/-- `writeBytes` -/
def writeBytes (m : Mem Byte) (dst : ℕ) (value : List Byte) : Mem Byte × ℕ :=
  let ptr := dst
  let m := m.store ptr [0x04]
  let ptr := ptr + 1
  let (m, n) := writeLength m ptr value.length
  let ptr := ptr + n
  (m.store ptr value, value.length + (ptr - dst))

/-- The loop of `writeInteger`, which copies the first `n` bytes from the last one on. -/
def writeReversed (m : Mem Byte) (ptr : ℕ) (value : List Byte) : ℕ → Mem Byte × ℕ
  | 0 => (m, ptr)
  | n + 1 => writeReversed (m.store ptr [value.getD n 0]) (ptr + 1) value n

/-- `writeInteger`, for the bytes of a number as they lie in memory. -/
def writeInteger (m : Mem Byte) (dst : ℕ) (value : List Byte) : Mem Byte × ℕ :=
  let ptr := dst
  let m := m.store ptr [0x02]
  let ptr := ptr + 1
  let m := m.store ptr [BitVec.ofNat 8 value.length]
  let ptr := ptr + 1
  let (m, ptr) := writeReversed m ptr value value.length
  (m, ptr - dst)

/-- `writeValueBytes` -/
def writeValueBytes (m : Mem Byte) (dst : ℕ) (prefOID : List Byte) (oid : Byte)
    (value : List Byte) : Mem Byte × ℕ :=
  let base := dst + 1 + lengthSize (lengthBytes value.length)
  let ptr := base
  let m := m.store ptr prefOID
  let ptr := ptr + prefOID.length
  let m := m.store ptr [oid]
  let ptr := ptr + 1
  let (m, n) := writeBytes m ptr value
  let ptr := ptr + n
  let m := m.store dst [0x30]
  let (m, _) := writeLength m (dst + 1) (ptr - base)
  (m, ptr - dst)

/-- `wrapVars` -/
def wrapVars (m : Mem Byte) (reqId : BitVec 32) (dst : ℕ) (vars : List Byte) : Mem Byte × ℕ :=
  let tlen := vars.length
  let tlen := tlen + (1 + lengthSize vars.length)
  let tlen := tlen + RESP_ERR.length
  let tlen := tlen + lengthInteger 4
  let rlen := tlen
  let tlen := tlen + lengthSize tlen
  let tlen := tlen + RESP_HEAD.length
  let ptr := dst
  let m := m.store ptr [0x30]
  let ptr := ptr + 1
  let (m, n) := writeLength m ptr tlen
  let ptr := ptr + n
  let m := m.store ptr RESP_HEAD
  let ptr := ptr + RESP_HEAD.length
  let (m, n) := writeLength m ptr rlen
  let ptr := ptr + n
  let (m, n) := writeInteger m ptr (le32 reqId)
  let ptr := ptr + n
  let m := m.store ptr RESP_ERR
  let ptr := ptr + RESP_ERR.length
  -- the variables
  let m := m.store ptr [0x30]
  let ptr := ptr + 1
  let (m, n) := writeLength m ptr vars.length
  let ptr := ptr + n
  let m := m.store ptr vars
  let ptr := ptr + vars.length
  (m, ptr - dst)

/-! ## What is written -/

variable (m : Mem Byte) (dst : ℕ)

theorem length_lengthField (len : ℕ) : (lengthField len).length = lengthSize len := by
  unfold lengthField lengthSize
  dsimp only
  split_ifs <;> rfl

theorem toNat_byte (len shift : ℕ) :
    (BitVec.ofNat 8 (len >>> shift)).toNat = len / 2 ^ shift % 256 := by
  rw [BitVec.toNat_ofNat, Nat.shiftRight_eq_div_pow]

/-- **The length field** has the value that it was written for. -/
theorem lengthField_spec {len : ℕ} (h : len < 2 ^ 32) : Ber.LengthField (lengthField len) len := by
  have hlong : ∀ {head : Byte} {l : List Byte}, l ≠ [] → head.toNat = 128 + l.length →
      l.length < 127 → Ber.beValue l = len → Ber.LengthField (head :: l) len := by
    intro head l hl hhead hlt hvalue
    rw [← hvalue]
    exact Ber.LengthField.long hl hhead hlt
  unfold lengthField
  dsimp only
  split_ifs with h1 h2 h3 h4
  · have hvalue : (BitVec.ofNat 8 (len >>> 0)).toNat = len := by
      rw [toNat_byte]
      omega
    conv => rhs; rw [← hvalue]
    exact Ber.LengthField.short (by omega)
  all_goals
    refine hlong (List.cons_ne_nil _ _) rfl (by simp) ?_
    simp only [Ber.beValue, List.foldl_cons, List.foldl_nil, toNat_byte]
    omega

theorem writeReversed_eq (value : List Byte) {n : ℕ} (h : n ≤ value.length) :
    writeReversed m dst value n = (m.store dst (value.take n).reverse, dst + n) := by
  induction n generalizing m dst with
  | zero =>
      rw [List.take_zero, List.reverse_nil]
      exact Prod.ext (Mem.store_nil m dst).symm rfl
  | succ n ih =>
      have hlast : (value.take (n + 1)).reverse = [value.getD n 0] ++ (value.take n).reverse := by
        rw [List.take_succ_eq_append_getElem (by omega), List.reverse_append, List.reverse_singleton,
          List.getD_eq_getElem?_getD, List.getElem?_eq_getElem (by omega), Option.getD_some]
      rw [writeReversed, ih _ _ (by omega), hlast, ← Mem.store_append]
      exact Prod.ext rfl (by dsimp only; omega)

/-- The bytes of an INTEGER. -/
theorem writeInteger_eq (value : List Byte) :
    writeInteger m dst value = (m.store dst ([0x02, BitVec.ofNat 8 value.length] ++ value.reverse),
      lengthInteger value.length) := by
  unfold writeInteger lengthInteger
  dsimp only
  rw [writeReversed_eq _ _ value (le_refl _), List.take_length, ← Mem.store_append]
  refine Prod.ext ?_ (by dsimp only; omega)
  exact congrArg (fun c => Mem.store c (dst + 2) value.reverse) (Mem.store_append m dst [0x02] [_])

/-- The element that a tag, `writeLength` and the contents make. -/
def tlv (tag : Byte) (content : List Byte) : List Byte :=
  [tag] ++ (lengthField content.length ++ content)

theorem tlv_isTlv {tag : Byte} {content : List Byte} (h : content.length < 2 ^ 32) :
    Ber.IsTlv tag content (tlv tag content) :=
  ⟨_, lengthField_spec h, rfl⟩

@[simp] theorem length_tlv (tag : Byte) (content : List Byte) :
    (tlv tag content).length = lengthBytes content.length := by
  rw [tlv, List.length_append, List.length_append, length_lengthField, List.length_singleton,
    lengthBytes, Nat.add_assoc]

theorem writeBytes_eq (value : List Byte) :
    writeBytes m dst value = (m.store dst (tlv 0x04 value), lengthBytes value.length) := by
  unfold writeBytes writeLength lengthBytes tlv
  dsimp only
  rw [← Mem.store_append, ← Mem.store_append, ← length_lengthField]
  exact Prod.ext rfl (by dsimp only; omega)

end Gpsdo.Snmp
