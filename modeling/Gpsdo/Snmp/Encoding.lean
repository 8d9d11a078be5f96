import Gpsdo.Snmp.Integers
import Gpsdo.Snmp.Writer

set_option autoImplicit false

/-! # Responses of SNMP are elements of BER

`wrapVars` computes the lengths of the elements of a response before it writes them, and they are
the lengths of what it writes. `writeValueBytes` leaves room for the length of a variable before it
knows it; the room is right when the length of the value alone needs as much.
-/

namespace Gpsdo.Snmp

open Net

/-! ## `writeValueBytes` -/

/-- The element of a variable: its OID, and an octet string. -/
def IsVariable (prefOID : List Byte) (oid : Byte) (value bytes : List Byte) : Prop :=
  ∃ string, Ber.IsTlv 0x04 value string ∧ Ber.IsTlv 0x30 (prefOID ++ [oid] ++ string) bytes

/-- What `writeValueBytes` writes behind the length that it leaves room for. -/
def varContent (prefOID : List Byte) (oid : Byte) (value : List Byte) : List Byte :=
  prefOID ++ [oid] ++ tlv 0x04 value

variable {m : Mem Byte} {dst : ℕ} {prefOID value : List Byte} {oid : Byte}

theorem length_varContent (prefOID : List Byte) (oid : Byte) (value : List Byte) :
    (varContent prefOID oid value).length = prefOID.length + 1 + lengthBytes value.length := by
  rw [varContent, List.length_append, List.length_append, List.length_singleton, length_tlv]

/-- The contents are written first, then the tag and the length. -/
theorem writeValueBytes_eq (m : Mem Byte) (dst : ℕ) (prefOID : List Byte) (oid : Byte)
    (value : List Byte) :
    writeValueBytes m dst prefOID oid value =
      (((m.store (dst + 1 + lengthSize (lengthBytes value.length))
          (varContent prefOID oid value)).store dst [0x30]).store (dst + 1)
            (lengthField (varContent prefOID oid value).length),
        1 + lengthSize (lengthBytes value.length) + (varContent prefOID oid value).length) := by
  have hlen := length_varContent prefOID oid value
  have hcontent : ∀ base, ((m.store base prefOID).store (base + prefOID.length) [oid]).store
      (base + prefOID.length + 1) (tlv 0x04 value) =
        m.store base (varContent prefOID oid value) := by
    intro base
    rw [varContent, ← Mem.store_append, ← Mem.store_append, List.length_append,
      List.length_singleton, Nat.add_assoc]
  unfold writeValueBytes writeLength
  dsimp only
  rw [writeBytes_eq]
  dsimp only
  rw [hcontent, hlen]
  refine Prod.ext ?_ ?_
  · dsimp only
    congr 2
    omega
  · dsimp only
    omega

theorem lengthSize_mono : Monotone lengthSize := by
  intro a b hab
  unfold lengthSize
  split_ifs <;> omega

theorem lengthSize_le_two {n : ℕ} (h : n < 256) : lengthSize n ≤ 2 := by
  unfold lengthSize
  split_ifs <;> omega

theorem lengthSize_le_three {n : ℕ} (h : n < 65536) : lengthSize n ≤ 3 := by
  unfold lengthSize
  split_ifs <;> omega

/-- A length field of `writeLength` is the shortest one. -/
theorem lengthSize_le {field : List Byte} {n : ℕ} (h : Ber.LengthField field n) (hn : n < 65536) :
    lengthSize n ≤ field.length := by
  cases h with
  | short hb => exact (if_pos hb).le
  | @long head l hl hhead hlt =>
      match l, hl with
      | [b], _ =>
          refine lengthSize_le_two ?_
          have hb := b.isLt
          simp only [Ber.beValue, List.foldl_cons, List.foldl_nil]
          omega
      | _ :: _ :: l, _ =>
          refine (lengthSize_le_three hn).trans ?_
          simp only [List.length_cons]
          omega

/-- The element of a variable is written where its length field fits. -/
theorem writeValueBytes_fits
    (hfits : lengthSize (lengthBytes value.length) =
      lengthSize (varContent prefOID oid value).length) :
    writeValueBytes m dst prefOID oid value =
      (m.store dst (tlv 0x30 (varContent prefOID oid value)),
        (tlv 0x30 (varContent prefOID oid value)).length) := by
  rw [writeValueBytes_eq, hfits, length_tlv, lengthBytes, tlv, ← length_lengthField]
  refine Prod.ext ?_ rfl
  dsimp only
  rw [Mem.store_comm m (l := [0x30]) (by rw [List.length_singleton]; omega), Mem.store_prepend]
  exact Mem.store_append m dst [0x30] _

/-- A length field that is wider than its room is not where it is expected. -/
theorem fits_of_written {bytes : List Byte}
    (hsize : (varContent prefOID oid value).length < 65536)
    (hvar : IsVariable prefOID oid value bytes)
    (hwrite : writeValueBytes m dst prefOID oid value = (m.store dst bytes, bytes.length)) :
    lengthSize (lengthBytes value.length) = lengthSize (varContent prefOID oid value).length := by
  obtain ⟨string, ⟨inner, hinner, rfl⟩, outer, houter, rfl⟩ := hvar
  have hcontent := length_varContent prefOID oid value
  have hbytes : lengthBytes value.length = 1 + lengthSize value.length + value.length := rfl
  rw [writeValueBytes_eq] at hwrite
  obtain ⟨hmem, hlen⟩ := Prod.mk.inj hwrite
  -- the widths of the two length fields add up to the two that are computed
  have hwidths : outer.length + inner.length =
      lengthSize (lengthBytes value.length) + lengthSize value.length := by
    rw [hcontent] at hlen
    simp only [List.length_append, List.length_cons, List.length_nil] at hlen
    omega
  -- the first byte of the outer field is the one that was written
  have hhead : ∀ a l, outer = a :: l → ∀ b l', lengthField (varContent prefOID oid value).length =
      b :: l' → a = b := by
    intro a l ha b l' hb
    have hat := congrFun hmem (dst + 1)
    rw [hb, Mem.store_cons_self, ha, List.cons_append, ← List.singleton_append,
      ← Mem.store_append] at hat
    exact (hat.trans (Mem.store_cons_self _ _ _ _)).symm
  -- and the width of a length field shows in its first byte
  have hsame : outer.length = lengthSize (varContent prefOID oid value).length := by
    have hfield := lengthField_spec (show (varContent prefOID oid value).length < 2 ^ 32 by omega)
    rw [← length_lengthField]
    cases hw : lengthField (varContent prefOID oid value).length with
    | nil => exact absurd hw hfield.ne_nil
    | cons b l' =>
        cases outer with
        | nil => exact absurd rfl houter.ne_nil
        | cons a l =>
            obtain rfl := hhead a l rfl b l' hw
            rw [hw] at hfield
            rw [List.length_cons, List.length_cons, houter.length_eq hfield]
  have hinner := lengthSize_le hinner (by omega)
  have hmono : lengthSize (lengthBytes value.length) ≤
      lengthSize (varContent prefOID oid value).length := lengthSize_mono (by omega)
  omega

/-- The width of a length field changes at 128 and at 256. -/
theorem lengthSize_eq_iff {a b : ℕ} (hab : a ≤ b) (hb : b < 65536) :
    lengthSize a = lengthSize b ↔ (b < 128 ∨ 128 ≤ a) ∧ (b < 256 ∨ 256 ≤ a) := by
  unfold lengthSize
  split_ifs <;> omega

/-- **`writeValueBytes` writes one variable** when the length of the value's element and the length
of the whole contents lie on the same side of 128, and of 256. Otherwise the length is wider than
the room that was left for it. -/
theorem writeValueBytes_iff (m : Mem Byte) (dst : ℕ) (prefOID : List Byte) (oid : Byte)
    (value : List Byte)
    (hsize : lengthBytes (prefOID.length + 1 + lengthBytes value.length) < 65536) :
    (∃ bytes, IsVariable prefOID oid value bytes ∧
      writeValueBytes m dst prefOID oid value = (m.store dst bytes, bytes.length)) ↔
      (prefOID.length + 1 + lengthBytes value.length < 128 ∨ 128 ≤ lengthBytes value.length) ∧
        (prefOID.length + 1 + lengthBytes value.length < 256 ∨ 256 ≤ lengthBytes value.length) := by
  have hcontent := length_varContent prefOID oid value
  have hwhole : lengthBytes (prefOID.length + 1 + lengthBytes value.length) =
      1 + lengthSize (prefOID.length + 1 + lengthBytes value.length) +
        (prefOID.length + 1 + lengthBytes value.length) := rfl
  have hvalue : lengthBytes value.length = 1 + lengthSize value.length + value.length := rfl
  rw [← lengthSize_eq_iff (by omega) (by omega), ← hcontent]
  constructor
  · rintro ⟨bytes, hvar, hwrite⟩
    exact fits_of_written (by omega) hvar hwrite
  · intro hfits
    refine ⟨_, ⟨_, tlv_isTlv ?_, tlv_isTlv ?_⟩, writeValueBytes_fits hfits⟩
    · omega
    · show (varContent prefOID oid value).length < 2 ^ 32
      omega

theorem writeValueBytes_status :
    (∃ bytes, IsVariable [0x06, 0x02, 0x2B] 6 COMMUNITY bytes ∧
      writeValueBytes (fun _ => 0) 0 [0x06, 0x02, 0x2B] 6 COMMUNITY =
        (Mem.store (fun _ => 0) 0 bytes, bytes.length)) ↔
      (3 + 1 + lengthBytes 6 < 128 ∨ 128 ≤ lengthBytes 6) ∧
        (3 + 1 + lengthBytes 6 < 256 ∨ 256 ≤ lengthBytes 6) :=
  writeValueBytes_iff (fun _ => 0) 0 [0x06, 0x02, 0x2B] 6 COMMUNITY (by decide)

/-- A value of 122 bytes behind a prefix of 3: the contents have 128 bytes, the room is for a length
below 128. -/
theorem writeValueBytes_overwrites :
    ¬∀ (m : Mem Byte) (dst : ℕ) (prefOID : List Byte) (oid : Byte) (value : List Byte),
      lengthBytes (prefOID.length + 1 + lengthBytes value.length) < 65536 →
      ∃ bytes, IsVariable prefOID oid value bytes ∧
        writeValueBytes m dst prefOID oid value = (m.store dst bytes, bytes.length) := by
  intro h
  have hlong : (List.replicate 122 (0x41 : Byte)).length = 122 := List.length_replicate
  obtain ⟨bytes, hvar, hwrite⟩ := h (fun _ => 0) 0 [0x06, 0x02, 0x2B] 6 (List.replicate 122 0x41)
    (by rw [hlong]; decide)
  have hfits := fits_of_written (by rw [length_varContent, hlong]; decide) hvar hwrite
  rw [length_varContent, hlong] at hfits
  exact absurd hfits (by decide)

/-! ## `wrapVars` -/

/-- A response of SNMPv1 that reports success: its version and community, and the request that it is
for with its status and its variables. -/
def IsResponse (reqId : BitVec 32) (vars bytes : List Byte) : Prop :=
  ∃ version community number errorStat errorId list pdu,
    Ber.IsTlv 0x02 [0] version ∧ Ber.IsTlv 0x04 COMMUNITY community ∧
    Ber.IsTlv 0x02 (be32 reqId) number ∧ Ber.IsTlv 0x02 [0] errorStat ∧
    Ber.IsTlv 0x02 [0] errorId ∧ Ber.IsTlv 0x30 vars list ∧
    Ber.IsTlv 0xA2 (number ++ errorStat ++ errorId ++ list) pdu ∧
    Ber.IsTlv 0x30 (version ++ community ++ pdu) bytes

/-- The request and its variables. -/
def pduContent (reqId : BitVec 32) (vars : List Byte) : List Byte :=
  tlv 0x02 (be32 reqId) ++ tlv 0x02 [0] ++ tlv 0x02 [0] ++ tlv 0x30 vars

/-- The response that `wrapVars` writes. -/
def response (reqId : BitVec 32) (vars : List Byte) : List Byte :=
  tlv 0x30 (tlv 0x02 [0] ++ tlv 0x04 COMMUNITY ++ tlv 0xA2 (pduContent reqId vars))

theorem length_pduContent (reqId : BitVec 32) (vars : List Byte) :
    (pduContent reqId vars).length = 12 + lengthBytes vars.length := by
  rw [pduContent, List.length_append, length_tlv]
  rfl

theorem length_responseContent (reqId : BitVec 32) (vars : List Byte) :
    (tlv 0x02 [0] ++ tlv 0x04 COMMUNITY ++ tlv 0xA2 (pduContent reqId vars)).length =
      11 + lengthBytes (12 + lengthBytes vars.length) := by
  rw [List.length_append, length_tlv 0xA2, length_pduContent]
  rfl

theorem lengthBytes_le {n : ℕ} (h : n < 65536) : lengthBytes n ≤ n + 4 := by
  have hsize := lengthSize_le_three h
  unfold lengthBytes
  omega

/-- The response, one write behind the other. -/
theorem response_eq (reqId : BitVec 32) (vars : List Byte) :
    response reqId vars = [0x30] ++ (lengthField (11 + lengthBytes (12 + lengthBytes vars.length)) ++
      (RESP_HEAD ++ (lengthField (12 + lengthBytes vars.length) ++
        ([0x02, 0x04] ++ (le32 reqId).reverse ++ (RESP_ERR ++ ([0x30] ++
          (lengthField vars.length ++ vars))))))) := by
  have htlv : ∀ tag content, tlv tag content =
      [tag] ++ (lengthField content.length ++ content) := fun _ _ => rfl
  rw [response, htlv 0x30, length_responseContent, htlv 0xA2, length_pduContent, pduContent,
    htlv 0x30 vars]
  simp only [List.append_assoc]
  rfl

/-- **The lengths that are computed** are those of what is written. -/
theorem wrapVars_eq (m : Mem Byte) (reqId : BitVec 32) (dst : ℕ) (vars : List Byte) :
    wrapVars m reqId dst vars =
      (m.store dst (response reqId vars), (response reqId vars).length) := by
  have hreq : vars.length + (1 + lengthSize vars.length) + RESP_ERR.length + lengthInteger 4 =
      12 + lengthBytes vars.length := by
    simp only [RESP_ERR, lengthInteger, lengthBytes, List.length_cons, List.length_nil]
    omega
  have htotal : 12 + lengthBytes vars.length + lengthSize (12 + lengthBytes vars.length) +
      RESP_HEAD.length = 11 + lengthBytes (12 + lengthBytes vars.length) := by
    simp only [RESP_HEAD, lengthBytes, List.length_cons, List.length_nil]
    omega
  unfold wrapVars writeLength
  dsimp only
  rw [writeInteger_eq, hreq, htotal, response_eq]
  simp only [← Mem.store_append]
  refine Prod.ext rfl ?_
  simp only [List.length_append, List.length_reverse, List.length_cons, List.length_nil, lengthInteger]
  omega

/-! ## The response read back -/

/-- The memory from an address on, as a reader sees it. -/
def written (m : Mem Byte) (dst : ℕ) (z : ℤ) : Byte := m (dst + z.toNat)

theorem holds_written (m : Mem Byte) (dst : ℕ) (bytes : List Byte) :
    Holds (written (m.store dst bytes) dst) bytes := by
  intro k hk
  rw [written, Int.toNat_natCast, Mem.store, if_pos (Nat.le_add_right dst k),
    Nat.add_sub_cancel_left, List.getElem?_eq_getElem hk, Option.getD_some,
    List.getD_eq_getElem?_getD, List.getElem?_eq_getElem hk, Option.getD_some]

theorem getD_append_length {p q : List Byte} (i : ℕ) :
    (p ++ q).getD (p.length + i) 0 = q.getD i 0 := by
  rw [List.getD_eq_getElem?_getD, List.getElem?_append_right (Nat.le_add_right _ _),
    Nat.add_sub_cancel_left, List.getD_eq_getElem?_getD]

/-- **A length field** that is followed by its contents is accepted. -/
theorem lengthAt_lengthField {p q : List Byte} {n : ℕ} (hn : n < 65536) (hq : n ≤ q.length) :
    lengthAt (p ++ (lengthField n ++ q)) p.length = some (n, p.length + lengthSize n) := by
  have hlen : (p ++ (lengthField n ++ q)).length = p.length + lengthSize n + q.length := by
    rw [List.length_append, List.length_append, length_lengthField, Nat.add_assoc]
  have hhead := getD_append_length (p := p) (q := lengthField n ++ q) 0
  have hfst := getD_append_length (p := p) (q := lengthField n ++ q) 1
  have hsnd := getD_append_length (p := p) (q := lengthField n ++ q) 2
  rw [Nat.add_zero] at hhead
  unfold lengthAt
  rw [hhead, hfst, hsnd, hlen]
  by_cases hshort : n < 128
  · have hfield : lengthField n = [BitVec.ofNat 8 (n >>> 0)] := if_pos hshort
    have hsize : lengthSize n = 1 := if_pos hshort
    rw [hfield, hsize]
    simp only [List.cons_append, List.getD_cons_zero, toNat_byte]
    rw [if_neg (by omega), if_pos (by omega)]
    congr 2
    omega
  by_cases htwo : n < 256
  · have hfield : lengthField n = [0x81, BitVec.ofNat 8 (n >>> 0)] :=
      (if_neg hshort).trans (if_pos htwo)
    have hsize : lengthSize n = 2 := (if_neg hshort).trans (if_pos htwo)
    rw [hfield, hsize]
    simp only [List.cons_append, List.getD_cons_zero, List.getD_cons_succ, toNat_byte]
    rw [if_neg (by omega), if_neg (by decide), if_pos ⟨trivial, by omega⟩]
    congr 2
    omega
  · have hfield : lengthField n = [0x82, BitVec.ofNat 8 (n >>> 8), BitVec.ofNat 8 (n >>> 0)] :=
      (if_neg hshort).trans ((if_neg htwo).trans (if_pos hn))
    have hsize : lengthSize n = 3 := (if_neg hshort).trans ((if_neg htwo).trans (if_pos hn))
    rw [hfield, hsize]
    simp only [List.cons_append, List.getD_cons_zero, List.getD_cons_succ, toNat_word, toNat_byte]
    rw [if_neg (by omega), if_neg (by decide), if_neg fun h => absurd h.1 (by decide),
      if_pos ⟨trivial, by omega⟩]
    congr 2
    omega

theorem holds_load (m : Mem Byte) (base n : ℕ) : Holds (written m base) (m.load base n) := by
  intro k hk
  rw [Mem.length_load] at hk
  rw [written, Int.toNat_natCast, List.getD_eq_getElem?_getD, Mem.load, List.getElem?_map,
    List.getElem?_range hk]
  rfl

/-- A buffer around the length field that is written to it. -/
theorem load_writeLength (m : Mem Byte) (base offset n rest : ℕ) :
    let m' := (writeLength m (base + offset) n).1
    m'.load base (offset + (lengthSize n + rest)) =
      m'.load base offset ++ (lengthField n ++ m'.load (base + offset + lengthSize n) rest) := by
  intro m'
  have hfield : m'.load (base + offset) (lengthSize n) = lengthField n := by
    rw [← length_lengthField]
    exact Mem.load_store_self m _ _
  rw [Mem.load_add, Mem.load_add, hfield]

/-- What `readLength` returns when it succeeds. -/
theorem readLength_bounds {data : ℤ → Byte} {offset dlen : ℤ} {result : ℕ}
    (h : (readLength data offset dlen result).val.1 ≠ -1) :
    offset < (readLength data offset dlen result).val.1 ∧
      (readLength data offset dlen result).val.1 ≤ dlen ∧
      (readLength data offset dlen result).val.2 ≤ 65535 := by
  unfold readLength at h ⊢
  by_cases hneg : offset < 0
  · rw [if_pos hneg] at h
    exact absurd rfl h
  by_cases hend : dlen ≤ offset
  · rw [if_neg hneg, if_pos hend] at h
    exact absurd rfl h
  rw [if_neg hneg, if_neg hend] at h ⊢
  rw [Reading.val_bind, Reading.val_load] at h ⊢
  by_cases hshort : data offset &&& 0x80 = 0
  · rw [if_pos hshort]
    have hlt := (data offset).isLt
    exact ⟨Int.lt_succ offset, Int.not_le.mp hend, by dsimp only [Reading.val_pure]; omega⟩
  rw [if_neg hshort] at h ⊢
  by_cases h1 : data offset &&& 0x7F = 1
  · rw [if_pos h1] at h ⊢
    by_cases hfits : dlen ≤ offset + 1 + 1
    · rw [if_pos hfits] at h
      exact absurd rfl h
    rw [if_neg hfits, Reading.val_bind, Reading.val_load]
    have hlt := (data (offset + 1)).isLt
    exact ⟨by dsimp only [Reading.val_pure]; omega, (Int.not_le.mp hfits).le,
      by dsimp only [Reading.val_pure]; omega⟩
  rw [if_neg h1] at h ⊢
  by_cases h2 : data offset &&& 0x7F = 2
  · rw [if_pos h2] at h ⊢
    by_cases hfits : dlen ≤ offset + 1 + 2
    · rw [if_pos hfits] at h
      exact absurd rfl h
    rw [if_neg hfits, Reading.val_bind]
    have hlt := (load16 data (offset + 1)).val.isLt
    exact ⟨by dsimp only [Reading.val_pure]; omega, (Int.not_le.mp hfits).le,
      by dsimp only [Reading.val_pure]; omega⟩
  · rw [if_neg h2] at h
    exact absurd rfl h

/-- **A length goes through its field.** A length of 16 bits whose field is written to a buffer,
with at least as many bytes behind the field, takes `lengthSize` bytes and is read back; and
whatever is in a buffer, a length that is read is one of 16 bits, and its field lies in the
buffer. -/
theorem length_roundTrip :
    (∀ (m : Mem Byte) (base offset len dlen result : ℕ), len ≤ 65535 →
      offset + lengthSize len + len ≤ dlen →
      let m' := (writeLength m (base + offset) len).1
      (writeLength m (base + offset) len).2 = lengthSize len ∧
        (∀ i, i < base + offset ∨ base + offset + lengthSize len ≤ i → m' i = m i) ∧
        (readLength (written m' base) offset dlen result).val =
          (((offset + lengthSize len : ℕ) : ℤ), len)) ∧
    ∀ (data : ℤ → Byte) (offset dlen : ℤ) (result : ℕ),
      let r := (readLength data offset dlen result).val
      r.1 ≠ -1 → offset < r.1 ∧ r.1 ≤ dlen ∧ r.2 ≤ 65535 := by
  refine ⟨fun m base offset len dlen result hlen hend => ?_, fun _ _ _ _ => readLength_bounds⟩
  obtain ⟨rest, rfl⟩ := Nat.exists_eq_add_of_le hend
  refine ⟨length_lengthField len, fun i hi => ?_, ?_⟩
  · rw [← length_lengthField] at hi
    exact Mem.store_of_notMem hi
  · have hm := holds_load (writeLength m (base + offset) len).1 base
      (offset + (lengthSize len + (len + rest)))
    have hfield := lengthAt_lengthField (n := len)
      (p := (writeLength m (base + offset) len).1.load base offset)
      (q := (writeLength m (base + offset) len).1.load (base + offset + lengthSize len) (len + rest))
      (by omega) (by rw [Mem.length_load]; exact Nat.le_add_right _ _)
    rw [← load_writeLength, Mem.length_load] at hfield
    have hread := readLength_some hm rfl result hfield
    rwa [Mem.length_load, ← Nat.add_assoc, ← Nat.add_assoc] at hread

/-- A field of the long form, with the 300 bytes that it announces behind it. -/
theorem length_roundTrip_long :
    let m' := (writeLength (fun _ => 0) 2 300).1
    (readLength (written m' 0) 2 305 0).val = (5, 300) :=
  (length_roundTrip.1 (fun _ => 0) 0 2 300 305 0 (by decide) (by decide)).2.2

/-- An element that is written is found. -/
theorem elementAt_tlv {p q content : List Byte} {t : Byte} (h : content.length < 65536) :
    elementAt (p ++ (tlv t content ++ q)) t p.length =
      some (content.length, p.length + 1 + lengthSize content.length) := by
  have htag : (p ++ (tlv t content ++ q)).getD p.length 0 = t := getD_append_length 0
  have hsplit : p ++ (tlv t content ++ q) =
      (p ++ [t]) ++ (lengthField content.length ++ (content ++ q)) := by
    simp [tlv]
  have hlen : (p ++ [t]).length = p.length + 1 := by simp
  refine elementAt_eq_some_iff.mpr ⟨⟨?_, htag⟩, ?_, ?_⟩
  · simp only [List.length_append, length_tlv, lengthBytes]
    omega
  · have hfield := lengthAt_lengthField (p := p ++ [t]) (q := content ++ q) h (by simp)
    rwa [hlen, ← hsplit] at hfield
  · simp only [List.length_append, length_tlv, lengthBytes]
    omega

theorem drop_take_tlv (p q content : List Byte) (tag : Byte) :
    ((p ++ (tlv tag content ++ q)).drop (p.length + 1 + lengthSize content.length)).take
      content.length = content := by
  have hsplit : p ++ (tlv tag content ++ q) =
      (p ++ [tag] ++ lengthField content.length) ++ (content ++ q) := by
    simp [tlv]
  have hlen : p.length + 1 + lengthSize content.length =
      (p ++ [tag] ++ lengthField content.length).length := by
    rw [List.length_append, List.length_append, length_lengthField, List.length_singleton]
  rw [hsplit, hlen, List.drop_left, List.take_left]

/-- The bytes of a number in the order of the network stand for it. -/
theorem ofInt_twosComplement_be32 (v : BitVec 32) :
    BitVec.ofInt 32 (twosComplement (be32 v)) = v := by
  have hv := v.isLt
  have hvalue : Ber.beValue (be32 v) = v.toNat := by
    simp only [be32, Ber.beValue, List.foldl_cons, List.foldl_nil, BitVec.extractLsb'_toNat,
      Nat.shiftRight_eq_div_pow]
    omega
  have hlen : (be32 v).length = 4 := rfl
  apply BitVec.eq_of_toNat_eq
  rw [BitVec.toNat_ofInt, twosComplement, hvalue, hlen]
  split_ifs <;> omega

/-- Where the id of the request is. -/
def requestOffset (vars : List Byte) : ℕ :=
  13 + lengthSize (11 + lengthBytes (12 + lengthBytes vars.length)) +
    lengthSize (12 + lengthBytes vars.length)

theorem response_split (reqId : BitVec 32) (vars : List Byte) :
    ∃ pre post, response reqId vars = pre ++ (tlv 0x02 (be32 reqId) ++ post) ∧
      pre.length = requestOffset vars := by
  refine ⟨[0x30] ++ lengthField (11 + lengthBytes (12 + lengthBytes vars.length)) ++ RESP_HEAD ++
    lengthField (12 + lengthBytes vars.length), RESP_ERR ++ tlv 0x30 vars, ?_, ?_⟩
  · rw [response_eq]
    simp only [List.append_assoc]
    rfl
  · simp only [List.length_append, length_lengthField, requestOffset, RESP_HEAD, List.length_cons,
      List.length_nil]
    omega

theorem length_response_lt (reqId : BitVec 32) {vars : List Byte} (h : vars.length ≤ 65000) :
    11 + lengthBytes (12 + lengthBytes vars.length) < 65536 ∧
      (response reqId vars).length < 65536 := by
  have hvars := lengthBytes_le (n := vars.length) (by omega)
  have hpdu := lengthBytes_le (n := 12 + lengthBytes vars.length) (by omega)
  have hwhole := lengthBytes_le (n := 11 + lengthBytes (12 + lengthBytes vars.length)) (by omega)
  rw [response, length_tlv, length_responseContent]
  omega

theorem response_isResponse {reqId : BitVec 32} {vars : List Byte} (h : vars.length ≤ 65000) :
    IsResponse reqId vars (response reqId vars) := by
  have hlt := (length_response_lt reqId h).1
  have hpdu : 12 + lengthBytes vars.length ≤ lengthBytes (12 + lengthBytes vars.length) :=
    Nat.le_add_left _ _
  refine ⟨tlv 0x02 [0], tlv 0x04 COMMUNITY, tlv 0x02 (be32 reqId), tlv 0x02 [0], tlv 0x02 [0],
    tlv 0x30 vars, tlv 0xA2 (pduContent reqId vars), tlv_isTlv (by decide), tlv_isTlv (by decide),
    tlv_isTlv ?_, tlv_isTlv (by decide), tlv_isTlv (by decide), tlv_isTlv (by omega),
    tlv_isTlv ?_, tlv_isTlv ?_⟩
  · show 4 < 2 ^ 32
    decide
  · show (pduContent reqId vars).length < 2 ^ 32
    rw [length_pduContent]
    omega
  · rw [length_responseContent]
    omega

/-- **A response reads back**: it is a well-formed response with the given variables, `readInt32`
finds the id of the request in it, and `readLength` every length that is followed by what it is the
length of. -/
theorem wrapVars_response (m : Mem Byte) (reqId : BitVec 32) (dst : ℕ) {vars : List Byte}
    (hlen : vars.length ≤ 65000) :
    let bytes := response reqId vars
    let data := written (wrapVars m reqId dst vars).1 dst
    wrapVars m reqId dst vars = (m.store dst bytes, bytes.length) ∧
      IsResponse reqId vars bytes ∧
      (∀ result, (readInt32 data (requestOffset vars) bytes.length result).val =
        (((requestOffset vars + 6 : ℕ) : ℤ), reqId)) ∧
      ∀ pre tag content post result, bytes = pre ++ (tlv tag content ++ post) →
        (readLength data ((pre.length + 1 : ℕ) : ℤ) bytes.length result).val =
          (((pre.length + 1 + lengthSize content.length : ℕ) : ℤ), content.length) := by
  intro bytes data
  have hwrite := wrapVars_eq m reqId dst vars
  have hm : Holds data bytes := by
    show Holds (written (wrapVars m reqId dst vars).1 dst) _
    rw [hwrite]
    exact holds_written m dst _
  refine ⟨hwrite, response_isResponse hlen, fun result => ?_, ?_⟩
  · -- the id is the first element of the request
    obtain ⟨pre, post, hsplit, hpre⟩ := response_split reqId vars
    have hfour : (be32 reqId).length = 4 := rfl
    have helem := elementAt_tlv (p := pre) (q := post) (t := 0x02)
      (show (be32 reqId).length < 65536 by rw [hfour]; decide)
    have hcontent := drop_take_tlv pre post (be32 reqId) 0x02
    rw [← hsplit, hpre] at helem hcontent
    have hread := readInt32_short hm rfl result helem (by rw [hfour]; decide) (by rw [hfour])
    rw [hcontent, ofInt_twosComplement_be32] at hread
    exact hread
  · intro pre tag content post result hsplit
    have hlt := (length_response_lt reqId hlen).2
    -- what is in the response is not longer than the response
    have hcontent : content.length < 65536 := by
      have hall : (response reqId vars).length = _ := congrArg List.length hsplit
      simp only [List.length_append, length_tlv, lengthBytes] at hall
      omega
    have hfield := (elementAt_eq_some_iff.mp (elementAt_tlv (p := pre) (q := post) (t := tag)
      hcontent)).2.1
    rw [← hsplit] at hfield
    exact readLength_some hm rfl result hfield

/-- A description of 240 characters: the lengths take one byte, two and three. -/
def longDescr : List Byte :=
  tlv 0x30 (tlv 0x06 [0x2B, 6, 1, 2, 1, 1, 1, 0] ++ tlv 0x04 (List.replicate 240 0x41))

theorem wrapVars_response_longDescr :
    let bytes := response 0x01020304 longDescr
    let data := written (wrapVars (fun _ => 0) 0x01020304 0 longDescr).1 0
    wrapVars (fun _ => 0) 0x01020304 0 longDescr =
        (Mem.store (fun _ => 0) 0 bytes, bytes.length) ∧
      IsResponse 0x01020304 longDescr bytes ∧
      (∀ result, (readInt32 data (requestOffset longDescr) bytes.length result).val =
        (((requestOffset longDescr + 6 : ℕ) : ℤ), 0x01020304)) ∧
      ∀ pre tag content post result, bytes = pre ++ (tlv tag content ++ post) →
        (readLength data ((pre.length + 1 : ℕ) : ℤ) bytes.length result).val =
          (((pre.length + 1 + lengthSize content.length : ℕ) : ℤ), content.length) :=
  wrapVars_response (fun _ => 0) 0x01020304 0 (by decide +kernel)

end Gpsdo.Snmp
