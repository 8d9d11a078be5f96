import Gpsdo.Snmp.Entry

set_option autoImplicit false

/-! # What earlier requests leave behind (`lib/snmp/snmp.cpp`)

The OID and the id of a request are static variables. `process` reads the OID over what the request
before has left there, and does not look whether that has failed; then it compares the bytes of the
buffer, also those behind the end of the OID. The reply to a frame is the same after every history
exactly when its OID has every byte that is compared.
-/

namespace Gpsdo.Snmp

open Net

/-! ## Histories -/

/-- The static variables after the frames of a history, from the static memory on. -/
def after (mac ip : List Byte) (hist : List (Mem Byte × ℕ)) : Statics :=
  hist.foldl (fun s f => (process mac ip f.1 f.2 s).val.1) noRequest

/-- The reply to a frame does not depend on the frames before it. -/
def HistoryFree (mac ip : List Byte) (frame : Mem Byte) (flen : ℕ) : Prop :=
  ∀ h₁ h₂ : List (Mem Byte × ℕ), (process mac ip frame flen (after mac ip h₁)).val.2 =
    (process mac ip frame flen (after mac ip h₂)).val.2

/-! ## The bytes that are compared -/

/-- An OID of the sensors has the bytes that `sendSensors` compares: the one behind each that
is 1. -/
def SensorsComplete (oid : List Byte) : Prop :=
  6 < oid.length ∧ (oid.getD 6 0 = 1 → 7 < oid.length ∧ (oid.getD 7 0 = 1 → 8 < oid.length ∧
    (oid.getD 8 0 = 1 → 9 < oid.length)))

/-- An OID has every byte that is compared. Under the prefix of the management there is a section,
of two bytes when the first is 128 or 129, and the section of the sensors is complete. -/
def Complete (oid : List Byte) : Prop :=
  OID_PREFIX_MGMT <+: oid → 5 < oid.length ∧
    (oid.getD 5 0 = 0x80 ∨ oid.getD 5 0 = 0x81 → 6 < oid.length) ∧
    (oid.getD 5 0 = 99 → SensorsComplete oid)

instance (oid : List Byte) : Decidable (SensorsComplete oid) :=
  inferInstanceAs (Decidable (_ ∧ _))

instance (oid : List Byte) : Decidable (Complete oid) :=
  inferInstanceAs (Decidable (_ → _))

variable {data : ℤ → Byte} {id : BitVec 32} {oid buff : List Byte}

/-! ## A frame of the history

A request for an OID of 16 bytes, under the headers of the frame that comes after it.
-/

/-- The headers of a frame, and another message. -/
def withMessage (frame : Mem Byte) (msg : List Byte) : Mem Byte := fun i =>
  if i < FrameUdp4.DATA_OFFSET then frame i else msg.getD (i - FrameUdp4.DATA_OFFSET) 0

/-- A request for an OID of 16 bytes. -/
def getRequestOf (oid : List Byte) : List Byte :=
  [0x30, 46, 2, 1, 0, 4, 6, 0x73, 0x74, 0x61, 0x74, 0x75, 0x73, 0xA0, 33, 2, 1, 1, 2, 1, 0, 2, 1, 0,
    0x30, 22, 0x30, 20, 6, 16] ++ oid ++ [5, 0]

theorem holds_withMessage (frame : Mem Byte) (msg : List Byte) :
    Holds (dataSNMP (withMessage frame msg)) msg := by
  intro k _
  have haddr : ((FrameUdp4.DATA_OFFSET : ℤ) + k).toNat = FrameUdp4.DATA_OFFSET + k := by omega
  rw [dataSNMP, haddr, withMessage, if_neg (by omega), Nat.add_sub_cancel_left]

theorem addressed_withMessage (mac ip : List Byte) (frame : Mem Byte) (msg : List Byte) :
    addressed mac ip (withMessage frame msg) = addressed mac ip frame := rfl

theorem length_getRequestOf (hlen : oid.length = OID_SIZE) : (getRequestOf oid).length = 48 := by
  simp [getRequestOf, hlen, OID_SIZE]

theorem openField_getRequestOf (hlen : oid.length = OID_SIZE) (hm : Holds data (getRequestOf oid))
    (tag : Byte) (k n slen : ℕ) (htag : (getRequestOf oid).getD k 0 = tag)
    (hbyte : ((getRequestOf oid).getD (k + 1) 0).toNat = n) (hshort : n < 0x80)
    (hfills : n + k + 2 = 48) : openField data 48 tag k slen = some (((k + 2 : ℕ) : ℤ), n) := by
  have hmlen := length_getRequestOf hlen
  have hfield : lengthAt (getRequestOf oid) (k + 1) = some (n, k + 2) := by
    unfold lengthAt
    dsimp only
    rw [if_neg (by omega), hbyte, if_pos hshort]
  have hlength := readLength_some hm (z := (k : ℤ) + 1) (by omega) slen hfield
  rw [hmlen] at hlength
  unfold openField
  rw [if_pos ((hm k (by omega)).trans htag), show (48 : ℤ) = (48 : ℕ) from rfl, hlength]
  exact if_neg (by omega)

theorem readInt32_getRequestOf (hlen : oid.length = OID_SIZE) (hm : Holds data (getRequestOf oid)) :
    (readInt32 data 2 48 0).val = (5, 0) ∧ (readInt32 data 15 48 0).val = (18, 1) ∧
      (readInt32 data 18 48 0).val = (21, 0) ∧ (readInt32 data 21 48 0).val = (24, 0) := by
  have hmlen := length_getRequestOf hlen
  have hread (k j : ℕ) (v : BitVec 32) (h : integerAt (getRequestOf oid) k = some (v, j)) :
      (readInt32 data k 48 0).val = ((j : ℤ), v) := by
    have hval := readInt32_some hm rfl 0 h
    rwa [hmlen] at hval
  refine ⟨hread 2 5 0 ?_, hread 15 18 1 ?_, hread 18 21 0 ?_, hread 21 24 0 ?_⟩ <;>
    unfold integerAt elementAt lengthAt <;> rw [hmlen] <;> rfl

theorem openMessage_getRequestOf (hlen : oid.length = OID_SIZE)
    (hm : Holds data (getRequestOf oid)) : openMessage data 48 = some (13, 46) := by
  have hmlen := length_getRequestOf hlen
  have hfirst : openField data 48 0x30 0 0 = some (2, 46) :=
    openField_getRequestOf hlen hm 0x30 0 46 0 rfl rfl (by omega) (by omega)
  have hversion := (readInt32_getRequestOf hlen hm).1
  have hname : elementAt (getRequestOf oid) 0x04 5 = some (6, 7) := by
    unfold elementAt lengthAt
    rw [hmlen]
    rfl
  have hbytes : (readBytes data 5 48 (List.replicate 16 0) 16).val =
      (13, COMMUNITY ++ List.replicate 10 0, 6) := by
    have hval := readTagged_some hm (z := 5) (k := 5) rfl (List.replicate 16 0) 16 hname
    rw [hmlen] at hval
    exact hval
  unfold openMessage
  rw [hfirst, Option.bind_some]
  dsimp only
  rw [hversion, hbytes]
  rfl

theorem entryAt_getRequestOf (hlen : oid.length = OID_SIZE) (hm : Holds data (getRequestOf oid)) :
    entryAt data 48 = some (1, 28) := by
  obtain ⟨-, hreqId, herrorStat, herrorId⟩ := readInt32_getRequestOf hlen hm
  have hrequest : openField data 48 0xA0 13 46 = some (15, 33) :=
    openField_getRequestOf hlen hm 0xA0 13 33 46 rfl rfl (by omega) (by omega)
  have hints : afterIntegers data 48 15 = 24 := by
    simp only [afterIntegers, hreqId, herrorStat, herrorId]
  have hvars : openField data 48 0x30 24 33 = some (26, 22) :=
    openField_getRequestOf hlen hm 0x30 24 22 33 rfl rfl (by omega) (by omega)
  have hentry : openField data 48 0x30 26 22 = some (28, 20) :=
    openField_getRequestOf hlen hm 0x30 26 20 22 rfl rfl (by omega) (by omega)
  unfold entryAt
  rw [openMessage_getRequestOf hlen hm, Option.bind_some, hrequest, Option.bind_some, hints, hvars,
    Option.bind_some, hentry, Option.map_some, hreqId]

theorem oidAt_getRequestOf (hlen : oid.length = OID_SIZE) (hm : Holds data (getRequestOf oid)) :
    oidAt data 48 28 = some oid := by
  have hmlen := length_getRequestOf hlen
  have helem : elementAt (getRequestOf oid) 0x06 28 = some (16, 30) := by
    unfold elementAt lengthAt
    rw [hmlen]
    rfl
  have hcontents : ((getRequestOf oid).drop 30).take 16 = oid := by
    rw [getRequestOf, List.append_assoc]
    exact List.take_left' hlen
  have hread : (readOID data 28 48 [] OID_SIZE).val = (46, oid, 16) := by
    have hval := readTagged_some hm (z := 28) (k := 28) rfl [] OID_SIZE helem
    rw [hmlen] at hval
    refine hval.trans ?_
    show (_, overwrite [] (List.take 16 _), _) = _
    rw [hcontents, overwrite, List.drop_nil, List.append_nil]
    rfl
  unfold oidAt
  rw [hread]
  rfl

/-- **Every OID of 16 bytes can be left in the buffer** for a frame that is for this device. -/
theorem after_getRequestOf {mac ip : List Byte} {frame : Mem Byte} (hlen : oid.length = OID_SIZE)
    (haddr : addressed mac ip frame = true) :
    (after mac ip [(withMessage frame (getRequestOf oid), 90)]).buffOID = oid := by
  have hm := holds_withMessage frame (getRequestOf oid)
  obtain ⟨t, hbuff, -, hval⟩ := processMessage_entry noRequest (entryAt_getRequestOf hlen hm)
  have hafter : after mac ip [(withMessage frame (getRequestOf oid), 90)] =
      (processMessage (dataSNMP (withMessage frame (getRequestOf oid))) 48 noRequest).val.1 := by
    show (process mac ip (withMessage frame (getRequestOf oid)) 90 noRequest).val.1 = _
    unfold process
    rw [addressed_withMessage, if_pos haddr]
    rfl
  rw [hafter, hval, readEntry_eq, oidAt_getRequestOf hlen hm]
  show overwrite t.buffOID oid = oid
  rw [overwrite, hbuff, List.drop_eq_nil_of_le, List.append_nil]
  rw [hlen]
  rfl

/-! ## Bytes that are compared and not there -/

/-- A column of the sensors. -/
def sensorsOID : List Byte := [0x2B, 6, 1, 2, 1, 99, 1, 1, 1, 1, 0, 0, 0, 0, 0, 0]

/-- The battery. -/
def battOID : List Byte := [0x2B, 6, 1, 2, 1, 0x81, 0xE9, 0, 0, 0, 0, 0, 0, 0, 0, 0]

theorem sendSensors_id (s : Statics) (id : BitVec 32) :
    sendSensors { s with reqId := id } = (sendSensors s).map fun r => { r with reqId := id } := by
  unfold sendSensors
  dsimp only
  rw [apply_ite (Option.map _), apply_ite (Option.map _), apply_ite (Option.map _)]
  rfl

theorem dispatch_id (s : Statics) (id : BitVec 32) :
    dispatch { s with reqId := id } = (dispatch s).map fun r => { r with reqId := id } := by
  unfold dispatch
  dsimp only
  rw [apply_ite (Option.map _), apply_ite (Option.map _), apply_ite (Option.map _),
    apply_ite (Option.map _), ← sendSensors_id]
  rfl

/-- The request id is copied to the reply. -/
theorem replyTo_id (id : BitVec 32) (oid : Option (List Byte)) (buff : List Byte) :
    replyTo id oid buff = (replyTo 0 oid buff).map fun r => { r with reqId := id } :=
  dispatch_id ⟨oid.elim buff (overwrite buff), oid.elim OID_SIZE List.length, 0, 0, 0⟩ id

/-- The buffer before any request. -/
def noOID : List Byte := List.replicate OID_SIZE 0

theorem replyTo_of_free {o : Option (List Byte)} (h : ∀ buff : List Byte, buff.length = OID_SIZE →
    replyTo id o buff = replyTo id o noOID) {buff : List Byte} (hlen : buff.length = OID_SIZE) :
    replyTo 0 o buff = replyTo 0 o noOID := by
  have hid := h buff hlen
  rw [replyTo_id id, replyTo_id id o noOID] at hid
  have hback := congrArg (Option.map fun r : SnmpReply => { r with reqId := 0 }) hid
  simp only [Option.map_map] at hback
  rw [replyTo_id 0 o buff, replyTo_id 0 o noOID]
  exact hback

theorem sensorsComplete_of_free {rest : List Byte} (h : ∀ buff : List Byte, buff.length = OID_SIZE →
    replyTo 0 (some (OID_PREFIX_MGMT ++ 99 :: rest)) buff =
      replyTo 0 (some (OID_PREFIX_MGMT ++ 99 :: rest)) noOID) :
    SensorsComplete (OID_PREFIX_MGMT ++ 99 :: rest) := by
  have hsensors := h sensorsOID rfl
  cases rest with
  | nil => exact absurd hsensors (by decide)
  | cons b₆ rest =>
  refine ⟨by simp [OID_PREFIX_MGMT], fun h6 => ?_⟩
  obtain rfl : b₆ = 1 := h6
  cases rest with
  | nil => exact absurd hsensors (by decide)
  | cons b₇ rest =>
  refine ⟨by simp [OID_PREFIX_MGMT], fun h7 => ?_⟩
  obtain rfl : b₇ = 1 := h7
  cases rest with
  | nil => exact absurd hsensors (by decide)
  | cons b₈ rest =>
  refine ⟨by simp [OID_PREFIX_MGMT], fun h8 => ?_⟩
  obtain rfl : b₈ = 1 := h8
  cases rest with
  | nil => exact absurd hsensors (by decide)
  | cons b₉ rest => simp [OID_PREFIX_MGMT]

/-- **The other direction**: without a byte that is compared, one of two buffers gives another
reply than the one before any request. -/
theorem complete_of_free (id : BitVec 32) {o : Option (List Byte)}
    (h : ∀ buff : List Byte, buff.length = OID_SIZE → replyTo id o buff = replyTo id o noOID) :
    ∃ oid ∈ o, Complete oid := by
  have hfree (buff : List Byte) (hlen : buff.length = OID_SIZE) := replyTo_of_free h hlen
  have hsensors := hfree sensorsOID rfl
  have hbatt := hfree battOID rfl
  cases o with
  | none => exact absurd hsensors (by decide)
  | some oid =>
      refine ⟨oid, rfl, ?_⟩
      rintro ⟨rest, rfl⟩
      cases rest with
      | nil => exact absurd hsensors (by decide)
      | cons b₅ rest =>
          refine ⟨by simp [OID_PREFIX_MGMT], ?_, ?_⟩
          · intro hlong
            cases rest with
            | cons b₆ rest => simp [OID_PREFIX_MGMT]
            | nil =>
                rcases hlong with h80 | h81
                · obtain rfl : b₅ = 0x80 := h80
                  exact absurd hbatt (by decide)
                · obtain rfl : b₅ = 0x81 := h81
                  exact absurd hbatt (by decide)
          · intro h99
            obtain rfl : b₅ = 99 := h99
            exact sensorsComplete_of_free hfree

/-! ## Bytes that are compared and there -/

theorem getD_overwrite (buff oid : List Byte) (k : ℕ) : (overwrite buff oid).getD k 0 =
    if k < oid.length then oid.getD k 0 else buff.getD k 0 := by
  unfold overwrite
  simp only [List.getD_eq_getElem?_getD, List.getElem?_append, List.getElem?_drop]
  split
  · rfl
  · rw [Nat.add_sub_of_le (by omega)]

theorem take_overwrite (buff : List Byte) {n : ℕ} (h : n ≤ oid.length) :
    (overwrite buff oid).take n = oid.take n :=
  List.take_append_of_le_length h

/-- The section of the MIB that two bytes stand for. -/
def sectionOf (b₅ b₆ : Byte) : BitVec 16 :=
  let sub := b₅.setWidth 16
  if sub &&& 0x80 ≠ 0 then ((sub &&& 0x7F) <<< 7) ||| b₆.setWidth 16 else sub

/-- A section of two bytes is one of the two that are known only if its first byte is 128 or 129. -/
theorem sectionOf_high {b₅ b₆ : Byte} (hhigh : b₅.setWidth 16 &&& 0x80 ≠ (0 : BitVec 16))
    (hsmall : (sectionOf b₅ b₆).toNat < 256) : b₅ = 0x80 ∨ b₅ = 0x81 := by
  have hfirst : ∀ b : Byte, b.setWidth 16 &&& 0x80 ≠ (0 : BitVec 16) →
      ((b.setWidth 16 &&& 0x7F : BitVec 16) <<< 7).toNat < 256 → b = 0x80 ∨ b = 0x81 := by
    decide
  unfold sectionOf at hsmall
  dsimp only at hsmall
  rw [if_pos hhigh, BitVec.toNat_or] at hsmall
  exact hfirst b₅ hhigh (Nat.lt_of_le_of_lt Nat.left_le_or hsmall)

theorem sectionOf_sensors {b₅ b₆ : Byte} (h : sectionOf b₅ b₆ = 99) :
    b₅ = 99 ∨ b₅ = 0x80 ∧ b₆ = 99 := by
  by_cases hhigh : b₅.setWidth 16 &&& 0x80 ≠ (0 : BitVec 16)
  · have hsecond : ∀ b : Byte, (sectionOf 0x80 b = 99 → b = 99) ∧ sectionOf 0x81 b ≠ 99 := by
      decide
    rcases sectionOf_high hhigh (by rw [h]; decide) with rfl | rfl
    · exact Or.inr ⟨rfl, (hsecond b₆).1 h⟩
    · exact absurd h (hsecond b₆).2
  · unfold sectionOf at h
    dsimp only at h
    rw [if_neg hhigh] at h
    have hlow : ∀ b : Byte, b.setWidth 16 = (99 : BitVec 16) → b = 99 := by decide
    exact Or.inl (hlow b₅ h)

theorem sectionOf_batt {b₅ b₆ : Byte} (h : sectionOf b₅ b₆ = 233) : b₅ = 0x80 ∨ b₅ = 0x81 := by
  by_cases hhigh : b₅.setWidth 16 &&& 0x80 ≠ (0 : BitVec 16)
  · exact sectionOf_high hhigh (by rw [h]; decide)
  · unfold sectionOf at h
    dsimp only at h
    rw [if_neg hhigh] at h
    have hlow : ∀ b : Byte, ¬ b.setWidth 16 &&& 0x80 ≠ (0 : BitVec 16) →
      b.setWidth 16 ≠ (233 : BitVec 16) := by decide
    exact absurd h (hlow b₅ hhigh)

theorem replyTo_foreign (h : ¬ OID_PREFIX_MGMT <+: oid) : replyTo id (some oid) buff = none := by
  unfold replyTo dispatch
  by_cases hlen : OID_PREFIX_MGMT.length ≤ oid.length
  · refine (if_pos hlen).trans (if_neg fun hbuff => h ?_)
    rw [Option.elim_some, take_overwrite buff hlen] at hbuff
    exact List.prefix_iff_eq_take.mpr hbuff.symm
  · exact if_neg hlen

theorem replyTo_managed (h : OID_PREFIX_MGMT <+: oid) : replyTo id (some oid) buff =
    let s : Statics := ⟨overwrite buff oid, oid.length, id, 0, 0⟩
    if sectionOf (s.buffOID.getD 5 0) (s.buffOID.getD 6 0) = 99 then sendSensors s
    else if sectionOf (s.buffOID.getD 5 0) (s.buffOID.getD 6 0) = 233 then sendBatt s
    else none := by
  have hbuff := (take_overwrite buff h.length_le).trans (List.prefix_iff_eq_take.mp h).symm
  unfold replyTo dispatch
  simp only [Option.elim_some, h.length_le, if_true, hbuff]
  rfl

theorem sendSensors_none {s : Statics} (h : s.buffOID.getD 6 0 ≠ 1) : sendSensors s = none :=
  if_pos h

/-- A byte is compared if those in front of it are 1. -/
theorem sendSensors_congr {s t : Statics} (hid : s.reqId = t.reqId)
    (h6 : s.buffOID.getD 6 0 = t.buffOID.getD 6 0)
    (h7 : s.buffOID.getD 6 0 = 1 → s.buffOID.getD 7 0 = t.buffOID.getD 7 0)
    (h8 : s.buffOID.getD 6 0 = 1 → s.buffOID.getD 7 0 = 1 →
      s.buffOID.getD 8 0 = t.buffOID.getD 8 0)
    (h9 : s.buffOID.getD 6 0 = 1 → s.buffOID.getD 7 0 = 1 → s.buffOID.getD 8 0 = 1 →
      s.buffOID.getD 9 0 = t.buffOID.getD 9 0) : sendSensors s = sendSensors t := by
  have hmib : OID_PREFIX_MGMT.length = 5 := rfl
  unfold sendSensors
  dsimp only
  rw [hmib, ← hid, ← h6]
  by_cases hb6 : s.buffOID.getD 6 0 = 1
  case neg => rw [if_pos hb6, if_pos hb6]
  rw [← h7 hb6]
  by_cases hb7 : s.buffOID.getD 7 0 = 1
  case neg => rw [if_pos hb7, if_pos hb7]
  rw [← h8 hb6 hb7]
  by_cases hb8 : s.buffOID.getD 8 0 = 1
  case neg => rw [if_pos hb8, if_pos hb8]
  rw [← h9 hb6 hb7 hb8]

/-- **An OID with every byte that is compared** gets the same reply over every buffer. -/
theorem replyTo_congr {b c : List Byte} (hc : Complete oid) :
    replyTo id (some oid) b = replyTo id (some oid) c := by
  by_cases hprefix : OID_PREFIX_MGMT <+: oid
  case neg => rw [replyTo_foreign hprefix, replyTo_foreign hprefix]
  obtain ⟨h5, hhigh, hsensors⟩ := hc hprefix
  have hsame (buff : List Byte) {k : ℕ} (hk : k < oid.length) :
      (overwrite buff oid).getD k 0 = oid.getD k 0 := by
    rw [getD_overwrite, if_pos hk]
  rw [replyTo_managed hprefix, replyTo_managed hprefix]
  simp only [hsame b h5, hsame c h5]
  by_cases h6 : 6 < oid.length
  · simp only [hsame b h6, hsame c h6]
    by_cases hsection : sectionOf (oid.getD 5 0) (oid.getD 6 0) = 99
    · rw [if_pos hsection, if_pos hsection]
      rcases sectionOf_sensors hsection with h99 | ⟨-, h99⟩
      · obtain ⟨-, hbytes⟩ := hsensors h99
        refine sendSensors_congr rfl ((hsame b h6).trans (hsame c h6).symm) ?_ ?_ ?_ <;>
          dsimp only <;> rw [hsame b h6] <;> intro hb6
        · rw [hsame b (hbytes hb6).1, hsame c (hbytes hb6).1]
        · intro hb7
          obtain ⟨h7, hrest⟩ := hbytes hb6
          rw [hsame b h7] at hb7
          rw [hsame b (hrest hb7).1, hsame c (hrest hb7).1]
        · intro hb7 hb8
          obtain ⟨h7, hrest⟩ := hbytes hb6
          rw [hsame b h7] at hb7
          obtain ⟨h8, hlast⟩ := hrest hb7
          rw [hsame b h8] at hb8
          rw [hsame b (hlast hb8), hsame c (hlast hb8)]
      · -- the second byte of the section is not the one of the table of sensors
        have hother (buff : List Byte) : (overwrite buff oid).getD 6 0 ≠ 1 := by
          rw [hsame buff h6, h99]
          decide
        rw [sendSensors_none (hother b), sendSensors_none (hother c)]
    · rw [if_neg hsection, if_neg hsection]
      rfl
  · -- no second byte is needed, so that the section is none of the two
    have hother (b₆ : Byte) :
        sectionOf (oid.getD 5 0) b₆ ≠ 99 ∧ sectionOf (oid.getD 5 0) b₆ ≠ 233 := by
      constructor
      · intro hsection
        rcases sectionOf_sensors hsection with h99 | ⟨h80, -⟩
        · exact h6 (hsensors h99).1
        · exact h6 (hhigh (Or.inl h80))
      · intro hsection
        exact h6 (hhigh (sectionOf_batt hsection))
    rw [if_neg (hother _).1, if_neg (hother _).2, if_neg (hother _).1, if_neg (hother _).2]

/-! ## Histories and replies -/

/-- **The reply to a frame does not depend on the frames before it exactly when** the frame is for
another device, has no entry of a variable, or the OID of its entry can be read and has every byte
that is compared. -/
theorem historyFree_iff (mac ip : List Byte) (frame : Mem Byte) (flen : ℕ) :
    HistoryFree mac ip frame flen ↔ (addressed mac ip frame = true →
      ∀ e ∈ entryAt (dataSNMP frame) (flen - FrameUdp4.DATA_OFFSET),
        ∃ oid ∈ oidAt (dataSNMP frame) (flen - FrameUdp4.DATA_OFFSET) e.2, Complete oid) := by
  have hreply (s : Statics) (haddr : addressed mac ip frame = true) :
      (process mac ip frame flen s).val.2 =
        (processMessage (dataSNMP frame) (flen - FrameUdp4.DATA_OFFSET) s).val.2 := by
    unfold process
    rw [if_pos haddr]
  constructor
  · intro hfree haddr e hentry
    refine complete_of_free e.1 fun buff hlen => ?_
    have hsame := hfree [(withMessage frame (getRequestOf buff), 90)] []
    rw [hreply _ haddr, hreply _ haddr, processMessage_reply, processMessage_reply, hentry,
      after_getRequestOf hlen haddr] at hsame
    exact hsame
  · intro hcomplete h₁ h₂
    by_cases haddr : addressed mac ip frame = true
    · rw [hreply _ haddr, hreply _ haddr, processMessage_reply, processMessage_reply]
      cases hentry : entryAt (dataSNMP frame) (flen - FrameUdp4.DATA_OFFSET) with
      | none => rfl
      | some e =>
          obtain ⟨oid, hoid, hc⟩ := hcomplete haddr e hentry
          rw [Option.elim_some, Option.elim_some, hoid]
          exact replyTo_congr hc
    · unfold process
      rw [if_neg haddr, if_neg haddr]
      rfl

/-- A request for the OID of the MIB, which ends where the section would be. -/
def prefixRequest : List Byte :=
  [0x30, 35, 2, 1, 0, 4, 6, 0x73, 0x74, 0x61, 0x74, 0x75, 0x73, 0xA0, 22, 2, 1, 9, 2, 1, 0, 2, 1, 0,
    0x30, 11, 0x30, 9, 6, 5, 0x2B, 6, 1, 2, 1, 5, 0]

/-- **A request for an OID that is too short is answered with the sensors** after a request for
these, and not answered before any request. -/
theorem not_historyFree_prefixRequest :
    ¬ HistoryFree [2, 0, 0, 0, 0, 1] [192, 168, 1, 2] (frameOf prefixRequest) 79 := by
  intro hfree
  have hsame := hfree [(frameOf getRequest, 87)] []
  revert hsame
  decide +kernel

end Gpsdo.Snmp
