import Gpsdo.Snmp.Loads

set_option autoImplicit false

/-! # The OID of a request (`lib/snmp/snmp.cpp`)

`process` as a function of the message and of the static variables: the way to the entry of the
first variable does not depend on these, nor does the request id that is found there. What is left
of an earlier request is the buffer that the OID is read over.
-/

namespace Gpsdo.Snmp

open Net

/-! ## The way to the OID

The fields in front of the OID are read without a look at the static variables.
-/

section Fields

variable (data : ℤ → Byte) (dlen : ℤ)

/-- A tag, and a length field: where the contents begin, and the length. The contents fill the
message, or the length is 0. -/
def openField (tag : Byte) (offset : ℤ) (slen : ℕ) : Option (ℤ × ℕ) :=
  if data offset = tag then
    let p := (readLength data (offset + 1) dlen slen).val
    if p.2 ≠ 0 ∧ dlen - p.1 ≠ p.2 then none else some p
  else none

/-- The message up to its request: version 0, and the community `status`. -/
def openMessage : Option (ℤ × ℕ) :=
  (openField data dlen 0x30 0 0).bind fun p =>
    let version := (readInt32 data p.1 dlen 0).val
    let community := (readBytes data version.1 dlen (List.replicate 16 0) 16).val
    if p.1 < 0 ∨ version.1 < 0 ∨ version.2 ≠ 0 then none
    else if community.1 < 0 ∨ community.2.2 ≠ 6 ∨ community.2.1.take 6 ≠ COMMUNITY then none
    else some (community.1, p.2)

/-- The offset behind three INTEGERs. -/
def afterIntegers (offset : ℤ) : ℤ :=
  let i := (readInt32 data offset dlen 0).val.1
  let e := (readInt32 data i dlen 0).val.1
  (readInt32 data e dlen 0).val.1

/-- The entry of the first variable: the id of the request, and where the OID is looked for. -/
def entryAt : Option (BitVec 32 × ℤ) :=
  (openMessage data dlen).bind fun m =>
  (openField data dlen 0xA0 m.1 m.2).bind fun p =>
  (openField data dlen 0x30 (afterIntegers data dlen p.1) p.2).bind fun q =>
  (openField data dlen 0x30 q.1 q.2).map fun r => ((readInt32 data p.1 dlen 0).val.2, r.1)

/-- The bytes of an OID, as many as there is room for. -/
def oidAt (offset : ℤ) : Option (List Byte) :=
  let p := (readOID data offset dlen [] OID_SIZE).val
  if p.1 < 0 then none else some p.2.1

end Fields

/-! ## The readers and their results -/

variable {data : ℤ → Byte} {dlen offset : ℤ} {slen : ℕ} {id : BitVec 32}

theorem length_loadBytes (data : ℤ → Byte) (n : ℕ) (offset : ℤ) :
    (loadBytes data offset n).val.length = n := by
  induction n generalizing offset with
  | zero => rfl
  | succ n ih =>
      show ((loadBytes data (offset + 1) n).val).length + 1 = n + 1
      rw [ih]

/-- What `readTagged` leaves in a buffer is what it reads, over what was there; when it fails, the
buffer and the room are as they were. -/
theorem readTagged_over (tag : Byte) (data : ℤ → Byte) (offset dlen : ℤ) (buff : List Byte)
    (rlen : ℕ) :
    (readTagged tag data offset dlen buff rlen).val =
      let p := (readTagged tag data offset dlen [] rlen).val
      if p.1 < 0 then (-1, buff, rlen) else (p.1, overwrite buff p.2.1, p.2.1.length) := by
  unfold readTagged
  by_cases hneg : offset < 0
  · simp [hneg]
  by_cases hend : dlen ≤ offset
  · simp [hneg, hend]
  by_cases htag : data offset = tag
  case neg => simp [hneg, hend, htag]
  simp only [if_neg hneg, if_neg hend, Reading.val_bind, Reading.val_load, htag, ne_eq,
    not_true_eq_false, if_false]
  by_cases hfits : (readLength data (offset + 1) dlen 0).val.1 < 0 ∨
      dlen < (readLength data (offset + 1) dlen 0).val.1 + (readLength data (offset + 1) dlen 0).val.2
  · simp [hfits]
  · have hnonneg : ¬ (readLength data (offset + 1) dlen 0).val.1 +
        ((readLength data (offset + 1) dlen 0).val.2 : ℤ) < 0 := by omega
    simp only [if_neg hfits, Reading.val_bind, Reading.val_pure, if_neg hnonneg]
    simp [overwrite, length_loadBytes]

theorem readSign_sum (data : ℤ → Byte) (offset blen : ℤ) :
    (readSign data offset blen).val.2.1 + (readSign data offset blen).val.2.2 = offset + blen := by
  unfold readSign
  split
  · show offset + 1 + (blen - 1) = _
    omega
  · split
    · show offset + 2 + (blen - 2) = _
      omega
    · rfl

/-- The result of `readInt32` is the one before when it fails, and does not depend on it else. -/
theorem readInt32_over (data : ℤ → Byte) (offset dlen : ℤ) (result : BitVec 32) :
    (readInt32 data offset dlen result).val =
      let p := (readInt32 data offset dlen 0).val
      if p.1 < 0 then (-1, result) else p := by
  unfold readInt32
  by_cases hneg : offset < 0
  · simp [hneg]
  by_cases hend : dlen ≤ offset
  · simp [hneg, hend]
  by_cases htag : data offset = 0x02
  case neg =>
    simp only [if_neg hneg, if_neg hend, Reading.val_bind, Reading.val_load, htag, ne_eq,
      not_false_eq_true, if_true, Reading.val_pure]
    rfl
  simp only [if_neg hneg, if_neg hend, Reading.val_bind, Reading.val_load, htag, ne_eq,
    not_true_eq_false, if_false]
  by_cases hfits : (readLength data (offset + 1) dlen 0).val.1 < 0 ∨
      dlen < (readLength data (offset + 1) dlen 0).val.1 + (readLength data (offset + 1) dlen 0).val.2
  · simp [hfits]
  · have hnonneg : ¬ (readLength data (offset + 1) dlen 0).val.1 +
        ((readLength data (offset + 1) dlen 0).val.2 : ℤ) < 0 := by omega
    simp only [if_neg hfits, Reading.val_bind, Reading.val_pure, readSign_sum, if_neg hnonneg]

/-- The offset behind an INTEGER does not depend on the result before. -/
theorem readInt32_offset (data : ℤ → Byte) (offset dlen : ℤ) (result : BitVec 32) :
    (readInt32 data offset dlen result).val.1 = (readInt32 data offset dlen 0).val.1 := by
  have hzero := readInt32_over data offset dlen 0
  rw [readInt32_over]
  dsimp only at hzero ⊢
  split at hzero
  · rename_i hneg
    rw [if_pos hneg, hzero]
  · rename_i hneg
    rw [if_neg hneg]

/-! ## `process` and its fields -/

/-- A tag and a length field, and what is done without them. -/
theorem openField_val {α : Type} (data : ℤ → Byte) (dlen offset : ℤ) (slen : ℕ) (tag : Byte) (a : α)
    {g : ℤ × ℕ → Reading ℤ α} {f : ℤ → ℕ → Reading ℤ α}
    (hg : ∀ o n, g (o, n) = if n ≠ 0 ∧ dlen - o ≠ n then pure a else f o n) :
    (Reading.load data offset >>= fun t =>
      if t ≠ tag then pure a else readLength data (offset + 1) dlen slen >>= g).val =
      (openField data dlen tag offset slen).elim a fun p => (f p.1 p.2).val := by
  unfold openField
  rw [Reading.val_bind, Reading.val_load]
  by_cases htag : data offset = tag
  case neg => rw [if_pos htag, if_neg htag, Option.elim_none, Reading.val_pure]
  have hvalue := hg (readLength data (offset + 1) dlen slen).val.1
    (readLength data (offset + 1) dlen slen).val.2
  rw [if_neg (not_not.mpr htag), if_pos htag, Reading.val_bind, hvalue]
  dsimp only
  split
  · rfl
  · rfl

/-- The static variables when the OID has been looked for. -/
def readEntry (data : ℤ → Byte) (dlen offset : ℤ) (s : Statics) : Statics :=
  let p := (readOID data offset dlen s.buffOID OID_SIZE).val.2
  { s with buffOID := p.1, lenOID := p.2 }

theorem processVars_val (data : ℤ → Byte) (dlen : ℤ) (s : Statics) (offset : ℤ) (slen : ℕ) :
    (processVars data dlen s offset slen).val =
      ((openField data dlen 0x30 offset slen).bind fun q =>
        openField data dlen 0x30 q.1 q.2).elim (s, none)
          fun r => (readEntry data dlen r.1 s, dispatch (readEntry data dlen r.1 s)) := by
  unfold processVars
  apply Eq.trans
  · apply openField_val
    intro o n
    rfl
  cases openField data dlen 0x30 offset slen with
  | none => rfl
  | some q =>
      rw [Option.elim_some, Option.bind_some]
      apply Eq.trans
      · apply openField_val
        intro o n
        rfl
      rfl

/-- The static variables when the three INTEGERs at `offset` have been read. -/
def readIntegers (data : ℤ → Byte) (dlen offset : ℤ) (s : Statics) : Statics :=
  let i := (readInt32 data offset dlen s.reqId).val
  let e := (readInt32 data i.1 dlen s.errorStat).val
  let x := (readInt32 data e.1 dlen s.errorId).val
  { s with reqId := i.2, errorStat := e.2, errorId := x.2 }

theorem processIntegers_val (data : ℤ → Byte) (dlen : ℤ) (s : Statics) (offset : ℤ) (slen : ℕ) :
    (processIntegers data dlen s offset slen).val =
      (processVars data dlen (readIntegers data dlen offset s) (afterIntegers data dlen offset)
        slen).val := by
  unfold processIntegers afterIntegers readIntegers
  simp only [Reading.val_bind, readInt32_offset data _ dlen s.reqId,
    readInt32_offset data _ dlen s.errorStat, readInt32_offset data _ dlen s.errorId]

theorem processRequest_val (data : ℤ → Byte) (dlen : ℤ) (s : Statics) (offset : ℤ) (slen : ℕ) :
    (processRequest data dlen s offset slen).val =
      (openField data dlen 0xA0 offset slen).elim (s, none)
        fun p => (processIntegers data dlen s p.1 p.2).val := by
  unfold processRequest
  apply openField_val
  intro o n
  rfl

theorem processMessage_val (data : ℤ → Byte) (dlen : ℤ) (s : Statics) :
    (processMessage data dlen s).val =
      (openMessage data dlen).elim (s, none) fun m => (processRequest data dlen s m.1 m.2).val := by
  unfold processMessage openMessage openField
  rw [Reading.val_bind, Reading.val_load]
  by_cases htag : data 0 = 0x30
  case neg => rw [if_pos htag, if_neg htag, Option.bind_none, Option.elim_none, Reading.val_pure]
  rw [if_neg (not_not.mpr htag), if_pos htag, Reading.val_bind, zero_add]
  dsimp only
  by_cases hneg : (readLength data 1 dlen 0).val.1 < 0
  · rw [if_pos hneg]
    split
    · rfl
    · rw [Option.bind_some, if_pos (Or.inl hneg)]
      rfl
  rw [if_neg hneg]
  by_cases hfills : (readLength data 1 dlen 0).val.2 ≠ 0 ∧
      dlen - (readLength data 1 dlen 0).val.1 ≠ (readLength data 1 dlen 0).val.2
  · rw [if_pos hfills, if_pos hfills]
    rfl
  rw [if_neg hfills, if_neg hfills, Option.bind_some, Reading.val_bind]
  by_cases hversion : (readInt32 data (readLength data 1 dlen 0).val.1 dlen 0).val.1 < 0 ∨
      (readInt32 data (readLength data 1 dlen 0).val.1 dlen 0).val.2 ≠ 0
  · rw [if_pos hversion, if_pos (Or.inr hversion)]
    rfl
  rw [if_neg hversion, if_neg (not_or.mpr ⟨hneg, hversion⟩), Reading.val_bind]
  generalize (readBytes data (readInt32 data (readLength data 1 dlen 0).val.1 dlen 0).val.1 dlen
    (List.replicate 16 0) 16).val = community
  by_cases hsix : community.1 < 0 ∨ community.2.2 ≠ 6
  · rw [if_pos hsix, if_pos (or_assoc.mp (Or.inl hsix))]
    rfl
  rw [if_neg hsix]
  by_cases hname : community.2.1.take 6 ≠ COMMUNITY
  · rw [if_pos hname, if_pos (or_assoc.mp (Or.inr hname))]
    rfl
  · rw [if_neg hname, if_neg fun h => (or_assoc.mpr h).elim hsix hname]
    rfl

/-! ## The offset -1

The offsets behind the INTEGERs are not checked. When one of them is not there, the byte in front of
the message is taken for the tag of the variables, and the tag of the message for their length; this
length and the one of the message then do not fit together.
-/

theorem readLength_short (data : ℤ → Byte) (slen : ℕ) (hpos : 0 ≤ offset) (hlt : offset < dlen)
    (hshort : data offset &&& 0x80 = 0) :
    (readLength data offset dlen slen).val = (offset + 1, (data offset).toNat) := by
  unfold readLength
  rw [if_neg (by omega), if_neg (by omega), Reading.val_bind, Reading.val_load, if_pos hshort]
  rfl

theorem openField_eq_some {tag : Byte} {p : ℤ × ℕ}
    (h : openField data dlen tag offset slen = some p) :
    data offset = tag ∧ (readLength data (offset + 1) dlen slen).val = p ∧
      (p.2 = 0 ∨ dlen - p.1 = p.2) := by
  unfold openField at h
  by_cases htag : data offset = tag
  case neg =>
    rw [if_neg htag] at h
    cases h
  rw [if_pos htag] at h
  dsimp only at h
  by_cases hfills : (readLength data (offset + 1) dlen slen).val.2 ≠ 0 ∧
      dlen - (readLength data (offset + 1) dlen slen).val.1 ≠
        (readLength data (offset + 1) dlen slen).val.2
  · rw [if_pos hfills] at h
    cases h
  · rw [if_neg hfills] at h
    obtain rfl := Option.some.inj h
    exact ⟨htag, rfl, by omega⟩

theorem openMessage_eq_some {m : ℤ × ℕ} (h : openMessage data dlen = some m) :
    ∃ p, openField data dlen 0x30 0 0 = some p ∧ 0 ≤ p.1 := by
  unfold openMessage at h
  obtain ⟨p, hp, hrest⟩ := Option.bind_eq_some_iff.mp h
  refine ⟨p, hp, ?_⟩
  by_contra hneg
  rw [if_pos (Or.inl (by omega))] at hrest
  cases hrest

/-- No entry is found from the offset -1. -/
theorem openField_neg {m q : ℤ × ℕ} (hmsg : openMessage data dlen = some m)
    (h : openField data dlen 0x30 (-1) slen = some q) :
    openField data dlen 0x30 q.1 q.2 = none := by
  obtain ⟨p, hp, hpos⟩ := openMessage_eq_some hmsg
  obtain ⟨hfirst, hlen, hfills⟩ := openField_eq_some hp
  have hlong : 1 < dlen := by
    by_contra hshort
    have hneg : (readLength data (0 + 1) dlen 0).val.1 = -1 := by
      unfold readLength
      rw [if_neg (by omega), if_pos (by omega)]
      rfl
    rw [hlen] at hneg
    omega
  have hshort : ∀ k : ℤ, data k = 0x30 → data k &&& 0x80 = 0 := by
    intro k hk
    rw [hk]
    decide
  -- the tag of the message is the length
  obtain ⟨-, hq, hfull⟩ := openField_eq_some h
  have htag := readLength_short data slen (le_refl 0) (show 0 < dlen by omega) (hshort 0 hfirst)
  rw [show (-1 : ℤ) + 1 = 0 from rfl, htag, hfirst] at hq
  subst hq
  have hdlen : dlen = 49 := by
    have hval : ((0x30 : Byte).toNat : ℤ) = 48 := rfl
    have hne : (0x30 : Byte).toNat = 48 := rfl
    omega
  by_contra hsome
  obtain ⟨r, hr⟩ := Option.ne_none_iff_exists'.mp hsome
  obtain ⟨hsecond, -, -⟩ := openField_eq_some hr
  have hmessage := readLength_short data 0 (show (0 : ℤ) ≤ 0 + 1 by omega)
    (show 0 + 1 < dlen by omega) (hshort _ hsecond)
  rw [hmessage, hsecond] at hlen
  subst hlen
  have hval : ((0x30 : Byte).toNat : ℤ) = 48 := rfl
  have hne : (0x30 : Byte).toNat = 48 := rfl
  omega

theorem readInt32_failed (h : (readInt32 data offset dlen 0).val.1 < 0) :
    (readInt32 data offset dlen 0).val.1 = -1 := by
  have hover := readInt32_over data offset dlen 0
  dsimp only at hover
  rw [if_pos h] at hover
  rw [hover]

/-- Without the first INTEGER there is none. -/
theorem afterIntegers_failed (h : (readInt32 data offset dlen 0).val.1 < 0) :
    afterIntegers data dlen offset = -1 := by
  unfold afterIntegers
  dsimp only
  rw [readInt32_failed h, readInt32_neg, Reading.val_pure, readInt32_neg]
  rfl

/-! ## The reply to a frame -/

/-- Without an entry there is no reply. -/
theorem processMessage_noEntry (s : Statics) (h : entryAt data dlen = none) :
    (processMessage data dlen s).val.2 = none := by
  unfold entryAt at h
  rw [processMessage_val]
  cases hmsg : openMessage data dlen with
  | none => rfl
  | some m =>
      rw [hmsg, Option.bind_some] at h
      rw [Option.elim_some, processRequest_val]
      cases hreq : openField data dlen 0xA0 m.1 m.2 with
      | none => rfl
      | some p =>
          rw [hreq, Option.bind_some] at h
          rw [Option.elim_some, processIntegers_val, processVars_val]
          have hvars : ((openField data dlen 0x30 (afterIntegers data dlen p.1) p.2).bind fun q =>
              openField data dlen 0x30 q.1 q.2) = none := by
            cases hq : openField data dlen 0x30 (afterIntegers data dlen p.1) p.2 with
            | none => rfl
            | some q =>
                rw [hq, Option.bind_some, Option.map_eq_none_iff] at h
                rwa [Option.bind_some]
          rw [hvars]
          rfl

/-- **The entry decides with its own request id**, and with what the OID is read over. -/
theorem processMessage_entry (s : Statics) {o : ℤ}
    (h : entryAt data dlen = some (id, o)) : ∃ t : Statics, t.buffOID = s.buffOID ∧ t.reqId = id ∧
      (processMessage data dlen s).val =
        (readEntry data dlen o t, dispatch (readEntry data dlen o t)) := by
  unfold entryAt at h
  obtain ⟨m, hmsg, h⟩ := Option.bind_eq_some_iff.mp h
  obtain ⟨p, hp, h⟩ := Option.bind_eq_some_iff.mp h
  obtain ⟨q, hq, h⟩ := Option.bind_eq_some_iff.mp h
  obtain ⟨r, hr, h⟩ := Option.map_eq_some_iff.mp h
  obtain ⟨hid, ho⟩ := Prod.mk.inj h
  refine ⟨readIntegers data dlen p.1 s, rfl, ?_, ?_⟩
  · -- the request id has been read, or no entry would have been found
    have hread : ¬ (readInt32 data p.1 dlen 0).val.1 < 0 := by
      intro hneg
      rw [afterIntegers_failed hneg] at hq
      rw [openField_neg hmsg hq] at hr
      cases hr
    show (readInt32 data p.1 dlen s.reqId).val.2 = id
    rw [readInt32_over]
    dsimp only
    rw [if_neg hread, hid]
  · rw [processMessage_val, hmsg, Option.elim_some, processRequest_val, hp, Option.elim_some,
      processIntegers_val, processVars_val, hq, Option.bind_some, hr, Option.elim_some, ho]

/-- The static variables when the OID has been looked for, from the bytes of the OID alone. -/
theorem readEntry_eq (data : ℤ → Byte) (dlen offset : ℤ) (s : Statics) :
    readEntry data dlen offset s = (oidAt data dlen offset).elim { s with lenOID := OID_SIZE }
      fun oid => { s with buffOID := overwrite s.buffOID oid, lenOID := oid.length } := by
  unfold readEntry oidAt readOID
  rw [readTagged_over]
  dsimp only
  split
  · rfl
  · rfl

/-- The reply under a request id when an OID has been looked for over the bytes of `buff`. -/
def replyTo (id : BitVec 32) (oid : Option (List Byte)) (buff : List Byte) : Option SnmpReply :=
  dispatch ⟨oid.elim buff (overwrite buff), oid.elim OID_SIZE List.length, id, 0, 0⟩

theorem processMessage_reply (data : ℤ → Byte) (dlen : ℤ) (s : Statics) :
    (processMessage data dlen s).val.2 = (entryAt data dlen).elim none
      fun e => replyTo e.1 (oidAt data dlen e.2) s.buffOID := by
  cases hentry : entryAt data dlen with
  | none => exact processMessage_noEntry s hentry
  | some e =>
      obtain ⟨id, o⟩ := e
      obtain ⟨t, hbuff, hid, hval⟩ := processMessage_entry s hentry
      rw [hval, readEntry_eq, Option.elim_some, ← hbuff, ← hid]
      cases oidAt data dlen o with
      | none => rfl
      | some oid => rfl

end Gpsdo.Snmp
