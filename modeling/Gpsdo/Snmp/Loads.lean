import Gpsdo.Snmp.Fields

set_option autoImplicit false

/-! # What `process` loads from a message

The readers fail with -1, and `process` does not always look at that: it goes on with the offset -1
and loads the byte in front of the message. Nor does it look whether the message is over before it
loads a tag. These loads lie in the message as long as the fields around them do.
-/

namespace Gpsdo.Snmp

open Net

/-! ## The condition -/

/-- The contents behind a length field run to the end of the message, or the field is 0. -/
def Fills (m : List Byte) (p : ℕ × ℕ) : Prop := p.1 = 0 ∨ p.1 = m.length - p.2

/-- A message of version 0 for the community `status`: the value of the first length field, and
where the request begins. -/
def requestAt (m : List Byte) : Option (ℕ × ℕ) :=
  if m.getD 0 0 = 0x30 then
    (lengthAt m 1).bind fun p =>
      if p.1 = 0 ∨ p.1 = m.length - p.2 then
        (integerAt m p.2).bind fun q =>
          if q.1 = 0 then
            (elementAt m 0x04 q.2).bind fun r =>
              if (m.drop r.2).take r.1 = COMMUNITY then some (p.1, r.2 + r.1) else none
          else none
      else none
  else none

/-- Where three INTEGERs in a row end. -/
def integersAt (m : List Byte) (k : ℕ) : Option ℕ :=
  (integerAt m k).bind fun p => (integerAt m p.2).bind fun p => (integerAt m p.2).map Prod.snd

/-- There is a byte at `k`. If it begins a list of variables, then its length field is complete, or
the length before it was not 0; and if the contents fill the message, there are some. -/
def VarsEnclosed (m : List Byte) (k slen : ℕ) : Prop :=
  k < m.length ∧ (m.getD k 0 = 0x30 → (lengthAt m (k + 1) = none → slen ≠ 0) ∧
    ∀ p ∈ lengthAt m (k + 1), Fills m p → p.2 < m.length)

/-- There is a byte at `k`. If it begins a request, then its length field is complete, or the length
before it was not 0; and if the contents fill the message, three INTEGERs and what follows are
enclosed. -/
def RequestEnclosed (m : List Byte) (k slen : ℕ) : Prop :=
  k < m.length ∧ (m.getD k 0 = 0xA0 → (lengthAt m (k + 1) = none → slen ≠ 0) ∧
    ∀ p ∈ lengthAt m (k + 1), Fills m p → ∃ q ∈ integersAt m p.2, VarsEnclosed m q p.1)

/-- The fields of a message are enclosed in it. -/
def Enclosed (m : List Byte) : Prop := ∀ p ∈ requestAt m, RequestEnclosed m p.2 p.1

/-! ## The list of variables -/

variable {data : ℤ → Byte} {m : List Byte} {k slen : ℕ} {s : Statics} {z : ℤ}

theorem not_inside_neg : ¬ Inside m (-1) := fun h => absurd h.1 (by decide)

theorem processVars_neg : ¬ (processVars data m.length s (-1) slen).Within (Inside m) := by
  unfold processVars
  rw [Reading.within_bind, Reading.within_load]
  exact fun h => not_inside_neg h.1

theorem fills_iff {n o : ℕ} (ho : o ≤ m.length) :
    ¬ (n ≠ 0 ∧ (m.length : ℤ) - o ≠ n) ↔ Fills m (n, o) := by
  unfold Fills
  omega

/-- **A tag, and a length field whose offset is not checked**: without a length field, the length
before it decides whether what follows is at the offset -1. -/
theorem uncheckedField_within {α : Type} (hm : Holds data m) (hz : z = k) (hslen : slen ≤ m.length)
    (tag : Byte) (a : α) {g : ℤ × ℕ → Reading ℤ α} {f : ℤ → ℕ → Reading ℤ α}
    (hg : ∀ offset n, g (offset, n) =
      if n ≠ 0 ∧ (m.length : ℤ) - offset ≠ n then pure a else f offset n)
    (hneg : ¬ (f (-1) 0).Within (Inside m)) :
    (Reading.load data z >>= fun t =>
      if t ≠ tag then pure a else readLength data (z + 1) m.length slen >>= g).Within (Inside m) ↔
      k < m.length ∧ (m.getD k 0 = tag → (lengthAt m (k + 1) = none → slen ≠ 0) ∧
        ∀ p ∈ lengthAt m (k + 1), Fills m p → (f p.2 p.1).Within (Inside m)) := by
  have hin : Inside m z ↔ k < m.length := by
    unfold Inside
    omega
  rw [Reading.within_bind, Reading.within_load, Reading.val_load, hin]
  refine and_congr_right fun hk => ?_
  rw [hm.load hz hk]
  by_cases htag : m.getD k 0 = tag
  case neg =>
    simp only [htag, not_false_eq_true, if_true, Reading.within_pure, false_imp_iff, ne_eq]
  rw [if_neg (not_not.mpr htag)]
  have hnext : z + 1 = (k + 1 : ℕ) := by omega
  simp only [Reading.within_bind, (readLength_spec hm hnext slen).2, true_and, htag, true_imp_iff]
  cases hfield : lengthAt m (k + 1) with
  | none =>
      simp only [readLength_none hm hnext slen hfield, hg]
      by_cases h0 : slen = 0
      · -- the offset is -1, and the length stays 0
        subst h0
        rw [if_neg (by omega)]
        simp [hneg]
      · rw [if_pos (by omega)]
        simp [h0]
  | some p =>
      obtain ⟨n, o⟩ := p
      have ho := (lengthAt_lt hfield).2
      simp only [readLength_some hm hnext slen hfield, hg, Option.mem_def, Option.some.injEq,
        forall_eq', reduceCtorEq, false_imp_iff, true_and]
      by_cases hfills : Fills m (n, o)
      · rw [if_neg ((fills_iff ho).mpr hfills)]
        exact ⟨fun h _ => h, fun h => h hfills⟩
      · rw [if_pos (not_not.mp (mt (fills_iff ho).mp hfills))]
        simp [hfills]

/-- Behind the tag of the first variable every offset is checked. -/
theorem readVar_within (hm : Holds data m) (hz : z = k) (s : Statics) (slen : ℕ) :
    (do
      let (offset, slen) ← readLength data z m.length slen
      if slen ≠ 0 ∧ (m.length : ℤ) - offset ≠ slen then pure (s, none)
      else do
        let (_, buffOID, lenOID) ← readOID data offset m.length s.buffOID OID_SIZE
        let s := { s with buffOID := buffOID, lenOID := lenOID }
        pure (s, dispatch s) : Reading ℤ (Statics × Option SnmpReply)).Within (Inside m) := by
  rw [Reading.within_bind]
  refine ⟨(readLength_spec hm hz slen).2, ?_⟩
  cases hfield : lengthAt m k with
  | none =>
      simp only [readLength_none hm hz slen hfield]
      split
      · exact Reading.within_pure _
      · rw [readOID, readTagged_neg]
        simp
  | some p =>
      simp only [readLength_some (n := p.1) (o := p.2) hm hz slen hfield]
      split
      · exact Reading.within_pure _
      · simp only [readOID, Reading.within_bind, (readTagged_spec hm rfl _ _ _).2,
          Reading.within_pure, and_true]

theorem processVars_within (hm : Holds data m) (hz : z = k) (hslen : slen ≤ m.length) :
    (processVars data m.length s z slen).Within (Inside m) ↔ VarsEnclosed m k slen := by
  unfold processVars VarsEnclosed
  refine (uncheckedField_within hm hz hslen 0x30 (s, none) (fun _ _ => rfl) fun h => ?_).trans ?_
  · rw [Reading.within_bind, Reading.within_load] at h
    exact not_inside_neg h.1
  refine and_congr_right fun _ => imp_congr_right fun _ => and_congr_right fun _ =>
    forall_congr' fun p => imp_congr_right fun hfield => imp_congr_right fun _ => ?_
  have hend : Inside m p.2 ↔ p.2 < m.length := by
    unfold Inside
    omega
  rw [Reading.within_bind, Reading.within_load, hend]
  refine and_iff_left ?_
  have hlast : (p.2 : ℤ) + 1 = (p.2 + 1 : ℕ) := by omega
  split
  · exact Reading.within_pure _
  · exact readVar_within hm hlast s p.1

/-! ## The request -/

/-- Where there is no INTEGER, either a byte behind the message is loaded, or the offset is -1. -/
theorem readInt32_fails (hm : Holds data m) (hz : z = k) (result : BitVec 32)
    (h : integerAt m k = none) :
    ¬ (readInt32 data z m.length result).Within (Inside m) ∨
      (readInt32 data z m.length result).val = (-1, result) := by
  cases helem : elementAt m 0x02 k with
  | none => exact Or.inr (readInt32_none hm hz result helem)
  | some p =>
      rw [integerAt, helem, Option.bind_some] at h
      split at h
      · rename_i hshort
        refine Or.inl fun hin => ?_
        have helem' : elementAt m 0x02 k = some (0, p.2) := by rw [helem, ← hshort.1]
        have := (readInt32_within hm hz result).mp hin p.2 helem'
        omega
      · cases h

theorem readInt32_within_of_some (hm : Holds data m) (hz : z = k) (result : BitVec 32)
    {p : BitVec 32 × ℕ} (h : integerAt m k = some p) :
    (readInt32 data z m.length result).Within (Inside m) := by
  refine (readInt32_within hm hz result).mpr fun o helem => ?_
  rw [integerAt, helem, Option.bind_some] at h
  by_contra hlt
  rw [if_pos ⟨rfl, by omega⟩] at h
  cases h

/-- **An INTEGER whose offset is not checked**: what follows must find it. -/
theorem readInt32_bind_within {β : Type} (hm : Holds data m) (hz : z = k) (result : BitVec 32)
    {f : ℤ × BitVec 32 → Reading ℤ β} (hneg : ∀ v, ¬ (f (-1, v)).Within (Inside m)) :
    (readInt32 data z m.length result >>= f).Within (Inside m) ↔
      ∃ p ∈ integerAt m k, (f ((p.2 : ℤ), p.1)).Within (Inside m) := by
  rw [Reading.within_bind]
  cases hint : integerAt m k with
  | none =>
      simp only [Option.mem_def, reduceCtorEq, false_and, exists_false, iff_false, not_and]
      intro hin
      rcases readInt32_fails hm hz result hint with hout | hval
      · exact absurd hin hout
      · rw [hval]
        exact hneg result
  | some p =>
      obtain ⟨v, j⟩ := p
      rw [readInt32_some hm hz result hint]
      simp [readInt32_within_of_some hm hz result hint]

theorem processIntegers_neg : ¬ (processIntegers data m.length s (-1) slen).Within (Inside m) := by
  unfold processIntegers
  simp only [readInt32_neg, Reading.within_bind, Reading.val_pure]
  exact fun h => processVars_neg h.2.2.2

/-- The offsets of the INTEGERs are not checked, so that all three must be there. -/
theorem processIntegers_within (hm : Holds data m) (hz : z = k) (hslen : slen ≤ m.length) :
    (processIntegers data m.length s z slen).Within (Inside m) ↔
      ∃ q ∈ integersAt m k, VarsEnclosed m q slen := by
  have hthird (s : Statics) (j : ℕ) (v v' : BitVec 32) :
      (readInt32 data j m.length s.errorId >>= fun p => processVars data m.length
        { s with reqId := v, errorStat := v', errorId := p.2 } p.1 slen).Within (Inside m) ↔
        ∃ p ∈ integerAt m j, VarsEnclosed m p.2 slen := by
    rw [readInt32_bind_within hm rfl s.errorId fun v'' => processVars_neg]
    exact exists_congr fun p => and_congr_right fun _ => processVars_within hm rfl hslen
  have hsecond (s : Statics) (j : ℕ) (v : BitVec 32) :
      (readInt32 data j m.length s.errorStat >>= fun p =>
        readInt32 data p.1 m.length s.errorId >>= fun q => processVars data m.length
          { s with reqId := v, errorStat := p.2, errorId := q.2 } q.1 slen).Within (Inside m) ↔
        ∃ p ∈ integerAt m j, ∃ q ∈ integerAt m p.2, VarsEnclosed m q.2 slen := by
    rw [readInt32_bind_within hm rfl s.errorStat fun v' => ?_]
    · exact exists_congr fun p => and_congr_right fun _ => hthird s p.2 v p.1
    · simp only [readInt32_neg, Reading.within_bind, Reading.val_pure]
      exact fun h => processVars_neg h.2
  have hfirst : (processIntegers data m.length s z slen).Within (Inside m) ↔
      ∃ p ∈ integerAt m k, ∃ q ∈ integerAt m p.2, ∃ r ∈ integerAt m q.2,
        VarsEnclosed m r.2 slen := by
    unfold processIntegers
    rw [readInt32_bind_within hm hz s.reqId fun v => ?_]
    · exact exists_congr fun p => and_congr_right fun _ => hsecond s p.2 p.1
    · simp only [readInt32_neg, Reading.within_bind, Reading.val_pure]
      exact fun h => processVars_neg h.2.2
  rw [hfirst]
  simp only [integersAt, Option.mem_def, Option.bind_eq_some_iff, Option.map_eq_some_iff]
  constructor
  · rintro ⟨p, hp, q, hq, r, hr, hvars⟩
    exact ⟨r.2, ⟨p, hp, q, hq, r, hr, rfl⟩, hvars⟩
  · rintro ⟨-, ⟨p, hp, q, hq, r, hr, rfl⟩, hvars⟩
    exact ⟨p, hp, q, hq, r, hr, hvars⟩

theorem processRequest_within (hm : Holds data m) (hz : z = k) (hslen : slen ≤ m.length) :
    (processRequest data m.length s z slen).Within (Inside m) ↔ RequestEnclosed m k slen := by
  unfold processRequest RequestEnclosed
  refine (uncheckedField_within hm hz hslen 0xA0 (s, none) (fun _ _ => rfl) processIntegers_neg).trans ?_
  refine and_congr_right fun _ => imp_congr_right fun _ => and_congr_right fun _ =>
    forall_congr' fun p => imp_congr_right fun hfield => imp_congr_right fun hfills => ?_
  have hn : p.1 ≤ m.length := by
    unfold Fills at hfills
    omega
  exact processIntegers_within hm rfl hn

/-! ## The message -/

theorem lengthAt_le_add {n o : ℕ} (h : lengthAt m k = some (n, o)) : o ≤ k + 3 := by
  unfold lengthAt at h
  dsimp only at h
  split_ifs at h <;> obtain ⟨-, rfl⟩ := Prod.mk.inj (Option.some.inj h) <;> omega

/-- `readBytes` copies the name of the community exactly when it is the contents. -/
theorem community_iff {n o : ℕ} (h : o + n ≤ m.length) :
    (min 16 n = 6 ∧
      (overwrite (List.replicate 16 0) ((m.drop o).take (min 16 n))).take 6 = COMMUNITY) ↔
      (m.drop o).take n = COMMUNITY := by
  have hlen : ((m.drop o).take n).length = n := length_drop_take h
  constructor
  · rintro ⟨hn, hbuff⟩
    obtain rfl : n = 6 := by omega
    rwa [hn, overwrite, List.take_left' hlen] at hbuff
  · intro hname
    obtain rfl : n = 6 := by
      rw [← hlen, hname]
      rfl
    exact ⟨rfl, by rw [overwrite]; exact (List.take_left' hlen).trans hname⟩

/-- Where the request begins, behind the name of the community at `j`. -/
theorem processCommunity_within {j : ℕ} (hm : Holds data m) (hslen : slen ≤ m.length) :
    (do
      let (offset, buff, blen) ← readBytes data j m.length (List.replicate 16 0) 16
      if offset < 0 ∨ blen ≠ 6 then pure (s, none)
      else if buff.take 6 ≠ COMMUNITY then pure (s, none)
      else processRequest data m.length s offset slen :
        Reading ℤ (Statics × Option SnmpReply)).Within (Inside m) ↔
      ∀ p ∈ (elementAt m 0x04 j).bind fun r =>
        if (m.drop r.2).take r.1 = COMMUNITY then some (slen, r.2 + r.1) else none,
        RequestEnclosed m p.2 p.1 := by
  rw [Reading.within_bind, readBytes, and_iff_right (readTagged_spec hm rfl _ _ _).2]
  cases helem : elementAt m 0x04 j with
  | none =>
      simp only [readTagged_none hm (z := (j : ℤ)) rfl (List.replicate 16 0) 16 helem]
      simp
  | some r =>
      obtain ⟨n, o⟩ := r
      have hfits := (elementAt_eq_some_iff.mp helem).2.2
      simp only [readTagged_some hm (z := (j : ℤ)) rfl (List.replicate 16 0) 16 helem,
        Option.bind_some]
      by_cases hname : (m.drop o).take n = COMMUNITY
      · obtain ⟨hsix, hbuff⟩ := (community_iff hfits).mpr hname
        rw [if_neg (by omega), if_neg (not_not.mpr hbuff), if_pos hname,
          processRequest_within hm rfl hslen]
        simp
      · rw [if_neg hname]
        by_cases hsix : min 16 n = 6
        · rw [if_neg (by omega),
            if_pos fun hbuff => hname ((community_iff hfits).mp ⟨hsix, hbuff⟩)]
          simp
        · rw [if_pos (Or.inr hsix)]
          simp

/-- **What is loaded from the message lies in it exactly when its fields are enclosed.** -/
theorem processMessage_within (hm : Holds data m) (hlen : 18 ≤ m.length) :
    (processMessage data m.length s).Within (Inside m) ↔ Enclosed m := by
  unfold processMessage Enclosed requestAt
  have hin : Inside m 0 := ⟨le_refl _, by omega⟩
  have hfirst : data 0 = m.getD 0 0 := hm.load rfl (by omega)
  simp only [Reading.within_bind, Reading.within_load, Reading.val_load, hin, true_and, hfirst]
  by_cases htag : m.getD 0 0 = 0x30
  case neg =>
    rw [if_pos htag, if_neg htag]
    simp
  simp only [htag, ne_eq, not_true_eq_false, if_false, if_true, Reading.within_bind,
    (readLength_spec hm (z := 1) (k := 1) rfl 0).2, true_and]
  cases hfield : lengthAt m 1 with
  | none =>
      simp only [readLength_none hm (z := 1) rfl 0 hfield]
      simp
  | some p =>
      obtain ⟨slen, o⟩ := p
      have ho := (lengthAt_lt hfield).2
      have hsmall := lengthAt_le_add hfield
      simp only [readLength_some hm (z := 1) rfl 0 hfield, Option.bind_some]
      rw [if_neg (by omega)]
      by_cases hfills : slen = 0 ∨ slen = m.length - o
      case neg =>
        rw [if_pos (by omega), if_neg hfills]
        simp
      rw [if_neg (by omega), if_pos hfills]
      have hslen : slen ≤ m.length := by omega
      -- the version is so far from the end that its INTEGER may be empty
      have hversion : (readInt32 data o m.length 0).Within (Inside m) := by
        refine (readInt32_within hm rfl 0).mpr fun o' helem => ?_
        have := lengthAt_le_add (elementAt_eq_some_iff.mp helem).2.1
        omega
      rw [Reading.within_bind, and_iff_right hversion]
      cases hint : integerAt m o with
      | none =>
          have hval := (readInt32_fails hm rfl 0 hint).resolve_left (not_not.mpr hversion)
          simp only [hval]
          simp
      | some q =>
          obtain ⟨version, j⟩ := q
          simp only [readInt32_some hm rfl 0 hint, Option.bind_some]
          by_cases hzero : version = 0
          case neg =>
            rw [if_pos (Or.inr hzero), if_neg hzero]
            simp
          have hgo : ¬ ((j : ℤ) < 0 ∨ version ≠ 0) := by
            rintro (hneg | hnot)
            · omega
            · exact hnot hzero
          rw [if_neg hgo, if_pos hzero]
          exact processCommunity_within hm hslen

/-! ## Frames -/

/-- The message in a frame. -/
def message (frame : Mem Byte) (flen : ℕ) : List Byte :=
  frame.load FrameUdp4.DATA_OFFSET (flen - FrameUdp4.DATA_OFFSET)

theorem length_message (frame : Mem Byte) (flen : ℕ) :
    (message frame flen).length = flen - FrameUdp4.DATA_OFFSET := by
  simp [message, Mem.load]

theorem holds_message (frame : Mem Byte) (flen : ℕ) :
    Holds (dataSNMP frame) (message frame flen) := by
  intro k hk
  rw [length_message] at hk
  have haddr : ((FrameUdp4.DATA_OFFSET : ℤ) + k).toNat = FrameUdp4.DATA_OFFSET + k := by omega
  rw [dataSNMP, haddr, List.getD_eq_getElem?_getD, message, Mem.load, List.getElem?_map,
    List.getElem?_range hk]
  rfl

/-- **The loads of `process` lie in the message exactly when its fields are enclosed in it**, or the
frame is for another device. -/
theorem process_loads_iff (mac ip : List Byte) (frame : Mem Byte) {flen : ℕ} (s : Statics)
    (hlen : FrameUdp4.DATA_OFFSET + 18 ≤ flen) :
    (∀ k ∈ (process mac ip frame flen s).reads, 0 ≤ k ∧ k < (flen : ℤ) - FrameUdp4.DATA_OFFSET) ↔
      (addressed mac ip frame = true → Enclosed (message frame flen)) := by
  have hlength := length_message frame flen
  have hdlen : (flen : ℤ) - FrameUdp4.DATA_OFFSET = (message frame flen).length := by omega
  show (process mac ip frame flen s).Within _ ↔ _
  unfold process
  rw [hdlen]
  split
  · rename_i haddr
    exact (processMessage_within (holds_message frame flen) (by omega)).trans
      ⟨fun h _ => h, fun h => h haddr⟩
  · rename_i haddr
    simp [haddr]

instance (m : List Byte) (p : ℕ × ℕ) : Decidable (Fills m p) :=
  inferInstanceAs (Decidable (_ ∨ _))

instance (m : List Byte) (k slen : ℕ) : Decidable (VarsEnclosed m k slen) :=
  inferInstanceAs (Decidable (_ ∧ _))

instance (m : List Byte) (k slen : ℕ) : Decidable (RequestEnclosed m k slen) :=
  inferInstanceAs (Decidable (_ ∧ _))

instance (m : List Byte) : Decidable (Enclosed m) :=
  inferInstanceAs (Decidable (∀ p ∈ requestAt m, RequestEnclosed m p.2 p.1))

/-- A frame for 02:00:00:00:00:01 and 192.168.1.2 with a message. -/
def frameOf (msg : List Byte) : Mem Byte := fun i =>
  ([2, 0, 0, 0, 0, 1] ++ List.replicate 24 0 ++ [192, 168, 1, 2] ++ List.replicate 8 0 ++ msg).getD i 0

/-- A request for the values of the sensors. -/
def getRequest : List Byte :=
  [0x30, 43, 2, 1, 0, 4, 6, 0x73, 0x74, 0x61, 0x74, 0x75, 0x73, 0xA0, 30, 2, 1, 7, 2, 1, 0, 2, 1, 0,
    0x30, 19, 0x30, 17, 6, 13, 0x2B, 6, 1, 2, 1, 99, 1, 1, 1, 4, 1, 0, 0, 5, 0]

/-- The static memory. -/
def noRequest : Statics := ⟨List.replicate OID_SIZE 0, 0, 0, 0, 0⟩

theorem process_loads_iff_getRequest :
    (process [2, 0, 0, 0, 0, 1] [192, 168, 1, 2] (frameOf getRequest) 87 noRequest).Within
      (fun k => 0 ≤ k ∧ k < (87 : ℕ) - (FrameUdp4.DATA_OFFSET : ℤ)) :=
  (process_loads_iff _ _ (frameOf getRequest) noRequest (by decide)).mpr fun _ => by
    decide +kernel

/-- The length field of the request is of a form that `readLength` does not know. -/
def badLength : List Byte :=
  [0x30, 0, 2, 1, 0, 4, 6, 0x73, 0x74, 0x61, 0x74, 0x75, 0x73, 0xA0, 0x83, 0, 0, 0]

/-- **The byte in front of the message is loaded.** -/
theorem process_loads_badLength : ¬ ∀ k ∈ (process [2, 0, 0, 0, 0, 1] [192, 168, 1, 2]
    (frameOf badLength) 60 noRequest).reads,
      0 ≤ k ∧ k < (60 : ℕ) - (FrameUdp4.DATA_OFFSET : ℤ) := by
  decide +kernel

end Gpsdo.Snmp
