import Gpsdo.Snmp.Reader

set_option autoImplicit false

/-! # The fields of a message

What the readers look for, as functions of the bytes of the message alone: a length field, the
contents of an element, an INTEGER. A reader that is given an offset in the message finds the field
or fails, and loads no byte outside of the message, with one exception: of an INTEGER without
contents it loads the two bytes that follow.
-/

namespace Gpsdo.Snmp

open Net

/-! ## Fields -/

/-- The memory holds the message. -/
def Holds (data : ℤ → Byte) (m : List Byte) : Prop := ∀ k : ℕ, k < m.length → data k = m.getD k 0

/-- The offset lies in the message. -/
def Inside (m : List Byte) (k : ℤ) : Prop := 0 ≤ k ∧ k < m.length

/-- The length field at `k`: its value, and where the contents begin. Behind a field of the long
form there is a byte. -/
def lengthAt (m : List Byte) (k : ℕ) : Option (ℕ × ℕ) :=
  let head := m.getD k 0
  if m.length ≤ k then none
  else if head.toNat < 0x80 then some (head.toNat, k + 1)
  else if head = 0x81 ∧ k + 2 < m.length then some ((m.getD (k + 1) 0).toNat, k + 2)
  else if head = 0x82 ∧ k + 3 < m.length then
    some ((m.getD (k + 1) 0 ++ m.getD (k + 2) 0).toNat, k + 3)
  else none

/-- The element with a tag at `k`: the length of its contents, and where they begin. -/
def elementAt (m : List Byte) (tag : Byte) (k : ℕ) : Option (ℕ × ℕ) :=
  if k < m.length ∧ m.getD k 0 = tag then
    (lengthAt m (k + 1)).filter fun p => p.2 + p.1 ≤ m.length
  else none

variable {data : ℤ → Byte} {m : List Byte} {k n o : ℕ}

/-- A length field lies in the message. -/
theorem lengthAt_lt (h : lengthAt m k = some (n, o)) : k < o ∧ o ≤ m.length := by
  unfold lengthAt at h
  dsimp only at h
  split_ifs at h <;> obtain ⟨-, rfl⟩ := Prod.mk.inj (Option.some.inj h) <;> omega

theorem elementAt_eq_some_iff {tag : Byte} : elementAt m tag k = some (n, o) ↔
    (k < m.length ∧ m.getD k 0 = tag) ∧ lengthAt m (k + 1) = some (n, o) ∧ o + n ≤ m.length := by
  unfold elementAt
  split <;> rename_i h
  · rw [and_iff_right h, Option.filter_eq_some_iff, decide_eq_true_eq]
  · exact ⟨(fun h' => by cases h'), fun h' => absurd h'.1 h⟩

/-! ## Loads from the message -/

theorem Holds.load (hm : Holds data m) {z : ℤ} (hz : z = k) (h : k < m.length) :
    data z = m.getD k 0 := by
  rw [hz, hm k h]

theorem load16_spec (hm : Holds data m) {z : ℤ} (hz : z = k) :
    ((load16 data z).Within (Inside m) ↔ k + 1 < m.length) ∧
      (k + 1 < m.length → (load16 data z).val = m.getD k 0 ++ m.getD (k + 1) 0) := by
  unfold load16
  constructor
  · simp only [Reading.within_bind, Reading.within_load, Reading.within_pure, Inside, and_true]
    omega
  · intro h
    simp only [Reading.val_bind, Reading.val_load, Reading.val_pure]
    rw [hm.load hz (by omega), hm.load (k := k + 1) (by omega) h]

theorem loadBytes_spec (hm : Holds data m) {z : ℤ} (hz : z = k) (h : k + n ≤ m.length) :
    (loadBytes data z n).Within (Inside m) ∧ (loadBytes data z n).val = (m.drop k).take n := by
  induction n generalizing z k with
  | zero => simp [loadBytes]
  | succ n ih =>
      obtain ⟨hin, hval⟩ := ih (k := k + 1) (z := z + 1) (by omega) (by omega)
      unfold loadBytes
      simp only [Reading.within_bind, Reading.within_load, Reading.within_pure, Reading.val_bind,
        Reading.val_load, Reading.val_pure, hin, hval, and_true]
      refine ⟨⟨by omega, by omega⟩, ?_⟩
      rw [hm.load hz (by omega), List.drop_eq_getElem_cons (show k < m.length by omega),
        List.take_succ_cons, List.getD_eq_getElem?_getD,
        List.getElem?_eq_getElem (show k < m.length by omega), Option.getD_some]

/-! ## `readLength` -/

theorem shortForm_iff : ∀ head : Byte, head &&& 0x80 = 0 ↔ head.toNat < 0x80 := by decide

theorem longForm_iff : ∀ head : Byte, ¬ head.toNat < 0x80 →
    ((head &&& 0x7F = 1 ↔ head = 0x81) ∧ (head &&& 0x7F = 2 ↔ head = 0x82)) := by decide

/-- **`readLength` finds the length field**, and loads nothing outside of the message. -/
theorem readLength_spec (hm : Holds data m) {z : ℤ} (hz : z = k) (result : ℕ) :
    (readLength data z m.length result).val =
        (lengthAt m k).elim (-1, result) (fun p => ((p.2 : ℤ), p.1)) ∧
      (readLength data z m.length result).Within (Inside m) := by
  unfold readLength lengthAt
  dsimp only
  rw [if_neg (by omega)]
  by_cases hk : m.length ≤ k
  · rw [if_pos (by omega), if_pos hk]
    simp
  rw [if_neg (by omega), if_neg hk]
  have hhead := hm.load hz (by omega)
  have hin : Inside m z := ⟨by omega, by omega⟩
  simp only [Reading.val_bind, Reading.val_load, Reading.within_bind, Reading.within_load, hin,
    true_and, hhead, shortForm_iff]
  by_cases hshort : (m.getD k 0).toNat < 0x80
  · rw [if_pos hshort, if_pos hshort]
    simp [hz]
  rw [if_neg hshort, if_neg hshort]
  obtain ⟨h1, h2⟩ := longForm_iff (m.getD k 0) hshort
  simp only [h1, h2]
  by_cases h81 : m.getD k 0 = 0x81
  · rw [if_pos h81]
    by_cases hend : k + 2 < m.length
    · rw [if_neg (by omega), if_pos ⟨h81, hend⟩]
      simp only [Reading.val_bind, Reading.val_load, Reading.val_pure, Reading.within_bind,
        Reading.within_load, Reading.within_pure, and_true, Option.elim_some]
      rw [hm.load (k := k + 1) (by omega) (by omega)]
      exact ⟨Prod.ext (by push_cast; omega) rfl, by omega, by omega⟩
    · have h82 : m.getD k 0 ≠ 0x82 := by
        rw [h81]
        decide
      rw [if_pos (by omega), if_neg (by omega), if_neg fun h => h82 h.1]
      simp
  · have hno : ¬ (m.getD k 0 = 0x81 ∧ k + 2 < m.length) := fun h => h81 h.1
    rw [if_neg h81, if_neg hno]
    by_cases h82 : m.getD k 0 = 0x82
    · rw [if_pos h82]
      by_cases hend : k + 3 < m.length
      · obtain ⟨hin, hval⟩ := load16_spec hm (z := z + 1) (k := k + 1) (by omega)
        rw [if_neg (by omega), if_pos ⟨h82, hend⟩]
        simp only [Reading.val_bind, Reading.val_pure, Reading.within_bind, Reading.within_pure,
          and_true, Option.elim_some]
        rw [hval (by omega), hin]
        exact ⟨Prod.ext (by push_cast; omega) rfl, by omega⟩
      · rw [if_pos (by omega), if_neg (by omega)]
        simp
    · have hno : ¬ (m.getD k 0 = 0x82 ∧ k + 3 < m.length) := fun h => h82 h.1
      rw [if_neg h82, if_neg hno]
      simp

theorem readLength_some (hm : Holds data m) {z : ℤ} (hz : z = k) (result : ℕ)
    (h : lengthAt m k = some (n, o)) : (readLength data z m.length result).val = ((o : ℤ), n) := by
  rw [(readLength_spec hm hz result).1, h]
  rfl

theorem readLength_none (hm : Holds data m) {z : ℤ} (hz : z = k) (result : ℕ)
    (h : lengthAt m k = none) : (readLength data z m.length result).val = (-1, result) := by
  rw [(readLength_spec hm hz result).1, h]
  rfl

/-! ## Elements -/

theorem readTagged_neg {tag : Byte} {dlen : ℤ} {buff : List Byte} {rlen : ℕ} :
    readTagged tag data (-1) dlen buff rlen = pure (-1, buff, rlen) := if_pos (by decide)

/-- **`readBytes` and `readOID` find the element**, and load nothing outside of the message. -/
theorem readTagged_spec (hm : Holds data m) {z : ℤ} (hz : z = k) (tag : Byte) (buff : List Byte)
    (rlen : ℕ) :
    (readTagged tag data z m.length buff rlen).val = (elementAt m tag k).elim (-1, buff, rlen)
        (fun p => (((p.2 + p.1 : ℕ) : ℤ), overwrite buff ((m.drop p.2).take (min rlen p.1)),
          min rlen p.1)) ∧
      (readTagged tag data z m.length buff rlen).Within (Inside m) := by
  unfold readTagged elementAt
  rw [if_neg (by omega)]
  by_cases hk : m.length ≤ k
  · rw [if_pos (by omega), if_neg (by omega)]
    simp
  rw [if_neg (by omega)]
  have hhead := hm.load hz (by omega)
  have hin : Inside m z := ⟨by omega, by omega⟩
  simp only [Reading.val_bind, Reading.val_load, Reading.within_bind, Reading.within_load, hin,
    true_and, hhead]
  by_cases htag : m.getD k 0 = tag
  · rw [if_neg (not_not.mpr htag), if_pos ⟨by omega, htag⟩]
    have hnext : z + 1 = (k + 1 : ℕ) := by omega
    simp only [Reading.val_bind, Reading.within_bind, (readLength_spec hm hnext 0).2, true_and]
    cases hfield : lengthAt m (k + 1) with
    | none =>
        simp only [readLength_none hm hnext 0 hfield]
        rw [if_pos (by omega)]
        simp
    | some p =>
        obtain ⟨n, o⟩ := p
        simp only [readLength_some hm hnext 0 hfield, Option.filter_some, decide_eq_true_eq]
        by_cases hfits : o + n ≤ m.length
        · obtain ⟨hbytes, hcopy⟩ := loadBytes_spec hm (z := (o : ℤ)) (k := o) (n := min rlen n) rfl
            (by omega)
          rw [if_neg (by omega), if_pos hfits]
          simp [hbytes, hcopy]
        · rw [if_pos (by omega), if_neg hfits]
          simp
  · rw [if_pos htag, if_neg fun h => htag h.2]
    simp

theorem readTagged_some (hm : Holds data m) {z : ℤ} (hz : z = k) {tag : Byte} (buff : List Byte)
    (rlen : ℕ) (h : elementAt m tag k = some (n, o)) :
    (readTagged tag data z m.length buff rlen).val = (((o + n : ℕ) : ℤ),
      overwrite buff ((m.drop o).take (min rlen n)), min rlen n) := by
  rw [(readTagged_spec hm hz tag buff rlen).1, h]
  rfl

theorem readTagged_none (hm : Holds data m) {z : ℤ} (hz : z = k) {tag : Byte} (buff : List Byte)
    (rlen : ℕ) (h : elementAt m tag k = none) :
    (readTagged tag data z m.length buff rlen).val = (-1, buff, rlen) := by
  rw [(readTagged_spec hm hz tag buff rlen).1, h]
  rfl

/-! ## Integers -/

/-- The words of `c` are appended to `temp`. -/
def wordsValue (temp : BitVec 32) : List Byte → BitVec 32
  | b₀ :: b₁ :: c => wordsValue (temp <<< 16 ||| (b₀ ++ b₁).setWidth 32) c
  | _ => temp

/-- The number that the bytes `c` of an INTEGER stand for. -/
def integerValue (c : List Byte) : BitVec 32 :=
  if c.length % 2 = 1 then wordsValue ((c.getD 0 0).signExtend 32) (c.drop 1)
  else if c.length < 4 then wordsValue ((c.getD 0 0 ++ c.getD 1 0).signExtend 32) (c.drop 2)
  else wordsValue 0 c

/-- The INTEGER at `k`: its value and where it ends. One without contents takes its value from the
two bytes that follow, and these are in the message. -/
def integerAt (m : List Byte) (k : ℕ) : Option (BitVec 32 × ℕ) :=
  (elementAt m 0x02 k).bind fun p =>
    if p.1 = 0 ∧ m.length < p.2 + 2 then none
    else some (integerValue ((m.drop p.2).take (if p.1 = 0 then 2 else p.1)), p.2 + p.1)

theorem readInt32_neg {dlen : ℤ} {result : BitVec 32} :
    readInt32 data (-1) dlen result = pure (-1, result) := if_pos (by decide)

theorem length_drop_take (h : o + n ≤ m.length) : ((m.drop o).take n).length = n := by
  rw [List.length_take, List.length_drop]
  omega

theorem getD_drop_take {n i : ℕ} (hi : i < n) :
    ((m.drop k).take n).getD i 0 = m.getD (k + i) 0 := by
  rw [List.getD_eq_getElem?_getD, List.getElem?_take_of_lt hi, List.getElem?_drop,
    List.getD_eq_getElem?_getD]

theorem appendWords_spec (hm : Holds data m) {z : ℤ} (hz : z = k) (h : k + 2 * n ≤ m.length)
    (temp : BitVec 32) : (appendWords data z n temp).Within (Inside m) ∧
      (appendWords data z n temp).val = wordsValue temp ((m.drop k).take (2 * n)) := by
  induction n generalizing z k temp with
  | zero => simp [appendWords, wordsValue]
  | succ n ih =>
      obtain ⟨hin, hval⟩ := load16_spec hm hz
      have hw := hval (by omega)
      obtain ⟨hrest, hvalue⟩ := ih (z := z + 2) (k := k + 2) (by omega) (by omega)
        (temp <<< 16 ||| (m.getD k 0 ++ m.getD (k + 1) 0).setWidth 32)
      unfold appendWords
      simp only [Reading.within_bind, Reading.val_bind, hw, hrest, hvalue, and_true]
      refine ⟨hin.mpr (by omega), ?_⟩
      have hsplit : (m.drop k).take (2 * (n + 1)) =
          m.getD k 0 :: m.getD (k + 1) 0 :: (m.drop (k + 2)).take (2 * n) := by
        rw [List.drop_eq_getElem_cons (show k < m.length by omega),
          List.drop_eq_getElem_cons (show k + 1 < m.length by omega),
          show 2 * (n + 1) = 2 * n + 1 + 1 by omega, List.take_succ_cons, List.take_succ_cons,
          List.getD_eq_getElem?_getD, List.getD_eq_getElem?_getD,
          List.getElem?_eq_getElem (show k < m.length by omega),
          List.getElem?_eq_getElem (show k + 1 < m.length by omega)]
        rfl
      rw [hsplit, wordsValue]

/-- What is left of an INTEGER of `n` bytes behind its sign extension. -/
theorem readSign_spec (hm : Holds data m) (h : o + n ≤ m.length) :
    ((readSign data o n).Within (Inside m) ↔ (n = 0 → o + 2 ≤ m.length)) ∧
      ((n = 0 → o + 2 ≤ m.length) → ∃ w, ∃ o' : ℕ, ∃ r, (readSign data o n).val = (w, (o' : ℤ), r) ∧
        (o' : ℤ) + r = o + n ∧ o' + 2 * ((r + 1) / 2).toNat ≤ m.length ∧
          wordsValue w ((m.drop o').take (2 * ((r + 1) / 2).toNat)) =
            integerValue ((m.drop o).take (if n = 0 then 2 else n))) := by
  unfold readSign
  by_cases hodd : n % 2 = 1
  · -- the first byte is extended
    have hn : n ≠ 0 := by omega
    rw [if_pos (by omega)]
    simp only [Reading.within_bind, Reading.within_load, Reading.within_pure, and_true,
      Reading.val_bind, Reading.val_load, Reading.val_pure, if_neg hn]
    refine ⟨⟨fun _ h0 => absurd h0 hn, fun _ => ⟨by omega, by omega⟩⟩, fun _ => ?_⟩
    refine ⟨_, o + 1, (n : ℤ) - 1, rfl, by push_cast; omega, by omega, ?_⟩
    rw [integerValue, length_drop_take h, if_pos hodd, getD_drop_take (by omega), hm.load rfl (by omega),
      List.drop_take, List.drop_drop]
    congr 3
    omega
  · rw [if_neg (by omega)]
    by_cases hshort : n < 4
    · -- the first two bytes are extended, of an empty INTEGER those behind it
      obtain ⟨hin, hval⟩ := load16_spec hm (z := (o : ℤ)) (k := o) rfl
      rw [if_pos (by omega)]
      simp only [Reading.within_bind, Reading.within_pure, and_true, Reading.val_bind,
        Reading.val_pure, hin]
      refine ⟨⟨fun h0 _ => by omega, fun h0 => by omega⟩, fun h0 => ?_⟩
      refine ⟨_, o + 2, (n : ℤ) - 2, rfl, by push_cast; omega, by omega, ?_⟩
      have hn : (if n = 0 then 2 else n) = 2 := by
        split <;> omega
      have hlen : ((m.drop o).take 2).length = 2 := length_drop_take (by omega)
      have hwords : ((((n : ℤ) - 2 + 1) / 2).toNat) = 0 := by omega
      rw [hval (by omega), hn, integerValue, hlen, if_neg (by decide), if_pos (by decide),
        getD_drop_take (by omega), getD_drop_take (by omega), hwords, List.drop_eq_nil_of_le hlen.le]
      rfl
    · have hn : n ≠ 0 := by omega
      rw [if_neg (by omega)]
      simp only [Reading.within_pure, true_iff, Reading.val_pure, if_neg hn]
      refine ⟨fun h0 => absurd h0 hn, fun _ => ⟨0, o, n, rfl, rfl, by omega, ?_⟩⟩
      have hwords : 2 * (((n : ℤ) + 1) / 2).toNat = n := by omega
      rw [integerValue, length_drop_take h, if_neg hodd, if_neg hshort, hwords]

/-- Of an INTEGER without contents the two bytes that follow are loaded. -/
theorem readInt32_within (hm : Holds data m) {z : ℤ} (hz : z = k) (result : BitVec 32) :
    (readInt32 data z m.length result).Within (Inside m) ↔
      ∀ o, elementAt m 0x02 k = some (0, o) → o + 2 ≤ m.length := by
  unfold readInt32 elementAt
  rw [if_neg (by omega)]
  by_cases hk : m.length ≤ k
  · rw [if_pos (by omega), if_neg (by omega)]
    simp
  rw [if_neg (by omega)]
  have hhead := hm.load hz (by omega)
  have hin : Inside m z := ⟨by omega, by omega⟩
  simp only [Reading.within_bind, Reading.within_load, Reading.val_load, hin, true_and, hhead]
  by_cases htag : m.getD k 0 = 0x02
  · rw [if_neg (not_not.mpr htag), if_pos ⟨by omega, htag⟩]
    have hnext : z + 1 = (k + 1 : ℕ) := by omega
    simp only [Reading.within_bind, (readLength_spec hm hnext 0).2, true_and]
    cases hfield : lengthAt m (k + 1) with
    | none =>
        simp only [readLength_none hm hnext 0 hfield]
        rw [if_pos (by omega)]
        simp
    | some p =>
        obtain ⟨n, o⟩ := p
        simp only [readLength_some hm hnext 0 hfield, Option.filter_some, decide_eq_true_eq]
        by_cases hfits : o + n ≤ m.length
        · obtain ⟨hin, hval⟩ := readSign_spec hm hfits
          rw [if_neg (by omega), if_pos hfits, Reading.within_bind, hin]
          constructor
          · rintro ⟨h0, -⟩ o' ho
            obtain ⟨rfl, rfl⟩ := Prod.mk.inj (Option.some.inj ho)
            exact h0 rfl
          · intro h
            have h0 : n = 0 → o + 2 ≤ m.length := by
              rintro rfl
              exact h o rfl
            refine ⟨h0, ?_⟩
            obtain ⟨w, o', r, heq, -, hle, -⟩ := hval h0
            rw [heq]
            simp only [Reading.within_bind, Reading.within_pure, and_true]
            exact (appendWords_spec hm rfl hle w).1
        · rw [if_pos (by omega), if_neg hfits]
          simp
  · rw [if_pos htag, if_neg fun h => htag h.2]
    simp

/-- What `readInt32` returns when it does not find an INTEGER. -/
theorem readInt32_none (hm : Holds data m) {z : ℤ} (hz : z = k) (result : BitVec 32)
    (h : elementAt m 0x02 k = none) : (readInt32 data z m.length result).val = (-1, result) := by
  unfold readInt32
  rw [if_neg (by omega)]
  by_cases hk : m.length ≤ k
  · rw [if_pos (by omega)]
    rfl
  rw [if_neg (by omega)]
  simp only [Reading.val_bind, Reading.val_load, hm.load hz (show k < m.length by omega)]
  by_cases htag : m.getD k 0 = 0x02
  · rw [if_neg (not_not.mpr htag)]
    have hnext : z + 1 = (k + 1 : ℕ) := by omega
    unfold elementAt at h
    rw [if_pos ⟨by omega, htag⟩] at h
    simp only [Reading.val_bind]
    cases hfield : lengthAt m (k + 1) with
    | none =>
        simp only [readLength_none hm hnext 0 hfield]
        rw [if_pos (by omega)]
        rfl
    | some p =>
        rw [hfield, Option.filter_some] at h
        have hfits : ¬ p.2 + p.1 ≤ m.length := fun hfits => by simp [hfits] at h
        simp only [readLength_some (n := p.1) (o := p.2) hm hnext 0 hfield]
        rw [if_pos (by omega)]
        rfl
  · rw [if_pos htag]
    rfl

/-- **`readInt32` finds the INTEGER.** -/
theorem readInt32_some (hm : Holds data m) {z : ℤ} (hz : z = k) (result : BitVec 32)
    {v : BitVec 32} {j : ℕ} (h : integerAt m k = some (v, j)) :
    (readInt32 data z m.length result).val = ((j : ℤ), v) := by
  obtain ⟨⟨n, o⟩, helem, hend⟩ := Option.bind_eq_some_iff.mp h
  obtain ⟨⟨hk, htag⟩, hfield, hfits⟩ := elementAt_eq_some_iff.mp helem
  have h0 : ¬ (n = 0 ∧ m.length < o + 2) := fun h0 => by
    rw [if_pos h0] at hend
    cases hend
  rw [if_neg h0] at hend
  obtain ⟨rfl, rfl⟩ := Prod.mk.inj (Option.some.inj hend)
  have hnext : z + 1 = (k + 1 : ℕ) := by omega
  obtain ⟨w, o', r, heq, hsum, hle, hvalue⟩ := (readSign_spec hm hfits).2 fun hn => by
    by_contra hlt
    exact h0 ⟨hn, by omega⟩
  unfold readInt32
  rw [if_neg (by omega), if_neg (by omega)]
  simp only [Reading.val_bind, Reading.val_load, hm.load hz hk]
  rw [if_neg (not_not.mpr htag)]
  simp only [Reading.val_bind, readLength_some hm hnext 0 hfield]
  rw [if_neg (by omega)]
  simp only [Reading.val_bind, heq, Reading.val_pure]
  rw [(appendWords_spec hm rfl hle w).2, hvalue]
  exact Prod.ext (by push_cast; omega) rfl

end Gpsdo.Snmp
