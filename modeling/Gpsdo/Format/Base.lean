import Gpsdo.Basic.CObject
import Gpsdo.Basic.Radix
import Gpsdo.Net.Tx

set_option autoImplicit false

/-! # Numbers as text (`lib/format.cpp`)

The digits of a number are produced from the last one on, into an array on the stack, and copied
from there in reverse. Another copy aligns them to the right in a field. The contents of the
arrays before the call are parameters.
-/

namespace Gpsdo.Format

open Net Radix

/-! ## Code -/

/-- The characters of `lutBase`, without its NUL. -/
def digits16 : List Byte :=
  [0x30, 0x31, 0x32, 0x33, 0x34, 0x35, 0x36, 0x37, 0x38, 0x39, 0x41, 0x42, 0x43, 0x44, 0x45, 0x46]

def lutBase (i : ℕ) : Byte := digits16.getD i 0

/-- A loop that copies `n` characters. -/
def copyLoop (m : Mem Byte) (dst n : ℕ) (src : ℕ → Byte) : Mem Byte :=
  (List.range n).foldl (fun m i => m.store (dst + i) [src i]) m

def padCopy (width : ℤ) (pad : Byte) (m : Mem Byte) (dst : ℕ) (src : Mem Byte) (len : ℕ) :
    Mem Byte × ℕ :=
  if width ≤ 0 then (copyLoop m dst len src, len)
  else
    let width := width.toNat
    if width ≤ len then
      let j := len - width
      (copyLoop m dst width fun i => src (i + j), width)
    else
      let j := width - len
      let m := copyLoop m dst j fun _ => pad
      (copyLoop m (dst + j) len src, width)

/-- The loop that divides; `none` when it does not end. -/
def divideLoop (base : Byte) : ℕ → BitVec 32 → Mem Byte → ℕ → Option (Mem Byte × ℕ)
  | 0, _, _, _ => none
  | fuel + 1, value, digits, cnt =>
      if 0 < value then
        let digits := digits.store cnt [lutBase (value % base.setWidth 32).toNat]
        divideLoop base fuel (value / base.setWidth 32) digits (cnt + 1)
      else some (digits, cnt)

/-- `toBase`, in which no more than 32 quotients of a word are positive. -/
def toBase (digits : Mem Byte) (value : BitVec 32) (base : Byte) (m : Mem Byte) (result : ℕ) :
    Option (Mem Byte × ℕ) := do
  let (digits, cnt) ← divideLoop base 33 value digits 0
  if cnt < 1 then pure (m.store result [lutBase 0], 1)
  else
    let m := (List.range cnt).foldl
      (fun m i => m.store (result + (cnt - i - 1)) [digits i]) m
    pure (m, cnt)

/-- `fmtBase`: the digits lie in an array of its own, and `scratch` is the one of `toBase`. -/
def fmtBase (scratch digits : Mem Byte) (value : BitVec 32) (base : Byte) (width : ℤ)
    (padding : Byte) (m : Mem Byte) (origin : ℕ) : Option (Mem Byte × ℕ) := do
  let (digits, cnt) ← toBase scratch value base digits 0
  pure (padCopy width padding m origin digits cnt)

def toHex (scratch digits : Mem Byte) (value : BitVec 32) (width : ℤ) (padding : Byte)
    (m : Mem Byte) (origin : ℕ) : Option (Mem Byte × ℕ) :=
  fmtBase scratch digits value 16 width padding m origin

/-! ## Copies -/

theorem copyLoop_eq (m : Mem Byte) (dst n : ℕ) (src : ℕ → Byte) :
    copyLoop m dst n src = m.store dst ((List.range n).map src) :=
  Mem.foldl_store m dst n src

/-- The loop that copies from the end. -/
theorem reverseLoop_eq (m digits : Mem Byte) (result cnt : ℕ) :
    (List.range cnt).foldl (fun m i => m.store (result + (cnt - i - 1)) [digits i]) m =
      m.store result (digits.load 0 cnt).reverse := by
  -- after some turns, the end of the text is written
  have hturns : ∀ k ≤ cnt, (List.range k).foldl
      (fun m i => m.store (result + (cnt - i - 1)) [digits i]) m =
        m.store (result + (cnt - k)) (digits.load 0 k).reverse := by
    intro k hk
    induction k with
    | zero => exact (Mem.store_nil m _).symm
    | succ k ih =>
        have hlast : (digits.load 0 (k + 1)).reverse = [digits k] ++ (digits.load 0 k).reverse := by
          rw [Mem.load_add, List.reverse_append]
          simp [Mem.load]
        have hnext : result + (cnt - k) = result + (cnt - (k + 1)) + [digits k].length := by
          rw [List.length_singleton]
          omega
        rw [List.range_succ, List.foldl_append, ih (by omega), hlast, ← Mem.store_prepend, ← hnext]
        rfl
  have h := hturns cnt (le_refl cnt)
  rwa [Nat.sub_self, Nat.add_zero] at h

/-- **`padCopy` aligns to the right.** -/
theorem padCopy_eq (width : ℤ) (pad : Byte) (m : Mem Byte) (dst : ℕ) {src : Mem Byte}
    {l : List Byte} (hsrc : src.load 0 l.length = l) :
    padCopy width pad m dst src l.length =
      if width ≤ 0 then (m.store dst l, l.length)
      else (m.store dst (align pad width.toNat l), width.toNat) := by
  have hload : ∀ off k, (List.range k).map (fun i => src (i + off)) = src.load off k :=
    fun off k => List.map_congr_left fun i _ => congrArg src (Nat.add_comm i off)
  have hwhole : (List.range l.length).map src = l := (hload 0 l.length).trans hsrc
  unfold padCopy
  dsimp only
  simp only [copyLoop_eq]
  split
  · rw [hwhole]
  split
  · next hle =>
      have hparts : src.load 0 (l.length - width.toNat) ++
          src.load (l.length - width.toNat) width.toNat = l := by
        have h := Mem.load_add src 0 (l.length - width.toNat) width.toNat
        rwa [Nat.sub_add_cancel hle, Nat.zero_add, hsrc, eq_comm] at h
      have hend : l.drop (l.length - width.toNat) =
          src.load (l.length - width.toNat) width.toNat := by
        have h := congrArg (List.drop (l.length - width.toNat)) hparts
        rw [List.drop_left' (Mem.length_load _ _ _)] at h
        exact h.symm
      rw [hload, align_of_le_length pad hle, hend]
  · next hgt =>
      have hpad : (List.range (width.toNat - l.length)).map (fun _ => pad) =
          List.replicate (width.toNat - l.length) pad := by
        rw [List.map_const', List.length_range]
      have hstore := Mem.store_append m dst (List.replicate (width.toNat - l.length) pad) l
      rw [List.length_replicate] at hstore
      rw [hwhole, hpad, hstore, align_of_length_le pad (Nat.not_le.mp hgt).le]

/-! ## The digits -/

/-- The text of a number. -/
def numeralText (b n : ℕ) : List Byte := (numeral b n).map lutBase

theorem divideLoop_zero (base : Byte) (fuel : ℕ) {value : BitVec 32} (hzero : value.toNat = 0)
    (digits : Mem Byte) (cnt : ℕ) :
    divideLoop base (fuel + 1) value digits cnt = some (digits, cnt) := by
  rw [divideLoop, if_neg]
  rw [BitVec.lt_def, hzero]
  exact Nat.lt_irrefl 0

section

variable {base : Byte} (hlo : 2 ≤ base.toNat) (hhi : base.toNat ≤ 16)
include hlo

/-- **The loop** writes the digits of the value, the last one first. -/
theorem divideLoop_eq {fuel : ℕ} {value : BitVec 32} (hfuel : value.toNat < 2 ^ fuel)
    (digits : Mem Byte) (cnt : ℕ) :
    divideLoop base (fuel + 1) value digits cnt =
      some (digits.store cnt ((Nat.digits base.toNat value.toNat).map lutBase),
        cnt + ((Nat.digits base.toNat value.toNat).map lutBase).length) := by
  have hdone : ∀ {n : ℕ} {value : BitVec 32} {digits : Mem Byte} {cnt : ℕ}, value.toNat = 0 →
      divideLoop base (n + 1) value digits cnt =
        some (digits.store cnt ((Nat.digits base.toNat value.toNat).map lutBase),
          cnt + ((Nat.digits base.toNat value.toNat).map lutBase).length) := by
    intro n value digits cnt hzero
    rw [divideLoop_zero base n hzero, hzero, Nat.digits_zero, List.map_nil, Mem.store_nil]
    rfl
  induction fuel generalizing value digits cnt with
  | zero => exact hdone (Nat.lt_one_iff.mp hfuel)
  | succ fuel ih =>
      rcases Nat.eq_zero_or_pos value.toNat with hzero | hpos
      · exact hdone hzero
      have hbase : (base.setWidth 32).toNat = base.toNat := by
        have hlt := base.isLt
        rw [BitVec.toNat_setWidth]
        omega
      have hquot : (value / base.setWidth 32).toNat = value.toNat / base.toNat := by
        rw [BitVec.toNat_udiv, hbase]
      have hrem : (value % base.setWidth 32).toNat = value.toNat % base.toNat := by
        rw [BitVec.toNat_umod, hbase]
      have hnext : (value / base.setWidth 32).toNat < 2 ^ fuel := by
        rw [hquot]
        have hhalf := Nat.div_le_div_left hlo (by decide : 0 < 2) (a := value.toNat)
        omega
      rw [divideLoop, if_pos (by rw [BitVec.lt_def]; exact hpos)]
      dsimp only
      rw [ih hnext, hquot, hrem, Nat.digits_def' hlo hpos, List.map_cons, List.length_cons]
      have hstore := Mem.store_append digits cnt [lutBase (value.toNat % base.toNat)]
        ((Nat.digits base.toNat (value.toNat / base.toNat)).map lutBase)
      rw [List.length_singleton] at hstore
      rw [hstore, List.singleton_append]
      exact congrArg _ (Prod.ext rfl (by dsimp only; omega))

/-- **`toBase` writes the numeral.** -/
theorem toBase_eq (digits : Mem Byte) (value : BitVec 32) (m : Mem Byte) (result : ℕ) :
    toBase digits value base m result =
      some (m.store result (numeralText base.toNat value.toNat),
        (numeralText base.toNat value.toNat).length) := by
  unfold toBase numeralText numeral
  rw [divideLoop_eq hlo value.isLt, Option.bind_eq_bind, Option.bind_some]
  dsimp only
  by_cases hzero : value.toNat = 0
  · rw [if_pos hzero, hzero, Nat.digits_zero, if_pos (by decide)]
    rfl
  · have hne := Nat.digits_ne_nil_iff_ne_zero (b := base.toNat).mpr hzero
    have hlen := List.length_pos_of_ne_nil hne
    rw [if_neg hzero, if_neg (by rw [List.length_map]; omega), reverseLoop_eq, Nat.zero_add,
      Mem.load_store_self, List.map_reverse, List.length_reverse]
    rfl

theorem fmtBase_eq (scratch digits : Mem Byte) (value : BitVec 32) (width : ℤ) (padding : Byte)
    (m : Mem Byte) (origin : ℕ) :
    let text := numeralText base.toNat value.toNat
    fmtBase scratch digits value base width padding m origin =
      some (if width ≤ 0 then (m.store origin text, text.length)
        else (m.store origin (align padding width.toNat text), width.toNat)) := by
  intro text
  unfold fmtBase
  rw [toBase_eq hlo, Option.bind_eq_bind, Option.bind_some]
  dsimp only
  rw [padCopy_eq width padding m origin (Mem.load_store_self digits 0 _)]
  rfl

end

/-! ## Texts and their values -/

/-- The digit that a character of `lutBase` stands for. -/
def digit (c : Byte) : ℕ := digits16.idxOf c

/-- The number that a text stands for. -/
def evaluate (b : ℕ) (text : List Byte) : ℕ := value b (text.map digit)

/-- A text of digits below the base, which has the given value and no zeros in front. -/
structure IsNumeral (b n : ℕ) (text : List Byte) : Prop where
  digits : ∀ c ∈ text, digit c < b
  value : evaluate b text = n
  zero : n = 0 → text = [0x30]
  front : n ≠ 0 → text.head? ≠ some 0x30

theorem digit_lutBase : ∀ d < 16, digit (lutBase d) = d := by decide

variable {b : ℕ} {l : List ℕ}

theorem map_digit_lutBase (hl : ∀ d ∈ l, d < 16) : (l.map lutBase).map digit = l := by
  rw [List.map_map]
  exact (List.map_congr_left fun d hd => digit_lutBase d (hl d hd)).trans (List.map_id l)

theorem numeralText_isNumeral (hlo : 1 < b) (hhi : b ≤ 16) (n : ℕ) :
    IsNumeral b n (numeralText b n) := by
  have hl : ∀ d ∈ numeral b n, d < 16 := fun d hd => (lt_of_mem_numeral hlo hd).trans_le hhi
  constructor
  · intro c hc
    obtain ⟨d, hd, rfl⟩ := List.mem_map.mp hc
    rw [digit_lutBase d (hl d hd)]
    exact lt_of_mem_numeral hlo hd
  · rw [evaluate, numeralText, map_digit_lutBase hl, value_numeral]
  · rintro rfl
    rfl
  · intro hn hfront
    rw [numeralText, List.head?_map, Option.map_eq_some_iff] at hfront
    obtain ⟨d, hhead, hd⟩ := hfront
    have hzero : digit (lutBase d) = 0 := by
      rw [hd]
      rfl
    rw [digit_lutBase d (hl d (List.mem_of_head? hhead))] at hzero
    exact head_numeral_ne_zero hn (hzero ▸ hhead)

/-- **The low digits.** Aligned with zeros, a text evaluates to the number modulo a power. -/
theorem evaluate_align (hlo : 1 < b) (hhi : b ≤ 16) (n w : ℕ) :
    evaluate b (align 0x30 w (numeralText b n)) = n % b ^ w := by
  have hl : ∀ d ∈ align 0 w (numeral b n), d < 16 := by
    intro d hd
    rcases mem_align 0 hd with rfl | hd
    · decide
    · exact (lt_of_mem_numeral hlo hd).trans_le hhi
  have halign : align 0x30 w (numeralText b n) = (align 0 w (numeral b n)).map lutBase :=
    (map_align 0 lutBase).symm
  rw [evaluate, halign, map_digit_lutBase hl,
    value_align (Nat.zero_lt_of_lt hlo) (fun d hd => lt_of_mem_numeral hlo hd), value_numeral]

theorem length_numeralText_le (hlo : 1 < b) (value : BitVec 32) :
    (numeralText b value.toNat).length ≤ 32 := by
  have hpow : 2 ^ 32 ≤ b ^ 32 := Nat.pow_le_pow_left hlo 32
  rw [numeralText, List.length_map]
  exact length_numeral_le hlo (by decide) (value.isLt.trans_le hpow)

/-- **Numbers are written as they are read.** `toBase` writes the numeral of a number, with at most
32 characters. `fmtBase` writes it as it is, or aligned to the right in a field: padded, or without
its first digits; and a field that is padded with zeros evaluates to the low digits. -/
theorem fmtBase_numeral (value : BitVec 32) {base : Byte} (hlo : 2 ≤ base.toNat)
    (hhi : base.toNat ≤ 16) (scratch digits : Mem Byte) (width : ℤ) (padding : Byte) (m : Mem Byte)
    (origin : ℕ) :
    ∃ text, IsNumeral base.toNat value.toNat text ∧ text.length ≤ 32 ∧
      toBase scratch value base m origin = some (m.store origin text, text.length) ∧
      (width ≤ 0 → fmtBase scratch digits value base width padding m origin =
        some (m.store origin text, text.length)) ∧
      (0 < width → ∃ field : List Byte, (field.length : ℤ) = width ∧
        fmtBase scratch digits value base width padding m origin =
          some (m.store origin field, field.length) ∧
        (text.length < width →
          field = List.replicate (width.toNat - text.length) padding ++ text) ∧
        (width ≤ text.length → field = text.drop (text.length - width.toNat)) ∧
        (padding = 0x30 → evaluate base.toNat field = value.toNat % base.toNat ^ width.toNat)) := by
  have hfmt := fmtBase_eq hlo scratch digits value width padding m origin
  refine ⟨_, numeralText_isNumeral hlo hhi value.toNat, length_numeralText_le hlo value,
    toBase_eq hlo scratch value m origin, fun hw => ?_, fun hw => ?_⟩
  · rw [hfmt, if_pos hw]
  · refine ⟨align padding width.toNat (numeralText base.toNat value.toNat), ?_, ?_, fun hlt => ?_,
      fun hle => ?_, ?_⟩
    · rw [length_align, Int.toNat_of_nonneg hw.le]
    · rw [hfmt, if_neg (Int.not_le.mpr hw), length_align]
    · exact align_of_length_le padding (by omega)
    · exact align_of_le_length padding (by omega)
    · rintro rfl
      exact evaluate_align hlo hhi _ _

/-- 1000 in base 16, in a field of two characters. -/
theorem fmtBase_numeral_hex :
    ∃ field, fmtBase (fun _ => 0) (fun _ => 0) 1000 16 2 0x30 (fun _ => 0) 0 =
      some (Mem.store (fun _ => 0) 0 field, 2) ∧ evaluate 16 field = 0xE8 := by
  obtain ⟨_, -, -, -, -, hwide⟩ := @fmtBase_numeral 1000 16 (by decide) (by decide)
    (fun _ => 0) (fun _ => 0) 2 0x30 (fun _ => 0) 0
  obtain ⟨field, hlen, hfmt, -, -, hvalue⟩ := hwide (by decide)
  have htwo : field.length = 2 := by exact_mod_cast hlen
  rw [htwo] at hfmt
  exact ⟨field, hfmt, hvalue rfl⟩

end Gpsdo.Format
