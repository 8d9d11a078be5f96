import Gpsdo.Format.Base
import Gpsdo.Status.Process

set_option autoImplicit false

/-! # Hexadecimal numbers (`fromHex`, `toHex`)

`toHex` writes the digits from ten on as the letters `A` to `F`. `fromHex` takes these for the
digits from zero on, so that it undoes `toHex` for numbers without letters only.
-/

namespace Gpsdo.Format

open Net Radix
open Status (fromHexDigit)

/-! ## Code -/

/-- The loop of `fromHex`, with the turns that are left. -/
def fromHexLoop (str : Mem Byte) : ℕ → ℕ → BitVec 32 → BitVec 32
  | 0, _, result => result
  | n + 1, i, result =>
      if str i = 0 then result else fromHexLoop str n (i + 1) (fromHexDigit result (str i))

/-- `fromHex` -/
def fromHex (str : Mem Byte) (off : ℕ) (len : ℤ) : BitVec 32 := fromHexLoop str len.toNat off 0

/-- The status commands read the two characters of a block with it. -/
theorem status_fromHex (str : Mem Byte) (off : ℕ) :
    Status.fromHex (str off) (str (off + 1)) = fromHex str off 2 := rfl

/-- `tolower` -/
def toLower (c : Byte) : Byte := if 0x41 ≤ c ∧ c ≤ 0x5A then c + 0x20 else c

/-! ## What is read -/

/-- The digit that `fromHex` makes of a digit of `toHex`. -/
def misread (d : ℕ) : ℕ := if d < 10 then d else d - 10

theorem fromHexDigit_eq (result : BitVec 32) (c : Byte) :
    fromHexDigit result c = result <<< 4 + fromHexDigit 0 c := by
  unfold fromHexDigit
  dsimp only
  split_ifs <;> simp

theorem fromHexDigit_lutBase :
    ∀ d < 16, fromHexDigit 0 (lutBase d) = BitVec.ofNat 32 (misread d) := by decide

variable {l : List ℕ}

/-- A text of digits is read to its end. -/
theorem fromHexLoop_eq {str : Mem Byte} {n off : ℕ} (h : ∀ c ∈ str.load off n, c ≠ 0)
    (result : BitVec 32) :
    fromHexLoop str n off result = (str.load off n).foldl fromHexDigit result := by
  induction n generalizing off result with
  | zero => rfl
  | succ n ih =>
      have hload : str.load off (n + 1) = str off :: str.load (off + 1) n := by
        rw [Nat.add_comm, Mem.load_add]
        rfl
      rw [hload] at h ⊢
      rw [fromHexLoop, if_neg (h _ List.mem_cons_self), List.foldl_cons]
      exact ih (fun c hc => h c (List.mem_cons_of_mem _ hc)) _

theorem foldl_fromHexDigit (hl : ∀ d ∈ l, d < 16) :
    (l.map lutBase).foldl fromHexDigit 0 = BitVec.ofNat 32 (value 16 (l.map misread)) := by
  induction l using List.reverseRecOn with
  | nil => rfl
  | append_singleton l d ih =>
      have hd := fromHexDigit_lutBase d (hl d (by simp))
      rw [List.map_append, List.foldl_append, ih fun d hd => hl d (by simp [hd]), List.map_append,
        List.map_singleton, List.map_singleton, value_concat, List.foldl_cons, List.foldl_nil,
        fromHexDigit_eq, hd]
      apply BitVec.eq_of_toNat_eq
      rw [BitVec.toNat_add, BitVec.toNat_shiftLeft, BitVec.toNat_ofNat, BitVec.toNat_ofNat,
        BitVec.toNat_ofNat, Nat.shiftLeft_eq]
      omega

theorem lutBase_ne_zero : ∀ d < 16, lutBase d ≠ 0 := by decide

theorem misread_lt (hl : ∀ d ∈ l, d < 16) : ∀ d ∈ l.map misread, d < 16 := by
  intro d' hd'
  obtain ⟨d, hd, rfl⟩ := List.mem_map.mp hd'
  have hlt := hl d hd
  unfold misread
  split <;> omega

theorem misread_eq_iff {d : ℕ} : misread d = d ↔ d < 10 := by
  unfold misread
  split <;> omega

/-- What `fromHex` makes of up to eight digits. -/
theorem fromHex_digits {str : Mem Byte} {off : ℕ} (hl : ∀ d ∈ l, d < 16) (hlen : l.length ≤ 8)
    (hstr : str.load off l.length = l.map lutBase) :
    (fromHex str off l.length).toNat = value 16 (l.map misread) := by
  have hchars : ∀ c ∈ str.load off l.length, c ≠ 0 := by
    rw [hstr]
    intro c hc
    obtain ⟨d, hd, rfl⟩ := List.mem_map.mp hc
    exact lutBase_ne_zero d (hl d hd)
  have hlt : value 16 (l.map misread) < 2 ^ 32 := by
    calc value 16 (l.map misread) < 16 ^ (l.map misread).length :=
          value_lt (by decide) (misread_lt hl)
      _ ≤ 16 ^ 8 := Nat.pow_le_pow_right (by decide) (by rwa [List.length_map])
      _ = 2 ^ 32 := by decide
  rw [fromHex, Int.toNat_natCast, fromHexLoop_eq hchars, hstr, foldl_fromHexDigit hl,
    BitVec.toNat_ofNat, Nat.mod_eq_of_lt hlt]

/-- The value is right if and only if there is no letter. -/
theorem value_misread_iff (hl : ∀ d ∈ l, d < 16) :
    value 16 (l.map misread) = value 16 l ↔ ∀ d ∈ l, d < 10 := by
  constructor
  · intro h d hd
    have hsame := eq_of_value_eq (by decide) (List.length_map misread) (misread_lt hl) hl h
    exact misread_eq_iff.mp (List.map_inj_left.mp (hsame.trans (List.map_id l).symm) d hd)
  · intro h
    rw [List.map_congr_left fun d hd => misread_eq_iff.mpr (h d hd), List.map_id']

/-! ## There and back -/

theorem toLower_lutBase : ∀ d < 10, toLower (lutBase d) = lutBase d := by decide

/-- What `toHex` writes to a field that is padded with zeros. -/
theorem toHex_eq (scratch digits : Mem Byte) (v : BitVec 32) {w : ℕ} (hw : 0 < w) (m : Mem Byte)
    (origin : ℕ) :
    toHex scratch digits v w 0x30 m origin =
      some (m.store origin ((align 0 w (numeral 16 v.toNat)).map lutBase), w) := by
  have hpos : ¬ (w : ℤ) ≤ 0 := by omega
  unfold toHex
  rw [@fmtBase_eq 16 (by decide), if_neg hpos, Int.toNat_natCast, map_align]
  rfl

/-- **`fromHex` undoes `toHex` for numbers without letters only**, in either case. -/
theorem fromHex_toHex_iff (v : BitVec 32) {w : ℕ} (hw : 1 ≤ w ∧ w ≤ 8) (scratch digits m : Mem Byte)
    (origin : ℕ) :
    ∃ m', toHex scratch digits v w 0x30 m origin = some (m', w) ∧
      ((fromHex m' origin w).toNat = v.toNat % 16 ^ w ∧
          (fromHex (fun i => toLower (m' i)) origin w).toNat = v.toNat % 16 ^ w ↔
        ∀ i < w, v.toNat / 16 ^ i % 16 < 10) := by
  refine ⟨_, toHex_eq scratch digits v hw.1 m origin, ?_⟩
  have hvalue := value_align (by decide) (fun d hd => lt_of_mem_numeral (b := 16) (by decide) hd) w
    (l := numeral 16 v.toNat)
  have hiff := forall_align_numeral_iff (b := 16) (by decide) v.toNat w (P := (· < 10))
  have hl : ∀ d ∈ align 0 w (numeral 16 v.toNat), d < 16 := by
    intro d hd
    rcases mem_align 0 hd with rfl | hd
    · decide
    · exact lt_of_mem_numeral (by decide) hd
  have hlen : (align 0 w (numeral 16 v.toNat)).length = w := length_align 0
  rw [value_numeral] at hvalue
  rw [← hiff, ← hvalue]
  generalize align 0 w (numeral 16 v.toNat) = l at hlen hl
  subst hlen
  have hload := Mem.load_store_self m origin (l.map lutBase)
  rw [List.length_map] at hload
  rw [fromHex_digits hl hw.2 hload, value_misread_iff hl]
  refine ⟨fun h => h.1, fun h => ⟨h, ?_⟩⟩
  -- without letters nothing is changed
  have hlower : Mem.load (fun i => toLower (m.store origin (l.map lutBase) i)) origin l.length =
      l.map lutBase := by
    calc Mem.load (fun i => toLower (m.store origin (l.map lutBase) i)) origin l.length
        = ((m.store origin (l.map lutBase)).load origin l.length).map toLower := by
          rw [Mem.load, Mem.load, List.map_map]
          rfl
      _ = l.map (toLower ∘ lutBase) := by rw [hload, List.map_map]
      _ = l.map lutBase := List.map_congr_left fun d hd => toLower_lutBase d (h d hd)
  rw [fromHex_digits hl hw.2 hlower]
  exact (value_misread_iff hl).mpr h

theorem fromHex_toHex_iff_digits :
    ∃ m', toHex (fun _ => 0) (fun _ => 0) 0x1234 3 0x30 (fun _ => 0) 0 = some (m', 3) ∧
      (fromHex m' 0 3).toNat = 0x234 := by
  obtain ⟨m', hwrite, hread⟩ := fromHex_toHex_iff 0x1234 (w := 3) (by decide) (fun _ => 0)
    (fun _ => 0) (fun _ => 0) 0
  exact ⟨m', hwrite, (hread.mpr (by decide)).1⟩

/-- The letter for ten is read as zero. -/
theorem fromHex_toHex_ten :
    ¬ ∃ m', toHex (fun _ => 0) (fun _ => 0) 10 1 0x30 (fun _ => 0) 0 = some (m', 1) ∧
      (fromHex m' 0 1).toNat = (10 : BitVec 32).toNat % 16 ^ 1 := by
  rintro ⟨m', hwrite, hread⟩
  have hten := toHex_eq (fun _ => 0) (fun _ => 0) 10 (w := 1) (by decide) (fun _ => 0) 0
  obtain rfl := (Prod.mk.inj (Option.some.inj (hwrite.symm.trans hten))).1
  exact absurd hread (by decide +kernel)

end Gpsdo.Format
