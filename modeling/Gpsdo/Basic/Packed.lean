import Mathlib.Data.BitVec
import Mathlib.Tactic

set_option autoImplicit false

/-! # Packed structs

How a packed struct of C lies in memory: its members one behind the other without padding, a word
with its low byte first, and bit fields from the low bits on. A layout says how many bytes a value
takes, which these are, and how the value is read from the beginning of some bytes.
-/

namespace Gpsdo

/-- A layout of the values of a type: all bytes of the size stand for one value each. -/
structure Packed (α : Type) where
  size : ℕ
  bytes : α → List (BitVec 8)
  read : List (BitVec 8) → α
  length_bytes : ∀ a, (bytes a).length = size
  read_bytes : ∀ a rest, read (bytes a ++ rest) = a
  bytes_read : ∀ l, l.length = size → bytes (read l) = l

namespace Packed

/-! ## Words -/

/-- The low `n` bytes of a number, the lowest first. -/
def leBytes : ℕ → ℕ → List (BitVec 8)
  | 0, _ => []
  | n + 1, v => BitVec.ofNat 8 v :: leBytes n (v / 256)

/-- The number that `n` bytes stand for. -/
def leNat : ℕ → List (BitVec 8) → ℕ
  | 0, _ => 0
  | _ + 1, [] => 0
  | n + 1, b :: l => b.toNat + 256 * leNat n l

theorem length_leBytes (n v : ℕ) : (leBytes n v).length = n := by
  induction n generalizing v with
  | zero => rfl
  | succ n ih => rw [leBytes, List.length_cons, ih]

theorem leNat_leBytes (n v : ℕ) (rest : List (BitVec 8)) :
    leNat n (leBytes n v ++ rest) = v % 256 ^ n := by
  induction n generalizing v with
  | zero => rw [Nat.pow_zero, Nat.mod_one]; rfl
  | succ n ih =>
      have hpow : 256 ^ (n + 1) = 256 * 256 ^ n := Nat.pow_succ'
      rw [leBytes, List.cons_append, leNat, ih, BitVec.toNat_ofNat, hpow, Nat.mod_mul]

theorem leBytes_leNat {n : ℕ} {l : List (BitVec 8)} (h : l.length = n) :
    leBytes n (leNat n l) = l ∧ leNat n l < 256 ^ n := by
  induction n generalizing l with
  | zero =>
      obtain rfl := List.length_eq_zero_iff.mp h
      exact ⟨rfl, Nat.one_pos⟩
  | succ n ih =>
      cases l with
      | nil => cases h
      | cons b l =>
          obtain ⟨hbytes, hlt⟩ := ih (Nat.succ.inj h)
          have hb : b.toNat < 256 := b.isLt
          have hdiv : (b.toNat + 256 * leNat n l) / 256 = leNat n l := by omega
          refine ⟨?_, ?_⟩
          · rw [leNat, leBytes, hdiv, hbytes]
            congr 1
            apply BitVec.eq_of_toNat_eq
            rw [BitVec.toNat_ofNat]
            omega
          · rw [leNat, Nat.pow_succ]
            omega

/-- A word of `n` bytes. -/
def word (n : ℕ) : Packed (BitVec (8 * n)) where
  size := n
  bytes v := leBytes n v.toNat
  read l := BitVec.ofNat (8 * n) (leNat n l)
  length_bytes v := length_leBytes n v.toNat
  read_bytes v rest := by
    have hpow : (256 : ℕ) ^ n = 2 ^ (8 * n) := by rw [pow_mul]; rfl
    rw [leNat_leBytes, hpow, Nat.mod_eq_of_lt v.isLt, BitVec.ofNat_toNat, BitVec.setWidth_eq]
  bytes_read l h := by
    obtain ⟨hbytes, hlt⟩ := leBytes_leNat h
    have hpow : (256 : ℕ) ^ n = 2 ^ (8 * n) := by rw [pow_mul]; rfl
    rw [BitVec.toNat_ofNat, Nat.mod_eq_of_lt (hpow ▸ hlt), hbytes]

theorem nibbles_low : ∀ lo hi : BitVec 4, (hi ++ lo).extractLsb' 0 4 = lo := by decide

theorem nibbles_high : ∀ lo hi : BitVec 4, (hi ++ lo).extractLsb' 4 4 = hi := by decide

theorem nibbles_both : ∀ b : BitVec 8, b.extractLsb' 4 4 ++ b.extractLsb' 0 4 = b := by decide

/-- A byte with two bit fields of four bits, the low one first. -/
def nibbles : Packed (BitVec 4 × BitVec 4) where
  size := 1
  bytes v := [v.2 ++ v.1]
  read l := ((l.headD 0).extractLsb' 0 4, (l.headD 0).extractLsb' 4 4)
  length_bytes _ := rfl
  read_bytes v _ := Prod.ext (nibbles_low v.1 v.2) (nibbles_high v.1 v.2)
  bytes_read l h := by
    obtain ⟨b, rfl⟩ := List.length_eq_one_iff.mp h
    exact congrArg (fun b => [b]) (nibbles_both b)

/-! ## Members -/

variable {α β : Type}

/-- A member behind another one. -/
def prod (p : Packed α) (q : Packed β) : Packed (α × β) where
  size := p.size + q.size
  bytes v := p.bytes v.1 ++ q.bytes v.2
  read l := (p.read l, q.read (l.drop p.size))
  length_bytes v := by rw [List.length_append, p.length_bytes, q.length_bytes]
  read_bytes v rest := by
    rw [List.append_assoc, p.read_bytes, ← p.length_bytes v.1, List.drop_left, q.read_bytes]
  bytes_read l h := by
    obtain ⟨front, back, rfl, hfront⟩ : ∃ front back, l = front ++ back ∧ front.length = p.size :=
      ⟨l.take p.size, l.drop p.size, (List.take_append_drop _ _).symm, by
        rw [List.length_take, h]
        exact Nat.min_eq_left (Nat.le_add_right _ _)⟩
    have hback : back.length = q.size := by
      rw [List.length_append, hfront] at h
      exact Nat.add_left_cancel h
    rw [← p.bytes_read front hfront]
    dsimp only
    rw [p.read_bytes, List.drop_left' (p.length_bytes _), q.bytes_read back hback]

/-- A struct with the members of a tuple. -/
def struct (p : Packed β) (toTuple : α → β) (ofTuple : β → α)
    (h : ∀ a, ofTuple (toTuple a) = a) (h' : ∀ t, toTuple (ofTuple t) = t) : Packed α where
  size := p.size
  bytes a := p.bytes (toTuple a)
  read l := ofTuple (p.read l)
  length_bytes a := p.length_bytes (toTuple a)
  read_bytes a rest := by rw [p.read_bytes, h]
  bytes_read l hl := by rw [h', p.bytes_read l hl]

theorem read_bytes_self (p : Packed α) (a : α) : p.read (p.bytes a) = a := by
  simpa using p.read_bytes a []

/-- Every list that is long enough begins with a value. -/
theorem exists_bytes (p : Packed α) {l : List (BitVec 8)} (h : p.size ≤ l.length) :
    ∃ a, l = p.bytes a ++ l.drop p.size :=
  ⟨p.read (l.take p.size), by
    rw [p.bytes_read _ (by rw [List.length_take]; exact Nat.min_eq_left h), List.take_append_drop]⟩

end Packed

end Gpsdo
