import Gpsdo.Basic.Word

set_option autoImplicit false

/-! # Two-way time transfer

A request leaves one device and arrives at another one, which answers it. Each device reads its own
clock at the two events that it sees. The midpoints of the readings differ by the difference of the
clocks, up to half of the time that the two messages spent on the way.
-/

namespace Gpsdo

/-! ## Clocks -/

section clocks

variable {w : ℕ}

/-- What a counter of `w` bits shows at the time `t`, if it shows `c` at the time 0. -/
def shows (c : BitVec w) (t : ℕ) : BitVec w := BitVec.ofNat w t + c

theorem shows_sub_shows (c : BitVec w) {a b : ℕ} (hab : a ≤ b) :
    shows c b - shows c a = BitVec.ofNat w (b - a) := by
  obtain ⟨d, rfl⟩ := Nat.exists_eq_add_of_le hab
  rw [shows, shows, Nat.add_sub_cancel_left, BitVec.ofNat_add]
  abel

theorem shows_injOn (c : BitVec w) : Set.InjOn (shows c) {t | t < 2 ^ w} := by
  intro a ha b hb hab
  have heq : BitVec.ofNat w a = BitVec.ofNat w b := add_right_cancel hab
  have hnat := congrArg BitVec.toNat heq
  rwa [BitVec.toNat_ofNat, BitVec.toNat_ofNat, Nat.mod_eq_of_lt ha, Nat.mod_eq_of_lt hb] at hnat

/-- The reading in the middle between two readings. -/
def midpoint (a b : BitVec w) : BitVec w := a + (b - a).sshiftRight 1

theorem ofNat_sshiftRight {n : ℕ} (hn : 2 * n < 2 ^ w) (k : ℕ) :
    (BitVec.ofNat w n).sshiftRight k = BitVec.ofNat w (n / 2 ^ k) := by
  have hlt : n < 2 ^ w := by omega
  have hmsb : (BitVec.ofNat w n).msb = false := by
    rw [BitVec.msb_eq_false_iff_two_mul_lt, BitVec.toNat_ofNat, Nat.mod_eq_of_lt hlt]
    exact hn
  rw [BitVec.sshiftRight_eq_of_msb_false hmsb]
  apply BitVec.eq_of_toNat_eq
  rw [BitVec.toNat_ushiftRight, BitVec.toNat_ofNat, BitVec.toNat_ofNat, Nat.mod_eq_of_lt hlt,
    Nat.mod_eq_of_lt ((Nat.div_le_self n _).trans_lt hlt), Nat.shiftRight_eq_div_pow]

theorem midpoint_shows (c : BitVec w) {a b : ℕ} (hab : a ≤ b) (hw : 2 * (b - a) < 2 ^ w) :
    midpoint (shows c a) (shows c b) = shows c (a + (b - a) / 2) := by
  rw [midpoint, shows_sub_shows c hab, ofNat_sshiftRight hw, pow_one, shows, shows,
    BitVec.ofNat_add]
  abel

end clocks

/-! ## Exchanges -/

/-- The times of an exchange: the request leaves and arrives, the response leaves and arrives. -/
structure TwoWay where
  requestLeaves : ℕ
  requestArrives : ℕ
  responseLeaves : ℕ
  responseArrives : ℕ
  forward : requestLeaves ≤ requestArrives
  turn : requestArrives ≤ responseLeaves
  back : responseLeaves ≤ responseArrives

namespace TwoWay

variable (e : TwoWay)

/-- The time on the way: what one device waits, less what the other one takes. -/
def delay : ℕ :=
  (e.responseArrives - e.requestLeaves) - (e.responseLeaves - e.requestArrives)

/-- How far the middle of one interval is from the middle of the other one. -/
def error : ℤ :=
  (e.requestArrives + (e.responseLeaves - e.requestArrives) / 2 : ℕ) -
    (e.requestLeaves + (e.responseArrives - e.requestLeaves) / 2 : ℕ)

theorem error_le : 2 * |e.error| ≤ e.delay + 1 := by
  have h1 := e.forward
  have h2 := e.turn
  have h3 := e.back
  have hbounds : -(e.delay + 1 : ℤ) ≤ 2 * e.error ∧ 2 * e.error ≤ e.delay + 1 := by
    unfold error delay
    omega
  have habs := abs_le.mpr hbounds
  rwa [abs_mul, abs_two] at habs

/-- **The difference of the clocks** is what the midpoints give, up to the error. -/
theorem midpoint_sub_midpoint {w : ℕ} (a b : BitVec w) (hw : 2 * e.responseArrives < 2 ^ w) :
    midpoint (shows b e.requestArrives) (shows b e.responseLeaves) -
        midpoint (shows a e.requestLeaves) (shows a e.responseArrives) =
      b - a + BitVec.ofInt w e.error := by
  have h1 := e.forward
  have h2 := e.turn
  have h3 := e.back
  rw [midpoint_shows b h2 (by omega), midpoint_shows a (h1.trans (h2.trans h3)) (by omega), error,
    ofInt_sub, BitVec.ofInt_natCast, BitVec.ofInt_natCast, shows, shows]
  abel

/-- The delay, from the readings. -/
theorem shows_delay {w : ℕ} (a b : BitVec w) :
    (shows a e.responseArrives - shows a e.requestLeaves) -
        (shows b e.responseLeaves - shows b e.requestArrives) = BitVec.ofNat w e.delay := by
  have h1 := e.forward
  have h2 := e.turn
  have h3 := e.back
  have hsum : (e.responseArrives - e.requestLeaves) =
      e.delay + (e.responseLeaves - e.requestArrives) := by
    unfold delay
    omega
  rw [shows_sub_shows a (h1.trans (h2.trans h3)), shows_sub_shows b h2, hsum, BitVec.ofNat_add]
  abel

end TwoWay

end Gpsdo
