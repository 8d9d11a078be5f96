import Gpsdo.Clock.Exact

set_option autoImplicit false

/-! # Trimming accumulates no rounding error

The booked offset of a clock with its remainder, read as one number of 96 bits, grows by exactly
the rate in force times the time elapsed, whatever is rounded on the way.
-/

namespace Gpsdo.Clock

/-! ## Calls -/

/-- A call that updates the compensated clock when `monotonic::now` reads `now`. -/
inductive CompCall
  | runClkComp (now : ℤ)
  | setTrim (now : ℤ) (rate : BitVec 32)
  deriving DecidableEq, Repr

/-- A call that updates the TAI clock when `compensated::now` reads `now`, or adjusts it. -/
inductive TaiCall
  | runClkTai (now : ℤ)
  | setTrim (now : ℤ) (trim : BitVec 32)
  | adjust (delta : BitVec 64)
  deriving DecidableEq, Repr

section Code

variable {W : Type} [CommRing W] [Word W]

def Trim.compCall (c : Trim W) : CompCall → Trim W
  | .runClkComp now => Clock.runClkComp c (now : W)
  | .setTrim now rate => (compensated.setTrim c (now : W) rate).1

def Trim.taiCall (c : Trim W) : TaiCall → Trim W
  | .runClkTai now => Clock.runClkTai c (now : W)
  | .setTrim now trim => tai.setTrim c (now : W) trim
  | .adjust delta => tai.adjust c delta

end Code

/-- `offset * 2^32 + rem`, modulo 2^96. -/
def Trim.acc (c : Trim (BitVec 64)) : BitVec 96 := c.offset ++ c.rem

/-! ## The exact sums -/

/-- The calls come in order, and less than half a second apart. -/
def CompInOrder : ℤ → List CompCall → Prop
  | _, [] => True
  | t, .runClkComp now :: calls => t ≤ now ∧ now - t < 2 ^ 31 ∧ CompInOrder now calls
  | t, .setTrim now _ :: calls => t ≤ now ∧ now - t < 2 ^ 31 ∧ CompInOrder now calls

/-- The sum of rate in force times time elapsed, from the time `t` and the rate `r` on. -/
def compSum : ℤ → BitVec 32 → List CompCall → ℤ
  | _, _, [] => 0
  | t, r, .runClkComp now :: calls => r.toInt * (now - t) + compSum now r calls
  | t, r, .setTrim now rate :: calls => r.toInt * (now - t) + compSum now rate calls

/-- The readings of the compensated clock lie less than half a second apart. -/
def TaiClose : ℤ → List TaiCall → Prop
  | _, [] => True
  | t, .runClkTai now :: calls => |now - t| < 2 ^ 31 ∧ TaiClose now calls
  | t, .setTrim now _ :: calls => |now - t| < 2 ^ 31 ∧ TaiClose now calls
  | t, .adjust _ :: calls => TaiClose t calls

/-- The sum of rate in force times time elapsed, and of the adjustments. -/
def taiSum : ℤ → BitVec 32 → List TaiCall → ℤ
  | _, _, [] => 0
  | t, r, .runClkTai now :: calls => r.toInt * (now - t) + taiSum now r calls
  | t, r, .setTrim now trim :: calls => r.toInt * (now - t) + taiSum now trim calls
  | t, r, .adjust delta :: calls => 2 ^ 32 * delta.toInt + taiSum t r calls

/-! ## The booked offset -/

theorem Trim.acc_wrap (c : Trim ℤ) : c.wrap.acc = BitVec.ofInt 96 c.trimmed.booked := by
  have hrem := c.rem.isLt
  apply BitVec.eq_of_toNat_eq
  show ((c.offset : BitVec 64) ++ c.rem).toNat =
    (BitVec.ofInt 96 (c.offset * 2 ^ 32 + c.rem.toNat)).toNat
  rw [BitVec.toNat_append, BitVec.toNat_ofInt, ← Nat.shiftLeft_add_eq_or_of_lt hrem,
    Nat.shiftLeft_eq, BitVec.toNat_intCast]
  push_cast
  omega

/-- A clock whose variables are the unbounded ones of another, modulo 2^64. -/
theorem Trim.exists_wrap (c : Trim (BitVec 64)) {t : ℤ} (h : c.ref = (t : BitVec 64)) :
    ∃ z : Trim ℤ, z.wrap = c ∧ z.ref = t ∧ z.rate = c.rate := by
  refine ⟨⟨c.offset.toInt, t, c.rate, c.rem⟩, ?_, rfl, rfl⟩
  have hoffset : (c.offset.toInt : BitVec 64) = c.offset := BitVec.ofInt_toInt
  unfold Trim.wrap
  rw [hoffset, ← h]

theorem Trim.booked_update {c : Trim ℤ} {now : ℤ} (h : Near (now - c.ref)) (rate : BitVec 32) :
    ({ c.update now with rate := rate } : Trim ℤ).trimmed.booked =
      c.trimmed.booked + c.rate.toInt * (now - c.ref) := by
  rw [Trim.trimmed_update h, Trimmed.booked_trim]
  rfl

theorem Trim.booked_adjust (c : Trim ℤ) (delta : BitVec 64) :
    (tai.adjust c delta).trimmed.booked = c.trimmed.booked + 2 ^ 32 * delta.toInt := by
  show (c.offset + delta.toInt) * 2 ^ 32 + _ = c.offset * 2 ^ 32 + _ + _
  ring_nf
  rfl

/-! ## Runs -/

theorem Trim.wrap_compCall (c : Trim ℤ) (call : CompCall) :
    (c.compCall call).wrap = c.wrap.compCall call := by
  cases call with
  | runClkComp now => exact c.wrap_update now
  | setTrim now rate =>
      exact congrArg (fun c : Trim (BitVec 64) => { c with rate := rate }) (c.wrap_update now)

theorem Trim.wrap_taiCall (c : Trim ℤ) (call : TaiCall) :
    (c.taiCall call).wrap = c.wrap.taiCall call := by
  cases call with
  | runClkTai now => exact c.wrap_update now
  | setTrim now trim =>
      exact congrArg (fun c : Trim (BitVec 64) => { c with rate := trim }) (c.wrap_update now)
  | adjust delta => exact tai.wrap_adjust c delta

theorem Trim.wrap_foldl {α : Type} {f : Trim ℤ → α → Trim ℤ}
    {g : Trim (BitVec 64) → α → Trim (BitVec 64)} (h : ∀ c a, (f c a).wrap = g c.wrap a)
    (c : Trim ℤ) (as : List α) : (as.foldl f c).wrap = as.foldl g c.wrap := by
  induction as generalizing c with
  | nil => rfl
  | cons a as ih => rw [List.foldl_cons, List.foldl_cons, ih, h]

theorem Trim.booked_compCalls (c : Trim ℤ) {calls : List CompCall}
    (h : CompInOrder c.ref calls) :
    (calls.foldl Trim.compCall c).trimmed.booked =
      c.trimmed.booked + compSum c.ref c.rate calls := by
  induction calls generalizing c with
  | nil => exact (add_zero _).symm
  | cons call calls ih =>
      cases call with
      | runClkComp now =>
          obtain ⟨hle, hlt, hrest⟩ := h
          have hnear : Near (now - c.ref) := ⟨by omega, hlt⟩
          have hbooked := Trim.booked_update hnear c.rate
          rw [List.foldl_cons, ih (c.compCall (.runClkComp now)) hrest]
          show (c.update now).trimmed.booked + _ = _ + (_ + _)
          rw [← add_assoc, ← hbooked]
          rfl
      | setTrim now rate =>
          obtain ⟨hle, hlt, hrest⟩ := h
          have hnear : Near (now - c.ref) := ⟨by omega, hlt⟩
          have hbooked := Trim.booked_update hnear rate
          rw [List.foldl_cons, ih (c.compCall (.setTrim now rate)) hrest]
          show _ + _ = _ + (_ + _)
          rw [← add_assoc, ← hbooked]
          rfl

theorem Trim.booked_taiCalls (c : Trim ℤ) {calls : List TaiCall} (h : TaiClose c.ref calls) :
    (calls.foldl Trim.taiCall c).trimmed.booked =
      c.trimmed.booked + taiSum c.ref c.rate calls := by
  induction calls generalizing c with
  | nil => exact (add_zero _).symm
  | cons call calls ih =>
      cases call with
      | runClkTai now =>
          obtain ⟨hlt, hrest⟩ := h
          have hnear : Near (now - c.ref) := ⟨(abs_lt.mp hlt).1.le, (abs_lt.mp hlt).2⟩
          have hbooked := Trim.booked_update hnear c.rate
          rw [List.foldl_cons, ih (c.taiCall (.runClkTai now)) hrest]
          show (c.update now).trimmed.booked + _ = _ + (_ + _)
          rw [← add_assoc, ← hbooked]
          rfl
      | setTrim now trim =>
          obtain ⟨hlt, hrest⟩ := h
          have hnear : Near (now - c.ref) := ⟨(abs_lt.mp hlt).1.le, (abs_lt.mp hlt).2⟩
          have hbooked := Trim.booked_update hnear trim
          rw [List.foldl_cons, ih (c.taiCall (.setTrim now trim)) hrest]
          show _ + _ = _ + (_ + _)
          rw [← add_assoc, ← hbooked]
          rfl
      | adjust delta =>
          have hbooked := c.booked_adjust delta
          rw [List.foldl_cons, ih (c.taiCall (.adjust delta)) h]
          show _ + _ = _ + (_ + _)
          rw [← add_assoc, ← hbooked]
          rfl

/-- What is booked on unbounded integers is booked modulo 2^96. -/
theorem Trim.acc_sub {c c' : Trim ℤ} {sum : ℤ}
    (h : c'.trimmed.booked = c.trimmed.booked + sum) :
    c'.wrap.acc - c.wrap.acc = BitVec.ofInt 96 sum := by
  rw [c'.acc_wrap, c.acc_wrap, h, BitVec.ofInt_add]
  ring

/-- **Trimming accumulates no rounding error.** From any state the booked offset of the compensated
clock, with its remainder, grows by exactly the sum of rate times elapsed time; that of the TAI
clock by this sum and the adjustments. -/
theorem no_rounding_error (clkComp clkTai : Trim (BitVec 64)) {t0 c0 : ℤ}
    (hcomp : clkComp.ref = (t0 : BitVec 64)) (htai : clkTai.ref = (c0 : BitVec 64))
    {compCalls : List CompCall} {taiCalls : List TaiCall} (horder : CompInOrder t0 compCalls)
    (hclose : TaiClose c0 taiCalls) :
    (compCalls.foldl Trim.compCall clkComp).acc - clkComp.acc =
        BitVec.ofInt 96 (compSum t0 clkComp.rate compCalls) ∧
      (taiCalls.foldl Trim.taiCall clkTai).acc - clkTai.acc =
        BitVec.ofInt 96 (taiSum c0 clkTai.rate taiCalls) := by
  constructor
  · obtain ⟨c, rfl, rfl, hrate⟩ := Trim.exists_wrap clkComp hcomp
    have hbooked := c.booked_compCalls horder
    rw [← Trim.wrap_foldl Trim.wrap_compCall, ← hrate]
    exact Trim.acc_sub hbooked
  · obtain ⟨c, rfl, rfl, hrate⟩ := Trim.exists_wrap clkTai htai
    have hbooked := c.booked_taiCalls hclose
    rw [← Trim.wrap_foldl Trim.wrap_taiCall, ← hrate]
    exact Trim.acc_sub hbooked

/-- A trim and an update of each clock, around the wrap of the offset. -/
theorem no_rounding_error_aroundTheWrap :
    let c : Trim (BitVec 64) := ⟨0xFFFFFFFFFFFFFFFF, 5, 0xFFFFFFFF, 0xFFFFFFFF⟩
    ([.setTrim 1000 3, .runClkComp 2000000000].foldl Trim.compCall c).acc - c.acc =
        BitVec.ofInt 96 (-995 + 3 * 1999999000) ∧
      ([.runClkTai 1000, .adjust 7, .setTrim 900 5].foldl Trim.taiCall c).acc - c.acc =
        BitVec.ofInt 96 (-995 + (7 * 2 ^ 32 + 100)) :=
  @no_rounding_error ⟨0xFFFFFFFFFFFFFFFF, 5, 0xFFFFFFFF, 0xFFFFFFFF⟩
    ⟨0xFFFFFFFFFFFFFFFF, 5, 0xFFFFFFFF, 0xFFFFFFFF⟩ 5 5 rfl rfl
    [.setTrim 1000 3, .runClkComp 2000000000] [.runClkTai 1000, .adjust 7, .setTrim 900 5]
    (by simp [CompInOrder]) (by simp [TaiClose])

end Gpsdo.Clock
