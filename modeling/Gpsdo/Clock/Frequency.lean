import Gpsdo.Clock.Clocks
import Mathlib.Data.Rat.Cast.Order

set_option autoImplicit false

/-! # The frequency output (`lib/clock/comp.cpp`)

A timer toggles an output whenever it has counted down, and its interrupt sets what it counts down
from next. The increment that the trim calls for has a fraction; the interrupt adds it up in
`frqRem`.
-/

namespace Gpsdo.Clock

/-! ## Code -/

/-- `ISR_Timer1A`: the new value of `frqRem`, and the reload value that it writes. -/
def ISR_Timer1A (frqInc : BitVec 64) (frqRem : BitVec 32) : BitVec 32 × BitVec 32 :=
  let scratch := frqInc + frqRem.setWidth 64
  (scratch.setWidth 32, (scratch >>> 32).setWidth 32)

/-- The clocks, and the remainder of the frequency output. -/
structure FrqOutput where
  clocks : Clocks (BitVec 64)
  frqRem : BitVec 32

/-- The timer interrupts, or something happens to the clocks; among this are the calls of
`compensated::setTrim`. -/
inductive FrqAction
  | interrupt
  | clock (a : ClockAction)
  deriving DecidableEq, Repr

/-- What an interrupt does: the values of `frqInc` and `frqRem` that it finds, and the reload value
that it writes. -/
structure Interrupt where
  frqInc : BitVec 64
  frqRem : BitVec 32
  reload : BitVec 32
  deriving DecidableEq, Repr

namespace FrqOutput

def step (s : FrqOutput) : FrqAction → FrqOutput
  | .interrupt => { s with frqRem := (ISR_Timer1A s.clocks.frqInc s.frqRem).1 }
  | .clock a => { s with clocks := s.clocks.step a }

/-- The state after some actions. -/
def run (s : FrqOutput) (as : List FrqAction) : FrqOutput := as.foldl step s

/-- The interrupt of an action. -/
def interrupt (s : FrqOutput) : FrqAction → List Interrupt
  | .interrupt =>
      [⟨s.clocks.frqInc, s.frqRem, (ISR_Timer1A s.clocks.frqInc s.frqRem).2⟩]
  | .clock _ => []

/-- The interrupts among some actions. -/
def interrupts (s : FrqOutput) : List FrqAction → List Interrupt
  | [] => []
  | a :: as => s.interrupt a ++ (s.step a).interrupts as

/-- The increment is one that the code sets: the static memory is zero, and `compensated::setTrim`
sets it from a rate. -/
def Trimmed (s : FrqOutput) : Prop :=
  s.clocks.frqInc = 0 ∨
    ∃ (clkComp : Trim (BitVec 64)) (now : BitVec 64) (rate : BitVec 32),
      s.clocks.frqInc = (compensated.setTrim clkComp now rate).2

end FrqOutput

/-! ## Increments -/

/-- **The increment** is a number of ticks with 32 bits of fraction, and it is not negative. -/
theorem setTrim_increment (clkComp : Trim (BitVec 64)) (now : BitVec 64) (rate : BitVec 32) :
    ((compensated.setTrim clkComp now rate).2.toNat : ℤ) =
      ((INTERVAL : ℤ) - 1) * 2 ^ 32 - rate.toInt * INTERVAL := by
  have hrate := toInt_bounds rate
  have hinterval : (-BitVec.ofNat 64 INTERVAL).toInt = -62500 := by decide
  have hfixed : (BitVec.ofNat 64 (INTERVAL - 1) <<< 32).toInt = 62499 * 2 ^ 32 := by decide
  have hprod : (rate.signExtend 64 * -BitVec.ofNat 64 INTERVAL).toInt = rate.toInt * -62500 := by
    rw [BitVec.toInt_mul, BitVec.toInt_signExtend_of_le (by decide), hinterval]
    exact bmod_of_abs_lt (w := 63) (abs_lt.mpr ⟨by omega, by omega⟩)
  have hsum : (compensated.setTrim clkComp now rate).2.toInt =
      rate.toInt * -62500 + 62499 * 2 ^ 32 := by
    show (rate.signExtend 64 * -BitVec.ofNat 64 INTERVAL +
      BitVec.ofNat 64 (INTERVAL - 1) <<< 32).toInt = _
    rw [BitVec.toInt_add, hprod, hfixed]
    exact bmod_of_abs_lt (w := 63) (abs_lt.mpr ⟨by omega, by omega⟩)
  have hticks : (INTERVAL : ℤ) = 62500 := by decide
  rw [BitVec.toInt_eq_toNat_cond] at hsum
  rw [hticks]
  split at hsum <;> omega

/-- An interrupt splits the sum. -/
theorem ISR_Timer1A_spec {frqInc : BitVec 64} (frqRem : BitVec 32) (h : frqInc.toNat < 2 ^ 63) :
    (ISR_Timer1A frqInc frqRem).2.toNat = (frqInc.toNat + frqRem.toNat) / 2 ^ 32 ∧
      (ISR_Timer1A frqInc frqRem).1.toNat = (frqInc.toNat + frqRem.toNat) % 2 ^ 32 := by
  have hrem := frqRem.isLt
  have hscratch : (frqInc + frqRem.setWidth 64).toNat = frqInc.toNat + frqRem.toNat := by
    rw [BitVec.toNat_add, BitVec.toNat_setWidth]
    omega
  unfold ISR_Timer1A
  dsimp only
  rw [BitVec.toNat_setWidth, BitVec.toNat_setWidth, BitVec.toNat_ushiftRight, hscratch,
    Nat.shiftRight_eq_div_pow]
  omega

namespace FrqOutput

variable {s : FrqOutput} {as : List FrqAction}

theorem Trimmed.lt (h : s.Trimmed) : s.clocks.frqInc.toNat < 2 ^ 63 := by
  rcases h with h | ⟨clkComp, now, rate, h⟩
  · rw [h]
    decide
  · have hinc := setTrim_increment clkComp now rate
    have hrate := toInt_bounds rate
    have hticks : (INTERVAL : ℤ) = 62500 := by decide
    rw [← h, hticks] at hinc
    omega

theorem frqInc_mk {W : Type} [CommRing W] (ticks : ℕ) (clkComp clkTai : Trim W)
    (frqInc : BitVec 64) : (Clocks.mk ticks clkComp clkTai frqInc).frqInc = frqInc := rfl

/-- The increment changes with the trim only. -/
theorem frqInc_step {W : Type} [CommRing W] [Word W] (c : Clocks W) {a : ClockAction}
    (hconst : ∀ rate, a ≠ .compSetTrim rate) : (c.step a).frqInc = c.frqInc := by
  cases a with
  | compSetTrim rate => exact absurd rfl (hconst rate)
  | elapse _ => exact frqInc_mk _ _ _ _
  | runClkComp => exact frqInc_mk _ _ _ _
  | runClkTai => exact frqInc_mk _ _ _ _
  | taiSetTrim _ => exact frqInc_mk _ _ _ _
  | taiAdjust _ => exact frqInc_mk _ _ _ _

theorem Trimmed.step (h : s.Trimmed) (a : FrqAction) : (s.step a).Trimmed := by
  by_cases hset : ∃ rate, a = .clock (.compSetTrim rate)
  · obtain ⟨rate, rfl⟩ := hset
    exact Or.inr ⟨s.clocks.clkComp, monotonic.now s.clocks, rate, rfl⟩
  · have hsame : (s.step a).clocks.frqInc = s.clocks.frqInc := by
      cases a with
      | interrupt => exact frqInc_mk _ _ _ _
      | clock a => exact frqInc_step s.clocks fun rate ha => hset ⟨rate, by rw [ha]⟩
    unfold Trimmed
    rwa [hsame]

/-- What is left over is carried on. -/
theorem sum_step (h : s.Trimmed) (a : FrqAction) :
    ((s.interrupt a).map fun i => i.reload.toNat * 2 ^ 32).sum + (s.step a).frqRem.toNat =
      ((s.interrupt a).map fun i => i.frqInc.toNat).sum + s.frqRem.toNat := by
  cases a with
  | clock a => rfl
  | interrupt =>
      obtain ⟨hreload, hrem⟩ := ISR_Timer1A_spec s.frqRem h.lt
      simp only [interrupt, FrqOutput.step, List.map_cons, List.map_nil, List.sum_cons, List.sum_nil,
        hreload, hrem]
      omega

theorem sum_run (h : s.Trimmed) (as : List FrqAction) :
    ((s.interrupts as).map fun i => i.reload.toNat * 2 ^ 32).sum + (s.run as).frqRem.toNat =
      ((s.interrupts as).map fun i => i.frqInc.toNat).sum + s.frqRem.toNat := by
  induction as generalizing s with
  | nil => rfl
  | cons a as ih =>
      have hstep := sum_step h a
      have hrest := ih (h.step a)
      show ((s.interrupt a ++ (s.step a).interrupts as).map _).sum +
        ((s.step a).run as).frqRem.toNat = ((s.interrupt a ++ (s.step a).interrupts as).map _).sum + _
      rw [List.map_append, List.map_append, List.sum_append, List.sum_append]
      omega

/-- No reload value is cut off. -/
theorem reload_eq (h : s.Trimmed) : ∀ i ∈ s.interrupts as,
    i.reload.toNat = (i.frqInc.toNat + i.frqRem.toNat) / 2 ^ 32 := by
  induction as generalizing s with
  | nil =>
      intro i hi
      cases hi
  | cons a as ih =>
      intro i hi
      rcases List.mem_append.mp hi with hi | hi
      · cases a with
        | clock a => cases hi
        | interrupt =>
            obtain rfl := List.mem_singleton.mp hi
            exact (ISR_Timer1A_spec s.frqRem h.lt).1
      · exact ih (h.step a) i hi

theorem frqInc_eq (hconst : ∀ rate, FrqAction.clock (.compSetTrim rate) ∉ as) :
    ∀ i ∈ s.interrupts as, i.frqInc = s.clocks.frqInc := by
  induction as generalizing s with
  | nil =>
      intro i hi
      cases hi
  | cons a as ih =>
      have hrest : ∀ rate, FrqAction.clock (.compSetTrim rate) ∉ as :=
        fun rate hmem => hconst rate (List.mem_cons_of_mem a hmem)
      intro i hi
      rcases List.mem_append.mp hi with hi | hi
      · cases a with
        | clock a => cases hi
        | interrupt =>
            obtain rfl := List.mem_singleton.mp hi
            rfl
      · rw [ih hrest i hi]
        cases a with
        | interrupt => rfl
        | clock a =>
            refine frqInc_step s.clocks fun rate ha => hconst rate ?_
            rw [ha]
            exact List.mem_cons_self

/-- The ticks up to the last edge, when a reload value of `L` takes `L + 1` ticks. -/
def edge (s : FrqOutput) (as : List FrqAction) : ℕ :=
  ((s.interrupts as).map fun i => i.reload.toNat + 1).sum

/-- At a constant trim the edges lie behind the line that they follow by what is left over. -/
theorem edge_eq (h : s.Trimmed) {clkComp : Trim (BitVec 64)} {now : BitVec 64} {rate : BitVec 32}
    (hinc : s.clocks.frqInc = (compensated.setTrim clkComp now rate).2)
    (hconst : ∀ r, FrqAction.clock (.compSetTrim r) ∉ as) :
    (s.edge as : ℤ) * 2 ^ 32 + (s.run as).frqRem.toNat =
      (s.interrupts as).length * (INTERVAL * (2 ^ 32 - rate.toInt)) + s.frqRem.toNat := by
  have hsum := sum_run h as
  have hforce : ((s.interrupts as).map fun i => i.frqInc.toNat).sum =
      (s.interrupts as).length * s.clocks.frqInc.toNat := by
    rw [List.map_congr_left (g := fun _ => s.clocks.frqInc.toNat)
      fun i hi => congrArg BitVec.toNat (frqInc_eq hconst i hi), List.map_const', List.sum_replicate,
      smul_eq_mul]
  have hedge : s.edge as * 2 ^ 32 =
      ((s.interrupts as).map fun i => i.reload.toNat * 2 ^ 32).sum +
        (s.interrupts as).length * 2 ^ 32 := by
    unfold edge
    rw [List.sum_map_add, Nat.add_mul, List.sum_map_mul_right, List.map_const', List.sum_replicate,
      smul_eq_mul, mul_one]
  have hvalue := setTrim_increment clkComp now rate
  rw [hforce] at hsum
  rw [← hinc] at hvalue
  calc (s.edge as : ℤ) * 2 ^ 32 + (s.run as).frqRem.toNat
      = (s.interrupts as).length * (s.clocks.frqInc.toNat : ℤ) + (s.interrupts as).length * 2 ^ 32 +
          s.frqRem.toNat := by
        rw [← Nat.cast_mul]
        omega
    _ = (s.interrupts as).length * (INTERVAL * (2 ^ 32 - rate.toInt)) + s.frqRem.toNat := by
        rw [hvalue]
        ring

/-- **The frequency output does not drift**: no reload value is cut off, the sum of the reload
values is that of the increments up to a remainder, and at a constant trim every edge is less than a
tick off the line. -/
theorem frequency_exact (h : s.Trimmed) (as : List FrqAction) :
    (∀ i ∈ s.interrupts as, i.reload.toNat = (i.frqInc.toNat + i.frqRem.toNat) / 2 ^ 32) ∧
      ((s.interrupts as).map fun i => i.reload.toNat * 2 ^ 32).sum + (s.run as).frqRem.toNat =
        ((s.interrupts as).map fun i => i.frqInc.toNat).sum + s.frqRem.toNat ∧
      ∀ (clkComp : Trim (BitVec 64)) (now : BitVec 64) (rate : BitVec 32),
        s.clocks.frqInc = (compensated.setTrim clkComp now rate).2 →
        (∀ r, FrqAction.clock (.compSetTrim r) ∉ as) →
        |(s.edge as : ℚ) - ((s.interrupts as).length * INTERVAL * (1 - rate.toInt / 2 ^ 32) +
          s.frqRem.toNat / 2 ^ 32)| < 1 := by
  refine ⟨reload_eq h, sum_run h as, fun clkComp now rate hinc hconst => ?_⟩
  -- the edges are off the line by the remainder, which is less than a tick
  have hedge : (s.edge as : ℚ) * 2 ^ 32 + (s.run as).frqRem.toNat =
      (s.interrupts as).length * (INTERVAL * (2 ^ 32 - rate.toInt)) + s.frqRem.toNat := by
    exact_mod_cast edge_eq h hinc hconst
  have hrem : ((s.run as).frqRem.toNat : ℚ) < 2 ^ 32 := by exact_mod_cast (s.run as).frqRem.isLt
  have hpos : (0 : ℚ) ≤ (s.run as).frqRem.toNat := Nat.cast_nonneg _
  have hoff : (s.edge as : ℚ) - ((s.interrupts as).length * INTERVAL * (1 - rate.toInt / 2 ^ 32) +
      s.frqRem.toNat / 2 ^ 32) = -((s.run as).frqRem.toNat / 2 ^ 32) := by
    field_simp
    linarith
  rw [hoff, abs_neg, abs_of_nonneg (by positivity), div_lt_one (by positivity)]
  exact hrem

/-- The static memory is zero. -/
def init : FrqOutput := ⟨Clocks.init, 0⟩

/-- The trim has been set. -/
def trimmed : FrqOutput := init.step (.clock (.compSetTrim 1000))

/-- Three edges, with an update of the compensated clock in between. -/
def threeEdges : List FrqAction := [.interrupt, .interrupt, .clock .runClkComp, .interrupt]

theorem frequency_exact_threeEdges :
    (∀ i ∈ trimmed.interrupts threeEdges,
        i.reload.toNat = (i.frqInc.toNat + i.frqRem.toNat) / 2 ^ 32) ∧
      ((trimmed.interrupts threeEdges).map fun i => i.reload.toNat * 2 ^ 32).sum +
          (trimmed.run threeEdges).frqRem.toNat =
        ((trimmed.interrupts threeEdges).map fun i => i.frqInc.toNat).sum +
          trimmed.frqRem.toNat ∧
      |(trimmed.edge threeEdges : ℚ) - ((trimmed.interrupts threeEdges).length * INTERVAL *
        (1 - (1000 : BitVec 32).toInt / 2 ^ 32) + trimmed.frqRem.toNat / 2 ^ 32)| < 1 := by
  have hset : trimmed.clocks.frqInc =
      (compensated.setTrim init.clocks.clkComp (monotonic.now init.clocks) 1000).2 := rfl
  have hexact := frequency_exact (Or.inr ⟨_, _, _, hset⟩) threeEdges
  refine ⟨hexact.1, hexact.2.1, hexact.2.2 _ _ _ hset ?_⟩
  intro r hmem
  simp [threeEdges] at hmem

end FrqOutput

end Gpsdo.Clock
