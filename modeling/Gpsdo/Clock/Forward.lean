import Gpsdo.Clock.Exact

set_option autoImplicit false

/-! # The TAI clock never runs backwards

Every operation can move the reading of the TAI clock by some units in either direction: each of
two corrections is rounded down, readings start without a remainder while updates carry one, and a
new rate changes what is rounded. The exact time of the two clocks is moved by an update of the
compensated clock only, by half a unit, and only by the first one at a tick; and a tick moves it by
eight units.
-/

namespace Gpsdo.Clock

/-! ## Readings as unbounded integers -/

namespace Clocks

/-- The 64-bit variables of the clocks. -/
def wrap (s : Clocks ℤ) : Clocks (BitVec 64) where
  ticks := s.ticks
  clkComp := s.clkComp.wrap
  clkTai := s.clkTai.wrap
  frqInc := s.frqInc

theorem monotonic_now_wrap (s : Clocks ℤ) :
    monotonic.now s.wrap = ((monotonic.now s : ℤ) : BitVec 64) := by
  simp [monotonic.now, wrap]

theorem compNow_wrap (s : Clocks ℤ) : s.wrap.compNow = (s.compNow : ℤ) := by
  unfold compNow
  rw [monotonic_now_wrap]
  exact compensated.now_wrap _ _

/-- **The code reads the unbounded reading modulo 2^64.** -/
theorem taiNow_wrap (s : Clocks ℤ) : s.wrap.taiNow = (s.taiNow : ℤ) := by
  unfold taiNow
  rw [monotonic_now_wrap]
  exact tai.now_wrap _ _ _

theorem wrap_step (s : Clocks ℤ) (a : ClockAction) : (s.step a).wrap = s.wrap.step a := by
  have hcomp := s.clkComp.wrap_update (monotonic.now s)
  have htai := s.clkTai.wrap_update s.compNow
  rw [← monotonic_now_wrap] at hcomp
  rw [← compNow_wrap] at htai
  cases a with
  | elapse => rfl
  | runClkComp => exact congrArg (fun c => { s.wrap with clkComp := c }) hcomp
  | compSetTrim rate =>
      exact congrArg (fun c : Trim (BitVec 64) =>
        { s.wrap with
          clkComp := { c with rate := rate }
          frqInc := (compensated.setTrim s.clkComp (monotonic.now s) rate).2 }) hcomp
  | runClkTai => exact congrArg (fun c => { s.wrap with clkTai := c }) htai
  | taiSetTrim trim =>
      exact congrArg (fun c : Trim (BitVec 64) =>
        { s.wrap with clkTai := { c with rate := trim } }) htai
  | taiAdjust delta =>
      exact congrArg (fun c => { s.wrap with clkTai := c }) (tai.wrap_adjust s.clkTai delta)

/-- **A run of the code is the run on unbounded integers modulo 2^64.** -/
theorem wrap_run (s : Clocks ℤ) (as : List ClockAction) : (s.run as).wrap = s.wrap.run as := by
  induction as generalizing s with
  | nil => rfl
  | cons a as ih =>
      show ((s.step a).run as).wrap = (s.wrap.step a).run as
      rw [ih, wrap_step]

theorem wrap_init : (init : Clocks ℤ).wrap = init := by decide

/-! ## In time -/

/-- Less than half a second has passed since the last refresh of `clkCompRef`. -/
def CompInTime (s : Clocks ℤ) : Prop := monotonic.now s - s.clkComp.ref < 2 ^ 31

/-- Neither clock has run for half a second since the last refresh of its `ref`. -/
def InTime (s : Clocks ℤ) : Prop := s.CompInTime ∧ s.compNow - s.clkTai.ref < 2 ^ 31

/-- An update comes in time. -/
def UpdateInTime (s : Clocks ℤ) : ClockAction → Prop
  | .runClkComp | .compSetTrim _ => s.CompInTime
  | .runClkTai | .taiSetTrim _ => s.InTime
  | .elapse _ | .taiAdjust _ => True

/-- Every update of a run comes in time. -/
def Timely : Clocks ℤ → List ClockAction → Prop
  | _, [] => True
  | s, a :: as => s.UpdateInTime a ∧ (s.step a).Timely as

instance (s : Clocks ℤ) : Decidable s.CompInTime := inferInstanceAs (Decidable (_ < _))

instance (s : Clocks ℤ) : Decidable s.InTime := inferInstanceAs (Decidable (_ ∧ _))

instance (s : Clocks ℤ) (a : ClockAction) : Decidable (s.UpdateInTime a) := by
  cases a <;> unfold UpdateInTime <;> infer_instance

instance decidableTimely : (s : Clocks ℤ) → (as : List ClockAction) → Decidable (s.Timely as)
  | _, [] => .isTrue trivial
  | s, a :: as =>
      have := decidableTimely (s.step a) as
      inferInstanceAs (Decidable (_ ∧ _))

theorem timely_append {s : Clocks ℤ} {as bs : List ClockAction} :
    s.Timely (as ++ bs) ↔ s.Timely as ∧ (s.run as).Timely bs := by
  induction as generalizing s with
  | nil => simp [Timely, run]
  | cons a as ih =>
      show _ ∧ (s.step a).Timely (as ++ bs) ↔ (_ ∧ (s.step a).Timely as) ∧ _
      rw [ih, and_assoc]
      rfl

/-! ## References lie in the past -/

/-- The time of the monotonic clock and the references of the other two. -/
structure Valid (s : Clocks ℤ) : Prop where
  comp : s.clkComp.ref ≤ monotonic.now s
  tai : s.clkTai.ref * 2 ^ 32 ≤ s.clkComp.trimmed.exact (monotonic.now s)

variable {s : Clocks ℤ}

theorem Valid.near_comp (h : s.Valid) (hs : s.CompInTime) :
    Near (monotonic.now s - s.clkComp.ref) := by
  refine ⟨?_, hs⟩
  have h' := h.comp
  omega

theorem Valid.compNow_eq (h : s.Valid) (hs : s.CompInTime) :
    s.compNow = s.clkComp.trimmed.read (monotonic.now s) 0 :=
  compensated.now_near (h.near_comp hs)

theorem Valid.near_tai (h : s.Valid) (hs : s.InTime) : Near (s.compNow - s.clkTai.ref) := by
  refine ⟨?_, hs.2⟩
  -- a reading is less than two units behind the exact time
  have hread := s.clkComp.trimmed.lt_read (by positivity) (monotonic.now s)
  rw [← h.compNow_eq hs.1] at hread
  have href := h.tai
  omega

theorem Valid.taiNow_eq (h : s.Valid) (hs : s.InTime) :
    s.taiNow = s.clkComp.trimmed.read₂ s.clkTai.trimmed (monotonic.now s) :=
  tai.now_near (h.near_comp hs.1) (h.near_tai hs)

theorem now_elapse (s : Clocks ℤ) (ticks : ℕ) :
    monotonic.now s + 34 * ticks ≤ monotonic.now (s.step (.elapse ticks)) := by
  show (monotonicAt s.ticks : ℤ) + 34 * ticks ≤ (monotonicAt (s.ticks + ticks) : ℤ)
  exact_mod_cast monotonicAt_add s.ticks ticks

theorem valid_init : (init : Clocks ℤ).Valid := ⟨by decide, by decide⟩

/-- Updates of the compensated clock. -/
theorem Valid.update_comp (h : s.Valid) (hs : s.CompInTime) (rate : BitVec 32)
    (incr : BitVec 64) :
    ({ s with
        clkComp := { s.clkComp.update (monotonic.now s) with rate := rate }
        frqInc := incr } : Clocks ℤ).Valid where
  comp := le_refl _
  tai := by
    show _ ≤ Trimmed.exact (Trim.trimmed _) _
    rw [Trim.trimmed_update (h.near_comp hs)]
    exact (Trimmed.exact_trim _ _ _ _).symm ▸ h.tai

/-- Updates of the TAI clock. -/
theorem Valid.update_tai (h : s.Valid) (hs : s.InTime) (rate : BitVec 32) :
    ({ s with clkTai := { s.clkTai.update s.compNow with rate := rate } } : Clocks ℤ).Valid where
  comp := h.comp
  tai := by
    show s.compNow * 2 ^ 32 ≤ _
    rw [h.compNow_eq hs.1]
    exact Trimmed.read_le _ (by positivity) _

theorem Valid.step (h : s.Valid) {a : ClockAction} (hs : s.UpdateInTime a) :
    (s.step a).Valid := by
  cases a with
  | elapse ticks =>
      have hnow := s.now_elapse ticks
      have hle : monotonic.now s ≤ monotonic.now (s.step (.elapse ticks)) := by omega
      refine ⟨h.comp.trans hle, h.tai.trans ?_⟩
      have hrate := (abs_le.mp s.clkComp.abs_rate_le).1
      have hgain := s.clkComp.trimmed.exact_sub (monotonic.now s)
        (monotonic.now (s.step (.elapse ticks)))
      have hpos : 0 ≤ (2 ^ 32 + s.clkComp.trimmed.rate) *
          (monotonic.now (s.step (.elapse ticks)) - monotonic.now s) :=
        mul_nonneg (by linarith) (by linarith)
      show _ ≤ s.clkComp.trimmed.exact _
      linarith
  | runClkComp => exact h.update_comp hs s.clkComp.rate s.frqInc
  | compSetTrim rate => exact h.update_comp hs rate _
  | runClkTai => exact h.update_tai hs s.clkTai.rate
  | taiSetTrim trim => exact h.update_tai hs trim
  | taiAdjust delta => exact ⟨h.comp, h.tai⟩

theorem Valid.run (h : s.Valid) {as : List ClockAction} (hs : s.Timely as) :
    (s.run as).Valid := by
  induction as generalizing s with
  | nil => exact h
  | cons a as ih => exact ih (h.step hs.1) hs.2

/-! ## The exact time advances -/

/-- The exact time of the TAI clock. -/
def exactTai (s : Clocks ℤ) : ℤ :=
  s.clkComp.trimmed.exact₂ s.clkTai.trimmed (monotonic.now s)

/-- An update of the compensated clock that may still move the TAI clock at this tick. -/
def slack (s : Clocks ℤ) : ℤ := if s.clkComp.ref = monotonic.now s then 0 else 2 ^ 32

theorem slack_bounds (s : Clocks ℤ) : 0 ≤ s.slack ∧ s.slack ≤ 2 ^ 32 := by
  unfold slack
  split <;> norm_num

/-- Time advances the TAI clock by seven and a half units at least. -/
theorem exactTai_elapse (s : Clocks ℤ) {ticks : ℕ} (hn : 0 < ticks) :
    2 * s.exactTai + 15 * 2 ^ 32 ≤
      2 * (s.step (.elapse ticks)).exactTai - (s.step (.elapse ticks)).slack := by
  have hnow := s.now_elapse ticks
  have hslack := (slack_bounds (s.step (.elapse ticks))).2
  have hmono := s.clkComp.trimmed.exact₂_mono s.clkTai.trimmed (by positivity)
    s.clkComp.abs_rate_le s.clkTai.abs_rate_le
    (show monotonic.now s ≤ monotonic.now (s.step (.elapse ticks)) by omega)
  have hE : (s.step (.elapse ticks)).exactTai =
      s.clkComp.trimmed.exact₂ s.clkTai.trimmed (monotonic.now (s.step (.elapse ticks))) := rfl
  rw [← hE] at hmono
  unfold exactTai at hmono ⊢
  omega

theorem exactTai_update_comp (h : s.Valid) (hs : s.CompInTime) (rate : BitVec 32)
    (incr : BitVec 64) :
    2 * s.exactTai - s.slack ≤
      2 * ({ s with
        clkComp := { s.clkComp.update (monotonic.now s) with rate := rate }
        frqInc := incr } : Clocks ℤ).exactTai := by
  show _ ≤ 2 * Trimmed.exact₂ (Trim.trimmed _) s.clkTai.trimmed (monotonic.now s)
  rw [Trim.trimmed_update (h.near_comp hs)]
  unfold exactTai slack
  by_cases href : s.clkComp.ref = monotonic.now s
  · -- only the first update at a tick moves the reading
    rw [if_pos href, ← href, show s.clkComp.ref = s.clkComp.trimmed.ref from rfl,
      Trimmed.exact₂_trim_ref, sub_zero]
  · rw [if_neg href]
    have h := s.clkComp.trimmed.exact₂_trim_left s.clkTai.trimmed (by positivity)
      s.clkTai.abs_rate_le (monotonic.now s) rate.toInt
    omega

theorem exactTai_update_tai (h : s.Valid) (hs : s.CompInTime)
    (hs' : Near (s.compNow - s.clkTai.ref)) (rate : BitVec 32) :
    ({ s with clkTai := { s.clkTai.update s.compNow with rate := rate } } :
      Clocks ℤ).exactTai = s.exactTai := by
  show Trimmed.exact₂ s.clkComp.trimmed (Trim.trimmed _) (monotonic.now s) = _
  rw [Trim.trimmed_update hs', h.compNow_eq hs, Trimmed.exact₂_trim_right]
  rfl

/-- **A step advances the exact time**, up to what an update of the compensated clock may still
move it. -/
theorem exactTai_step (h : s.Valid) {a : ClockAction} (hs : s.UpdateInTime a)
    (ha : ∀ delta, a ≠ .taiAdjust delta) :
    2 * s.exactTai - s.slack + (if s.ticks < (s.step a).ticks then 14 * 2 ^ 32 else 0) ≤
      2 * (s.step a).exactTai - (s.step a).slack := by
  have hslack := s.slack_bounds
  cases a with
  | elapse ticks =>
      rcases Nat.eq_zero_or_pos ticks with rfl | hn
      · have hsame : s.step (.elapse 0) = s := rfl
        simp [hsame]
      · have hstep := s.exactTai_elapse hn
        split <;> omega
  | runClkComp =>
      have hE := exactTai_update_comp h hs s.clkComp.rate s.frqInc
      have hfresh : (s.step .runClkComp).slack = 0 := if_pos rfl
      have hticks : ¬ s.ticks < (s.step .runClkComp).ticks := lt_irrefl _
      rw [if_neg hticks, hfresh, add_zero, sub_zero]
      exact hE
  | compSetTrim rate =>
      have hE := exactTai_update_comp h hs rate
        (compensated.setTrim s.clkComp (monotonic.now s) rate).2
      have hfresh : (s.step (.compSetTrim rate)).slack = 0 := if_pos rfl
      have hticks : ¬ s.ticks < (s.step (.compSetTrim rate)).ticks := lt_irrefl _
      rw [if_neg hticks, hfresh, add_zero, sub_zero]
      exact hE
  | runClkTai =>
      have hE : (s.step .runClkTai).exactTai = s.exactTai :=
        exactTai_update_tai h hs.1 (h.near_tai hs) s.clkTai.rate
      have hsame : (s.step .runClkTai).slack = s.slack := rfl
      have hticks : ¬ s.ticks < (s.step .runClkTai).ticks := lt_irrefl _
      rw [if_neg hticks, hsame, hE, add_zero]
  | taiSetTrim trim =>
      have hE : (s.step (.taiSetTrim trim)).exactTai = s.exactTai :=
        exactTai_update_tai h hs.1 (h.near_tai hs) trim
      have hsame : (s.step (.taiSetTrim trim)).slack = s.slack := rfl
      have hticks : ¬ s.ticks < (s.step (.taiSetTrim trim)).ticks := lt_irrefl _
      rw [if_neg hticks, hsame, hE, add_zero]
  | taiAdjust delta => exact absurd rfl (ha delta)

theorem ticks_le_step (s : Clocks ℤ) (a : ClockAction) : s.ticks ≤ (s.step a).ticks := by
  cases a with
  | elapse ticks => exact Nat.le_add_right _ _
  | _ => exact le_refl _

/-- A run that takes time advances the exact time by seven units, less what it could still be moved
by at the start. -/
theorem exactTai_run (h : s.Valid) {as : List ClockAction} (hs : s.Timely as)
    (ha : ∀ delta, .taiAdjust delta ∉ as) :
    2 * s.exactTai - s.slack + (if s.ticks < (s.run as).ticks then 14 * 2 ^ 32 else 0) ≤
      2 * (s.run as).exactTai - (s.run as).slack := by
  induction as generalizing s with
  | nil => simp [Clocks.run]
  | cons a as ih =>
      have hstep := exactTai_step h hs.1 fun delta hd => ha delta (hd ▸ List.mem_cons_self)
      have hrun := ih (h.step hs.1) hs.2 fun delta hd => ha delta (List.mem_cons_of_mem _ hd)
      have hcons : s.run (a :: as) = (s.step a).run as := rfl
      rw [hcons]
      have hticks := s.ticks_le_step a
      by_cases hfirst : s.ticks < (s.step a).ticks
      · rw [if_pos hfirst] at hstep
        split at hrun <;> split <;> omega
      · rw [if_neg hfirst] at hstep
        rw [show s.ticks = (s.step a).ticks by omega]
        omega

/-- **The TAI clock never runs backwards.** Of two readings at different ticks the second is
greater, if all updates and the two readings come in time and nothing adjusts the clock between
them. The readings are followed as unbounded integers; the code reads them modulo 2^64. -/
theorem taiNow_lt {as bs : List ClockAction} (htimely : init.Timely (as ++ bs))
    (hread : (init.run as).InTime) (hread' : (init.run (as ++ bs)).InTime)
    (hadjust : ∀ delta, .taiAdjust delta ∉ bs)
    (hticks : (init.run as : Clocks ℤ).ticks < (init.run (as ++ bs) : Clocks ℤ).ticks) :
    (init.run as : Clocks ℤ).taiNow < (init.run (as ++ bs) : Clocks ℤ).taiNow ∧
      (init.run as : Clocks (BitVec 64)).taiNow = ((init.run as : Clocks ℤ).taiNow : ℤ) ∧
      (init.run (as ++ bs) : Clocks (BitVec 64)).taiNow =
        ((init.run (as ++ bs) : Clocks ℤ).taiNow : ℤ) := by
  obtain ⟨ht, ht'⟩ := timely_append.mp htimely
  have hvalid := valid_init.run ht
  have hvalid' := valid_init.run htimely
  have hcode : ∀ as, (init.run as : Clocks (BitVec 64)).taiNow =
      ((init.run as : Clocks ℤ).taiNow : ℤ) := by
    intro as
    rw [← taiNow_wrap, wrap_run, wrap_init]
  refine ⟨?_, hcode as, hcode (as ++ bs)⟩
  have happend : (init.run (as ++ bs) : Clocks ℤ) = (init.run as).run bs := List.foldl_append ..
  have hrun := exactTai_run hvalid ht' hadjust
  rw [← happend, if_pos hticks] at hrun
  have hslack := (init.run as).slack_bounds
  have hslack' := (init.run (as ++ bs)).slack_bounds
  -- the readings are less than three units behind the exact time
  have hfirst := Trimmed.read₂_le (init.run as).clkComp.trimmed (init.run as).clkTai.trimmed
    (by positivity) (monotonic.now (init.run as))
  have hsecond := Trimmed.lt_read₂ (init.run (as ++ bs)).clkComp.trimmed
    (init.run (as ++ bs)).clkTai.trimmed (by positivity) (monotonic.now (init.run (as ++ bs)))
  rw [← hvalid.taiNow_eq hread] at hfirst
  rw [← hvalid'.taiNow_eq hread'] at hsecond
  unfold exactTai at hrun
  omega

/-- Two ticks with updates of both clocks at rates of one half and its opposite. -/
theorem taiNow_lt_twoTicks :
    (init.run [.compSetTrim 0x80000000, .elapse 1, .runClkComp, .taiSetTrim 0x80000000] :
        Clocks ℤ).taiNow <
      (init.run ([.compSetTrim 0x80000000, .elapse 1, .runClkComp, .taiSetTrim 0x80000000] ++
        [.compSetTrim 0x7FFFFFFF, .runClkTai, .elapse 1])).taiNow :=
  (@taiNow_lt [.compSetTrim 0x80000000, .elapse 1, .runClkComp, .taiSetTrim 0x80000000]
    [.compSetTrim 0x7FFFFFFF, .runClkTai, .elapse 1]
    (by decide) (by decide) (by decide) (by simp) (by decide)).1

end Clocks

end Gpsdo.Clock
