import Gpsdo.Sched.Order
import Gpsdo.Sched.Slot

set_option autoImplicit false

/-! # Tasks that sleep

`runSleep` is documented for delays of up to 16 seconds, but `toMonoRaw` clips them to `RUN_MAX`,
the 2^30 ticks up to which the comparison of times is meant to be used. Up to there a sleeping task
is never early, in any run and whatever the other tasks do: its due time is its interval after a
time since which no more ticks have passed than the law counts.
-/

namespace Gpsdo.Sched

/-! ## The law -/

/-- The delay that an action registers a sleeping task with. -/
def Action.sleeps : Action → Option (BitVec 32)
  | .call (.runSleep delay _ _) => some delay
  | _ => none

/-- The slot whose interval an action adjusts. -/
def Action.adjusts : Action → Option Node
  | .call (.runAdjust taskHandle _) => some (.pool taskHandle)
  | _ => none

/-- The task whose callback returns. -/
def returns (s : Sys) (a : Action) : Option Node :=
  match a, s.pc with
  | .ret, .callback n => some n
  | _, _ => none

/-- The delay of the slot, when it was last registered by `runSleep`. -/
def sleepTask : History → Node → Option (BitVec 32)
  | [], _ => none
  | (s, a) :: h, n => if registers s a = some n then a.sleeps else sleepTask h n

/-- The task was woken or adjusted since its registration. -/
def disturbed : History → Node → Bool
  | [], _ => false
  | (s, a) :: h, n =>
      registers s a != some n && (disturbed h n || a.wakes == some n || a.adjusts == some n)

/-- The ticks since the registration of the task or the last return of its callback. -/
def slept : History → Node → ℕ
  | [], _ => 0
  | (s, a) :: h, n =>
      if registers s a = some n ∨ returns s a = some n then 0 else slept h n + a.ticks.getD 0

/-- The ticks of a delay. -/
def delayTicks (delay : BitVec 32) : ℕ := delay.toNat * CLK_FREQ / 2 ^ 24

/-- Every call of the callback of a task that sleeps for `delay`, and that was not disturbed, comes
no earlier than that after the registration or the call before. -/
def SleepLaw (delay : BitVec 32) : History → Prop
  | [] => True
  | (s, a) :: h =>
      (∀ n ∈ calls s a, sleepTask h n = some delay → disturbed h n = false →
        delayTicks delay ≤ slept h n) ∧ SleepLaw delay h

/-! ## The timer -/

theorem raw_insert {s s' : State} {x : Node} (h : s.insert x = some s') : s'.raw = s.raw := by
  have hstore : ∀ (s : State) link p, (s.storeNext link p).raw = s.raw := by
    intro s link p
    cases link <;> rfl
  obtain ⟨ins, -, rfl⟩ := Option.map_eq_some_iff.mp h
  exact hstore _ _ _

theorem raw_update {s s' : State} {x : Node} (h : s.update x = some s') : s'.raw = s.raw := by
  unfold State.update at h
  split at h
  · obtain rfl := Option.some.inj h
    exact raw_pop s x
  · exact (raw_insert h).trans (raw_pop s x)
  · rw [Option.some.inj h]

theorem raw_requeue {s s' : State} {x : Node} (h : s.requeue x = some s') : s'.raw = s.raw := by
  unfold State.requeue at h
  split at h
  · rw [Option.some.inj h]
  · exact (raw_insert h).trans (raw_pop s x)

theorem raw_cancelFrom {callback ref : Option Nat} {s' : State} :
    ∀ (fuel : Nat) (s : State) (p : Option Node),
      State.cancelFrom callback ref fuel s p = some s' → s'.raw = s.raw := by
  intro fuel
  induction fuel with
  | zero => intro s p h; cases h
  | succ fuel ih =>
      intro s p h
      cases p with
      | none => cases h
      | some task =>
          rw [State.cancelFrom] at h
          split at h
          · rw [Option.some.inj h]
          · refine (ih _ _ h).trans ?_
            split <;> rfl

theorem raw_perform {s s' : State} {c : Call} (h : s.perform c = some s') : s'.raw = s.raw := by
  cases hset : c.setup with
  | some r =>
      obtain ⟨sched, intv, cb, ref⟩ := r
      rw [perform_setup hset, Option.bind_eq_some_iff] at h
      obtain ⟨r, hr, h⟩ := h
      obtain ⟨x, hx, rfl⟩ := Option.map_eq_some_iff.mp hr
      unfold State.setTask at h
      have hraw := raw_insert h
      exact hraw
  | none =>
      cases c with
      | runAdjust i interval => rw [← Option.some.inj h]; rfl
      | runWake i => rw [← Option.some.inj h]; rfl
      | runCancel callback ref => exact raw_cancelFrom _ _ _ h
      | _ => cases hset

/-- **Only the passing of time changes the timer.** -/
theorem step_raw {s s' : Sys} {a : Action} (h : step s a = some s') :
    s'.st.raw = s.st.raw + BitVec.ofNat 32 (a.ticks.getD 0) := by
  have hkeep : ∀ {raw : BitVec 32}, raw = s.st.raw → raw = s.st.raw + BitVec.ofNat 32 0 :=
    fun h => h.trans (BitVec.add_zero _).symm
  cases step_cases h with
  | elapse ticks => rfl
  | interrupt i => exact hkeep rfl
  | call htask hst => exact hkeep (raw_perform hst)
  | scan hi hpc hst => exact hkeep (raw_update hst)
  | @run x pc' hpc hcase => exact hkeep (run_static s.st x).2.2
  | requeue hpc hst => exact hkeep (raw_requeue hst)
  | _ => exact hkeep rfl

/-! ## The place of the loop -/

/-- The callback of the task has been called, and the task is not back in the queue. -/
def Pc.busy (pc : Pc) (n : Node) : Prop := pc = .callback n ∨ pc = .requeue n

/-- A task that has run is put back. -/
theorem requeue_of_busy {s s' : Sys} {a : Action} {n : Node} (h : step s a = some s')
    (hbusy : s.pc.busy n) (hbusy' : ¬ s'.pc.busy n) : a = .loop ∧ s.pc = .requeue n := by
  cases step_cases h with
  | elapse ticks => exact absurd hbusy hbusy'
  | interrupt i => exact absurd hbusy hbusy'
  | call htask hst => exact absurd hbusy hbusy'
  | @ret x hpc =>
      -- the callback of the task returns: `requeue` is next
      rcases hbusy with hn | hn
      · obtain rfl : x = n := Pc.callback.inj (hpc.symm.trans hn)
        exact absurd (Or.inr rfl) hbusy'
      · cases hpc.symm.trans hn
  | @requeue x st' hpc hst =>
      rcases hbusy with hn | hn
      · cases hpc.symm.trans hn
      · exact ⟨rfl, hn⟩
  | enter hpc => rcases hbusy with hn | hn <;> cases hpc.symm.trans hn
  | top hpc => rcases hbusy with hn | hn <;> cases hpc.symm.trans hn
  | clear hpc => rcases hbusy with hn | hn <;> cases hpc.symm.trans hn
  | scan hi hpc hst => rcases hbusy with hn | hn <;> cases hpc.symm.trans hn
  | scanned hi hpc => rcases hbusy with hn | hn <;> cases hpc.symm.trans hn
  | check hpc hx => rcases hbusy with hn | hn <;> cases hpc.symm.trans hn
  | run hpc hcase => rcases hbusy with hn | hn <;> cases hpc.symm.trans hn

/-- A task comes up to be run when it is found ready. -/
theorem ready_of_run {s s' : Sys} {a : Action} {n : Node} (h : step s a = some s')
    (hpc' : s'.pc = .run n) :
    s.pc = .run n ∨ a = .loop ∧ s.pc = .check ∧ s.st.isReady n = true := by
  cases step_cases h with
  | elapse ticks => exact Or.inl hpc'
  | interrupt i => exact Or.inl hpc'
  | call htask hst => exact Or.inl hpc'
  | check hpc hx =>
      dsimp only at hpc'
      split at hpc'
      · rename_i hready
        obtain rfl := Pc.run.inj hpc'
        exact Or.inr ⟨rfl, hpc, hready⟩
      · cases hpc'
  | top hpc =>
      dsimp only at hpc'
      split at hpc' <;> cases hpc'
  | @run x _ hpc hcase =>
      generalize (s.st.run x).2 = call at hcase
      cases hcase <;> cases hpc'
  | _ => cases hpc'

/-! ## The invariant -/

/-- The task in the slot sleeps for `delay`: it was not woken, adjusted or cancelled. -/
structure Sleeping (h : History) (s : Sys) (n : Node) (delay : BitVec 32) : Prop where
  task : sleepTask h n = some delay
  quiet : disturbed h n = false
  callback : ∃ addr, (s.st.mem n).callback = .entry addr

/-- What the slot of a sleeping task holds: its due time is an interval after some time, and since
then `e` ticks have passed. -/
structure SleepInv (h : History) (s : Sys) (n : Node) (intv : BitVec 32) : Prop where
  tag : (s.st.mem n).schedule = .sleep
  interval : (s.st.mem n).runInterval = intv
  due : ¬ s.pc.busy n → ∃ e ≤ slept h n, s.st.due n + BitVec.ofNat 32 e = s.st.raw + intv
  ready : s.pc = .run n → intv.toNat ≤ slept h n

/-- A task whose interval has not passed is not ready. -/
theorem elapsed_of_isReady {s : State} {n : Node} {intv : BitVec 32} {e : ℕ}
    (hintv : intv.toNat ≤ 2 ^ 30) (hdue : s.due n + BitVec.ofNat 32 e = s.raw + intv)
    (hready : s.isReady n = true) : intv.toNat ≤ e := by
  by_contra hlt
  -- the signed difference is exact, since the interval is far from half of the timer's range
  have hnonneg : 0 ≤ sdiff s.raw (s.due n) := of_decide_eq_true hready
  have hdiff : s.raw - s.due n = BitVec.ofNat 32 e - intv := by
    have hraw : s.raw = s.due n + BitVec.ofNat 32 e - intv := by
      rw [hdue, BitVec.add_sub_cancel]
    rw [hraw]
    ring
  have hofNat : BitVec.ofNat 32 intv.toNat = intv := by
    rw [BitVec.ofNat_toNat, BitVec.setWidth_eq]
  have hneg : sdiff s.raw (s.due n) = e - intv.toNat :=
    calc sdiff s.raw (s.due n) = sdiff (BitVec.ofNat 32 e) (BitVec.ofNat 32 intv.toNat) := by
          rw [sdiff, sdiff, hdiff, hofNat]
      _ = e - intv.toNat := sdiff_ofNat (w := 31) (by omega) (by omega)
  omega

theorem busy_of_returns {s s' : Sys} {a : Action} {n : Node} (h : step s a = some s')
    (hr : returns s a = some n) : s'.pc = .requeue n := by
  unfold returns at hr
  split at hr
  · rename_i x hpc
    obtain rfl := Option.some.inj hr
    obtain rfl : s' = { s with pc := .requeue x } := by simpa [step, hpc] using h.symm
    rfl
  · cases hr

/-- **A step that leaves the slot alone.** The time that has passed counts for the law as well. -/
theorem SleepInv.keep {h : History} {s s' : Sys} {a : Action} {n : Node} {intv : BitVec 32}
    (hi : SleepInv h s n intv) (hintv : intv.toNat ≤ 2 ^ 30) (hs : step s a = some s')
    (hr : registers s a ≠ some n) (hq : ¬ (a = .loop ∧ s.pc = .requeue n))
    (hd : SameData (s'.st.mem n) (s.st.mem n)) : SleepInv ((s, a) :: h) s' n intv := by
  have hslept : returns s a ≠ some n → slept ((s, a) :: h) n = slept h n + a.ticks.getD 0 := by
    intro hret
    rw [slept, if_neg (not_or.mpr ⟨hr, hret⟩)]
  refine ⟨hd.schedule.trans hi.tag, hd.runInterval.trans hi.interval, fun hbusy => ?_,
    fun hpc => ?_⟩
  · have hret : returns s a ≠ some n := fun h => hbusy (Or.inr (busy_of_returns hs h))
    obtain ⟨e, he, hdue⟩ := hi.due fun hb => hq (requeue_of_busy hs hb hbusy)
    refine ⟨e + a.ticks.getD 0, by rw [hslept hret]; omega, ?_⟩
    calc s'.st.due n + BitVec.ofNat 32 (e + a.ticks.getD 0)
        = s.st.due n + BitVec.ofNat 32 e + BitVec.ofNat 32 (a.ticks.getD 0) := by
          rw [State.due, hd.runNext, BitVec.ofNat_add, ← BitVec.add_assoc]
          rfl
      _ = s'.st.raw + intv := by
          rw [hdue, step_raw hs]
          ring
  · have hret : returns s a ≠ some n := by
      intro hret
      rw [busy_of_returns hs hret] at hpc
      cases hpc
    rw [hslept hret]
    rcases ready_of_run hs hpc with hrun | ⟨-, hcheck, hready⟩
    · exact (hi.ready hrun).trans (Nat.le_add_right _ _)
    · -- it was found ready, so the ticks since the due time was set make up the interval
      have hbusy : ¬ s.pc.busy n := by
        rw [hcheck]
        rintro (h | h) <;> cases h
      obtain ⟨e, he, hdue⟩ := hi.due hbusy
      have hpassed := elapsed_of_isReady hintv hdue hready
      omega

/-- A registration starts a new interval. -/
theorem SleepInv.registered {h : History} {s s' : Sys} {a : Action} {n : Node}
    {delay : BitVec 32} (hs : step s a = some s') (hr : registers s a = some n)
    (ha : a.sleeps = some delay) : SleepInv ((s, a) :: h) s' n (toMonoRaw delay) := by
  obtain ⟨callback, ref, rfl⟩ : ∃ callback ref, a = .call (.runSleep delay callback ref) := by
    cases a with
    | call c =>
        cases c with
        | runSleep delay' callback ref =>
            obtain rfl : delay' = delay := Option.some.inj ha
            exact ⟨callback, ref, rfl⟩
        | _ => cases ha
    | _ => cases ha
  cases step_cases hs with
  | @call _ st' htask hst =>
      rcases perform_setup_slot rfl hst n with ⟨-, hd⟩ | ⟨hne, -⟩
      · refine ⟨hd.schedule, hd.runInterval, fun _ => ⟨0, Nat.zero_le _, ?_⟩, fun hpc => ?_⟩
        · show (st'.mem n).runNext + 0 = st'.raw + _
          rw [hd.runNext, raw_perform hst]
          exact BitVec.add_zero _
        · dsimp only at hpc
          rw [hpc] at htask
          cases htask
      · exact absurd hr hne

/-- The task that ran sleeps for an interval again. -/
theorem requeue_self {s s' : State} {n : Node} (h : s.requeue n = some s')
    (hc : (s.mem n).schedule ≠ .canceled) :
    SameData (s'.mem n) { s.mem n with runNext := requeueTime s n } := by
  unfold State.requeue at h
  rw [if_neg hc] at h
  have hdata := (sameData_insert h n).trans ((sameData_pop s n n).write n
    (f := fun t => { t with runNext :=
      t.runInterval + if t.schedule = .periodic then t.runNext else (s.pop n).raw })
    fun t t' ht => ⟨ht.1, ht.2, ht.3, by simp only [ht.1, ht.4, ht.5], ht.5⟩)
  rw [raw_pop, State.write_mem_self] at hdata
  exact hdata

theorem SleepInv.requeued {h : History} {s s' : Sys} {n : Node} {intv : BitVec 32}
    (hi : SleepInv h s n intv) (hs : step s .loop = some s') (hpc : s.pc = .requeue n) :
    SleepInv ((s, .loop) :: h) s' n intv := by
  simp only [step, loopStep, hpc, Option.map_eq_some_iff] at hs
  obtain ⟨st', hst, rfl⟩ := hs
  have hd := requeue_self hst (by rw [hi.tag]; decide)
  refine ⟨hd.schedule.trans hi.tag, hd.runInterval.trans hi.interval,
    fun _ => ⟨0, Nat.zero_le _, ?_⟩, fun hpc' => by cases hpc'⟩
  have hdue : (st'.mem n).runNext = intv + s.st.raw := by
    rw [hd.runNext, ← hi.interval]
    simp [requeueTime, hi.tag]
  show (st'.mem n).runNext + 0 = st'.raw + intv
  rw [hdue, raw_requeue hst]
  ring

/-- **A step keeps what the slots of sleeping tasks hold.** -/
theorem SleepInv.step {h : History} {s s' : Sys} {a : Action}
    (hinv : ∀ n delay, Sleeping h s n delay → SleepInv h s n (toMonoRaw delay))
    (hs : step s a = some s') (n : Node) (delay : BitVec 32)
    (hsleeping : Sleeping ((s, a) :: h) s' n delay) :
    SleepInv ((s, a) :: h) s' n (toMonoRaw delay) := by
  obtain ⟨htask, hquiet, hcallback⟩ := hsleeping
  rw [sleepTask] at htask
  by_cases hr : registers s a = some n
  · rw [if_pos hr] at htask
    exact SleepInv.registered hs hr htask
  · rw [if_neg hr] at htask
    have hcalm : disturbed h n = false ∧ a.wakes ≠ some n ∧ a.adjusts ≠ some n := by
      simpa [disturbed, hr, and_assoc] using hquiet
    obtain ⟨hcalm, hwakes, hadjusts⟩ := hcalm
    have hbefore : (∃ addr, (s.st.mem n).callback = .entry addr) →
        SleepInv h s n (toMonoRaw delay) := fun hcb => hinv n delay ⟨htask, hcalm, hcb⟩
    by_cases hq : a = .loop ∧ s.pc = .requeue n
    · obtain ⟨rfl, hpc⟩ := hq
      refine (hbefore ?_).requeued hs hpc
      have hst : s.st.requeue n = some s'.st := by
        simp only [Sched.step, loopStep, hpc, Option.map_eq_some_iff] at hs
        obtain ⟨st', hst, rfl⟩ := hs
        exact hst
      rcases requeue_slot hst n with hd | ⟨-, -, hd⟩
      · rwa [hd.callback] at hcallback
      · rwa [hd.callback] at hcallback
    · cases step_slot hs n with
      | same hw hr' hst hd =>
          exact (hbefore (by rwa [hd.callback] at hcallback)).keep (toMonoRaw_le delay) hs hr hq hd
      | registered hr' ha hd => exact absurd hr' hr
      | woken hw hd => exact absurd hw hwakes
      | @adjusted i interval ha hd =>
          -- another task is adjusted
          subst ha
          have hne : n ≠ .pool i := by
            rintro rfl
            exact hadjusts rfl
          have hmem : s'.st.mem n = s.st.mem n := by
            simp only [Sched.step] at hs
            split at hs
            · obtain rfl : s' = ⟨s.st.runAdjust (.pool i) interval, s.pc⟩ :=
                (Option.some.inj hs).symm
              exact State.runAdjust_mem_of_ne _ _ hne
            · cases hs
          refine (hbefore (by rwa [hmem] at hcallback)).keep (toMonoRaw_le delay) hs hr hq ?_
          rw [hmem]
          exact SameData.refl _
      | cancelled ha hm hd =>
          rw [hd.callback] at hcallback
          obtain ⟨addr, haddr⟩ := hcallback
          cases haddr
      | reclaimed hr' hd =>
          rw [hd.callback] at hcallback
          obtain ⟨addr, haddr⟩ := hcallback
          cases haddr
      | rewoken hr' hd =>
          -- a sleeping task is not tagged as woken
          have htag := (hbefore (by rwa [hd.callback] at hcallback)).tag
          rw [(rewakes_eq_some hr').2.1] at htag
          cases htag
      | started hst hw hd =>
          have htag := (hbefore (by rwa [hd.callback] at hcallback)).tag
          rw [hw] at htag
          cases htag
      | requeued hr' hd =>
          obtain ⟨ha, hpc, -⟩ := requeues_eq_some hr'
          exact absurd ⟨ha, hpc⟩ hq

theorem sleepInv_of_run {h : History} {s : Sys} (hrun : Run step Sys.init h s) :
    ∀ n delay, Sleeping h s n delay → SleepInv h s n (toMonoRaw delay) :=
  hrun.invariant
    (I := fun h s => ∀ n delay, Sleeping h s n delay → SleepInv h s n (toMonoRaw delay))
    (fun n delay hsl => by cases hsl.task)
    fun _ _ _ _ hi hs => SleepInv.step hi hs

/-! ## Delays that are not clipped -/

/-- Up to `RUN_MAX` the interval of a task is its delay. -/
theorem toMonoRaw_eq {delay : BitVec 32} (h : delay ≤ RUN_MAX) :
    (toMonoRaw delay).toNat = delayTicks delay := by
  have hle : delay.toNat ≤ 144115188 := RUN_MAX_toNat ▸ BitVec.le_def.mp h
  have hfreq : (BitVec.ofNat 64 CLK_FREQ).toNat = 125000000 := by
    simp [CLK_FREQ]
  have hwide : (delay.setWidth 64).toNat = delay.toNat := by
    rw [BitVec.toNat_setWidth]
    omega
  unfold toMonoRaw delayTicks
  rw [if_neg (BitVec.not_lt.mpr h)]
  dsimp only
  rw [BitVec.toNat_setWidth, BitVec.toNat_ushiftRight, BitVec.toNat_mul, hfreq, hwide,
    Nat.shiftRight_eq_div_pow, CLK_FREQ, Nat.mod_eq_of_lt (by omega : _ < 2 ^ 64)]
  exact Nat.mod_eq_of_lt (by omega)

/-- Above it the interval is the one of `RUN_MAX`. -/
theorem toMonoRaw_clip {delay : BitVec 32} (h : RUN_MAX < delay) :
    toMonoRaw delay = toMonoRaw RUN_MAX := by
  unfold toMonoRaw
  rw [if_pos h, if_neg (BitVec.lt_irrefl _)]

theorem sleepLaw_of_run {delay : BitVec 32} (h : delay ≤ RUN_MAX) {hist : History} {s : Sys}
    (hrun : Run step Sys.init hist s) : SleepLaw delay hist := by
  induction hrun with
  | start => trivial
  | @next hist s a s' hrun hs ih =>
      refine ⟨fun n hcall htask hquiet => ?_, ih⟩
      obtain ⟨-, hpc, -, hcallback⟩ := calls_eq_some hcall
      rw [← toMonoRaw_eq h]
      exact (sleepInv_of_run hrun n delay ⟨htask, hquiet, hcallback⟩).ready hpc

/-! ## Delays that are clipped -/

/-- A step that is no event for the task. -/
def Idle (n : Node) (p : Sys × Action) : Prop :=
  registers p.1 p.2 ≠ some n ∧ returns p.1 p.2 ≠ some n ∧ p.2.wakes ≠ some n ∧
    p.2.adjusts ≠ some n

instance (n : Node) (p : Sys × Action) : Decidable (Idle n p) :=
  inferInstanceAs (Decidable (_ ∧ _ ∧ _ ∧ _))

/-- Only time passes for the task in a part of the history without events. -/
theorem append_of_idle {n : Node} {h : History} (hidle : ∀ p ∈ h, Idle n p) (h₀ : History) :
    sleepTask (h ++ h₀) n = sleepTask h₀ n ∧ disturbed (h ++ h₀) n = disturbed h₀ n ∧
      slept (h ++ h₀) n = slept h n + slept h₀ n := by
  induction h with
  | nil => exact ⟨rfl, rfl, (Nat.zero_add _).symm⟩
  | cons p h ih =>
      obtain ⟨s, a⟩ := p
      obtain ⟨hr, hret, hw, ha⟩ : registers s a ≠ some n ∧ returns s a ≠ some n ∧
          a.wakes ≠ some n ∧ a.adjusts ≠ some n := hidle (s, a) List.mem_cons_self
      obtain ⟨htask, hquiet, hslept⟩ := ih fun p hp => hidle p (List.mem_cons_of_mem _ hp)
      refine ⟨?_, ?_, ?_⟩
      · rw [List.cons_append, sleepTask, if_neg hr, htask]
      · rw [List.cons_append, disturbed, hquiet, bne_iff_ne.mpr hr, beq_false_of_ne hw,
          beq_false_of_ne ha, Bool.true_and, Bool.or_false, Bool.or_false]
      · rw [List.cons_append, slept, slept, if_neg (not_or.mpr ⟨hr, hret⟩),
          if_neg (not_or.mpr ⟨hr, hret⟩), hslept]
        omega

/-- The scheduler with one task that sleeps for the longest interval. -/
def longSleep : Sys :=
  ⟨((initScheduler.runSleep RUN_MAX 1 none).map Prod.snd).getD initScheduler, .boot⟩

theorem step_longSleep {delay : BitVec 32} (h : RUN_MAX < delay) :
    step Sys.init (.call (.runSleep delay 1 none)) = some longSleep := by
  have hsame : initScheduler.runSleep delay 1 none = initScheduler.runSleep RUN_MAX 1 none := by
    unfold State.runSleep State.setSleep
    rw [toMonoRaw_clip h]
  have hsome : ((initScheduler.runSleep RUN_MAX 1 none).map Prod.snd).isSome = true := by
    decide +kernel
  show ((initScheduler.runSleep delay 1 none).map Prod.snd).map (Sys.mk · .boot) = some longSleep
  rw [hsame, longSleep]
  obtain ⟨st, hst⟩ := Option.isSome_iff_exists.mp hsome
  rw [hst]
  rfl

/-- The loop finds it ready after this interval. -/
def afterInterval : List Action :=
  [.ret, .elapse (delayTicks RUN_MAX), .loop, .loop]

theorem not_sleepLaw_of_clipped {delay : BitVec 32} (h : RUN_MAX < delay) :
    ∃ hist s, Run step Sys.init hist s ∧ ¬ SleepLaw delay hist := by
  obtain ⟨hist, s, hrun, hp⟩ := @exists_run_of_replay _ _ step longSleep afterInterval
    (fun h s => decide ((∀ p ∈ h, Idle (.pool 0) p) ∧ slept h (.pool 0) = delayTicks RUN_MAX ∧
      calls s .loop = some (.pool 0) ∧ (step s .loop).isSome = true)) (by decide +kernel)
  obtain ⟨hidle, hslept, hcall, hsome⟩ := of_decide_eq_true hp
  obtain ⟨s', hs⟩ := Option.isSome_iff_exists.mp hsome
  refine ⟨_, s', ((Run.start.next (step_longSleep h)).trans hrun).next hs, ?_⟩
  intro hlaw
  obtain ⟨htask, hquiet, htotal⟩ :=
    append_of_idle hidle [(Sys.init, .call (.runSleep delay 1 none))]
  have hlate := hlaw.1 (.pool 0) hcall (by rw [htask]; rfl) (by rw [hquiet]; rfl)
  have hzero : slept [(Sys.init, .call (.runSleep delay 1 none))] (.pool 0) = 0 := rfl
  rw [htotal, hslept, hzero] at hlate
  have hlt : 144115188 < delay.toNat := RUN_MAX_toNat ▸ BitVec.lt_def.mp h
  unfold delayTicks at hlate
  rw [RUN_MAX_toNat, CLK_FREQ] at hlate
  omega

/-- **Tasks that sleep for a delay are on time in all runs if and only if the delay is not
clipped.** -/
theorem sleepLaw_iff (delay : BitVec 32) :
    (∀ hist s, Run step Sys.init hist s → SleepLaw delay hist) ↔ delay ≤ RUN_MAX := by
  constructor
  · intro hlaw
    by_contra hclip
    obtain ⟨hist, s, hrun, hnot⟩ := not_sleepLaw_of_clipped (BitVec.not_le.mp hclip)
    exact hnot (hlaw hist s hrun)
  · intro h hist s hrun
    exact sleepLaw_of_run h hrun

/-- A delay of 16 seconds. -/
theorem not_sleepLaw_sixteen :
    ¬ ∀ delay : BitVec 32, delay.toNat ≤ 16 * RUN_SEC →
      ∀ hist s, Run step Sys.init hist s → SleepLaw delay hist := by
  intro hlaw
  obtain ⟨hist, s, hrun, hnot⟩ :=
    not_sleepLaw_of_clipped (by decide : RUN_MAX < BitVec.ofNat 32 (16 * RUN_SEC))
  exact hnot (hlaw _ (by decide) hist s hrun)

end Gpsdo.Sched
