import Gpsdo.Basic.Fifo
import Gpsdo.Sched.Runs

set_option autoImplicit false

/-! # The order of the queue

`Task::insert` compares due times by their signed difference, which is no order on all 32-bit
values. It is one on the queue because all due times stay in a window around the present: at most
2^30 ticks ahead, since intervals are clipped, and less than 2^30 ticks back, as long as no task is
overdue for longer (`Sorted`).
-/

namespace Gpsdo.Sched

/-! ## Lateness -/

/-- How many ticks a task is overdue; negative, if it is due in the future. -/
def State.late (s : State) (n : Node) : Int := sdiff s.raw (s.due n)

theorem RUN_MAX_toNat : RUN_MAX.toNat = 144115188 := by
  simp [RUN_MAX, MAX_RAW_INTV, RUN_SEC, CLK_FREQ]

/-- The clipped interval does not overflow in the conversion. -/
private theorem clipped_le {c : BitVec 32} (hc : c.toNat ≤ 144115188) :
    ((c.setWidth 64 * BitVec.ofNat 64 CLK_FREQ) >>> 24).toNat ≤ 2 ^ 30 := by
  have hfreq : (BitVec.ofNat 64 CLK_FREQ).toNat = 125000000 := by
    simp [CLK_FREQ]
  have hwide : (c.setWidth 64).toNat = c.toNat := by
    rw [BitVec.toNat_setWidth]; omega
  have hmul : c.toNat * 125000000 < 2 ^ 64 := by omega
  rw [BitVec.toNat_ushiftRight, BitVec.toNat_mul, hfreq, hwide, Nat.shiftRight_eq_div_pow,
    Nat.mod_eq_of_lt hmul]
  omega

theorem toMonoRaw_le (fixed_8_24 : BitVec 32) : (toMonoRaw fixed_8_24).toNat ≤ 2 ^ 30 := by
  have hclip : (if RUN_MAX < fixed_8_24 then RUN_MAX else fixed_8_24).toNat ≤ 144115188 := by
    rw [← RUN_MAX_toNat]
    split
    · exact le_rfl
    · rename_i h
      exact BitVec.le_def.mp (BitVec.not_lt.mp h)
  rw [toMonoRaw, BitVec.toNat_setWidth]
  exact (Nat.mod_le _ _).trans (clipped_le hclip)

/-- The intervals of registrations are clipped. -/
theorem Call.setup_interval_le {c : Call} {sched : Schedule} {intv : BitVec 32} {cb : Nat}
    {ref : Option Nat} (h : c.setup = some (sched, intv, cb, ref)) : intv.toNat ≤ 2 ^ 30 := by
  cases c with
  | runWait callback ref =>
      simp only [Call.setup, Option.some.injEq, Prod.mk.injEq] at h
      obtain ⟨-, rfl, -⟩ := h
      decide
  | runSleep delay callback ref =>
      simp only [Call.setup, Option.some.injEq, Prod.mk.injEq] at h
      obtain ⟨-, rfl, -⟩ := h
      exact toMonoRaw_le delay
  | runPeriodic interval callback ref =>
      simp only [Call.setup, Option.some.injEq, Prod.mk.injEq] at h
      obtain ⟨-, rfl, -⟩ := h
      exact toMonoRaw_le interval
  | _ => cases h

/-! ## What an effect does to due times -/

section

variable {s s' : Sys} {a : Action} {Q Q' : List Node}

theorem Effect.raw_eq (he : Effect s Q a s' Q') (hnt : a.ticks = none) : s'.st.raw = s.st.raw := by
  cases he with
  | elapse ticks => cases hnt
  | cancel _ hc => exact hc.raw
  | register htask hc hx hxQ ht hd hf => exact ht.raw
  | reclaim hi hpc hc ht hd hf => exact ht.raw
  | rewake hi hpc hx hw ht hd hf => exact ht.raw
  | requeue hpc hx hc ht hd hf => exact ht.raw
  | perform hpc hw hpc' => exact (run_static _ _).2.2
  | _ => rfl

/-- The due time of a task changes only when it is inserted. -/
theorem Effect.due_eq (he : Effect s Q a s' Q') {n : Node} (hn : inserts s a n = false) :
    s'.st.due n = s.st.due n := by
  simp only [inserts, Bool.or_eq_false_iff, beq_eq_false_iff_ne] at hn
  obtain ⟨⟨hreg, hrew⟩, hreq⟩ := hn
  cases he with
  | @register c _ _ _ _ x _ htask hc hx hxQ ht hd hf =>
      have hnx : n ≠ x := fun h => hreg (by simp [registers, Action.setup, hc, hx, h])
      exact (ht.others n hnx).runNext
  | @reclaim i _ hi hpc hc ht hd hf =>
      by_cases hnx : n = .pool ⟨i, hi⟩
      · subst hnx; rw [State.due, hd]; rfl
      · exact (ht.others n hnx).runNext
  | @rewake i _ hi hpc hx hw ht hd hf =>
      have hnx : n ≠ .pool ⟨i, hi⟩ := fun h => hrew (by simp [rewakes, hpc, hi, hw, h])
      exact (ht.others n hnx).runNext
  | @requeue x _ hpc hx hc ht hd hf =>
      have hnx : n ≠ x := fun h => hreq (by simp [requeues, hpc, hc, h])
      exact (ht.others n hnx).runNext
  | wake ha => rw [State.due_runWake]
  | adjust i interval => rw [State.due_runAdjust]
  | cancel htask hc => rw [hc.due]
  | @perform x _ hpc hw hpc' =>
      exact run_field s.st x n Task.runNext fun _ => rfl
  | _ => rfl

/-- Intervals stay clipped. -/
theorem Effect.interval_le (he : Effect s Q a s' Q')
    (h : ∀ n, (s.st.mem n).runInterval.toNat ≤ 2 ^ 30) (n : Node) :
    (s'.st.mem n).runInterval.toNat ≤ 2 ^ 30 := by
  have hother : ∀ {x st'}, Touch x (.queueRoot :: Q) s.st st' → n ≠ x →
      (st'.mem n).runInterval.toNat ≤ 2 ^ 30 := fun ht hnx => by
    rw [(ht.others n hnx).runInterval]
    exact h n
  cases he with
  | @register c _ _ _ _ x _ htask hc hx hxQ ht hd hf =>
      by_cases hnx : n = x
      · subst hnx
        rw [hd.runInterval]
        exact Call.setup_interval_le hc
      · exact hother ht hnx
  | @reclaim i _ hi hpc hc ht hd hf =>
      by_cases hnx : n = .pool ⟨i, hi⟩
      · subst hnx
        rw [hd]
        exact h _
      · exact hother ht hnx
  | @rewake i _ hi hpc hx hw ht hd hf =>
      by_cases hnx : n = .pool ⟨i, hi⟩
      · subst hnx
        rw [hd.runInterval]
        exact h _
      · exact hother ht hnx
  | @requeue x _ hpc hx hc ht hd hf =>
      by_cases hnx : n = x
      · subst hnx
        rw [hd.runInterval]
        exact h _
      · exact hother ht hnx
  | @wake _ x ha =>
      by_cases hnx : n = x
      · subst hnx
        rw [State.runWake_mem_self]
        exact h n
      · rw [State.runWake_mem_of_ne _ hnx]
        exact h n
  | adjust i interval =>
      by_cases hnx : n = .pool i
      · subst hnx
        rw [State.runAdjust_mem_self]
        exact toMonoRaw_le interval
      · rw [State.runAdjust_mem_of_ne _ _ hnx]
        exact h n
  | cancel htask hc =>
      rcases hc.mem_cases n with hm | ⟨-, hm⟩ <;> rw [hm] <;> exact h n
  | @perform x _ hpc hw hpc' =>
      rw [run_field s.st x n Task.runInterval fun _ => rfl]
      exact h n
  | _ => exact h n

/-- A registration inserts the slot it takes. -/
theorem inserts_register {s : Sys} {c : Call} {r : Schedule × BitVec 32 × Nat × Option Nat}
    {x : Node} (hc : c.setup = some r) (hx : s.st.taskFree = some x) (n : Node) :
    inserts s (.call c) n = decide (x = n) := by
  simp [inserts, registers, rewakes, requeues, Action.setup, hc, hx]
  rfl

theorem inserts_rewake {s : Sys} {i : Nat} (hi : i < 32) (hpc : s.pc = .scan i)
    (hw : (s.st.mem (.pool ⟨i, hi⟩)).schedule = .wake) (n : Node) :
    inserts s .loop n = decide (.pool ⟨i, hi⟩ = n) := by
  simp [inserts, registers, rewakes, requeues, Action.setup, hpc, hi, hw]
  rfl

theorem inserts_requeue {s : Sys} {x : Node} (hpc : s.pc = .requeue x)
    (hc : (s.st.mem x).schedule ≠ .canceled) (n : Node) :
    inserts s .loop n = decide (x = n) := by
  simp [inserts, registers, rewakes, requeues, Action.setup, hpc, hc]
  rfl

/-- An insertion puts one task, not in the list before, in front of the tasks that are less
late. Its due time is an interval after a time that has come. -/
theorem Effect.of_inserts (h : QInv s Q) (he : Effect s Q a s' Q')
    (hint : ∀ n, (s.st.mem n).runInterval.toNat ≤ 2 ^ 30)
    (hlate : ∀ n ∈ Q, s.pc.task = some n → 0 ≤ s.st.late n ∧ s.st.late n < 2 ^ 30)
    {x : Node} (hx : inserts s a x = true) :
    a.ticks = none ∧ s'.pc.task ≠ some x ∧
      ∃ Q₀ : List Node, Q₀.Sublist Q ∧ (∀ n ∈ Q₀, inserts s a n = false) ∧
        Q' = Q₀.orderedInsert (Sooner s'.st.due) x ∧ -2 ^ 30 ≤ s'.st.late x ∧
        s'.st.late x < 2 ^ 30 := by
  have hwin : ∀ {t i b : BitVec 32}, t = i + b → i.toNat ≤ 2 ^ 30 → 0 ≤ sdiff s.st.raw b →
      sdiff s.st.raw b < 2 ^ 30 → -2 ^ 30 ≤ sdiff s.st.raw t ∧ sdiff s.st.raw t < 2 ^ 30 := by
    intro t i b ht hi hb hb'
    rw [ht, sdiff_postpone (w := 30) hb hb' hi]
    omega
  have hnow : 0 ≤ sdiff s.st.raw s.st.raw ∧ sdiff s.st.raw s.st.raw < 2 ^ 30 := by
    rw [sdiff_self]; decide
  cases he with
  | @register c sched intv cb ref y st' htask hc hy hyQ ht hd hf =>
      have hins := inserts_register hc hy
      obtain rfl : y = x := of_decide_eq_true ((hins x).symm.trans hx)
      refine ⟨rfl, fun htk => ?_, Q, List.Sublist.refl Q, fun n hn => ?_, rfl, ?_⟩
      · rcases h.task y htk with rfl | hQ
        · exact hyQ List.mem_cons_self
        · exact hyQ (List.mem_cons_of_mem _ hQ)
      · have hny : y ≠ n := fun hny => hyQ (hny ▸ List.mem_cons_of_mem _ hn)
        exact (hins n).trans (decide_eq_false hny)
      · have hdue : s.st.raw + intv = intv + s.st.raw := by ring
        show -2 ^ 30 ≤ sdiff st'.raw (st'.due y) ∧ sdiff st'.raw (st'.due y) < 2 ^ 30
        rw [ht.raw]
        exact hwin (hd.runNext.trans hdue) (Call.setup_interval_le hc) hnow.1 hnow.2
  | @rewake i st' hi hpc hyQ hw ht hd hf =>
      have hins := inserts_rewake hi hpc hw
      obtain rfl : .pool ⟨i, hi⟩ = x := of_decide_eq_true ((hins x).symm.trans hx)
      refine ⟨rfl, by simp [Pc.task], _, List.erase_sublist, fun n hn => ?_, rfl, ?_⟩
      · have hny : .pool ⟨i, hi⟩ ≠ n := fun hny => h.queue.nodup.not_mem_erase (hny ▸ hn)
        exact (hins n).trans (decide_eq_false hny)
      · show -2 ^ 30 ≤ sdiff st'.raw (st'.due _) ∧ sdiff st'.raw (st'.due _) < 2 ^ 30
        rw [ht.raw]
        exact hwin (i := 0) (hd.runNext.trans (by simp)) (by simp) hnow.1 hnow.2
  | @requeue y st' hpc hyQ hc ht hd hf =>
      have hins := inserts_requeue hpc hc
      obtain rfl : y = x := of_decide_eq_true ((hins x).symm.trans hx)
      refine ⟨rfl, by simp [Pc.task], _, List.erase_sublist, fun n hn => ?_, rfl, ?_⟩
      · have hny : y ≠ n := fun hny => h.queue.nodup.not_mem_erase (hny ▸ hn)
        exact (hins n).trans (decide_eq_false hny)
      · show -2 ^ 30 ≤ sdiff st'.raw (st'.due _) ∧ sdiff st'.raw (st'.due _) < 2 ^ 30
        rw [ht.raw]
        by_cases hper : (s.st.mem y).schedule = .periodic
        · -- a periodic task that runs late is next due an interval after it was due
          obtain ⟨h1, h2⟩ := hlate y hyQ (by rw [hpc]; rfl)
          exact hwin (hd.runNext.trans (by simp [requeueTime, hper, State.due])) (hint y) h1 h2
        · exact hwin (hd.runNext.trans (by simp [requeueTime, hper])) (hint y) hnow.1 hnow.2
  | @wake a y ha =>
      cases a with
      | call c => cases c with
        | runWake i => simp [inserts, registers, rewakes, requeues, Action.setup, Call.setup] at hx
        | _ => cases ha
      | interrupt i => simp [inserts, registers, rewakes, requeues, Action.setup] at hx
      | _ => cases ha
  | skip hi hpc hc hw =>
      simp [inserts, registers, rewakes, requeues, Action.setup, hpc, hi, hw] at hx
  | reclaim hi hpc hc ht hd hf =>
      simp [inserts, registers, rewakes, requeues, Action.setup, hpc, hi, hc] at hx
  | scanned hi hpc =>
      simp [inserts, registers, rewakes, requeues, Action.setup, hpc, Nat.not_lt.mpr hi] at hx
  | dropped hpc hc =>
      simp [inserts, registers, rewakes, requeues, Action.setup, hpc, hc] at hx
  | _ => simp [inserts, registers, rewakes, requeues, Action.setup, Call.setup, *] at hx

/-- Without an insertion, the queue can only lose tasks. -/
theorem Effect.sublist (he : Effect s Q a s' Q') (hx : ∀ x, inserts s a x = false) :
    Q'.Sublist Q := by
  cases he with
  | @register c _ _ _ _ x _ htask hc hy hxQ ht hd hf =>
      have hno := (inserts_register hc hy x).symm.trans (hx x)
      exact absurd rfl (of_decide_eq_false hno)
  | @rewake i _ hi hpc hyQ hw ht hd hf =>
      have hno := (inserts_rewake hi hpc hw _).symm.trans (hx (.pool ⟨i, hi⟩))
      exact absurd rfl (of_decide_eq_false hno)
  | @requeue x _ hpc hyQ hc ht hd hf =>
      have hno := (inserts_requeue hpc hc x).symm.trans (hx x)
      exact absurd rfl (of_decide_eq_false hno)
  | reclaim hi hpc hc ht hd hf => exact List.erase_sublist
  | _ => exact List.Sublist.refl Q

/-- The loop takes up a task at the readiness check only, and that task is the head of the
queue. -/
theorem Effect.task_eq (he : Effect s Q a s' Q') {n : Node} (hn : s'.pc.task = some n) :
    s.pc.task = some n ∨
      s.pc = .check ∧ n = Q.headD .queueRoot ∧ s.st.isReady n = true ∧ s'.st = s.st := by
  cases he with
  | check hpc =>
      dsimp only at hn
      split at hn
      · rename_i hr
        obtain rfl := Option.some.inj hn
        exact Or.inr ⟨hpc, rfl, hr, rfl⟩
      · cases hn
  | ret hpc => exact Or.inl (by rw [hpc]; exact hn)
  | waiting hpc hw => exact Or.inl (by rw [hpc]; exact hn)
  | perform hpc hw hpc' =>
      rw [hpc]
      rcases hpc' with ⟨-, rfl⟩ | ⟨addr, -, rfl⟩
      · exact Or.inl hn
      · exact Or.inl hn
  | top hpc => dsimp only at hn; split at hn <;> cases hn
  | elapse ticks => exact Or.inl hn
  | wake ha => exact Or.inl hn
  | adjust i interval => exact Or.inl hn
  | cancel htask hc => exact Or.inl hn
  | register htask hc hx hxQ ht hd hf => exact Or.inl hn
  | _ => cases hn

end

/-! ## The sorted queue -/

/-- The queue is sorted by lateness, ties in the order of insertion, and the comparisons made on
it are exact. -/
structure Sorted (h : History) (s : Sys) (Q : List Node) : Prop where
  window : ∀ n ∈ Q, InWindow (w := 30) s.st.raw (s.st.due n)
  interval : ∀ n, (s.st.mem n).runInterval.toNat ≤ 2 ^ 30
  task : ∀ n ∈ Q, s.pc.task = some n → 0 ≤ s.st.late n
  order : Q.Pairwise (Before s.st.late (insertedAt h))
  mem_iff : ∀ n, n ∈ Q ↔ alive h n = true

theorem Sorted.late_bounds {h : History} {s : Sys} {Q : List Node} (hs : Sorted h s Q) {n : Node}
    (hn : n ∈ Q) : -2 ^ 30 ≤ s.st.late n ∧ s.st.late n < 2 ^ 30 := hs.window n hn

section

variable {h : History} {s s' : Sys} {a : Action} {Q Q' : List Node}

/-- A task that is not inserted becomes later by the time that passes. -/
theorem Sorted.late_eq (hq : QInv s Q) (hs : Sorted h s Q) (he : Effect s Q a s' Q')
    (htime : Timely s a) {n : Node} (hn : n ∈ Q) (hins : inserts s a n = false) :
    s'.st.late n = s.st.late n + (a.ticks.getD 0 : Nat) ∧ s'.st.late n < 2 ^ 30 := by
  have hb := hs.late_bounds hn
  cases ht : a.ticks with
  | none =>
      have hsame : s'.st.late n = s.st.late n := by
        rw [State.late, State.late, he.raw_eq ht, he.due_eq hins]
      rw [hsame]
      exact ⟨by simp, hb.2⟩
  | some ticks =>
      have hlt : s.st.late n + ticks < 2 ^ 30 := htime ticks ht n (hq.live_eq ▸ hn)
      cases he with
      | elapse t =>
          obtain rfl : t = ticks := Option.some.inj ht
          have hadd := sdiff_add (w := 30) hb.1 hlt
          exact ⟨hadd, lt_of_eq_of_lt hadd hlt⟩
      | wake ha => cases a <;> simp_all [Action.ticks, Action.wakes]
      | _ => cases ht

/-- **A step keeps the queue sorted.** -/
theorem Sorted.effect (hq : QInv s Q) (hs : Sorted h s Q) (he : Effect s Q a s' Q')
    (htime : Timely s a) : Sorted ((s, a) :: h) s' Q' := by
  have hlate : ∀ n ∈ Q, inserts s a n = false →
      s'.st.late n = s.st.late n + (a.ticks.getD 0 : Nat) ∧ s'.st.late n < 2 ^ 30 :=
    fun n hn => hs.late_eq hq he htime hn
  have hwindow : ∀ n ∈ Q, inserts s a n = false → InWindow (w := 30) s'.st.raw (s'.st.due n) := by
    intro n hn hins
    obtain ⟨h1, h2⟩ := hlate n hn hins
    have := (hs.late_bounds hn).1
    exact ⟨by show -2 ^ 30 ≤ s'.st.late n; omega, h2⟩
  have htask : ∀ n ∈ Q, inserts s a n = false → s'.pc.task = some n → 0 ≤ s'.st.late n := by
    intro n hn hins htk
    rw [(hlate n hn hins).1]
    rcases he.task_eq htk with htk | ⟨-, -, hready, -⟩
    · have := hs.task n hn htk
      omega
    · have : 0 ≤ s.st.late n := of_decide_eq_true hready
      omega
  have hmem : ∀ n, n ∈ Q' ↔ alive ((s, a) :: h) n = true := by
    intro n
    rw [he.mem_iff hq, hs.mem_iff]
    simp [alive]
  by_cases hins : ∃ x, inserts s a x = true
  · obtain ⟨x, hx⟩ := hins
    obtain ⟨hnt, hnx, Q₀, hsub, hrest, hQ', hlo, hhi⟩ := he.of_inserts hq hs.interval
      (fun n hn htk => ⟨hs.task n hn htk, (hs.late_bounds hn).2⟩) hx
    have hwx : InWindow (w := 30) s'.st.raw (s'.st.due x) := ⟨hlo, hhi⟩
    have hcases : ∀ n ∈ Q', n = x ∨ n ∈ Q ∧ inserts s a n = false := by
      intro n hn
      rw [hQ', List.mem_orderedInsert] at hn
      exact hn.imp id fun hn => ⟨hsub.subset hn, hrest n hn⟩
    refine ⟨fun n hn => ?_, he.interval_le hs.interval, fun n hn htk => ?_, ?_, hmem⟩
    · rcases hcases n hn with rfl | ⟨hnQ, hni⟩
      · exact hwx
      · exact hwindow n hnQ hni
    · rcases hcases n hn with rfl | ⟨hnQ, hni⟩
      · exact absurd htk hnx
      · exact htask n hnQ hni htk
    · have horder : Q₀.Pairwise (Before s'.st.late (insertedAt ((s, a) :: h))) := by
        refine pairwise_before_congr (hs.order.sublist hsub)
          (fun b hb => (hlate b (hsub.subset hb) (hrest b hb)).1) fun b hb => ?_
        rw [insertedAt, if_neg (by simp [hrest b hb])]
      rw [hQ']
      refine pairwise_before_insert horder (fun b hb => ?_) fun b hb => ?_
      · -- in the window the signed difference compares the lateness
        have hwb := hwindow b (hsub.subset hb) (hrest b hb)
        rw [Sooner, sdiff_of_window hwx hwb]
        show s'.st.late b - s'.st.late x < 0 ↔ _
        omega
      · rw [insertedAt, insertedAt, if_neg (by simp [hrest b hb]), if_pos hx]
        exact Nat.lt_succ_of_le (insertedAt_le h b)
  · have hno : ∀ x, inserts s a x = false := fun x => by
      cases hx : inserts s a x with
      | false => rfl
      | true => exact absurd ⟨x, hx⟩ hins
    have hsub := he.sublist hno
    refine ⟨fun n hn => hwindow n (hsub.subset hn) (hno n), he.interval_le hs.interval,
      fun n hn => htask n (hsub.subset hn) (hno n), ?_, hmem⟩
    refine pairwise_before_congr (hs.order.sublist hsub)
      (fun b hb => (hlate b (hsub.subset hb) (hno b)).1) fun b hb => ?_
    rw [insertedAt, if_neg (by simp [hno b])]

end

theorem sorted_init : Sorted [] Sys.init [] where
  window n hn := absurd hn List.not_mem_nil
  interval n := by cases n <;> simp [Sys.init, initScheduler, Task.new]
  task n hn := absurd hn List.not_mem_nil
  order := .nil
  mem_iff n := by simp [alive]

theorem sorted_of_run {h : History} {s : Sys} (hrun : Run step Sys.init h s)
    (hok : ∀ p ∈ h, Ok p.1 p.2) : ∃ Q, QInv s Q ∧ Sorted h s Q := by
  have key : ∃ Q, QInv s Q ∧ Pool s Q ∧ Sorted h s Q :=
    run_effect hrun hok (fun _ _ h => ⟨h.1, h.2.1⟩) sorted_init
      fun _ _ _ _ _ _ hq hs hok _ he => hs.effect hq he hok.2.2
  obtain ⟨Q, hq, -, hs⟩ := key
  exact ⟨Q, hq, hs⟩

/-- `a` is to run before `b`: it is due earlier, or they are due at the same time and it was
inserted first. -/
def DueBefore (h : History) (s : State) (a b : Node) : Prop :=
  sdiff (s.due a) (s.due b) < 0 ∨ s.due a = s.due b ∧ insertedAt h a < insertedAt h b

/-- The queue is in order: a circle through the root in which `next` and `prev` are inverse to each
other, every live task is in it once, and the tasks come in the order they are to run. -/
structure InOrder (h : History) (s : State) (Q : List Node) : Prop where
  nodup : (.queueRoot :: Q).Nodup
  circle : Path s.next (s.next .queueRoot) Q (some .queueRoot)
  inverse : ∀ u ∈ .queueRoot :: Q, ∀ v ∈ .queueRoot :: Q, s.next u = some v ↔ s.prev v = some u
  live : ∀ n, n ∈ Q ↔ alive h n = true
  sorted : Q.Pairwise (DueBefore h s)

theorem Sorted.pairwise {h : History} {s : Sys} {Q : List Node} (hs : Sorted h s Q) :
    Q.Pairwise fun a b => DueBefore h s.st a b ∧ s.st.late b ≤ s.st.late a := by
  refine hs.order.imp_of_mem fun {a b} ha hb hab => ?_
  have hd : sdiff (s.st.due a) (s.st.due b) = s.st.late b - s.st.late a :=
    sdiff_of_window (hs.window a ha) (hs.window b hb)
  rcases hab with hlt | ⟨heq, hins⟩
  · exact ⟨Or.inl (by rw [hd]; omega), hlt.le⟩
  · exact ⟨Or.inr ⟨eq_of_sdiff_eq_zero (by rw [hd]; omega), hins⟩, heq.ge⟩

/-- **The queue is in order in every state**, and the readiness check finds the task that is due
first, if there is one. -/
theorem queue_inOrder {h : History} {s : Sys} (hrun : Run step Sys.init h s)
    (hok : ∀ p ∈ h, Ok p.1 p.2) :
    ∃ Q, InOrder h s.st Q ∧ ∀ s' x, s.pc = .check → step s .loop = some s' → s'.pc = .run x →
      Q = [] ∧ x = .queueRoot ∨ x ∈ Q ∧ 0 ≤ s.st.late x ∧
        ∀ y ∈ Q, y ≠ x → DueBefore h s.st x y ∧ s.st.late y ≤ s.st.late x := by
  obtain ⟨Q, hq, hs⟩ := sorted_of_run hrun hok
  have horder := hs.pairwise
  refine ⟨Q, ⟨hq.queue.1, hq.queue.path, fun u hu v hv => hq.queue.next_eq_iff hu hv, hs.mem_iff,
    horder.imp fun h => h.1⟩, fun s' x hpc hstep hpc' => ?_⟩
  have hn : s.st.next .queueRoot = some (Q.headD .queueRoot) := Ring.next_root hq.queue
  simp only [step, loopStep, hpc, hn, Option.map_some] at hstep
  obtain rfl := Option.some.inj hstep
  dsimp only at hpc'
  split at hpc'
  · rename_i hready
    obtain rfl : Q.headD .queueRoot = x := by simpa using hpc'
    cases Q with
    | nil => exact Or.inl ⟨rfl, rfl⟩
    | cons z Q =>
        refine Or.inr ⟨List.mem_cons_self, of_decide_eq_true hready, fun y hy hne => ?_⟩
        rcases List.mem_cons.mp hy with rfl | hy
        · exact absurd rfl hne
        · exact (List.pairwise_cons.mp horder).1 y hy
  · cases hpc'

/-- Shortly before the tick counter wraps, one task is registered that is due after the wrap, and
then one that is due before it. When both are due, the scheduler checks. -/
def aroundTheWrap : List Action :=
  [.elapse 4194967296, .call (.runSleep 16777216 0 none), .call (.runPeriodic 8388608 1 none), .ret,
    .elapse 126000000, .loop]

theorem queue_inOrder_aroundTheWrap :
    ∃ h s, Run step Sys.init h s ∧ s.pc = .check ∧
      ∃ Q, InOrder h s.st Q ∧ Q = [.pool 1, .pool 0] := by
  obtain ⟨h, s, hrun, hp⟩ := @exists_run_of_replay _ _ step Sys.init aroundTheWrap
    (fun h s => decide ((∀ p ∈ h, Ok p.1 p.2) ∧ s.pc = .check ∧
      s.st.runQueue = some [.pool 1, .pool 0])) (by decide +kernel)
  obtain ⟨hok, hpc, hQ⟩ := of_decide_eq_true hp
  obtain ⟨Q, hin, -⟩ := queue_inOrder hrun hok
  have hwalk : s.st.runQueue = some Q := walk_eq_some_iff.mpr ⟨hin.circle, fun n hn he => by
    cases he
    exact (List.nodup_cons.mp hin.nodup).1 hn, length_le_of_nodup
      (List.nodup_cons.mp hin.nodup).2 (List.nodup_cons.mp hin.nodup).1⟩
  exact ⟨h, s, hrun, hpc, Q, hin, Option.some.inj (hwalk.symm.trans hQ)⟩

end Gpsdo.Sched
