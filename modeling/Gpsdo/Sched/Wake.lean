import Gpsdo.Sched.Runs

set_option autoImplicit false

/-! # Wake-ups

`runWake` may interrupt the loop between any two steps. It writes the tag `Wake` and then sets
`taskUpdate`, and the loop clears `taskUpdate` before it scans the pool. A task that was woken and
has not started since is on its way to being noticed at every point of the loop (`Noticed`).
-/

namespace Gpsdo.Sched

/-- The next scan, or the current one, moves the task to the front of the queue, or it is due
already and the loop is not about to put it off. -/
def Noticed (s : Sys) (n : Node) : Prop :=
  s.st.taskUpdate = true ∨ s.pc = .clear ∨ (∃ i j, s.pc = .scan i ∧ n = .pool j ∧ i ≤ j) ∨
    0 ≤ sdiff s.st.raw (s.st.due n) ∧ s.pc ≠ .callback n ∧ s.pc ≠ .requeue n

/-- What the wake-up of `n` has come to. -/
structure Pending (s : Sys) (Q : List Node) (n : Node) : Prop where
  queued : n ∈ Q
  tag : (s.st.mem n).schedule = .wake
  noticed : Noticed s n

section

variable {s s' : Sys} {a : Action} {Q Q' : List Node} {n : Node}

theorem Noticed.congr (h : Noticed s n) (hpc : s'.pc = s.pc)
    (hu : s.st.taskUpdate = true → s'.st.taskUpdate = true)
    (hd : 0 ≤ sdiff s.st.raw (s.st.due n) → 0 ≤ sdiff s'.st.raw (s'.st.due n)) :
    Noticed s' n := by
  rw [Noticed, hpc]
  exact h.imp hu fun h => h.imp id fun h => h.imp id fun h => ⟨hd h.1, h.2⟩

/-- A step that calls another task, or none, keeps the tag of a woken task. -/
theorem Effect.wake_kept (h : QInv s Q) (he : Effect s Q a s' Q') (hn : n ∈ Q)
    (htag : (s.st.mem n).schedule = .wake) (hstart : starts s a ≠ some n)
    (hreg : registers s a ≠ some n) (hcan : cancels s a n = false) :
    (s'.st.mem n).schedule = .wake := by
  have hother : ∀ {x st'}, Touch x (.queueRoot :: Q) s.st st' → n ≠ x →
      (st'.mem n).schedule = .wake := fun ht hnx => (ht.others n hnx).schedule.trans htag
  cases he with
  | @wake _ x ha =>
      by_cases hnx : n = x
      · subst hnx; simp
      · simpa [hnx] using htag
  | adjust i interval =>
      exact (s.st.write_field _ n (fun t => { t with runInterval := toMonoRaw interval })
        Task.schedule rfl).trans htag
  | @cancel callback ref st' _ hc =>
      rw [hc.miss n hn]
      · exact htag
      · simpa [cancels, h.live_eq, hn] using hcan
  | register htask hc hx hxQ ht hd hf =>
      exact hother ht fun hnx => hxQ (hnx ▸ List.mem_cons_of_mem _ hn)
  | @reclaim i _ hi hpc hc ht hd hf =>
      refine hother ht fun hnx => ?_
      rw [hnx, hc] at htag
      cases htag
  | @rewake i _ hi hpc hx hw ht hd hf =>
      by_cases hnx : n = .pool ⟨i, hi⟩
      · subst hnx; exact hd.schedule.trans htag
      · exact hother ht hnx
  | @requeue x _ hpc hx hc ht hd hf =>
      by_cases hnx : n = x
      · subst hnx; exact hd.schedule.trans htag
      · exact hother ht hnx
  | @perform x _ hpc hw hpc' =>
      have hnx : n ≠ x := by
        rintro rfl
        simp [starts, hpc, hw] at hstart
      rw [run_mem_of_ne s.st hnx]
      exact htag
  | _ => exact htag

/-- **The wake-up stays on its way**, through every step but the start of the task. -/
theorem Effect.noticed (h : QInv s Q) (he : Effect s Q a s' Q') (hok : Ok s a)
    (hp : Pending s Q n) (hstart : starts s a ≠ some n) : Noticed s' n := by
  obtain ⟨hn, htag, hnot⟩ := hp
  obtain ⟨-, -, htime⟩ := hok
  have hroot : n ≠ .queueRoot := fun hr => h.queue.root_notMem (hr ▸ hn)
  have hother : ∀ {x st'}, Touch x (.queueRoot :: Q) s.st st' → n ≠ x →
      st'.taskUpdate = s.st.taskUpdate ∧ sdiff st'.raw (st'.due n) = sdiff s.st.raw (s.st.due n) :=
    fun ht hnx => ⟨ht.taskUpdate, by
      rw [ht.raw, State.due, State.due, (ht.others n hnx).runNext]⟩
  -- one more slot of the scan is passed, and it was not that of `n`
  have hscan : ∀ {i st'} (hi : i < 32), s.pc = .scan i → n ≠ .pool ⟨i, hi⟩ →
      st'.taskUpdate = s.st.taskUpdate → sdiff st'.raw (st'.due n) = sdiff s.st.raw (s.st.due n) →
      Noticed ⟨st', .scan (i + 1)⟩ n := by
    intro i st' hi hpc hni hu hd
    rcases hnot with h' | h' | ⟨i', j, hpc', rfl, hij⟩ | ⟨h', -⟩
    · exact Or.inl (hu.trans h')
    · rw [hpc] at h'; cases h'
    · obtain rfl : i = i' := by simpa [hpc] using hpc'
      have hne : i ≠ j := by rintro rfl; exact hni rfl
      exact Or.inr (Or.inr (Or.inl ⟨i + 1, j, rfl, rfl, by omega⟩))
    · exact Or.inr (Or.inr (Or.inr ⟨hd ▸ h', by simp, by simp⟩))
  -- from a place outside the scan to one where `n` is not about to be put off
  have hmove : ∀ {st' pc'}, s.pc ≠ .clear → (∀ i, s.pc ≠ .scan i) →
      st'.taskUpdate = s.st.taskUpdate → sdiff st'.raw (st'.due n) = sdiff s.st.raw (s.st.due n) →
      pc' ≠ .callback n → pc' ≠ .requeue n → Noticed ⟨st', pc'⟩ n := by
    intro st' pc' hclear hsc hu hd h1 h2
    rcases hnot with h' | h' | ⟨i, j, hpc', -⟩ | ⟨h', -⟩
    · exact Or.inl (hu.trans h')
    · exact absurd h' hclear
    · exact absurd hpc' (hsc i)
    · exact Or.inr (Or.inr (Or.inr ⟨hd ▸ h', h1, h2⟩))
  cases he with
  | elapse ticks =>
      refine hnot.congr rfl id fun hd => ?_
      have := htime ticks rfl n (h.live_eq ▸ hn)
      show 0 ≤ sdiff (s.st.raw + BitVec.ofNat 32 ticks) (s.st.due n)
      rw [sdiff_add (w := 30) (by omega) this]
      omega
  | @wake _ x ha => exact Or.inl rfl
  | adjust i interval =>
      refine hnot.congr rfl id fun hd => ?_
      rw [State.due_runAdjust]
      exact hd
  | cancel _ hc =>
      refine hnot.congr rfl (fun hu => ?_) fun hd => ?_
      · rw [hc.update, hu, Bool.true_or]
      · rw [hc.due, hc.raw]
        exact hd
  | register htask hc hx hxQ ht hd hf =>
      obtain ⟨hu, hd⟩ := hother ht fun hnx => hxQ (hnx ▸ List.mem_cons_of_mem _ hn)
      exact hnot.congr rfl hu.trans fun hd' => hd ▸ hd'
  | enter hpc => exact hmove (by simp [hpc]) (by simp [hpc]) rfl rfl (by simp) (by simp)
  | @ret x hpc =>
      rcases hnot with h' | h' | ⟨i, j, hpc', -⟩ | ⟨h', hcb, -⟩
      · exact Or.inl h'
      · rw [hpc] at h'; cases h'
      · rw [hpc] at hpc'; cases hpc'
      · refine Or.inr (Or.inr (Or.inr ⟨h', by simp, ?_⟩))
        rw [hpc] at hcb
        simpa using hcb
  | top hpc =>
      cases hu : s.st.taskUpdate with
      | true => exact Or.inl hu
      | false => exact hmove (by simp [hpc]) (by simp [hpc]) rfl rfl (by simp) (by simp)
  | clear hpc =>
      cases n with
      | queueRoot => exact absurd rfl hroot
      | pool j => exact Or.inr (Or.inr (Or.inl ⟨0, j, rfl, rfl, Nat.zero_le _⟩))
  | skip hi hpc hc hw =>
      exact hscan hi hpc (fun hni => hw (hni ▸ htag)) rfl rfl
  | @reclaim i st' hi hpc hc ht hd hf =>
      have hni : n ≠ .pool ⟨i, hi⟩ := by
        rintro rfl
        rw [hc] at htag
        cases htag
      exact hscan hi hpc hni (hother ht hni).1 (hother ht hni).2
  | @rewake i st' hi hpc hx hw ht hd hf =>
      by_cases hni : n = .pool ⟨i, hi⟩
      · subst hni
        refine Or.inr (Or.inr (Or.inr ⟨?_, by simp, by simp⟩))
        show 0 ≤ sdiff st'.raw (st'.due (.pool ⟨i, hi⟩))
        rw [ht.raw, State.due, hd.runNext, sdiff_self]
      · exact hscan hi hpc hni (hother ht hni).1 (hother ht hni).2
  | scanned hi hpc =>
      rcases hnot with h' | h' | ⟨i, j, hpc', -, hij⟩ | ⟨h', -⟩
      · exact Or.inl h'
      · rw [hpc] at h'; cases h'
      · obtain rfl : _ = i := by simpa [hpc] using hpc'
        omega
      · exact Or.inr (Or.inr (Or.inr ⟨h', by simp, by simp⟩))
  | check hpc =>
      refine hmove (by simp [hpc]) (by simp [hpc]) rfl rfl ?_ ?_ <;> split <;> simp
  | @waiting x hpc hw =>
      refine hmove (by simp [hpc]) (by simp [hpc]) rfl rfl (by simp) ?_
      rintro h'
      obtain rfl : x = n := by simpa using h'
      rw [hw] at htag
      cases htag
  | @perform x pc' hpc hw hpc' =>
      have hnx : n ≠ x := by
        rintro rfl
        simp [starts, hpc, hw] at hstart
      obtain ⟨-, hu, hr⟩ := run_static s.st x
      have hd : sdiff (s.st.run x).1.raw ((s.st.run x).1.due n) = sdiff s.st.raw (s.st.due n) := by
        rw [hr, State.due, State.due, run_mem_of_ne s.st hnx]
      refine hmove (by simp [hpc]) (by simp [hpc]) hu hd ?_ ?_
      · rcases hpc' with ⟨-, rfl⟩ | ⟨addr, -, rfl⟩ <;> simp [Ne.symm hnx]
      · rcases hpc' with ⟨-, rfl⟩ | ⟨addr, -, rfl⟩ <;> simp [Ne.symm hnx]
  | dropped hpc hc => exact hmove (by simp [hpc]) (by simp [hpc]) rfl rfl (by simp) (by simp)
  | @requeue x st' hpc hx hc ht hd hf =>
      rcases hnot with h' | h' | ⟨i, j, hpc', -⟩ | ⟨h', -, hrq⟩
      · exact Or.inl (ht.taskUpdate.trans h')
      · rw [hpc] at h'; cases h'
      · rw [hpc] at hpc'; cases hpc'
      · have hnx : n ≠ x := fun hnx => hrq (hnx ▸ hpc)
        exact Or.inr (Or.inr (Or.inr ⟨(hother ht hnx).2 ▸ h', by simp, by simp⟩))

theorem Effect.pending (h : QInv s Q) (he : Effect s Q a s' Q') (hok : Ok s a)
    (hp : Pending s Q n) (hstart : starts s a ≠ some n) (hreg : registers s a ≠ some n)
    (hcan : cancels s a n = false) : Pending s' Q' n where
  queued := by
    refine (he.mem_iff h n).mpr (Or.inr ⟨hp.queued, fun hrec => ?_⟩)
    have hc := (reclaims_eq_some hrec).2.1
    rw [hp.tag] at hc
    cases hc
  tag := he.wake_kept h hp.queued hp.tag hstart hreg hcan
  noticed := he.noticed h hok hp hstart

/-- `runWake` puts the wake-up on its way. -/
theorem Effect.pending_of_wakes (h : QInv s Q) (he : Effect s Q a s' Q') (hw : a.wakes = some n)
    (hn : n ∈ Q) : Pending s' Q' n := by
  have hQ : n ∈ Q' := (he.mem_iff h n).mpr (Or.inr ⟨hn, by simp [reclaims_of_wakes hw]⟩)
  cases he with
  | @wake _ x ha =>
      obtain rfl : x = n := Option.some.inj (ha.symm.trans hw)
      exact ⟨hQ, by simp, Or.inl rfl⟩
  | @register c _ _ _ _ _ _ _ hc => cases c <;> simp [Action.wakes, Call.setup] at hw hc
  | _ => cases hw

end

/-- In every run, what is pending is on its way. -/
theorem pending_of_run {h : History} {s : Sys} (hrun : Run step Sys.init h s)
    (hok : ∀ p ∈ h, Ok p.1 p.2) :
    ∃ Q, QInv s Q ∧ ∀ n, pendingWake h n = true → Pending s Q n := by
  have key : ∃ Q, QInv s Q ∧ Pool s Q ∧ ∀ n, pendingWake h n = true → Pending s Q n := by
    refine run_effect (I := fun h s Q => ∀ n, pendingWake h n = true → Pending s Q n) hrun hok
      (fun _ _ h => ⟨h.1, h.2.1⟩) (fun n hn => by cases hn) ?_
    intro h s a s' Q Q' hq ih hok hs he n hn
    by_cases hw : a.wakes = some n
    · exact he.pending_of_wakes hq hw (hq.live_eq ▸ hok.2.1 n hw)
    · simp only [pendingWake, Bool.or_eq_true, beq_iff_eq, hw, false_or, Bool.and_eq_true,
        bne_iff_ne, Bool.not_eq_true'] at hn
      obtain ⟨⟨⟨hn, hstart⟩, hreg⟩, hcan⟩ := hn
      exact he.pending hq hok (ih n hn) hstart hreg hcan
  obtain ⟨Q, hq, -, hp⟩ := key
  exact ⟨Q, hq, hp⟩

/-- **No wake-up is lost.** At the top of the loop every task that was woken and has not started
since is still tagged `Wake`, and either `taskUpdate` is set or the task is queued and due. -/
theorem no_lost_wakeup {h : History} {s : Sys} (hrun : Run step Sys.init h s)
    (hok : ∀ p ∈ h, Ok p.1 p.2) (htop : s.pc = .top) {n : Node} (hn : pendingWake h n = true) :
    (s.st.mem n).schedule = .wake ∧
      (s.st.taskUpdate = true ∨ n ∈ s.st.live ∧ 0 ≤ sdiff s.st.raw (s.st.due n)) := by
  obtain ⟨Q, hq, hp⟩ := pending_of_run hrun hok
  obtain ⟨hnQ, htag, hnot⟩ := hp n hn
  refine ⟨htag, ?_⟩
  rcases hnot with h' | h' | ⟨i, j, hpc, -⟩ | ⟨h', -⟩
  · exact Or.inl h'
  · rw [htop] at h'; cases h'
  · rw [htop] at hpc; cases hpc
  · exact Or.inr ⟨hq.live_eq ▸ hnQ, h'⟩

/-- Two tasks are registered. One is woken and its callback, while it runs, wakes the other and is
woken again itself; then it returns. -/
def wakeInCallback : List Action :=
  [.call (.runWait 0 none), .call (.runWait 1 none), .ret, .interrupt 1]
    ++ List.replicate 37 Action.loop
    ++ [.call (.runWake 0), .elapse 50, .interrupt 1, .ret, .loop]

theorem no_lost_wakeup_in_callback :
    ∃ h s, Run step Sys.init h s ∧ s.pc = .top ∧ pendingWake h (.pool 1) = true ∧
      (s.st.mem (.pool 1)).schedule = .wake ∧
      (s.st.taskUpdate = true ∨
        .pool 1 ∈ s.st.live ∧ 0 ≤ sdiff s.st.raw (s.st.due (.pool 1))) := by
  obtain ⟨h, s, hrun, hp⟩ := @exists_run_of_replay _ _ step Sys.init wakeInCallback
    (fun h s => decide ((∀ p ∈ h, Ok p.1 p.2) ∧ s.pc = .top) && pendingWake h (.pool 1))
    (by decide +kernel)
  rw [Bool.and_eq_true, decide_eq_true_eq] at hp
  obtain ⟨⟨hok, htop⟩, hn⟩ := hp
  obtain ⟨h1, h2⟩ := no_lost_wakeup hrun hok htop hn
  exact ⟨h, s, hrun, htop, hn, h1, h2⟩

end Gpsdo.Sched
