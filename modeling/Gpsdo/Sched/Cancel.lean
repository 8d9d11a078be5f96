import Gpsdo.Sched.Runs
import Gpsdo.Sched.Slot

set_option autoImplicit false

/-! # Cancellation

`runCancel` does not take a task out of the queue. It makes its callback `doNothing` and leaves
it to the next scan to reclaim the slot. Until then the task may become due, be woken, or be put
back into the queue by the `requeue` that follows its own callback; what it calls is `doNothing`
or, once reclaimed, nothing, up to the next registration in its slot (`Silent`).
-/

namespace Gpsdo.Sched

/-- The task calls no function of the clients. -/
def Silent (s : State) (n : Node) : Prop := ∀ addr, (s.mem n).callback ≠ .entry addr

/-- Only a registration gives a slot a callback. -/
theorem silent_step {s s' : Sys} {a : Action} {n : Node} (h : Silent s.st n)
    (hs : step s a = some s') (hreg : registers s a ≠ some n) : Silent s'.st n := by
  intro addr hcb
  cases step_slot hs n with
  | same hw hr hst hd => exact h addr (hd.callback ▸ hcb)
  | registered hr ha hd => exact hreg hr
  | woken hw hd => exact h addr (hd.callback ▸ hcb)
  | adjusted ha hd => exact h addr (hd.callback ▸ hcb)
  | cancelled ha hm hd => rw [hd.callback] at hcb; cases hcb
  | reclaimed hr hd => rw [hd.callback] at hcb; cases hcb
  | rewoken hr hd => exact h addr (hd.callback ▸ hcb)
  | started hst hw hd => exact h addr (hd.callback ▸ hcb)
  | requeued hr hd => exact h addr (hd.callback ▸ hcb)

/-- A silent task calls nothing in any run that does not register its slot again. -/
theorem silent_run {s t : Sys} {h : History} {n : Node} (hn : Silent s.st n)
    (hrun : Run step s h t) (hreg : ∀ p ∈ h, registers p.1 p.2 ≠ some n) :
    Silent t.st n ∧ ∀ p ∈ h, calls p.1 p.2 ≠ some n := by
  refine hrun.invariant_of_forall
    (I := fun h t => Silent t.st n ∧ ∀ p ∈ h, calls p.1 p.2 ≠ some n)
    (C := fun t a => registers t a ≠ some n) hreg ⟨hn, by simp⟩ ?_
  rintro h t a t' ⟨ht, hcalls⟩ hreg hs
  refine ⟨silent_step ht hs hreg, fun p hp => ?_⟩
  rcases List.mem_cons.mp hp with rfl | hp
  · intro hcall
    obtain ⟨-, -, -, addr, hcb⟩ := calls_eq_some hcall
    exact ht addr hcb
  · exact hcalls p hp

/-- What a reclaiming does to the tasks it does not reclaim. -/
theorem Effect.reclaim_others {s s' : Sys} {Q Q' : List Node} (he : Effect s Q .loop s' Q')
    {x : Node} (hr : reclaims s .loop = some x) :
    Q' = Q.erase x ∧ ∀ n, n ≠ x → SameData (s'.st.mem n) (s.st.mem n) := by
  obtain ⟨-, hc, i, hi, hpc, rfl⟩ := reclaims_eq_some hr
  cases he with
  | reclaim hj hpc' hc' ht hd hf =>
      obtain rfl : i = _ := by simpa [hpc] using hpc'
      exact ⟨rfl, ht.others⟩
  | skip hj hpc' hc' hw =>
      obtain rfl : i = _ := by simpa [hpc] using hpc'
      exact absurd hc hc'
  | rewake hj hpc' hx hw ht hd hf =>
      obtain rfl : i = _ := by simpa [hpc] using hpc'
      rw [hc] at hw
      cases hw
  | scanned hj hpc' =>
      obtain rfl : i = _ := by simpa [hpc] using hpc'
      omega
  | wake ha => cases ha
  | _ => simp_all

/-- The queue is in order in every run in which callbacks register tasks only while the pool is
not exhausted and only live tasks are woken. -/
theorem qinv_of_run {h : History} {s : Sys} (hrun : Run step Sys.init h s)
    (hok : ∀ p ∈ h, AllocOk p.1 p.2 ∧ HandleOk p.1 p.2) : ∃ Q, QInv s Q ∧ Pool s Q := by
  have key : ∃ Q, QInv s Q ∧ Pool s Q ∧ True :=
    run_effect (C := fun s a => AllocOk s a ∧ HandleOk s a) (I := fun _ _ _ => True) hrun hok
      (fun _ _ h => h) trivial fun _ _ _ _ _ _ _ _ _ _ _ => trivial
  obtain ⟨Q, hq, hp, -⟩ := key
  exact ⟨Q, hq, hp⟩

/-- The call of `runCancel` itself: the tasks that match are silent from here on, and nothing
changes for the others. -/
theorem runCancel_step {s s' : Sys} {Q : List Node} (hq : QInv s Q) {callback ref : Option Nat}
    (hcall : step s (.call (.runCancel callback ref)) = some s') :
    Queue s'.st Q ∧ ∀ n,
      (cancels s (.call (.runCancel callback ref)) n = true → Silent s'.st n) ∧
      (cancels s (.call (.runCancel callback ref)) n = false → s'.st.mem n = s.st.mem n) := by
  obtain ⟨st', hst, hcan⟩ := runCancel_spec hq.queue callback ref
  have hs' : s'.st = st' := by
    simp only [step] at hcall
    split at hcall
    · obtain ⟨st1, hst1, rfl⟩ := Option.map_eq_some_iff.mp hcall
      exact Option.some.inj (hst1.symm.trans hst)
    · cases hcall
  rw [hs']
  refine ⟨hq.queue.congr (fun n _ => congrFun hcan.next n) (fun n _ => congrFun hcan.prev n),
    fun n => ⟨fun hc => ?_, fun hc => ?_⟩⟩
  · simp only [cancels, hq.live_eq, Bool.and_eq_true, List.contains_iff_mem] at hc
    intro addr hcb
    rw [hcan.hit n hc.1 hc.2] at hcb
    cases hcb
  · by_cases hn : n ∈ Q
    · refine hcan.miss n hn ?_
      simpa [cancels, hq.live_eq, hn] using hc
    · exact hcan.frame n hn

/-- **Cancellation is final, and it concerns the matching tasks only.** After `runCancel` no run
calls a callback of a cancelled registration. The other tasks and the order of the queue are left
as they are, by `runCancel` and by every later step that reclaims a slot. -/
theorem runCancel_final {h : History} {s s' : Sys} {callback ref : Option Nat}
    (hrun : Run step Sys.init h s) (hok : ∀ p ∈ h, AllocOk p.1 p.2 ∧ HandleOk p.1 p.2)
    (hcall : step s (.call (.runCancel callback ref)) = some s') :
    (∀ n, cancels s (.call (.runCancel callback ref)) n = true → ∀ h' t, Run step s' h' t →
      (∀ p ∈ h', registers p.1 p.2 ≠ some n) → ∀ p ∈ h', calls p.1 p.2 ≠ some n) ∧
    (∀ n, cancels s (.call (.runCancel callback ref)) n = false → s'.st.mem n = s.st.mem n) ∧
    (∃ Q, s.st.runQueue = some Q ∧ s'.st.runQueue = some Q) ∧
    ∀ h' t, Run step s' h' t → (∀ p ∈ h', AllocOk p.1 p.2 ∧ HandleOk p.1 p.2) →
      ∀ x t', reclaims t .loop = some x → step t .loop = some t' →
        (∃ Q, t.st.runQueue = some Q ∧ t'.st.runQueue = some (Q.erase x)) ∧
          ∀ n, n ≠ x → SameData (t'.st.mem n) (t.st.mem n) := by
  obtain ⟨Q, hq, -⟩ := qinv_of_run hrun hok
  obtain ⟨hq', hmem⟩ := runCancel_step hq hcall
  refine ⟨fun n hn h' t hrun' hreg => (silent_run ((hmem n).1 hn) hrun' hreg).2,
    fun n => (hmem n).2, ⟨Q, hq.queue.runQueue_eq, hq'.runQueue_eq⟩, ?_⟩
  intro h' t hrun' hok' x t' hrec ht
  have hrun2 : Run step Sys.init (h' ++ (s, .call (.runCancel callback ref)) :: h) t :=
    (Run.next hrun hcall).trans hrun'
  obtain ⟨R, hR, hpool⟩ := qinv_of_run hrun2 fun p hp => by
    rcases List.mem_append.mp hp with hp | hp
    · exact hok' p hp
    · rcases List.mem_cons.mp hp with rfl | hp
      · refine ⟨fun hset => ?_, fun y hy => ?_⟩
        · cases hset
        · cases hy
      · exact hok p hp
  obtain ⟨R', he, hR'⟩ := step_effect hR (fun c hc => by cases hc)
    (fun i hi _ hpc => hpool.scanOff hi hpc) ht
  obtain ⟨rfl, hothers⟩ := he.reclaim_others hrec
  exact ⟨⟨R, hR.queue.runQueue_eq, hR'.runQueue_eq⟩, hothers⟩

/-- Three tasks are registered; the second, periodic one is due first and cancels by its own
callback. -/
def cancelFromCallback : List Action :=
  [.call (.runWait 1 none), .call (.runPeriodic 16777216 2 (some 5)), .call (.runSleep 33554432 2 none),
    .ret, .elapse 125000001, .loop, .loop, .loop]

theorem runCancel_final_fromCallback :
    ∃ h s s', Run step Sys.init h s ∧ s.pc = .callback (.pool 1) ∧
      step s (.call (.runCancel (some 2) (some 5))) = some s' ∧
      (∀ h' t, Run step s' h' t → (∀ p ∈ h', registers p.1 p.2 ≠ some (.pool 1)) →
        ∀ p ∈ h', calls p.1 p.2 ≠ some (.pool 1)) ∧
      s'.st.mem (.pool 2) = s.st.mem (.pool 2) ∧
      ∃ Q, s.st.runQueue = some Q ∧ s'.st.runQueue = some Q := by
  obtain ⟨h, s, hrun, hp⟩ := @exists_run_of_replay _ _ step Sys.init cancelFromCallback
    (fun h s => decide ((∀ p ∈ h, Ok p.1 p.2) ∧ s.pc = .callback (.pool 1) ∧
      (step s (.call (.runCancel (some 2) (some 5)))).isSome = true ∧
      cancels s (.call (.runCancel (some 2) (some 5))) (.pool 1) = true ∧
      cancels s (.call (.runCancel (some 2) (some 5))) (.pool 2) = false)) (by decide +kernel)
  obtain ⟨hok, hpc, hsome, hhit, hmiss⟩ := of_decide_eq_true hp
  obtain ⟨s', hcall⟩ := Option.isSome_iff_exists.mp hsome
  obtain ⟨h1, h2, h3, -⟩ := runCancel_final hrun (fun p hp => ⟨(hok p hp).1, (hok p hp).2.1⟩) hcall
  exact ⟨h, s, s', hrun, hpc, hcall, h1 _ hhit, h2 _ hmiss, h3⟩

end Gpsdo.Sched
