import Gpsdo.Sched.Effect

set_option autoImplicit false

/-! # The events of a run

What happens to the tasks in a step, read off the state the step is taken in and its action, and
what a history says about a task: whether it is live, when it was last inserted into the queue,
whether it has been woken since it last started. None of this is data of the scheduler; the
properties of runs are stated with it.
-/

namespace Gpsdo.Sched

/-! ## Events -/

/-- The slot a step registers a task in. -/
def registers (s : Sys) (a : Action) : Option Node :=
  if a.setup.isSome then s.st.taskFree else none

/-- The slot a step of the scan frees. -/
def reclaims (s : Sys) (a : Action) : Option Node :=
  match a, s.pc with
  | .loop, .scan i =>
      if h : i < 32 then
        if (s.st.mem (.pool ⟨i, h⟩)).schedule = .canceled then some (.pool ⟨i, h⟩) else none
      else none
  | _, _ => none

/-- The woken task a step of the scan moves to the front of the queue. -/
def rewakes (s : Sys) (a : Action) : Option Node :=
  match a, s.pc with
  | .loop, .scan i =>
      if h : i < 32 then
        if (s.st.mem (.pool ⟨i, h⟩)).schedule = .wake then some (.pool ⟨i, h⟩) else none
      else none
  | _, _ => none

/-- The task a step puts back into the queue after it ran. -/
def requeues (s : Sys) (a : Action) : Option Node :=
  match a, s.pc with
  | .loop, .requeue x => if (s.st.mem x).schedule = .canceled then none else some x
  | _, _ => none

/-- The task a step performs. -/
def starts (s : Sys) (a : Action) : Option Node :=
  match a, s.pc with
  | .loop, .run x => if (s.st.mem x).schedule = .wait then none else some x
  | _, _ => none

/-- The task whose callback a step calls, when it is a function of the clients. -/
def calls (s : Sys) (a : Action) : Option Node :=
  match a, s.pc with
  | .loop, .run x =>
      match (s.st.run x).2 with
      | some (.entry _, _) => some x
      | _ => none
  | _, _ => none

/-- The step cancels the task. -/
def cancels (s : Sys) (a : Action) (n : Node) : Bool :=
  match a with
  | .call (.runCancel callback ref) =>
      s.st.live.contains n && State.cancelMatch callback ref (s.st.mem n)
  | _ => false

/-- The step calls `Task::insert` on the task. -/
def inserts (s : Sys) (a : Action) (n : Node) : Bool :=
  registers s a == some n || rewakes s a == some n || requeues s a == some n

/-! ## What a history says about a task -/

/-- The task was registered and not reclaimed since. -/
def alive : History → Node → Bool
  | [], _ => false
  | (s, a) :: h, n => registers s a == some n || alive h n && reclaims s a != some n

/-- The number of steps up to the last insertion of the task into the queue. -/
def insertedAt : History → Node → Nat
  | [], _ => 0
  | (s, a) :: h, n => if inserts s a n then h.length + 1 else insertedAt h n

/-- The task was woken, and has not been started, cancelled or registered since. -/
def pendingWake : History → Node → Bool
  | [], _ => false
  | (s, a) :: h, n =>
      a.wakes == some n ||
        pendingWake h n && starts s a != some n && registers s a != some n && !cancels s a n

theorem insertedAt_le (h : History) (n : Node) : insertedAt h n ≤ h.length := by
  induction h with
  | nil => exact le_rfl
  | cons p h ih =>
      rw [insertedAt]
      split
      · exact le_rfl
      · exact ih.trans (Nat.le_succ _)

/-! ## The events in an effect

An effect is a registration, a reclaiming, or it leaves the slots outside the queue and the head
of the free list as they are. -/

theorem registers_of_wakes {s : Sys} {a : Action} {x : Node} (h : a.wakes = some x) :
    registers s a = none := by
  cases a with
  | call c => cases c with
    | runWake i => rfl
    | _ => cases h
  | _ => rfl

theorem reclaims_of_wakes {s : Sys} {a : Action} {x : Node} (h : a.wakes = some x) :
    reclaims s a = none := by
  cases a with
  | loop => cases h
  | _ => rfl

theorem reclaims_eq_some {s : Sys} {a : Action} {x : Node} (h : reclaims s a = some x) :
    a = .loop ∧ (s.st.mem x).schedule = .canceled ∧
      ∃ i, ∃ hi : i < 32, s.pc = .scan i ∧ x = .pool ⟨i, hi⟩ := by
  unfold reclaims at h
  split at h
  · rename_i i hpc
    split at h
    · rename_i hi
      split at h
      · rename_i hc
        obtain rfl := Option.some.inj h
        exact ⟨rfl, hc, i, hi, hpc, rfl⟩
      · cases h
    · cases h
  · cases h

theorem rewakes_eq_some {s : Sys} {a : Action} {x : Node} (h : rewakes s a = some x) :
    a = .loop ∧ (s.st.mem x).schedule = .wake ∧
      ∃ i, ∃ hi : i < 32, s.pc = .scan i ∧ x = .pool ⟨i, hi⟩ := by
  unfold rewakes at h
  split at h
  · rename_i i hpc
    split at h
    · rename_i hi
      split at h
      · rename_i hw
        obtain rfl := Option.some.inj h
        exact ⟨rfl, hw, i, hi, hpc, rfl⟩
      · cases h
    · cases h
  · cases h

theorem requeues_eq_some {s : Sys} {a : Action} {x : Node} (h : requeues s a = some x) :
    a = .loop ∧ s.pc = .requeue x ∧ (s.st.mem x).schedule ≠ .canceled := by
  unfold requeues at h
  split at h
  · rename_i y hpc
    split at h
    · cases h
    · rename_i hc
      obtain rfl := Option.some.inj h
      exact ⟨rfl, hpc, hc⟩
  · cases h

theorem calls_eq_some {s : Sys} {a : Action} {x : Node} (h : calls s a = some x) :
    a = .loop ∧ s.pc = .run x ∧ (s.st.mem x).schedule ≠ .wait ∧
      ∃ addr, (s.st.mem x).callback = .entry addr := by
  unfold calls at h
  split at h
  · rename_i y hpc
    split at h
    · rename_i addr ref hrun
      obtain rfl := Option.some.inj h
      rw [run_snd] at hrun
      by_cases hw : (s.st.mem y).schedule = .wait
      · rw [if_pos hw] at hrun
        cases hrun
      · rw [if_neg hw] at hrun
        exact ⟨rfl, hpc, hw, addr, congrArg Prod.fst (Option.some.inj hrun)⟩
    · cases h
  · cases h

theorem reclaims_of_registers {s : Sys} {a : Action} {x : Node} (h : registers s a = some x) :
    reclaims s a = none := by
  cases a with
  | call c => rfl
  | _ => simp [registers, Action.setup] at h

section

variable {s s' : Sys} {a : Action} {Q Q' : List Node}

/-- **Who is in the queue after a step**: a task just registered, and everyone from before who
is not reclaimed. -/
theorem Effect.mem_iff (h : QInv s Q) (he : Effect s Q a s' Q') (n : Node) :
    n ∈ Q' ↔ registers s a = some n ∨ n ∈ Q ∧ reclaims s a ≠ some n := by
  have hmove : ∀ {x} {r : Node → Node → Prop} [DecidableRel r], x ∈ Q →
      (n ∈ (Q.erase x).orderedInsert r x ↔ n ∈ Q) := fun hx =>
    ((List.perm_orderedInsert _ _ _).trans (List.perm_cons_erase hx).symm).mem_iff
  cases he with
  | register htask hc hx hxQ ht hd hf =>
      simp [registers, reclaims, Action.setup, hc, hx, List.mem_orderedInsert, eq_comm]
  | reclaim hi hpc hc ht hd hf =>
      simp [registers, reclaims, Action.setup, hpc, hi, hc, h.queue.nodup.mem_erase_iff, and_comm, eq_comm]
  | rewake hi hpc hx hw ht hd hf => simp [registers, reclaims, Action.setup, hpc, hi, hw, hmove hx]
  | requeue hpc hx hc ht hd hf => simp [registers, reclaims, Action.setup, hpc, hmove hx]
  | skip hi hpc hc hw => simp [registers, reclaims, Action.setup, hpc, hi, hc]
  | wake ha => simp [registers_of_wakes ha, reclaims_of_wakes ha]
  | scanned hi hpc => simp [registers, reclaims, Action.setup, hpc, Nat.not_lt.mpr hi]
  | elapse ticks => simp [registers, reclaims, Action.setup]
  | adjust i interval => simp [registers, reclaims, Action.setup, Call.setup]
  | cancel htask hc => simp [registers, reclaims, Action.setup, Call.setup]
  | _ => simp_all [registers, reclaims, Action.setup]

/-- A registration takes a slot outside the queue from the free list. -/
theorem Effect.of_registers (he : Effect s Q a s' Q') {x : Node} (hr : registers s a = some x) :
    s.pc.inTask = true ∧ s'.pc = s.pc ∧ x ∉ .queueRoot :: Q ∧ s.st.taskFree = some x ∧
      s'.st.taskFree = s.st.next x := by
  cases he with
  | register htask hc hx hxQ ht hd hf =>
      obtain rfl : _ = x := by simpa [registers, Action.setup, hc, hx] using hr
      exact ⟨htask, rfl, hxQ, hx, hf⟩
  | wake ha => rw [registers_of_wakes ha] at hr; cases hr
  | _ => simp [registers, Action.setup, Call.setup] at hr

/-- A reclaiming puts the scanned slot in front of the free list. -/
theorem Effect.of_reclaims (he : Effect s Q a s' Q') {x : Node} (hr : reclaims s a = some x) :
    ∃ i, ∃ hi : i < 32, x = .pool ⟨i, hi⟩ ∧ s.pc = .scan i ∧ s'.pc = .scan (i + 1) ∧
      (s'.st.mem x).schedule = .free ∧ s'.st.next x = s.st.taskFree ∧
      s'.st.taskFree = some x := by
  cases he with
  | reclaim hi hpc hc ht hd hf =>
      obtain rfl : _ = x := by simpa [reclaims, hpc, hi, hc] using hr
      exact ⟨_, hi, rfl, hpc, rfl, by rw [hd], by rw [State.next, hd], hf⟩
  | skip hi hpc hc hw => simp [reclaims, hpc, hi, hc] at hr
  | rewake hi hpc hx hw ht hd hf => simp [reclaims, hpc, hi, hw] at hr
  | scanned hi hpc => simp [reclaims, hpc, Nat.not_lt.mpr hi] at hr
  | wake ha => rw [reclaims_of_wakes ha] at hr; cases hr
  | _ => simp_all [reclaims]

/-- Every other step leaves the head of the free list. -/
theorem Effect.taskFree_eq (he : Effect s Q a s' Q') (hreg : registers s a = none)
    (hrec : reclaims s a = none) : s'.st.taskFree = s.st.taskFree := by
  cases he with
  | register htask hc hx hxQ ht hd hf => simp [registers, Action.setup, hc, hx] at hreg
  | reclaim hi hpc hc ht hd hf => simp [reclaims, hpc, hi, hc] at hrec
  | rewake hi hpc hx hw ht hd hf => exact hf
  | requeue hpc hx hc ht hd hf => exact hf
  | cancel htask hc => exact hc.taskFree
  | perform hpc hw hpc' => exact (run_static _ _).1
  | _ => rfl

/-- A slot outside the queue that is neither registered nor reclaimed is woken or adjusted, at
most. -/
theorem Effect.off_queue (h : QInv s Q) (he : Effect s Q a s' Q') {n : Node}
    (hn : n ∉ .queueRoot :: Q) (hreg : registers s a ≠ some n) (hrec : reclaims s a ≠ some n) :
    s'.st.mem n = s.st.mem n ∨
      a.wakes = some n ∧ s'.st.mem n = { s.st.mem n with schedule := .wake } ∨
      ∃ intv, s'.st.mem n = { s.st.mem n with runInterval := intv } := by
  have hQ : ∀ x ∈ Q, n ≠ x := fun x hx hnx => hn (hnx ▸ List.mem_cons_of_mem _ hx)
  cases he with
  | @register c _ _ _ _ x st' htask hc hx hxQ ht hd hf =>
      have hnx : n ≠ x := fun h => hreg (by simp [registers, Action.setup, hc, hx, h])
      exact Or.inl (ht.frame n hnx hn)
  | @reclaim i st' hi hpc hc ht hd hf =>
      have hnx : n ≠ .pool ⟨i, hi⟩ := fun h => hrec (by simp [reclaims, hpc, hi, hc, h])
      exact Or.inl (ht.frame n hnx hn)
  | rewake hi hpc hx hw ht hd hf => exact Or.inl (ht.frame n (hQ _ hx) hn)
  | requeue hpc hx hc ht hd hf => exact Or.inl (ht.frame n (hQ _ hx) hn)
  | @wake _ x ha =>
      by_cases hnx : n = x
      · subst hnx
        exact Or.inr (Or.inl ⟨ha, s.st.runWake_mem_self n⟩)
      · exact Or.inl (s.st.runWake_mem_of_ne hnx)
  | adjust i interval =>
      by_cases hnx : n = .pool i
      · subst hnx
        exact Or.inr (Or.inr ⟨_, s.st.runAdjust_mem_self _ interval⟩)
      · exact Or.inl (s.st.runAdjust_mem_of_ne interval hnx)
  | cancel htask hc => exact Or.inl (hc.frame n fun hnQ => hQ n hnQ rfl)
  | @perform x _ hpc hw hpc' =>
      -- the task it performs is a queued one, or the root
      have hnx : n ≠ x := by
        rintro rfl
        rcases h.task n (by rw [hpc]; rfl) with rfl | hnQ
        · exact hn List.mem_cons_self
        · exact hQ n hnQ rfl
      exact Or.inl (run_mem_of_ne _ hnx)
  | _ => exact Or.inl rfl

theorem Effect.next_off (h : QInv s Q) (he : Effect s Q a s' Q') {n : Node}
    (hn : n ∉ .queueRoot :: Q) (hreg : registers s a ≠ some n) (hrec : reclaims s a ≠ some n) :
    s'.st.next n = s.st.next n := by
  rcases he.off_queue h hn hreg hrec with hm | ⟨-, hm⟩ | ⟨intv, hm⟩ <;>
    simp only [State.next, hm]

theorem Effect.schedule_off (h : QInv s Q) (he : Effect s Q a s' Q') {n : Node}
    (hn : n ∉ .queueRoot :: Q) (hreg : registers s a ≠ some n) (hrec : reclaims s a ≠ some n)
    (hw : a.wakes ≠ some n) : (s'.st.mem n).schedule = (s.st.mem n).schedule := by
  rcases he.off_queue h hn hreg hrec with hm | ⟨hw', -⟩ | ⟨intv, hm⟩
  · rw [hm]
  · exact absurd hw' hw
  · rw [hm]

end

end Gpsdo.Sched
