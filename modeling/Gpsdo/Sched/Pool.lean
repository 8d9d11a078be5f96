import Gpsdo.Sched.History

set_option autoImplicit false

/-! # The free list and the queue

`Task::alloc` takes slots from the free list, and the scan of `runScheduler` puts them back. The
scan goes by the tag alone, and the tag `Canceled` is also what the constructor gives a slot that
was never registered. Such slots are on the free list already when the scan puts them there.

Two invariants come out of this. As long as the scan meets the tags it acts on only in queued
slots, the free list and the queue partition the pool (`partition_of_run`). In general the free
list is cyclic from the first scan on, but up to the point where it closes it still holds all
slots outside the queue (`Pool`), and this is enough as long as not all slots are in use.
-/

namespace Gpsdo.Sched

/-! ## The slots outside the queue -/

theorem exists_notMem_of_length_lt {Q : List Node} (h : Q.length < 32) :
    ∃ i, Node.pool i ∉ .queueRoot :: Q := by
  by_contra hall
  simp only [List.mem_cons, reduceCtorEq, false_or, not_exists, not_not] at hall
  have hsub : (List.finRange 32).map Node.pool ⊆ Q := by
    intro n hn
    obtain ⟨i, -, rfl⟩ := List.mem_map.mp hn
    exact hall i
  have hnd : ((List.finRange 32).map Node.pool).Nodup :=
    (List.nodup_finRange 32).map fun i j hij => by simpa using hij
  have hlen := (hnd.subperm hsub).length_le
  simp only [List.length_map, List.length_finRange] at hlen
  omega

/-- The free list is null-terminated and holds exactly the slots outside the queue. -/
def Partition (s : State) (Q : List Node) : Prop :=
  ∃ F, Path s.next s.taskFree F none ∧ F.Nodup ∧ ∀ n, n ∈ F ↔ n ∉ .queueRoot :: Q

theorem Partition.head {s : State} {Q : List Node} (h : Partition s Q) {x : Node}
    (hx : s.taskFree = some x) : x ∉ .queueRoot :: Q := by
  obtain ⟨F, hpath, -, hF⟩ := h
  rw [hx] at hpath
  cases F with
  | nil => cases hpath
  | cons y F =>
      obtain rfl := Option.some.inj hpath.1
      exact (hF x).mp List.mem_cons_self

/-- **A step keeps the partition** when what it reclaims comes from the queue. -/
theorem Effect.partition {s s' : Sys} {a : Action} {Q Q' : List Node} (h : QInv s Q)
    (he : Effect s Q a s' Q') (hp : Partition s.st Q)
    (hrec : ∀ x, reclaims s a = some x → x ∈ Q) : Partition s'.st Q' := by
  obtain ⟨F, hpath, hnd, hF⟩ := hp
  have hmem : ∀ n, n ∈ .queueRoot :: Q' ↔
      n = .queueRoot ∨ registers s a = some n ∨ n ∈ Q ∧ reclaims s a ≠ some n := fun n => by
    rw [List.mem_cons, he.mem_iff h]
  have hnext : ∀ n ∈ F, registers s a ≠ some n → s'.st.next n = s.st.next n := by
    intro n hn hreg
    have hnQ := (hF n).mp hn
    refine he.next_off h hnQ hreg fun hr => hnQ (List.mem_cons_of_mem _ (hrec n hr))
  cases hreg : registers s a with
  | some x =>
      have hnrec : reclaims s a = none := reclaims_of_registers hreg
      obtain ⟨-, -, hxQ, hx, hf⟩ := he.of_registers hreg
      rw [hx] at hpath
      cases F with
      | nil => cases hpath
      | cons y F =>
          obtain ⟨hy, hrest⟩ := hpath
          obtain rfl := Option.some.inj hy
          obtain ⟨hxF, hnd⟩ := List.nodup_cons.mp hnd
          refine ⟨F, ?_, hnd, fun n => ?_⟩
          · rw [hf]
            refine hrest.congr fun n hn => hnext n (List.mem_cons_of_mem _ hn) ?_
            rw [hreg]
            exact fun hnx => hxF (Option.some.inj hnx ▸ hn)
          · rw [hmem, hreg, hnrec]
            have := hF n
            simp only [List.mem_cons, not_or, Option.some.injEq, ne_eq, reduceCtorEq,
              not_false_eq_true, and_true] at this ⊢
            by_cases hnx : n = x
            · subst hnx; simp [hxF]
            · simp only [hnx, false_or] at this
              rw [this]
              simp [Ne.symm hnx]
  | none =>
      cases hr : reclaims s a with
      | some x =>
          have hxQ := hrec x hr
          obtain ⟨i, hi, hxi, -, -, -, hnx, hf⟩ := he.of_reclaims hr
          have hxF : x ∉ F := fun hx => (hF x).mp hx (List.mem_cons_of_mem _ hxQ)
          refine ⟨x :: F, ⟨hf, ?_⟩, List.nodup_cons.mpr ⟨hxF, hnd⟩, fun n => ?_⟩
          · rw [hnx]
            exact hpath.congr fun n hn => hnext n hn (by simp [hreg])
          · rw [hmem, hreg, hr, List.mem_cons, hF]
            simp only [List.mem_cons, not_or, reduceCtorEq, false_or, ne_eq, Option.some.injEq,
              not_and, not_not]
            by_cases hnx : n = x
            · subst hnx; simp [hxi]
            · simp [hnx, Ne.symm hnx]
      | none =>
          refine ⟨F, ?_, hnd, fun n => ?_⟩
          · rw [he.taskFree_eq hreg hr]
            exact hpath.congr fun n hn => hnext n hn (by simp [hreg])
          · rw [hmem, hreg, hr, hF]
            simp

theorem freeList_init : initScheduler.freeList = some ((List.finRange 32).map Node.pool) := by
  decide +kernel

theorem partition_init : Partition initScheduler [] := by
  refine ⟨_, (walk_eq_some_iff.mp freeList_init).1,
    (List.nodup_finRange 32).map fun i j hij => by simpa using hij, fun n => ?_⟩
  cases n with
  | queueRoot => simp
  | pool i => simp [List.mem_finRange]

/-! ## Runs in which the scan only acts on queued slots -/

/-- When a step of the scan finds the tag of a cancelled or of a woken task, the slot is in the
queue. -/
def ScanOk (s : Sys) (a : Action) : Prop :=
  ∀ i (hi : i < 32), a = .loop → s.pc = .scan i →
    (s.st.mem (.pool ⟨i, hi⟩)).schedule = .canceled ∨
      (s.st.mem (.pool ⟨i, hi⟩)).schedule = .wake → .pool ⟨i, hi⟩ ∈ s.st.live

instance (s : Sys) (a : Action) : Decidable (ScanOk s a) :=
  inferInstanceAs (Decidable (∀ i (hi : i < 32), a = .loop → s.pc = .scan i →
    (s.st.mem (.pool ⟨i, hi⟩)).schedule = .canceled ∨
      (s.st.mem (.pool ⟨i, hi⟩)).schedule = .wake → .pool ⟨i, hi⟩ ∈ s.st.live))

theorem ScanOk.reclaims {s : Sys} {a : Action} (h : ScanOk s a) {x : Node}
    (hr : reclaims s a = some x) : x ∈ s.st.live := by
  obtain ⟨ha, hc, i, hi, hpc, rfl⟩ := reclaims_eq_some hr
  exact h i hi ha hpc (Or.inl hc)

/-- In such a run the free list and the queue partition the pool. -/
theorem partition_of_run {h : History} {s : Sys} (hrun : Run step Sys.init h s)
    (hok : ∀ p ∈ h, ScanOk p.1 p.2) : ∃ Q, QInv s Q ∧ Partition s.st Q := by
  refine hrun.invariant_of_forall (I := fun _ s => ∃ Q, QInv s Q ∧ Partition s.st Q) hok
    ⟨[], qinv_init, partition_init⟩ ?_
  rintro - s a s' ⟨Q, hq, hp⟩ hok hs
  obtain ⟨Q', he, hQ'⟩ := step_effect hq (fun c _ _ x hx => hp.head hx)
    (fun i hi ha hpc hxQ => by
      rw [ScanOk, hq.live_eq] at hok
      exact ⟨fun hw => hxQ (hok i hi ha hpc (Or.inr hw)),
        fun hc => absurd (hok i hi ha hpc (Or.inl hc)) hxQ⟩) hs
  exact ⟨Q', he.qinv hq hQ', he.partition hq hp fun x hx => hq.live_eq ▸ hok.reclaims hx⟩

/-- Each slot of the pool is on the free list once or in the run queue once. -/
def State.Partitioned (s : State) : Prop :=
  ∃ F Q, s.freeList = some F ∧ s.runQueue = some Q ∧
    ∀ i, F.count (.pool i) + Q.count (.pool i) = 1

/-- **When the scan only acts on queued slots, every slot is free once or queued once**, and
`alloc` has a slot to give exactly as long as not all are queued. -/
theorem partitioned_of_scanOk {h : History} {s : Sys} (hrun : Run step Sys.init h s)
    (hok : ∀ p ∈ h, ScanOk p.1 p.2) :
    s.st.Partitioned ∧ (∀ x st', s.st.alloc = some (x, st') → x ∉ s.st.live) ∧
      (s.st.live.length = 32 → ∀ c : Call, c.setup.isSome → s.st.perform c = none) := by
  obtain ⟨Q, hq, hp⟩ := partition_of_run hrun hok
  have hhead : ∀ x, s.st.taskFree = some x → x ∉ Q := fun x hx hxQ =>
    hp.head hx (List.mem_cons_of_mem _ hxQ)
  obtain ⟨F, hpath, hnd, hF⟩ := hp
  have hroot : .queueRoot ∉ F := fun hr => (hF _).mp hr List.mem_cons_self
  rw [hq.live_eq]
  refine ⟨⟨F, Q, ?_, hq.queue.runQueue_eq, fun i => ?_⟩, fun x st' ha => ?_, fun hlen c hc => ?_⟩
  · exact walk_eq_some_iff.mpr ⟨hpath, by simp, length_le_of_nodup hnd hroot⟩
  · by_cases hi : .pool i ∈ Q
    · have hiF : .pool i ∉ F := fun h => (hF _).mp h (List.mem_cons_of_mem _ hi)
      rw [List.count_eq_zero_of_not_mem hiF, List.count_eq_one_of_mem hq.queue.nodup hi]
    · have hiF : .pool i ∈ F := (hF _).mpr (by simpa using hi)
      rw [List.count_eq_one_of_mem hnd hiF, List.count_eq_zero_of_not_mem hi]
  · obtain ⟨y, hy, hyx⟩ := Option.map_eq_some_iff.mp ha
    obtain rfl : y = x := congrArg Prod.fst hyx
    exact hhead y hy
  · obtain ⟨⟨sched, intv, cb, ref⟩, hset⟩ := Option.isSome_iff_exists.mp hc
    have hnone : s.st.taskFree = none := by
      -- a 33rd slot outside a queue of 32 does not exist
      cases hx : s.st.taskFree with
      | none => rfl
      | some x =>
          rw [hx] at hpath
          have hxQ : x ∉ .queueRoot :: Q := by
            cases F with
            | nil => cases hpath
            | cons y F => exact (hF x).mp (by rw [Option.some.inj hpath.1]; exact List.mem_cons_self)
          rw [List.mem_cons, not_or] at hxQ
          have := length_le_of_nodup (List.nodup_cons.mpr ⟨hxQ.2, hq.queue.nodup⟩)
            (by simp [Ne.symm hxQ.1, hq.queue.root_notMem])
          rw [List.length_cons, hlen] at this
          omega
    rw [perform_setup hset, State.alloc, hnone]
    rfl

/-- `main` registers 32 tasks and wakes one of them, and the scheduler scans the pool. -/
def fullPool : List Action :=
  (List.finRange 32).map (fun i => .call (.runWait i none)) ++ [.ret, .interrupt 7]
    ++ List.replicate 36 Action.loop

theorem partitioned_fullPool :
    ∃ h s, Run step Sys.init h s ∧ s.st.live.length = 32 ∧ s.st.Partitioned ∧
      ∀ c : Call, c.setup.isSome → s.st.perform c = none := by
  obtain ⟨h, s, hrun, hp⟩ := @exists_run_of_replay _ _ step Sys.init fullPool
    (fun h s => decide ((∀ p ∈ h, ScanOk p.1 p.2) ∧ s.st.live.length = 32)) (by decide +kernel)
  obtain ⟨hok, hlen⟩ := of_decide_eq_true hp
  obtain ⟨hpart, -, hfull⟩ := partitioned_of_scanOk hrun hok
  exact ⟨h, s, hrun, hlen, hpart, hfull hlen⟩

/-- One task is registered and woken. The scan puts the 31 slots that were never registered on the
free list a second time; then the woken task registers 31 tasks. -/
def freshPool : List Action :=
  [.call (.runWait 0 none), .ret, .interrupt 0] ++ List.replicate 37 Action.loop
    ++ (List.finRange 31).map fun i => .call (.runWait i none)

/-- The scan of slots that were never registered makes the free list cyclic: with 32 live tasks
`alloc` still has a slot to give, and it is one of a live task. -/
theorem not_partitioned_freshPool :
    ∃ h s, Run step Sys.init h s ∧ ¬ s.st.Partitioned ∧ s.st.live.length = 32 ∧
      ∃ x st', s.st.alloc = some (x, st') ∧ x ∈ s.st.live := by
  obtain ⟨h, s, hrun, hp⟩ := @exists_run_of_replay _ _ step Sys.init freshPool
    (fun _ s => decide (s.st.freeList = none ∧ s.st.live.length = 32 ∧
      ∃ x ∈ s.st.live, s.st.taskFree = some x)) (by decide +kernel)
  obtain ⟨hfree, hlen, x, hx, hf⟩ := of_decide_eq_true hp
  refine ⟨h, s, hrun, ?_, hlen, x, _, by rw [State.alloc, hf]; rfl, hx⟩
  rintro ⟨F, Q, hF, -⟩
  rw [hfree] at hF
  cases hF

end Gpsdo.Sched
