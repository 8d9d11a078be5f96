import Gpsdo.Sched.Loop
import Gpsdo.Sched.Queue

set_option autoImplicit false

/-! # What a step of the scheduler can do

`step_effect` reads one action of the machine of `Sched/Loop.lean` as an edit of the list of
queued tasks: the code's pointer operations on the one side, `Effect` on the other. It needs the
links to be in order (`QInv`), the slot that `alloc` would hand out to be outside the queue, and
the scan not to treat a slot outside the queue as a woken task. Later invariants are proved by
cases on `Effect` and do not look at the code again.
-/

namespace Gpsdo.Sched

/-! ## `runWake` and `runAdjust`, which assign to one field of a task -/

namespace State

variable (s : State) (x n : Node) (interval : BitVec 32)

@[simp] theorem runWake_mem_self : (s.runWake x).mem x = { s.mem x with schedule := .wake } := by
  simp [runWake, wake]

@[simp] theorem runWake_mem_of_ne {x n : Node} (h : n ≠ x) : (s.runWake x).mem n = s.mem n := by
  simp [runWake, wake, h]

@[simp] theorem next_runWake : (s.runWake x).next = s.next :=
  funext fun n => s.write_field x n (fun t => { t with schedule := .wake }) Task.qNext rfl

@[simp] theorem prev_runWake : (s.runWake x).prev = s.prev :=
  funext fun n => s.write_field x n (fun t => { t with schedule := .wake }) Task.qPrev rfl

@[simp] theorem due_runWake : (s.runWake x).due = s.due :=
  funext fun n => s.write_field x n (fun t => { t with schedule := .wake }) Task.runNext rfl

@[simp] theorem runAdjust_mem_self :
    (s.runAdjust x interval).mem x = { s.mem x with runInterval := toMonoRaw interval } := by
  simp [runAdjust, setInterval]

@[simp] theorem runAdjust_mem_of_ne {x n : Node} (h : n ≠ x) :
    (s.runAdjust x interval).mem n = s.mem n := by
  simp [runAdjust, setInterval, h]

@[simp] theorem next_runAdjust : (s.runAdjust x interval).next = s.next :=
  funext fun n => s.write_field x n (fun t => { t with runInterval := toMonoRaw interval })
    Task.qNext rfl

@[simp] theorem prev_runAdjust : (s.runAdjust x interval).prev = s.prev :=
  funext fun n => s.write_field x n (fun t => { t with runInterval := toMonoRaw interval })
    Task.qPrev rfl

@[simp] theorem due_runAdjust : (s.runAdjust x interval).due = s.due :=
  funext fun n => s.write_field x n (fun t => { t with runInterval := toMonoRaw interval })
    Task.runNext rfl

end State

theorem Queue.runWake {s : State} {Q : List Node} (h : Queue s Q) (x : Node) :
    Queue (s.runWake x) Q :=
  h.congr (fun n _ => congrFun (s.next_runWake x) n) (fun n _ => congrFun (s.prev_runWake x) n)

theorem Queue.runAdjust {s : State} {Q : List Node} (h : Queue s Q) (x : Node)
    (interval : BitVec 32) : Queue (s.runAdjust x interval) Q :=
  h.congr (fun n _ => congrFun (s.next_runAdjust x interval) n)
    (fun n _ => congrFun (s.prev_runAdjust x interval) n)

/-! ## `runCancel` -/

/-- The task after `Task::cancel`. -/
def Task.cancelled (t : Task) : Task :=
  { t with schedule := .canceled, callback := .doNothing, reference := none }

/-- The tasks of `Q` that match are cancelled, nothing else changes but `taskUpdate`. -/
structure Canceling (callback ref : Option Nat) (Q : List Node) (s s' : State) : Prop where
  hit : ∀ n ∈ Q, State.cancelMatch callback ref (s.mem n) = true → s'.mem n = (s.mem n).cancelled
  miss : ∀ n ∈ Q, State.cancelMatch callback ref (s.mem n) = false → s'.mem n = s.mem n
  frame : ∀ n, n ∉ Q → s'.mem n = s.mem n
  update : s'.taskUpdate
    = (s.taskUpdate || Q.any fun n => State.cancelMatch callback ref (s.mem n))
  taskFree : s'.taskFree = s.taskFree
  raw : s'.raw = s.raw

/-- Whether or not a task is hit, its links and times stay. -/
theorem Canceling.mem_cases {callback ref : Option Nat} {Q : List Node} {s s' : State}
    (h : Canceling callback ref Q s s') (n : Node) :
    s'.mem n = s.mem n ∨ (n ∈ Q ∧ s'.mem n = (s.mem n).cancelled) := by
  by_cases hn : n ∈ Q
  · cases hm : State.cancelMatch callback ref (s.mem n) with
    | false => exact Or.inl (h.miss n hn hm)
    | true => exact Or.inr ⟨hn, h.hit n hn hm⟩
  · exact Or.inl (h.frame n hn)

theorem Canceling.next {callback ref : Option Nat} {Q : List Node} {s s' : State}
    (h : Canceling callback ref Q s s') : s'.next = s.next := by
  funext n
  rcases h.mem_cases n with hn | ⟨-, hn⟩ <;> simp [State.next, hn, Task.cancelled]

theorem Canceling.prev {callback ref : Option Nat} {Q : List Node} {s s' : State}
    (h : Canceling callback ref Q s s') : s'.prev = s.prev := by
  funext n
  rcases h.mem_cases n with hn | ⟨-, hn⟩ <;> simp [State.prev, hn, Task.cancelled]

theorem Canceling.due {callback ref : Option Nat} {Q : List Node} {s s' : State}
    (h : Canceling callback ref Q s s') : s'.due = s.due := by
  funext n
  rcases h.mem_cases n with hn | ⟨-, hn⟩ <;> simp [State.due, hn, Task.cancelled]

theorem cancelFrom_spec {callback ref : Option Nat} {fuel : Nat} {s : State} {p : Option Node}
    {Q : List Node} (hpath : Path s.next p Q (some .queueRoot)) (hr : .queueRoot ∉ Q)
    (hnd : Q.Nodup) (hfuel : Q.length < fuel) :
    ∃ s', State.cancelFrom callback ref fuel s p = some s' ∧ Canceling callback ref Q s s' := by
  induction Q generalizing s p fuel with
  | nil =>
      obtain ⟨fuel, rfl⟩ := Nat.exists_eq_succ_of_ne_zero (Nat.ne_of_gt hfuel)
      obtain rfl : p = some .queueRoot := hpath
      exact ⟨s, by simp [State.cancelFrom], by simp, by simp, fun _ _ => rfl, by simp, rfl, rfl⟩
  | cons y Q ih =>
      obtain ⟨fuel, rfl⟩ := Nat.exists_eq_succ_of_ne_zero (Nat.ne_of_gt (Nat.lt_of_le_of_lt
        (Nat.zero_le _) hfuel))
      obtain ⟨rfl, hrest⟩ := hpath
      have hy : y ≠ .queueRoot := fun h => hr (h ▸ List.mem_cons_self)
      obtain ⟨hyQ, hndQ⟩ := List.nodup_cons.mp hnd
      set s1 := if State.cancelMatch callback ref (s.mem y) then s.runCancelTask y else s with hs1
      have hother : ∀ n, n ≠ y → s1.mem n = s.mem n := by
        intro n hn
        rw [hs1]
        split
        · simp [State.runCancelTask, State.cancel, hn]
        · rfl
      have hnext : s1.next = s.next := by
        funext n
        by_cases hn : n = y
        · subst hn
          rw [hs1]
          split
          · simp [State.runCancelTask, State.cancel, State.next]
          · rfl
        · simp [State.next, hother n hn]
      obtain ⟨s', hs', h⟩ := ih (s := s1) (p := s.next y) (by rw [hnext]; exact hrest)
        (fun h => hr (List.mem_cons_of_mem _ h)) hndQ (show Q.length < fuel by simpa using hfuel)
      have hyeq : s'.mem y = s1.mem y := h.frame y hyQ
      have hQne : ∀ n ∈ Q, n ≠ y := fun n hn he => hyQ (he ▸ hn)
      refine ⟨s', ?_, ?_, ?_, ?_, ?_, ?_, ?_⟩
      · rw [State.cancelFrom, if_neg hy]
        exact hs'
      · intro n hn hm
        rcases List.mem_cons.mp hn with rfl | hn
        · rw [hyeq, hs1, if_pos hm]
          simp [State.runCancelTask, State.cancel, Task.cancelled]
        · rw [← hother n (hQne n hn)] at hm ⊢
          exact h.hit n hn hm
      · intro n hn hm
        rcases List.mem_cons.mp hn with rfl | hn
        · rw [hyeq, hs1, if_neg (by simp [hm])]
        · rw [← hother n (hQne n hn)] at hm ⊢
          exact h.miss n hn hm
      · intro n hn
        rw [List.mem_cons, not_or] at hn
        rw [h.frame n hn.2, hother n hn.1]
      · have hany : (Q.any fun n => State.cancelMatch callback ref (s1.mem n))
            = Q.any fun n => State.cancelMatch callback ref (s.mem n) := by
          rw [Bool.eq_iff_iff, List.any_eq_true, List.any_eq_true]
          exact exists_congr fun n => and_congr_right fun hn => by rw [hother n (hQne n hn)]
        rw [h.update, hany, List.any_cons, hs1]
        cases hm : State.cancelMatch callback ref (s.mem y) <;> simp [State.runCancelTask]
      · rw [h.taskFree, hs1]
        split <;> rfl
      · rw [h.raw, hs1]
        split <;> rfl

/-- **`runCancel` cancels the queued tasks that match.** -/
theorem runCancel_spec {s : State} {Q : List Node} (h : Queue s Q) (callback ref : Option Nat) :
    ∃ s', s.runCancel callback ref = some s' ∧ Canceling callback ref Q s s' :=
  cancelFrom_spec h.path h.root_notMem h.nodup (Nat.lt_succ_of_le h.length_le)

/-! ## Registrations -/

/-- The task a registration leaves behind, links apart. -/
def registered (s : State) (sched : Schedule) (intv : BitVec 32) (cb : Nat) (ref : Option Nat) :
    Task :=
  { Task.new with
    schedule := sched, callback := .entry cb, reference := ref, runInterval := intv,
    runNext := s.raw + intv }

theorem perform_setup {s : State} {c : Call} {sched : Schedule} {intv : BitVec 32} {cb : Nat}
    {ref : Option Nat} (hc : c.setup = some (sched, intv, cb, ref)) :
    s.perform c = s.alloc.bind fun r => r.2.setTask r.1 sched intv (.entry cb) ref := by
  have key : ∀ o : Option (Node × State),
      ((o.bind fun r => (r.2.setTask r.1 sched intv (.entry cb) ref).map (r.1, ·)).map Prod.snd)
        = o.bind fun r => r.2.setTask r.1 sched intv (.entry cb) ref := by
    intro o
    cases o with
    | none => rfl
    | some r => simp [Function.comp_def]
  cases c with
  | runWait callback ref =>
      simp only [Call.setup, Option.some.injEq, Prod.mk.injEq] at hc
      obtain ⟨rfl, rfl, rfl, rfl⟩ := hc
      exact key s.alloc
  | runSleep delay callback ref =>
      simp only [Call.setup, Option.some.injEq, Prod.mk.injEq] at hc
      obtain ⟨rfl, rfl, rfl, rfl⟩ := hc
      exact key s.alloc
  | runPeriodic interval callback ref =>
      simp only [Call.setup, Option.some.injEq, Prod.mk.injEq] at hc
      obtain ⟨rfl, rfl, rfl, rfl⟩ := hc
      exact key s.alloc
  | runAdjust taskHandle interval => cases hc
  | runWake taskHandle => cases hc
  | runCancel callback ref => cases hc

/-- **A registration** takes the head of the free list into the queue. -/
theorem register_spec {s : State} {Q : List Node} (h : Queue s Q) {c : Call} {sched : Schedule}
    {intv : BitVec 32} {cb : Nat} {ref : Option Nat}
    (hc : c.setup = some (sched, intv, cb, ref)) {x : Node} (hx : s.taskFree = some x)
    (hxQ : x ∉ .queueRoot :: Q) :
    ∃ s', s.perform c = some s' ∧ Queue s' (Q.orderedInsert (Sooner s'.due) x) ∧
      Touch x (.queueRoot :: Q) s s' ∧ SameData (s'.mem x) (registered s sched intv cb ref) ∧
      s'.taskFree = s.next x := by
  set s1 := { s with taskFree := s.next x }.write x fun _ => Task.new with hs1
  have hq1 : Queue s1 Q := Queue.write_of_notMem (s := { s with taskFree := s.next x })
    (h.congr (fun _ _ => rfl) (fun _ _ => rfl)) _ hxQ
  have ht1 : Touch x (.queueRoot :: Q) s s1 := by
    have := touch_write { s with taskFree := s.next x } x (fun _ => Task.new) (.queueRoot :: Q)
    exact ⟨this.others, this.frame, this.taskUpdate, this.raw⟩
  obtain ⟨s', hs', hq', ht', hd', hf'⟩ := setTask_spec hq1 hxQ sched intv (.entry cb) ref
  refine ⟨s', ?_, hq', ht1.trans ht', ?_, hf'⟩
  · rw [perform_setup hc, State.alloc, hx]
    exact hs'
  · refine hd'.trans ?_
    rw [hs1, State.write_mem_self]
    exact SameData.refl _

/-! ## The queue invariant -/

/-- The links are in order: the queue holds `Q`, the tasks outside it have no predecessor, and
the loop is busy with a queued task or with the root, whose data never change. -/
structure QInv (s : Sys) (Q : List Node) : Prop where
  queue : Queue s.st Q
  root_schedule : (s.st.mem .queueRoot).schedule = .canceled
  root_callback : (s.st.mem .queueRoot).callback = .doNothing
  unlinked : ∀ n, n ∉ .queueRoot :: Q → s.st.prev n = none
  task : ∀ n, s.pc.task = some n → n = .queueRoot ∨ n ∈ Q

theorem QInv.live_eq {s : Sys} {Q : List Node} (h : QInv s Q) : s.st.live = Q := by
  rw [State.live, h.queue.runQueue_eq]
  rfl

/-- What an action does, as an edit of the queue: from `s` with the queue `Q` the action leads
to a state with another queue. -/
inductive Effect (s : Sys) (Q : List Node) : Action → Sys → List Node → Prop
  | elapse (ticks : Nat) :
      Effect s Q (.elapse ticks)
        ⟨{ s.st with raw := s.st.raw + BitVec.ofNat 32 ticks }, s.pc⟩ Q
  | wake {a : Action} {x : Node} (ha : a.wakes = some x) :
      Effect s Q a ⟨s.st.runWake x, s.pc⟩ Q
  | adjust (i : Fin 32) (interval : BitVec 32) :
      Effect s Q (.call (.runAdjust i interval)) ⟨s.st.runAdjust (.pool i) interval, s.pc⟩ Q
  | cancel {callback ref : Option Nat} {st' : State} (htask : s.pc.inTask = true)
      (h : Canceling callback ref Q s.st st') :
      Effect s Q (.call (.runCancel callback ref)) ⟨st', s.pc⟩ Q
  | register {c : Call} {sched : Schedule} {intv : BitVec 32} {cb : Nat} {ref : Option Nat}
      {x : Node} {st' : State} (htask : s.pc.inTask = true)
      (hc : c.setup = some (sched, intv, cb, ref))
      (hx : s.st.taskFree = some x) (hxQ : x ∉ .queueRoot :: Q)
      (ht : Touch x (.queueRoot :: Q) s.st st')
      (hd : SameData (st'.mem x) (registered s.st sched intv cb ref))
      (hf : st'.taskFree = s.st.next x) :
      Effect s Q (.call c) ⟨st', s.pc⟩ (Q.orderedInsert (Sooner st'.due) x)
  | enter (hpc : s.pc = .boot) : Effect s Q .ret ⟨s.st, .top⟩ Q
  | ret {x : Node} (hpc : s.pc = .callback x) : Effect s Q .ret ⟨s.st, .requeue x⟩ Q
  | top (hpc : s.pc = .top) :
      Effect s Q .loop ⟨s.st, if s.st.taskUpdate then .clear else .check⟩ Q
  | clear (hpc : s.pc = .clear) :
      Effect s Q .loop ⟨{ s.st with taskUpdate := false }, .scan 0⟩ Q
  | skip {i : Nat} (hi : i < 32) (hpc : s.pc = .scan i)
      (hc : (s.st.mem (.pool ⟨i, hi⟩)).schedule ≠ .canceled)
      (hw : (s.st.mem (.pool ⟨i, hi⟩)).schedule ≠ .wake) :
      Effect s Q .loop ⟨s.st, .scan (i + 1)⟩ Q
  | reclaim {i : Nat} {st' : State} (hi : i < 32) (hpc : s.pc = .scan i)
      (hc : (s.st.mem (.pool ⟨i, hi⟩)).schedule = .canceled)
      (ht : Touch (.pool ⟨i, hi⟩) (.queueRoot :: Q) s.st st')
      (hd : st'.mem (.pool ⟨i, hi⟩) = { s.st.mem (.pool ⟨i, hi⟩) with
        schedule := .free, callback := .nullptr, qPrev := none, qNext := s.st.taskFree })
      (hf : st'.taskFree = some (.pool ⟨i, hi⟩)) :
      Effect s Q .loop ⟨st', .scan (i + 1)⟩ (Q.erase (.pool ⟨i, hi⟩))
  | rewake {i : Nat} {st' : State} (hi : i < 32) (hpc : s.pc = .scan i)
      (hx : .pool ⟨i, hi⟩ ∈ Q) (hw : (s.st.mem (.pool ⟨i, hi⟩)).schedule = .wake)
      (ht : Touch (.pool ⟨i, hi⟩) (.queueRoot :: Q) s.st st')
      (hd : SameData (st'.mem (.pool ⟨i, hi⟩))
        { s.st.mem (.pool ⟨i, hi⟩) with runNext := s.st.raw })
      (hf : st'.taskFree = s.st.taskFree) :
      Effect s Q .loop ⟨st', .scan (i + 1)⟩
        ((Q.erase (.pool ⟨i, hi⟩)).orderedInsert (Sooner st'.due) (.pool ⟨i, hi⟩))
  | scanned {i : Nat} (hi : 32 ≤ i) (hpc : s.pc = .scan i) : Effect s Q .loop ⟨s.st, .check⟩ Q
  | check (hpc : s.pc = .check) :
      Effect s Q .loop
        ⟨s.st, if s.st.isReady (Q.headD .queueRoot) then .run (Q.headD .queueRoot) else .top⟩ Q
  | waiting {x : Node} (hpc : s.pc = .run x) (hw : (s.st.mem x).schedule = .wait) :
      Effect s Q .loop ⟨s.st, .requeue x⟩ Q
  | perform {x : Node} {pc' : Pc} (hpc : s.pc = .run x) (hw : (s.st.mem x).schedule ≠ .wait)
      (hpc' : (s.st.mem x).callback = .doNothing ∧ pc' = .requeue x ∨
        ∃ addr, (s.st.mem x).callback = .entry addr ∧ pc' = .callback x) :
      Effect s Q .loop ⟨(s.st.run x).1, pc'⟩ Q
  | dropped {x : Node} (hpc : s.pc = .requeue x) (hc : (s.st.mem x).schedule = .canceled) :
      Effect s Q .loop ⟨s.st, .top⟩ Q
  | requeue {x : Node} {st' : State} (hpc : s.pc = .requeue x) (hx : x ∈ Q)
      (hc : (s.st.mem x).schedule ≠ .canceled)
      (ht : Touch x (.queueRoot :: Q) s.st st')
      (hd : SameData (st'.mem x) { s.st.mem x with runNext := requeueTime s.st x })
      (hf : st'.taskFree = s.st.taskFree) :
      Effect s Q .loop ⟨st', .top⟩ ((Q.erase x).orderedInsert (Sooner st'.due) x)

/-- What the scan relies on at a slot outside the queue: it is not woken, and if it has the tag
of a cancelled task, its link leads out of the queue too. -/
def ScanOff (s : Sys) (Q : List Node) (i : Fin 32) : Prop :=
  .pool i ∉ Q → (s.st.mem (.pool i)).schedule ≠ .wake ∧
    ((s.st.mem (.pool i)).schedule = .canceled →
      ∀ m, s.st.next (.pool i) = some m → m ∉ .queueRoot :: Q)

/-- A step of the scan: `update` of slot `i`. -/
private theorem scan_effect {s : Sys} {st' : State} {Q : List Node} (h : QInv s Q) {i : Nat}
    (hi : i < 32) (hpc : s.pc = .scan i) (hscan : ScanOff s Q ⟨i, hi⟩)
    (hst : s.st.update (.pool ⟨i, hi⟩) = some st') :
    ∃ Q', Effect s Q .loop ⟨st', .scan (i + 1)⟩ Q' ∧ Queue st' Q' := by
  set x := Node.pool ⟨i, hi⟩ with hx
  have hroot : x ≠ .queueRoot := by rw [hx]; simp
  have hmem : x ∉ .queueRoot :: Q ↔ x ∉ Q := by simp [hroot]
  by_cases hc : (s.st.mem x).schedule = .canceled
  · have hoff : x ∉ Q → s.st.prev x = none ∧ ∀ m, s.st.next x = some m → s.st.prev m = none :=
      fun hxQ => ⟨h.unlinked x (hmem.mpr hxQ),
        fun m hm => h.unlinked m ((hscan hxQ).2 hc m hm)⟩
    obtain ⟨st1, hst1, hq, ht, hd, hf⟩ := update_canceled h.queue hroot hc hoff
    obtain rfl : st' = st1 := Option.some.inj (hst.symm.trans hst1)
    exact ⟨_, .reclaim hi hpc hc ht hd hf, hq⟩
  · by_cases hw : (s.st.mem x).schedule = .wake
    · have hxQ : x ∈ Q := by
        by_contra hxQ
        exact (hscan hxQ).1 hw
      obtain ⟨st1, hst1, hq, ht, hd, hf⟩ := update_wake h.queue hxQ hw
      obtain rfl : st' = st1 := Option.some.inj (hst.symm.trans hst1)
      exact ⟨_, .rewake hi hpc hxQ hw ht hd hf, hq⟩
    · have hid : s.st.update x = some s.st := by
        unfold State.update
        split <;> simp_all
      obtain rfl : st' = s.st := Option.some.inj (hst.symm.trans hid)
      exact ⟨Q, .skip hi hpc hc hw, h.queue⟩

/-- `run` writes at most the tag of its task. -/
theorem run_fst_cases (s : State) (x : Node) :
    (s.run x).1 = s ∨ (s.mem x).schedule = .wake ∧
      (s.run x).1 = s.write x fun t => { t with schedule := .wait } := by
  unfold State.run
  split
  · exact Or.inl rfl
  · rename_i hw; exact Or.inr ⟨hw, rfl⟩
  · exact Or.inl rfl

theorem run_mem_of_ne (s : State) {x n : Node} (h : n ≠ x) : (s.run x).1.mem n = s.mem n := by
  rcases run_fst_cases s x with he | ⟨-, he⟩ <;> rw [he]
  exact s.write_mem_of_ne _ h

/-- A field that is not the tag is left alone by `run`. -/
theorem run_field (s : State) (x n : Node) {β : Type} (g : Task → β)
    (hg : ∀ t : Task, g { t with schedule := .wait } = g t) :
    g ((s.run x).1.mem n) = g (s.mem n) := by
  rcases run_fst_cases s x with he | ⟨-, he⟩ <;> rw [he]
  exact s.write_field x n _ g (hg _)

/-- `run` leaves the static data alone. -/
theorem run_static (s : State) (x : Node) : (s.run x).1.taskFree = s.taskFree ∧
    (s.run x).1.taskUpdate = s.taskUpdate ∧ (s.run x).1.raw = s.raw := by
  rcases run_fst_cases s x with he | ⟨-, he⟩ <;> rw [he]
  · exact ⟨rfl, rfl, rfl⟩
  · exact ⟨rfl, rfl, rfl⟩

theorem run_snd (s : State) (x : Node) :
    (s.run x).2 = if (s.mem x).schedule = .wait then none
      else some ((s.mem x).callback, (s.mem x).reference) := by
  unfold State.run
  split <;> simp_all

/-- A task is run. -/
private theorem perform_effect {s : Sys} {Q : List Node} {x : Node} {pc' : Pc} (h : QInv s Q)
    (hpc : s.pc = .run x) (hcase : RunCase x (s.st.run x).2 pc') :
    Effect s Q .loop ⟨(s.st.run x).1, pc'⟩ Q ∧ Queue (s.st.run x).1 Q := by
  have hq : Queue (s.st.run x).1 Q := by
    rcases run_fst_cases s.st x with he | ⟨-, he⟩ <;> rw [he]
    · exact h.queue
    · exact h.queue.write x rfl rfl
  refine ⟨?_, hq⟩
  rw [run_snd] at hcase
  by_cases hw : (s.st.mem x).schedule = .wait
  · have hsame : (s.st.run x).1 = s.st := by simp [State.run, hw]
    rw [if_pos hw] at hcase
    cases hcase
    rw [hsame]
    exact .waiting hpc hw
  · rw [if_neg hw] at hcase
    generalize hcb : (s.st.mem x).callback = callback at hcase
    generalize (s.st.mem x).reference = reference at hcase
    cases hcase with
    | doNothing ref => exact .perform hpc hw (Or.inl ⟨hcb, rfl⟩)
    | entry addr ref => exact .perform hpc hw (Or.inr ⟨addr, hcb, rfl⟩)

/-- A task that ran goes back into the queue, unless it was cancelled. -/
private theorem requeue_effect {s : Sys} {st' : State} {Q : List Node} {x : Node} (h : QInv s Q)
    (hpc : s.pc = .requeue x) (hst : s.st.requeue x = some st') :
    ∃ Q', Effect s Q .loop ⟨st', .top⟩ Q' ∧ Queue st' Q' := by
  by_cases hc : (s.st.mem x).schedule = .canceled
  · obtain rfl : st' = s.st := by simpa [State.requeue, hc] using hst.symm
    exact ⟨Q, .dropped hpc hc, h.queue⟩
  · have hxQ : x ∈ Q := by
      rcases h.task x (by rw [hpc]; rfl) with rfl | hxQ
      · exact absurd h.root_schedule hc
      · exact hxQ
    obtain ⟨st1, hst1, hq, ht, hd, hf⟩ := requeue_spec h.queue hxQ hc
    obtain rfl : st' = st1 := Option.some.inj (hst.symm.trans hst1)
    exact ⟨_, .requeue hpc hxQ hc ht hd hf, hq⟩

/-- A call of a function of `run.hpp`. -/
private theorem call_effect {s : Sys} {st' : State} {Q : List Node} {c : Call} (h : QInv s Q)
    (halloc : c.setup.isSome → ∀ x, s.st.taskFree = some x → x ∉ .queueRoot :: Q)
    (htask : s.pc.inTask = true) (hst : s.st.perform c = some st') :
    ∃ Q', Effect s Q (.call c) ⟨st', s.pc⟩ Q' ∧ Queue st' Q' := by
  cases hsetup : c.setup with
  | some r =>
      obtain ⟨sched, intv, cb, ref⟩ := r
      cases hfree : s.st.taskFree with
      | none =>
          rw [perform_setup hsetup, State.alloc, hfree] at hst
          cases hst
      | some x =>
          have hxQ := halloc (by rw [hsetup]; rfl) x hfree
          obtain ⟨st1, hst1, hq, ht, hd, hf⟩ := register_spec h.queue hsetup hfree hxQ
          obtain rfl : st' = st1 := Option.some.inj (hst.symm.trans hst1)
          exact ⟨_, .register htask hsetup hfree hxQ ht hd hf, hq⟩
  | none =>
      cases c with
      | runAdjust x interval =>
          obtain rfl : st' = _ := Option.some.inj hst.symm
          exact ⟨Q, .adjust x interval, h.queue.runAdjust (.pool x) interval⟩
      | runWake x =>
          obtain rfl : st' = _ := Option.some.inj hst.symm
          exact ⟨Q, .wake rfl, h.queue.runWake (.pool x)⟩
      | runCancel callback ref =>
          obtain ⟨st1, hst1, hcan⟩ := runCancel_spec h.queue callback ref
          obtain rfl : st' = st1 := Option.some.inj (hst.symm.trans hst1)
          exact ⟨Q, .cancel htask hcan, h.queue.congr
            (fun n _ => congrFun hcan.next n) (fun n _ => congrFun hcan.prev n)⟩
      | runWait callback ref => cases hsetup
      | runSleep delay callback ref => cases hsetup
      | runPeriodic interval callback ref => cases hsetup

/-- **Every action is an edit of the queue.** -/
theorem step_effect {s s' : Sys} {a : Action} {Q : List Node} (h : QInv s Q)
    (halloc : ∀ c, a = .call c → c.setup.isSome → ∀ x, s.st.taskFree = some x →
      x ∉ .queueRoot :: Q)
    (hscan : ∀ i (hi : i < 32), a = .loop → s.pc = .scan i → ScanOff s Q ⟨i, hi⟩)
    (hs : step s a = some s') : ∃ Q', Effect s Q a s' Q' ∧ Queue s'.st Q' := by
  cases step_cases hs with
  | elapse ticks => exact ⟨Q, .elapse ticks, h.queue.congr (fun _ _ => rfl) (fun _ _ => rfl)⟩
  | interrupt x => exact ⟨Q, .wake rfl, h.queue.runWake (.pool x)⟩
  | call htask hst => exact call_effect h (halloc _ rfl) htask hst
  | enter hpc => exact ⟨Q, .enter hpc, h.queue⟩
  | ret hpc => exact ⟨Q, .ret hpc, h.queue⟩
  | top hpc => exact ⟨Q, .top hpc, h.queue⟩
  | clear hpc => exact ⟨Q, .clear hpc, h.queue.congr (fun _ _ => rfl) (fun _ _ => rfl)⟩
  | scan hi hpc hst => exact scan_effect h hi hpc (hscan _ hi rfl hpc) hst
  | scanned hi hpc => exact ⟨Q, .scanned hi hpc, h.queue⟩
  | check hpc hx =>
      -- the head of the queue is the first task, or the root
      obtain rfl := Option.some.inj (hx.symm.trans (Ring.next_root h.queue))
      exact ⟨Q, .check hpc, h.queue⟩
  | run hpc hcase => exact ⟨Q, perform_effect h hpc hcase⟩
  | requeue hpc hst => exact requeue_effect h hpc hst

/-! ## The invariant is kept -/

theorem Action.wakes_eq {a : Action} {x : Node} (h : a.wakes = some x) : ∃ i, x = .pool i := by
  cases a with
  | interrupt i => exact ⟨i, (Option.some.inj h).symm⟩
  | call c => cases c with
    | runWake i => exact ⟨i, (Option.some.inj h).symm⟩
    | _ => cases h
  | _ => cases h

theorem Effect.qinv {s s' : Sys} {a : Action} {Q Q' : List Node} (h : QInv s Q)
    (he : Effect s Q a s' Q') (hq : Queue s'.st Q') : QInv s' Q' := by
  have hroot : ∀ {x st' K}, Touch x K s.st st' → x ≠ .queueRoot →
      (st'.mem .queueRoot).schedule = .canceled ∧ (st'.mem .queueRoot).callback = .doNothing := by
    intro x st' K ht hx
    obtain ⟨h1, h2, -⟩ := ht.others .queueRoot hx.symm
    exact ⟨h1.trans h.root_schedule, h2.trans h.root_callback⟩
  have hprev : ∀ {x st'}, Touch x (.queueRoot :: Q) s.st st' → ∀ n, n ≠ x → n ∉ .queueRoot :: Q →
      st'.prev n = none := by
    intro x st' ht n hn hnQ
    rw [State.prev, ht.frame n hn hnQ]
    exact h.unlinked n hnQ
  -- the steps that move a queued task: it is the same tasks that are outside the queue
  have hmove : ∀ {x st' pc'} {r : Node → Node → Prop} [DecidableRel r],
      Touch x (.queueRoot :: Q) s.st st' → x ∈ Q → pc'.task = none →
      Queue st' ((Q.erase x).orderedInsert r x) →
      QInv ⟨st', pc'⟩ ((Q.erase x).orderedInsert r x) := by
    intro x st' pc' r _ ht hx hpc hq
    have hmem : ∀ n, n ∈ (Q.erase x).orderedInsert r x ↔ n ∈ Q := fun n =>
      ((List.perm_orderedInsert r x _).trans (List.perm_cons_erase hx).symm).mem_iff
    obtain ⟨h1, h2⟩ := hroot ht fun hr => h.queue.root_notMem (hr ▸ hx)
    refine ⟨hq, h1, h2, fun n hn => ?_, by simp [hpc]⟩
    rw [List.mem_cons, hmem, ← List.mem_cons] at hn
    exact hprev ht n (fun hnx => hn (hnx ▸ List.mem_cons_of_mem _ hx)) hn
  cases he with
  | elapse ticks => exact ⟨hq, h.root_schedule, h.root_callback, h.unlinked, h.task⟩
  | wake ha =>
      obtain ⟨i, rfl⟩ := Action.wakes_eq ha
      exact ⟨hq, by simpa using h.root_schedule, by simpa using h.root_callback,
        by simpa using h.unlinked, h.task⟩
  | adjust i interval =>
      exact ⟨hq, by simpa using h.root_schedule, by simpa using h.root_callback,
        by simpa using h.unlinked, h.task⟩
  | cancel htask hc =>
      have hr := hc.frame _ h.queue.root_notMem
      exact ⟨hq, by rw [hr]; exact h.root_schedule, by rw [hr]; exact h.root_callback,
        by rw [hc.prev]; exact h.unlinked, h.task⟩
  | register htask hc hx hxQ ht hd hf =>
      obtain ⟨h1, h2⟩ := hroot ht fun hr => hxQ (hr ▸ List.mem_cons_self)
      refine ⟨hq, h1, h2, fun n hn => ?_, fun n hn => ?_⟩
      · rw [List.mem_cons, List.mem_orderedInsert, not_or, not_or] at hn
        exact hprev ht n hn.2.1 (by simp [hn])
      · exact (h.task n hn).imp id fun hn => (List.mem_orderedInsert _).mpr (Or.inr hn)
  | reclaim hi hpc hc ht hd hf =>
      obtain ⟨h1, h2⟩ := hroot ht (by simp)
      refine ⟨hq, h1, h2, fun n hn => ?_, by simp [Pc.task]⟩
      by_cases hnx : n = .pool ⟨_, hi⟩
      · rw [hnx, State.prev, hd]
      · refine hprev ht n hnx ?_
        rw [List.mem_cons, not_or] at hn ⊢
        exact ⟨hn.1, fun hnQ => hn.2 ((List.mem_erase_of_ne hnx).mpr hnQ)⟩
  | rewake hi hpc hx hw ht hd hf => exact hmove ht hx rfl hq
  | requeue hpc hx hc ht hd hf => exact hmove ht hx rfl hq
  | check hpc =>
      refine ⟨hq, h.root_schedule, h.root_callback, h.unlinked, fun n hn => ?_⟩
      dsimp only at hn
      split at hn
      · cases Q with
        | nil => exact Or.inl (Option.some.inj hn).symm
        | cons y Q => exact Or.inr (by rw [← Option.some.inj hn]; simp)
      · cases hn
  | @perform x pc' hpc hw hpc' =>
      have htask : pc'.task = s.pc.task := by
        rw [hpc]
        rcases hpc' with ⟨-, rfl⟩ | ⟨addr, -, rfl⟩ <;> rfl
      refine ⟨hq, ?_, ?_, fun n hn => ?_, fun n hn => h.task n (htask ▸ hn)⟩
      · rcases run_fst_cases s.st x with he | ⟨hwk, -⟩
        · rw [he]; exact h.root_schedule
        · have hx : .queueRoot ≠ x := by
            rintro rfl
            rw [h.root_schedule] at hwk
            cases hwk
          rw [run_mem_of_ne s.st hx]
          exact h.root_schedule
      · exact (run_field _ _ _ Task.callback fun _ => rfl).trans h.root_callback
      · exact (run_field _ _ n Task.qPrev fun _ => rfl).trans (h.unlinked n hn)
  | top hpc =>
      refine ⟨hq, h.root_schedule, h.root_callback, h.unlinked, ?_⟩
      dsimp only
      split <;> simp [Pc.task]
  | ret hpc =>
      have htask := h.task
      rw [hpc] at htask
      exact ⟨hq, h.root_schedule, h.root_callback, h.unlinked, htask⟩
  | waiting hpc hw =>
      have htask := h.task
      rw [hpc] at htask
      exact ⟨hq, h.root_schedule, h.root_callback, h.unlinked, htask⟩
  | enter hpc => exact ⟨hq, h.root_schedule, h.root_callback, h.unlinked, by simp [Pc.task]⟩
  | clear hpc => exact ⟨hq, h.root_schedule, h.root_callback, h.unlinked, by simp [Pc.task]⟩
  | skip hi hpc hc hw =>
      exact ⟨hq, h.root_schedule, h.root_callback, h.unlinked, by simp [Pc.task]⟩
  | scanned hi hpc =>
      exact ⟨hq, h.root_schedule, h.root_callback, h.unlinked, by simp [Pc.task]⟩
  | dropped hpc hc =>
      exact ⟨hq, h.root_schedule, h.root_callback, h.unlinked, by simp [Pc.task]⟩

/-- After `initScheduler` the queue is empty. -/
theorem qinv_init : QInv Sys.init [] where
  queue := ring_nil_iff.mpr ⟨rfl, rfl⟩
  root_schedule := rfl
  root_callback := rfl
  unlinked n hn := by
    cases n with
    | queueRoot => simp at hn
    | pool i => rfl
  task n hn := by cases hn

end Gpsdo.Sched
