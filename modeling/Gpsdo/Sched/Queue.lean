import Mathlib.Data.List.Sort
import Gpsdo.Sched.Task

set_option autoImplicit false

/-! # What the queue operations do

The run queue of a state is a ring of link fields through the root (`Queue s Q`), and the
operations of `class Task` are edits of the list `Q`: `pop` erases a task, `insert` is the
ordered insertion by due time, `requeue` and the wake branch of `update` are one after the
other. Each operation has one specification here; it says which list the queue becomes, and
which tasks are left alone.
-/

namespace Gpsdo.Sched

/-! ## Writes -/

namespace State

variable (s : State) (n m : Node) (f : Task → Task) (p : Option Node)

@[simp] theorem write_mem_self : (s.write n f).mem n = f (s.mem n) := by
  simp [write]

@[simp] theorem write_mem_of_ne {n m : Node} (h : m ≠ n) : (s.write n f).mem m = s.mem m := by
  simp [write, h]

@[simp] theorem write_taskFree : (s.write n f).taskFree = s.taskFree := rfl

@[simp] theorem write_taskUpdate : (s.write n f).taskUpdate = s.taskUpdate := rfl

@[simp] theorem write_raw : (s.write n f).raw = s.raw := rfl

/-- A field that an assignment does not touch keeps its value at every task. -/
theorem write_field {β : Type} (g : Task → β) (hg : g (f (s.mem n)) = g (s.mem n)) :
    g ((s.write n f).mem m) = g (s.mem m) := by
  by_cases h : m = n
  · subst h; rw [write_mem_self, hg]
  · rw [write_mem_of_ne s f h]

@[simp] theorem next_setNext : (s.setNext n p).next = Function.update s.next n p := by
  funext m
  by_cases h : m = n
  · subst h; simp [setNext, next]
  · simp [setNext, next, h]

@[simp] theorem prev_setNext : (s.setNext n p).prev = s.prev :=
  funext fun m => s.write_field n m _ Task.qPrev rfl

@[simp] theorem next_setPrev : (s.setPrev n p).next = s.next :=
  funext fun m => s.write_field n m _ Task.qNext rfl

@[simp] theorem prev_setPrev : (s.setPrev n p).prev = Function.update s.prev n p := by
  funext m
  by_cases h : m = n
  · subst h; simp [setPrev, prev]
  · simp [setPrev, prev, h]

end State

/-- The data of a task besides its links. -/
structure SameData (t' t : Task) : Prop where
  schedule : t'.schedule = t.schedule
  callback : t'.callback = t.callback
  reference : t'.reference = t.reference
  runNext : t'.runNext = t.runNext
  runInterval : t'.runInterval = t.runInterval

theorem SameData.refl (t : Task) : SameData t t := ⟨rfl, rfl, rfl, rfl, rfl⟩

theorem SameData.trans {t t' t'' : Task} (h' : SameData t'' t') (h : SameData t' t) :
    SameData t'' t :=
  ⟨h'.1.trans h.1, h'.2.trans h.2, h'.3.trans h.3, h'.4.trans h.4, h'.5.trans h.5⟩

/-- `s'` differs from `s` at most in the link fields of the tasks in `K`. -/
structure Relink (K : List Node) (s s' : State) : Prop where
  data : ∀ n, SameData (s'.mem n) (s.mem n)
  frame : ∀ n, n ∉ K → s'.mem n = s.mem n
  taskFree : s'.taskFree = s.taskFree
  taskUpdate : s'.taskUpdate = s.taskUpdate
  raw : s'.raw = s.raw

theorem Relink.trans {K : List Node} {s s' s'' : State} (h : Relink K s s')
    (h' : Relink K s' s'') : Relink K s s'' where
  data n := (h'.data n).trans (h.data n)
  frame n hn := (h'.frame n hn).trans (h.frame n hn)
  taskFree := h'.taskFree.trans h.taskFree
  taskUpdate := h'.taskUpdate.trans h.taskUpdate
  raw := h'.raw.trans h.raw

theorem Relink.due {K : List Node} {s s' : State} (h : Relink K s s') : s'.due = s.due :=
  funext fun n => (h.data n).runNext

private theorem relink_write {K : List Node} (s : State) {n : Node} {f : Task → Task}
    (hn : n ∈ K) (hf : SameData (f (s.mem n)) (s.mem n)) : Relink K s (s.write n f) where
  data m := by
    by_cases h : m = n
    · subst h; rw [State.write_mem_self]; exact hf
    · rw [State.write_mem_of_ne s f h]; exact SameData.refl _
  frame m hm := State.write_mem_of_ne s f fun h => hm (h ▸ hn)
  taskFree := rfl
  taskUpdate := rfl
  raw := rfl

theorem relink_setNext {K : List Node} (s : State) {n : Node} (p : Option Node) (hn : n ∈ K) :
    Relink K s (s.setNext n p) :=
  relink_write s hn ⟨rfl, rfl, rfl, rfl, rfl⟩

theorem relink_setPrev {K : List Node} (s : State) {n : Node} (p : Option Node) (hn : n ∈ K) :
    Relink K s (s.setPrev n p) :=
  relink_write s hn ⟨rfl, rfl, rfl, rfl, rfl⟩

/-! ## The queue -/

/-- The run queue holds the tasks `Q`, in this order. -/
def Queue (s : State) (Q : List Node) : Prop := Ring s.next s.prev .queueRoot Q

theorem Queue.congr {s s' : State} {Q : List Node} (h : Queue s Q)
    (hn : ∀ n ∈ .queueRoot :: Q, s'.next n = s.next n)
    (hp : ∀ n ∈ .queueRoot :: Q, s'.prev n = s.prev n) : Queue s' Q :=
  Ring.congr h hn hp

/-- A duplicate-free list of slots has at most 32 elements. -/
theorem length_le_of_nodup {Q : List Node} (hnd : Q.Nodup) (hr : .queueRoot ∉ Q) :
    Q.length ≤ 32 := by
  have hsub : Q ⊆ (List.finRange 32).map Node.pool := by
    intro n hn
    cases n with
    | queueRoot => exact absurd hn hr
    | pool i => exact List.mem_map_of_mem (List.mem_finRange i)
  simpa using (hnd.subperm hsub).length_le

theorem Queue.length_le {s : State} {Q : List Node} (h : Queue s Q) : Q.length ≤ 32 :=
  length_le_of_nodup h.nodup h.root_notMem

/-- Walking the queue finds it. -/
theorem Queue.runQueue_eq {s : State} {Q : List Node} (h : Queue s Q) :
    s.runQueue = some Q := by
  refine walk_eq_some_iff.mpr ⟨h.path, fun n hn he => ?_, h.length_le⟩
  cases he
  exact h.root_notMem hn

/-- There is one list the queue can be. -/
theorem Queue.unique {s : State} {Q Q' : List Node} (h : Queue s Q) (h' : Queue s Q') :
    Q = Q' := by
  have := h.runQueue_eq.symm.trans h'.runQueue_eq
  exact Option.some.inj this

/-! ## `pop` -/

/-- **`pop` takes a queued task out of the queue.** The task's own fields stay, its links
included. -/
theorem pop_spec {s : State} {x : Node} {A B : List Node} (h : Queue s (A ++ x :: B)) :
    Queue (s.pop x) (A ++ B) ∧ Relink (.queueRoot :: (A ++ B)) s (s.pop x) := by
  obtain ⟨a, b, hpx, hnx, ha, hb, hring⟩ := Ring.unlink h
  have hx : x ∉ .queueRoot :: (A ++ B) := by
    have hnd : (.queueRoot :: (A ++ x :: B)).Nodup := h.1
    rw [← List.cons_append] at hnd ⊢
    exact (List.nodup_cons.mp (List.nodup_middle.mp hnd)).1
  have hxa : x ≠ a := fun h => hx (h ▸ ha)
  have hpop : s.pop x = (s.setNext a (some b)).setPrev b (some a) := by
    simp [State.pop, State.storeNext, State.storePrev, hpx, hnx, hxa]
  rw [hpop]
  refine ⟨?_, (relink_setNext s _ ha).trans (relink_setPrev _ _ hb)⟩
  apply hring
  · simp
  · simp
  · intro u _ hu; simp [hu]
  · intro v _ hv; simp [hv]

/-! ## `insert` -/

/-- `a` is due before `b`, as `Task::insert` compares them. -/
def Sooner (due : Node → BitVec 32) (a b : Node) : Prop := sdiff (due a) (due b) < 0

instance (due : Node → BitVec 32) : DecidableRel (Sooner due) := fun _ _ =>
  inferInstanceAs (Decidable (_ < _))

/-- The loop of `insert` stops at the first task that is due later, or at the root. -/
theorem insertionPoint_eq {s : State} {x : Node} {fuel : Nat} {p : Option Node} {Q : List Node}
    (hpath : Path s.next p Q (some .queueRoot)) (hr : .queueRoot ∉ Q) (hfuel : Q.length < fuel) :
    s.insertionPoint (s.due x) fuel p
      = some ((Q.dropWhile fun b => ¬ Sooner s.due x b).headD .queueRoot) := by
  induction Q generalizing p fuel with
  | nil =>
      obtain ⟨fuel, rfl⟩ := Nat.exists_eq_succ_of_ne_zero (Nat.ne_of_gt hfuel)
      obtain rfl : p = some .queueRoot := hpath
      simp [State.insertionPoint]
  | cons y Q ih =>
      obtain ⟨fuel, rfl⟩ := Nat.exists_eq_succ_of_ne_zero (Nat.ne_of_gt (Nat.lt_of_le_of_lt
        (Nat.zero_le _) hfuel))
      obtain ⟨rfl, hrest⟩ := hpath
      have hy : y ≠ .queueRoot := fun h => hr (h ▸ List.mem_cons_self)
      have hr' : .queueRoot ∉ Q := fun h => hr (List.mem_cons_of_mem _ h)
      rw [State.insertionPoint, if_neg hy]
      show (if Sooner s.due x y then _ else _) = _
      by_cases hs : Sooner s.due x y
      · rw [if_pos hs, List.dropWhile_cons_of_neg (by simpa using hs)]
        rfl
      · rw [if_neg hs, List.dropWhile_cons_of_pos (by simpa using hs)]
        exact ih hrest hr' (by simpa using hfuel)

/-- **`insert` puts a task into the queue by due time**, behind the tasks that are due no later
than it. -/
theorem insert_spec {s : State} {x : Node} {Q : List Node} (h : Queue s Q)
    (hx : x ∉ .queueRoot :: Q) :
    ∃ s', s.insert x = some s' ∧ Queue s' (Q.orderedInsert (Sooner s.due) x) ∧
      Relink (.queueRoot :: x :: Q) s s' := by
  set A := Q.takeWhile fun b => ¬ Sooner s.due x b with hA
  set B := Q.dropWhile fun b => ¬ Sooner s.due x b with hB
  have hQ : Q = A ++ B := List.takeWhile_append_dropWhile.symm
  have hpt := insertionPoint_eq (x := x) h.path h.root_notMem
    (Nat.lt_succ_of_le h.length_le)
  rw [← hB] at hpt
  have hring := h
  rw [hQ] at hring hx
  obtain ⟨a, hpa, ha, hring⟩ := Ring.link hring hx
  set ins := B.headD .queueRoot with hins
  have hinsQ : ins ∈ .queueRoot :: (A ++ B) := by
    rw [hins]; cases B <;> simp
  have hxa : x ≠ a := fun h => hx (h ▸ ha)
  have hxi : x ≠ ins := fun h => hx (h ▸ hinsQ)
  have heq : s.insert x = some
      ((((s.setNext x (some ins)).setPrev x (some a)).setPrev ins (some x)).setNext a
        (some x)) := by
    simp [State.insert, hpt, State.storeNext, hpa, hxi]
  have hK : ∀ n ∈ .queueRoot :: (A ++ B), n ∈ .queueRoot :: x :: Q := by
    intro n hn
    rw [hQ]
    simp only [List.mem_cons] at hn ⊢
    tauto
  have hxK : x ∈ .queueRoot :: x :: Q := by simp
  refine ⟨_, heq, ?_, (((relink_setNext s _ hxK).trans (relink_setPrev _ _ hxK)).trans
    (relink_setPrev _ _ (hK ins hinsQ))).trans (relink_setNext _ _ (hK a ha))⟩
  rw [List.orderedInsert_eq_take_drop, ← hA, ← hB]
  apply hring
  · simp
  · simp [hxi]
  · simp [hxa]
  · simp
  · intro u hu hua
    have hux : u ≠ x := fun h => hx (h ▸ hu)
    simp [hua, hux]
  · intro v hv hvi
    have hvx : v ≠ x := fun h => hx (h ▸ hv)
    simp [hvi, hvx]

/-! ## Operations on one task

The operations on a task `x` of the queue or of the free list leave every other task's data
alone, and change links only in the queue and in `x`. -/

/-- Going from `s` to `s'` no data of another task than `x` changes, and no field at all of a
task outside `x` and `K`. -/
structure Touch (x : Node) (K : List Node) (s s' : State) : Prop where
  others : ∀ n, n ≠ x → SameData (s'.mem n) (s.mem n)
  frame : ∀ n, n ≠ x → n ∉ K → s'.mem n = s.mem n
  taskUpdate : s'.taskUpdate = s.taskUpdate
  raw : s'.raw = s.raw

theorem Touch.trans {x : Node} {K : List Node} {s s' s'' : State} (h : Touch x K s s')
    (h' : Touch x K s' s'') : Touch x K s s'' where
  others n hn := (h'.others n hn).trans (h.others n hn)
  frame n hn hK := (h'.frame n hn hK).trans (h.frame n hn hK)
  taskUpdate := h'.taskUpdate.trans h.taskUpdate
  raw := h'.raw.trans h.raw

theorem Relink.touch {x : Node} {K K' : List Node} {s s' : State} (h : Relink K s s')
    (hK : ∀ n ∈ K, n ≠ x → n ∈ K') : Touch x K' s s' where
  others n _ := h.data n
  frame n hn hnK := h.frame n fun hk => hnK (hK n hk hn)
  taskUpdate := h.taskUpdate
  raw := h.raw

theorem touch_write (s : State) (x : Node) (f : Task → Task) (K : List Node) :
    Touch x K s (s.write x f) where
  others n hn := by rw [State.write_mem_of_ne s f hn]; exact SameData.refl _
  frame n hn _ := State.write_mem_of_ne s f hn
  taskUpdate := rfl
  raw := rfl

/-- An assignment to data fields of a task does not change the queue. -/
theorem Queue.write {s : State} {Q : List Node} (h : Queue s Q) (x : Node) {f : Task → Task}
    (hn : (f (s.mem x)).qNext = (s.mem x).qNext) (hp : (f (s.mem x)).qPrev = (s.mem x).qPrev) :
    Queue (s.write x f) Q :=
  h.congr (fun m _ => s.write_field x m f Task.qNext hn)
    (fun m _ => s.write_field x m f Task.qPrev hp)

/-- An assignment to a task outside the queue does not change the queue. -/
theorem Queue.write_of_notMem {s : State} {Q : List Node} (h : Queue s Q) {x : Node}
    (f : Task → Task) (hx : x ∉ .queueRoot :: Q) : Queue (s.write x f) Q := by
  refine h.congr (fun m hm => ?_) (fun m hm => ?_)
  · exact congrArg Task.qNext (State.write_mem_of_ne s f fun he => hx (he ▸ hm))
  · exact congrArg Task.qPrev (State.write_mem_of_ne s f fun he => hx (he ▸ hm))

theorem Queue.pop {s : State} {Q : List Node} {x : Node} (h : Queue s Q) (hx : x ∈ Q) :
    Queue (s.pop x) (Q.erase x) ∧ Relink (.queueRoot :: Q.erase x) s (s.pop x) := by
  obtain ⟨A, B, rfl⟩ := List.append_of_mem hx
  have hxA : x ∉ A := fun hA =>
    (List.nodup_append.mp h.nodup).2.2 x hA x List.mem_cons_self rfl
  rw [List.erase_append_right _ hxA, List.erase_cons_head]
  exact pop_spec h

theorem Queue.notMem_erase {s : State} {Q : List Node} {x : Node} (h : Queue s Q) (hx : x ∈ Q) :
    x ∉ .queueRoot :: Q.erase x := by
  have hr : x ≠ .queueRoot := fun he => h.root_notMem (he ▸ hx)
  rw [List.mem_cons, not_or]
  exact ⟨hr, h.nodup.not_mem_erase⟩

/-- **Moving a queued task**: taken out, given a new due time and put back by that time. -/
theorem Queue.reinsert {s : State} {Q : List Node} {x : Node} (h : Queue s Q) (hx : x ∈ Q)
    (t : BitVec 32) :
    ∃ s', ((s.pop x).write x fun k => { k with runNext := t }).insert x = some s' ∧
      Queue s' ((Q.erase x).orderedInsert (Sooner s'.due) x) ∧ Touch x (.queueRoot :: Q) s s' ∧
      SameData (s'.mem x) { s.mem x with runNext := t } ∧ s'.taskFree = s.taskFree := by
  obtain ⟨hq, hr⟩ := h.pop hx
  have hxe := h.notMem_erase hx
  have hq' := hq.write x (f := fun k => { k with runNext := t }) rfl rfl
  obtain ⟨s', hs', hq'', hr'⟩ := insert_spec hq' hxe
  have hsub : ∀ n ∈ Q.erase x, n ∈ Q := fun n hn => List.mem_of_mem_erase hn
  refine ⟨s', hs', ?_, ?_, ?_, ?_⟩
  · rw [hr'.due]; exact hq''
  · refine ((hr.touch fun n hn _ => ?_).trans (touch_write _ x _ _)).trans
      (hr'.touch fun n hn hnx => ?_)
    · simp only [List.mem_cons] at hn ⊢
      exact hn.imp id (hsub n)
    · simp only [List.mem_cons] at hn ⊢
      exact hn.imp id fun h => h.elim (fun h => absurd h hnx) (hsub n)
  · have hpx : (s.pop x).mem x = s.mem x := hr.frame x hxe
    refine (hr'.data x).trans ?_
    rw [State.write_mem_self, hpx]
    exact SameData.refl _
  · rw [hr'.taskFree, State.write_taskFree, hr.taskFree]

/-- **`update` of a woken task**: it moves to where it is due, now. -/
theorem update_wake {s : State} {Q : List Node} {x : Node} (h : Queue s Q) (hx : x ∈ Q)
    (hw : (s.mem x).schedule = .wake) :
    ∃ s', s.update x = some s' ∧
      Queue s' ((Q.erase x).orderedInsert (Sooner s'.due) x) ∧ Touch x (.queueRoot :: Q) s s' ∧
      SameData (s'.mem x) { s.mem x with runNext := s.raw } ∧ s'.taskFree = s.taskFree := by
  have hraw : (s.pop x).raw = s.raw := (h.pop hx).2.raw
  obtain ⟨s', hs', hrest⟩ := h.reinsert hx s.raw
  refine ⟨s', ?_, hrest⟩
  rw [State.update, hw]
  show ((s.pop x).write x fun t => { t with runNext := (s.pop x).raw }).insert x = _
  rw [hraw]
  exact hs'

/-- The due time `requeue` gives a task. -/
def requeueTime (s : State) (x : Node) : BitVec 32 :=
  (s.mem x).runInterval
    + if (s.mem x).schedule = .periodic then (s.mem x).runNext else s.raw

/-- **`requeue` of a task that is not cancelled**: it moves to its next due time. -/
theorem requeue_spec {s : State} {Q : List Node} {x : Node} (h : Queue s Q) (hx : x ∈ Q)
    (hc : (s.mem x).schedule ≠ .canceled) :
    ∃ s', s.requeue x = some s' ∧
      Queue s' ((Q.erase x).orderedInsert (Sooner s'.due) x) ∧ Touch x (.queueRoot :: Q) s s' ∧
      SameData (s'.mem x) { s.mem x with runNext := requeueTime s x } ∧
      s'.taskFree = s.taskFree := by
  have hr := (h.pop hx).2
  have hpx : (s.pop x).mem x = s.mem x := hr.frame x (h.notMem_erase hx)
  obtain ⟨s', hs', hrest⟩ := h.reinsert hx (requeueTime s x)
  refine ⟨s', ?_, hrest⟩
  rw [State.requeue, if_neg hc, ← hs']
  simp only [State.write, hpx, hr.raw, requeueTime]

/-- **`update` of a cancelled task**: it leaves the queue, if it is in it, and becomes the head
of the free list. Outside the queue the two null links of the task make `pop` harmless. -/
theorem update_canceled {s : State} {Q : List Node} {x : Node} (h : Queue s Q)
    (hroot : x ≠ .queueRoot) (hc : (s.mem x).schedule = .canceled)
    (hoff : x ∉ Q → s.prev x = none ∧ ∀ m, s.next x = some m → s.prev m = none) :
    ∃ s', s.update x = some s' ∧ Queue s' (Q.erase x) ∧ Touch x (.queueRoot :: Q) s s' ∧
      s'.mem x = { s.mem x with
        schedule := .free, callback := .nullptr, qPrev := none, qNext := s.taskFree } ∧
      s'.taskFree = some x := by
  have hpop : Queue (s.pop x) (Q.erase x) ∧ Touch x (.queueRoot :: Q) s (s.pop x) ∧
      SameData ((s.pop x).mem x) (s.mem x) ∧ (s.pop x).taskFree = s.taskFree ∧
      x ∉ .queueRoot :: Q.erase x := by
    by_cases hx : x ∈ Q
    · obtain ⟨hq, hr⟩ := h.pop hx
      refine ⟨hq, hr.touch fun n hn _ => ?_, hr.data x, hr.taskFree, h.notMem_erase hx⟩
      simp only [List.mem_cons] at hn ⊢
      exact hn.imp id List.mem_of_mem_erase
    · obtain ⟨hp, hn⟩ := hoff hx
      have hid : s.pop x = s := by
        rw [State.pop, hp]
        simp only [State.storeNext]
        cases hnx : s.next x with
        | none => rfl
        | some m =>
            have hm : (s.mem m).qPrev = none := hn m hnx
            simp only [State.storePrev, State.setPrev, State.write, hp]
            rw [Function.update_eq_self_iff.mpr]
            cases hk : s.mem m
            simp_all
      rw [hid, List.erase_of_not_mem hx]
      exact ⟨h, ⟨fun _ _ => SameData.refl _, fun _ _ _ => rfl, rfl, rfl⟩, SameData.refl _, rfl,
        by simp [hroot, hx]⟩
  obtain ⟨hq, ht, hd, hf, hx⟩ := hpop
  set u := (((s.pop x).write x fun t => { t with schedule := .free, callback := .nullptr }).setPrev x
    none).setNext x (s.pop x).taskFree with hu
  have hqu : Queue u (Q.erase x) :=
    ((hq.write_of_notMem _ hx).write_of_notMem _ hx).write_of_notMem _ hx
  have htu : Touch x (.queueRoot :: Q) s u :=
    ((ht.trans (touch_write _ x _ _)).trans (touch_write _ x _ _)).trans (touch_write _ x _ _)
  refine ⟨{ u with taskFree := some x }, by rw [State.update, hc]; rfl,
    hqu.congr (fun _ _ => rfl) (fun _ _ => rfl),
    ⟨htu.others, htu.frame, htu.taskUpdate, htu.raw⟩, ?_, rfl⟩
  obtain ⟨-, -, h3, h4, h5⟩ := hd
  rw [hu]
  simp only [State.setNext, State.setPrev, State.write_mem_self, hf]
  simp [h3, h4, h5]

/-- **Registering a task** outside the queue: it enters the queue one interval from now. -/
theorem setTask_spec {s : State} {Q : List Node} {x : Node} (h : Queue s Q)
    (hx : x ∉ .queueRoot :: Q) (sched : Schedule) (intv : BitVec 32) (cb : RunCall)
    (ref : Option Nat) :
    ∃ s', s.setTask x sched intv cb ref = some s' ∧
      Queue s' (Q.orderedInsert (Sooner s'.due) x) ∧ Touch x (.queueRoot :: Q) s s' ∧
      SameData (s'.mem x) { s.mem x with
        schedule := sched, callback := cb, reference := ref, runInterval := intv,
        runNext := s.raw + intv } ∧
      s'.taskFree = s.taskFree := by
  obtain ⟨s', hs', hq, hr⟩ := insert_spec (h.write_of_notMem (fun t =>
    { t with schedule := sched, callback := cb, reference := ref, runInterval := intv,
             runNext := s.raw + intv }) hx) hx
  refine ⟨s', hs', by rw [hr.due]; exact hq, (touch_write _ x _ _).trans
    (hr.touch fun n hn hnx => ?_), ?_, hr.taskFree⟩
  · simp only [List.mem_cons] at hn ⊢
    exact hn.imp id fun h => h.elim (fun h => absurd h hnx) id
  · refine (hr.data x).trans ?_
    rw [State.write_mem_self]
    exact SameData.refl _

end Gpsdo.Sched
