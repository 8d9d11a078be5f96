import Gpsdo.Sched.History

set_option autoImplicit false

/-! # What a step does to one slot

The links can be in any state here: `pop` and `insert` write nothing but links, so what happens to
the tag, the callback, the reference and the times of a slot can be told without knowing the
queue (`step_slot`).
-/

namespace Gpsdo.Sched

/-! ## Only links -/

theorem sameData_setNext (s : State) (m n : Node) (p : Option Node) :
    SameData ((s.setNext m p).mem n) (s.mem n) :=
  (relink_setNext (K := [m]) s p List.mem_cons_self).data n

theorem sameData_setPrev (s : State) (m n : Node) (p : Option Node) :
    SameData ((s.setPrev m p).mem n) (s.mem n) :=
  (relink_setPrev (K := [m]) s p List.mem_cons_self).data n

theorem sameData_storeNext (s : State) (link p : Option Node) (n : Node) :
    SameData ((s.storeNext link p).mem n) (s.mem n) := by
  cases link with
  | none => exact SameData.refl _
  | some m => exact sameData_setNext s m n p

theorem sameData_storePrev (s : State) (link p : Option Node) (n : Node) :
    SameData ((s.storePrev link p).mem n) (s.mem n) := by
  cases link with
  | none => exact SameData.refl _
  | some m => exact sameData_setPrev s m n p

theorem sameData_pop (s : State) (x n : Node) : SameData ((s.pop x).mem n) (s.mem n) :=
  (sameData_storePrev _ _ _ n).trans (sameData_storeNext _ _ _ n)

theorem sameData_insert {s s' : State} {x : Node} (h : s.insert x = some s') (n : Node) :
    SameData (s'.mem n) (s.mem n) := by
  obtain ⟨ins, -, rfl⟩ := Option.map_eq_some_iff.mp h
  exact (((sameData_storeNext _ _ _ n).trans (sameData_setPrev _ _ n _)).trans
    (sameData_setPrev _ _ n _)).trans (sameData_setNext _ _ n _)

theorem raw_pop (s : State) (x : Node) : (s.pop x).raw = s.raw := by
  have h1 : ∀ (s : State) link p, (s.storeNext link p).raw = s.raw := by
    intro s link p
    cases link <;> rfl
  have h2 : ∀ (s : State) link p, (s.storePrev link p).raw = s.raw := by
    intro s link p
    cases link <;> rfl
  exact (h2 _ _ _).trans (h1 _ _ _)

/-- The data of two slots that agree still agree after the same assignment to data fields. -/
theorem SameData.write {s s' : State} {n : Node} (x : Node) {f : Task → Task}
    (h : SameData (s'.mem n) (s.mem n)) (hf : ∀ t t', SameData t' t → SameData (f t') (f t)) :
    SameData ((s'.write x f).mem n) ((s.write x f).mem n) := by
  by_cases hn : n = x
  · subst hn
    rw [State.write_mem_self, State.write_mem_self]
    exact hf _ _ h
  · rw [State.write_mem_of_ne _ _ hn, State.write_mem_of_ne _ _ hn]
    exact h

/-! ## The effect on a slot -/

/-- What a step makes of the data of the task `n`: one case for each event. -/
inductive SlotEffect (s : Sys) (a : Action) (n : Node) (t : Task) : Prop
  | same (hw : a.wakes ≠ some n) (hr : registers s a ≠ some n)
      (hs : starts s a = some n → (s.st.mem n).schedule ≠ .wake) (h : SameData t (s.st.mem n))
  | registered {sched : Schedule} {intv : BitVec 32} {cb : Nat} {ref : Option Nat}
      (hr : registers s a = some n) (ha : a.setup = some (sched, intv, cb, ref))
      (h : SameData t (registered s.st sched intv cb ref))
  | woken (hw : a.wakes = some n) (h : SameData t { s.st.mem n with schedule := .wake })
  | adjusted {i : Fin 32} {interval : BitVec 32} (ha : a = .call (.runAdjust i interval))
      (h : SameData t { s.st.mem n with runInterval := toMonoRaw interval })
  | cancelled {callback ref : Option Nat} (ha : a = .call (.runCancel callback ref))
      (hm : State.cancelMatch callback ref (s.st.mem n) = true)
      (h : SameData t (s.st.mem n).cancelled)
  | reclaimed (hr : reclaims s a = some n)
      (h : SameData t { s.st.mem n with schedule := .free, callback := .nullptr })
  | rewoken (hr : rewakes s a = some n) (h : SameData t { s.st.mem n with runNext := s.st.raw })
  | started (hs : starts s a = some n) (hw : (s.st.mem n).schedule = .wake)
      (h : SameData t { s.st.mem n with schedule := .wait })
  | requeued (hr : requeues s a = some n)
      (h : SameData t { s.st.mem n with runNext := requeueTime s.st n })

/-- `runCancel` leaves a task alone or cancels it. -/
theorem cancelFrom_slot {callback ref : Option Nat} {s' : State} (n : Node) :
    ∀ (fuel : Nat) (s : State) (p : Option Node),
      State.cancelFrom callback ref fuel s p = some s' →
      s'.mem n = s.mem n ∨ State.cancelMatch callback ref (s.mem n) = true ∧
        s'.mem n = (s.mem n).cancelled := by
  intro fuel
  induction fuel with
  | zero => intro s p h; simp [State.cancelFrom] at h
  | succ fuel ih =>
      intro s p h
      cases p with
      | none => simp [State.cancelFrom] at h
      | some task =>
          rw [State.cancelFrom] at h
          by_cases hroot : task = .queueRoot
          · rw [if_pos hroot] at h
            exact Or.inl (by rw [Option.some.inj h])
          · rw [if_neg hroot] at h
            dsimp only at h
            cases hm : State.cancelMatch callback ref (s.mem task) with
            | false =>
                rw [if_neg (by simp [hm])] at h
                exact ih s _ h
            | true =>
                rw [if_pos hm] at h
                have hstep := ih _ _ h
                by_cases hn : n = task
                · subst hn
                  have hc : (s.runCancelTask n).mem n = (s.mem n).cancelled := by
                    simp [State.runCancelTask, State.cancel, Task.cancelled]
                  rw [hc] at hstep
                  refine Or.inr ⟨hm, ?_⟩
                  rcases hstep with h1 | ⟨-, h1⟩
                  · exact h1
                  · rw [h1]; rfl
                · have hc : (s.runCancelTask task).mem n = s.mem n := by
                    simp [State.runCancelTask, State.cancel, hn]
                  rwa [hc] at hstep

/-- `update` frees a cancelled task, makes a woken one due, and leaves all others alone. -/
theorem update_slot {s s' : State} {x : Node} (h : s.update x = some s') (n : Node) :
    SameData (s'.mem n) (s.mem n) ∧ (n = x → (s.mem x).schedule ≠ .canceled) ∨
      n = x ∧ (s.mem n).schedule = .canceled ∧
        SameData (s'.mem n) { s.mem n with schedule := .free, callback := .nullptr } ∨
      n = x ∧ (s.mem n).schedule = .wake ∧
        SameData (s'.mem n) { s.mem n with runNext := s.raw } := by
  unfold State.update at h
  split at h
  · rename_i hc
    obtain rfl := Option.some.inj h
    have hdata := (sameData_setNext _ x n (s.pop x).taskFree).trans ((sameData_setPrev _ x n none).trans
      ((sameData_pop s x n).write x (f := fun t => { t with schedule := .free, callback := .nullptr })
        fun t t' ht => ⟨rfl, rfl, ht.3, ht.4, ht.5⟩))
    by_cases hn : n = x
    · subst hn
      rw [State.write_mem_self] at hdata
      exact Or.inr (Or.inl ⟨rfl, hc, hdata⟩)
    · rw [State.write_mem_of_ne _ _ hn] at hdata
      exact Or.inl ⟨hdata, fun h => absurd h hn⟩
  · rename_i hw
    have hdata := (sameData_insert h n).trans ((sameData_pop s x n).write x
      (f := fun t => { t with runNext := (s.pop x).raw }) fun t t' ht => ⟨ht.1, ht.2, ht.3, rfl, ht.5⟩)
    rw [raw_pop] at hdata
    by_cases hn : n = x
    · subst hn
      rw [State.write_mem_self] at hdata
      exact Or.inr (Or.inr ⟨rfl, hw, hdata⟩)
    · rw [State.write_mem_of_ne _ _ hn] at hdata
      exact Or.inl ⟨hdata, fun h => absurd h hn⟩
  · rename_i hc hw
    obtain rfl := Option.some.inj h
    exact Or.inl ⟨SameData.refl _, fun _ => hc⟩

theorem requeue_slot {s s' : State} {x : Node} (h : s.requeue x = some s') (n : Node) :
    SameData (s'.mem n) (s.mem n) ∨ n = x ∧ (s.mem x).schedule ≠ .canceled ∧
      SameData (s'.mem n) { s.mem n with runNext := requeueTime s n } := by
  unfold State.requeue at h
  split at h
  · obtain rfl := Option.some.inj h
    exact Or.inl (SameData.refl _)
  · rename_i hc
    have hdata := (sameData_insert h n).trans ((sameData_pop s x n).write x
      (f := fun t => { t with runNext :=
        t.runInterval + if t.schedule = .periodic then t.runNext else (s.pop x).raw })
      fun t t' ht => ⟨ht.1, ht.2, ht.3, by simp only [ht.1, ht.4, ht.5], ht.5⟩)
    rw [raw_pop] at hdata
    by_cases hn : n = x
    · subst hn
      rw [State.write_mem_self] at hdata
      exact Or.inr ⟨rfl, hc, hdata⟩
    · rw [State.write_mem_of_ne _ _ hn] at hdata
      exact Or.inl hdata

/-- A registration initialises the slot at the head of the free list. -/
theorem perform_setup_slot {s s' : State} {c : Call} {sched : Schedule} {intv : BitVec 32}
    {cb : Nat} {ref : Option Nat} (hc : c.setup = some (sched, intv, cb, ref))
    (h : s.perform c = some s') (n : Node) :
    s.taskFree = some n ∧ SameData (s'.mem n) (registered s sched intv cb ref) ∨
      s.taskFree ≠ some n ∧ SameData (s'.mem n) (s.mem n) := by
  rw [perform_setup hc, Option.bind_eq_some_iff] at h
  obtain ⟨r, hr, h⟩ := h
  obtain ⟨x, hx, rfl⟩ := Option.map_eq_some_iff.mp hr
  have hdata := sameData_insert h n
  by_cases hn : n = x
  · subst hn
    rw [State.write_mem_self, State.write_mem_self] at hdata
    exact Or.inl ⟨hx, hdata⟩
  · rw [State.write_mem_of_ne _ _ hn, State.write_mem_of_ne _ _ hn] at hdata
    exact Or.inr ⟨fun h => hn (Option.some.inj (h.symm.trans hx)), hdata⟩

/-- A task is run: `run` writes at most the tag of its slot. -/
private theorem run_slot {s : Sys} {x : Node} (hpc : s.pc = .run x) (n : Node) :
    SlotEffect s .loop n ((s.st.run x).1.mem n) := by
  by_cases hw : (s.st.mem x).schedule = .wake
  · have hrun : (s.st.run x).1 = s.st.write x fun t => { t with schedule := .wait } := by
      simp [State.run, hw]
    by_cases hn : n = x
    · subst hn
      rw [hrun, State.write_mem_self]
      exact .started (by simp [starts, hpc, hw]) hw (SameData.refl _)
    · rw [run_mem_of_ne s.st hn]
      exact .same (by simp [Action.wakes]) (by simp [registers, Action.setup])
        (by simp [starts, hpc, hw, Ne.symm hn]) (SameData.refl _)
  · have hrun : (s.st.run x).1 = s.st := (run_fst_cases s.st x).resolve_right fun h => hw h.1
    rw [hrun]
    refine .same (by simp [Action.wakes]) (by simp [registers, Action.setup]) (fun hs => ?_)
      (SameData.refl _)
    simp only [starts, hpc] at hs
    split at hs
    · cases hs
    · obtain rfl := Option.some.inj hs
      exact hw

/-- **What a step does to a slot**, whatever the links are. -/
theorem step_slot {s s' : Sys} {a : Action} (h : step s a = some s') (n : Node) :
    SlotEffect s a n (s'.st.mem n) := by
  -- a step that does not run the task and does not register it
  have hsame : ∀ {a t}, starts s a ≠ some n → a.wakes ≠ some n → registers s a ≠ some n →
      SameData t (s.st.mem n) → SlotEffect s a n t :=
    fun hs hw hr hd => .same hw hr (fun h => absurd h hs) hd
  have hloop : ∀ {t}, (∀ x, s.pc ≠ .run x) → SameData t (s.st.mem n) →
      SlotEffect s .loop n t := by
    intro t hpc hd
    refine hsame (fun hs => ?_) (by simp [Action.wakes]) (by simp [registers, Action.setup]) hd
    unfold starts at hs
    split at hs
    · rename_i x _ hx
      exact hpc x hx
    · cases hs
  have hwake : ∀ {a i}, starts s a ≠ some n → a.wakes = some (.pool i) →
      SlotEffect s a n ((s.st.runWake (.pool i)).mem n) := by
    intro a i ha hw
    by_cases hn : n = .pool i
    · subst hn
      rw [State.runWake_mem_self]
      exact .woken hw (SameData.refl _)
    · rw [State.runWake_mem_of_ne _ hn]
      exact hsame ha (by simp [hw, Ne.symm hn]) (by simp [registers_of_wakes hw]) (SameData.refl _)
  cases step_cases h with
  | elapse ticks =>
      exact hsame (by simp [starts]) (by simp [Action.wakes]) (by simp [registers, Action.setup])
        (SameData.refl _)
  | interrupt i => exact hwake (by simp [starts]) rfl
  | enter hpc =>
      exact hsame (by simp [starts]) (by simp [Action.wakes]) (by simp [registers, Action.setup])
        (SameData.refl _)
  | ret hpc =>
      exact hsame (by simp [starts]) (by simp [Action.wakes]) (by simp [registers, Action.setup])
        (SameData.refl _)
  | top hpc => exact hloop (by simp [hpc]) (SameData.refl _)
  | clear hpc => exact hloop (by simp [hpc]) (SameData.refl _)
  | scan hi hpc hst =>
      rcases update_slot hst n with ⟨hd, -⟩ | ⟨rfl, hc, hd⟩ | ⟨rfl, hw, hd⟩
      · exact hloop (by simp [hpc]) hd
      · exact .reclaimed (by simp [reclaims, hpc, hi, hc]) hd
      · exact .rewoken (by simp [rewakes, hpc, hi, hw]) hd
  | scanned hi hpc => exact hloop (by simp [hpc]) (SameData.refl _)
  | check hpc hx => exact hloop (by simp [hpc]) (SameData.refl _)
  | run hpc hcase => exact run_slot hpc n
  | requeue hpc hst =>
      rcases requeue_slot hst n with hd | ⟨rfl, hc, hd⟩
      · exact hloop (by simp [hpc]) hd
      · exact .requeued (by simp [requeues, hpc, hc]) hd
  | @call c st' htask hst =>
      cases hset : c.setup with
      | some r =>
          obtain ⟨sched, intv, cb, ref⟩ := r
          rcases perform_setup_slot hset hst n with ⟨hx, hd⟩ | ⟨hx, hd⟩
          · exact .registered (by simp [registers, Action.setup, hset, hx]) hset hd
          · refine hsame (by simp [starts]) (fun hw => ?_)
              (by simp [registers, Action.setup, hset, hx]) hd
            cases c <;> simp [Action.wakes, Call.setup] at hw hset
      | none =>
          have hr : registers s (.call c) ≠ some n := by simp [registers, Action.setup, hset]
          cases c with
          | runAdjust i interval =>
              obtain rfl := Option.some.inj hst
              by_cases hn : n = .pool i
              · subst hn
                exact .adjusted rfl (by rw [State.runAdjust_mem_self]; exact SameData.refl _)
              · refine hsame (by simp [starts]) (by simp [Action.wakes]) hr ?_
                rw [State.runAdjust_mem_of_ne _ _ hn]
                exact SameData.refl _
          | runWake i =>
              obtain rfl := Option.some.inj hst
              exact hwake (by simp [starts]) rfl
          | runCancel callback ref =>
              rcases cancelFrom_slot n _ _ _ hst with hm | ⟨hm, hd⟩
              · rw [hm]
                exact hsame (by simp [starts]) (by simp [Action.wakes]) hr (SameData.refl _)
              · exact .cancelled rfl hm (by rw [hd]; exact SameData.refl _)
          | _ => cases hset

end Gpsdo.Sched
