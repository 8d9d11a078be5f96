import Gpsdo.Sched.Pool

set_option autoImplicit false

/-! # Runs of the scheduler

The invariant that carries all runs in which callbacks register tasks only while the pool is not
exhausted and only live tasks are woken: the links are in order (`QInv`) and the slots outside
the queue are as `Pool` says. Up to the first scan they were never registered and the free list
ends (`Fresh`); from then on they are free, and they come first on a free list that may be cyclic
behind them (`Settled`). `run_effect` is the rule other invariants are proved by: what every effect
keeps holds along every such run.
-/

namespace Gpsdo.Sched

/-! ## The pool before and after the first scan -/

/-- No scan has begun: the slots outside the queue have the tag of the constructor. -/
structure Fresh (s : Sys) (Q : List Node) : Prop where
  list : Partition s.st Q
  tag : ∀ n, n ∉ .queueRoot :: Q → (s.st.mem n).schedule = .canceled
  scan : ∀ i, s.pc ≠ .scan i

/-- The free list starts with the free slots. The other slots outside the queue wait for the
first scan to reach them. -/
structure Settled (s : Sys) (Q : List Node) : Prop where
  boot : s.pc ≠ .boot
  list : ∃ F q, Path s.st.next s.st.taskFree F q ∧ F.Nodup ∧
    ∀ n, n ∈ F ↔ n ∉ .queueRoot :: Q ∧ (s.st.mem n).schedule = .free
  rest : ∀ n, n ∉ .queueRoot :: Q → (s.st.mem n).schedule ≠ .free →
    (s.st.mem n).schedule = .canceled ∧ (∀ m, s.st.next n = some m → m ∉ .queueRoot :: Q) ∧
      ∃ i j, s.pc = .scan i ∧ n = .pool j ∧ i ≤ j

def Pool (s : Sys) (Q : List Node) : Prop := Fresh s Q ∨ Settled s Q

/-- Outside the scan all slots outside the queue are free. -/
theorem Settled.free {s : Sys} {Q : List Node} (h : Settled s Q) (hpc : ∀ i, s.pc ≠ .scan i)
    {n : Node} (hn : n ∉ .queueRoot :: Q) : (s.st.mem n).schedule = .free := by
  by_contra hf
  obtain ⟨-, -, i, j, hi, -⟩ := h.rest n hn hf
  exact hpc i hi

/-- What `alloc` hands out is not in the queue. -/
theorem Pool.head {s : Sys} {Q : List Node} (h : Pool s Q) (hpc : s.pc.inTask = true)
    (hlen : s.pc ≠ .boot → Q.length < 32) {x : Node} (hx : s.st.taskFree = some x) :
    x ∉ .queueRoot :: Q := by
  rcases h with h | h
  · exact h.list.head hx
  · obtain ⟨F, q, hpath, -, hF⟩ := h.list
    obtain ⟨i, hi⟩ := exists_notMem_of_length_lt (hlen h.boot)
    have hfree := h.free (fun i hi => by rw [hi] at hpc; cases hpc) hi
    cases F with
    | nil => exact absurd ((hF _).mpr ⟨hi, hfree⟩) List.not_mem_nil
    | cons y F =>
        rw [hx] at hpath
        obtain rfl := Option.some.inj hpath.1
        exact ((hF x).mp List.mem_cons_self).1

/-- What the scan finds outside the queue is harmless. -/
theorem Pool.scanOff {s : Sys} {Q : List Node} (h : Pool s Q) {i : Nat} (hi : i < 32)
    (hpc : s.pc = .scan i) : ScanOff s Q ⟨i, hi⟩ := by
  intro hxQ
  have hx : .pool ⟨i, hi⟩ ∉ .queueRoot :: Q := by simpa using hxQ
  rcases h with h | h
  · exact absurd hpc (h.scan i)
  · by_cases hf : (s.st.mem (.pool ⟨i, hi⟩)).schedule = .free
    · rw [hf]
      exact ⟨by decide, by intro h; cases h⟩
    · obtain ⟨hc, hm, -⟩ := h.rest _ hx hf
      exact ⟨by rw [hc]; decide, fun _ => hm⟩

/-! ## Every effect keeps it -/

section

variable {s s' : Sys} {a : Action} {Q Q' : List Node}

/-- The scan goes on from where it is. -/
theorem Effect.pc_of_scan (he : Effect s Q a s' Q') {i : Nat} (hi : i < 32)
    (hpc : s.pc = .scan i) : s'.pc = .scan i ∨ s'.pc = .scan (i + 1) ∧ a = .loop := by
  cases he with
  | skip hj hpc' hc hw => simp_all
  | reclaim hj hpc' hc ht hd hf => simp_all
  | rewake hj hpc' hx hw ht hd hf => simp_all
  | scanned hj hpc' => simp_all; omega
  | elapse ticks => exact Or.inl hpc
  | wake ha => exact Or.inl hpc
  | adjust j interval => exact Or.inl hpc
  | cancel htask hc => exact Or.inl hpc
  | register htask hc hx hxQ ht hd hf => exact Or.inl hpc
  | _ => simp_all

/-- The scan starts where `taskUpdate` is cleared, and nothing returns to `main`. -/
theorem Effect.pc_enters (he : Effect s Q a s' Q') :
    (∀ i, s'.pc = .scan i → s.pc = .clear ∧ a = .loop ∨ ∃ j, s.pc = .scan j) ∧
      (s'.pc = .boot → s.pc = .boot) := by
  cases he with
  | @top hpc => dsimp only; split <;> simp
  | @check hpc => dsimp only; split <;> simp
  | @perform x pc' hpc hw hpc' => rcases hpc' with ⟨-, rfl⟩ | ⟨addr, -, rfl⟩ <;> simp
  | clear hpc => simp [hpc]
  | skip hi hpc hc hw => simp [hpc]
  | reclaim hi hpc hc ht hd hf => simp [hpc]
  | rewake hi hpc hx hw ht hd hf => simp [hpc]
  | elapse ticks => exact ⟨fun i hi => Or.inr ⟨i, hi⟩, id⟩
  | wake ha => exact ⟨fun i hi => Or.inr ⟨i, hi⟩, id⟩
  | adjust j interval => exact ⟨fun i hi => Or.inr ⟨i, hi⟩, id⟩
  | cancel htask hc => exact ⟨fun i hi => Or.inr ⟨i, hi⟩, id⟩
  | register htask hc hx hxQ ht hd hf => exact ⟨fun i hi => Or.inr ⟨i, hi⟩, id⟩
  | _ => simp

theorem Fresh.effect (h : QInv s Q) (hp : Fresh s Q) (he : Effect s Q a s' Q')
    (hw : ∀ x, a.wakes = some x → x ∈ Q) : Pool s' Q' := by
  have hrec : reclaims s a = none := by
    cases hr : reclaims s a with
    | none => rfl
    | some x =>
        obtain ⟨i, -, -, hpc, -⟩ := he.of_reclaims hr
        exact absurd hpc (hp.scan i)
  have hlist := he.partition h hp.list (by simp [hrec])
  have htag : ∀ n, n ∉ .queueRoot :: Q' → (s'.st.mem n).schedule = .canceled := by
    intro n hn
    rw [List.mem_cons, he.mem_iff h, hrec] at hn
    simp only [not_or, ne_eq, reduceCtorEq, not_false_eq_true, and_true] at hn
    have hnQ : n ∉ .queueRoot :: Q := by simp [hn]
    rw [he.schedule_off h hnQ hn.2.1 (by simp [hrec]) fun ha => hn.2.2 (hw n ha)]
    exact hp.tag n hnQ
  by_cases hclear : s.pc = .clear ∧ a = .loop
  · -- the scan begins: from here on the free list ends where the old one begins
    obtain ⟨hpc, rfl⟩ := hclear
    cases he with
    | clear =>
        refine Or.inr ⟨by simp, ⟨[], s.st.taskFree, rfl, List.nodup_nil, fun n => ?_⟩,
          fun n hn hf => ⟨hp.tag n hn, fun m hm => ?_, ?_⟩⟩
        · simp only [List.not_mem_nil, false_iff, not_and]
          intro hn hf
          rw [hp.tag n hn] at hf
          cases hf
        · obtain ⟨F, hpath, -, hF⟩ := hp.list
          rcases hpath.next_mem ((hF n).mpr hn) with h' | ⟨y, hy, h'⟩
          · rw [show s.st.next n = some m from hm] at h'
            cases h'
          · obtain rfl : m = y := Option.some.inj (hm.symm.trans h')
            exact (hF m).mp hy
        · cases n with
          | queueRoot => exact absurd List.mem_cons_self hn
          | pool j => exact ⟨0, j, rfl, rfl, Nat.zero_le _⟩
    | wake ha => cases ha
    | _ => simp_all
  · refine Or.inl ⟨hlist, htag, fun i hi => ?_⟩
    rcases he.pc_enters.1 i hi with h' | ⟨j, hj⟩
    · exact hclear h'
    · exact hp.scan j hj

/-- A node outside the queue keeps its link and its tag. -/
theorem Effect.kept_off (h : QInv s Q) (he : Effect s Q a s' Q')
    (hw : ∀ x, a.wakes = some x → x ∈ Q) {n : Node} (hn : n ∉ .queueRoot :: Q)
    (hreg : registers s a ≠ some n) (hrec : reclaims s a ≠ some n) :
    s'.st.next n = s.st.next n ∧ (s'.st.mem n).schedule = (s.st.mem n).schedule :=
  ⟨he.next_off h hn hreg hrec,
    he.schedule_off h hn hreg hrec fun ha => hn (List.mem_cons_of_mem _ (hw n ha))⟩

theorem Effect.mem_cons_iff (h : QInv s Q) (he : Effect s Q a s' Q') (n : Node) :
    n ∈ .queueRoot :: Q' ↔
      n = .queueRoot ∨ registers s a = some n ∨ n ∈ Q ∧ reclaims s a ≠ some n := by
  rw [List.mem_cons, he.mem_iff h]

/-- The free list starts with the free slots. -/
def FreeFirst (s : Sys) (Q : List Node) : Prop :=
  ∃ F q, Path s.st.next s.st.taskFree F q ∧ F.Nodup ∧
    ∀ n, n ∈ F ↔ n ∉ .queueRoot :: Q ∧ (s.st.mem n).schedule = .free

/-- A slot that is registered is taken off the front of the list. -/
theorem Settled.list_of_registers (hp : Settled s Q) (h : QInv s Q) (he : Effect s Q a s' Q')
    (hw : ∀ x, a.wakes = some x → x ∈ Q) {x : Node} (hreg : registers s a = some x) :
    FreeFirst s' Q' := by
  obtain ⟨F, q, hpath, hnd, hF⟩ := hp.list
  have hnrec : reclaims s a = none := reclaims_of_registers hreg
  obtain ⟨hin, -, hxQ, hx, hf⟩ := he.of_registers hreg
  have hxF : x ∈ F :=
    (hF x).mpr ⟨hxQ, hp.free (fun i hi => by rw [hi] at hin; cases hin) hxQ⟩
  rw [hx] at hpath
  cases F with
  | nil => cases hxF
  | cons y F =>
      obtain ⟨hy, hrestF⟩ := hpath
      obtain rfl := Option.some.inj hy
      obtain ⟨hxF, hnd⟩ := List.nodup_cons.mp hnd
      have hne : ∀ n ∈ F, n ≠ x := fun n hn hnx => hxF (hnx ▸ hn)
      refine ⟨F, q, ?_, hnd, fun n => ?_⟩
      · rw [hf]
        refine hrestF.congr fun n hn => (he.kept_off h hw ?_ ?_ (by simp [hnrec])).1
        · exact ((hF n).mp (List.mem_cons_of_mem _ hn)).1
        · simpa [hreg] using (hne n hn).symm
      · by_cases hnx : n = x
        · subst hnx
          simp [he.mem_cons_iff h, hreg, hxF]
        · have := hF n
          rw [List.mem_cons] at this
          simp only [hnx, false_or] at this
          rw [this, he.mem_cons_iff h, hreg, hnrec]
          simp only [List.mem_cons, Option.some.injEq, Ne.symm hnx, false_or, ne_eq,
            reduceCtorEq, not_false_eq_true, and_true]
          refine and_congr_right fun hnQ => ?_
          rw [(he.kept_off h hw (by simpa using hnQ) (by simp [hreg, Ne.symm hnx])
            (by simp [hnrec])).2]

/-- A slot that is reclaimed is put in front of the list. -/
theorem Settled.list_of_reclaims (hp : Settled s Q) (h : QInv s Q) (he : Effect s Q a s' Q')
    (hw : ∀ x, a.wakes = some x → x ∈ Q) (hreg : registers s a = none) {x : Node}
    (hrec : reclaims s a = some x) : FreeFirst s' Q' := by
  obtain ⟨F, q, hpath, hnd, hF⟩ := hp.list
  obtain ⟨i, hi, hxi, hpc, -, hfree, hnx, hf⟩ := he.of_reclaims hrec
  have hxF : x ∉ F := fun hx => by
    have := ((hF x).mp hx).2
    rw [(reclaims_eq_some hrec).2.1] at this
    cases this
  have hroot : x ≠ .queueRoot := by rw [hxi]; simp
  have hne : ∀ n ∈ F, n ≠ x := fun n hn hnx => hxF (hnx ▸ hn)
  refine ⟨x :: F, q, ⟨hf, ?_⟩, List.nodup_cons.mpr ⟨hxF, hnd⟩, fun n => ?_⟩
  · rw [hnx]
    refine hpath.congr fun n hn => (he.kept_off h hw ((hF n).mp hn).1 (by simp [hreg]) ?_).1
    simpa [hrec] using (hne n hn).symm
  · by_cases hnx : n = x
    · subst hnx
      simp [he.mem_cons_iff h, hreg, hrec, hfree, hroot]
    · rw [List.mem_cons, hF, he.mem_cons_iff h, hreg, hrec]
      simp only [hnx, false_or, List.mem_cons, reduceCtorEq, ne_eq, Option.some.injEq,
        Ne.symm hnx, not_false_eq_true, and_true]
      refine and_congr_right fun hnQ => ?_
      rw [(he.kept_off h hw (by simpa using hnQ) (by simp [hreg])
        (by simp [hrec, Ne.symm hnx])).2]

/-- Any other effect leaves the list as it is. -/
theorem Settled.list_of_none (hp : Settled s Q) (h : QInv s Q) (he : Effect s Q a s' Q')
    (hw : ∀ x, a.wakes = some x → x ∈ Q) (hreg : registers s a = none)
    (hrec : reclaims s a = none) : FreeFirst s' Q' := by
  obtain ⟨F, q, hpath, hnd, hF⟩ := hp.list
  refine ⟨F, q, ?_, hnd, fun n => ?_⟩
  · rw [he.taskFree_eq hreg hrec]
    exact hpath.congr fun n hn => (he.kept_off h hw ((hF n).mp hn).1 (by simp [hreg])
      (by simp [hrec])).1
  · rw [hF, he.mem_cons_iff h, hreg, hrec]
    simp only [List.mem_cons, reduceCtorEq, false_or, ne_eq, not_false_eq_true, and_true]
    refine and_congr_right fun hnQ => ?_
    rw [(he.kept_off h hw (by simpa using hnQ) (by simp [hreg]) (by simp [hrec])).2]

/-- A slot outside the queue that is not free still waits for the scan. -/
theorem Settled.rest_effect (hp : Settled s Q) (h : QInv s Q) (he : Effect s Q a s' Q')
    (hw : ∀ x, a.wakes = some x → x ∈ Q) {n : Node} (hn : n ∉ .queueRoot :: Q')
    (hreg : registers s a ≠ some n) (hrec : reclaims s a ≠ some n)
    (hf : (s'.st.mem n).schedule ≠ .free) :
    (s'.st.mem n).schedule = .canceled ∧ (∀ m, s'.st.next n = some m → m ∉ .queueRoot :: Q') ∧
      ∃ i j, s'.pc = .scan i ∧ n = .pool j ∧ i ≤ j := by
  have hnQ : n ∉ .queueRoot :: Q := by
    rw [he.mem_cons_iff h] at hn
    simp only [List.mem_cons, not_or, not_and, not_not] at hn ⊢
    exact ⟨hn.1, fun hnQ => hrec (hn.2.2 hnQ)⟩
  obtain ⟨hnext, htag⟩ := he.kept_off h hw hnQ hreg hrec
  rw [htag] at hf ⊢
  rw [hnext]
  obtain ⟨hc, hm, i, j, hpc, rfl, hij⟩ := hp.rest n hnQ hf
  refine ⟨hc, fun m hnm hmQ => ?_, ?_⟩
  · rcases (he.mem_cons_iff h m).mp hmQ with rfl | hr | ⟨hmQ, -⟩
    · exact hm _ hnm List.mem_cons_self
    · have := (he.of_registers hr).1
      rw [hpc] at this
      cases this
    · exact hm m hnm (List.mem_cons_of_mem _ hmQ)
  · rcases he.pc_of_scan (lt_of_le_of_lt hij j.isLt) hpc with h' | ⟨h', rfl⟩
    · exact ⟨i, j, h', rfl, hij⟩
    · -- the scan is not at this slot, else it would be reclaimed
      refine ⟨i + 1, j, h', rfl, Nat.lt_of_le_of_ne hij ?_⟩
      rintro rfl
      exact hrec (by simp [reclaims, hpc, hc])

theorem Settled.effect (h : QInv s Q) (hp : Settled s Q) (he : Effect s Q a s' Q')
    (hw : ∀ x, a.wakes = some x → x ∈ Q) : Settled s' Q' where
  boot hb := hp.boot (he.pc_enters.2 hb)
  list := by
    cases hreg : registers s a with
    | some x => exact hp.list_of_registers h he hw hreg
    | none =>
        cases hrec : reclaims s a with
        | some x => exact hp.list_of_reclaims h he hw hreg hrec
        | none => exact hp.list_of_none h he hw hreg hrec
  rest n hn hf := by
    refine hp.rest_effect h he hw hn (fun hreg => ?_) (fun hrec => ?_) hf
    · exact hn ((he.mem_cons_iff h n).mpr (Or.inr (Or.inl hreg)))
    · obtain ⟨-, -, -, -, -, hfree, -⟩ := he.of_reclaims hrec
      exact hf hfree

end

/-! ## The rule -/

theorem settled_or_fresh_init : Pool Sys.init [] := by
  refine Or.inl ⟨partition_init, fun n hn => ?_, fun i hi => by cases hi⟩
  cases n with
  | queueRoot => simp at hn
  | pool i => rfl

/-- **The rule for runs of the scheduler.** In a run whose steps meet a condition `C` that
includes `AllocOk` and `HandleOk`, the links are in order throughout, and what every effect of
such a step keeps holds at the end. -/
theorem run_effect {C : Sys → Action → Prop} {I : History → Sys → List Node → Prop}
    {h : History} {s : Sys} (hrun : Run step Sys.init h s) (hok : ∀ p ∈ h, C p.1 p.2)
    (hsub : ∀ s a, C s a → AllocOk s a ∧ HandleOk s a) (hstart : I [] Sys.init [])
    (hstep : ∀ h s a s' Q Q', QInv s Q → I h s Q → C s a → step s a = some s' →
      Effect s Q a s' Q' → I ((s, a) :: h) s' Q') :
    ∃ Q, QInv s Q ∧ Pool s Q ∧ I h s Q := by
  refine hrun.invariant_of_forall (I := fun h s => ∃ Q, QInv s Q ∧ Pool s Q ∧ I h s Q) hok
    ⟨[], qinv_init, settled_or_fresh_init, hstart⟩ ?_
  rintro h s a s' ⟨Q, hq, hp, hI⟩ hok hs
  obtain ⟨halloc, hhandle⟩ := hsub s a hok
  rw [HandleOk, hq.live_eq] at hhandle
  have hhead : ∀ c, a = .call c → c.setup.isSome → ∀ x, s.st.taskFree = some x →
      x ∉ .queueRoot :: Q := by
    rintro c rfl hc x hx
    have hin : s.pc.inTask = true := by
      by_contra hin
      simp [step, hin] at hs
    refine hp.head hin (fun hb => ?_) hx
    exact hq.live_eq ▸ halloc hc hb
  obtain ⟨Q', he, hQ'⟩ := step_effect hq hhead (fun i hi _ hpc => hp.scanOff hi hpc) hs
  refine ⟨Q', he.qinv hq hQ', ?_, hstep h s a s' Q Q' hq hI hok hs he⟩
  rcases hp with hp | hp
  · exact hp.effect hq he hhandle
  · exact Or.inr (hp.effect hq he hhandle)

end Gpsdo.Sched
