import Gpsdo.Sched.Slot

set_option autoImplicit false

/-! # Tasks that wait

`Task::run` returns at once for the tag `Wait`, so that a waiting task whose queue timeout has come
is only put back into the queue. But `Task::setWait` writes the tag `Sleep`. A task keeps it until
its first wake-up, and if its first timeout comes before that, 2^30 ticks after the registration,
its callback is called without a wake-up. Once woken, a task only alternates between `Wake` and
`Wait`, and then the law holds.
-/

namespace Gpsdo.Sched

/-! ## The law -/

def Action.isWait : Action → Bool
  | .call (.runWait _ _) => true
  | _ => false

/-- The slot was last registered by `runWait`. -/
def waitTask : History → Node → Bool
  | [], _ => false
  | (s, a) :: h, n => if registers s a = some n then a.isWait else waitTask h n

/-- The task was woken since its callback was last called, or since its registration. -/
def wokenSince : History → Node → Bool
  | [], _ => false
  | (s, a) :: h, n =>
      a.wakes == some n || wokenSince h n && calls s a != some n && registers s a != some n

/-- Every call of the callback of a `runWait` task was preceded by a wake-up. -/
def WaitLaw : History → Prop
  | [] => True
  | (s, a) :: h =>
      (∀ n ∈ calls s a, waitTask h n = true → wokenSince h n = true) ∧ WaitLaw h

/-- No `runWait` task came up to be run with the tag it was registered with. -/
def NoTimeout : History → Prop
  | [] => True
  | (s, a) :: h =>
      (∀ n, a = .loop → s.pc = .run n → waitTask h n = true → (s.st.mem n).schedule ≠ .sleep) ∧
        NoTimeout h

instance decidableWaitLaw : (h : History) → Decidable (WaitLaw h)
  | [] => isTrue trivial
  | (s, a) :: h =>
      have := decidableWaitLaw h
      inferInstanceAs (Decidable ((∀ n ∈ calls s a, waitTask h n = true → wokenSince h n = true) ∧
        WaitLaw h))

/-! ## The tags of a `runWait` task -/

/-- What the tag of a `runWait` task tells: `Sleep`, that it was not woken yet; `Wake`, that it
was, since its callback was last called. -/
structure WaitInv (h : History) (n : Node) (t : Task) : Prop where
  sleep : t.schedule = .sleep → (∃ addr, t.callback = .entry addr) ∧ wokenSince h n = false
  wake : t.schedule = .wake → (∃ addr, t.callback = .entry addr) → wokenSince h n = true
  tags : (∃ addr, t.callback = .entry addr) →
    t.schedule = .sleep ∨ t.schedule = .wait ∨ t.schedule = .wake

theorem starts_of_calls {s : Sys} {a : Action} {n : Node} (h : calls s a = some n) :
    starts s a = some n := by
  obtain ⟨rfl, hpc, hw, -⟩ := calls_eq_some h
  simp [starts, hpc, hw]

/-- A step that only changes links and times. -/
private theorem WaitInv.keep {h : History} {s : Sys} {a : Action} {n : Node} {t : Task}
    (hi : WaitInv h n (s.st.mem n)) (hw : a.wakes ≠ some n) (hr : registers s a ≠ some n)
    (hc : calls s a = some n → (s.st.mem n).schedule ≠ .wake)
    (htag : t.schedule = (s.st.mem n).schedule) (hcb : t.callback = (s.st.mem n).callback) :
    WaitInv ((s, a) :: h) n t where
  sleep ht := by
    rw [htag] at ht
    rw [hcb]
    exact ⟨(hi.sleep ht).1, by simp [wokenSince, hw, (hi.sleep ht).2]⟩
  wake ht he := by
    rw [htag] at ht
    rw [hcb] at he
    have hnc : calls s a ≠ some n := fun hcall => hc hcall ht
    simp [wokenSince, hi.wake ht he, hnc, hr]
  tags he := by
    rw [hcb] at he
    rw [htag]
    exact hi.tags he

/-- A slot without a callback of the clients. -/
private theorem WaitInv.gone {h : History} {n : Node} {t : Task} (htag : t.schedule ≠ .sleep)
    (hcb : ∀ addr, t.callback ≠ .entry addr) : WaitInv h n t where
  sleep ht := absurd ht htag
  wake _ he := by
    obtain ⟨addr, he⟩ := he
    exact absurd he (hcb addr)
  tags he := by
    obtain ⟨addr, he⟩ := he
    exact absurd he (hcb addr)

/-- A task that is registered by `runWait` gets the tag `Sleep`. -/
private theorem WaitInv.registered {h : History} {s s' : Sys} {a : Action} {n : Node}
    (hs : step s a = some s') (hr : registers s a = some n) (hwait : a.isWait = true) :
    WaitInv ((s, a) :: h) n (s'.st.mem n) := by
  obtain ⟨callback, ref, rfl⟩ : ∃ callback ref, a = .call (.runWait callback ref) := by
    cases a with
    | call c => cases c with
      | runWait callback ref => exact ⟨callback, ref, rfl⟩
      | _ => cases hwait
    | _ => cases hwait
  cases step_slot hs n with
  | @registered sched intv cb ref' _ ha hd =>
      obtain ⟨rfl, -⟩ : Schedule.sleep = sched ∧ _ := by
        simpa [Action.setup, Call.setup] using ha
      refine ⟨fun _ => ⟨⟨cb, hd.callback⟩, ?_⟩, fun ht => ?_, fun _ => Or.inl hd.schedule⟩
      · simp [wokenSince, Action.wakes, hr]
      · rw [hd.schedule] at ht
        cases ht
  | same hw hr' hst hd => exact absurd hr hr'
  | woken hw hd => cases hw
  | adjusted ha hd => cases ha
  | cancelled ha hm hd => cases ha
  | reclaimed hr' hd => cases (reclaims_eq_some hr').1
  | rewoken hr' hd => cases (rewakes_eq_some hr').1
  | started hst hw hd => cases hst
  | requeued hr' hd => cases (requeues_eq_some hr').1

/-- **A step keeps what the tag tells.** -/
theorem WaitInv.step {h : History} {s s' : Sys} {a : Action} {n : Node}
    (hi : waitTask h n = true → WaitInv h n (s.st.mem n)) (hs : step s a = some s') :
    waitTask ((s, a) :: h) n = true → WaitInv ((s, a) :: h) n (s'.st.mem n) := by
  intro hwait
  rw [waitTask] at hwait
  by_cases hr : registers s a = some n
  · rw [if_pos hr] at hwait
    exact WaitInv.registered hs hr hwait
  · rw [if_neg hr] at hwait
    have hi := hi hwait
    cases step_slot hs n with
    | registered hr' ha hd => exact absurd hr' hr
    | same hw hr' hst hd =>
        exact hi.keep hw hr (fun hc => hst (starts_of_calls hc)) hd.schedule hd.callback
    | woken hw hd =>
        refine ⟨fun ht => ?_, fun _ _ => by simp [wokenSince, hw],
          fun _ => Or.inr (Or.inr hd.schedule)⟩
        rw [hd.schedule] at ht
        cases ht
    | adjusted ha hd =>
        subst ha
        exact hi.keep (by simp [Action.wakes]) hr (by simp [calls]) hd.schedule hd.callback
    | cancelled ha hm hd =>
        refine WaitInv.gone (fun ht => ?_) fun addr he => ?_
        · rw [hd.schedule] at ht
          cases ht
        · rw [hd.callback] at he
          cases he
    | reclaimed hr' hd =>
        refine WaitInv.gone (fun ht => ?_) fun addr he => ?_
        · rw [hd.schedule] at ht
          cases ht
        · rw [hd.callback] at he
          cases he
    | rewoken hr' hd =>
        obtain ⟨rfl, -, i, hi', hpc, -⟩ := rewakes_eq_some hr'
        have hnc : calls s .loop ≠ some n := by simp [calls, hpc]
        exact hi.keep (by simp [Action.wakes]) hr (fun hc => absurd hc hnc) hd.schedule hd.callback
    | started hst hw hd =>
        refine ⟨fun ht => ?_, fun ht => ?_, fun _ => Or.inr (Or.inl hd.schedule)⟩
        · rw [hd.schedule] at ht
          cases ht
        · rw [hd.schedule] at ht
          cases ht
    | requeued hr' hd =>
        obtain ⟨rfl, hpc, -⟩ := requeues_eq_some hr'
        have hnc : calls s .loop ≠ some n := by simp [calls, hpc]
        exact hi.keep (by simp [Action.wakes]) hr (fun hc => absurd hc hnc) hd.schedule hd.callback

theorem waitInv_of_run {h : History} {s : Sys} (hrun : Run step Sys.init h s) (n : Node) :
    waitTask h n = true → WaitInv h n (s.st.mem n) :=
  hrun.invariant (I := fun h s => waitTask h n = true → WaitInv h n (s.st.mem n))
    (fun hn => by cases hn) fun _ _ _ _ hi hs => WaitInv.step hi hs

/-- A call of the callback is lawful exactly when the tag is not the one of the registration. -/
theorem woken_iff_of_calls {h : History} {s : Sys} {n : Node} (hi : WaitInv h n (s.st.mem n))
    {a : Action} (hc : calls s a = some n) :
    wokenSince h n = true ↔ (s.st.mem n).schedule ≠ .sleep := by
  obtain ⟨-, -, hw, he⟩ := calls_eq_some hc
  constructor
  · intro hwoken hs
    rw [(hi.sleep hs).2] at hwoken
    cases hwoken
  · intro hs
    rcases hi.tags he with h' | h' | h'
    · exact absurd h' hs
    · exact absurd h' hw
    · exact hi.wake h' he

/-- **A `runWait` task runs without a wake-up exactly when it comes up to be run before it was
ever woken.** -/
theorem waitLaw_iff {h : History} {s : Sys} (hrun : Run step Sys.init h s) :
    WaitLaw h ↔ NoTimeout h := by
  induction hrun with
  | start => exact Iff.rfl
  | @next h s a s' hrun hs ih =>
      refine and_congr ⟨fun hlaw n ha hpc hwait hsleep => ?_, fun hno n hc hwait => ?_⟩ ih
      · have hi := waitInv_of_run hrun n hwait
        obtain ⟨⟨addr, he⟩, hnot⟩ := hi.sleep hsleep
        have hc : calls s a = some n := by
          simp [calls, ha, hpc, run_snd, hsleep, he]
        rw [hlaw n hc hwait] at hnot
        cases hnot
      · obtain ⟨ha, hpc, -⟩ := calls_eq_some hc
        exact (woken_iff_of_calls (waitInv_of_run hrun n hwait) hc).mpr (hno n ha hpc hwait)

/-- A task waits for 2^30 ticks and nobody wakes it. -/
def neverWoken : List Action :=
  [.call (.runWait 1 none), .ret, .elapse 1073741824, .loop, .loop, .loop]

/-- A waiting task that was never woken runs. -/
theorem not_waitLaw_neverWoken :
    ∃ h s, Run step Sys.init h s ∧ (∀ p ∈ h, p.2.wakes = none) ∧ s.pc = .callback (.pool 0) ∧
      ¬ WaitLaw h := by
  obtain ⟨h, s, hrun, hp⟩ := @exists_run_of_replay _ _ step Sys.init neverWoken
    (fun h s => decide ((∀ p ∈ h, p.2.wakes = none) ∧ s.pc = .callback (.pool 0) ∧ ¬ WaitLaw h))
    (by decide +kernel)
  obtain ⟨hw, hpc, hlaw⟩ := of_decide_eq_true hp
  exact ⟨h, s, hrun, hw, hpc, hlaw⟩

/-- The task is woken, runs, and then lets its timeout pass twice. -/
def wokenOnce : List Action :=
  [.call (.runWait 1 none), .ret, .interrupt 0] ++ List.replicate 37 Action.loop ++ [.ret, .loop]
    ++ [.elapse 1073741824] ++ List.replicate 4 Action.loop ++ [.elapse 1073741824]
    ++ List.replicate 4 Action.loop

theorem waitLaw_iff_wokenOnce :
    ∃ h s, Run step Sys.init h s ∧ WaitLaw h ∧ NoTimeout h := by
  obtain ⟨h, s, hrun, hp⟩ := @exists_run_of_replay _ _ step Sys.init wokenOnce
    (fun h s => decide (WaitLaw h ∧ s.pc = .top)) (by decide +kernel)
  have hlaw := (of_decide_eq_true hp).1
  exact ⟨h, s, hrun, hlaw, (waitLaw_iff hrun).mp hlaw⟩

end Gpsdo.Sched
