import Mathlib.Data.List.Basic

set_option autoImplicit false

/-! # Runs of a machine and what holds along them

A machine is a partial step function `step : σ → α → Option σ`: in state `s` the action `a`
leads to `s'` when `step s a = some s'`, and cannot happen when `step s a = none`. A run from
`s₀` is recorded with its *history*, the list of the pairs (state, action) it went through,
newest first. Properties of a run are predicates on its history and its last state, and
`Run.invariant` is the one induction they are proved by.
-/

namespace Gpsdo

variable {σ α : Type*} {step : σ → α → Option σ} {s₀ : σ}

/-- `Run step s₀ h s`: from `s₀` the machine reaches `s`, and `h` lists the steps taken, each
as the state it was taken in and its action, newest first. -/
inductive Run (step : σ → α → Option σ) (s₀ : σ) : List (σ × α) → σ → Prop
  | start : Run step s₀ [] s₀
  | next {h : List (σ × α)} {s : σ} {a : α} {s' : σ} :
      Run step s₀ h s → step s a = some s' → Run step s₀ ((s, a) :: h) s'

/-- **The invariant rule.** What holds of the empty history and is kept by every step holds at
the end of every run. -/
theorem Run.invariant {I : List (σ × α) → σ → Prop} {h : List (σ × α)} {s : σ}
    (hrun : Run step s₀ h s) (hstart : I [] s₀)
    (hstep : ∀ h s a s', I h s → step s a = some s' → I ((s, a) :: h) s') : I h s := by
  induction hrun with
  | start => exact hstart
  | next _ hs ih => exact hstep _ _ _ _ ih hs

/-- The invariant rule for runs all of whose steps meet a condition `C`. -/
theorem Run.invariant_of_forall {I : List (σ × α) → σ → Prop} {C : σ → α → Prop}
    {h : List (σ × α)} {s : σ} (hrun : Run step s₀ h s) (hok : ∀ p ∈ h, C p.1 p.2)
    (hstart : I [] s₀)
    (hstep : ∀ h s a s', I h s → C s a → step s a = some s' → I ((s, a) :: h) s') :
    I h s := by
  have key : (∀ p ∈ h, C p.1 p.2) → I h s :=
    hrun.invariant (I := fun h s => (∀ p ∈ h, C p.1 p.2) → I h s) (fun _ => hstart)
      (fun h s a s' ih hs hok => hstep h s a s' (ih fun p hp => hok p (List.mem_cons_of_mem _ hp))
        (hok (s, a) List.mem_cons_self) hs)
  exact key hok

/-- Runs compose: the later history comes in front. -/
theorem Run.trans {h h' : List (σ × α)} {s s' : σ} (hrun : Run step s₀ h s)
    (hrun' : Run step s h' s') : Run step s₀ (h' ++ h) s' := by
  induction hrun' with
  | start => exact hrun
  | next _ hs ih => exact .next ih hs

/-- **Projections.** A machine that takes each step of another one, or none, runs as that one. -/
theorem Run.project {τ β : Type*} {step' : τ → β → Option τ} {f : σ → τ} {g : σ → α → Option β}
    {h : List (σ × α)} {s : σ} (hrun : Run step s₀ h s)
    (hstep : ∀ s a s', step s a = some s' → (g s a = none ∧ f s' = f s) ∨
      ∃ b, g s a = some b ∧ step' (f s) b = some (f s')) :
    Run step' (f s₀) (h.filterMap fun p => (g p.1 p.2).map (f p.1, ·)) (f s) := by
  induction hrun with
  | start => exact .start
  | @next h s a s' _ hs ih =>
      rcases hstep s a s' hs with ⟨hnone, hsame⟩ | ⟨b, hsome, hs'⟩
      · rw [List.filterMap_cons, hnone, hsame]
        exact ih
      · rw [List.filterMap_cons, hsome]
        exact .next ih hs'

/-- The run that the actions `as` drive, if none of them is refused: its history and its last
state, continuing from the history `h`. -/
def replay (step : σ → α → Option σ) :
    List (σ × α) → σ → List α → Option (List (σ × α) × σ)
  | h, s, [] => some (h, s)
  | h, s, a :: as => (step s a).bind fun s' => replay step ((s, a) :: h) s' as

theorem Run.of_replay {h h' : List (σ × α)} {s s' : σ} {as : List α}
    (hrun : Run step s₀ h s) (hr : replay step h s as = some (h', s')) :
    Run step s₀ h' s' := by
  induction as generalizing h s with
  | nil =>
      obtain ⟨rfl, rfl⟩ : h = h' ∧ s = s' := by simpa [replay] using hr
      exact hrun
  | cons a as ih =>
      simp only [replay, Option.bind_eq_some_iff] at hr
      obtain ⟨s1, hs, hr⟩ := hr
      exact ih (.next hrun hs) hr

/-- A replayed run whose result passes a test is a run to a state that passes it. -/
theorem exists_run_of_replay {as : List α} {p : List (σ × α) → σ → Bool}
    (hp : (replay step [] s₀ as).any (fun r => p r.1 r.2) = true) :
    ∃ h s, Run step s₀ h s ∧ p h s = true := by
  cases hr : replay step [] s₀ as with
  | none => simp [hr] at hp
  | some r => exact ⟨r.1, r.2, Run.of_replay .start hr, by simpa [hr] using hp⟩

/-! ## Outputs -/

/-- What the steps of a history put out, oldest first, where `f s a` is what the step `a` puts out
in state `s`. -/
def outputs {β : Type*} (f : σ → α → List β) : List (σ × α) → List β
  | [] => []
  | (s, a) :: h => outputs f h ++ f s a

@[simp] theorem outputs_cons {β : Type*} (f : σ → α → List β) (s : σ) (a : α)
    (h : List (σ × α)) : outputs f ((s, a) :: h) = outputs f h ++ f s a := rfl

/-- A silent step. -/
theorem outputs_cons_of_nil {β : Type*} {f : σ → α → List β} {s : σ} {a : α} (hf : f s a = [])
    (h : List (σ × α)) : outputs f ((s, a) :: h) = outputs f h := by
  rw [outputs_cons, hf, List.append_nil]

end Gpsdo
