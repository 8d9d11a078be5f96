import Gpsdo.Ntp.TableEffect
import Gpsdo.Ntp.Poll

set_option autoImplicit false

/-! # The tasks of the sources and the table

The machine of the source table has two actions for what the code of a source does: it sets its
status, or pushes a sample. Every activation of `Peer::run` and of `GPS::run` and every packet that
a peer receives is a run of these two.
-/

namespace Gpsdo.Ntp

variable {F : Type}

/-! ## Status and samples -/

/-- Only status fields differ. -/
def StatusOnly (src src' : Source F) : Prop := src' = { src with toStatus := src'.toStatus }

/-- Status fields are set, a sample may be pushed, and status fields are set again. -/
def TaskStep (src src' : Source F) : Prop :=
  StatusOnly src src' ∨ ∃ src₁ smp stats now, StatusOnly src src₁ ∧
    StatusOnly (src₁.push smp stats now) src'

theorem StatusOnly.trans {src src₁ src₂ : Source F} (h : StatusOnly src src₁)
    (h' : StatusOnly src₁ src₂) : StatusOnly src src₂ := by
  unfold StatusOnly at *
  rw [h', h]

theorem TaskStep.trans_status {src src₁ src₂ : Source F} (h : TaskStep src src₁)
    (h' : StatusOnly src₁ src₂) : TaskStep src src₂ := by
  rcases h with h | ⟨src', smp, stats, now, h1, h2⟩
  · exact Or.inl (h.trans h')
  · exact Or.inr ⟨src', smp, stats, now, h1, h2.trans h'⟩

theorem StatusOnly.trans_task {src src₁ src₂ : Source F} (h : StatusOnly src src₁)
    (h' : TaskStep src₁ src₂) : TaskStep src src₂ := by
  rcases h' with h' | ⟨src', smp, stats, now, h1, h2⟩
  · exact Or.inl (h.trans h')
  · exact Or.inr ⟨src', smp, stats, now, h.trans h1, h2⟩

/-! ## The code of the sources -/

namespace Peer

theorem pollSend_status (p : Peer F) (env : Env F) :
    StatusOnly p.toSource (p.pollSend env).1.toSource := by
  dsimp only [pollSend]
  split <;> rfl

theorem pollEnd_task (p : Peer F) (env : Env F) :
    TaskStep p.toSource (p.pollEnd env).1.toSource := by
  rcases Nat.lt_or_ge 15 p.stratum with hst | hst
  · rw [pollEnd_drop env hst]
    exact Or.inl rfl
  · rw [pollEnd_push env hst]
    exact Or.inr ⟨{ p.toSource with reach := p.reach ||| 1 }, _, _, _, rfl, rfl⟩

theorem pollStep_task (p : Peer F) (env : Env F) :
    TaskStep p.toSource (p.pollStep env).2.1.toSource := by
  have hbranch := p.pollStep_branch env
  generalize p.pollStep env = r at hbranch ⊢
  cases hbranch with
  | send hs => exact Or.inl (pollSend_status _ env)
  | followUp hs hr hx => exact Or.inl (pollSend_status _ env)
  | received hs hr => exact pollEnd_task _ env
  | fallback hs hr hx =>
      have hstatus : StatusOnly p.toSource ({ p with xleave := false } : Peer F).toSource := rfl
      exact hstatus.trans_task (pollEnd_task _ env)
  | timeout hs hr hx => exact Or.inl rfl
  | wait hs hr => exact Or.inl rfl

theorem updateMac_toSource (p : Peer F) (env : Env F) :
    (p.updateMac env).1.toSource = p.toSource := by
  dsimp only [updateMac]
  split <;> rfl

theorem isMacInvalid_toSource (p : Peer F) (env : Env F) :
    (p.isMacInvalid env).2.1.toSource = p.toSource := by
  dsimp only [isMacInvalid]
  split
  · exact updateMac_toSource p env
  · rfl

theorem receive_status (p : Peer F) (packet : HeaderNtp) (stamps : Stamps) :
    StatusOnly p.toSource (p.receive packet stamps).toSource := by
  dsimp only [receive]
  split_ifs <;> rfl

variable [Single F]

theorem updateStatus_status (p : Peer F) : StatusOnly p.toSource p.updateStatus.toSource := by
  unfold StatusOnly
  rw [p.updateStatus_spec.writes]

theorem pollRun_task (p : Peer F) (env : Env F) :
    TaskStep p.toSource (p.pollRun env).2.1.toSource := by
  have hstep := pollStep_task p env
  rcases p.pollRun_branch env with ⟨hrun, -⟩ | ⟨hrun, -⟩ <;> rw [hrun]
  · exact hstep
  · exact hstep.trans_status (updateStatus_status _)

/-- An activation of the task of a peer. -/
theorem run_task (p : Peer F) (env : Env F) : TaskStep p.toSource (p.run env).1.toSource := by
  have hbranch := p.run_branch env
  have hmac := isMacInvalid_toSource p env
  generalize p.run env = r at hbranch ⊢
  cases hbranch with
  | poll h ho => exact pollRun_task p env
  | idle h interval => exact Or.inl rfl
  | wait h ho => exact Or.inl (by rw [hmac]; rfl)
  | start h _ _ =>
      rw [← hmac]
      generalize (p.isMacInvalid env).2.1 = p
      have hcount : StatusOnly p.toSource { p.toSource with reach := p.reach <<< 1 } := rfl
      exact Or.inl (hcount.trans (pollSend_status _ env))

end Peer

theorem GPS.updateStatus_status (src : Source F) : StatusOnly src (GPS.updateStatus src) := by
  unfold GPS.updateStatus
  split_ifs <;> rfl

/-- An activation of the task of the GPS source. -/
theorem GPS.run_task (p : GPS F) (env : GpsEnv F) :
    TaskStep p.toSource (p.run env).1.toSource := by
  unfold GPS.run
  split_ifs
  · have hcount : StatusOnly p.toSource
        { p.toSource with reach := p.reach <<< 1, txCount := p.txCount + 1 } := rfl
    exact Or.inl (hcount.trans (GPS.updateStatus_status _))
  · exact Or.inl rfl
  · exact Or.inl rfl
  · exact Or.inl rfl
  · exact Or.inr ⟨{ p.toSource with
      reach := p.reach <<< 1 ||| 1, rxCount := p.rxCount + 1, rxValid := p.rxValid + 1,
      txCount := p.txCount + 1 }, _, _, _, rfl, GPS.updateStatus_status _⟩

/-! ## The table follows -/

theorem modify_modify (T : Table F) (r : Ref) (f g : Source F → Source F) :
    (T.modify r f).modify r g = T.modify r (g ∘ f) := by
  simp [Table.modify]

variable [Single F]

theorem step_status {T : Table F} {r : Ref} {src' : Source F} (hr : r ∈ T.listed)
    (h : StatusOnly (T.mem r) src') :
    T.step (.status r src'.toStatus) = some (T.modify r fun _ => src') := by
  have hmod : T.modify r ({ · with toStatus := src'.toStatus }) = T.modify r fun _ => src' := by
    unfold Table.modify
    rw [h]
  rw [← hmod]
  exact if_pos hr

/-- **Tasks refine to actions.** When the code of a listed source takes it from `src` to `src'`,
the machine of the table has a run that does so. -/
theorem run_of_taskStep {T : Table F} {r : Ref} {src' : Source F} (hr : r ∈ T.listed)
    (h : TaskStep (T.mem r) src') :
    ∃ h, Run Table.step T h (T.modify r fun _ => src') := by
  rcases h with h | ⟨src₁, smp, stats, now, h1, h2⟩
  · exact ⟨_, .next .start (step_status hr h)⟩
  · -- the status before the sample, the sample, the status after it
    have hfirst := step_status hr h1
    have hpush : (T.modify r fun _ => src₁).step (.update r smp stats now) =
        some (T.modify r fun _ => src₁.push smp stats now) := by
      have hmod := modify_modify T r (fun _ => src₁) (·.push smp stats now)
      rw [Function.comp_def] at hmod
      rw [← hmod]
      exact if_pos hr
    have hr' : r ∈ (T.modify r fun _ => src₁.push smp stats now).listed := hr
    have hlast := step_status hr' (by simpa using h2)
    rw [modify_modify] at hlast
    exact ⟨_, .next (.next (.next .start hfirst) hpush) hlast⟩

end Gpsdo.Ntp
