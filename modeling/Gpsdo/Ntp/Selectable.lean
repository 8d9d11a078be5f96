import Gpsdo.Ntp.Tasks
import Gpsdo.Ntp.TimeServer

set_option autoImplicit false

/-! # When a source becomes selectable

`isSelectable` asks whether a source is reached and not lost, and for the statistics of its filter.
A peer is given up as lost when none of its last four polls was answered; from then on only an
answer can set one of these bits of `reach`, and an answer updates the filter. So a source that is
not selectable does not become selectable again without an update of its filter.
-/

namespace Gpsdo.Ntp

variable {F : Type} {src src₁ src' : Source F} {smps : List Sample} {now : BitVec 64}

/-! ## Sources -/

theorem and_0xF_eq_zero {v : BitVec 16} : v &&& 0xF = 0 ↔ v.toNat % 16 = 0 := by
  have h15 : (0xF : BitVec 16).toNat = 2 ^ 4 - 1 := rfl
  rw [BitVec.toNat_eq, BitVec.toNat_and, h15, Nat.and_two_pow_sub_one_eq_mod]
  rfl

/-- One more poll that is not answered. -/
theorem shift_and_0xF {reach : BitVec 16} (h : reach &&& 0xF = 0) : (reach <<< 1) &&& 0xF = 0 := by
  rw [and_0xF_eq_zero] at h ⊢
  rw [BitVec.toNat_shiftLeft, Nat.shiftLeft_eq]
  omega

/-- None of the last four polls of a lost source was answered. -/
def LostUnreached (src : Source F) : Prop := src.lost = true → src.reach &&& 0xF = 0

/-- The status is set, but not what `isSelectable` looks at. -/
structure Quiet (src src' : Source F) : Prop where
  status : StatusOnly src src'
  reach : src'.reach = src.reach
  lost : src'.lost = src.lost

theorem Quiet.refl (src : Source F) : Quiet src src := ⟨rfl, rfl, rfl⟩

theorem Quiet.trans (h : Quiet src src₁) (h' : Quiet src₁ src') : Quiet src src' :=
  ⟨h.status.trans h'.status, h'.reach.trans h.reach, h'.lost.trans h.lost⟩

theorem Quiet.unreached (h : Quiet src src') (hu : LostUnreached src) : LostUnreached src' := by
  intro hlost
  rw [h.reach]
  exact hu (h.lost ▸ hlost)

/-- `updateStatus` of a peer: a source that was reached is not lost, and one that was not may be. -/
structure Settled (src src' : Source F) : Prop where
  status : StatusOnly src src'
  reach : src'.reach = src.reach
  found : src.reach &&& 0xF ≠ 0 → src'.lost = false
  lost : src.reach &&& 0xF = 0 → src.lost = true → src'.lost = true

theorem Settled.unreached (h : Settled src src') : LostUnreached src' := by
  intro hlost
  rw [h.reach]
  by_contra hreach
  rw [h.found hreach] at hlost
  cases hlost

section select

variable [Single F]

/-- A filter that is not updated: the source has the same last update, and is selectable only if it
was. -/
structure Kept (src src' : Source F) : Prop where
  usedOffset : src'.usedOffset = src.usedOffset
  lastUpdate : src'.lastUpdate = src.lastUpdate
  selectable : src'.selectState = .selectable → src.selectState = .selectable

theorem selectState_eq_selectable : src.selectState = .selectable ↔
    (src.reach ≠ 0 ∧ src.lost = false) ∧ 8 ≤ src.usedOffset ∧ 4 ≤ src.usedDrift ∧
      Single.lt Single.MAX_FREQ_SKEW src.freqSkew = false := by
  unfold Source.selectState
  split_ifs with hreach hused hskew
  · refine iff_of_false (by decide) ?_
    rintro ⟨⟨h0, hlost⟩, -⟩
    rcases hreach with hzero | htrue
    · exact h0 hzero
    · rw [hlost] at htrue
      cases htrue
  · refine iff_of_false (by decide) ?_
    rintro ⟨-, h8, h4, -⟩
    omega
  · refine iff_of_false (by decide) ?_
    rintro ⟨-, -, -, hno⟩
    rw [hno] at hskew
    cases hskew
  · obtain ⟨h0, hlost⟩ := not_or.mp hreach
    exact iff_of_true rfl ⟨⟨h0, by simpa using hlost⟩, by omega, by omega, by simpa using hskew⟩

/-- Without an update only `reach` and `lost` count. -/
theorem StatusOnly.kept (h : StatusOnly src src')
    (hreach : src'.reach ≠ 0 ∧ src'.lost = false → src.reach ≠ 0 ∧ src.lost = false) :
    Kept src src' := by
  have hused : src'.usedOffset = src.usedOffset := by rw [h]
  have hdrift : src'.usedDrift = src.usedDrift := by rw [h]
  have hskew : src'.freqSkew = src.freqSkew := by rw [h]
  refine ⟨hused, by rw [h], fun hsel => ?_⟩
  rw [selectState_eq_selectable, hused, hdrift, hskew] at hsel
  exact selectState_eq_selectable.mpr ⟨hreach hsel.1, hsel.2⟩

theorem Quiet.kept (h : Quiet src src') : Kept src src' :=
  h.status.kept (by rw [h.reach, h.lost]; exact id)

/-- **A lost peer stays lost** when its status is updated. -/
theorem Settled.kept (h : Settled src src') (hu : LostUnreached src) : Kept src src' := by
  refine h.status.kept fun ⟨h0, hfound⟩ => ⟨h.reach ▸ h0, ?_⟩
  by_contra hlost
  have hlost : src.lost = true := by simpa using hlost
  rw [h.lost (hu hlost) hlost] at hfound
  cases hfound

/-- A poll shifts a zero into the register. -/
theorem StatusOnly.kept_shift (h : StatusOnly src src') (hreach : src'.reach = src.reach <<< 1)
    (hlost : src'.lost = true ∨ src'.lost = src.lost) : Kept src src' := by
  refine h.kept fun ⟨h0, hfound⟩ => ⟨fun hzero => h0 ?_, ?_⟩
  · rw [hreach, hzero]
    rfl
  · rw [← hlost.resolve_left (by rw [hfound]; exact Bool.false_ne_true)]
    exact hfound

end select

/-! ## Peers -/

/-- What an activation of a task does to a source, if it pushes the samples `smps`. -/
structure Fate [Single F] (smps : List Sample) (now : BitVec 64) (src src' : Source F) : Prop where
  kept : smps = [] → LostUnreached src → Kept src src'
  updated : smps ≠ [] → src'.lastUpdate = now
  unreached : LostUnreached src → LostUnreached src'

theorem Quiet.fate [Single F] (h : Quiet src src') : Fate [] now src src' :=
  ⟨fun _ _ => h.kept, fun hne => absurd rfl hne, h.unreached⟩

namespace Peer

/-- The poll up to the end of a burst: no sample is pushed, or the burst ends with one. -/
inductive PollFate (src : Source F) (now : BitVec 64) : Bool × Peer F × List Output → Prop
  | quiet {returned : Bool} {p' : Peer F} {out : List Output}
      (hq : Quiet src p'.toSource) (hs : samples out = []) : PollFate src now (returned, p', out)
  | pushed {p' : Peer F} {out : List Output} (hs : samples out ≠ [])
      (hlast : p'.lastUpdate = now) (hdone : p'.pollActive = false) :
      PollFate src now (false, p', out)

theorem pollSend_quiet (p : Peer F) (env : Env F) :
    Quiet p.toSource (p.pollSend env).1.toSource ∧ samples (p.pollSend env).2 = [] := by
  dsimp only [pollSend]
  split <;> exact ⟨⟨rfl, rfl, rfl⟩, rfl⟩

theorem pollEnd_fate (p : Peer F) (env : Env F) :
    PollFate p.toSource env.now (false, p.pollEnd env) := by
  rcases Nat.lt_or_ge 15 p.stratum with hst | hst
  · rw [pollEnd_drop env hst]
    exact .quiet (.refl _) rfl
  · rw [pollEnd_push env hst]
    exact .pushed (by simp [samples]) rfl rfl

theorem pollStep_fate (p : Peer F) (env : Env F) :
    PollFate p.toSource env.now (p.pollStep env) := by
  have hbranch := p.pollStep_branch env
  generalize p.pollStep env = r at hbranch ⊢
  cases hbranch with
  | send hs =>
      obtain ⟨hq, hs⟩ := pollSend_quiet { p with pktSent := true, pktRecv := false } env
      exact .quiet hq hs
  | followUp hs hr hx =>
      obtain ⟨hq, hs⟩ := pollSend_quiet { p with pktRecv := false, pollXleave := true } env
      exact .quiet hq hs
  | received hs hr => exact pollEnd_fate { p with pktRecv := false } env
  | fallback hs hr hx =>
      have hend := pollEnd_fate { p with xleave := false } env
      generalize ({ p with xleave := false } : Peer F).pollEnd env = r at hend
      obtain ⟨p', out⟩ := r
      cases hend with
      | quiet hq hs => exact .quiet ⟨hq.status, hq.reach, hq.lost⟩ hs
      | pushed hs hlast hdone => exact .pushed hs hlast rfl
  | timeout hs hr hx => exact .quiet (.refl _) rfl
  | wait hs hr => exact .quiet (.refl _) rfl

variable [Single F]

theorem updateStatus_settled (p : Peer F) : Settled p.toSource p.updateStatus.toSource where
  status := updateStatus_status p
  reach := by rw [p.updateStatus_spec.writes]
  found := p.updateStatus_spec.found
  lost := p.updateStatus_spec.lost

theorem pollRun_fate (p : Peer F) (env : Env F) :
    Fate (samples (p.pollRun env).2.2) env.now p.toSource (p.pollRun env).2.1.toSource := by
  have hstep := pollStep_fate p env
  rcases p.pollRun_branch env with ⟨hrun, hgoes⟩ | ⟨hrun, -, -⟩ <;> rw [hrun]
  · generalize p.pollStep env = r at hstep hgoes ⊢
    cases hstep with
    | quiet hq hs =>
        rw [hs]
        exact hq.fate
    | pushed hs hlast hdone =>
        -- a sample ends the burst
        rcases hgoes with hret | hon
        · cases hret
        · cases hon.symm.trans hdone
  · generalize p.pollStep env = r at hstep ⊢
    cases hstep with
    | @quiet returned p' out hq hs =>
        -- the burst ends without a sample
        rw [hs]
        have hsettled := updateStatus_settled p'
        refine ⟨fun _ hu => ?_, fun hne => absurd rfl hne, fun _ => hsettled.unreached⟩
        have hk := hq.kept
        have hk' := hsettled.kept (hq.unreached hu)
        exact ⟨hk'.usedOffset.trans hk.usedOffset, hk'.lastUpdate.trans hk.lastUpdate,
          fun h => hk.selectable (hk'.selectable h)⟩
    | @pushed p' out hs hlast hdone =>
        have hsettled := updateStatus_settled p'
        refine ⟨fun h => absurd h hs, fun _ => ?_, fun _ => hsettled.unreached⟩
        rw [hsettled.status]
        exact hlast

theorem startPoll_fate (p : Peer F) (env : Env F) :
    Fate [] env.now p.toSource (p.startPoll env).1.toSource := by
  obtain ⟨hsend, -⟩ := pollSend_quiet
    ({ p with
      pollStart := env.now, pollActive := true, pollXleave := false, filterTx := 0, filterRx := 0,
      reach := p.reach <<< 1 } : Peer F) env
  have hstatus : StatusOnly p.toSource { p.toSource with reach := p.reach <<< 1 } := rfl
  refine ⟨fun _ _ => (hstatus.trans hsend.status).kept_shift hsend.reach (Or.inr hsend.lost),
    fun hne => absurd rfl hne, fun hu hlost => ?_⟩
  have hreach : p.reach &&& 0xF = 0 := hu (hsend.lost ▸ hlost)
  rw [show (p.startPoll env).1.reach = p.reach <<< 1 from hsend.reach]
  exact shift_and_0xF hreach

theorem run_fate (p : Peer F) (env : Env F) :
    Fate (samples (p.run env).2) env.now p.toSource (p.run env).1.toSource := by
  have hbranch := p.run_branch env
  have hmac := isMacInvalid_toSource p env
  obtain ⟨-, -, hs⟩ := isMacInvalid_spec p env
  generalize p.run env = r at hbranch ⊢
  cases hbranch with
  | poll h ho =>
      rw [ho.samples]
      exact pollRun_fate p env
  | idle h interval => exact (Quiet.refl _).fate
  | wait h ho =>
      rw [ho.samples, hs]
      have hq : Quiet p.toSource (p.isMacInvalid env).2.1.toSource := by
        rw [hmac]
        exact .refl _
      exact hq.fate
  | start h _ _ =>
      rw [samples_append, hs, (startPoll_spec _ env).2.2, ← hmac]
      exact startPoll_fate (p.isMacInvalid env).2.1 env

omit [Single F] in
theorem receive_quiet (p : Peer F) (packet : HeaderNtp) (stamps : Stamps) :
    Quiet p.toSource (p.receive packet stamps).toSource := by
  refine ⟨receive_status p packet stamps, ?_, ?_⟩
  · dsimp only [receive]
    split_ifs <;> rfl
  · dsimp only [receive]
    split_ifs <;> rfl

omit [Single F] in
theorem arpCallback_toSource (p : Peer F) (macAddr : BitVec 48) (env : Env F) :
    (p.arpCallback macAddr env).1.toSource = p.toSource := by
  unfold arpCallback
  split
  · exact updateMac_toSource p env
  · rfl

end Peer

/-! ## The GPS source -/

namespace GPS

variable [Single F]

/-- A missed pulse does not make the source selectable: only the last of 16 pulses does. -/
theorem missed_kept (src : Source F) :
    Kept src (updateStatus { src with reach := src.reach <<< 1, txCount := src.txCount + 1 }) := by
  have hfull : src.reach <<< 1 ≠ 0xFFFF := by
    intro h
    have h0 := congrArg (fun v : BitVec 16 => v.getLsbD 0) h
    simp at h0
  have hcount : StatusOnly src
      { src with reach := src.reach <<< 1, txCount := src.txCount + 1 } := rfl
  refine (hcount.trans (updateStatus_status _)).kept_shift ?_ ?_
  · unfold updateStatus
    split_ifs <;> rfl
  · unfold updateStatus
    dsimp only
    rw [if_neg hfull]
    split
    · exact Or.inl rfl
    · exact Or.inr rfl

theorem run_fate (p : GPS F) (env : GpsEnv F) :
    (p.pushes env = false → Kept p.toSource (p.run env).1.toSource) ∧
      (p.pushes env = true → (p.run env).1.lastUpdate = env.now) := by
  have hsame : Kept p.toSource p.toSource := (Quiet.refl _).kept
  have hmissed (hpush : p.pushes env = false) (hkept : Kept p.toSource (p.run env).1.toSource) :
      (p.pushes env = false → Kept p.toSource (p.run env).1.toSource) ∧
        (p.pushes env = true → (p.run env).1.lastUpdate = env.now) :=
    ⟨fun _ => hkept, fun h => absurd (hpush.symm.trans h) Bool.false_ne_true⟩
  by_cases hold : 0x140000000#64 < env.now - env.ppsTime.mono
  · apply hmissed
    · exact decide_eq_false fun h => h.1 hold
    · unfold run
      rw [if_pos hold]
      split
      · exact missed_kept p.toSource
      · exact hsame
  by_cases htime : env.taiEpoch = 0
  · apply hmissed
    · exact decide_eq_false fun h => h.2.1 htime
    · unfold run
      rw [if_neg hold, if_pos htime]
      exact hsame
  by_cases hpulse : env.ppsTime.mono = p.lastPps
  · apply hmissed
    · exact decide_eq_false fun h => h.2.2 hpulse
    · unfold run
      rw [if_neg hold, if_neg htime, if_pos hpulse]
      exact hsame
  · have hpush : p.pushes env = true := decide_eq_true ⟨hold, htime, hpulse⟩
    refine ⟨fun h => absurd (h.symm.trans hpush) Bool.false_ne_true, fun _ => ?_⟩
    unfold run
    rw [if_neg hold, if_neg htime, if_neg hpulse]
    dsimp only
    rw [updateStatus_status]
    rfl

end GPS

end Gpsdo.Ntp
