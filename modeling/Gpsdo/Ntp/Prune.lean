import Gpsdo.Ntp.Poll

set_option autoImplicit false

/-! # Peers that do not answer

`updateStatus` marks a peer for pruning when it is unreachable and its counter has come to 16. But
while no poll is answered, the branch above resets the counter whenever it comes to 4. So a peer
that has fallen silent is only marked for what was known of it before.
-/

namespace Gpsdo.Ntp

variable {F : Type}

/-! ## What stays without a sample -/

/-- What `updateStatus` looks at is the same, and the mark. -/
structure SameStanding (p p' : Peer F) : Prop where
  reach : p'.reach = p.reach
  prune : p'.prune = p.prune
  stratum : p'.stratum = p.stratum
  usedOffset : p'.usedOffset = p.usedOffset
  delayMean : p'.delayMean = p.delayMean

theorem SameStanding.refl (p : Peer F) : SameStanding p p := ⟨rfl, rfl, rfl, rfl, rfl⟩

namespace Peer

theorem pollSend_standing (p : Peer F) (env : Env F) :
    SameStanding p (p.pollSend env).1 ∧ (p.pollSend env).1.pollActive = p.pollActive := by
  dsimp only [pollSend]
  split <;> exact ⟨⟨rfl, rfl, rfl, rfl, rfl⟩, rfl⟩

/-- Without a sample, `pollEnd` has dropped the response. -/
theorem pollEnd_silent {p : Peer F} {env : Env F} (hs : samples (p.pollEnd env).2 = []) :
    p.pollEnd env = (p, []) := by
  rcases Nat.lt_or_ge 15 p.stratum with hst | hst
  · exact pollEnd_drop env hst
  · rw [pollEnd_push env hst] at hs
    cases hs

theorem pollStep_silent {p : Peer F} {env : Env F} (hs : samples (p.pollStep env).2.2 = []) :
    SameStanding p (p.pollStep env).2.1 ∧
      ((p.pollStep env).1 = true → (p.pollStep env).2.1.pollActive = p.pollActive) := by
  have hbranch := p.pollStep_branch env
  generalize p.pollStep env = r at hbranch hs ⊢
  cases hbranch with
  | send hsent =>
      obtain ⟨hsame, hactive⟩ := pollSend_standing { p with pktSent := true, pktRecv := false } env
      exact ⟨⟨hsame.1, hsame.2, hsame.3, hsame.4, hsame.5⟩, fun _ => hactive⟩
  | followUp hsent hr hx =>
      obtain ⟨hsame, hactive⟩ :=
        pollSend_standing { p with pktRecv := false, pollXleave := true } env
      exact ⟨⟨hsame.1, hsame.2, hsame.3, hsame.4, hsame.5⟩, fun _ => hactive⟩
  | received hsent hr =>
      rw [pollEnd_silent hs]
      exact ⟨⟨rfl, rfl, rfl, rfl, rfl⟩, fun h => by cases h⟩
  | fallback hsent hr hx =>
      rw [pollEnd_silent hs]
      exact ⟨⟨rfl, rfl, rfl, rfl, rfl⟩, fun h => by cases h⟩
  | timeout hsent hr hx => exact ⟨⟨rfl, rfl, rfl, rfl, rfl⟩, fun h => by cases h⟩
  | wait hsent hr => exact ⟨⟨rfl, rfl, rfl, rfl, rfl⟩, fun h => by cases h⟩

theorem updateMac_standing (p : Peer F) (env : Env F) :
    SameStanding p (p.updateMac env).1 ∧ (p.updateMac env).1.pollActive = p.pollActive := by
  dsimp only [updateMac]
  split <;> exact ⟨⟨rfl, rfl, rfl, rfl, rfl⟩, rfl⟩

theorem isMacInvalid_standing (p : Peer F) (env : Env F) :
    SameStanding p (p.isMacInvalid env).2.1 ∧
      (p.isMacInvalid env).2.1.pollActive = p.pollActive := by
  dsimp only [isMacInvalid]
  split
  · exact updateMac_standing p env
  · exact ⟨.refl p, rfl⟩

end Peer

variable [Single F] {s s' s₀ : Link F} {h : PeerHistory F}

/-! ## The counter -/

/-- The stratum is too high, or the delay. -/
def Excessive (src : Source F) : Prop :=
  MAX_STRATUM < src.stratum ∨
    7 < src.usedOffset ∧ Single.lt Single.MAX_DELAY src.delayMean = true

theorem SameStanding.excessive_iff {p p' : Peer F} (hsame : SameStanding p p') :
    Excessive p'.toSource ↔ Excessive p.toSource := by
  unfold Excessive
  rw [hsame.stratum, hsame.usedOffset, hsame.delayMean]

/-- **The counter never comes to 16** while the reach register is 0. -/
theorem Peer.updateStatus_zero {p : Peer F} (h0 : p.reach = 0) :
    p.updateStatus.prune = true ↔ Excessive p.toSource := by
  have hzero : ∀ mask : BitVec 16, p.reach &&& mask = 0 := by
    intro mask
    rw [h0]
    exact BitVec.zero_and
  have hfull : ¬ (0 : BitVec 16) = 0xFF := by decide
  unfold updateStatus Excessive
  simp only [hzero, hfull, ne_eq, not_true_eq_false, if_false, false_and, and_false, true_and]
  generalize (if p.pollCounter + 1 = 0 then -1 else p.pollCounter + 1) = counter
  by_cases hcounter : 4 ≤ counter
  · -- the counter starts again
    rw [if_pos hcounter]
    simp [h0]
  · have hlow : ¬ 16 ≤ counter := by
      intro hhigh
      bv_omega
    rw [if_neg hcounter]
    simp only [hlow, and_false, false_or, decide_eq_true_eq]

/-! ## Status updates -/

/-- An activation of the task ends in `updateStatus`. -/
def updatesStatus (s : Link F) : PeerAction F → Bool
  | .run env _ => s.peer.pollActive && !(s.peer.pollRun env).1
  | _ => false

/-- The reach register that `updateStatus` looks at in a step. -/
def reachAfter (s : Link F) : PeerAction F → BitVec 16
  | .run env _ => (s.peer.run env).1.reach
  | _ => s.peer.reach

def statusUpdates : PeerHistory F → ℕ
  | [] => 0
  | (s, a) :: h => statusUpdates h + if updatesStatus s a then 1 else 0

/-- The number of consecutive status updates, up to the last one, in which the reach register was
0. -/
def zeroUpdates : PeerHistory F → ℕ
  | [] => 0
  | (s, a) :: h =>
      if updatesStatus s a then if reachAfter s a = 0 then zeroUpdates h + 1 else 0
      else zeroUpdates h

/-- A response is accepted: by `receive`, or for a sample. -/
def TakesResponse (s : Link F) : PeerAction F → Prop
  | .run env _ => samples (s.peer.run env).2 ≠ []
  | .receive packet _ => packet.origTime ≠ 0 ∧ (packet.origTime = s.peer.filterTx ∨
      s.peer.pollXleave = true ∧ packet.origTime = s.peer.filterRx)
  | _ => False

/-! ## Steps without an accepted response -/

/-- What a step without an accepted response does, and whether it ends in `updateStatus`. -/
inductive SilentStep (p : Peer F) : Bool → Peer F → Prop
  | quiet {p' : Peer F} (hsame : SameStanding p p') (hactive : p'.pollActive = p.pollActive) :
      SilentStep p false p'
  | start {p' : Peer F} (hsame : SameStanding { p with reach := p.reach <<< 1 } p')
      (hactive : p'.pollActive = true) : SilentStep p false p'
  | update {p₁ p' : Peer F} (hsame : SameStanding p p₁) (hactive : p.pollActive = true)
      (hafter : SameStanding p₁.updateStatus p') (hdone : p'.pollActive = false) :
      SilentStep p true p'

namespace Peer

/-- An activation of the task. -/
theorem run_silent {p : Peer F} {env : Env F} (hs : samples (p.run env).2 = []) :
    SilentStep p (p.pollActive && !(p.pollRun env).1) (p.run env).1 := by
  have hbranch := p.run_branch env
  obtain ⟨hmac, hkeep⟩ := isMacInvalid_standing p env
  generalize p.run env = r at hbranch hs ⊢
  cases hbranch with
  | poll hactive ho =>
      rw [ho.samples] at hs
      rcases p.pollRun_branch env with ⟨hrun, hgoes⟩ | ⟨hrun, -, hdone⟩ <;> rw [hrun] at hs ⊢ <;>
        obtain ⟨hsame, hstay⟩ := pollStep_silent hs
      · rw [Bool.not_true, Bool.and_false]
        refine .quiet ⟨hsame.1, hsame.2, hsame.3, hsame.4, hsame.5⟩ ?_
        rcases hgoes with hret | hon
        · exact hstay hret
        · exact hon.trans hactive.symm
      · rw [hactive]
        exact .update hsame hactive ⟨rfl, rfl, rfl, rfl, rfl⟩ hdone
  | idle hactive interval =>
      rw [hactive]
      exact .quiet (.refl p) rfl
  | wait hactive ho =>
      rw [hactive]
      exact .quiet ⟨hmac.1, hmac.2, hmac.3, hmac.4, hmac.5⟩ hkeep
  | start hactive _ _ =>
      rw [hactive]
      generalize (p.isMacInvalid env).2.1 = p₁ at hmac ⊢
      obtain ⟨hsend, hstay⟩ := pollSend_standing
        { p₁ with
          pollStart := env.now, pollActive := true, pollXleave := false, filterTx := 0,
          filterRx := 0, reach := p₁.reach <<< 1 } env
      refine .start ⟨?_, hsend.2.trans hmac.2, hsend.3.trans hmac.3, hsend.4.trans hmac.4,
        hsend.5.trans hmac.5⟩ hstay
      rw [← hmac.reach]
      exact hsend.1

omit [Single F] in
theorem applyOffset_standing (p : Peer F) (offset : BitVec 64) :
    SameStanding p { p with toSource := p.applyOffset offset } := ⟨rfl, rfl, rfl, rfl, rfl⟩

omit [Single F] in
theorem arpCallback_standing (p : Peer F) (macAddr : BitVec 48) (env : Env F) :
    SameStanding p (p.arpCallback macAddr env).1 ∧
      (p.arpCallback macAddr env).1.pollActive = p.pollActive := by
  unfold arpCallback
  split
  · exact updateMac_standing p env
  · exact ⟨⟨rfl, rfl, rfl, rfl, rfl⟩, rfl⟩

omit [Single F] in
/-- A packet that is not accepted is only counted. -/
theorem receive_refused {p : Peer F} {packet : HeaderNtp} (stamps : Stamps)
    (hn : ¬ (packet.origTime = p.filterTx ∨
      p.pollXleave = true ∧ packet.origTime = p.filterRx)) :
    p.receive packet stamps = { p with rxCount := p.rxCount + 1 } := by
  have htx : packet.origTime ≠ p.filterTx := fun h => hn (Or.inl h)
  unfold receive
  by_cases hx : p.pollXleave = true
  · have hrx : packet.origTime ≠ p.filterRx := fun h => hn (Or.inr ⟨hx, h⟩)
    simp only [hx, htx, hrx, ne_eq, not_false_eq_true, if_true, if_false]
  · simp only [hx, htx, ne_eq, not_false_eq_true, if_true, Bool.false_eq_true, if_false]

end Peer

instance (s : Link F) (a : PeerAction F) : Decidable (TakesResponse s a) := by
  cases a <;> unfold TakesResponse <;> infer_instance

theorem Link.step_silent {a : PeerAction F} (hn : ¬ TakesResponse s a) (hs : s.step a = some s') :
    SilentStep s.peer (updatesStatus s a) s'.peer := by
  cases Link.step_cases hs with
  | run env accepted => exact Peer.run_silent (not_not.mp hn)
  | dropped packet stamps h0 => exact .quiet (.refl _) rfl
  | receive packet stamps h0 =>
      have hrefused := Peer.receive_refused stamps fun h => hn ⟨h0, h⟩
      dsimp only
      rw [hrefused]
      exact .quiet ⟨rfl, rfl, rfl, rfl, rfl⟩ rfl
  | sent stamps hsending => exact .quiet ⟨rfl, rfl, rfl, rfl, rfl⟩ rfl
  | arpReply macAddr env =>
      obtain ⟨hsame, hactive⟩ := Peer.arpCallback_standing s.peer macAddr env
      exact .quiet hsame hactive
  | setTaiClock offset => exact .quiet (Peer.applyOffset_standing s.peer offset) rfl

/-! ## Runs without an accepted response -/

/-- `updateStatus` neither moves the register nor what else it looks at. -/
theorem Peer.updateStatus_keeps (p : Peer F) :
    p.updateStatus.reach = p.reach ∧
      (Excessive p.updateStatus.toSource ↔ Excessive p.toSource) := by
  rw [p.updateStatus_spec.writes]
  exact ⟨rfl, Iff.rfl⟩

theorem reachAfter_eq {a : PeerAction F} (hu : updatesStatus s a = true)
    (hs : s.step a = some s') : reachAfter s a = s'.peer.reach := by
  cases a with
  | run env accepted =>
      cases hs
      rfl
  | _ => cases hu

/-- What holds along a run without an accepted response. -/
structure Fallen (s₀ : Link F) (h : PeerHistory F) (s : Link F) : Prop where
  excessive : Excessive s.peer.toSource ↔ Excessive s₀.peer.toSource
  /-- Every poll has shifted the register. -/
  shifted : ∃ n, s.peer.reach = s₀.peer.reach <<< n ∧
    statusUpdates h ≤ n + if s.peer.pollActive = true then 0 else 1
  emptied : statusUpdates h ≤ 16 + zeroUpdates h
  marked : 0 < zeroUpdates h → (s.peer.prune = true ↔ Excessive s₀.peer.toSource)

theorem Fallen.start (s₀ : Link F) : Fallen s₀ [] s₀ where
  excessive := Iff.rfl
  shifted := ⟨0, (BitVec.shiftLeft_zero _).symm, Nat.zero_le _⟩
  emptied := Nat.zero_le _
  marked := fun h => absurd h (Nat.lt_irrefl 0)

theorem Fallen.step {a : PeerAction F} (hI : Fallen s₀ h s) (hn : ¬ TakesResponse s a)
    (hs : s.step a = some s') : Fallen s₀ ((s, a) :: h) s' := by
  have hsilent := Link.step_silent hn hs
  obtain ⟨n, hreach, hcount⟩ := hI.shifted
  cases hu : updatesStatus s a with
  | false =>
      have hupdates : statusUpdates ((s, a) :: h) = statusUpdates h := by simp [statusUpdates, hu]
      have hzeros : zeroUpdates ((s, a) :: h) = zeroUpdates h := by simp [zeroUpdates, hu]
      rw [hu] at hsilent
      cases hsilent with
      | quiet hsame hactive =>
          refine ⟨hsame.excessive_iff.trans hI.excessive, ⟨n, hsame.reach.trans hreach, ?_⟩, ?_, ?_⟩
          · rw [hupdates, hactive]
            exact hcount
          · rw [hupdates, hzeros]
            exact hI.emptied
          · rw [hzeros, hsame.prune]
            exact hI.marked
      | start hsame hactive =>
          refine ⟨hsame.excessive_iff.trans hI.excessive, ⟨n + 1, ?_, ?_⟩, ?_, ?_⟩
          · rw [hsame.reach, BitVec.shiftLeft_add, ← hreach]
          · rw [hupdates, hactive]
            split at hcount <;> simp only [if_true] <;> omega
          · rw [hupdates, hzeros]
            exact hI.emptied
          · rw [hzeros, hsame.prune]
            exact hI.marked
  | true =>
      have hupdates : statusUpdates ((s, a) :: h) = statusUpdates h + 1 := by
        simp [statusUpdates, hu]
      have hafter := reachAfter_eq hu hs
      rw [hu] at hsilent
      cases hsilent with
      | @update p₁ _ hsame hactive hsame' hdone =>
          obtain ⟨hkeep, hexcessive⟩ := Peer.updateStatus_keeps p₁
          have hsettled : s'.peer.reach = s.peer.reach :=
            hsame'.reach.trans (hkeep.trans hsame.reach)
          have hstill : Excessive p₁.toSource ↔ Excessive s₀.peer.toSource :=
            hsame.excessive_iff.trans hI.excessive
          have hlow : statusUpdates h ≤ n := by simpa [hactive] using hcount
          refine ⟨hsame'.excessive_iff.trans (hexcessive.trans hstill),
            ⟨n, hsettled.trans hreach, ?_⟩, ?_, ?_⟩
          · simp only [hupdates, hdone, Bool.false_eq_true, if_false]
            omega
          all_goals by_cases h0 : s'.peer.reach = 0
          · have hemptied := hI.emptied
            simp only [hupdates, zeroUpdates, hu, hafter, h0, if_true]
            omega
          · -- the register is not empty before 16 polls
            have hn16 : n < 16 := by
              by_contra hge
              refine h0 ?_
              rw [hsettled, hreach]
              exact BitVec.shiftLeft_eq_zero (Nat.le_of_not_lt hge)
            rw [hupdates]
            omega
          · intro _
            have h1 : p₁.reach = 0 := by rw [← hkeep, ← hsame'.reach, h0]
            rw [hsame'.prune, Peer.updateStatus_zero h1]
            exact hstill
          · intro hpos
            have hnone : zeroUpdates ((s, a) :: h) = 0 := by
              simp only [zeroUpdates, hu, hafter, h0, if_true, if_false]
            omega

/-- **Whether a silent peer is marked for pruning does not depend on its silence.** -/
theorem prune_iff (hrun : Run Link.step s₀ h s) (hsilent : ∀ p ∈ h, ¬ TakesResponse p.1 p.2) :
    (32 ≤ statusUpdates h → 16 ≤ zeroUpdates h) ∧
      (16 ≤ zeroUpdates h → (s.peer.prune = true ↔ Excessive s₀.peer.toSource)) := by
  have hfallen : Fallen s₀ h s :=
    hrun.invariant_of_forall hsilent (Fallen.start s₀) fun _ _ _ _ hI hn hs => hI.step hn hs
  constructor
  · intro hmany
    have hemptied := hfallen.emptied
    omega
  · intro hzeros
    exact hfallen.marked (by omega)

/-! ## A timeserver that has died -/

/-- A timeserver in our own subnet, the stratum of which is known. -/
def neighbour (stratum : ℕ) : Link Nano :=
  let s : Link Nano := Link.init 0x0200000A 0x00FFFFFF 0x0100000A
  { s with peer := { s.peer with stratum := stratum } }

/-- Its MAC address is still known, but it does not answer. -/
def noAnswers : List (PeerAction Nano) :=
  .arpReply 1 (atSecond 1) :: (List.range 67).map fun i => .run (atSecond (i + 2)) true

/-- A timeserver of stratum 1 is polled for nothing 16 times, and is kept. -/
theorem not_prune_neighbour :
    ¬ ∀ (s₀ : Link Nano) (h : PeerHistory Nano) (s : Link Nano),
      Run Link.step s₀ h s → (∀ p ∈ h, ¬ TakesResponse p.1 p.2) → 16 ≤ zeroUpdates h →
        s.peer.prune = true := by
  intro hprune
  obtain ⟨h, s, hrun, hp⟩ := @exists_run_of_replay _ _ Link.step (neighbour 1) noAnswers
    (fun h s => decide ((∀ p ∈ h, ¬ TakesResponse p.1 p.2) ∧ 16 ≤ zeroUpdates h ∧
      s.peer.prune = false)) (by decide +kernel)
  obtain ⟨hsilent, hzeros, hkept⟩ := of_decide_eq_true hp
  rw [hprune _ h s hrun hsilent hzeros] at hkept
  cases hkept

/-- One of stratum 4 is marked. -/
theorem prune_iff_neighbour :
    ∃ h s, Run Link.step (neighbour 4) h s ∧ 16 ≤ zeroUpdates h ∧ s.peer.prune = true := by
  obtain ⟨h, s, hrun, hp⟩ := @exists_run_of_replay _ _ Link.step (neighbour 4) noAnswers
    (fun h _ => decide ((∀ p ∈ h, ¬ TakesResponse p.1 p.2) ∧ 16 ≤ zeroUpdates h)) (by decide +kernel)
  obtain ⟨hsilent, hzeros⟩ := of_decide_eq_true hp
  have hexcessive : Excessive (neighbour 4).peer.toSource := Or.inl (by decide)
  exact ⟨h, s, hrun, hzeros, ((prune_iff hrun hsilent).2 hzeros).mpr hexcessive⟩

end Gpsdo.Ntp
