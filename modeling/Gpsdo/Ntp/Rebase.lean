import Gpsdo.Ntp.Poll

set_option autoImplicit false

/-! # Samples and hard clock steps

When the TAI clock is stepped, `ntpApplyOffset` moves the samples in the ring buffers of the
sources to the new time scale. The time stamps that a peer holds between a packet and the end of
its poll are not moved. A sample is therefore on the new time scale exactly when there is nothing
to move: when the steps made since its stamps were taken add up to 0.
-/

namespace Gpsdo.Ntp

variable {F : Type} [Single F]

/-! ## The stamps and the steps -/

/-- The packet is accepted as the response to the basic request. -/
def accepts (s : Link F) (packet : HeaderNtp) : Prop :=
  s.peer.pollXleave = false ∧ packet.origTime = s.peer.filterTx ∧ packet.origTime ≠ 0

instance (s : Link F) (packet : HeaderNtp) : Decidable (accepts s packet) :=
  inferInstanceAs (Decidable (_ ∧ _ ∧ _))

/-- The last transmit stamps, and the sum of the hard steps made since they were taken. -/
def lastTx : PeerHistory F → Stamps × BitVec 64
  | [] => (⟨0, 0, 0⟩, 0)
  | (_, .sent stamps) :: _ => (stamps, 0)
  | (_, .setTaiClock offset) :: h => ((lastTx h).1, (lastTx h).2 + offset)
  | _ :: h => lastTx h

/-- The receive stamps of the response accepted last, and the sum of the hard steps since. -/
def lastRx : PeerHistory F → Stamps × BitVec 64
  | [] => (⟨0, 0, 0⟩, 0)
  | (s, .receive packet stamps) :: h => if accepts s packet then (stamps, 0) else lastRx h
  | (_, .setTaiClock offset) :: h => ((lastRx h).1, (lastRx h).2 + offset)
  | _ :: h => lastRx h

/-- The local time of every sample that is pushed is on the time scale then in force: it is the
average of the two stamps, each moved by the steps made since it was taken. -/
def TaiLaw : PeerHistory F → Prop
  | [] => True
  | (s, a) :: h =>
      (∀ smp ∈ pushes s a, smp.taiLocal =
        avg64 ((lastTx h).1.tai + (lastTx h).2) ((lastRx h).1.tai + (lastRx h).2)) ∧ TaiLaw h

/-- Whenever a sample is pushed, the steps made since each of its stamps add up to 0. -/
def StepFree : PeerHistory F → Prop
  | [] => True
  | (s, a) :: h => (pushes s a ≠ [] → (lastTx h).2 = 0 ∧ (lastRx h).2 = 0) ∧ StepFree h

/-- Whenever a sample is pushed, the steps made between its two stamps add up to 0. -/
def StepFreeBetween : PeerHistory F → Prop
  | [] => True
  | (s, a) :: h => (pushes s a ≠ [] → (lastTx h).2 = (lastRx h).2) ∧ StepFreeBetween h

/-! ## The stamps of the peer -/

/-- **The peer holds the stamps as they were taken**, whatever steps were made since. -/
theorem stamps_of_run {ipAddr ipSubnet ipAddress : BitVec 32} {h : PeerHistory F} {s : Link F}
    (hrun : Run Link.step (Link.init ipAddr ipSubnet ipAddress) h s) :
    s.peer.local_tx_hw = (lastTx h).1 ∧ s.peer.local_rx_hw = (lastRx h).1 := by
  refine hrun.invariant (I := fun h s => s.peer.local_tx_hw = (lastTx h).1 ∧
    s.peer.local_rx_hw = (lastRx h).1) ⟨rfl, rfl⟩ fun h s a s' ⟨htx, hrx⟩ hs => ?_
  cases Link.step_cases hs with
  | run env accepted =>
      obtain ⟨h1, h2⟩ := (s.peer.run_cases env).stamps
      exact ⟨h1.trans htx, h2.trans hrx⟩
  | dropped packet stamps h0 =>
      rw [lastRx, if_neg fun hacc : accepts s packet => hacc.2.2 h0]
      exact ⟨htx, hrx⟩
  | receive packet stamps h0 =>
      have hcase := s.peer.receive_cases packet stamps
      rw [lastRx]
      show (s.peer.receive packet stamps).pollState.local_tx_hw = _ ∧
        (s.peer.receive packet stamps).pollState.local_rx_hw = _
      generalize (s.peer.receive packet stamps).pollState = q at hcase
      cases hcase with
      | basic hx ho => rw [if_pos ⟨hx, ho, h0⟩]; exact ⟨htx, rfl⟩
      | interleaved hx ho =>
          rw [if_neg fun hacc : accepts s packet => by simp [hacc.1] at hx]
          exact ⟨htx, hrx⟩
      | unsolicited ho =>
          rw [if_neg fun hacc : accepts s packet => ho hacc.2.1]
          exact ⟨htx, hrx⟩
  | sent stamps hsending => exact ⟨rfl, hrx⟩
  | arpReply macAddr env =>
      have hq := s.peer.arpCallback_pollState macAddr env
      exact ⟨(congrArg PollState.local_tx_hw hq).trans htx,
        (congrArg PollState.local_rx_hw hq).trans hrx⟩
  | setTaiClock offset => exact ⟨htx, hrx⟩

/-! ## The average -/

/-- Two stamps that are moved together move their average. -/
theorem avg64_add (a b x : BitVec 64) : avg64 (a + x) (b + x) = avg64 a b + x := by
  have h : b + x - (a + x) = b - a := by ring
  rw [avg64, avg64, h]
  ring

/-! ## Steps and samples -/

/-- A sample on the old time scale: its local time is the average of the stamps as they were
taken. -/
theorem taiLocal_of_mem_pushes {ipAddr ipSubnet ipAddress : BitVec 32} {h : PeerHistory F}
    {s : Link F} (hrun : Run Link.step (Link.init ipAddr ipSubnet ipAddress) h s)
    {a : PeerAction F} {smp : Sample} (hsmp : smp ∈ pushes s a) :
    smp.taiLocal = avg64 (lastTx h).1.tai (lastRx h).1.tai := by
  obtain ⟨htx, hrx⟩ := stamps_of_run hrun
  cases a with
  | run env accepted =>
      rw [(s.peer.run_cases env).eq_pollSample hsmp, ← htx, ← hrx]
      rfl
  | _ => cases hsmp

/-- **Samples are on the time scale in force** if no hard step was made since their stamps were
taken; and if steps were made, but none between the two stamps, only then. -/
theorem taiLaw_of_stepFree {ipAddr ipSubnet ipAddress : BitVec 32} {h : PeerHistory F}
    {s : Link F} (hrun : Run Link.step (Link.init ipAddr ipSubnet ipAddress) h s) :
    (StepFree h → TaiLaw h) ∧ (StepFreeBetween h → (TaiLaw h ↔ StepFree h)) := by
  induction hrun with
  | start => exact ⟨fun _ => trivial, fun _ => Iff.rfl⟩
  | @next h s a s' hrun hs ih =>
      refine ⟨fun hfree => ⟨fun smp hsmp => ?_, ih.1 hfree.2⟩, fun hbetween =>
        and_congr ⟨fun hlaw hne => ?_, fun hfree smp hsmp => ?_⟩ (ih.2 hbetween.2)⟩
      · obtain ⟨h1, h2⟩ := hfree.1 (List.ne_nil_of_mem hsmp)
        rw [taiLocal_of_mem_pushes hrun hsmp, h1, h2, add_zero, add_zero]
      · obtain ⟨smp, hsmp⟩ := List.exists_mem_of_ne_nil _ hne
        have hlaw := hlaw smp hsmp
        rw [taiLocal_of_mem_pushes hrun hsmp, hbetween.1 hne, avg64_add] at hlaw
        have h0 : (lastRx h).2 = 0 := left_eq_add.mp hlaw
        exact ⟨(hbetween.1 hne).trans h0, h0⟩
      · obtain ⟨h1, h2⟩ := hfree (List.ne_nil_of_mem hsmp)
        rw [taiLocal_of_mem_pushes hrun hsmp, h1, h2, add_zero, add_zero]

instance decidableTaiLaw : (h : PeerHistory F) → Decidable (TaiLaw h)
  | [] => isTrue trivial
  | (s, a) :: h =>
      have := decidableTaiLaw h
      inferInstanceAs (Decidable ((∀ smp ∈ pushes s a, smp.taiLocal =
        avg64 ((lastTx h).1.tai + (lastTx h).2) ((lastRx h).1.tai + (lastRx h).2)) ∧ TaiLaw h))

instance decidableStepFree : (h : PeerHistory F) → Decidable (StepFree h)
  | [] => isTrue trivial
  | (s, a) :: h =>
      have := decidableStepFree h
      inferInstanceAs (Decidable ((pushes s a ≠ [] → (lastTx h).2 = 0 ∧ (lastRx h).2 = 0) ∧
        StepFree h))

/-- The clock is stepped by one second between the response and the end of the poll. -/
def stepInPoll : List (PeerAction Nano) :=
  [.run (atSecond 1) true, .sent (stampsAt 1), .receive (responseTo 1) (stampsAt 1),
    .setTaiClock (1 <<< 32), .run (atSecond 1) false]

/-- The sample is a second off. -/
theorem not_taiLaw_stepInPoll :
    ∃ h s, Run Link.step remoteServer h s ∧ s.peer.newest.taiLocal = 1 <<< 32 ∧ ¬ TaiLaw h := by
  obtain ⟨h, s, hrun, hp⟩ := @exists_run_of_replay _ _ Link.step remoteServer stepInPoll
    (fun h s => decide (s.peer.newest.taiLocal = 1 <<< 32 ∧ ¬ TaiLaw h)) (by decide +kernel)
  exact ⟨h, s, hrun, of_decide_eq_true hp⟩

/-- The clock is stepped before the request and after the sample. -/
def stepsAround : List (PeerAction Nano) :=
  [.setTaiClock (1 <<< 32), .run (atSecond 1) true, .sent (stampsAt 1),
    .receive (responseTo 1) (stampsAt 1), .run (atSecond 1) false, .setTaiClock (1 <<< 32)]

theorem taiLaw_of_stepFree_stepsAround :
    ∃ h s, Run Link.step remoteServer h s ∧ s.peer.newest.taiLocal = 2 <<< 32 ∧ TaiLaw h := by
  obtain ⟨h, s, hrun, hp⟩ := @exists_run_of_replay _ _ Link.step remoteServer stepsAround
    (fun h s => decide (s.peer.newest.taiLocal = 2 <<< 32 ∧ StepFree h)) (by decide +kernel)
  obtain ⟨htai, hfree⟩ := of_decide_eq_true hp
  exact ⟨h, s, hrun, htai, (taiLaw_of_stepFree hrun).1 hfree⟩

end Gpsdo.Ntp
