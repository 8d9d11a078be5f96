import Gpsdo.Basic.Run
import Gpsdo.Ntp.Peer

set_option autoImplicit false

/-! # A peer and its packets

The machine of one peer: the scheduler runs its task, the network hands it packets and the
transmit stamps of its requests, ARP answers, and the TAI clock is stepped. All these come in any
order, and a packet may be anything. Of a peer the machine only looks at the state of its poll
(`PollState`): `run_cases` and `receive_cases` say all that the task and a packet do to it.
-/

namespace Gpsdo.Ntp

variable {F : Type}

/-! ## The state of a poll -/

/-- The fields of `class Peer` that belong to the current poll. -/
structure PollState where
  filterTx : BitVec 64
  filterRx : BitVec 64
  local_tx_hw : Stamps
  remote_rx : BitVec 64
  remote_tx : BitVec 64
  local_rx_hw : Stamps
  pollActive : Bool
  pollXleave : Bool
  pktSent : Bool
  pktRecv : Bool
  deriving DecidableEq, Repr

namespace Peer

def pollState (p : Peer F) : PollState where
  filterTx := p.filterTx
  filterRx := p.filterRx
  local_tx_hw := p.local_tx_hw
  remote_rx := p.remote_rx
  remote_tx := p.remote_tx
  local_rx_hw := p.local_rx_hw
  pollActive := p.pollActive
  pollXleave := p.pollXleave
  pktSent := p.pktSent
  pktRecv := p.pktRecv

end Peer

/-- The requests among the outputs whose transmit stamp is asked for: their `txTime`s. -/
def requests (out : List Output) : List (BitVec 64) :=
  out.filterMap fun
    | .transmit _ _ packet true => some packet.txTime
    | _ => none

/-- The samples that are pushed. -/
def samples (out : List Output) : List Sample :=
  out.filterMap fun
    | .sample smp => some smp
    | _ => none

@[simp] theorem requests_append (out out' : List Output) :
    requests (out ++ out') = requests out ++ requests out' := List.filterMap_append

@[simp] theorem samples_append (out out' : List Output) :
    samples (out ++ out') = samples out ++ samples out' := List.filterMap_append

/-! ## The branches of the task -/

/-- At most an interval of the task is set. -/
def Adjusts (out : List Output) : Prop := out = [] ∨ ∃ interval, out = [.runAdjust interval]

theorem Adjusts.nil : Adjusts [] := Or.inl rfl

theorem Adjusts.one (interval : BitVec 32) : Adjusts [.runAdjust interval] := Or.inr ⟨interval, rfl⟩

theorem Adjusts.requests {out out' : List Output} (h : Adjusts out') :
    requests (out ++ out') = requests out := by
  rw [requests_append]
  rcases h with rfl | ⟨interval, rfl⟩ <;> exact List.append_nil _

theorem Adjusts.samples {out out' : List Output} (h : Adjusts out') :
    samples (out ++ out') = samples out := by
  rw [samples_append]
  rcases h with rfl | ⟨interval, rfl⟩ <;> exact List.append_nil _

theorem Adjusts.not_mem {out : List Output} (h : Adjusts out) (addr : BitVec 32) :
    Output.ARP_request addr ∉ out := by
  rcases h with rfl | ⟨interval, rfl⟩ <;> simp

/-- The branches of `pollStep`. -/
inductive PollBranch (p : Peer F) (env : Env F) : Bool × Peer F × List Output → Prop
  | send (hs : p.pktSent = false) :
      PollBranch p env (true, ({ p with pktSent := true, pktRecv := false } : Peer F).pollSend env)
  /-- The follow-up request of a local timeserver. -/
  | followUp (hs : p.pktSent = true) (hr : p.pktRecv = true) (hx : p.pollXleave = false) :
      PollBranch p env
        (true, ({ p with pktRecv := false, pollXleave := true } : Peer F).pollSend env)
  | received (hs : p.pktSent = true) (hr : p.pktRecv = true) :
      PollBranch p env (false, ({ p with pktRecv := false } : Peer F).pollEnd env)
  /-- The fallback to the original response. -/
  | fallback (hs : p.pktSent = true) (hr : p.pktRecv = false) (hx : p.pollXleave = true) :
      PollBranch p env
        (false, { (({ p with xleave := false } : Peer F).pollEnd env).1 with pollActive := false },
          (({ p with xleave := false } : Peer F).pollEnd env).2)
  | timeout (hs : p.pktSent = true) (hr : p.pktRecv = false) (hx : p.pollXleave = false) :
      PollBranch p env (false, { p with pollActive := false }, [])
  | wait (hs : p.pktSent = true) (hr : p.pktRecv = false) : PollBranch p env (false, p, [])

/-- The branches of `run`. -/
inductive RunBranch [Single F] (p : Peer F) (env : Env F) : Peer F × List Output → Prop
  | poll (h : p.pollActive = true) {wait trim : BitVec 32} {out : List Output} (ho : Adjusts out) :
      RunBranch p env ({ (p.pollRun env).2.1 with pollWait := wait, pollTrim := trim },
        (p.pollRun env).2.2 ++ out)
  /-- The Ethernet clock is not captured. -/
  | idle (h : p.pollActive = false) (interval : BitVec 32) :
      RunBranch p env (p, [.runAdjust interval])
  /-- The MAC address is not known, or the wait is not over. -/
  | wait (h : p.pollActive = false) {wait : BitVec 32} {out : List Output} (ho : Adjusts out) :
      RunBranch p env ({ (p.isMacInvalid env).2.1 with pollWait := wait },
        (p.isMacInvalid env).2.2 ++ out)
  | start (h : p.pollActive = false) (hmac : (p.isMacInvalid env).1 = false)
      (hwait : (p.isMacInvalid env).2.1.pollWait = 0) :
      RunBranch p env (((p.isMacInvalid env).2.1.startPoll env).1,
        (p.isMacInvalid env).2.2 ++ ((p.isMacInvalid env).2.1.startPoll env).2)

/-- What `updateStatus` does to a source. -/
structure StatusUpdate (src src' : Source F) : Prop where
  /-- Nothing else is written. -/
  writes : src' = { src with
    lost := src'.lost, pollCounter := src'.pollCounter, poll := src'.poll, prune := src'.prune }
  found : src.reach &&& 0xF ≠ 0 → src'.lost = false
  lost : src.reach &&& 0xF = 0 → src.lost = true → src'.lost = true
  /-- The exponent moves by one step, or not at all. -/
  poll : src'.poll = src.poll ∨
    src.poll < src.maxPoll ∧
        src'.poll = (if src.poll + 1 < src.minPoll then src.minPoll else src.poll + 1) ∨
      src'.poll = if src.minPoll < src.poll then src.poll - 1 else src.poll

namespace Peer

theorem pollStep_branch (p : Peer F) (env : Env F) : PollBranch p env (p.pollStep env) := by
  unfold pollStep
  by_cases hs : p.pktSent = false
  · rw [if_pos hs]
    exact .send hs
  rw [if_neg hs]
  have hs : p.pktSent = true := by simpa using hs
  by_cases hr : p.pktRecv = true
  · rw [if_pos hr]
    dsimp only
    split
    · rename_i hx
      have hx : p.pollXleave = false := by simpa using (Bool.and_eq_true_iff.mp hx).1
      exact .followUp hs hr hx
    · exact .received hs hr
  · rw [if_neg hr]
    have hr : p.pktRecv = false := by simpa using hr
    split
    · by_cases hx : p.pollXleave = true
      · rw [if_pos hx]
        exact .fallback hs hr hx
      · rw [if_neg hx]
        exact .timeout hs hr (by simpa using hx)
    · exact .wait hs hr

/-- The poll goes on, or it has ended and the status is updated. -/
theorem pollRun_branch [Single F] (p : Peer F) (env : Env F) :
    (p.pollRun env = (true, (p.pollStep env).2) ∧
        ((p.pollStep env).1 = true ∨ (p.pollStep env).2.1.pollActive = true)) ∨
      p.pollRun env = (false, (p.pollStep env).2.1.updateStatus, (p.pollStep env).2.2) ∧
        (p.pollStep env).1 = false ∧ (p.pollStep env).2.1.pollActive = false := by
  dsimp only [pollRun]
  by_cases hret : (p.pollStep env).1 = true
  · exact Or.inl ⟨if_pos hret, Or.inl hret⟩
  rw [if_neg hret]
  by_cases hdone : (p.pollStep env).2.1.pollActive = false
  · exact Or.inr ⟨if_pos hdone, by simpa using hret, hdone⟩
  · exact Or.inl ⟨if_neg hdone, Or.inr (by simpa using hdone)⟩

theorem run_branch [Single F] (p : Peer F) (env : Env F) : RunBranch p env (p.run env) := by
  unfold run
  by_cases h : p.pollActive = true
  · rw [if_pos h]
    dsimp only
    split
    · have hsame : RunBranch p env ((p.pollRun env).2.1, (p.pollRun env).2.2 ++ []) := .poll h .nil
      rwa [List.append_nil] at hsame
    · exact .poll h (.one _)
  · rw [if_neg h]
    have h : p.pollActive = false := by simpa using h
    split
    · exact .idle h _
    · dsimp only
      split
      · exact .wait h (.one _)
      · rename_i hmac
        split
        · refine .wait h ?_
          split
          · exact .one _
          · exact .nil
        · rename_i hwait
          exact .start h (by simpa using hmac) (not_not.mp hwait)

theorem updateStatus_spec [Single F] (p : Peer F) :
    StatusUpdate p.toSource p.updateStatus.toSource := by
  have hlost : ∀ src : Source F,
      (if src.reach &&& 0xF ≠ 0 then { src with lost := false } else src) =
        { src with lost := if src.reach &&& 0xF ≠ 0 then false else src.lost } := by
    intro src
    split <;> rfl
  simp only [updateStatus, hlost]
  generalize (if p.pollCounter + 1 = 0 then -1 else p.pollCounter + 1) = counter
  by_cases hup : p.sampleCount = MAX_HISTORY ∧ p.reach &&& 0xFF = 0xFF ∧ 8 ≤ counter ∧
      p.poll < p.maxPoll
  · rw [if_pos hup]
    exact ⟨rfl, fun h => if_pos h, fun h hl => (if_neg (not_not.mpr h)).trans hl,
      Or.inr (Or.inl ⟨hup.2.2.2, rfl⟩)⟩
  · rw [if_neg hup]
    by_cases hdown : p.reach &&& 0xF = 0 ∧ 4 ≤ counter
    · rw [if_pos hdown]
      exact ⟨rfl, fun h => absurd hdown.1 h, fun _ _ => rfl, Or.inr (Or.inr rfl)⟩
    · rw [if_neg hdown]
      exact ⟨rfl, fun h => if_pos h, fun h hl => (if_neg (not_not.mpr h)).trans hl, Or.inl rfl⟩
end Peer

/-! ## What the task does -/

/-- The next state of the poll, the request sent and the sample pushed, by an activation of
the task. -/
inductive RunCase (p : Peer F) (env : Env F) :
    PollState → List (BitVec 64) → List Sample → Prop
  | idle (h : p.pollActive = false) : RunCase p env p.pollState [] []
  | start (h : p.pollActive = false) :
      RunCase p env { p.pollState with
        pollActive := true, pollXleave := false, filterTx := htonll env.now, filterRx := 0,
        pktSent := true } [htonll env.now] []
  | resend (h : p.pollActive = true) (hs : p.pktSent = false) {q : PollState}
      {req : List (BitVec 64)}
      (hq : q = { p.pollState with
        filterTx := q.filterTx, filterRx := q.filterRx, pktSent := true, pktRecv := false }) :
      RunCase p env q req []
  | followUp (h : p.pollActive = true) (hs : p.pktSent = true) (hr : p.pktRecv = true)
      (hx : p.pollXleave = false) :
      RunCase p env { p.pollState with
        pollXleave := true, filterTx := htonll p.local_tx_hw.mono,
        filterRx := htonll p.local_rx_hw.mono, pktRecv := false } [] []
  | push (h : p.pollActive = true) (hs : p.pktSent = true)
      (hr : p.pktRecv = true ∨ p.pollXleave = true) (hst : p.stratum ≤ 15) {q : PollState}
      (hq : q = { p.pollState with pollActive := false, pktRecv := false }) :
      RunCase p env q [] [p.pollSample env]
  /-- Nothing came, or the response is dropped: the poll goes on or has timed out. -/
  | noSample (h : p.pollActive = true) (hs : p.pktSent = true) {q : PollState}
      (hq : q = { p.pollState with pollActive := q.pollActive, pktRecv := false }) :
      RunCase p env q [] []

namespace Peer

/-- `pollSend` of an interleaved request. -/
theorem pollSend_xleave {p : Peer F} (env : Env F) (hx : p.pollXleave = true) :
    (p.pollSend env).1.pollState =
        { p.pollState with
          filterTx := htonll p.local_tx_hw.mono, filterRx := htonll p.local_rx_hw.mono } ∧
      requests (p.pollSend env).2 = [] ∧ samples (p.pollSend env).2 = [] := by
  simp [pollSend, hx, pollState, requests, samples]

theorem updateMac_spec (p : Peer F) (env : Env F) :
    (p.updateMac env).1.pollState = p.pollState ∧
      requests (p.updateMac env).2 = [] ∧ samples (p.updateMac env).2 = [] := by
  dsimp only [updateMac]
  split <;> exact ⟨rfl, rfl, rfl⟩

theorem isMacInvalid_spec (p : Peer F) (env : Env F) :
    (p.isMacInvalid env).2.1.pollState = p.pollState ∧
      requests (p.isMacInvalid env).2.2 = [] ∧ samples (p.isMacInvalid env).2.2 = [] := by
  dsimp only [isMacInvalid]
  split
  · exact updateMac_spec p env
  · exact ⟨rfl, rfl, rfl⟩

/-- `pollEnd` pushes a sample and ends the poll, unless the response is dropped. -/
theorem pollEnd_push {p : Peer F} (env : Env F) (hst : p.stratum ≤ 15) :
    p.pollEnd env =
      ({ p with
          toSource := { p.toSource with reach := p.reach ||| 1 }.push (p.pollSample env) env.stats
            env.now,
          pollActive := false }, [.sample (p.pollSample env)]) := by
  rw [pollEnd, if_neg (Nat.not_lt.mpr hst)]

theorem pollEnd_drop {p : Peer F} (env : Env F) (hst : 15 < p.stratum) :
    p.pollEnd env = (p, []) := by
  rw [pollEnd, if_pos hst]

theorem startPoll_spec (p : Peer F) (env : Env F) :
    (p.startPoll env).1.pollState = { p.pollState with
        pollActive := true, pollXleave := false, filterTx := htonll env.now, filterRx := 0,
        pktSent := true } ∧
      requests (p.startPoll env).2 = [htonll env.now] ∧ samples (p.startPoll env).2 = [] :=
  ⟨rfl, rfl, rfl⟩

/-- The task, up to the end of a burst. -/
theorem pollStep_cases (p : Peer F) (env : Env F) (h : p.pollActive = true) :
    RunCase p env (p.pollStep env).2.1.pollState (requests (p.pollStep env).2.2)
      (samples (p.pollStep env).2.2) := by
  have hbranch := p.pollStep_branch env
  generalize p.pollStep env = r at hbranch ⊢
  cases hbranch with
  | send hs => exact .resend h hs (by cases hx : p.pollXleave <;> simp [pollSend, pollState, hx])
  | followUp hs hr hx =>
      obtain ⟨h1, h2, h3⟩ := pollSend_xleave
        (p := { p with pktRecv := false, pollXleave := true }) env rfl
      rw [h1, h2, h3]
      exact .followUp h hs hr hx
  | received hs hr =>
      rcases Nat.lt_or_ge 15 p.stratum with hst | hst
      · rw [show ({ p with pktRecv := false } : Peer F).pollEnd env = _ from pollEnd_drop env hst]
        exact .noSample h hs (by simp [pollState])
      · rw [show ({ p with pktRecv := false } : Peer F).pollEnd env = _ from pollEnd_push env hst]
        exact .push h hs (Or.inl hr) hst rfl
  | fallback hs hr hx =>
      rcases Nat.lt_or_ge 15 p.stratum with hst | hst
      · rw [show ({ p with xleave := false } : Peer F).pollEnd env = _ from pollEnd_drop env hst]
        exact .noSample h hs (by simp [pollState, hr])
      · rw [show ({ p with xleave := false } : Peer F).pollEnd env = _ from pollEnd_push env hst]
        exact .push h hs (Or.inr hx) hst (by simp [pollState, hr])
  | timeout hs hr hx => exact .noSample h hs (by simp [pollState, hr])
  | wait hs hr => exact .noSample h hs (by simp [pollState, hr])

variable [Single F]

theorem pollRun_cases (p : Peer F) (env : Env F) (h : p.pollActive = true) :
    RunCase p env (p.pollRun env).2.1.pollState (requests (p.pollRun env).2.2)
      (samples (p.pollRun env).2.2) := by
  have hstep := pollStep_cases p env h
  rcases p.pollRun_branch env with ⟨hrun, -⟩ | ⟨hrun, -⟩ <;> rw [hrun] <;> exact hstep

/-- **All that an activation of the task does to the poll.** -/
theorem run_cases (p : Peer F) (env : Env F) :
    RunCase p env (p.run env).1.pollState (requests (p.run env).2) (samples (p.run env).2) := by
  have hbranch := p.run_branch env
  generalize p.run env = r at hbranch ⊢
  obtain ⟨h1, h2, h3⟩ := isMacInvalid_spec p env
  cases hbranch with
  | poll h ho =>
      rw [ho.requests, ho.samples]
      exact pollRun_cases p env h
  | idle h interval => exact .idle h
  | wait h ho =>
      rw [ho.requests, ho.samples, h2, h3]
      exact h1.symm ▸ RunCase.idle h
  | start h _ _ =>
      obtain ⟨g1, g2, g3⟩ := startPoll_spec (p.isMacInvalid env).2.1 env
      rw [requests_append, samples_append, g1, g2, g3, h1, h2, h3]
      exact .start h

end Peer

/-- The task does not touch the time stamps. -/
theorem RunCase.stamps {p : Peer F} {env : Env F} {q : PollState} {req : List (BitVec 64)}
    {smps : List Sample} (h : RunCase p env q req smps) :
    q.local_tx_hw = p.local_tx_hw ∧ q.local_rx_hw = p.local_rx_hw := by
  cases h with
  | resend h hs hq => rw [hq]; exact ⟨rfl, rfl⟩
  | push h hs hr hst hq => rw [hq]; exact ⟨rfl, rfl⟩
  | noSample h hs hq => rw [hq]; exact ⟨rfl, rfl⟩
  | _ => exact ⟨rfl, rfl⟩

/-- A sample is the one that `pollEnd` computes from the stamps the peer holds. -/
theorem RunCase.eq_pollSample {p : Peer F} {env : Env F} {q : PollState}
    {req : List (BitVec 64)} {smps : List Sample} (h : RunCase p env q req smps) {smp : Sample}
    (hsmp : smp ∈ smps) : smp = p.pollSample env := by
  cases h with
  | push => exact List.mem_singleton.mp hsmp
  | _ => cases hsmp

/-! ## What a packet does -/

/-- The next state of the poll when a packet is handed to the peer. -/
inductive ReceiveCase (p : Peer F) (packet : HeaderNtp) (stamps : Stamps) : PollState → Prop
  | basic (hx : p.pollXleave = false) (ho : packet.origTime = p.filterTx) :
      ReceiveCase p packet stamps { p.pollState with
        filterTx := 0, pktRecv := true, local_rx_hw := stamps, remote_rx := packet.rxTime,
        remote_tx := packet.txTime }
  | interleaved (hx : p.pollXleave = true)
      (ho : packet.origTime = p.filterTx ∨ packet.origTime = p.filterRx) {remote_tx : BitVec 64} :
      ReceiveCase p packet stamps { p.pollState with pktRecv := true, remote_tx := remote_tx }
  | unsolicited (ho : packet.origTime ≠ p.filterTx) : ReceiveCase p packet stamps p.pollState

theorem Peer.receive_cases (p : Peer F) (packet : HeaderNtp) (stamps : Stamps) :
    ReceiveCase p packet stamps (p.receive packet stamps).pollState := by
  dsimp only [receive]
  split
  · rename_i hx
    split
    · rename_i ho
      exact .interleaved hx (Or.inl ho)
    · split
      · rename_i ho _
        exact .unsolicited ho
      · rename_i ho
        exact .interleaved hx (Or.inr (not_not.mp ho))
  · rename_i hx
    split
    · rename_i ho
      exact .unsolicited ho
    · rename_i ho
      exact .basic (by simpa using hx) (not_not.mp ho)

theorem Peer.arpCallback_pollState (p : Peer F) (macAddr : BitVec 48) (env : Env F) :
    (p.arpCallback macAddr env).1.pollState = p.pollState := by
  unfold arpCallback
  split
  · exact (updateMac_spec p env).1
  · rfl

/-! ## The machine -/

/-- A peer, and the `txTime`s of its basic requests that the network has taken but not sent yet,
the oldest first: the transmit ring keeps their order. -/
structure Link (F : Type) where
  peer : Peer F
  sending : List (BitVec 64)

/-- What happens to a peer. -/
inductive PeerAction (F : Type)
  /-- The task runs; `network::transmit` takes its request, or the transmit ring is full. -/
  | run (env : Env F) (accepted : Bool)
  /-- A server packet from the address of the peer. -/
  | receive (packet : HeaderNtp) (stamps : Stamps)
  /-- The oldest request has been sent. -/
  | sent (stamps : Stamps)
  | arpReply (macAddr : BitVec 48) (env : Env F)
  /-- The TAI clock is stepped: `ntpApplyOffset` reaches the peer. -/
  | setTaiClock (offset : BitVec 64)

namespace Link

variable [Single F]

def init (ipAddr ipSubnet ipAddress : BitVec 32) : Link F :=
  ⟨Peer.new ipAddr ipSubnet ipAddress, []⟩

/-- `ntpResponse` hands no packet on whose `origTime` is 0. -/
def step (s : Link F) : PeerAction F → Option (Link F)
  | .run env accepted =>
      some ⟨(s.peer.run env).1,
        s.sending ++ if accepted then requests (s.peer.run env).2 else []⟩
  | .receive packet stamps =>
      some (if packet.origTime = 0 then s
        else { s with peer := s.peer.receive packet stamps })
  | .sent stamps =>
      match s.sending with
      | [] => none
      | _ :: sending => some ⟨s.peer.txCallback stamps, sending⟩
  | .arpReply macAddr env => some { s with peer := (s.peer.arpCallback macAddr env).1 }
  | .setTaiClock offset =>
      some { s with peer := { s.peer with toSource := s.peer.applyOffset offset } }

/-- All that can happen in a step. -/
inductive StepCase (s : Link F) : PeerAction F → Link F → Prop
  | run (env : Env F) (accepted : Bool) :
      StepCase s (.run env accepted) ⟨(s.peer.run env).1,
        s.sending ++ if accepted then requests (s.peer.run env).2 else []⟩
  | dropped (packet : HeaderNtp) (stamps : Stamps) (h0 : packet.origTime = 0) :
      StepCase s (.receive packet stamps) s
  | receive (packet : HeaderNtp) (stamps : Stamps) (h0 : packet.origTime ≠ 0) :
      StepCase s (.receive packet stamps) { s with peer := s.peer.receive packet stamps }
  | sent (stamps : Stamps) {request : BitVec 64} {sending : List (BitVec 64)}
      (hsending : s.sending = request :: sending) :
      StepCase s (.sent stamps) ⟨s.peer.txCallback stamps, sending⟩
  | arpReply (macAddr : BitVec 48) (env : Env F) :
      StepCase s (.arpReply macAddr env)
        { s with peer := (s.peer.arpCallback macAddr env).1 }
  | setTaiClock (offset : BitVec 64) :
      StepCase s (.setTaiClock offset)
        { s with peer := { s.peer with toSource := s.peer.applyOffset offset } }

theorem step_cases {s s' : Link F} {a : PeerAction F} (h : s.step a = some s') :
    StepCase s a s' := by
  cases a with
  | run env accepted =>
      obtain rfl := Option.some.inj h
      exact .run env accepted
  | receive packet stamps =>
      obtain rfl := Option.some.inj h
      split
      · exact .dropped packet stamps ‹_›
      · exact .receive packet stamps ‹_›
  | sent stamps =>
      simp only [step] at h
      split at h
      · cases h
      · obtain rfl := Option.some.inj h
        exact .sent stamps ‹_›
  | arpReply macAddr env =>
      obtain rfl := Option.some.inj h
      exact .arpReply macAddr env
  | setTaiClock offset =>
      obtain rfl := Option.some.inj h
      exact .setTaiClock offset

end Link

/-- The history of a run of the machine, newest first. -/
abbrev PeerHistory (F : Type) := List (Link F × PeerAction F)

section events

variable [Single F]

/-- The requests that the task sends in a step. -/
def asks (s : Link F) : PeerAction F → List (BitVec 64)
  | .run env _ => requests (s.peer.run env).2
  | _ => []

/-- The samples that the task pushes in a step. -/
def pushes (s : Link F) : PeerAction F → List Sample
  | .run env _ => samples (s.peer.run env).2
  | _ => []

end events

/-! ## A timeserver to look at -/

/-- A timeserver in another subnet. -/
def remoteServer : Link Nano := Link.init 0x04030201 0x00FFFFFF 0x0100000A

/-- The rest of the firmware at a time in seconds. -/
def atSecond (now : Nat) : Env Nano where
  now := BitVec.ofNat 64 now <<< 32
  seconds := BitVec.ofNat 32 now
  ppsEthernetRaw := 1
  random := 0
  ipAddress := 0x0100000A
  ipSubnet := 0x00FFFFFF
  macRouter := 1
  clkTaiUtcOffset := 0
  stats := ⟨1, ⟨0⟩, ⟨0⟩, ⟨0⟩, ⟨0⟩⟩

/-- The stamps of a packet at a time in seconds. -/
def stampsAt (now : Nat) : Stamps :=
  ⟨BitVec.ofNat 64 now <<< 32, BitVec.ofNat 64 now <<< 32, BitVec.ofNat 64 now <<< 32⟩

/-- The response to the request that was sent at a time in seconds. -/
def responseTo (now : Nat) : HeaderNtp where
  mode := 4
  version := 4
  status := 0
  stratum := 1
  poll := 4
  precision := 0
  rootDelay := 0
  rootDispersion := 0
  refID := 0
  refTime := 0
  origTime := htonll (BitVec.ofNat 64 now <<< 32)
  rxTime := 7
  txTime := 8

end Gpsdo.Ntp
