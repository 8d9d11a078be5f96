import Gpsdo.Ntp.Poll

set_option autoImplicit false

/-! # Samples and exchanges

A sample is made of the transmit stamp of a request and of the receive stamp and the contents of
its response. `receive` accepts a response when its `origTime` is `filterTx`, the `txTime` of the
last basic request, also when the poll of that request has timed out. It then sets `pktRecv`, and
`Peer::run` does not clear `pktRecv` when it starts the next poll. So the next poll can take the old
response for its own, and push a sample with the stamps of two exchanges. While each poll only
takes its own response, every sample belongs to one exchange.
-/

namespace Gpsdo.Ntp

variable {F : Type} [Single F]

/-! ## What happened on the network -/

/-- The `txTime`s of the basic requests, the last one first. -/
def asked : PeerHistory F → List (BitVec 64)
  | [] => []
  | (s, a) :: h => asks s a ++ asked h

/-- The basic requests that were sent, with their transmit stamps, the last one first. -/
def completed : PeerHistory F → List (BitVec 64 × Stamps)
  | [] => []
  | (s, .sent stamps) :: h => (s.sending.head?.map (·, stamps)).toList ++ completed h
  | _ :: h => completed h

/-- The first response to the last request since it was made, with its receive stamps. -/
def answer : PeerHistory F → Option (HeaderNtp × Stamps)
  | [] => none
  | (s, a) :: h =>
      if asks s a ≠ [] then none
      else match a with
        | .receive packet stamps =>
            (answer h).or
              (if (asked h).head? = some packet.origTime then some (packet, stamps) else none)
        | _ => answer h

/-- Requests are told apart by their `txTime`, which is never 0. -/
def DistinctRequests (h : PeerHistory F) : Prop := (asked h).Nodup ∧ 0 ∉ asked h

/-- A response to a request comes after the transmit stamp of the request. -/
def CallbackFirst : PeerHistory F → Prop
  | [] => True
  | (_, .receive packet _) :: h =>
      (packet.origTime ∈ asked h → packet.origTime ∈ (completed h).map Prod.fst) ∧ CallbackFirst h
  | _ :: h => CallbackFirst h

/-! ## The law -/

/-- The stamps are those of the request of the current poll, and of one response to it that came
since. -/
def Exchange (h : PeerHistory F) (q : PollState) : Prop :=
  ∃ request packet, (asked h).head? = some request ∧
    (completed h).head? = some (request, q.local_tx_hw) ∧
    answer h = some (packet, q.local_rx_hw) ∧ packet.origTime = request ∧
    packet.rxTime = q.remote_rx

/-- Every sample was pushed from the stamps of one exchange. -/
def OneExchange : PeerHistory F → Prop
  | [] => True
  | (s, a) :: h => (pushes s a ≠ [] → Exchange h s.peer.pollState) ∧ OneExchange h

/-- The task finds the flag `pktRecv` of a basic request set only when the response to that
request was accepted, which clears `filterTx`. -/
def TakesOwn (s : Link F) : PeerAction F → Prop
  | .run _ _ => s.peer.pollActive = true → s.peer.pktRecv = true → s.peer.pollXleave = false →
      s.peer.filterTx = 0
  | _ => True

instance (s : Link F) : (a : PeerAction F) → Decidable (TakesOwn s a)
  | .run _ _ => inferInstanceAs (Decidable (_ → _ → _ → _))
  | .receive _ _ => isTrue trivial
  | .sent _ => isTrue trivial
  | .arpReply _ _ => isTrue trivial
  | .setTaiClock _ => isTrue trivial

/-! ## The invariant -/

/-- The poll waits for the response to its request. -/
def Waiting (h : PeerHistory F) (q : PollState) : Prop :=
  q.pollXleave = false ∧ (asked h).head? = some q.filterTx ∧ answer h = none

/-- The poll has taken the response to its request. -/
def Taken (h : PeerHistory F) (q : PollState) (sending : List (BitVec 64)) : Prop :=
  (q.pollXleave = true ∨ q.filterTx = 0) ∧ Exchange h q ∧ sending = []

structure PollInv (h : PeerHistory F) (q : PollState) (sending : List (BitVec 64)) : Prop where
  /-- The transmit ring keeps the order of the requests. -/
  fifo : (sending.reverse ++ (completed h).map Prod.fst).Sublist (asked h)
  stamp : ∀ e ∈ (completed h).head?, e.2 = q.local_tx_hw
  sent : q.pollActive = true → q.pktSent = true
  poll : q.pollActive = true → Waiting h q ∨ Taken h q sending

/-- If the last of distinct requests was sent, none is waiting in the transmit ring. -/
theorem sent_all {α : Type} {sending done asked : List α} {request : α}
    (hf : (sending.reverse ++ done).Sublist asked) (hnd : asked.Nodup)
    (hlast : asked.head? = some request) (hmem : request ∈ done) :
    sending = [] ∧ done.head? = some request := by
  obtain ⟨rest, rfl⟩ : ∃ rest, asked = request :: rest := by
    cases asked with
    | nil => cases hlast
    | cons x rest => exact ⟨rest, by rw [List.head?_cons, Option.some.injEq] at hlast; rw [hlast]⟩
  have hnot := (List.nodup_cons.mp hnd).1
  cases hl : sending.reverse ++ done with
  | nil =>
      obtain ⟨-, rfl⟩ := List.append_eq_nil_iff.mp hl
      cases hmem
  | cons x l =>
      rw [hl] at hf
      -- the request is in the list, so it is its first element
      have hx : x = request := by
        by_contra hne
        have hsub := hf.of_cons_of_ne hne
        exact hnot (hsub.subset (hl ▸ List.mem_append_right _ hmem))
      subst hx
      cases hs : sending.reverse with
      | nil =>
          rw [hs, List.nil_append] at hl
          exact ⟨List.reverse_eq_nil_iff.mp hs, by rw [hl]; rfl⟩
      | cons y l' =>
          rw [hs, List.cons_append, List.cons.injEq] at hl
          obtain ⟨rfl, rfl⟩ := hl
          have hsub := List.cons_sublist_cons.mp hf
          exact absurd (hsub.subset (List.mem_append_right _ hmem)) hnot

/-- The events of the current poll in two histories are the same. -/
structure SameEvents (h h' : PeerHistory F) : Prop where
  asked : asked h' = asked h
  completed : completed h' = completed h
  answer : answer h' = answer h

/-- A step that sends no request, completes none and brings no packet is no event. -/
theorem sameEvents_cons {h : PeerHistory F} {s : Link F} {a : PeerAction F}
    (hasks : asks s a = []) (hs : ∀ stamps, a ≠ .sent stamps)
    (hr : ∀ packet stamps, a ≠ .receive packet stamps) : SameEvents h ((s, a) :: h) := by
  cases a with
  | sent stamps => exact absurd rfl (hs stamps)
  | receive packet stamps => exact absurd rfl (hr packet stamps)
  | run env accepted => exact ⟨by simp [Ntp.asked, hasks], rfl, by simp [Ntp.answer, hasks]⟩
  | arpReply macAddr env => exact ⟨rfl, rfl, by simp [Ntp.answer, asks]⟩
  | setTaiClock offset => exact ⟨rfl, rfl, by simp [Ntp.answer, asks]⟩

/-- The exchange only depends on the events and on the stamps. -/
theorem Exchange.congr {h h' : PeerHistory F} {q q' : PollState} (he : Exchange h q)
    (hev : SameEvents h h') (q1 : q'.local_tx_hw = q.local_tx_hw)
    (q2 : q'.local_rx_hw = q.local_rx_hw) (q3 : q'.remote_rx = q.remote_rx) : Exchange h' q' := by
  unfold Exchange
  rw [hev.asked, hev.completed, hev.answer, q1, q2, q3]
  exact he

/-- No event: the invariant is kept if the poll goes on as it was, or ends. -/
theorem PollInv.quiet {h h' : PeerHistory F} {q q' : PollState} {sending : List (BitVec 64)}
    (hi : PollInv h q sending) (hev : SameEvents h h') (htx : q'.local_tx_hw = q.local_tx_hw)
    (hsent : q'.pollActive = true → q'.pktSent = true)
    (hpoll : q'.pollActive = true → Waiting h q' ∨ Taken h q' sending) :
    PollInv h' q' sending where
  fifo := by rw [hev.completed, hev.asked]; exact hi.fifo
  stamp := by rw [hev.completed, htx]; exact hi.stamp
  sent := hsent
  poll hact := by
    rcases hpoll hact with ⟨h1, h2, h3⟩ | ⟨h1, h2, h3⟩
    · exact Or.inl ⟨h1, by rw [hev.asked]; exact h2, by rw [hev.answer]; exact h3⟩
    · exact Or.inr ⟨h1, h2.congr hev rfl rfl rfl, h3⟩

/-- What is found set in `pktRecv` is the response to the request of the poll. -/
theorem PollInv.taken {h : PeerHistory F} {s : Link F} {env : Env F} {accepted : Bool}
    (hi : PollInv h s.peer.pollState s.sending) (hd : DistinctRequests h)
    (hown : TakesOwn s (.run env accepted)) (hact : s.peer.pollActive = true)
    (hr : s.peer.pktRecv = true ∨ s.peer.pollXleave = true) :
    Taken h s.peer.pollState s.sending := by
  rcases hi.poll hact with ⟨hx, hreq, -⟩ | ht
  · -- a request without response has a nonzero `filterTx`
    have hx : s.peer.pollXleave = false := hx
    have hr : s.peer.pktRecv = true := hr.resolve_right (by simp [hx])
    have h0 : s.peer.pollState.filterTx = 0 := hown hact hr hx
    rw [h0] at hreq
    exact absurd (List.mem_of_mem_head? hreq) hd.2
  · exact ht

/-- **The task keeps the invariant, and pushes the sample of one exchange.** -/
theorem PollInv.run {h : PeerHistory F} {s : Link F} (hi : PollInv h s.peer.pollState s.sending)
    (hd : DistinctRequests h) (env : Env F) (accepted : Bool)
    (hown : TakesOwn s (.run env accepted)) :
    PollInv ((s, .run env accepted) :: h) (s.peer.run env).1.pollState
        (s.sending ++ if accepted then requests (s.peer.run env).2 else []) ∧
      (pushes s (.run env accepted) ≠ [] → Exchange h s.peer.pollState) := by
  have hcase := s.peer.run_cases env
  have htaken := hi.taken hd hown
  have hasks : asks s (.run env accepted) = requests (s.peer.run env).2 := rfl
  have hpush : pushes s (.run env accepted) = samples (s.peer.run env).2 := rfl
  rw [hpush]
  generalize (s.peer.run env).1.pollState = q at hcase
  generalize requests (s.peer.run env).2 = req at hcase hasks
  generalize samples (s.peer.run env).2 = smp at hcase
  have hev : req = [] → SameEvents h ((s, .run env accepted) :: h) := fun hreq =>
    sameEvents_cons (hasks.trans hreq) (by simp) (by simp)
  cases hcase with
  | idle hact =>
      refine ⟨?_, fun hne => absurd rfl hne⟩
      rw [ite_self, List.append_nil]
      exact hi.quiet (hev rfl) rfl hi.sent hi.poll
  | start hact =>
      refine ⟨⟨?_, ?_, fun _ => rfl, fun _ => Or.inl ⟨rfl, ?_, ?_⟩⟩, fun hne => absurd rfl hne⟩
      · rw [asked, hasks]
        cases accepted with
        | true => simpa [completed] using hi.fifo
        | false => simpa [completed] using hi.fifo.cons _
      · exact hi.stamp
      · rw [asked, hasks]
        rfl
      · simp [answer, hasks]
  | resend hact hs =>
      have hsent : s.peer.pktSent = true := hi.sent hact
      rw [hs] at hsent
      cases hsent
  | followUp hact hs hr hx =>
      obtain ⟨-, hex, hsend⟩ := htaken hact (Or.inl hr)
      refine ⟨?_, fun hne => absurd rfl hne⟩
      rw [ite_self, List.append_nil]
      exact hi.quiet (hev rfl) rfl hi.sent fun _ =>
        Or.inr ⟨Or.inl rfl, hex.congr ⟨rfl, rfl, rfl⟩ rfl rfl rfl, hsend⟩
  | push hact hs hr hst hq =>
      refine ⟨?_, fun _ => (htaken hact hr).2.1⟩
      rw [ite_self, List.append_nil, hq]
      exact hi.quiet (hev rfl) rfl (fun h => by cases h) (fun h => by cases h)
  | noSample hact hs hq =>
      refine ⟨?_, fun hne => absurd rfl hne⟩
      rw [ite_self, List.append_nil, hq]
      refine hi.quiet (hev rfl) rfl (fun _ => hs) fun _ => ?_
      rcases hi.poll hact with hw | ⟨hx, hex, hsend⟩
      · exact Or.inl hw
      · exact Or.inr ⟨hx, hex.congr ⟨rfl, rfl, rfl⟩ rfl rfl rfl, hsend⟩

/-- **A packet keeps the invariant.** The response to the request of the poll comes when its
transmit stamp is there, and no later one. -/
theorem PollInv.receive {h : PeerHistory F} {s : Link F}
    (hi : PollInv h s.peer.pollState s.sending) (hd : DistinctRequests h) {packet : HeaderNtp}
    {stamps : Stamps} (h0 : packet.origTime ≠ 0)
    (hcb : packet.origTime ∈ asked h → packet.origTime ∈ (completed h).map Prod.fst) :
    PollInv ((s, .receive packet stamps) :: h) (s.peer.receive packet stamps).pollState
      s.sending := by
  have hcase := s.peer.receive_cases packet stamps
  generalize (s.peer.receive packet stamps).pollState = q at hcase
  have hans : answer ((s, .receive packet stamps) :: h) = (answer h).or
      (if (asked h).head? = some packet.origTime then some (packet, stamps) else none) := by
    simp [answer, asks]
  -- a response that was taken stays the answer
  have hev : Exchange h s.peer.pollState → SameEvents h ((s, .receive packet stamps) :: h) :=
    fun ⟨_, _, _, _, h3, _⟩ => ⟨rfl, rfl, by rw [hans, h3, Option.some_or]⟩
  cases hcase with
  | basic hx ho =>
      refine ⟨hi.fifo, hi.stamp, hi.sent, fun hact => Or.inr ?_⟩
      rcases hi.poll hact with ⟨-, hreq, hnone⟩ | ⟨hor, -⟩
      · have hreq : (asked h).head? = some packet.origTime := by rw [ho]; exact hreq
        obtain ⟨hsend, hlast⟩ := sent_all hi.fifo hd.1 hreq (hcb (List.mem_of_mem_head? hreq))
        rw [List.head?_map, Option.map_eq_some_iff] at hlast
        obtain ⟨⟨request, tx⟩, hc, hr⟩ := hlast
        obtain rfl : tx = s.peer.local_tx_hw := hi.stamp _ hc
        obtain rfl : request = packet.origTime := hr
        refine ⟨Or.inr rfl, ⟨_, packet, hreq, hc, ?_, rfl, rfl⟩, hsend⟩
        rw [hans, hnone, Option.none_or, if_pos hreq]
      · rcases hor with hx' | h0'
        · exact absurd (hx.symm.trans hx') (by simp)
        · exact absurd (ho.trans h0') h0
  | interleaved hx ho =>
      refine ⟨hi.fifo, hi.stamp, hi.sent, fun hact => Or.inr ?_⟩
      rcases hi.poll hact with ⟨hx', -⟩ | ⟨hor, hex, hsend⟩
      · exact absurd (hx.symm.trans hx') (by simp)
      · exact ⟨hor, hex.congr (hev hex) rfl rfl rfl, hsend⟩
  | unsolicited ho =>
      refine ⟨hi.fifo, hi.stamp, hi.sent, fun hact => ?_⟩
      rcases hi.poll hact with ⟨hx, hreq, hnone⟩ | ⟨hor, hex, hsend⟩
      · refine Or.inl ⟨hx, hreq, ?_⟩
        rw [hans, hnone, Option.none_or, if_neg]
        rw [hreq, Option.some.injEq]
        exact Ne.symm ho
      · exact Or.inr ⟨hor, hex.congr (hev hex) rfl rfl rfl, hsend⟩

/-- **A transmit stamp keeps the invariant**: while a response has been taken none is due. -/
theorem PollInv.txCallback {h : PeerHistory F} {s : Link F}
    (hi : PollInv h s.peer.pollState s.sending) {request : BitVec 64} {sending : List (BitVec 64)}
    (hs : s.sending = request :: sending) (stamps : Stamps) :
    PollInv ((s, .sent stamps) :: h) (s.peer.txCallback stamps).pollState sending where
  fifo := by simpa [completed, hs, asked, asks] using hi.fifo
  stamp := by simp [completed, hs, Peer.txCallback, Peer.pollState]
  sent := hi.sent
  poll hact := by
    rcases hi.poll hact with ⟨hx, hreq, hnone⟩ | ⟨-, -, hsend⟩
    · exact Or.inl ⟨hx, hreq, by simpa [answer, asks] using hnone⟩
    · rw [hs] at hsend
      cases hsend

/-! ## Every sample is of one exchange -/

theorem pollInv_step {h : PeerHistory F} {s s' : Link F} {a : PeerAction F}
    (hi : PollInv h s.peer.pollState s.sending) (hd : DistinctRequests h)
    (hcb : CallbackFirst ((s, a) :: h)) (hown : TakesOwn s a) (hs : s.step a = some s') :
    PollInv ((s, a) :: h) s'.peer.pollState s'.sending ∧
      (pushes s a ≠ [] → Exchange h s.peer.pollState) := by
  cases Link.step_cases hs with
  | run env accepted => exact hi.run hd env accepted hown
  | dropped packet stamps h0 =>
      -- no request has the number 0, so the packet answers none
      refine ⟨?_, fun hne => absurd rfl hne⟩
      have hne : (asked h).head? ≠ some packet.origTime := fun hreq =>
        hd.2 (h0 ▸ List.mem_of_mem_head? hreq)
      exact hi.quiet ⟨rfl, rfl, by simp [answer, asks, hne]⟩ rfl hi.sent hi.poll
  | receive packet stamps h0 => exact ⟨hi.receive hd h0 hcb.1, fun hne => absurd rfl hne⟩
  | sent stamps hsending => exact ⟨hi.txCallback hsending stamps, fun hne => absurd rfl hne⟩
  | arpReply macAddr env =>
      refine ⟨?_, fun hne => absurd rfl hne⟩
      rw [Peer.arpCallback_pollState]
      exact hi.quiet (sameEvents_cons rfl (by simp) (by simp)) rfl hi.sent hi.poll
  | setTaiClock offset =>
      refine ⟨?_, fun hne => absurd rfl hne⟩
      exact hi.quiet (sameEvents_cons rfl (by simp) (by simp)) rfl hi.sent hi.poll

theorem DistinctRequests.tail {h : PeerHistory F} {p : Link F × PeerAction F}
    (hd : DistinctRequests (p :: h)) : DistinctRequests h :=
  ⟨(List.nodup_append.mp hd.1).2.1, fun h0 => hd.2 (List.mem_append_right _ h0)⟩

theorem CallbackFirst.tail {h : PeerHistory F} {p : Link F × PeerAction F}
    (hcb : CallbackFirst (p :: h)) : CallbackFirst h := by
  obtain ⟨s, a⟩ := p
  cases a with
  | receive packet stamps => exact hcb.2
  | _ => exact hcb

/-- **Every sample is of one exchange**, as long as the task never finds `pktRecv` set while the
response to its request is still awaited. -/
theorem oneExchange_of_takesOwn {ipAddr ipSubnet ipAddress : BitVec 32} {h : PeerHistory F}
    {s : Link F} (hrun : Run Link.step (Link.init ipAddr ipSubnet ipAddress) h s)
    (hd : DistinctRequests h) (hcb : CallbackFirst h) (hown : ∀ p ∈ h, TakesOwn p.1 p.2) :
    OneExchange h := by
  have key : DistinctRequests h → CallbackFirst h →
      PollInv h s.peer.pollState s.sending ∧ OneExchange h := by
    refine hrun.invariant_of_forall (C := TakesOwn) (I := fun h s => DistinctRequests h →
      CallbackFirst h → PollInv h s.peer.pollState s.sending ∧ OneExchange h) hown ?_ ?_
    · intro _ _
      refine ⟨⟨by simp [Link.init, completed, asked], by simp [completed],
        fun hact => ?_, fun hact => ?_⟩, trivial⟩
      · cases (show false = true from hact)
      · cases (show false = true from hact)
    · intro h s a s' hi hown hs hd hcb
      obtain ⟨hinv, hone⟩ := hi hd.tail hcb.tail
      obtain ⟨hinv', hex⟩ := pollInv_step hinv hd.tail hcb hown hs
      exact ⟨hinv', hex, hone⟩
  exact (key hd hcb).2

instance decidableCallbackFirst : (h : PeerHistory F) → Decidable (CallbackFirst h)
  | [] => isTrue trivial
  | (_, .receive packet _) :: h =>
      have := decidableCallbackFirst h
      inferInstanceAs (Decidable ((packet.origTime ∈ asked h →
        packet.origTime ∈ (completed h).map Prod.fst) ∧ CallbackFirst h))
  | (_, .run _ _) :: h => decidableCallbackFirst h
  | (_, .sent _) :: h => decidableCallbackFirst h
  | (_, .arpReply _ _) :: h => decidableCallbackFirst h
  | (_, .setTaiClock _) :: h => decidableCallbackFirst h

/-- The response to the first request comes after the poll has timed out, the response to the
second request not before the task runs. -/
def lateResponse : List (PeerAction Nano) :=
  [.run (atSecond 1) true, .sent (stampsAt 1), .run (atSecond 2) false,
    .receive (responseTo 1) (stampsAt 3)] ++
  List.replicate 16 (PeerAction.run (atSecond 4) false) ++
  [.run (atSecond 20) true, .sent (stampsAt 20), .run (atSecond 20) false]

/-- A late response is taken by the next poll. -/
theorem not_oneExchange_lateResponse :
    ∃ h s, Run Link.step remoteServer h s ∧ DistinctRequests h ∧ CallbackFirst h ∧
      ¬ OneExchange h := by
  obtain ⟨h, s, hrun, hp⟩ := @exists_run_of_replay _ _ Link.step remoteServer lateResponse
    (fun h _ => decide ((asked h).Nodup ∧ 0 ∉ asked h ∧ CallbackFirst h) && (match h with
      | [] => false
      | (s, a) :: h => decide (pushes s a ≠ [] ∧ answer h = none))) (by decide +kernel)
  obtain ⟨hd, hpush⟩ := Bool.and_eq_true_iff.mp hp
  obtain ⟨hnd, h0, hcb⟩ := of_decide_eq_true hd
  refine ⟨h, s, hrun, ⟨hnd, h0⟩, hcb, fun hone => ?_⟩
  cases hrun with
  | start => cases hpush
  | next _ _ =>
      obtain ⟨hne, hnone⟩ := of_decide_eq_true hpush
      obtain ⟨_, _, _, _, hsome, _⟩ := hone.1 hne
      rw [hnone] at hsome
      cases hsome

/-- A poll of a timeserver in another subnet that gets its response in time. -/
def promptResponse : List (PeerAction Nano) :=
  [.run (atSecond 1) true, .sent (stampsAt 1), .receive (responseTo 1) (stampsAt 1),
    .run (atSecond 1) false]

theorem oneExchange_of_takesOwn_promptResponse :
    ∃ h s, Run Link.step remoteServer h s ∧ s.peer.sampleCount = 1 ∧ OneExchange h := by
  obtain ⟨h, s, hrun, hp⟩ := @exists_run_of_replay _ _ Link.step remoteServer promptResponse
    (fun h s => decide ((asked h).Nodup ∧ 0 ∉ asked h ∧ CallbackFirst h ∧
      (∀ p ∈ h, TakesOwn p.1 p.2) ∧ s.peer.sampleCount = 1)) (by decide +kernel)
  obtain ⟨hnd, h0, hcb, hown, hcount⟩ := of_decide_eq_true hp
  exact ⟨h, s, hrun, hcount, oneExchange_of_takesOwn hrun ⟨hnd, h0⟩ hcb hown⟩

end Gpsdo.Ntp
