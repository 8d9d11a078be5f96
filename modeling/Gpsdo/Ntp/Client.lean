import Gpsdo.Ntp.Pair

set_option autoImplicit false

/-! # What a client sends

An activation of the task of a peer sends one packet at most: the basic request of a new poll, or
the follow-up request of the current one. The transmitter hands these out in order, each once.
-/

namespace Gpsdo.Ntp

variable {F : Type}

/-! ## What the task sends -/

/-- The next state of the poll, the packets sent and the samples pushed, by an activation of the
task. -/
inductive SendCase (p : Peer F) (env : Env F) :
    PollState → List (HeaderNtp × Bool) → List Sample → Prop
  | idle (h : p.pollActive = false) : SendCase p env p.pollState [] []
  | start (h : p.pollActive = false) {packet : HeaderNtp} (horig : packet.origTime = 0)
      (hrx : packet.rxTime = 0) (htx : packet.txTime = htonll env.now) :
      SendCase p env { p.pollState with
        pollActive := true, pollXleave := false, filterTx := htonll env.now, filterRx := 0,
        pktSent := true } [(packet, true)] []
  | resend (h : p.pollActive = true) (hs : p.pktSent = false) {q : PollState}
      {sent : List (HeaderNtp × Bool)} : SendCase p env q sent []
  | followUp (h : p.pollActive = true) (hr : p.pktRecv = true) (hx : p.pollXleave = false)
      {packet : HeaderNtp} (horig : packet.origTime = p.remote_rx)
      (hrx : packet.rxTime = htonll p.local_rx_hw.mono)
      (htx : packet.txTime = htonll p.local_tx_hw.mono) :
      SendCase p env { p.pollState with
        pollXleave := true, filterTx := htonll p.local_tx_hw.mono,
        filterRx := htonll p.local_rx_hw.mono, pktRecv := false } [(packet, false)] []
  | push (h : p.pollActive = true) (hr : p.pktRecv = true ∨ p.pollXleave = true) {q : PollState}
      (hq : q = { p.pollState with pollActive := false, pktRecv := false }) :
      SendCase p env q [] [p.pollSample env]
  /-- Nothing came, or the response is dropped: the poll goes on or has timed out. -/
  | noSample (h : p.pollActive = true) {q : PollState}
      (hq : q = { p.pollState with pollActive := q.pollActive, pktRecv := false }) :
      SendCase p env q [] []

@[simp] theorem packets_append (out out' : List Output) :
    packets (out ++ out') = packets out ++ packets out' := List.filterMap_append

theorem Adjusts.packets {out out' : List Output} (h : Adjusts out') :
    packets (out ++ out') = packets out := by
  rw [packets_append]
  rcases h with rfl | ⟨interval, rfl⟩ <;> exact List.append_nil _

namespace Peer

theorem isMacInvalid_packets (p : Peer F) (env : Env F) :
    packets (p.isMacInvalid env).2.2 = [] := by
  dsimp only [isMacInvalid]
  split
  · dsimp only [updateMac]
    split <;> rfl
  · rfl

theorem pollStep_sends (p : Peer F) (env : Env F) (h : p.pollActive = true) :
    SendCase p env (p.pollStep env).2.1.pollState (packets (p.pollStep env).2.2)
      (samples (p.pollStep env).2.2) := by
  have hbranch := p.pollStep_branch env
  generalize p.pollStep env = r at hbranch ⊢
  cases hbranch with
  | send hs => exact .resend h hs
  | followUp hs hr hx => exact .followUp h hr hx rfl rfl rfl
  | received hs hr =>
      rcases Nat.lt_or_ge 15 p.stratum with hst | hst
      · rw [show ({ p with pktRecv := false } : Peer F).pollEnd env = _ from pollEnd_drop env hst]
        exact .noSample h rfl
      · rw [show ({ p with pktRecv := false } : Peer F).pollEnd env = _ from pollEnd_push env hst]
        exact .push h (Or.inl hr) rfl
  | fallback hs hr hx =>
      rcases Nat.lt_or_ge 15 p.stratum with hst | hst
      · rw [show ({ p with xleave := false } : Peer F).pollEnd env = _ from pollEnd_drop env hst]
        exact .noSample h (by simp [pollState, hr])
      · rw [show ({ p with xleave := false } : Peer F).pollEnd env = _ from pollEnd_push env hst]
        exact .push h (Or.inr hx) (by simp [pollState, hr])
  | timeout hs hr hx => exact .noSample h (by simp [pollState, hr])
  | wait hs hr => exact .noSample h (by simp [pollState, hr])

variable [Single F]

theorem run_sends (p : Peer F) (env : Env F) :
    SendCase p env (p.run env).1.pollState (packets (p.run env).2) (samples (p.run env).2) := by
  have hbranch := p.run_branch env
  generalize p.run env = r at hbranch ⊢
  obtain ⟨h1, -, h3⟩ := isMacInvalid_spec p env
  have h2 := isMacInvalid_packets p env
  cases hbranch with
  | poll h ho =>
      rw [ho.packets, ho.samples]
      have hstep := pollStep_sends p env h
      rcases p.pollRun_branch env with ⟨hrun, -⟩ | ⟨hrun, -⟩ <;> rw [hrun] <;> exact hstep
  | idle h interval => exact .idle h
  | wait h ho =>
      rw [ho.packets, ho.samples, h2, h3]
      exact h1.symm ▸ SendCase.idle h
  | start h _ _ =>
      obtain ⟨g1, -, g3⟩ := startPoll_spec (p.isMacInvalid env).2.1 env
      rw [packets_append, samples_append, g1, g3, h1, h2, h3]
      exact .start h rfl rfl rfl

end Peer

/-! ## The client -/

/-- The `txTime` of a request whose stamps are asked for. -/
def requestKey (e : HeaderNtp × Bool) : Option (BitVec 64) := if e.2 then some e.1.txTime else none

theorem requests_eq (out : List Output) : requests out = (packets out).filterMap requestKey := by
  induction out with
  | nil => rfl
  | cons o out ih =>
      have hcons : ∀ l : List Output, o :: l = [o] ++ l := fun _ => rfl
      rw [hcons, requests_append, packets_append, List.filterMap_append, ih]
      congr 1
      cases o with
      | transmit macDst dst packet callback => cases callback <;> rfl
      | _ => rfl

/-- The packets that a step hands to the network. -/
def Pair.offers [Single F] (s : Pair F) : PairAction F → List (HeaderNtp × Bool)
  | .run env _ => packets (s.client.link.peer.run env).2
  | _ => []

/-- The packets that the client has handed to the network, the last one first. -/
def offered [Single F] : PairHistory F → List (HeaderNtp × Bool)
  | [] => []
  | (s, a) :: h => s.offers a ++ offered h

/-- The times of the basic requests, the last one first. -/
def askTimes [Single F] : PairHistory F → List ℕ
  | [] => []
  | (s, a) :: h => ((s.offers a).filter (·.2)).map (fun _ => s.time) ++ askTimes h

variable [Single F] {b : Timebase} {h : PairHistory F} {s s' : Pair F}

/-- What the client has sent, and when. -/
structure ClientInv (b : Timebase) (h : PairHistory F) (s : Pair F) : Prop where
  outbox : Outbox (offered h) s.client.ring s.client.left s.client.gone
  sending : s.client.link.sending = s.client.ring.filterMap requestKey
  lastRun : s.client.lastRun ≤ s.time
  gone : ∀ e ∈ s.client.gone, e.2 ≤ s.time
  decreasing : (askTimes h).Pairwise (· > ·)
  askTimes : ∀ t ∈ askTimes h, 0 < t ∧ t ≤ s.client.lastRun
  asked : asked (linkHistory b h) = (Ntp.askTimes h).map fun t => htonll (BitVec.ofNat 64 t)
  keys : (offered h).filterMap requestKey = Ntp.asked (linkHistory b h)
  completed : ∀ e ∈ completed (linkHistory b h), ∃ packet time,
    ((packet, true), time) ∈ s.client.gone ∧ packet.txTime = e.1 ∧ e.2 = b.clientStamps time
  basic : ∀ packet, (packet, true) ∈ offered h → packet.origTime = 0 ∧ packet.rxTime = 0 ∧
    ∃ t ∈ Ntp.askTimes h, packet.txTime = htonll (BitVec.ofNat 64 t)
  departed : ∀ packet time, ((packet, true), time) ∈ s.client.gone →
    ∃ t ∈ Ntp.askTimes h, packet.txTime = htonll (BitVec.ofNat 64 t) ∧ t ≤ time

/-- An activation of the task sends one packet at most, and that of a new poll has its time. -/
theorem Peer.run_packets (p : Peer F) (env : Env F)
    (hsent : p.pollActive = true → p.pktSent = true) :
    (packets (p.run env).2).length ≤ 1 ∧ ∀ packet, (packet, true) ∈ packets (p.run env).2 →
      packet.origTime = 0 ∧ packet.rxTime = 0 ∧ packet.txTime = htonll env.now := by
  have hcase := p.run_sends env
  generalize (p.run env).1.pollState = q at hcase
  generalize packets (p.run env).2 = sent at hcase
  generalize samples (p.run env).2 = smps at hcase
  cases hcase with
  | start _ horig hrx htx =>
      refine ⟨le_refl _, fun packet hpacket => ?_⟩
      obtain ⟨rfl, -⟩ := Prod.mk.inj (List.mem_singleton.mp hpacket)
      exact ⟨horig, hrx, htx⟩
  | resend h hs =>
      rw [hsent h] at hs
      cases hs
  | followUp => exact ⟨le_refl _, fun packet hpacket => by cases List.mem_singleton.mp hpacket⟩
  | _ => exact ⟨Nat.zero_le _, fun packet hpacket => by cases hpacket⟩

/-- The key of a request of a new poll is its time. -/
theorem filterMap_requestKey {sent : List (HeaderNtp × Bool)} {t : ℕ}
    (hsent : ∀ packet, (packet, true) ∈ sent → packet.txTime = htonll (BitVec.ofNat 64 t)) :
    sent.filterMap requestKey =
      ((sent.filter (·.2)).map fun _ => t).map fun t => htonll (BitVec.ofNat 64 t) := by
  induction sent with
  | nil => rfl
  | cons e sent ih =>
      have ih := ih fun packet hpacket => hsent packet (List.mem_cons_of_mem _ hpacket)
      obtain ⟨packet, callback⟩ := e
      cases callback with
      | true =>
          have hkey := hsent packet List.mem_cons_self
          show packet.txTime :: sent.filterMap requestKey = htonll (BitVec.ofNat 64 t) :: _
          rw [hkey, ih]
      | false => exact ih

/-- **The task** makes a request later than all before. -/
theorem ClientInv.run (hi : ClientInv b h s) {env : Env F} {accepted : Bool}
    (hlate : s.client.lastRun < s.time) (hnow : env.now = BitVec.ofNat 64 s.time)
    (hsent : s.client.link.peer.pollActive = true → s.client.link.peer.pktSent = true)
    {link : Link F} (hlink : s.client.link.step (.run env accepted) = some link) :
    ClientInv b ((s, .run env accepted) :: h) { s with client := { s.client with
      link := link, lastRun := s.time,
      ring := s.client.ring ++
        if accepted then packets (s.client.link.peer.run env).2 else [] } } := by
  obtain rfl := Option.some.inj hlink
  obtain ⟨hlen, hbasic⟩ := s.client.link.peer.run_packets env hsent
  have hoffered : offered ((s, .run env accepted) :: h) =
      packets (s.client.link.peer.run env).2 ++ offered h := rfl
  have htimes : Ntp.askTimes ((s, .run env accepted) :: h) =
      ((packets (s.client.link.peer.run env).2).filter (·.2)).map (fun _ => s.time) ++
        Ntp.askTimes h := rfl
  have hasked : Ntp.asked (linkHistory b ((s, .run env accepted) :: h)) =
      (packets (s.client.link.peer.run env).2).filterMap requestKey ++
        Ntp.asked (linkHistory b h) := by
    rw [← requests_eq]
    rfl
  have hring : s.client.link.sending ++ (if accepted then requests (s.client.link.peer.run env).2
      else []) = (s.client.ring ++ if accepted then packets (s.client.link.peer.run env).2
        else []).filterMap requestKey := by
    rw [List.filterMap_append, ← hi.sending, requests_eq]
    cases accepted <;> rfl
  generalize packets (s.client.link.peer.run env).2 = sent at *
  have hnew : ∀ t ∈ (sent.filter (·.2)).map (fun _ => s.time), t = s.time := by
    intro t ht
    obtain ⟨-, -, rfl⟩ := List.mem_map.mp ht
    rfl
  have hone : ((sent.filter (·.2)).map fun _ => s.time).length ≤ 1 := by
    rw [List.length_map]
    exact (List.length_filter_le _ _).trans hlen
  refine ⟨?_, hring, le_refl _, hi.gone, ?_, ?_, ?_, ?_, hi.completed, ?_, ?_⟩
  · rw [hoffered]
    exact hi.outbox.offer hlen accepted
  · rw [htimes]
    refine List.pairwise_append.mpr ⟨?_, hi.decreasing, fun t ht t' ht' => ?_⟩
    · generalize (sent.filter (·.2)).map (fun _ => s.time) = new at hone
      match new, hone with
      | [], _ => exact List.Pairwise.nil
      | [t], _ => exact List.pairwise_singleton _ t
    · rw [hnew t ht]
      exact (hi.askTimes t' ht').2.trans_lt hlate
  · rw [htimes]
    intro t ht
    rcases List.mem_append.mp ht with ht | ht
    · rw [hnew t ht]
      exact ⟨(Nat.zero_le _).trans_lt hlate, le_refl _⟩
    · exact ⟨(hi.askTimes t ht).1, (hi.askTimes t ht).2.trans hlate.le⟩
  · rw [hasked, htimes, List.map_append, ← hi.asked,
      filterMap_requestKey fun packet hpacket => by rw [(hbasic packet hpacket).2.2, hnow]]
  · rw [hasked, hoffered, List.filterMap_append, hi.keys]
  · rw [htimes, hoffered]
    intro packet hpacket
    rcases List.mem_append.mp hpacket with hpacket | hpacket
    · obtain ⟨horig, hrx, htx⟩ := hbasic packet hpacket
      exact ⟨horig, hrx, s.time, List.mem_append_left _ (List.mem_map.mpr
        ⟨_, List.mem_filter.mpr ⟨hpacket, rfl⟩, rfl⟩), by rw [htx, hnow]⟩
    · obtain ⟨h1, h2, t, ht, h3⟩ := hi.basic packet hpacket
      exact ⟨h1, h2, t, List.mem_append_right _ ht, h3⟩
  · rw [htimes]
    intro packet time hgone
    obtain ⟨t, ht, h1, h2⟩ := hi.departed packet time hgone
    exact ⟨t, List.mem_append_right _ ht, h1, h2⟩

/-- A step that sends nothing and completes nothing. -/
theorem ClientInv.keep {h' : PairHistory F} {time : ℕ} {link : Link F} {responder : Responder}
    (hi : ClientInv b h s) (hsending : link.sending = s.client.link.sending)
    (htime : s.time ≤ time) (hoffered : offered h' = offered h)
    (htimes : Ntp.askTimes h' = Ntp.askTimes h)
    (hasked : Ntp.asked (linkHistory b h') = Ntp.asked (linkHistory b h))
    (hcompleted : Ntp.completed (linkHistory b h') = Ntp.completed (linkHistory b h)) :
    ClientInv b h' ⟨time, { s.client with link := link }, responder⟩ where
  outbox := by rw [hoffered]; exact hi.outbox
  sending := hsending.trans hi.sending
  lastRun := hi.lastRun.trans htime
  gone e he := (hi.gone e he).trans htime
  decreasing := by rw [htimes]; exact hi.decreasing
  askTimes := by rw [htimes]; exact hi.askTimes
  asked := by rw [hasked, htimes]; exact hi.asked
  keys := by rw [hasked, hoffered]; exact hi.keys
  completed := by rw [hcompleted]; exact hi.completed
  basic := by rw [hoffered, htimes]; exact hi.basic
  departed := by rw [htimes]; exact hi.departed

theorem ClientInv.requestLeaves (hi : ClientInv b h s) {x : HeaderNtp × Bool}
    (hx : s.client.ring[s.client.left.length]? = some x) :
    ClientInv b ((s, .requestLeaves) :: h) { s with client := { s.client with
      left := s.client.left ++ [(x, s.time)], gone := (x, s.time) :: s.client.gone } } where
  outbox := hi.outbox.leave hx s.time
  sending := hi.sending
  lastRun := hi.lastRun
  gone := List.forall_mem_cons.mpr ⟨le_refl _, hi.gone⟩
  decreasing := hi.decreasing
  askTimes := hi.askTimes
  asked := hi.asked
  keys := hi.keys
  completed e he := by
    obtain ⟨packet, time, hgone, hkey, hstamps⟩ := hi.completed e he
    exact ⟨packet, time, List.mem_cons_of_mem _ hgone, hkey, hstamps⟩
  basic := hi.basic
  departed packet time hgone := by
    rcases List.mem_cons.mp hgone with heq | hgone
    · obtain ⟨rfl, rfl⟩ := Prod.mk.inj heq
      have hoffered := (hi.outbox.leave hx s.time).gone_offered List.mem_cons_self
      obtain ⟨-, -, t, ht, hkey⟩ := hi.basic packet hoffered
      exact ⟨t, ht, hkey, (hi.askTimes t ht).2.trans hi.lastRun⟩
    · exact hi.departed packet time hgone

/-- The frame that is reclaimed is the oldest one in the ring. -/
theorem ClientInv.reclaim (hi : ClientInv b h s) {x : HeaderNtp × Bool} {time : ℕ}
    {left : List ((HeaderNtp × Bool) × ℕ)} (hleft : s.client.left = (x, time) :: left) :
    ∃ ring, s.client.ring = x :: ring ∧ (x, time) ∈ s.client.gone ∧
      Outbox (offered h) ring left s.client.gone := by
  have hout := hi.outbox
  obtain ⟨⟨waiting, hring, -⟩, -⟩ := hout
  rw [hleft, List.map_cons, List.cons_append] at hring
  have hout := hi.outbox
  rw [hleft, hring] at hout
  exact ⟨_, hring, hout.reclaim.2.1, hout.reclaim.2.2⟩

theorem ClientInv.requestStamped (hi : ClientInv b h s) {packet : HeaderNtp} {time : ℕ}
    {left : List ((HeaderNtp × Bool) × ℕ)}
    (hleft : s.client.left = ((packet, true), time) :: left) {link : Link F}
    (hlink : s.client.link.step (.sent (b.clientStamps time)) = some link) :
    ClientInv b ((s, .requestDone) :: h) { s with client := { s.client with
      link := link, ring := s.client.ring.tail, left := left } } := by
  obtain ⟨ring, hring, hgone, hout⟩ := hi.reclaim hleft
  have hsending : s.client.link.sending = packet.txTime :: ring.filterMap requestKey := by
    rw [hi.sending, hring]
    rfl
  have hstep : link = ⟨s.client.link.peer.txCallback (b.clientStamps time),
      ring.filterMap requestKey⟩ := by
    rw [Link.step, hsending] at hlink
    exact (Option.some.inj hlink).symm
  have haction : s.linkAction b .requestDone = some (.sent (b.clientStamps time)) := by
    rw [Pair.linkAction, hleft]
    rfl
  have hhist := linkHistory_cons (h := h) haction
  have hasked : Ntp.asked (linkHistory b ((s, .requestDone) :: h)) =
      Ntp.asked (linkHistory b h) := by
    rw [hhist]
    rfl
  have hcompleted : Ntp.completed (linkHistory b ((s, .requestDone) :: h)) =
      (packet.txTime, b.clientStamps time) :: Ntp.completed (linkHistory b h) := by
    rw [hhist, Ntp.completed, hsending]
    rfl
  refine ⟨?_, ?_, hi.lastRun, hi.gone, hi.decreasing, hi.askTimes, ?_, ?_, ?_, hi.basic,
    hi.departed⟩
  · show Outbox (offered h) s.client.ring.tail left s.client.gone
    rw [hring]
    exact hout
  · show link.sending = s.client.ring.tail.filterMap requestKey
    rw [hstep, hring]
    rfl
  · rw [hasked]
    exact hi.asked
  · rw [hasked]
    exact hi.keys
  · rw [hcompleted]
    exact List.forall_mem_cons.mpr ⟨⟨packet, time, hgone, rfl, rfl⟩, hi.completed⟩

theorem ClientInv.requestDone (hi : ClientInv b h s) {packet : HeaderNtp} {time : ℕ}
    {left : List ((HeaderNtp × Bool) × ℕ)}
    (hleft : s.client.left = ((packet, false), time) :: left) :
    ClientInv b ((s, .requestDone) :: h) { s with client := { s.client with
      ring := s.client.ring.tail, left := left } } := by
  obtain ⟨ring, hring, hgone, hout⟩ := hi.reclaim hleft
  have haction : s.linkAction b .requestDone = none := by
    rw [Pair.linkAction, hleft]
    rfl
  have hhist : linkHistory b ((s, .requestDone) :: h) = linkHistory b h :=
    List.filterMap_cons_none (congrArg (Option.map _) haction)
  refine ⟨?_, ?_, hi.lastRun, hi.gone, hi.decreasing, hi.askTimes, ?_, ?_, ?_, hi.basic,
    hi.departed⟩
  · show Outbox (offered h) s.client.ring.tail left s.client.gone
    rw [hring]
    exact hout
  · show s.client.link.sending = s.client.ring.tail.filterMap requestKey
    rw [hi.sending, hring]
    rfl
  · rw [hhist]
    exact hi.asked
  · rw [hhist]
    exact hi.keys
  · rw [hhist]
    exact hi.completed

/-- A packet and an answer of ARP leave the requests to be sent as they are. -/
theorem Link.step_sending {l l' : Link F} {a : PeerAction F} (hs : l.step a = some l')
    (ha : (∃ packet stamps, a = .receive packet stamps) ∨
      ∃ macAddr env, a = .arpReply macAddr env) :
    l'.sending = l.sending := by
  rcases ha with ⟨packet, stamps, rfl⟩ | ⟨macAddr, env, rfl⟩
  · obtain rfl := Option.some.inj hs
    split <;> rfl
  · obtain rfl := Option.some.inj hs
    rfl

theorem ClientInv.step (hi : ClientInv b h s)
    (hsent : s.client.link.peer.pollActive = true → s.client.link.peer.pktSent = true)
    {a : PairAction F} (hs : s.step b a = some s') : ClientInv b ((s, a) :: h) s' := by
  cases Pair.step_cases hs with
  | tick => exact hi.keep rfl (Nat.le_succ _) rfl rfl rfl rfl
  | run hlate hnow _ hlink => exact hi.run hlate hnow hsent hlink
  | arpReply hlink =>
      exact hi.keep (Link.step_sending hlink (Or.inr ⟨_, _, rfl⟩)) (le_refl _) rfl rfl rfl rfl
  | requestLeaves hx => exact hi.requestLeaves hx
  | requestStamped hleft hlink => exact hi.requestStamped hleft hlink
  | requestDone hleft => exact hi.requestDone hleft
  | request _ _ _ _ _ _ _ => exact hi.keep rfl (le_refl _) rfl rfl rfl rfl
  | responseLeaves _ => exact hi.keep rfl (le_refl _) rfl rfl rfl rfl
  | responseDone _ _ => exact hi.keep rfl (le_refl _) rfl rfl rfl rfl
  | response _ _ _ _ hlink =>
      exact hi.keep (Link.step_sending hlink (Or.inl ⟨_, _, rfl⟩)) (le_refl _) rfl rfl rfl rfl

theorem htonll_ofNat_inj {t t' : ℕ} (ht : t < 2 ^ 64) (ht' : t' < 2 ^ 64)
    (heq : htonll (BitVec.ofNat 64 t) = htonll (BitVec.ofNat 64 t')) : t = t' := by
  have hnat := congrArg (fun v => (htonll v).toNat) heq
  simpa only [htonll_htonll, BitVec.toNat_ofNat, Nat.mod_eq_of_lt ht, Nat.mod_eq_of_lt ht']
    using hnat

/-- The requests are told apart by their times. -/
theorem ClientInv.distinctRequests (hi : ClientInv b h s) (htime : s.time < 2 ^ 64) :
    DistinctRequests (linkHistory b h) := by
  have hbound : ∀ t ∈ Ntp.askTimes h, t < 2 ^ 64 := fun t ht =>
    ((hi.askTimes t ht).2.trans hi.lastRun).trans_lt htime
  rw [DistinctRequests, hi.asked]
  refine ⟨List.pairwise_map.mpr (hi.decreasing.imp_of_mem fun ht ht' hlt heq => ?_), fun h0 => ?_⟩
  · exact hlt.ne' (htonll_ofNat_inj (hbound _ ht) (hbound _ ht') heq)
  · obtain ⟨t, ht, heq⟩ := List.mem_map.mp h0
    have hzero := htonll_ofNat_inj (hbound t ht) (Nat.two_pow_pos 64) heq
    exact (hi.askTimes t ht).1.ne' hzero

end Gpsdo.Ntp
