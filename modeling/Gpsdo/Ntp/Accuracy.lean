import Gpsdo.Ntp.Client

set_option autoImplicit false

/-! # The accuracy of a sample

A client and a server exchange a request and its response, and one more pair of packets when they
are in one subnet. The sample gives the difference of the two TAI clocks, up to the time that the
request and the response spent on the way: whatever the network does, and whoever else polls the
server.
-/

namespace Gpsdo.Ntp

variable {F : Type} [Single F] {b : Timebase} {h : PairHistory F} {s s' : Pair F}

/-! ## The follow-up requests -/

/-- The packet is the follow-up request of the current poll. -/
def Current (q : PollState) (packet : HeaderNtp) : Prop :=
  q.pollXleave = true ∧ packet.origTime = q.remote_rx ∧ packet.rxTime = q.filterRx ∧
    packet.txTime = q.filterTx

/-- The follow-up requests have the stamps of an earlier exchange, or are of the current poll. -/
def FollowUps (h : PairHistory F) (s : Pair F) : Prop :=
  ∀ packet, (packet, false) ∈ offered h → ∃ sent received,
    packet.txTime = htonll (BitVec.ofNat 64 sent) ∧
    packet.rxTime = htonll (BitVec.ofNat 64 received) ∧
    sent ≤ s.client.lastRun ∧ received ≤ s.client.lastRun ∧
    ((∀ t ∈ (askTimes h).head?, sent < t ∧ received < t) ∨
      Current s.client.link.peer.pollState packet)

/-! ## The two modes -/

/-- The client takes a packet as the answer to its follow-up request, in interleaved mode. -/
def Pair.takesXleave (s : Pair F) (packet : HeaderNtp) : Bool :=
  decide (s.client.link.peer.pollXleave = true ∧ packet.origTime ≠ 0 ∧
    packet.origTime ≠ s.client.link.peer.filterTx ∧ packet.origTime = s.client.link.peer.filterRx)

/-- The client has taken such an answer since its last request. -/
def interleaved : PairHistory F → Bool
  | [] => false
  | (s, .run env _) :: h => (packets (s.client.link.peer.run env).2).isEmpty && interleaved h
  | (s, .response packet _) :: h => s.takesXleave packet || interleaved h
  | _ :: h => interleaved h

/-- Another response does not change the mode. -/
theorem interleaved_response (s : Pair F) (h : PairHistory F) (packet : HeaderNtp) (arrival : ℕ)
    (hnot : ¬(s.client.link.peer.pollXleave = true ∧ packet.origTime ≠ 0 ∧
      packet.origTime ≠ s.client.link.peer.filterTx ∧
      packet.origTime = s.client.link.peer.filterRx)) :
    interleaved ((s, .response packet arrival) :: h) = interleaved h := by
  rw [interleaved, Pair.takesXleave, decide_eq_false hnot, Bool.false_or]

/-- The request left and arrived at the times of `e`, and its response left at the time `left` and
arrived at that of `e`. In interleaved mode the response leaves in `e` when it really left, in basic
mode when it was made. -/
structure Exchanged (h : PairHistory F) (s : Pair F) (request : BitVec 64) (e : TwoWay) : Prop where
  asked : ∃ packet, packet.txTime = request ∧ ((packet, true), e.requestLeaves) ∈ s.client.gone
  answered : ∃ a ∈ answers h, ∃ left, (a.response, left) ∈ s.responder.gone ∧
    a.response.ntp.origTime = request ∧ a.arrival = e.requestArrives ∧ a.made ≤ left ∧
    left ≤ e.responseArrives ∧ (∃ p ∈ h, p.2 = .response a.response.ntp e.responseArrives) ∧
    e.responseLeaves = if interleaved h then left else a.made

/-- What the current poll has learned: the stamps of one exchange. -/
structure Timed (b : Timebase) (h : PairHistory F) (s : Pair F) (e : TwoWay) : Prop where
  tx : s.client.link.peer.local_tx_hw = b.clientStamps e.requestLeaves
  rx : s.client.link.peer.local_rx_hw = b.clientStamps e.responseArrives
  remote_rx : s.client.link.peer.remote_rx = b.ntpStamp e.requestArrives
  remote_tx : s.client.link.peer.remote_tx = b.ntpStamp e.responseLeaves
  past : e.responseArrives ≤ s.time
  exchanged : ∃ t ∈ (askTimes h).head?, t ≤ e.requestLeaves ∧
    Exchanged h s (htonll (BitVec.ofNat 64 t)) e
  filters : s.client.link.peer.pollXleave = true →
    s.client.link.peer.filterTx = htonll (BitVec.ofNat 64 e.requestLeaves) ∧
    s.client.link.peer.filterRx = htonll (BitVec.ofNat 64 e.responseArrives)

/-- A poll that has taken its response has the stamps of an exchange. -/
def TimedInv (b : Timebase) (h : PairHistory F) (s : Pair F) : Prop :=
  s.client.link.peer.pollActive = true →
    s.client.link.peer.pollXleave = true ∨ s.client.link.peer.filterTx = 0 → ∃ e, Timed b h s e

theorem Exchanged.mono {a : PairAction F} {request : BitVec 64} {e : TwoWay}
    (hex : Exchanged h s request e) (hmode : interleaved ((s, a) :: h) = interleaved h)
    (hclient : s.client.gone ⊆ s'.client.gone) (hgone : s.responder.gone ⊆ s'.responder.gone) :
    Exchanged ((s, a) :: h) s' request e where
  asked := by
    obtain ⟨packet, hkey, hsent⟩ := hex.asked
    exact ⟨packet, hkey, hclient hsent⟩
  answered := by
    obtain ⟨answer, hanswer, left, hleft, horig, harr, hmade, hle, ⟨p, hp, harrive⟩, hleaves⟩ :=
      hex.answered
    exact ⟨answer, List.mem_append_right _ hanswer, left, hgone hleft, horig, harr, hmade, hle,
      ⟨p, List.mem_cons_of_mem _ hp, harrive⟩, by rw [hmode]; exact hleaves⟩

/-- The stamps of the poll are kept, and more may happen on the network. -/
theorem Timed.mono {a : PairAction F} {e : TwoWay} (ht : Timed b h s e)
    (htx : s'.client.link.peer.local_tx_hw = s.client.link.peer.local_tx_hw)
    (hrx : s'.client.link.peer.local_rx_hw = s.client.link.peer.local_rx_hw)
    (hremote_rx : s'.client.link.peer.remote_rx = s.client.link.peer.remote_rx)
    (hremote_tx : s'.client.link.peer.remote_tx = s.client.link.peer.remote_tx)
    (hfilters : s'.client.link.peer.pollXleave = true →
      s'.client.link.peer.filterTx = htonll (BitVec.ofNat 64 e.requestLeaves) ∧
      s'.client.link.peer.filterRx = htonll (BitVec.ofNat 64 e.responseArrives))
    (htime : s.time ≤ s'.time) (htimes : askTimes ((s, a) :: h) = askTimes h)
    (hmode : interleaved ((s, a) :: h) = interleaved h)
    (hclient : s.client.gone ⊆ s'.client.gone) (hgone : s.responder.gone ⊆ s'.responder.gone) :
    Timed b ((s, a) :: h) s' e where
  tx := htx.trans ht.tx
  rx := hrx.trans ht.rx
  remote_rx := hremote_rx.trans ht.remote_rx
  remote_tx := hremote_tx.trans ht.remote_tx
  past := ht.past.trans htime
  exchanged := by
    obtain ⟨t, hhead, hle, hex⟩ := ht.exchanged
    exact ⟨t, by rw [htimes]; exact hhead, hle, hex.mono hmode hclient hgone⟩
  filters := hfilters

/-! ## The invariant -/

/-- What the poll knows of the network. -/
structure PollTimes (b : Timebase) (h : PairHistory F) (s : Pair F) : Prop where
  followUps : FollowUps h s
  timed : TimedInv b h s
  mode : interleaved h = true → s.client.link.peer.pollXleave = true

structure PairInv (b : Timebase) (h : PairHistory F) (s : Pair F) : Prop
    extends PollTimes b h s where
  poll : PollInv (linkHistory b h) s.client.link.peer.pollState s.client.link.sending
  responder : ResponderInv b h s
  client : ClientInv b h s

theorem PairInv.basic (hi : PairInv b h s) (hx : s.client.link.peer.pollXleave = false) :
    interleaved h = false := by
  rw [← Bool.not_eq_true]
  intro hmode
  rw [hi.mode hmode] at hx
  cases hx

/-- The last basic request has the `txTime` of the poll that waits. -/
theorem PairInv.waiting (hi : PairInv b h s) (hact : s.client.link.peer.pollActive = true)
    (htaken : ¬(s.client.link.peer.pollXleave = true ∨ s.client.link.peer.filterTx = 0)) :
    s.client.link.peer.pollXleave = false ∧ ∃ t ∈ (askTimes h).head?,
      s.client.link.peer.filterTx = htonll (BitVec.ofNat 64 t) := by
  rcases hi.poll.poll hact with ⟨hx, hreq, -⟩ | ⟨hor, -⟩
  · refine ⟨hx, ?_⟩
    rw [hi.client.asked, List.head?_map] at hreq
    obtain ⟨t, ht, heq⟩ := Option.map_eq_some_iff.mp hreq
    exact ⟨t, ht, heq.symm⟩
  · exact absurd hor htaken

/-- A response to the request that waits was made in basic mode, after the request had left. -/
theorem PairInv.basicResponse (hi : PairInv b h s) (htime : s.time < 2 ^ 64)
    (hx : s.client.link.peer.pollXleave = false) {t : ℕ} (ht : t ∈ (askTimes h).head?)
    {frame : FrameNtp} {time : ℕ} (hgone : (frame, time) ∈ s.responder.gone)
    (hours : frame.ipDst = b.clientAddr)
    (horig : frame.ntp.origTime = htonll (BitVec.ofNat 64 t)) :
    ∃ packet sent, ((packet, true), sent) ∈ s.client.gone ∧
      packet.txTime = htonll (BitVec.ofNat 64 t) ∧ ∃ a ∈ answers h, a.response = frame ∧
        sent ≤ a.arrival ∧ a.arrival ≤ a.made ∧ a.made ≤ time ∧
        frame.ntp.rxTime = b.ntpStamp a.arrival ∧ frame.ntp.txTime = b.ntpStamp a.made := by
  obtain ⟨-, a, ha, hresponse, hmade⟩ := hi.responder.departed _ hgone
  obtain rfl : a.response = frame := hresponse
  obtain ⟨⟨⟨packet, callback⟩, sent⟩, hsent, hle, hmode⟩ := hi.responder.answered a ha hours
  have htmem : t ∈ askTimes h := List.mem_of_mem_head? ht
  have ht0 := (hi.client.askTimes t htmem)
  have htlt : t < 2 ^ 64 := (ht0.2.trans hi.client.lastRun).trans_lt htime
  have hoffered := hi.client.outbox.gone_offered hsent
  -- a follow-up request has the stamps of an earlier exchange
  have hearlier : callback = false → packet.txTime ≠ htonll (BitVec.ofNat 64 t) ∧
      packet.rxTime ≠ htonll (BitVec.ofNat 64 t) := by
    rintro rfl
    obtain ⟨tx, rx, htx, hrx, htxle, hrxle, hold | hcur⟩ := hi.followUps packet hoffered
    · obtain ⟨hlttx, hltrx⟩ := hold t ht
      exact ⟨fun heq => hlttx.ne (htonll_ofNat_inj (hlttx.trans htlt) htlt (htx.symm.trans heq)),
        fun heq => hltrx.ne (htonll_ofNat_inj (hltrx.trans htlt) htlt (hrx.symm.trans heq))⟩
    · have hxleave : s.client.link.peer.pollXleave = true := hcur.1
      rw [hx] at hxleave
      cases hxleave
  cases callback with
  | true =>
      rcases hmode with ⟨htx, hstamp⟩ | ⟨hrx, -⟩
      · exact ⟨packet, sent, hsent, htx.symm.trans horig, a, ha, rfl, hle,
          (hi.responder.arrived a ha).2.1, hmade, hi.responder.stamped a ha, hstamp⟩
      · -- a basic request has no receive time
        rw [horig, (hi.client.basic packet hoffered).2.1] at hrx
        exact absurd (htonll_ofNat_inj htlt (Nat.two_pow_pos 64) hrx) ht0.1.ne'
  | false =>
      obtain ⟨htxne, hrxne⟩ := hearlier rfl
      rcases hmode with ⟨htx, -⟩ | ⟨hrx, -⟩
      · exact absurd (htx.symm.trans horig) htxne
      · exact absurd (hrx.symm.trans horig) hrxne

/-- The requests before the last one are earlier. -/
theorem ClientInv.le_head (hi : ClientInv b h s) {t t' : ℕ} (ht : t ∈ (Ntp.askTimes h).head?)
    (ht' : t' ∈ Ntp.askTimes h) : t' ≤ t := by
  have hdec := hi.decreasing
  cases htimes : Ntp.askTimes h with
  | nil =>
      rw [htimes] at ht
      cases ht
  | cons u times =>
      rw [htimes] at ht ht' hdec
      obtain rfl := Option.some.inj ht
      rcases List.mem_cons.mp ht' with rfl | ht'
      · exact le_refl _
      · exact ((List.pairwise_cons.mp hdec).1 t' ht').le

/-- The answer to the follow-up request of the poll, if it is in interleaved mode, gives the time at
which the response to the first request left. -/
theorem PairInv.xleaveResponse (hi : PairInv b h s) (htime : s.time < 2 ^ 64) {e : TwoWay}
    (ht : Timed b h s e) (hx : s.client.link.peer.pollXleave = true) {frame : FrameNtp} {time : ℕ}
    (hgone : (frame, time) ∈ s.responder.gone) (hours : frame.ipDst = b.clientAddr)
    (horig : frame.ntp.origTime = s.client.link.peer.filterRx)
    (hne : frame.ntp.origTime ≠ s.client.link.peer.filterTx) :
    ∃ g ∈ s.responder.gone, g.1.ntp.rxTime = s.client.link.peer.remote_rx ∧
      frame.ntp.txTime = b.ntpStamp g.2 := by
  obtain ⟨-, a, ha, hresponse, hmade⟩ := hi.responder.departed _ hgone
  obtain rfl : a.response = frame := hresponse
  obtain ⟨⟨⟨packet, callback⟩, sent⟩, hsent, hle, hmode⟩ := hi.responder.answered a ha hours
  obtain ⟨hftx, hfrx⟩ := ht.filters hx
  obtain ⟨t, hhead, htle, -⟩ := ht.exchanged
  have hwait := e.forward.trans (e.turn.trans e.back)
  have hlt : e.responseArrives < 2 ^ 64 := ht.past.trans_lt htime
  have hoffered := hi.client.outbox.gone_offered hsent
  have ht0 := hi.client.askTimes t (List.mem_of_mem_head? hhead)
  -- the stamp of an earlier time is not that of the response
  have hlate : ∀ u : ℕ, u ≤ e.responseArrives →
      a.response.ntp.origTime = htonll (BitVec.ofNat 64 u) → u = e.responseArrives :=
    fun u hu heq => htonll_ofNat_inj (hu.trans_lt hlt) hlt
      (heq.symm.trans (horig.trans hfrx))
  cases callback with
  | true =>
      obtain ⟨-, hzero, t', ht', htx⟩ := hi.client.basic packet hoffered
      have ht'le := hi.client.le_head hhead ht'
      rcases hmode with ⟨heq, -⟩ | ⟨heq, -⟩
      · -- then no time has passed since the request was made
        have hlast := hlate t' (ht'le.trans (htle.trans hwait)) (heq.trans htx)
        refine absurd ?_ hne
        rw [horig, hftx, hfrx]
        congr 2
        omega
      · have hlast := hlate 0 (Nat.zero_le _) (heq.trans hzero)
        omega
  | false =>
      obtain ⟨tx, rx, htx, hrx, -, -, hold | hcur⟩ := hi.followUps packet hoffered
      · obtain ⟨hlttx, hltrx⟩ := hold t hhead
        rcases hmode with ⟨heq, -⟩ | ⟨heq, -⟩
        · have hlast := hlate tx (by omega) (heq.trans htx)
          omega
        · have hlast := hlate rx (by omega) (heq.trans hrx)
          omega
      · obtain ⟨-, horg, -, htxf⟩ := hcur
        rcases hmode with ⟨heq, -⟩ | ⟨-, g, hg, hgrx, hgtx⟩
        · exact absurd (heq.trans htxf) hne
        · exact ⟨g, hg, hgrx.trans horg, hgtx⟩

/-! ## What a response does -/

omit [Single F] in
/-- A packet for the follow-up request: it gives the second time stamp, or nothing. -/
theorem Peer.receive_xleave {p : Peer F} (packet : HeaderNtp) (stamps : Stamps)
    (hx : p.pollXleave = true) : ∃ received,
      (p.receive packet stamps).pollState = { p.pollState with
        pktRecv := received,
        remote_tx := if packet.origTime ≠ p.filterTx ∧ packet.origTime = p.filterRx
          then packet.txTime else p.remote_tx } := by
  unfold receive
  rw [if_pos hx]
  by_cases htx : packet.origTime = p.filterTx
  · rw [if_pos htx, if_neg fun h => h.1 htx]
    exact ⟨_, rfl⟩
  · rw [if_neg htx]
    by_cases hrx : packet.origTime = p.filterRx
    · rw [if_neg (not_not.mpr hrx), if_pos ⟨htx, hrx⟩]
      exact ⟨_, rfl⟩
    · rw [if_pos hrx, if_neg fun h => hrx h.2]
      exact ⟨_, rfl⟩

omit [Single F] in
/-- A packet for the first request. -/
theorem Peer.receive_basic {p : Peer F} (packet : HeaderNtp) (stamps : Stamps)
    (hx : p.pollXleave = false) :
    (p.receive packet stamps).pollState = if packet.origTime = p.filterTx then { p.pollState with
      filterTx := 0, pktRecv := true, local_rx_hw := stamps, remote_rx := packet.rxTime,
      remote_tx := packet.txTime } else p.pollState := by
  unfold receive
  rw [if_neg (by simp [hx])]
  by_cases htx : packet.origTime = p.filterTx
  · rw [if_neg (not_not.mpr htx), if_pos htx]
    rfl
  · rw [if_pos htx, if_neg htx]
    rfl

/-- The exchange, when its response has been taken. -/
theorem PairInv.timed_basic (hi : PairInv b h s) (htime : s.time < 2 ^ 64)
    (hact : s.client.link.peer.pollActive = true) (hx : s.client.link.peer.pollXleave = false)
    {arrival time : ℕ} {frame : FrameNtp} (hgone : (frame, time) ∈ s.responder.gone)
    (hours : frame.ipDst = b.clientAddr) (hlate : time ≤ arrival) (h0 : frame.ntp.origTime ≠ 0)
    (horig : frame.ntp.origTime = s.client.link.peer.filterTx)
    (hpoll : PollInv
      ((s.client.link, .receive frame.ntp (b.clientStamps arrival)) :: linkHistory b h)
      (s.client.link.peer.receive frame.ntp (b.clientStamps arrival)).pollState
      s.client.link.sending) :
    ∃ e : TwoWay, e.responseArrives = arrival ∧
      s.client.link.peer.local_tx_hw = b.clientStamps e.requestLeaves ∧
      frame.ntp.rxTime = b.ntpStamp e.requestArrives ∧
      frame.ntp.txTime = b.ntpStamp e.responseLeaves ∧
      ∃ t ∈ (askTimes h).head?, t ≤ e.requestLeaves ∧
        Exchanged ((s, .response frame.ntp arrival) :: h) s (htonll (BitVec.ofNat 64 t)) e := by
  have hdist := hi.client.distinctRequests htime
  have htaken : ¬(s.client.link.peer.pollXleave = true ∨ s.client.link.peer.filterTx = 0) := by
    rw [hx, ← horig]
    simpa using h0
  obtain ⟨-, t, ht, hfilter⟩ := hi.waiting hact htaken
  have hstate := Peer.receive_basic (p := s.client.link.peer) frame.ntp (b.clientStamps arrival) hx
  rw [if_pos horig] at hstate
  rw [hstate] at hpoll
  -- the poll has taken the response, so the stamps of the request are there
  obtain ⟨request, packet', hreq, hcomp, -, -, -⟩ : Exchange _ _ := by
    rcases hpoll.poll hact with ⟨-, hzero, -⟩ | ⟨-, hex, -⟩
    · exact absurd (List.mem_of_mem_head? hzero) hdist.2
    · exact hex
  have hreq : (Ntp.asked (linkHistory b h)).head? = some request := hreq
  have hcomp : (Ntp.completed (linkHistory b h)).head? =
      some (request, s.client.link.peer.local_tx_hw) := hcomp
  rw [hi.client.asked, List.head?_map, ht, Option.map_some, Option.some.injEq] at hreq
  obtain ⟨packet, sent, hsent, hkey, hstamps⟩ :=
    hi.client.completed _ (List.mem_of_mem_head? hcomp)
  obtain ⟨packet1, sent1, hsent1, hkey1, a, ha, hresponse, h1, h2, h3, hrx, htx⟩ :=
    hi.basicResponse htime hx ht hgone hours (horig.trans hfilter)
  -- both are the request that left with this time
  have hsame : ((packet, true), sent) = ((packet1, true), sent1) := by
    refine hi.client.outbox.unique (f := requestKey) (k := packet.txTime) ?_ hsent hsent1 rfl ?_
    · rw [hi.client.keys]
      exact hdist.1
    · exact congrArg some (hkey1.trans (hreq.trans hkey.symm))
  obtain ⟨-, rfl⟩ := Prod.mk.inj hsame
  obtain ⟨t', ht', hkey', ht'le⟩ := hi.client.departed _ _ hsent1
  have hbound := fun u hu => ((hi.client.askTimes u hu).2.trans hi.client.lastRun).trans_lt htime
  obtain rfl := htonll_ofNat_inj (hbound t (List.mem_of_mem_head? ht)) (hbound t' ht')
    (hkey1.symm.trans hkey')
  have hbasic : interleaved ((s, .response frame.ntp arrival) :: h) = false :=
    (interleaved_response s h _ _ fun hleave => absurd (hx.symm.trans hleave.1) (by decide)).trans
      (hi.basic hx)
  subst hresponse
  exact ⟨⟨sent, a.arrival, a.made, arrival, h1, h2, h3.trans hlate⟩, rfl, hstamps, hrx, htx, t, ht,
    ht'le, ⟨packet1, hkey1, hsent1⟩, a, ha, time, hgone, horig.trans hfilter, rfl, h3, hlate,
    ⟨_, List.mem_cons_self, rfl⟩, by rw [hbasic]; rfl⟩

/-- **A response** keeps the stamps of the exchange, or brings them. -/
theorem PairInv.timed_response (hi : PairInv b h s) (htime : s.time < 2 ^ 64) {arrival time : ℕ}
    {frame : FrameNtp} (hpast : arrival ≤ s.time) (hgone : (frame, time) ∈ s.responder.gone)
    (hours : frame.ipDst = b.clientAddr) (hlate : time ≤ arrival) {link : Link F}
    (hlink : s.client.link.step (.receive frame.ntp (b.clientStamps arrival)) = some link)
    (hpoll : PollInv
      ((s.client.link, .receive frame.ntp (b.clientStamps arrival)) :: linkHistory b h)
      link.peer.pollState link.sending) :
    TimedInv b ((s, .response frame.ntp arrival) :: h)
      { s with client := { s.client with link := link } } := by
  obtain rfl := Option.some.inj hlink
  by_cases h0 : frame.ntp.origTime = 0
  · rw [if_pos h0]
    intro hact htaken
    obtain ⟨e, ht⟩ := hi.timed hact htaken
    have hmode := interleaved_response s h frame.ntp arrival fun hleave => hleave.2.1 h0
    exact ⟨e, ht.mono rfl rfl rfl rfl ht.filters (le_refl _) rfl hmode (fun _ => id) fun _ => id⟩
  rw [if_neg h0] at hpoll ⊢
  have hpoll : PollInv
      ((s.client.link, .receive frame.ntp (b.clientStamps arrival)) :: linkHistory b h)
      (s.client.link.peer.receive frame.ntp (b.clientStamps arrival)).pollState
      s.client.link.sending := hpoll
  intro hact htaken
  cases hx : s.client.link.peer.pollXleave with
  | true =>
      obtain ⟨received, hstate⟩ :=
        Peer.receive_xleave (p := s.client.link.peer) frame.ntp (b.clientStamps arrival) hx
      have hactive : s.client.link.peer.pollActive = true :=
        (congrArg PollState.pollActive hstate).symm.trans hact
      obtain ⟨e, ht⟩ := hi.timed hactive (Or.inl hx)
      have htx := congrArg PollState.local_tx_hw hstate
      have hrx := congrArg PollState.local_rx_hw hstate
      have hremote_rx := congrArg PollState.remote_rx hstate
      have hremote_tx := congrArg PollState.remote_tx hstate
      have hfilterTx := congrArg PollState.filterTx hstate
      have hfilterRx := congrArg PollState.filterRx hstate
      have hfilters := ht.filters hx
      by_cases hinter : frame.ntp.origTime ≠ s.client.link.peer.filterTx ∧
          frame.ntp.origTime = s.client.link.peer.filterRx
      · rw [if_pos hinter] at hremote_tx
        obtain ⟨g, hg, hgrx, hgtx⟩ :=
          hi.xleaveResponse htime ht hx hgone hours hinter.2 hinter.1
        obtain ⟨t, hhead, htle, hex⟩ := ht.exchanged
        obtain ⟨a, ha, left, hleft, horig, harr, hmade, hge, ⟨p, hp, harrive⟩, -⟩ := hex.answered
        -- the time of departure is that of the response that the poll has taken
        have hstamp : a.response.ntp.rxTime = s.client.link.peer.remote_rx := by
          rw [hi.responder.stamped a ha, harr, ht.remote_rx]
        obtain rfl := hi.responder.unique htime hg hleft (hgrx.trans hstamp.symm)
        have hle : e.requestArrives ≤ left := harr ▸ (hi.responder.arrived a ha).2.1.trans hmade
        have hmode : interleaved ((s, .response frame.ntp arrival) :: h) = true := by
          rw [interleaved, Pair.takesXleave, decide_eq_true ⟨hx, h0, hinter⟩, Bool.true_or]
        exact ⟨⟨e.requestLeaves, e.requestArrives, left, e.responseArrives, e.forward, hle, hge⟩,
          htx.trans ht.tx, hrx.trans ht.rx, hremote_rx.trans ht.remote_rx, hremote_tx.trans hgtx,
          ht.past, ⟨t, hhead, htle, hex.asked, a, ha, left, hleft, horig, harr, hmade, hge,
            ⟨p, List.mem_cons_of_mem _ hp, harrive⟩, by rw [hmode]; rfl⟩,
          fun _ => ⟨hfilterTx.trans hfilters.1, hfilterRx.trans hfilters.2⟩⟩
      · rw [if_neg hinter] at hremote_tx
        have hmode := interleaved_response s h frame.ntp arrival fun hleave => hinter hleave.2.2
        exact ⟨e, ht.mono htx hrx hremote_rx hremote_tx
          (fun _ => ⟨hfilterTx.trans hfilters.1, hfilterRx.trans hfilters.2⟩) (le_refl _) rfl hmode
          (fun _ => id) fun _ => id⟩
  | false =>
      have hstate := Peer.receive_basic (p := s.client.link.peer) frame.ntp
        (b.clientStamps arrival) hx
      by_cases horig : frame.ntp.origTime = s.client.link.peer.filterTx
      · rw [if_pos horig] at hstate
        have hactive : s.client.link.peer.pollActive = true :=
          (congrArg PollState.pollActive hstate).symm.trans hact
        obtain ⟨e, rfl, htx, hrx, htx', t, hhead, htle, hex⟩ :=
          hi.timed_basic htime hactive hx hgone hours hlate h0 horig hpoll
        refine ⟨e, (congrArg PollState.local_tx_hw hstate).trans htx,
          congrArg PollState.local_rx_hw hstate,
          (congrArg PollState.remote_rx hstate).trans hrx,
          (congrArg PollState.remote_tx hstate).trans htx', hpast,
          ⟨t, hhead, htle, hex.asked, hex.answered⟩, ?_⟩
        intro hxleave
        have hxleave' := (congrArg PollState.pollXleave hstate).symm.trans hxleave
        exact absurd (hx.symm.trans hxleave') (by simp)
      · rw [if_neg horig] at hstate
        have htaken' : s.client.link.peer.pollXleave = true ∨ s.client.link.peer.filterTx = 0 :=
          htaken.imp (fun h => (congrArg PollState.pollXleave hstate).symm.trans h)
            fun h => (congrArg PollState.filterTx hstate).symm.trans h
        obtain ⟨e, ht⟩ := hi.timed ((congrArg PollState.pollActive hstate).symm.trans hact) htaken'
        have hmode := interleaved_response s h frame.ntp arrival fun hleave =>
          absurd (hx.symm.trans hleave.1) (by decide)
        refine ⟨e, ht.mono (congrArg PollState.local_tx_hw hstate)
          (congrArg PollState.local_rx_hw hstate) (congrArg PollState.remote_rx hstate)
          (congrArg PollState.remote_tx hstate) ?_ (le_refl _) rfl hmode (fun _ => id)
          fun _ => id⟩
        intro hxleave
        have hxleave' := (congrArg PollState.pollXleave hstate).symm.trans hxleave
        exact absurd (hx.symm.trans hxleave') (by simp)

/-! ## The steps -/

/-- What the poll has when the task takes a response, or the fallback. -/
theorem PairInv.taken (hi : PairInv b h s) (htime : s.time < 2 ^ 64) {env : Env F}
    {accepted : Bool} (hown : TakesOwn s.client.link (.run env accepted))
    (hact : s.client.link.peer.pollActive = true)
    (hr : s.client.link.peer.pktRecv = true ∨ s.client.link.peer.pollXleave = true) :
    ∃ e, Timed b h s e :=
  hi.timed hact (hi.poll.taken (hi.client.distinctRequests htime) hown hact hr).1

/-- A step that sends nothing keeps what is known of the follow-up requests. -/
theorem FollowUps.keep {h' : PairHistory F} (hf : FollowUps h s)
    (hoffered : offered h' = offered h) (htimes : askTimes h' = askTimes h)
    (hlast : s.client.lastRun ≤ s'.client.lastRun)
    (hcurrent : ∀ packet, Current s.client.link.peer.pollState packet →
      Current s'.client.link.peer.pollState packet) : FollowUps h' s' := by
  intro packet hpacket
  rw [hoffered] at hpacket
  obtain ⟨tx, rx, htx, hrx, htxle, hrxle, hor⟩ := hf packet hpacket
  refine ⟨tx, rx, htx, hrx, htxle.trans hlast, hrxle.trans hlast, ?_⟩
  rw [htimes]
  exact hor.imp_right (hcurrent packet)

/-- A step that sends nothing, and does nothing to the poll, or ends it. -/
theorem PairInv.keep {a : PairAction F} (hi : PairInv b h s) {active received : Bool}
    (hstate : s'.client.link.peer.pollState = { s.client.link.peer.pollState with
      pollActive := active, pktRecv := received })
    (hactive : active = true → s.client.link.peer.pollActive = true)
    (hoffered : offered ((s, a) :: h) = offered h) (htimes : askTimes ((s, a) :: h) = askTimes h)
    (hmode : interleaved ((s, a) :: h) = interleaved h)
    (hlast : s.client.lastRun ≤ s'.client.lastRun) (htime : s.time ≤ s'.time)
    (hclient : s.client.gone ⊆ s'.client.gone) (hgone : s.responder.gone ⊆ s'.responder.gone) :
    PollTimes b ((s, a) :: h) s' := by
  have hx := congrArg PollState.pollXleave hstate
  refine ⟨hi.followUps.keep hoffered htimes hlast fun packet hcur => ?_, fun hact htaken => ?_,
    fun hleave => hx.trans (hi.mode (hmode ▸ hleave))⟩
  · rw [hstate]
    exact hcur
  · have htx := congrArg PollState.filterTx hstate
    have hrx := congrArg PollState.filterRx hstate
    obtain ⟨e, ht⟩ := hi.timed (hactive ((congrArg PollState.pollActive hstate).symm.trans hact))
      (htaken.imp (fun h => hx.symm.trans h) fun h => htx.symm.trans h)
    exact ⟨e, ht.mono (congrArg PollState.local_tx_hw hstate)
      (congrArg PollState.local_rx_hw hstate) (congrArg PollState.remote_rx hstate)
      (congrArg PollState.remote_tx hstate)
      (fun h => ⟨htx.trans (ht.filters (hx.symm.trans h)).1,
        hrx.trans (ht.filters (hx.symm.trans h)).2⟩) htime htimes hmode hclient hgone⟩

/-- **The task** keeps the stamps of the exchange, and sends them in its follow-up request. -/
theorem PairInv.run (hi : PairInv b h s) (htime : s.time < 2 ^ 64) {env : Env F} {accepted : Bool}
    (hlate : s.client.lastRun < s.time) (hnow : env.now = BitVec.ofNat 64 s.time)
    (hown : TakesOwn s.client.link (.run env accepted)) {link : Link F}
    (hlink : s.client.link.step (.run env accepted) = some link) {ring : List (HeaderNtp × Bool)} :
    PollTimes b ((s, .run env accepted) :: h) { s with client := { s.client with
      link := link, lastRun := s.time, ring := ring } } := by
  obtain rfl := Option.some.inj hlink
  have hsend := s.client.link.peer.run_sends env
  have hoffered : offered ((s, .run env accepted) :: h) =
      packets (s.client.link.peer.run env).2 ++ offered h := rfl
  have htimes : askTimes ((s, .run env accepted) :: h) =
      ((packets (s.client.link.peer.run env).2).filter (·.2)).map (fun _ => s.time) ++
        askTimes h := rfl
  have hmode : interleaved ((s, .run env accepted) :: h) =
      ((packets (s.client.link.peer.run env).2).isEmpty && interleaved h) := rfl
  generalize hq : (s.client.link.peer.run env).1.pollState = q at hsend
  generalize packets (s.client.link.peer.run env).2 = sent at hsend hoffered htimes hmode
  generalize samples (s.client.link.peer.run env).2 = smps at hsend
  have hqx := congrArg PollState.pollXleave hq
  have hqf := congrArg PollState.filterTx hq
  cases hsend with
  | idle hact =>
      exact hi.keep hq id hoffered htimes hmode hlate.le (le_refl _) (fun _ => id) fun _ => id
  | start hact horig hrx htx =>
      refine ⟨fun packet hpacket => ?_, fun _ htaken => ?_, fun hleave => ?_⟩
      · rw [hoffered] at hpacket
        rcases List.mem_cons.mp hpacket with heq | hpacket
        · cases heq
        obtain ⟨tx, rx, htx, hrx, htxle, hrxle, -⟩ := hi.followUps packet hpacket
        refine ⟨tx, rx, htx, hrx, htxle.trans hlate.le, hrxle.trans hlate.le, Or.inl ?_⟩
        intro t ht
        rw [htimes] at ht
        obtain rfl := Option.some.inj ht
        exact ⟨htxle.trans_lt hlate, hrxle.trans_lt hlate⟩
      · -- a poll that starts waits for its response
        rcases htaken with hx | hf
        · exact absurd (hqx.symm.trans hx) (by simp)
        · have hzero : htonll (BitVec.ofNat 64 s.time) = htonll (BitVec.ofNat 64 0) := by
            rw [← hnow]
            exact hqf.symm.trans hf
          have ht := htonll_ofNat_inj htime (by decide) hzero
          omega
      · rw [hmode] at hleave
        cases hleave
  | resend hact hs =>
      have hsent := hi.poll.sent hact
      exact absurd (hs.symm.trans hsent) (by simp)
  | followUp hact hr hx horig hrx htx =>
      obtain ⟨e, ht⟩ := hi.taken htime hown hact (Or.inl hr)
      have hwait := e.forward.trans (e.turn.trans e.back)
      have hmonotx : s.client.link.peer.local_tx_hw.mono = BitVec.ofNat 64 e.requestLeaves :=
        congrArg Stamps.mono ht.tx
      have hmonorx : s.client.link.peer.local_rx_hw.mono = BitVec.ofNat 64 e.responseArrives :=
        congrArg Stamps.mono ht.rx
      have hfilterRx := congrArg PollState.filterRx hq
      refine ⟨fun packet hpacket => ?_, fun hact' htaken => ⟨e, ht.mono
        (congrArg PollState.local_tx_hw hq) (congrArg PollState.local_rx_hw hq)
        (congrArg PollState.remote_rx hq) (congrArg PollState.remote_tx hq)
        (fun _ => ⟨hqf.trans (by rw [hmonotx]), hfilterRx.trans (by rw [hmonorx])⟩)
        (le_refl _) htimes (hmode.trans (hi.basic hx).symm) (fun _ => id) fun _ => id⟩,
        fun _ => hqx⟩
      rw [hoffered] at hpacket
      rcases List.mem_cons.mp hpacket with heq | hpacket
      · obtain rfl := (Prod.mk.inj heq).1
        refine ⟨e.requestLeaves, e.responseArrives, by rw [htx, hmonotx], by rw [hrx, hmonorx],
          hwait.trans ht.past, ht.past, Or.inr ?_⟩
        show Current (s.client.link.peer.run env).1.pollState packet
        rw [hq]
        exact ⟨rfl, horig, hrx, htx⟩
      · obtain ⟨tx, rx, htx, hrx, htxle, hrxle, hor⟩ := hi.followUps packet hpacket
        refine ⟨tx, rx, htx, hrx, htxle.trans hlate.le, hrxle.trans hlate.le, Or.inl ?_⟩
        rw [htimes]
        refine hor.resolve_right fun hcur => ?_
        exact absurd (hx.symm.trans hcur.1) (by simp)
  | push hact hr hqeq =>
      exact hi.keep (hq.trans hqeq) (fun _ => hact) hoffered htimes hmode hlate.le (le_refl _)
        (fun _ => id) fun _ => id
  | noSample hact hqeq =>
      exact hi.keep (hq.trans hqeq) (fun _ => hact) hoffered htimes hmode hlate.le (le_refl _)
        (fun _ => id) fun _ => id

/-- The stamps of a request come before its response has been taken. -/
theorem PairInv.timed_requestStamped (hi : PairInv b h s) (htime : s.time < 2 ^ 64)
    {packet : HeaderNtp} {time : ℕ} {left : List ((HeaderNtp × Bool) × ℕ)}
    (hleft : s.client.left = ((packet, true), time) :: left) {link : Link F}
    (hlink : s.client.link.step (.sent (b.clientStamps time)) = some link)
    {ring : List (HeaderNtp × Bool)} :
    PollTimes b ((s, .requestDone) :: h) { s with client := { s.client with
      link := link, ring := ring, left := left } } := by
  obtain ⟨rest, hring, -, -⟩ := hi.client.reclaim hleft
  have hsending : s.client.link.sending = packet.txTime :: rest.filterMap requestKey := by
    rw [hi.client.sending, hring]
    rfl
  rw [Link.step, hsending] at hlink
  obtain rfl := Option.some.inj hlink
  refine ⟨hi.followUps.keep rfl rfl (le_refl _) fun _ => id, fun hact htaken => ?_, hi.mode⟩
  rcases hi.poll.poll hact with ⟨hx, hreq, -⟩ | ⟨-, -, hnone⟩
  · -- the request waits for its response
    rcases htaken with hx' | hf
    · exact absurd (hx.symm.trans hx') (by simp)
    · have hzero : s.client.link.peer.filterTx = 0 := hf
      have hmem : s.client.link.peer.filterTx ∈ Ntp.asked (linkHistory b h) :=
        List.mem_of_mem_head? hreq
      rw [hzero] at hmem
      exact absurd hmem (hi.client.distinctRequests htime).2
  · rw [hsending] at hnone
    cases hnone

omit [Single F] in
/-- A response keeps what the follow-up request of the poll says. -/
theorem Current.receive {p : Peer F} {packet : HeaderNtp} (hcur : Current p.pollState packet)
    (response : HeaderNtp) (stamps : Stamps) :
    Current (p.receive response stamps).pollState packet := by
  obtain ⟨received, hstate⟩ := Peer.receive_xleave response stamps hcur.1
  rw [hstate]
  exact hcur

theorem PairInv.followUps_response (hi : PairInv b h s) {packet : HeaderNtp} {arrival : ℕ}
    {link : Link F}
    (hlink : s.client.link.step (.receive packet (b.clientStamps arrival)) = some link) :
    FollowUps ((s, .response packet arrival) :: h)
      { s with client := { s.client with link := link } } := by
  obtain rfl := Option.some.inj hlink
  refine hi.followUps.keep rfl rfl (le_refl _) fun packet' hcur => ?_
  by_cases h0 : packet.origTime = 0
  · rw [if_pos h0]
    exact hcur
  · rw [if_neg h0]
    exact hcur.receive packet _

/-- A response does not change the mode of the poll, and is taken in interleaved mode only then. -/
theorem PairInv.mode_response (hi : PairInv b h s) {packet : HeaderNtp} {arrival : ℕ}
    {link : Link F}
    (hlink : s.client.link.step (.receive packet (b.clientStamps arrival)) = some link)
    (hleave : interleaved ((s, .response packet arrival) :: h) = true) :
    link.peer.pollXleave = true := by
  obtain rfl := Option.some.inj hlink
  have hx : s.client.link.peer.pollXleave = true := by
    rcases Bool.or_eq_true_iff.mp hleave with htakes | hleave
    · exact (of_decide_eq_true htakes).1
    · exact hi.mode hleave
  split
  · exact hx
  · obtain ⟨received, hstate⟩ := Peer.receive_xleave packet (b.clientStamps arrival) hx
    exact (congrArg PollState.pollXleave hstate).trans hx

theorem Pair.step_time {a : PairAction F} (hs : s.step b a = some s') : s.time ≤ s'.time := by
  cases Pair.step_cases hs with
  | tick => exact Nat.le_succ _
  | _ => exact le_refl _

theorem PairInv.poll_step (hi : PairInv b h s) (htime : s.time < 2 ^ 64) {a : PairAction F}
    (hcb : CallbackFirst (linkHistory b ((s, a) :: h)))
    (hown : ∀ p ∈ linkHistory b ((s, a) :: h), TakesOwn p.1 p.2) (hs : s.step b a = some s') :
    PollInv (linkHistory b ((s, a) :: h)) s'.client.link.peer.pollState s'.client.link.sending := by
  rcases Pair.step_link hs with ⟨hnone, hlink⟩ | ⟨c, hc, hlink⟩
  · have hsame : linkHistory b ((s, a) :: h) = linkHistory b h :=
      List.filterMap_cons_none (congrArg (Option.map _) hnone)
    rw [hsame, hlink]
    exact hi.poll
  · rw [linkHistory_cons hc] at hcb hown ⊢
    exact (pollInv_step hi.poll (hi.client.distinctRequests htime) hcb
      (hown _ List.mem_cons_self) hlink).1

/-- **Every step keeps the invariant.** -/
theorem PairInv.step (hi : PairInv b h s) (hx : XleaveInv (serverHistory b h) s.responder.server)
    {a : PairAction F} (hs : s.step b a = some s') (htime : s'.time < 2 ^ 64)
    (hcb : CallbackFirst (linkHistory b ((s, a) :: h)))
    (hown : ∀ p ∈ linkHistory b ((s, a) :: h), TakesOwn p.1 p.2) :
    PairInv b ((s, a) :: h) s' := by
  have htime := (Pair.step_time hs).trans_lt htime
  have hpoll := hi.poll_step htime hcb hown hs
  have hkeep : PollTimes b ((s, a) :: h) s' := by
    cases Pair.step_cases hs with
    | tick => exact hi.keep rfl id rfl rfl rfl (le_refl _) (Nat.le_succ _) (fun _ => id) fun _ => id
    | run hlate hnow _ hlink =>
        exact hi.run htime hlate hnow (hown _ List.mem_cons_self) hlink
    | @arpReply macAddr env _ hlink =>
        obtain rfl := Option.some.inj hlink
        exact hi.keep (Peer.arpCallback_pollState _ macAddr env) id rfl rfl rfl (le_refl _)
          (le_refl _) (fun _ => id) fun _ => id
    | requestLeaves _ =>
        exact hi.keep rfl id rfl rfl rfl (le_refl _) (le_refl _) (List.subset_cons_self _ _)
          fun _ => id
    | requestStamped hleft hlink => exact hi.timed_requestStamped htime hleft hlink
    | requestDone _ =>
        exact hi.keep rfl id rfl rfl rfl (le_refl _) (le_refl _) (fun _ => id) fun _ => id
    | request _ _ _ _ _ _ _ =>
        exact hi.keep rfl id rfl rfl rfl (le_refl _) (le_refl _) (fun _ => id) fun _ => id
    | responseLeaves _ =>
        exact hi.keep rfl id rfl rfl rfl (le_refl _) (le_refl _) (fun _ => id)
          (List.subset_cons_self _ _)
    | responseDone _ _ =>
        exact hi.keep rfl id rfl rfl rfl (le_refl _) (le_refl _) (fun _ => id) fun _ => id
    | response hpast hgone hours hlate hlink =>
        exact ⟨hi.followUps_response hlink,
          hi.timed_response htime hpast hgone hours hlate hlink hpoll, hi.mode_response hlink⟩
  exact ⟨hkeep, hpoll, hi.responder.step hx hs, hi.client.step hi.poll.sent hs⟩

/-- The prefixes of a run in which the stamps are in order. -/
theorem linkHistory_tail {a : PairAction F} (hs : s.step b a = some s')
    (hcb : CallbackFirst (linkHistory b ((s, a) :: h)))
    (hown : ∀ p ∈ linkHistory b ((s, a) :: h), TakesOwn p.1 p.2) :
    CallbackFirst (linkHistory b h) ∧ ∀ p ∈ linkHistory b h, TakesOwn p.1 p.2 := by
  rcases Pair.step_link hs with ⟨hnone, -⟩ | ⟨c, hc, -⟩
  · have hsame : linkHistory b ((s, a) :: h) = linkHistory b h :=
      List.filterMap_cons_none (congrArg (Option.map _) hnone)
    rw [hsame] at hcb hown
    exact ⟨hcb, hown⟩
  · rw [linkHistory_cons hc] at hcb hown
    exact ⟨hcb.tail, fun p hp => hown p (List.mem_cons_of_mem _ hp)⟩

theorem pairInv_init (b : Timebase) (ipAddr ipSubnet ipAddress : BitVec 32) :
    PairInv b [] (Pair.init ipAddr ipSubnet ipAddress : Pair F) where
  poll := ⟨List.Sublist.refl _, by simp [linkHistory, completed], fun h => (by cases h),
    fun h => (by cases h)⟩
  responder := ⟨.start, List.Pairwise.nil, by simp [answers], by simp [answers],
    by simp [Pair.init], by simp [serverHistory, transmissions], by simp [answers]⟩
  client := ⟨.start, rfl, le_refl _, by simp [Pair.init], List.Pairwise.nil, by simp [askTimes],
    rfl, rfl, by simp [linkHistory, completed], by simp [offered], by simp [Pair.init]⟩
  followUps := by simp [FollowUps, offered]
  timed h := by cases h
  mode h := by cases h

/-- **In every run** in which the transmit stamps come before the responses and the polls take only
their own responses. -/
theorem pairInv_of_run {ipAddr ipSubnet ipAddress : BitVec 32}
    (hrun : Run (Pair.step b) (Pair.init ipAddr ipSubnet ipAddress) h s) (htime : s.time < 2 ^ 64)
    (hcb : CallbackFirst (linkHistory b h)) (hown : ∀ p ∈ linkHistory b h, TakesOwn p.1 p.2) :
    PairInv b h s := by
  induction hrun with
  | start => exact pairInv_init b _ _ _
  | @next h s a s' hrun hs ih =>
      have htime' := (Pair.step_time hs).trans_lt htime
      have htail := linkHistory_tail hs hcb hown
      exact (ih htime' htail.1 htail.2).step (xleaveInv_of_run (server_run hrun)) hs htime hcb hown

/-! ## The samples -/

/-- The samples that a step pushes. -/
def Pair.sampled (s : Pair F) : PairAction F → List Sample
  | .run env _ => samples (s.client.link.peer.run env).2
  | _ => []

/-- The sample measures the exchange of the last basic request and its response. -/
structure Measures (b : Timebase) (h : PairHistory F) (s : Pair F) (smp : Sample) (e : TwoWay) :
    Prop where
  exchanged : ∃ t ∈ (askTimes h).head?, Exchanged h s (htonll (BitVec.ofNat 64 t)) e
  past : e.responseArrives ≤ s.time
  taiLocal : smp.taiLocal =
    midpoint (shows b.clientTai e.requestLeaves) (shows b.clientTai e.responseArrives)
  taiRemote : smp.taiRemote =
    midpoint (shows b.serverTai e.requestArrives) (shows b.serverTai e.responseLeaves)
  delay : smp.delay = BitVec.ofNat 32 (e.delay / 4)

/-- The stamps of the server, back in TAI. -/
theorem Timebase.ntpStamp_tai (b : Timebase) (t : ℕ) :
    htonll (b.ntpStamp t) + b.clkTaiUtcOffset - NTP_UTC_OFFSET = shows b.serverTai t := by
  rw [ntpStamp, htonll_htonll, ntpTime]
  abel

/-- The sample that the stamps give. -/
theorem Timed.measures {e : TwoWay} (ht : Timed b h s e) (htime : s.time < 2 ^ 63) {env : Env F}
    (hutc : env.clkTaiUtcOffset = b.clkTaiUtcOffset) :
    Measures b h s (s.client.link.peer.pollSample env) e where
  exchanged := by
    obtain ⟨t, hhead, -, hex⟩ := ht.exchanged
    exact ⟨t, hhead, hex⟩
  past := ht.past
  taiLocal := by
    show avg64 _ _ = _
    rw [ht.tx, ht.rx]
    rfl
  taiRemote := by
    show avg64 _ _ = _
    rw [ht.remote_rx, ht.remote_tx, hutc, b.ntpStamp_tai, b.ntpStamp_tai]
    rfl
  delay := by
    have hlt : e.delay ≤ e.responseArrives := (Nat.sub_le _ _).trans (Nat.sub_le _ _)
    have hpast := ht.past
    show BitVec.setWidth 32 (BitVec.sshiftRight
      ((s.client.link.peer.local_rx_hw.comp - s.client.link.peer.local_tx_hw.comp) -
        ((htonll s.client.link.peer.remote_tx + env.clkTaiUtcOffset - NTP_UTC_OFFSET) -
          (htonll s.client.link.peer.remote_rx + env.clkTaiUtcOffset - NTP_UTC_OFFSET))) 2) = _
    rw [ht.remote_rx, ht.remote_tx, hutc, b.ntpStamp_tai, b.ntpStamp_tai, ht.tx, ht.rx]
    show BitVec.setWidth 32 (BitVec.sshiftRight ((shows b.clientComp e.responseArrives -
      shows b.clientComp e.requestLeaves) - (shows b.serverTai e.responseLeaves -
        shows b.serverTai e.requestArrives)) 2) = _
    rw [e.shows_delay, ofNat_sshiftRight (by omega)]
    exact BitVec.setWidth_ofNat_of_le (by decide) _

/-- The offset of a sample, and its error. -/
theorem Measures.offset {smp : Sample} {e : TwoWay} (hm : Measures b h s smp e)
    (htime : s.time < 2 ^ 63) :
    (smp.getOffset - (b.serverTai - b.clientTai)).toInt = e.error := by
  have hpast := hm.past
  have hlt : e.delay ≤ e.responseArrives := (Nat.sub_le _ _).trans (Nat.sub_le _ _)
  rw [Sample.getOffset, hm.taiLocal, hm.taiRemote,
    e.midpoint_sub_midpoint b.clientTai b.serverTai (by omega), add_sub_cancel_left,
    BitVec.toInt_ofInt]
  refine bmod_of_abs_lt ?_
  have herror := e.error_le
  omega

/-- A sample is pushed with the stamps of an exchange. -/
theorem PairInv.measures (hi : PairInv b h s) (htime : s.time < 2 ^ 63) {a : PairAction F}
    (hs : s.step b a = some s') (hown : ∀ p ∈ linkHistory b ((s, a) :: h), TakesOwn p.1 p.2)
    {smp : Sample} (hsmp : smp ∈ s.sampled a) : ∃ e, Measures b h s smp e := by
  cases Pair.step_cases hs with
  | @run env accepted _ _ hutc _ hlink =>
      have hsmp : smp ∈ samples (s.client.link.peer.run env).2 := hsmp
      have hown := hown (s.client.link, .run env accepted) List.mem_cons_self
      have hsend := s.client.link.peer.run_sends env
      generalize (s.client.link.peer.run env).1.pollState = q at hsend
      generalize packets (s.client.link.peer.run env).2 = sent at hsend
      generalize samples (s.client.link.peer.run env).2 = smps at hsend hsmp
      cases hsend with
      | push hact hr _ =>
          obtain rfl := List.mem_singleton.mp hsmp
          obtain ⟨e, ht⟩ := hi.taken (by omega) hown hact hr
          exact ⟨e, ht.measures htime hutc⟩
      | _ => cases hsmp
  | _ => cases hsmp

/-- **The accuracy of a sample**: in every run the offset of a sample is that of the TAI clocks,
with an error of at most half of the time that the request and the response spent on the way; this
is the delay of the sample, as long as the exchange takes less than 4 seconds. -/
theorem sampleAccuracy_of_run {ipAddr ipSubnet ipAddress : BitVec 32}
    (hrun : Run (Pair.step b) (Pair.init ipAddr ipSubnet ipAddress) h s) (htime : s.time < 2 ^ 63)
    (hcb : CallbackFirst (linkHistory b h)) (hown : ∀ p ∈ linkHistory b h, TakesOwn p.1 p.2) :
    ∀ h₁ s₁ a, (s₁, a) :: h₁ <:+ h → ∀ smp ∈ s₁.sampled a, ∃ e, Measures b h₁ s₁ smp e ∧
      2 * |(smp.getOffset - (b.serverTai - b.clientTai)).toInt| ≤ e.delay + 1 ∧
      (e.delay < 2 ^ 34 → |(smp.getOffset - (b.serverTai - b.clientTai)).toInt| ≤
        2 * smp.delay.toNat + 2) := by
  induction hrun with
  | start =>
      intro h₁ s₁ a hsuffix
      cases List.suffix_nil.mp hsuffix
  | @next h s a s' hrun hs ih =>
      have htime' := (Pair.step_time hs).trans_lt htime
      have htail := linkHistory_tail hs hcb hown
      intro h₁ s₁ a₁ hsuffix smp hsmp
      rcases List.suffix_cons_iff.mp hsuffix with heq | hsuffix
      · obtain ⟨hp, rfl⟩ := List.cons.inj heq
        obtain ⟨rfl, rfl⟩ := Prod.mk.inj hp
        obtain ⟨e, hm⟩ :=
          (pairInv_of_run hrun (by omega) htail.1 htail.2).measures htime' hs hown hsmp
        have herror := e.error_le
        refine ⟨e, hm, ?_⟩
        rw [hm.offset htime', hm.delay, BitVec.toNat_ofNat]
        exact ⟨herror, fun hshort => by omega⟩
      · exact ih htime' htail.1 htail.2 h₁ s₁ a₁ hsuffix smp hsmp

/-! ## A burst to look at -/

/-- A client at 10.0.0.2; the server is 4 units ahead of it. -/
def localPair : Timebase := ⟨0x0200000A, 8, 100, 50, 60, 104, 37 <<< 32⟩

/-- The rest of the firmware of the client. -/
def clientAt (now : ℕ) : Env Nano :=
  { atSecond 1 with
    now := BitVec.ofNat 64 now, ipAddress := 0x0200000A, clkTaiUtcOffset := 37 <<< 32 }

/-- The server at 10.0.0.1 handles a request. -/
def respondsAt (arrival now : ℕ) : ServerEnv :=
  { serverAt 0 with stamps := localPair.serverStamps arrival, taiNow := shows 104 now }

/-- The first request and the follow-up request of the client. -/
def burstRequest (origTime rxTime txTime : BitVec 64) : FrameNtp :=
  { requestWith origTime rxTime txTime with ntp :=
    { (requestWith origTime rxTime txTime).ntp with
      stratum := 16, poll := 1, precision := NTP_CLK_PREC } }

def firstRequest : FrameNtp := burstRequest 0 0 (htonll 2)

def firstResponse : FrameNtp := ntpAnswer (fun _ => ⟨0, 0⟩) (respondsAt 5 5) firstRequest

def secondRequest : FrameNtp := burstRequest (localPair.ntpStamp 5) (htonll 7) (htonll 3)

def secondResponse : FrameNtp :=
  ntpAnswer (ntpTxCallback (fun _ => ⟨0, 0⟩) firstResponse (localPair.serverStamps 6) (37 <<< 32))
    (respondsAt 10 10) secondRequest

/-- A poll of a server in the same subnet, with its follow-up request. -/
def burst : List (PairAction Nano) :=
  [.tick, .run (clientAt 1) false, .arpReply 5 (clientAt 1), .tick, .run (clientAt 2) true, .tick,
    .requestLeaves, .requestDone, .tick, .tick, .request 5 (respondsAt 5 5) firstRequest 90 true,
    .tick, .responseLeaves, .responseDone, .tick, .response firstResponse.ntp 7, .tick,
    .run (clientAt 8) true, .tick, .requestLeaves, .requestDone, .tick,
    .request 10 (respondsAt 10 10) secondRequest 90 true, .tick, .responseLeaves, .tick,
    .response secondResponse.ntp 12, .tick, .run (clientAt 13) false]

theorem sampleAccuracy_of_run_burst : ∃ h₁ s₁ a s,
    Run (Pair.step localPair) (Pair.init 0x0100000A 0x00FFFFFF 0x0200000A : Pair Nano)
        ((s₁, a) :: h₁) s ∧
      interleaved h₁ = true ∧ ∃ smp ∈ s₁.sampled a, ∃ e, Measures localPair h₁ s₁ smp e ∧
        2 * |(smp.getOffset - (104 - 100)).toInt| ≤ e.delay + 1 := by
  obtain ⟨h, s, hrun, hp⟩ := @exists_run_of_replay _ _ (Pair.step localPair)
    (Pair.init 0x0100000A 0x00FFFFFF 0x0200000A) burst
    (fun h s => decide (CallbackFirst (linkHistory localPair h) ∧
      (∀ p ∈ linkHistory localPair h, TakesOwn p.1 p.2) ∧ s.time < 2 ^ 63) &&
      h.head?.any (fun p : Pair Nano × PairAction Nano => decide ((p.1.sampled p.2).length = 1)) &&
      interleaved h.tail) (by decide +kernel)
  obtain ⟨hp, hleave⟩ := Bool.and_eq_true_iff.mp hp
  obtain ⟨hp, hpush⟩ := Bool.and_eq_true_iff.mp hp
  obtain ⟨hcb, hown, htime⟩ := of_decide_eq_true hp
  cases h with
  | nil => cases hpush
  | cons p h₁ =>
      obtain ⟨s₁, a⟩ := p
      obtain ⟨smp, hsmp⟩ := List.length_eq_one_iff.mp (of_decide_eq_true hpush)
      have hmem : smp ∈ s₁.sampled a := by
        rw [hsmp]
        exact List.mem_singleton_self smp
      obtain ⟨e, hm, herror, -⟩ :=
        sampleAccuracy_of_run hrun htime hcb hown h₁ s₁ a (List.suffix_refl _) smp hmem
      exact ⟨h₁, s₁, a, s, hrun, hleave, smp, hmem, e, hm, herror⟩

end Gpsdo.Ntp
