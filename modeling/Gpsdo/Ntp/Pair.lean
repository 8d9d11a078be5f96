import Gpsdo.Basic.Outbox
import Gpsdo.Basic.TwoWay
import Gpsdo.Ntp.Exchange
import Gpsdo.Ntp.Interleave

set_option autoImplicit false

/-! # A client and a server

Two devices run the firmware: on one a `Peer` polls the other one, which also serves other clients.
The network may lose, repeat, delay and reorder what the devices send. Each device stamps the frames
when they leave and when they arrive, and learns the stamps later. The time is that of the
monotonic clock of the client; the other clocks run at the same rate.
-/

namespace Gpsdo.Ntp

variable {F : Type}

/-! ## The machine -/

/-- The address of the client, and what the clocks show at the time 0. -/
structure Timebase where
  clientAddr : BitVec 32
  clientComp : BitVec 64
  clientTai : BitVec 64
  serverMono : BitVec 64
  serverComp : BitVec 64
  serverTai : BitVec 64
  clkTaiUtcOffset : BitVec 64

namespace Timebase

def clientStamps (b : Timebase) (t : ℕ) : Stamps :=
  ⟨BitVec.ofNat 64 t, shows b.clientComp t, shows b.clientTai t⟩

def serverStamps (b : Timebase) (t : ℕ) : Stamps :=
  ⟨shows b.serverMono t, shows b.serverComp t, shows b.serverTai t⟩

/-- The stamp of the server at a time, as it is sent. -/
def ntpStamp (b : Timebase) (t : ℕ) : BitVec 64 :=
  htonll (ntpTime (shows b.serverTai t) b.clkTaiUtcOffset)

end Timebase

/-- The NTP packets that are handed to the network, and whether `txCallback` is asked for. -/
def packets (out : List Output) : List (HeaderNtp × Bool) :=
  out.filterMap fun
    | .transmit _ _ packet callback => some (packet, callback)
    | _ => none

/-- The device that polls: its peer, the time of the last activation of the task, and its
transmitter. -/
structure Client (F : Type) where
  link : Link F
  lastRun : ℕ
  ring : List (HeaderNtp × Bool)
  left : List ((HeaderNtp × Bool) × ℕ)
  gone : List ((HeaderNtp × Bool) × ℕ)

/-- The device that is polled: the time at which the last request arrived, and its transmitter. -/
structure Responder where
  server : Server
  lastArrival : ℕ
  left : List (FrameNtp × ℕ)
  gone : List (FrameNtp × ℕ)

structure Pair (F : Type) where
  time : ℕ
  client : Client F
  responder : Responder

inductive PairAction (F : Type)
  | tick
  /-- The task of the peer runs. -/
  | run (env : Env F) (accepted : Bool)
  | arpReply (macAddr : BitVec 48) (env : Env F)
  /-- A request leaves the client. -/
  | requestLeaves
  /-- The client reclaims its oldest request. -/
  | requestDone
  /-- The server handles a request that has arrived. -/
  | request (arrival : ℕ) (env : ServerEnv) (frame : FrameNtp) (flen : Nat) (accepted : Bool)
  /-- A response leaves the server. -/
  | responseLeaves
  /-- The server reclaims its oldest response. -/
  | responseDone
  /-- The client handles a response that has arrived. -/
  | response (packet : HeaderNtp) (arrival : ℕ)

namespace Pair

variable [Single F]

def init (ipAddr ipSubnet ipAddress : BitVec 32) : Pair F :=
  ⟨0, ⟨Link.init ipAddr ipSubnet ipAddress, 0, [], [], []⟩, ⟨Server.init, 0, [], []⟩⟩

/-- The clocks show the time, and a frame of the client is a request that left it before. -/
def enabled (b : Timebase) (s : Pair F) : PairAction F → Prop
  | .run env _ => s.client.lastRun < s.time ∧ env.now = BitVec.ofNat 64 s.time ∧
      env.clkTaiUtcOffset = b.clkTaiUtcOffset
  | .request arrival env frame _ _ =>
      s.responder.lastArrival < arrival ∧ arrival ≤ s.time ∧ env.stamps = b.serverStamps arrival ∧
        env.taiNow = shows b.serverTai s.time ∧ env.clkTaiUtcOffset = b.clkTaiUtcOffset ∧
        (frame.ipSrc = b.clientAddr →
          ∃ e ∈ s.client.gone, e.1.1 = frame.ntp ∧ e.2 ≤ arrival)
  | .response packet arrival => arrival ≤ s.time ∧
      ∃ e ∈ s.responder.gone, e.1.ntp = packet ∧ e.1.ipDst = b.clientAddr ∧ e.2 ≤ arrival
  | _ => True

instance (b : Timebase) (s : Pair F) : (a : PairAction F) → Decidable (s.enabled b a)
  | .tick => isTrue trivial
  | .run _ _ => inferInstanceAs (Decidable (_ ∧ _ ∧ _))
  | .arpReply _ _ => isTrue trivial
  | .requestLeaves => isTrue trivial
  | .requestDone => isTrue trivial
  | .request _ _ _ _ _ => inferInstanceAs (Decidable (_ ∧ _ ∧ _ ∧ _ ∧ _ ∧ (_ → _)))
  | .responseLeaves => isTrue trivial
  | .responseDone => isTrue trivial
  | .response _ _ => inferInstanceAs (Decidable (_ ∧ _))

/-- What happens to the peer. -/
def linkAction (b : Timebase) (s : Pair F) : PairAction F → Option (PeerAction F)
  | .run env accepted => some (.run env accepted)
  | .arpReply macAddr env => some (.arpReply macAddr env)
  | .requestDone => s.client.left.head?.bind fun e =>
      if e.1.2 then some (.sent (b.clientStamps e.2)) else none
  | .response packet arrival => some (.receive packet (b.clientStamps arrival))
  | _ => none

/-- What happens to the server. -/
def serverAction (b : Timebase) (s : Pair F) : PairAction F → Option ServerAction
  | .request _ env frame flen accepted => some (.request env frame flen accepted)
  | .responseDone => s.responder.left.head?.map fun e =>
      .transmitted 0 (b.serverStamps e.2) b.clkTaiUtcOffset
  | _ => none

/-- The transmitters, the time of the last activation and that of the last arrival. -/
def transmit (s : Pair F) : PairAction F → Option (Pair F)
  | .tick => some { s with time := s.time + 1 }
  | .run env accepted => some { s with client := { s.client with
      lastRun := s.time,
      ring := s.client.ring ++ if accepted then packets (s.client.link.peer.run env).2 else [] } }
  | .requestLeaves => s.client.ring[s.client.left.length]?.map fun x =>
      { s with client := { s.client with
        left := s.client.left ++ [(x, s.time)], gone := (x, s.time) :: s.client.gone } }
  | .requestDone =>
      if s.client.left = [] then none
      else some { s with client := { s.client with
        ring := s.client.ring.tail, left := s.client.left.tail } }
  | .request arrival _ _ _ _ =>
      some { s with responder := { s.responder with lastArrival := arrival } }
  | .responseLeaves => s.responder.server.sending[s.responder.left.length]?.map fun x =>
      { s with responder := { s.responder with
        left := s.responder.left ++ [(x, s.time)], gone := (x, s.time) :: s.responder.gone } }
  | .responseDone =>
      if s.responder.left = [] then none
      else some { s with responder := { s.responder with left := s.responder.left.tail } }
  | _ => some s

def step (b : Timebase) (s : Pair F) (a : PairAction F) : Option (Pair F) :=
  if s.enabled b a then
    (s.transmit a).bind fun t =>
      ((s.linkAction b a).elim (some s.client.link) s.client.link.step).bind fun link =>
        ((s.serverAction b a).elim (some s.responder.server) s.responder.server.step).map
          fun server => { t with
            client := { t.client with link := link },
            responder := { t.responder with server := server } }
  else none

/-- All that can happen in a step. -/
inductive StepCase (b : Timebase) (s : Pair F) : PairAction F → Pair F → Prop
  | tick : StepCase b s .tick { s with time := s.time + 1 }
  | run {env : Env F} {accepted : Bool} (hlate : s.client.lastRun < s.time)
      (hnow : env.now = BitVec.ofNat 64 s.time)
      (hutc : env.clkTaiUtcOffset = b.clkTaiUtcOffset) {link : Link F}
      (hlink : s.client.link.step (.run env accepted) = some link) :
      StepCase b s (.run env accepted) { s with client := { s.client with
        link := link, lastRun := s.time,
        ring := s.client.ring ++
          if accepted then packets (s.client.link.peer.run env).2 else [] } }
  | arpReply {macAddr : BitVec 48} {env : Env F} {link : Link F}
      (hlink : s.client.link.step (.arpReply macAddr env) = some link) :
      StepCase b s (.arpReply macAddr env) { s with client := { s.client with link := link } }
  | requestLeaves {x : HeaderNtp × Bool} (hx : s.client.ring[s.client.left.length]? = some x) :
      StepCase b s .requestLeaves { s with client := { s.client with
        left := s.client.left ++ [(x, s.time)], gone := (x, s.time) :: s.client.gone } }
  /-- The request of a poll gets its stamps. -/
  | requestStamped {packet : HeaderNtp} {time : ℕ} {left : List ((HeaderNtp × Bool) × ℕ)}
      (hleft : s.client.left = ((packet, true), time) :: left) {link : Link F}
      (hlink : s.client.link.step (.sent (b.clientStamps time)) = some link) :
      StepCase b s .requestDone { s with client := { s.client with
        link := link, ring := s.client.ring.tail, left := left } }
  | requestDone {packet : HeaderNtp} {time : ℕ} {left : List ((HeaderNtp × Bool) × ℕ)}
      (hleft : s.client.left = ((packet, false), time) :: left) :
      StepCase b s .requestDone { s with client := { s.client with
        ring := s.client.ring.tail, left := left } }
  | request {arrival : ℕ} {env : ServerEnv} {frame : FrameNtp} {flen : Nat} {accepted : Bool}
      (hlate : s.responder.lastArrival < arrival) (hpast : arrival ≤ s.time)
      (hstamps : env.stamps = b.serverStamps arrival)
      (hnow : env.taiNow = shows b.serverTai s.time)
      (hutc : env.clkTaiUtcOffset = b.clkTaiUtcOffset)
      (hours : frame.ipSrc = b.clientAddr →
        ∃ e ∈ s.client.gone, e.1.1 = frame.ntp ∧ e.2 ≤ arrival) {server : Server}
      (hserver : s.responder.server.step (.request env frame flen accepted) = some server) :
      StepCase b s (.request arrival env frame flen accepted) { s with responder :=
        { s.responder with server := server, lastArrival := arrival } }
  | responseLeaves {x : FrameNtp}
      (hx : s.responder.server.sending[s.responder.left.length]? = some x) :
      StepCase b s .responseLeaves { s with responder := { s.responder with
        left := s.responder.left ++ [(x, s.time)], gone := (x, s.time) :: s.responder.gone } }
  | responseDone {x : FrameNtp} {time : ℕ} {left : List (FrameNtp × ℕ)}
      (hleft : s.responder.left = (x, time) :: left) {server : Server}
      (hserver : s.responder.server.step
        (.transmitted 0 (b.serverStamps time) b.clkTaiUtcOffset) = some server) :
      StepCase b s .responseDone
        { s with responder := { s.responder with server := server, left := left } }
  | response {arrival : ℕ} (hpast : arrival ≤ s.time) {frame : FrameNtp} {time : ℕ}
      (hgone : (frame, time) ∈ s.responder.gone) (hours : frame.ipDst = b.clientAddr)
      (hlate : time ≤ arrival) {link : Link F}
      (hlink : s.client.link.step (.receive frame.ntp (b.clientStamps arrival)) = some link) :
      StepCase b s (.response frame.ntp arrival)
        { s with client := { s.client with link := link } }

theorem step_cases {b : Timebase} {s s' : Pair F} {a : PairAction F} (hs : s.step b a = some s') :
    StepCase b s a s' := by
  obtain ⟨henabled, hs⟩ := Option.ite_none_right_eq_some.mp hs
  obtain ⟨t, ht, hs⟩ := Option.bind_eq_some_iff.mp hs
  obtain ⟨link, hlink, hs⟩ := Option.bind_eq_some_iff.mp hs
  obtain ⟨server, hserver, rfl⟩ := Option.map_eq_some_iff.mp hs
  cases a with
  | tick =>
      obtain rfl := Option.some.inj ht
      obtain rfl := Option.some.inj hlink
      obtain rfl := Option.some.inj hserver
      exact .tick
  | run env accepted =>
      obtain rfl := Option.some.inj ht
      obtain rfl := Option.some.inj hserver
      obtain ⟨hlate, hnow, hutc⟩ := henabled
      exact .run hlate hnow hutc hlink
  | arpReply macAddr env =>
      obtain rfl := Option.some.inj ht
      obtain rfl := Option.some.inj hserver
      exact .arpReply hlink
  | requestLeaves =>
      obtain ⟨x, hx, rfl⟩ := Option.map_eq_some_iff.mp ht
      obtain rfl := Option.some.inj hlink
      obtain rfl := Option.some.inj hserver
      exact .requestLeaves hx
  | requestDone =>
      obtain rfl := Option.some.inj hserver
      obtain ⟨hne, ht⟩ := Option.ite_none_left_eq_some.mp ht
      obtain rfl := Option.some.inj ht
      cases hleft : s.client.left with
      | nil => exact absurd hleft hne
      | cons e left =>
          obtain ⟨⟨packet, callback⟩, time⟩ := e
          rw [linkAction, hleft] at hlink
          cases callback with
          | true => exact .requestStamped hleft hlink
          | false =>
              obtain rfl := Option.some.inj hlink
              exact .requestDone hleft
  | request arrival env frame flen accepted =>
      obtain rfl := Option.some.inj ht
      obtain rfl := Option.some.inj hlink
      obtain ⟨hlate, hpast, hstamps, hnow, hutc, hours⟩ := henabled
      exact .request hlate hpast hstamps hnow hutc hours hserver
  | responseLeaves =>
      obtain ⟨x, hx, rfl⟩ := Option.map_eq_some_iff.mp ht
      obtain rfl := Option.some.inj hlink
      obtain rfl := Option.some.inj hserver
      exact .responseLeaves hx
  | responseDone =>
      obtain rfl := Option.some.inj hlink
      obtain ⟨hne, ht⟩ := Option.ite_none_left_eq_some.mp ht
      obtain rfl := Option.some.inj ht
      cases hleft : s.responder.left with
      | nil => exact absurd hleft hne
      | cons e left =>
          rw [serverAction, hleft] at hserver
          exact .responseDone hleft hserver
  | response packet arrival =>
      obtain rfl := Option.some.inj ht
      obtain rfl := Option.some.inj hserver
      obtain ⟨hpast, e, he, rfl, hours, hlate⟩ := henabled
      exact .response hpast he hours hlate hlink

end Pair

/-- The history of a run of the machine, newest first. -/
abbrev PairHistory (F : Type) := List (Pair F × PairAction F)

variable {b : Timebase} {h : PairHistory F} {s s' : Pair F}

/-! ## The devices alone -/

/-- The run of the peer in a run. -/
def linkHistory (b : Timebase) (h : PairHistory F) : PeerHistory F :=
  h.filterMap fun p => (p.1.linkAction b p.2).map (p.1.client.link, ·)

/-- The run of the server in a run. -/
def serverHistory (b : Timebase) (h : PairHistory F) : ServerHistory :=
  h.filterMap fun p => (p.1.serverAction b p.2).map (p.1.responder.server, ·)

theorem linkHistory_cons {a : PairAction F} {c : PeerAction F}
    (hc : s.linkAction b a = some c) :
    linkHistory b ((s, a) :: h) = (s.client.link, c) :: linkHistory b h :=
  List.filterMap_cons_some (congrArg (Option.map _) hc)

/-- What a step does to the peer. -/
theorem Pair.step_link [Single F] {a : PairAction F} (hs : s.step b a = some s') :
    (s.linkAction b a = none ∧ s'.client.link = s.client.link) ∨
      ∃ c, s.linkAction b a = some c ∧ s.client.link.step c = some s'.client.link := by
  cases Pair.step_cases hs with
  | run _ _ _ hlink => exact Or.inr ⟨_, rfl, hlink⟩
  | arpReply hlink => exact Or.inr ⟨_, rfl, hlink⟩
  | requestStamped hleft hlink => exact Or.inr ⟨_, by rw [Pair.linkAction, hleft]; rfl, hlink⟩
  | requestDone hleft => exact Or.inl ⟨by rw [Pair.linkAction, hleft]; rfl, rfl⟩
  | response _ _ _ _ hlink => exact Or.inr ⟨_, rfl, hlink⟩
  | _ => exact Or.inl ⟨rfl, rfl⟩

theorem link_run [Single F] {ipAddr ipSubnet ipAddress : BitVec 32}
    (hrun : Run (Pair.step b) (Pair.init ipAddr ipSubnet ipAddress) h s) :
    Run Link.step (Link.init ipAddr ipSubnet ipAddress) (linkHistory b h) s.client.link :=
  hrun.project (f := fun s => s.client.link) (g := Pair.linkAction b) fun _ _ _ => Pair.step_link

theorem server_run [Single F] {ipAddr ipSubnet ipAddress : BitVec 32}
    (hrun : Run (Pair.step b) (Pair.init ipAddr ipSubnet ipAddress) h s) :
    Run Server.step Server.init (serverHistory b h) s.responder.server := by
  refine hrun.project (f := fun s => s.responder.server) (g := Pair.serverAction b)
    fun s a s' hs => ?_
  cases Pair.step_cases hs with
  | request _ _ _ _ _ _ hserver => exact Or.inr ⟨_, rfl, hserver⟩
  | responseDone hleft hserver =>
      exact Or.inr ⟨_, by rw [Pair.serverAction, hleft]; rfl, hserver⟩
  | _ => exact Or.inl ⟨rfl, rfl⟩

/-! ## The server -/

/-- A response, the time at which the request had arrived, and that at which it was handled. -/
structure Answer where
  arrival : ℕ
  made : ℕ
  response : FrameNtp

/-- The responses that a step makes. -/
def Pair.answered (s : Pair F) : PairAction F → List Answer
  | .request arrival env frame flen _ =>
      (ntpRequest s.responder.server.tsXleave env frame flen).toList.map (⟨arrival, s.time, ·⟩)
  | _ => []

/-- The responses of the server, the last one first. -/
def answers : PairHistory F → List Answer
  | [] => []
  | (s, a) :: h => s.answered a ++ answers h

/-- The response is to a request that had left the client. In basic mode it has the time at which
it was made, in interleaved mode the one at which the named response left. -/
def Pair.Answered (b : Timebase) (s : Pair F) (a : Answer) : Prop :=
  ∃ e ∈ s.client.gone, e.2 ≤ a.arrival ∧
    ((a.response.ntp.origTime = e.1.1.txTime ∧ a.response.ntp.txTime = b.ntpStamp a.made) ∨
      (a.response.ntp.origTime = e.1.1.rxTime ∧ ∃ g ∈ s.responder.gone,
        g.1.ntp.rxTime = e.1.1.origTime ∧ a.response.ntp.txTime = b.ntpStamp g.2))

theorem Pair.Answered.mono {a : Answer} (ha : s.Answered b a)
    (hclient : s.client.gone ⊆ s'.client.gone) (hgone : s.responder.gone ⊆ s'.responder.gone) :
    s'.Answered b a := by
  obtain ⟨e, he, hle, hbasic | ⟨horig, g, hg, hxleave⟩⟩ := ha
  · exact ⟨e, hclient he, hle, Or.inl hbasic⟩
  · exact ⟨e, hclient he, hle, Or.inr ⟨horig, g, hgone hg, hxleave⟩⟩

/-- What the server has sent, and when. -/
structure ResponderInv (b : Timebase) (h : PairHistory F) (s : Pair F) : Prop where
  outbox : Outbox ((answers h).map Answer.response) s.responder.server.sending s.responder.left
    s.responder.gone
  arrivals : (answers h).Pairwise fun a a' => a'.arrival < a.arrival
  arrived : ∀ a ∈ answers h, a.arrival ≤ s.responder.lastArrival ∧ a.arrival ≤ a.made ∧
    a.made ≤ s.time
  stamped : ∀ a ∈ answers h, a.response.ntp.rxTime = b.ntpStamp a.arrival
  departed : ∀ e ∈ s.responder.gone, e.2 ≤ s.time ∧
    ∃ a ∈ answers h, a.response = e.1 ∧ a.made ≤ e.2
  kept : ∀ e ∈ transmissions (serverHistory b h),
    ∃ time, (e.1, time) ∈ s.responder.gone ∧ e.2 = b.ntpStamp time
  answered : ∀ a ∈ answers h, a.response.ipDst = b.clientAddr → s.Answered b a

/-- The client does nothing to the server. -/
theorem ResponderInv.mono {h' : PairHistory F} (hi : ResponderInv b h s)
    (hresponder : s'.responder = s.responder) (htime : s.time ≤ s'.time)
    (hclient : s.client.gone ⊆ s'.client.gone) (hanswers : answers h' = answers h)
    (hserver : transmissions (serverHistory b h') = transmissions (serverHistory b h)) :
    ResponderInv b h' s' where
  outbox := by rw [hanswers, hresponder]; exact hi.outbox
  arrivals := by rw [hanswers]; exact hi.arrivals
  arrived a ha := by
    rw [hanswers] at ha
    obtain ⟨h1, h2, h3⟩ := hi.arrived a ha
    exact ⟨by rw [hresponder]; exact h1, h2, h3.trans htime⟩
  stamped := by rw [hanswers]; exact hi.stamped
  departed e he := by
    rw [hresponder] at he
    obtain ⟨hle, ha⟩ := hi.departed e he
    exact ⟨hle.trans htime, by rw [hanswers]; exact ha⟩
  kept := by rw [hserver, hresponder]; exact hi.kept
  answered := by
    rw [hanswers]
    intro a ha hdst
    exact (hi.answered a ha hdst).mono hclient (by rw [hresponder]; exact fun _ => id)

/-- The response of the server to a request of the client. -/
theorem XleaveInv.answered {arrival : ℕ} {env : ServerEnv} {frame response : FrameNtp} {flen : Nat}
    (hx : XleaveInv (serverHistory b h) s.responder.server) (hi : ResponderInv b h s)
    (hnow : env.taiNow = shows b.serverTai s.time)
    (hutc : env.clkTaiUtcOffset = b.clkTaiUtcOffset)
    (hours : frame.ipSrc = b.clientAddr → ∃ e ∈ s.client.gone, e.1.1 = frame.ntp ∧ e.2 ≤ arrival)
    (hr : ntpRequest s.responder.server.tsXleave env frame flen = some response)
    (hdst : response.ipDst = b.clientAddr) : s.Answered b ⟨arrival, s.time, response⟩ := by
  have hresponse := ntpRequest_eq_some hr
  obtain ⟨e, he, hntp, hle⟩ := hours (by rw [← hdst, hresponse]; rfl)
  refine ⟨e, he, hle, ?_⟩
  rw [hntp]
  rcases hx.answer hr with ⟨hnone, horig⟩ | ⟨-, hinter⟩
  · refine Or.inl ⟨horig, ?_⟩
    rw [hresponse]
    show (xleaveCell s.responder.server.tsXleave frame).elim
      (htonll (ntpTime env.taiNow env.clkTaiUtcOffset)) _ = _
    rw [hnone, hnow, hutc]
    rfl
  · obtain ⟨g, hg, -, -, hrx, htx⟩ := hinter.sent
    obtain ⟨time, hgone, htime⟩ := hi.kept g hg
    exact Or.inr ⟨hinter.origTime, _, hgone, hrx, by rw [htx, htime]⟩

/-- **A request** is answered at most once. -/
theorem ResponderInv.request (hi : ResponderInv b h s)
    (hx : XleaveInv (serverHistory b h) s.responder.server) {arrival : ℕ} {env : ServerEnv}
    {frame : FrameNtp} {flen : Nat} {accepted : Bool} (hlate : s.responder.lastArrival < arrival)
    (hpast : arrival ≤ s.time) (hstamps : env.stamps = b.serverStamps arrival)
    (hnow : env.taiNow = shows b.serverTai s.time)
    (hutc : env.clkTaiUtcOffset = b.clkTaiUtcOffset)
    (hours : frame.ipSrc = b.clientAddr → ∃ e ∈ s.client.gone, e.1.1 = frame.ntp ∧ e.2 ≤ arrival)
    {server : Server}
    (hserver : s.responder.server.step (.request env frame flen accepted) = some server) :
    ResponderInv b ((s, .request arrival env frame flen accepted) :: h)
      { s with responder := { s.responder with server := server, lastArrival := arrival } } := by
  obtain rfl := Option.some.inj hserver
  have hanswers : answers ((s, .request arrival env frame flen accepted) :: h) =
      (ntpRequest s.responder.server.tsXleave env frame flen).toList.map
        (⟨arrival, s.time, ·⟩) ++ answers h := rfl
  have hkept : transmissions
      (serverHistory b ((s, .request arrival env frame flen accepted) :: h)) =
      transmissions (serverHistory b h) := rfl
  cases hr : ntpRequest s.responder.server.tsXleave env frame flen with
  | none =>
      rw [hr] at hanswers
      have hsame : (if accepted then s.responder.server.sending ++ (none : Option FrameNtp).toList
          else s.responder.server.sending) = s.responder.server.sending := by
        rw [Option.toList_none, List.append_nil, ite_self]
      refine ⟨?_, ?_, ?_, ?_, ?_, ?_, ?_⟩
      · rw [hanswers, hsame]
        exact hi.outbox
      · rw [hanswers]
        exact hi.arrivals
      · rw [hanswers]
        exact fun a ha => ⟨(hi.arrived a ha).1.trans hlate.le, (hi.arrived a ha).2⟩
      · rw [hanswers]
        exact hi.stamped
      · rw [hanswers]
        exact hi.departed
      · rw [hkept]
        exact hi.kept
      · rw [hanswers]
        exact hi.answered
  | some response =>
      rw [hr] at hanswers
      refine ⟨?_, ?_, ?_, ?_, ?_, ?_, ?_⟩
      · rw [hanswers]
        cases accepted with
        | true => exact hi.outbox.push response
        | false => exact hi.outbox.refuse response
      · rw [hanswers]
        exact List.pairwise_cons.mpr ⟨fun a ha => (hi.arrived a ha).1.trans_lt hlate, hi.arrivals⟩
      · rw [hanswers]
        intro a ha
        rcases List.mem_cons.mp ha with rfl | ha
        · exact ⟨le_refl _, hpast, le_refl _⟩
        · exact ⟨(hi.arrived a ha).1.trans hlate.le, (hi.arrived a ha).2⟩
      · rw [hanswers]
        intro a ha
        rcases List.mem_cons.mp ha with rfl | ha
        · show response.ntp.rxTime = _
          rw [ntpRequest_eq_some hr]
          show htonll (ntpTime env.stamps.tai env.clkTaiUtcOffset) = _
          rw [hstamps, hutc]
          rfl
        · exact hi.stamped a ha
      · rw [hanswers]
        intro e he
        obtain ⟨hle, a, ha, hmade⟩ := hi.departed e he
        exact ⟨hle, a, List.mem_cons_of_mem _ ha, hmade⟩
      · rw [hkept]
        exact hi.kept
      · rw [hanswers]
        intro a ha hdst
        rcases List.mem_cons.mp ha with rfl | ha
        · exact hx.answered hi hnow hutc hours hr hdst
        · exact hi.answered a ha hdst

/-- A response leaves. -/
theorem ResponderInv.responseLeaves (hi : ResponderInv b h s) {x : FrameNtp}
    (hx : s.responder.server.sending[s.responder.left.length]? = some x) :
    ResponderInv b ((s, .responseLeaves) :: h) { s with responder := { s.responder with
      left := s.responder.left ++ [(x, s.time)], gone := (x, s.time) :: s.responder.gone } } where
  outbox := hi.outbox.leave hx s.time
  arrivals := hi.arrivals
  arrived := hi.arrived
  stamped := hi.stamped
  departed e he := by
    rcases List.mem_cons.mp he with rfl | he
    · have hleave := hi.outbox.leave hx s.time
      obtain ⟨a, ha, hresponse⟩ := List.mem_map.mp (hleave.gone_offered List.mem_cons_self)
      exact ⟨le_refl _, a, ha, hresponse, (hi.arrived a ha).2.2⟩
    · exact hi.departed e he
  kept e he := by
    obtain ⟨time, hgone, htime⟩ := hi.kept e he
    exact ⟨time, List.mem_cons_of_mem _ hgone, htime⟩
  answered a ha hdst := (hi.answered a ha hdst).mono (fun _ => id) (List.subset_cons_self _ _)

/-- The stamp of a response is learned. -/
theorem ResponderInv.responseDone (hi : ResponderInv b h s) {x : FrameNtp} {time : ℕ}
    {left : List (FrameNtp × ℕ)} (hleft : s.responder.left = (x, time) :: left) {server : Server}
    (hserver : s.responder.server.step
      (.transmitted 0 (b.serverStamps time) b.clkTaiUtcOffset) = some server) :
    ResponderInv b ((s, .responseDone) :: h)
      { s with responder := { s.responder with server := server, left := left } } := by
  obtain ⟨frame, hframe, rfl⟩ := Option.map_eq_some_iff.mp hserver
  obtain ⟨sending, hsending⟩ : ∃ sending, s.responder.server.sending = frame :: sending := by
    cases hsend : s.responder.server.sending with
    | nil =>
        rw [hsend] at hframe
        cases hframe
    | cons y sending =>
        rw [hsend] at hframe
        exact ⟨sending, by rw [Option.some.inj hframe]⟩
  have hout := hi.outbox
  rw [hleft, hsending] at hout
  obtain ⟨rfl, hgone, hout⟩ := hout.reclaim
  refine ⟨?_, hi.arrivals, hi.arrived, hi.stamped, hi.departed, ?_, hi.answered⟩
  · show Outbox _ (s.responder.server.sending.eraseIdx 0) left s.responder.gone
    rw [hsending]
    exact hout
  · have haction : s.serverAction b .responseDone =
        some (.transmitted 0 (b.serverStamps time) b.clkTaiUtcOffset) := by
      rw [Pair.serverAction, hleft]
      rfl
    have hhist : serverHistory b ((s, .responseDone) :: h) = (s.responder.server,
        .transmitted 0 (b.serverStamps time) b.clkTaiUtcOffset) :: serverHistory b h :=
      List.filterMap_cons_some (congrArg (Option.map _) haction)
    rw [hhist, transmissions, hframe]
    intro e he
    rcases List.mem_cons.mp he with rfl | he
    · exact ⟨time, hgone, rfl⟩
    · exact hi.kept e he

theorem ResponderInv.step [Single F] (hi : ResponderInv b h s)
    (hx : XleaveInv (serverHistory b h) s.responder.server) {a : PairAction F}
    (hs : s.step b a = some s') : ResponderInv b ((s, a) :: h) s' := by
  cases Pair.step_cases hs with
  | tick => exact hi.mono rfl (Nat.le_succ _) (fun _ => id) rfl rfl
  | run _ _ _ _ => exact hi.mono rfl (le_refl _) (fun _ => id) rfl rfl
  | arpReply _ => exact hi.mono rfl (le_refl _) (fun _ => id) rfl rfl
  | requestLeaves _ => exact hi.mono rfl (le_refl _) (List.subset_cons_self _ _) rfl rfl
  | requestStamped _ _ => exact hi.mono rfl (le_refl _) (fun _ => id) rfl rfl
  | requestDone _ => exact hi.mono rfl (le_refl _) (fun _ => id) rfl rfl
  | request hlate hpast hstamps hnow hutc hours hserver =>
      exact hi.request hx hlate hpast hstamps hnow hutc hours hserver
  | responseLeaves hleaves => exact hi.responseLeaves hleaves
  | responseDone hleft hserver => exact hi.responseDone hleft hserver
  | response _ _ _ _ _ => exact hi.mono rfl (le_refl _) (fun _ => id) rfl rfl

/-- The stamps of different times are different. -/
theorem Timebase.ntpStamp_injOn (b : Timebase) : Set.InjOn b.ntpStamp {t | t < 2 ^ 64} := by
  intro t ht t' ht' heq
  have hntp := congrArg htonll heq
  simp only [Timebase.ntpStamp, htonll_htonll] at hntp
  have hshows : shows b.serverTai t = shows b.serverTai t' := by
    simpa only [ntpTime, add_left_inj, sub_left_inj] using hntp
  exact shows_injOn _ ht ht' hshows

/-- A response that has left is known by its receive time. -/
theorem ResponderInv.unique (hi : ResponderInv b h s) (htime : s.time < 2 ^ 64)
    {g g' : FrameNtp × ℕ} (hg : g ∈ s.responder.gone) (hg' : g' ∈ s.responder.gone)
    (hrx : g.1.ntp.rxTime = g'.1.ntp.rxTime) : g = g' := by
  refine hi.outbox.unique (f := fun r => some r.ntp.rxTime) ?_ hg hg' rfl (congrArg some hrx.symm)
  rw [List.filterMap_map]
  show ((answers h).filterMap fun a => some a.response.ntp.rxTime).Nodup
  rw [List.filterMap_eq_map']
  refine List.pairwise_map.mpr (hi.arrivals.imp_of_mem fun ha ha' hlt heq => ?_)
  rw [hi.stamped _ ha, hi.stamped _ ha'] at heq
  have hbound := fun a ha => (hi.arrived a ha).2.1.trans (hi.arrived a ha).2.2
  exact hlt.ne' (b.ntpStamp_injOn ((hbound _ ha).trans_lt htime)
    ((hbound _ ha').trans_lt htime) heq)

end Gpsdo.Ntp
