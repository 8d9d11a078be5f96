import Gpsdo.Net.Expiry
import Gpsdo.Ntp.Tasks

set_option autoImplicit false

/-! # The MAC addresses of the peers (`lib/net/arp.cpp`, `lib/ntp/Peer.cpp`, `lib/ntp/ntp.cpp`)

The table of address resolution together with those who make requests: the peers, the code that
keeps the address of the router, and the DNS client. A request of a peer holds a pointer to the slot
of the peer. The slot may be given to another peer while the request waits. To tell the peers of a
slot apart the model numbers them; the code has no such number.
-/

namespace Gpsdo.Ntp

/-! ## Data -/

/-- The callbacks of the requests, with their references. -/
inductive ArpCaller
  /-- `arpRouter` -/
  | router
  /-- `callbackARP` of the DNS client. -/
  | dns
  /-- `Peer::arpCallback` for a slot, requested by the peer with this number. -/
  | peer (slot : Fin MAX_NTP_PEERS) (number : ℕ)
  deriving DecidableEq, Repr

instance : Inhabited ArpCaller := ⟨.router⟩

/-- The table of requests, the peers and the addresses of the network. -/
structure Resolver (F : Type) where
  arp : Net.Arp ArpCaller
  peers : Fin MAX_NTP_PEERS → Peer F
  macRouter : BitVec 48
  ipAddress : BitVec 32
  ipSubnet : BitVec 32
  ipRouter : BitVec 32
  /-- The number of the last peer in a slot. -/
  number : Fin MAX_NTP_PEERS → ℕ
  numbers : ℕ

/-- `Peer::~Peer`, which cancels the tasks of the peer but not its requests. -/
def Peer.destroy {F : Type} (p : Peer F) : Peer F := { p with toSource := p.toSource.destroy }

namespace Resolver

variable {F : Type} [Single F]

/-! ## Requests -/

/-- What the code of a peer reads, where the rest of it is given. -/
def env (s : Resolver F) (rest : Env F) : Env F :=
  { rest with
    seconds := s.arp.now, ipAddress := s.ipAddress, ipSubnet := s.ipSubnet,
    macRouter := s.macRouter }

/-- `ARP_request` -/
def ARP_request (s : Resolver F) (remoteAddress : BitVec 32) (caller : ArpCaller) : Resolver F :=
  { s with arp := (s.arp.ARP_request remoteAddress caller).1 }

/-- The requests among the outputs of a peer. -/
def perform (s : Resolver F) (caller : ArpCaller) : List Output → Resolver F
  | [] => s
  | .ARP_request addr :: out => (s.ARP_request addr caller).perform caller out
  | _ :: out => s.perform caller out

/-- A member function of the peer in a slot has run. -/
def setPeer (s : Resolver F) (i : Fin MAX_NTP_PEERS) (r : Peer F × List Output) : Resolver F :=
  ({ s with peers := Function.update s.peers i r.1 } : Resolver F).perform
    (.peer i (s.number i)) r.2

/-! ## Peers -/

/-- `newPeer` -/
def newPeer (s : Resolver F) (ipAddr : BitVec 32) : Resolver F :=
  match (List.finRange MAX_NTP_PEERS).find? fun i => !(s.peers i).isAllocated with
  | none => s
  | some slot =>
      { s with
        peers := Function.update s.peers slot (Peer.new ipAddr s.ipSubnet s.ipAddress)
        number := Function.update s.number slot s.numbers
        numbers := s.numbers + 1 }

/-- `deletePeer` -/
def deletePeer (s : Resolver F) (i : Fin MAX_NTP_PEERS) : Resolver F :=
  { s with peers := Function.update s.peers i (s.peers i).destroy }

/-! ## Callbacks -/

/-- `ARP_refreshRouter` -/
def ARP_refreshRouter (s : Resolver F) : Resolver F := s.ARP_request s.ipRouter .router

/-- `arpRouter` -/
def arpRouter (s : Resolver F) (macAddress : BitVec 48) : Resolver F :=
  if macAddress = 0 then s.ARP_refreshRouter else { s with macRouter := macAddress }

/-- The body of a callback. What the DNS client does is up to it. -/
def call (s : Resolver F) (rest : Env F) (caller : ArpCaller) (macAddress : BitVec 48) :
    Resolver F :=
  match caller with
  | .router => s.arpRouter macAddress
  | .dns => s
  | .peer i _ => s.setPeer i ((s.peers i).arpCallback macAddress (s.env rest))

/-- A callback runs and returns to the loop. -/
def callback (s : Resolver F) (rest : Env F) : Option (Resolver F) :=
  match s.arp.pc with
  | .called scan k =>
      let s := s.call rest (s.arp.requests k).callback scan.mac
      s.arp.ret.map fun arp => { s with arp := arp }
  | _ => none

/-- The DNS client may make a request: outside of the loops, or in its callback. -/
def dnsRuns (s : Resolver F) : Bool :=
  match s.arp.pc with
  | .idle => true
  | .turn _ _ => false
  | .called _ k => (s.arp.requests k).callback = .dns

end Resolver

/-! ## The machine -/

/-- What happens to the peers and the table. -/
inductive ResolverAction (F : Type)
  | newPeer (ipAddr : BitVec 32)
  | deletePeer (i : Fin MAX_NTP_PEERS)
  /-- `Peer::run` -/
  | run (i : Fin MAX_NTP_PEERS) (rest : Env F)
  /-- `Peer::receive` -/
  | receive (i : Fin MAX_NTP_PEERS) (packet : HeaderNtp) (stamps : Stamps)
  /-- `Peer::txCallback` -/
  | txCallback (i : Fin MAX_NTP_PEERS) (stamps : Stamps)
  /-- The network is set up. -/
  | configure (ipAddress ipSubnet ipRouter : BitVec 32)
  | refreshRouter
  /-- The DNS client makes a request. -/
  | request (remoteAddress : BitVec 32)
  | process (frame : List Net.Byte) (mac : BitVec 48)
  | arpRun
  | turn
  | callback (rest : Env F)
  | elapse (d : ℕ)

namespace Resolver

variable {F : Type} [Single F]

/-- The machine. Nothing else runs while the code is in a loop of `arp.cpp` or in a callback
of it. -/
def step (s : Resolver F) : ResolverAction F → Option (Resolver F)
  | .newPeer ipAddr => if s.arp.pc = .idle then some (s.newPeer ipAddr) else none
  | .deletePeer i =>
      if s.arp.pc = .idle ∧ (s.peers i).isAllocated = true ∧ (s.peers i).isPruneable = true
      then some (s.deletePeer i) else none
  | .run i rest =>
      if s.arp.pc = .idle ∧ (s.peers i).isAllocated = true
      then some (s.setPeer i ((s.peers i).run (s.env rest))) else none
  | .receive i packet stamps =>
      if s.arp.pc = .idle ∧ (s.peers i).isAllocated = true
      then some (s.setPeer i ((s.peers i).receive packet stamps, [])) else none
  | .txCallback i stamps =>
      if s.arp.pc = .idle then some (s.setPeer i ((s.peers i).txCallback stamps, [])) else none
  | .configure ipAddress ipSubnet ipRouter =>
      if s.arp.pc = .idle
      then some { s with ipAddress := ipAddress, ipSubnet := ipSubnet, ipRouter := ipRouter }
      else none
  | .refreshRouter => if s.arp.pc = .idle then some s.ARP_refreshRouter else none
  | .request remoteAddress =>
      if s.dnsRuns then some (s.ARP_request remoteAddress .dns) else none
  | .process frame mac =>
      if s.arp.pc = .idle then some { s with arp := s.arp.ARP_process frame mac } else none
  | .arpRun => if s.arp.pc = .idle then some { s with arp := s.arp.arpRun } else none
  | .turn => s.arp.loopTurn.map fun arp => { s with arp := arp }
  | .callback rest => s.callback rest
  | .elapse d => some { s with arp := { s.arp with seconds := s.arp.seconds + d } }

/-- A slot for a peer that has never been used. -/
def rawPeer : Peer F :=
  { (Table.rawPeer : Source F) with
    filterTx := 0, filterRx := 0, local_tx_hw := ⟨0, 0, 0⟩, remote_rx := 0, remote_tx := 0,
    local_rx_hw := ⟨0, 0, 0⟩, pollStart := 0, pollWait := 0, pollTrim := 0, lastArp := 0,
    pollActive := false, pollXleave := false, pktSent := false, pktRecv := false, macAddr := 0 }

/-- The static memory. -/
def init : Resolver F where
  arp := Net.Arp.init
  peers _ := rawPeer
  macRouter := 0
  ipAddress := 0
  ipSubnet := 0
  ipRouter := 0
  number _ := 0
  numbers := 1

end Resolver

/-- The history of a run of the machine, newest first. -/
abbrev ResolverHistory (F : Type) := List (Resolver F × ResolverAction F)

/-! ## The peers are those of the source table -/

namespace Resolver

variable {F : Type}

/-- The slots of the source table hold the peers. -/
def Matches (s : Resolver F) (T : Table F) : Prop :=
  ∀ i, T.mem (.peer i) = (s.peers i).toSource

/-- **`deletePeer` is that of the source table**, for a peer in its list. -/
theorem Matches.deletePeer {s : Resolver F} {T : Table F} (hm : s.Matches T) {l : List Ref}
    (hl : Lists T l) {i : Fin MAX_NTP_PEERS} (hi : .peer i ∈ l) :
    (s.deletePeer i).Matches (T.deletePeer (.peer i)) := by
  intro j
  obtain ⟨-, -, -, hmem, -⟩ := Table.deletePeer_cases hl hi
  rw [hmem]
  by_cases hj : j = i
  · subst hj
    simp [Resolver.deletePeer, Peer.destroy, hm j]
  · have hne : Ref.peer j ≠ .peer i := fun h => hj (Ref.peer.inj h)
    simp only [Resolver.deletePeer, Function.update_of_ne hne, Function.update_of_ne hj, hm j]

variable [Single F]

/-- **`newPeer` is that of the source table.** -/
theorem Matches.newPeer {s : Resolver F} {T : Table F} (hm : s.Matches T) (ipAddr : BitVec 32) :
    (s.newPeer ipAddr).Matches (T.newPeer ipAddr s.ipSubnet s.ipAddress) := by
  intro i
  unfold Resolver.newPeer Table.newPeer
  have hfree : (fun i => !(T.mem (.peer i)).isAllocated) =
      fun i => !(s.peers i).isAllocated := by
    funext i
    rw [hm i]
  rw [hfree]
  cases (List.finRange MAX_NTP_PEERS).find? fun i => !(s.peers i).isAllocated with
  | none => exact hm i
  | some slot =>
      by_cases hi : i = slot
      · subst hi
        simp
      · have hne : Ref.peer i ≠ .peer slot := fun h => hi (Ref.peer.inj h)
        simp only [Function.update_of_ne hne, Function.update_of_ne hi, hm i]

end Resolver

end Gpsdo.Ntp
