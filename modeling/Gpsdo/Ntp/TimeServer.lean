import Gpsdo.Ntp.Poll
import Gpsdo.Ntp.TableEffect

set_option autoImplicit false

/-! # The time server (`lib/ntp/ntp.cpp`, `lib/ntp/GPS.cpp`, `lib/ntp/Peer.cpp`)

The source table together with the code of the sources: the tasks of the GPS source and of the peers
run, packets and stamps come in, and `runSelect` passes over the table, in any order. The part of a
source that all sources have is in the memory of the table, the rest of it beside the table.
-/

namespace Gpsdo.Ntp

variable {F : Type}

/-! ## Data -/

/-- The static variables of `ntp.cpp`. The source part of `gps` and `peers` is not used. -/
structure TimeServer (F : Type) where
  table : Table F
  gps : GPS F
  peers : Fin MAX_NTP_PEERS → Peer F

/-- What happens to the sources. -/
inductive ServerEvent (F : Type)
  /-- `ntpDnsCallback` -/
  | report (addr ipSubnet ipAddress : BitVec 32)
  /-- `GPS::run` -/
  | gps (env : GpsEnv F)
  /-- `Peer::run` -/
  | run (i : Fin MAX_NTP_PEERS) (env : Env F)
  /-- `Peer::receive` -/
  | receive (i : Fin MAX_NTP_PEERS) (packet : HeaderNtp) (stamps : Stamps)
  /-- `Peer::txCallback` -/
  | sent (i : Fin MAX_NTP_PEERS) (stamps : Stamps)
  /-- `Peer::arpCallback` -/
  | arpReply (i : Fin MAX_NTP_PEERS) (macAddr : BitVec 48) (env : Env F)
  /-- The TAI clock is stepped. -/
  | setTaiClock (offset : BitVec 64)
  /-- `runSelect` -/
  | select

/-- `GPS::run` pushes a sample: there is a new pulse, and the time is set. -/
def GPS.pushes (p : GPS F) (env : GpsEnv F) : Bool :=
  ¬ 0x140000000#64 < env.now - env.ppsTime.mono ∧ env.taiEpoch ≠ 0 ∧ env.ppsTime.mono ≠ p.lastPps

namespace TimeServer

/-! ## Objects -/

def gpsSource (s : TimeServer F) : GPS F := { s.gps with toSource := s.table.mem .gps }

def peer (s : TimeServer F) (i : Fin MAX_NTP_PEERS) : Peer F :=
  { s.peers i with toSource := s.table.mem (.peer i) }

def setGps (s : TimeServer F) (p : GPS F) : TimeServer F :=
  { s with table := s.table.modify .gps fun _ => p.toSource, gps := p }

def setPeer (s : TimeServer F) (i : Fin MAX_NTP_PEERS) (p : Peer F) : TimeServer F :=
  { s with
    table := s.table.modify (.peer i) fun _ => p.toSource,
    peers := Function.update s.peers i p }

/-! ## The machine -/

variable [Single F]

/-- The slot that `ntpDnsCallback` gives to a new peer. -/
def newSlot (s : TimeServer F) (addr ipAddress : BitVec 32) : Option (Fin MAX_NTP_PEERS) :=
  if MAX_NTP_SRCS ≤ s.table.cntSources then none
  else if addr = ipAddress then none
  else if s.table.listed.any fun r => (s.table.mem r).isRecipient addr then none
  else (List.finRange MAX_NTP_PEERS).find? fun i => !(s.table.mem (.peer i)).isAllocated

/-- `ntpDnsCallback`: the constructor of the peer writes to its slot. -/
def ntpDnsCallback (s : TimeServer F) (addr ipSubnet ipAddress : BitVec 32) : TimeServer F :=
  { s with
    table := s.table.ntpDnsCallback addr ipSubnet ipAddress,
    peers := (s.newSlot addr ipAddress).elim s.peers fun slot =>
      Function.update s.peers slot (Peer.new addr ipSubnet ipAddress) }

/-- The static memory, and what `ntp::init` leaves there. -/
def init : TimeServer F where
  table := Table.init
  gps := GPS.new
  peers _ := Peer.new 0 0 0

/-- The task of a peer runs, and packets are handed to it, while the peer is in the list. A
transmitted frame or an answer of ARP may come later. -/
def step (s : TimeServer F) : ServerEvent F → Option (TimeServer F)
  | .report addr ipSubnet ipAddress => some (s.ntpDnsCallback addr ipSubnet ipAddress)
  | .gps env => some (s.setGps (s.gpsSource.run env).1)
  | .run i env =>
      if .peer i ∈ s.table.listed then some (s.setPeer i ((s.peer i).run env).1) else none
  | .receive i packet stamps =>
      if .peer i ∈ s.table.listed then some (s.setPeer i ((s.peer i).receive packet stamps))
      else none
  | .sent i stamps => some (s.setPeer i ((s.peer i).txCallback stamps))
  | .arpReply i macAddr env => some (s.setPeer i ((s.peer i).arpCallback macAddr env).1)
  | .setTaiClock offset => some { s with table := s.table.ntpSetTaiClock offset }
  | .select => some { s with table := s.table.runSelect.1 }

end TimeServer

/-- The history of a run of the machine, newest first. -/
abbrev TimeServerHistory (F : Type) := List (TimeServer F × ServerEvent F)

/-! ## Updates, and passes that consume them -/

/-- A pass of `runSelect` consumes the update of a source: what the source was then. -/
structure Consumption where
  source : Ref
  lastUpdate : BitVec 64
  id : BitVec 32
  stratum : Nat
  leap : Nat
  deriving DecidableEq, Repr

section events

variable [Single F]

/-- The source whose filter is updated in a step, and the time. -/
def pushedNow (s : TimeServer F) : ServerEvent F → Option (Ref × BitVec 64)
  | .gps env => if s.gpsSource.pushes env then some (.gps, env.now) else none
  | .run i env => if samples ((s.peer i).run env).2 = [] then none else some (.peer i, env.now)
  | _ => none

/-- The updates of the filters, the last one first. -/
def filterUpdates : TimeServerHistory F → List (Ref × BitVec 64)
  | [] => []
  | (s, a) :: h => (pushedNow s a).toList ++ filterUpdates h

/-- The update that a pass feeds to the controller, and what its source is in that pass. -/
def consumedNow (s : TimeServer F) : ServerEvent F → Option Consumption
  | .select => s.table.runSelect.2.map fun f =>
      let src := s.table.selectBest.mem f.source
      ⟨f.source, f.lastUpdate, src.id, src.stratum, src.leap⟩
  | _ => none

/-- What was consumed last. -/
def lastConsumed : TimeServerHistory F → Option Consumption
  | [] => none
  | (s, a) :: h => (consumedNow s a).or (lastConsumed h)

end events

end Gpsdo.Ntp
