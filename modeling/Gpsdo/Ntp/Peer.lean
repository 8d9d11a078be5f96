import Gpsdo.Ntp.Gps
import Gpsdo.Sched.Task

set_option autoImplicit false

/-! # Remote time servers (`lib/ntp/Peer.cpp`)

`class Peer` as functions on its data. What a member function reads from the rest of the firmware
(clocks, addresses, random numbers, the outcome of the floating-point filter) is its argument
`Env`, and what it hands to the rest of the firmware is the list of its `Output`s.
-/

namespace Gpsdo.Ntp

/-! ## Data -/

/-- `__builtin_bswap64` -/
def htonll (value : BitVec 64) : BitVec 64 :=
  value.extractLsb' 0 8 ++ value.extractLsb' 8 8 ++ value.extractLsb' 16 8 ++
    value.extractLsb' 24 8 ++ value.extractLsb' 32 8 ++ value.extractLsb' 40 8 ++
    value.extractLsb' 48 8 ++ value.extractLsb' 56 8

/-- `__builtin_bswap32` -/
def htonl (value : BitVec 32) : BitVec 32 :=
  value.extractLsb' 0 8 ++ value.extractLsb' 8 8 ++ value.extractLsb' 16 8 ++
    value.extractLsb' 24 8

/-- The order of the bytes is reversed twice. -/
theorem htonl_htonl (value : BitVec 32) : htonl (htonl value) = value := by
  unfold htonl
  ext i hi
  simp only [BitVec.getElem_append, BitVec.getElem_extractLsb', BitVec.getLsbD_append]
  grind

theorem htonll_htonll (value : BitVec 64) : htonll (htonll value) = value := by
  unfold htonll
  ext i hi
  simp only [BitVec.getElem_append, BitVec.getElem_extractLsb', BitVec.getLsbD_append]
  grind

/-- Nonzero when the two addresses lie in different subnets. -/
def IPv4_testSubnet (subnetMask addrA addrB : BitVec 32) : BitVec 32 :=
  (addrA ^^^ addrB) &&& subnetMask

def NTP_UTC_OFFSET : BitVec 64 := 0x83AA7E8000000000

def ARP_MAX_AGE : BitVec 32 := 64

def IDLE_INTV : BitVec 32 := BitVec.ofNat 32 (Sched.RUN_SEC / 2)

def ACTV_INTV : BitVec 32 := BitVec.ofNat 32 (Sched.RUN_SEC / 16)

/-- 500 ms -/
def PEER_RESPONSE_TIMEOUT : BitVec 64 := 1#64 <<< 31

def PEER_MIN_POLL : Nat := 4

def PEER_MAX_POLL : Nat := 6

/-- `struct HeaderNtp`; the 32-bit and 64-bit fields are in network byte order. -/
structure HeaderNtp where
  mode : Nat
  version : Nat
  status : Nat
  stratum : Nat
  poll : Nat
  precision : BitVec 8
  rootDelay : BitVec 32
  rootDispersion : BitVec 32
  refID : BitVec 32
  refTime : BitVec 64
  origTime : BitVec 64
  rxTime : BitVec 64
  txTime : BitVec 64
  deriving DecidableEq, Repr

/-- `class Peer` -/
structure Peer (F : Type) extends Source F where
  filterTx : BitVec 64
  filterRx : BitVec 64
  local_tx_hw : Stamps
  remote_rx : BitVec 64
  remote_tx : BitVec 64
  local_rx_hw : Stamps
  pollStart : BitVec 64
  pollWait : BitVec 32
  pollTrim : BitVec 32
  lastArp : BitVec 32
  pollActive : Bool
  pollXleave : Bool
  pktSent : Bool
  pktRecv : Bool
  macAddr : BitVec 48

/-- What the code of a peer reads from the rest of the firmware. -/
structure Env (F : Type) where
  now : BitVec 64
  seconds : BitVec 32
  ppsEthernetRaw : BitVec 32
  random : BitVec 32
  ipAddress : BitVec 32
  ipSubnet : BitVec 32
  macRouter : BitVec 48
  clkTaiUtcOffset : BitVec 64
  stats : Stats F

/-- What it hands to the rest of the firmware. -/
inductive Output
  /-- `network::transmit`, with or without the callback `txCallback`. -/
  | transmit (macDst : BitVec 48) (dst : BitVec 32) (packet : HeaderNtp) (callback : Bool)
  | runAdjust (interval : BitVec 32)
  | ARP_request (addr : BitVec 32)
  /-- A sample is pushed into the filter. -/
  | sample (smp : Sample)
  deriving DecidableEq, Repr

def avg64 (a b : BitVec 64) : BitVec 64 := a + (b - a).sshiftRight 1

namespace Peer

variable {F : Type} [Single F]

/-- The peer and the clients of this machine are in different subnets. -/
def isRouted (p : Peer F) (env : Env F) : Bool :=
  IPv4_testSubnet env.ipSubnet env.ipAddress p.id != 0

/-- `Peer::Peer` -/
def new (ipAddr ipSubnet ipAddress : BitVec 32) : Peer F :=
  let src : Source F := Source.new ipAddr RPY_SD_MD_CLIENT
  let src := if IPv4_testSubnet ipSubnet ipAddress ipAddr = 0
    then { src with maxPoll := 4, minPoll := 2, poll := 1 }
    else { src with maxPoll := PEER_MAX_POLL, minPoll := PEER_MIN_POLL, poll := PEER_MIN_POLL }
  { src with
    filterTx := 0, filterRx := 0, local_tx_hw := ⟨0, 0, 0⟩, remote_rx := 0, remote_tx := 0,
    local_rx_hw := ⟨0, 0, 0⟩, pollStart := 0, pollWait := 0, pollTrim := 0, lastArp := 0,
    pollActive := false, pollXleave := false, pktSent := false, pktRecv := false, macAddr := 0 }

/-- A new peer has its address, no samples and no status yet. -/
theorem new_spec (ipAddr ipSubnet ipAddress : BitVec 32) :
    ((new ipAddr ipSubnet ipAddress : Peer F).id = ipAddr ∧
      (new ipAddr ipSubnet ipAddress : Peer F).mode = RPY_SD_MD_CLIENT) ∧
      (new ipAddr ipSubnet ipAddress : Peer F).sampleCount = 0 ∧
      (new ipAddr ipSubnet ipAddress : Peer F).usedOffset = 0 := by
  dsimp only [new]
  split <;> exact ⟨⟨rfl, rfl⟩, rfl, rfl⟩

/-! ## Polling -/

/-- `Peer::pollSend` -/
def pollSend (p : Peer F) (env : Env F) : Peer F × List Output :=
  let p := if p.pollXleave
    then { p with filterRx := htonll p.local_rx_hw.mono, filterTx := htonll p.local_tx_hw.mono }
    else { p with filterRx := 0, filterTx := htonll env.now }
  let packet : HeaderNtp :=
    { mode := 3, version := 4, status := 0, stratum := 16, poll := p.poll,
      precision := NTP_CLK_PREC, rootDelay := 0, rootDispersion := 0, refID := 0, refTime := 0,
      origTime := if p.pollXleave then p.remote_rx else 0,
      rxTime := p.filterRx, txTime := p.filterTx }
  ({ p with txCount := p.txCount + 1 }, [.transmit p.macAddr p.id packet (!p.pollXleave)])

/-- The sample `Peer::pollEnd` computes from the time stamps. -/
def pollSample (p : Peer F) (env : Env F) : Sample :=
  let remote_rx := htonll p.remote_rx + env.clkTaiUtcOffset - NTP_UTC_OFFSET
  let remote_tx := htonll p.remote_tx + env.clkTaiUtcOffset - NTP_UTC_OFFSET
  let responseTime := remote_tx - remote_rx
  let delay := (p.local_rx_hw.comp - p.local_tx_hw.comp) - responseTime
  { taiLocal := avg64 p.local_tx_hw.tai p.local_rx_hw.tai,
    taiRemote := avg64 remote_rx remote_tx,
    delay := (delay.sshiftRight 2).setWidth 32 }

/-- `Peer::pollEnd` -/
def pollEnd (p : Peer F) (env : Env F) : Peer F × List Output :=
  if 15 < p.stratum then (p, [])
  else
    let smp := p.pollSample env
    let src := { p.toSource with reach := p.reach ||| 1 }
    ({ p with toSource := src.push smp env.stats env.now, pollActive := false }, [.sample smp])

/-- `Peer::updateStatus`, which writes to the fields of the source only. -/
def updateStatus (p : Peer F) : Peer F :=
  let src := p.toSource
  let src := if src.reach &&& 0xF ≠ 0 then { src with lost := false } else src
  let src := { src with
    pollCounter := if src.pollCounter + 1 = 0 then -1 else src.pollCounter + 1 }
  let src :=
    if src.sampleCount = MAX_HISTORY ∧ src.reach &&& 0xFF = 0xFF ∧ 8 ≤ src.pollCounter ∧
        src.poll < src.maxPoll then
      { src with
        pollCounter := 0,
        poll := if src.poll + 1 < src.minPoll then src.minPoll else src.poll + 1 }
    else if src.reach &&& 0xF = 0 ∧ 4 ≤ src.pollCounter then
      { src with
        lost := true, pollCounter := 0,
        poll := if src.minPoll < src.poll then src.poll - 1 else src.poll }
    else src
  { p with toSource := { src with
      prune := (src.reach = 0 ∧ 16 ≤ src.pollCounter) ∨ MAX_STRATUM < src.stratum ∨
        (7 < src.usedOffset ∧ Single.lt Single.MAX_DELAY src.delayMean = true) } }

/-- `Peer::pollRun` up to the end of a burst: what it has done when it comes to the test of
`pollActive`, or that it returned true before. -/
def pollStep (p : Peer F) (env : Env F) : Bool × Peer F × List Output :=
  if p.pktSent = false then
    let r := ({ p with pktSent := true, pktRecv := false } : Peer F).pollSend env
    (true, r)
  else if p.pktRecv then
    let p := { p with pktRecv := false }
    if !p.pollXleave && !p.isRouted env then
      let r := ({ p with pollXleave := true } : Peer F).pollSend env
      (true, r)
    else (false, p.pollEnd env)
  else if PEER_RESPONSE_TIMEOUT < env.now - p.pollStart then
    let (p, out) := if p.pollXleave then ({ p with xleave := false } : Peer F).pollEnd env else (p, [])
    (false, { p with pollActive := false }, out)
  else (false, p, [])

/-- `Peer::pollRun` -/
def pollRun (p : Peer F) (env : Env F) : Bool × Peer F × List Output :=
  let (returned, p, out) := p.pollStep env
  if returned then (true, p, out)
  else if p.pollActive = false then (false, p.updateStatus, out)
  else (true, p, out)

/-! ## MAC addresses -/

/-- `Peer::updateMac` -/
def updateMac (p : Peer F) (env : Env F) : Peer F × List Output :=
  let p := { p with lastArp := env.seconds }
  if p.isRouted env then ({ p with macAddr := env.macRouter }, [])
  else (p, [.ARP_request p.id])

/-- `Peer::isMacInvalid` -/
def isMacInvalid (p : Peer F) (env : Env F) : Bool × Peer F × List Output :=
  let (p, out) := if p.lastArp = 0 ∨ ARP_MAX_AGE < env.seconds - p.lastArp
    then p.updateMac env else (p, [])
  (p.macAddr == 0, p, out)

/-- `Peer::arpCallback` -/
def arpCallback (p : Peer F) (macAddr : BitVec 48) (env : Env F) : Peer F × List Output :=
  if macAddr = 0 then p.updateMac env else ({ p with macAddr := macAddr }, [])

/-! ## The task of the peer -/

/-- The random part of the polling interval: `pollWait` whole seconds and `pollTrim`. -/
def fuzz (poll : Nat) (random : BitVec 32) : BitVec 64 :=
  ((random.setWidth 64 <<< 32) >>> (36 - poll)) ||| (1#64 <<< (32 + poll))

/-- What `Peer::run` does when it starts a poll. -/
def startPoll (p : Peer F) (env : Env F) : Peer F × List Output :=
  let (p, out) := ({ p with
    pollStart := env.now, pollActive := true, pollXleave := false, filterTx := 0, filterRx := 0,
    reach := p.reach <<< 1 } : Peer F).pollSend env
  ({ p with pktSent := true }, out ++ [.runAdjust ACTV_INTV])

/-- `Peer::run` -/
def run (p : Peer F) (env : Env F) : Peer F × List Output :=
  if p.pollActive then
    let (returned, p, out) := p.pollRun env
    if returned then (p, out)
    else
      let scratch := fuzz p.poll env.random
      let ipart : BitVec 32 := (scratch >>> 32).setWidth 32
      let trim : BitVec 32 := (scratch.setWidth 32) >>> 8
      ({ p with pollWait := ipart, pollTrim := trim },
        out ++ [.runAdjust (if ipart ≠ 0 then BitVec.ofNat 32 Sched.RUN_SEC else trim)])
  else if env.ppsEthernetRaw = 0 then (p, [.runAdjust IDLE_INTV])
  else
    let (invalid, p, out) := p.isMacInvalid env
    if invalid then (p, out ++ [.runAdjust IDLE_INTV])
    else if p.pollWait ≠ 0 then
      let p := { p with pollWait := p.pollWait - 1 }
      (p, out ++ if p.pollWait = 0 then [.runAdjust p.pollTrim] else [])
    else
      let (p, out') := p.startPoll env
      (p, out ++ out')

/-! ## Network callbacks -/

/-- `Peer::txCallback` -/
def txCallback (p : Peer F) (stamps : Stamps) : Peer F := { p with local_tx_hw := stamps }

/-- `Peer::receive` -/
def receive (p : Peer F) (packet : HeaderNtp) (stamps : Stamps) : Peer F :=
  let p := { p with rxCount := p.rxCount + 1 }
  if p.pollXleave then
    if packet.origTime = p.filterTx then { p with pktRecv := true, xleave := false }
    else if packet.origTime ≠ p.filterRx then p
    else
      { p with
        remote_tx := packet.txTime, pktRecv := true, xleave := true, rxValid := p.rxValid + 1 }
  else if packet.origTime ≠ p.filterTx then p
  else
    { p with
      filterTx := 0, pktRecv := true, local_rx_hw := stamps, stratum := packet.stratum,
      leap := packet.status, precision := packet.precision, version := packet.version,
      ntpMode := packet.mode, refId := packet.refID, refTime := packet.refTime,
      remote_rx := packet.rxTime, remote_tx := packet.txTime,
      rootDelay := htonl packet.rootDelay, rootDispersion := htonl packet.rootDispersion,
      rxValid := p.rxValid + 1 }

end Peer

end Gpsdo.Ntp
