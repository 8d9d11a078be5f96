import Gpsdo.Basic.Packed
import Gpsdo.Clock.Capture
import Gpsdo.Net.Tx
import Gpsdo.Ntp.Gps
import Gpsdo.Ptp.Timestamp

set_option autoImplicit false

/-! # Messages of PTP (`lib/ptp/common.hpp`, `lib/ptp/ptp.cpp`)

The packets, and what the functions of `ptp.cpp` put into them. A packet that answers another one
begins as a copy of its frame. What is read from the clocks and from the rest of the firmware is the
argument `Env`.
-/

namespace Gpsdo.Ptp

open Clock
open Net (Byte)

/-! ## Packets -/

structure HeaderEthernet where
  macDst : BitVec 48
  macSrc : BitVec 48
  ethType : BitVec 16
  deriving DecidableEq, Repr

structure PTP2_SRC_IDENT where
  identity : BitVec 64
  portNumber : BitVec 16
  deriving DecidableEq, Repr

/-- The fields of more than a byte are in the order of the network. -/
structure HEADER_PTP where
  messageType : BitVec 4
  transportSpecific : BitVec 4
  versionPTP : BitVec 4
  reserved0 : BitVec 4
  messageLength : BitVec 16
  domainNumber : Byte
  reserved1 : Byte
  flags : BitVec 16
  correctionField : BitVec 64
  reserved2 : BitVec 32
  sourceIdentity : PTP2_SRC_IDENT
  sequenceId : BitVec 16
  controlField : Byte
  logMessageInterval : Byte
  deriving DecidableEq, Repr

structure PTP2_ANNOUNCE where
  originTimestamp : PTP2_TIMESTAMP
  currentUtcOffset : BitVec 16
  reserved : Byte
  grandMasterPriority : Byte
  grandMasterClockQuality : BitVec 32
  grandMasterPriority2 : Byte
  grandMasterIdentity : BitVec 64
  stepsRemoved : BitVec 16
  timeSource : Byte
  deriving DecidableEq, Repr

/-- `PTP2_DELAY_RESP` and `PTP2_PDELAY_RESP`, and `PTP2_PDELAY_FOLLOW_UP`, which has the time of the
response in the place of the time of the request. -/
structure PTP2_DELAY_RESP where
  receiveTimestamp : PTP2_TIMESTAMP
  requestingIdentity : PTP2_SRC_IDENT
  deriving DecidableEq, Repr

structure PacketPTP (T : Type) where
  eth : HeaderEthernet
  ptp : HEADER_PTP
  data : T
  deriving DecidableEq, Repr

/-! ## Layouts -/

open Packed

def HeaderEthernet.packed : Packed HeaderEthernet :=
  struct ((word 6).prod ((word 6).prod (word 2))) (fun h => (h.macDst, h.macSrc, h.ethType))
    (fun t => ⟨t.1, t.2.1, t.2.2⟩) (fun _ => rfl) fun _ => rfl

def PTP2_SRC_IDENT.packed : Packed PTP2_SRC_IDENT :=
  struct ((word 8).prod (word 2)) (fun h => (h.identity, h.portNumber)) (fun t => ⟨t.1, t.2⟩)
    (fun _ => rfl) fun _ => rfl

def PTP2_TIMESTAMP.packed : Packed PTP2_TIMESTAMP :=
  struct ((word 2).prod ((word 4).prod (word 4)))
    (fun h => (h.secondsHi, h.secondsLo, h.nanoseconds)) (fun t => ⟨t.1, t.2.1, t.2.2⟩)
    (fun _ => rfl) fun _ => rfl

def HEADER_PTP.packed : Packed HEADER_PTP :=
  struct
    (nibbles.prod (nibbles.prod ((word 2).prod ((word 1).prod ((word 1).prod ((word 2).prod
      ((word 8).prod ((word 4).prod (PTP2_SRC_IDENT.packed.prod ((word 2).prod
        ((word 1).prod (word 1))))))))))))
    (fun h => ((h.messageType, h.transportSpecific), (h.versionPTP, h.reserved0), h.messageLength,
      h.domainNumber, h.reserved1, h.flags, h.correctionField, h.reserved2, h.sourceIdentity,
      h.sequenceId, h.controlField, h.logMessageInterval))
    (fun t => ⟨t.1.1, t.1.2, t.2.1.1, t.2.1.2, t.2.2.1, t.2.2.2.1, t.2.2.2.2.1, t.2.2.2.2.2.1,
      t.2.2.2.2.2.2.1, t.2.2.2.2.2.2.2.1, t.2.2.2.2.2.2.2.2.1, t.2.2.2.2.2.2.2.2.2.1,
      t.2.2.2.2.2.2.2.2.2.2.1, t.2.2.2.2.2.2.2.2.2.2.2⟩) (fun _ => rfl) fun _ => rfl

def PTP2_ANNOUNCE.packed : Packed PTP2_ANNOUNCE :=
  struct
    (PTP2_TIMESTAMP.packed.prod ((word 2).prod ((word 1).prod ((word 1).prod ((word 4).prod
      ((word 1).prod ((word 8).prod ((word 2).prod (word 1)))))))))
    (fun h => (h.originTimestamp, h.currentUtcOffset, h.reserved, h.grandMasterPriority,
      h.grandMasterClockQuality, h.grandMasterPriority2, h.grandMasterIdentity, h.stepsRemoved,
      h.timeSource))
    (fun t => ⟨t.1, t.2.1, t.2.2.1, t.2.2.2.1, t.2.2.2.2.1, t.2.2.2.2.2.1, t.2.2.2.2.2.2.1,
      t.2.2.2.2.2.2.2.1, t.2.2.2.2.2.2.2.2⟩) (fun _ => rfl) fun _ => rfl

def PTP2_DELAY_RESP.packed : Packed PTP2_DELAY_RESP :=
  struct (PTP2_TIMESTAMP.packed.prod PTP2_SRC_IDENT.packed)
    (fun h => (h.receiveTimestamp, h.requestingIdentity)) (fun t => ⟨t.1, t.2⟩) (fun _ => rfl)
    fun _ => rfl

def PacketPTP.packed {T : Type} (data : Packed T) : Packed (PacketPTP T) :=
  struct (HeaderEthernet.packed.prod (HEADER_PTP.packed.prod data))
    (fun h => (h.eth, h.ptp, h.data)) (fun t => ⟨t.1, t.2.1, t.2.2⟩) (fun _ => rfl) fun _ => rfl

/-- `sizeof(HEADER_PTP)` -/
def HEADER_SIZE : ℕ := 34

def PTP2_MIN_SIZE : ℕ := 48

/-- The sizes that the source asserts. -/
theorem packed_sizes : PTP2_SRC_IDENT.packed.size = 10 ∧ PTP2_TIMESTAMP.packed.size = 10 ∧
    HEADER_PTP.packed.size = HEADER_SIZE ∧ PTP2_ANNOUNCE.packed.size = 30 ∧
    PTP2_DELAY_RESP.packed.size = 20 ∧
    HeaderEthernet.packed.size + HEADER_PTP.packed.size = PTP2_MIN_SIZE :=
  ⟨rfl, rfl, rfl, rfl, rfl, rfl⟩

/-! ## Constants -/

def PTP2_VERSION : BitVec 4 := 2

def PTP2_DOMAIN : Byte := 1

def PTP2_MT_SYNC : BitVec 4 := 0x0

def PTP2_MT_DELAY_REQ : BitVec 4 := 0x1

def PTP2_MT_PDELAY_REQ : BitVec 4 := 0x2

def PTP2_MT_PDELAY_RESP : BitVec 4 := 0x3

def PTP2_MT_FOLLOW_UP : BitVec 4 := 0x8

def PTP2_MT_DELAY_RESP : BitVec 4 := 0x9

def PTP2_MT_PDELAY_FOLLOW_UP : BitVec 4 := 0xA

def PTP2_MT_ANNOUNCE : BitVec 4 := 0xB

def PTP2_TSRC_GPS : Byte := 0x20

def PTP2_TSRC_NTP : Byte := 0x50

def PTP2_ANNC_LOG_INTV : Byte := 0

def PTP2_SYNC_LOG_INTV : Byte := -4

def ETHTYPE_PTP : BitVec 16 := 0xF788

/-- IEEE 802.1AS broadcast MAC address (01:80:C2:00:00:0E). -/
def gPtpMac : BitVec 48 := 0x0E0000C28001

/-- `__builtin_bswap16` -/
def htons (value : BitVec 16) : BitVec 16 := value.extractLsb' 0 8 ++ value.extractLsb' 8 8

/-! ## Clock accuracy -/

/-- The thresholds of the accuracy codes. -/
def lutClkAccuracy : List ℚ :=
  [25e-9, 100e-9, 250e-9, 1e-6, 2.5e-6, 10e-6, 25e-6, 100e-6, 250e-6, 1e-3, 2.5e-3, 10e-3, 25e-6,
    100e-3, 250e-3, 1, 10]

def toPtpClkAccuracy (rmsError : ℚ) : BitVec 32 :=
  match lutClkAccuracy.findIdx? fun threshold => rmsError ≤ threshold with
  | some i => 0x20 + BitVec.ofNat 32 i
  | none => 0x31

/-! ## What is read -/

/-- The clocks, and what is read from the rest of the firmware. -/
structure Env where
  capture : Capture
  clkComp : Trim (BitVec 64)
  clkTai : Trim (BitVec 64)
  clkTaiUtcOffset : BitVec 64
  refId : BitVec 32
  offsetRms : ℚ
  mac : BitVec 48

namespace Env

/-- The MAC address behind two bytes of zero. -/
def ptpClockId (env : Env) : BitVec 64 := env.mac ++ 0#16

/-- `clock::tai::now` -/
def now (env : Env) : BitVec 64 :=
  tai.now env.clkComp env.clkTai (env.capture.mono.fromRaw env.capture.raw)

/-- The third of the stamps of `network::getRxTime` or `network::getTxTime`. -/
def stamp (env : Env) (time : BitVec 32 × BitVec 32) : BitVec 64 :=
  (env.capture.packetTime env.clkComp env.clkTai time).2.2

end Env

/-! ## Messages -/

/-- The assignments to the header that all messages but the follow-ups make. -/
def HEADER_PTP.assign (ptp : HEADER_PTP) (env : Env) (messageType : BitVec 4) (dataSize : ℕ)
    (logMessageInterval : Byte) : HEADER_PTP :=
  { ptp with
    versionPTP := PTP2_VERSION
    messageType := messageType
    messageLength := htons (BitVec.ofNat 16 (HEADER_SIZE + dataSize))
    sourceIdentity := ⟨env.ptpClockId, 0⟩
    domainNumber := PTP2_DOMAIN
    logMessageInterval := logMessageInterval }

/-- A header of zeros. -/
def HEADER_PTP.zero : HEADER_PTP := ⟨0, 0, 0, 0, 0, 0, 0, 0, 0, 0, ⟨0, 0⟩, 0, 0, 0⟩

/-- The announcement that `sendAnnounce` transmits. -/
def announce (env : Env) (seqId : BitVec 32) : PacketPTP PTP2_ANNOUNCE where
  eth := ⟨gPtpMac, 0, ETHTYPE_PTP⟩
  ptp :=
    { HEADER_PTP.zero.assign env PTP2_MT_ANNOUNCE PTP2_ANNOUNCE.packed.size PTP2_ANNC_LOG_INTV with
      sequenceId := htons (seqId.setWidth 16) }
  data :=
    { timeSource := if env.refId = Ntp.REF_ID then PTP2_TSRC_GPS else PTP2_TSRC_NTP
      currentUtcOffset := (env.clkTaiUtcOffset >>> 32).setWidth 16
      grandMasterIdentity := env.ptpClockId
      grandMasterPriority := 0
      grandMasterPriority2 := 0
      stepsRemoved := 0
      reserved := 0
      grandMasterClockQuality :=
        if env.refId ≠ 0 then toPtpClkAccuracy env.offsetRms else 0x31
      originTimestamp := toPtpTimestamp env.now }

/-- The message that `sendSync` transmits. -/
def sync (env : Env) (seqId : BitVec 32) : PacketPTP PTP2_TIMESTAMP where
  eth := ⟨gPtpMac, 0, ETHTYPE_PTP⟩
  ptp :=
    { HEADER_PTP.zero.assign env PTP2_MT_SYNC PTP2_TIMESTAMP.packed.size PTP2_SYNC_LOG_INTV with
      sequenceId := htons (seqId.setWidth 16) }
  data := toPtpTimestamp env.now

/-- A frame is copied into a cleared buffer of another size. -/
def resize (frame : List Byte) (txSize : ℕ) : List Byte :=
  frame.take txSize ++ List.replicate (txSize - frame.length) 0

def responsePacked : Packed (PacketPTP PTP2_DELAY_RESP) := PacketPTP.packed PTP2_DELAY_RESP.packed

def syncPacked : Packed (PacketPTP PTP2_TIMESTAMP) := PacketPTP.packed PTP2_TIMESTAMP.packed

/-- What `processDelayRequest` and `processPDelayRequest` do with a request of at least `minSize`
bytes: the response, which is a message of the type `messageType`. -/
def respond (env : Env) (rxTime : BitVec 32 × BitVec 32) (minSize : ℕ) (messageType : BitVec 4)
    (frame : List Byte) : Option (PacketPTP PTP2_DELAY_RESP) :=
  -- verify request length
  if frame.length < minSize then none
  else
    let response := responsePacked.read (resize frame responsePacked.size)
    some { response with
      data := ⟨toPtpTimestamp (env.stamp rxTime), response.ptp.sourceIdentity⟩
      ptp := response.ptp.assign env messageType PTP2_DELAY_RESP.packed.size 0 }

def processDelayRequest (env : Env) (rxTime : BitVec 32 × BitVec 32) (frame : List Byte) :
    Option (PacketPTP PTP2_DELAY_RESP) :=
  respond env rxTime (PTP2_MIN_SIZE + PTP2_TIMESTAMP.packed.size) PTP2_MT_DELAY_RESP frame

def processPDelayRequest (env : Env) (rxTime : BitVec 32 × BitVec 32) (frame : List Byte) :
    Option (PacketPTP PTP2_DELAY_RESP) :=
  respond env rxTime (PTP2_MIN_SIZE + PTP2_DELAY_RESP.packed.size) PTP2_MT_PDELAY_RESP frame

/-- `peerDelayRespFollowup` -/
def peerDelayRespFollowup (env : Env) (txTime : BitVec 32 × BitVec 32) (frame : List Byte) :
    PacketPTP PTP2_DELAY_RESP :=
  let response := responsePacked.read (resize frame responsePacked.size)
  { response with
    ptp := { response.ptp with
      messageType := PTP2_MT_PDELAY_FOLLOW_UP
      messageLength := htons (BitVec.ofNat 16 (HEADER_SIZE + PTP2_DELAY_RESP.packed.size)) }
    data := { response.data with receiveTimestamp := toPtpTimestamp (env.stamp txTime) } }

/-- `syncFollowup` -/
def syncFollowup (env : Env) (txTime : BitVec 32 × BitVec 32) (frame : List Byte) :
    PacketPTP PTP2_TIMESTAMP :=
  let followup := syncPacked.read frame
  { followup with
    ptp := { followup.ptp with messageType := PTP2_MT_FOLLOW_UP }
    data := toPtpTimestamp (env.stamp txTime) }

/-! ## `PTP_process` -/

/-- The header of a packet. -/
def headPacked : Packed (HeaderEthernet × HEADER_PTP) :=
  HeaderEthernet.packed.prod HEADER_PTP.packed

/-- The functions that `network::transmit` gets as callbacks, by their addresses. -/
def syncFollowupAddr : Net.Addr := 1

def peerDelayRespFollowupAddr : Net.Addr := 2

/-- `PTP_process`: the frame that is transmitted, and its callback. -/
def PTP_process (env : Env) (rxTime : BitVec 32 × BitVec 32) (frame : List Byte) :
    Option (List Byte × Option Net.Addr) :=
  let packet := headPacked.read frame
  -- ignore anything we sent ourselves
  if packet.1.macSrc = env.mac then none
  -- ignore unsupported versions
  else if packet.2.versionPTP ≠ 2 then none
  else
    -- flip mac address for reply
    let frame := (frame.drop 6).take 6 ++ frame.drop 6
    if packet.2.messageType = PTP2_MT_DELAY_REQ then
      (processDelayRequest env rxTime frame).map fun r => (responsePacked.bytes r, none)
    else if packet.2.messageType = PTP2_MT_PDELAY_REQ then
      (processPDelayRequest env rxTime frame).map fun r =>
        (responsePacked.bytes r, some peerDelayRespFollowupAddr)
    else none

end Gpsdo.Ptp
