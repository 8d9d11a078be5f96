import Gpsdo.Chrony.Candm
import Gpsdo.Net.Udp

set_option autoImplicit false

/-! # Status queries of chronyc (`lib/ntp/ntp.cpp`)

`chronycRequest` answers a request in a buffer on the stack. The memory of the model begins with
this buffer; what is behind it is a parameter. A reply comes with the addresses that were read to
checksum and transmit it. The records that the sources and the clock fill in are parameters too:
they change nothing but their record.
-/

namespace Gpsdo.Chrony

open CType Net

/-! ## Codes -/

def PKT_TYPE_CMD_REQUEST : Byte := 1

def PKT_TYPE_CMD_REPLY : Byte := 2

def PROTO_VERSION_NUMBER : Byte := 6

def PROTO_VERSION_MISMATCH_COMPAT_SERVER : Byte := 5

def REQ_N_SOURCES : BitVec 16 := 14

def REQ_SOURCE_DATA : BitVec 16 := 15

def REQ_TRACKING : BitVec 16 := 33

def REQ_SOURCESTATS : BitVec 16 := 34

def REQ_NTP_DATA : BitVec 16 := 57

def RPY_NULL : BitVec 16 := 1

def RPY_N_SOURCES : BitVec 16 := 2

def RPY_SOURCE_DATA : BitVec 16 := 3

def RPY_TRACKING : BitVec 16 := 5

def RPY_SOURCESTATS : BitVec 16 := 6

def RPY_NTP_DATA : BitVec 16 := 16

def STT_SUCCESS : BitVec 16 := 0

def STT_INVALID : BitVec 16 := 3

def STT_NOSUCHSOURCE : BitVec 16 := 4

def STT_BADPKTVERSION : BitVec 16 := 18

def STT_BADPKTLENGTH : BitVec 16 := 19

def IPADDR_INET4 : BitVec 16 := 1

/-! ## What the replies report -/

/-- A function that fills in a record. -/
abbrev Filler (ts : List CType) := (Fin (struct ts).size → Byte) → Fin (struct ts).size → Byte

/-- What a source reports. -/
structure Source where
  getSourceData : Filler RPY_Source_Data
  getSourceStats : Filler RPY_Sourcestats
  getNtpData : Filler RPY_NTPData
  isRecipient : BitVec 32 → Bool

/-- The table of the sources, and what the clock reports. -/
structure Reports where
  cntSources : BitVec 32
  sources : ℕ → Option Source
  tracking : Filler RPY_Tracking

/-! ## Reading a request and writing a reply -/

/-- The bytes of the request that a frame carries. -/
def request (frame : List Byte) (k : ℕ) : Byte := frame.getD (FrameUdp4.DATA_OFFSET + k) 0

/-- A word of the request, in the order of the network. -/
def request32 (frame : List Byte) (k : ℕ) : BitVec 32 :=
  request frame k ++ request frame (k + 1) ++ request frame (k + 2) ++ request frame (k + 3)

/-- The size of the buffer for the response. -/
def RESP_SIZE : ℕ := FrameUdp4.DATA_OFFSET + CMD_Reply.size

/-- A field of the reply is set. -/
def setReply (m : Mem Byte) (k : ℕ) (bytes : List Byte) : Mem Byte :=
  m.store (FrameUdp4.DATA_OFFSET + k) bytes

/-- A record of the reply is filled in. -/
def fill (m : Mem Byte) (ts : List CType) (f : Filler ts) : Mem Byte :=
  m.modify (FrameUdp4.DATA_OFFSET + CMD_Reply.dataOffset) (struct ts).size f

/-! ## The handlers -/

/-- `chronycReply` -/
def chronycReply (m : Mem Byte) (frame : List Byte) : Mem Byte :=
  let m := setReply m CMD_Reply.version [PROTO_VERSION_NUMBER]
  let m := setReply m CMD_Reply.pkt_type [PKT_TYPE_CMD_REPLY]
  let m := setReply m CMD_Reply.command
    [request frame CMD_Request.command, request frame (CMD_Request.command + 1)]
  let m := setReply m CMD_Reply.reply (be16 RPY_NULL)
  let m := setReply m CMD_Reply.status (be16 STT_SUCCESS)
  setReply m CMD_Reply.sequence
    [request frame CMD_Request.sequence, request frame (CMD_Request.sequence + 1),
      request frame (CMD_Request.sequence + 2), request frame (CMD_Request.sequence + 3)]

def chronycNSources (rep : Reports) (m : Mem Byte) (_ : List Byte) : Mem Byte × BitVec 16 :=
  let m := setReply m CMD_Reply.reply (be16 RPY_N_SOURCES)
  (setReply m CMD_Reply.dataOffset (be32 rep.cntSources), STT_SUCCESS)

def chronycSourceData (rep : Reports) (m : Mem Byte) (frame : List Byte) :
    Mem Byte × BitVec 16 :=
  let m := setReply m CMD_Reply.reply (be16 RPY_SOURCE_DATA)
  let i := request32 frame CMD_Request.dataOffset
  if rep.cntSources ≤ i then (m, STT_NOSUCHSOURCE)
  else
    match rep.sources i.toNat with
    | none => (m, STT_NOSUCHSOURCE)
    | some source => (fill m RPY_Source_Data source.getSourceData, STT_SUCCESS)

def chronycSourceStats (rep : Reports) (m : Mem Byte) (frame : List Byte) :
    Mem Byte × BitVec 16 :=
  let m := setReply m CMD_Reply.reply (be16 RPY_SOURCESTATS)
  let i := request32 frame CMD_Request.dataOffset
  if rep.cntSources ≤ i then (m, STT_NOSUCHSOURCE)
  else
    match rep.sources i.toNat with
    | none => (m, STT_NOSUCHSOURCE)
    | some source => (fill m RPY_Sourcestats source.getSourceStats, STT_SUCCESS)

def chronycTracking (rep : Reports) (m : Mem Byte) (_ : List Byte) : Mem Byte × BitVec 16 :=
  let m := setReply m CMD_Reply.reply (be16 RPY_TRACKING)
  (fill m RPY_Tracking rep.tracking, STT_SUCCESS)

def chronycNtpData (rep : Reports) (m : Mem Byte) (frame : List Byte) : Mem Byte × BitVec 16 :=
  let m := setReply m CMD_Reply.reply (be16 RPY_NTP_DATA)
  let family := CMD_Request.dataOffset + IPAddr.family
  if request frame family ++ request frame (family + 1) ≠ IPADDR_INET4 then
    (m, STT_NOSUCHSOURCE)
  else
    -- the address is compared in the order of the network, as it is stored
    let addr := request frame (CMD_Request.dataOffset + 3) ++
      request frame (CMD_Request.dataOffset + 2) ++ request frame (CMD_Request.dataOffset + 1) ++
      request frame CMD_Request.dataOffset
    match (List.range rep.cntSources.toNat).findSome? fun i =>
        (rep.sources i).filter (·.isRecipient addr) with
    | none => (m, STT_NOSUCHSOURCE)
    | some source => (fill m RPY_NTPData source.getNtpData, STT_SUCCESS)

/-- An element of `handlers`. -/
structure Handler where
  call : Reports → Mem Byte → List Byte → Mem Byte × BitVec 16
  len : ℕ
  cmd : BitVec 16

def handlers : List Handler := [
  ⟨chronycNSources, CMD_Reply.EOR RPY_N_Sources, REQ_N_SOURCES⟩,
  ⟨chronycSourceData, CMD_Reply.EOR RPY_Source_Data, REQ_SOURCE_DATA⟩,
  ⟨chronycSourceStats, CMD_Reply.EOR RPY_Sourcestats, REQ_SOURCESTATS⟩,
  ⟨chronycTracking, CMD_Reply.EOR RPY_Tracking, REQ_TRACKING⟩,
  ⟨chronycNtpData, CMD_Reply.EOR RPY_NTPData, REQ_NTP_DATA⟩]

/-! ## `chronycRequest` -/

def REQ_MIN_LEN : ℕ := CMD_Request.dataOffset

def REQ_MAX_LEN : ℕ := CMD_Request.size

/-- A reply: the frame that is transmitted, and the addresses that were read for it. -/
structure Reply where
  frame : List Byte
  reads : List ℕ

/-- The checks of `chronycRequest` that drop a frame. -/
def accepts (frame : List Byte) : Bool :=
  FrameUdp4.DATA_OFFSET + REQ_MIN_LEN ≤ frame.length &&
  frame.length ≤ FrameUdp4.DATA_OFFSET + REQ_MAX_LEN &&
  request frame CMD_Request.pkt_type == PKT_TYPE_CMD_REQUEST &&
  request32 frame CMD_Request.pad1 == 0 &&
  request32 frame CMD_Request.pad2 == 0 &&
  (request frame CMD_Request.version == PROTO_VERSION_NUMBER ||
    PROTO_VERSION_MISMATCH_COMPAT_SERVER ≤ request frame CMD_Request.version)

/-- The cleared buffer with the headers of the frame; `stack` is what lies behind it. -/
def allocate (stack : Mem Byte) (frame : List Byte) : Mem Byte :=
  fun i =>
    if i < FrameUdp4.DATA_OFFSET then frame.getD i 0
    else if i < RESP_SIZE then 0
    else stack (i - RESP_SIZE)

/-- The status of the response, and the response with its data. -/
def respond (rep : Reports) (m : Mem Byte) (frame : List Byte) : Mem Byte × BitVec 16 :=
  if m (FrameUdp4.DATA_OFFSET + CMD_Reply.version) ≠ PROTO_VERSION_NUMBER then
    (m, STT_BADPKTVERSION)
  else
    let cmd := m (FrameUdp4.DATA_OFFSET + CMD_Reply.command) ++
      m (FrameUdp4.DATA_OFFSET + CMD_Reply.command + 1)
    let len := frame.length - FrameUdp4.DATA_OFFSET
    let m := setReply m CMD_Reply.status (be16 STT_INVALID)
    match handlers.find? (·.cmd = cmd) with
    | none => (m, STT_INVALID)
    | some handler =>
        if handler.len = len then handler.call rep m frame else (m, STT_BADPKTLENGTH)

/-- The buffer that is transmitted, with the memory behind it. -/
def response (rep : Reports) (stack : Mem Byte) (frame : List Byte) : Mem Byte :=
  let m := returnToSender (allocate stack frame)
  let r := respond rep (chronycReply m frame) frame
  let m := setReply r.1 CMD_Reply.status (be16 r.2)
  IPv4_finalize (UDP_finalize m frame.length) frame.length

/-- `chronycRequest` -/
def chronycRequest (rep : Reports) (stack : Mem Byte) (frame : List Byte) : Option Reply :=
  if accepts frame then
    let flen := frame.length
    some {
      frame := (response rep stack frame).load 0 flen
      reads := RFC1071_reads Frame.udp (flen - HeaderEthernet.size - HeaderIp4.size) ++
        RFC1071_reads Frame.ip4 HeaderIp4.size ++ List.range flen }
  else none

end Gpsdo.Chrony
