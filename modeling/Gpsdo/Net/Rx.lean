import Gpsdo.Net.Tx

set_option autoImplicit false

/-! # The receive ring (`lib/net.cpp`)

The DMA of the MAC writes the segments of a frame into the descriptors that it owns;
`processFrameRx` copies a frame together, returns its descriptors and calls the handler of its
protocol. The DMA runs next to the code and may fill a descriptor as soon as it is returned, so
every turn of the loops that return descriptors is a step (`Rx.turn`). The loop that looks for the
end of a frame is one step: it sees what it would see if it ran at the moment of its last read.

The receiver is stopped after an overflow, and `runRx` restarts it (`Rx.restartRx`). A run starts
with such a restart.
-/

namespace Gpsdo.Net

/-! ## Data -/

abbrev RX_RING_SIZE : ℕ := 128

/-- `EMAC_RX_DESC`: the fields of RDES0 that the code uses, and the time stamp. -/
structure RxDesc where
  OWN : Bool
  LS : Bool
  ES : Bool
  FL : ℕ
  RTSL : BitVec 32
  RTSH : BitVec 32
  deriving DecidableEq, Repr

/-- Where `processFrameRx` is: not running, in the loop that discards a frame, or in the loop that
copies one into a buffer of `size` bytes. -/
inductive RxLoop
  | idle
  | discard (ptr stop : Fin RX_RING_SIZE)
  | assemble (ptr stop : Fin RX_RING_SIZE) (buffer : List Byte) (length size : ℕ)
  deriving DecidableEq, Repr

/-- The variables of the receiver, and where the DMA is. -/
structure Rx where
  rxTail : Fin RX_RING_SIZE
  rxTime : BitVec 32 × BitVec 32
  rxDesc : Fin RX_RING_SIZE → RxDesc
  rxBuffer : Fin RX_RING_SIZE → List Byte
  loop : RxLoop
  /-- The descriptor that the DMA fills next. -/
  dma : Fin RX_RING_SIZE
  /-- The bytes of the frame that comes in, and its segments. -/
  received : ℕ
  segments : ℕ

/-- The functions of the registry. -/
inductive Handler
  | ARP_process
  | PTP_process
  | IPv4_process
  deriving DecidableEq, Repr

def ETHTYPE_ARP : BitVec 16 := 0x0608

def ETHTYPE_IP4 : BitVec 16 := 0x0008

def ETHTYPE_PTP : BitVec 16 := 0xF788

def registry : List (BitVec 16 × Handler) :=
  [(ETHTYPE_ARP, .ARP_process), (ETHTYPE_PTP, .PTP_process), (ETHTYPE_IP4, .IPv4_process)]

/-- A call of a handler, with the receive time stamp that it can read. -/
structure RxCall where
  handler : Handler
  frame : List Byte
  length : ℕ
  rxTime : BitVec 32 × BitVec 32
  deriving DecidableEq, Repr

/-- `ethType` of the header, as a little-endian word. -/
def ethType (buffer : List Byte) : BitVec 16 := buffer.getD 13 0 ++ buffer.getD 12 0

/-- The end of `processFrameRx`: the call that the frame gets. -/
def dispatch (buffer : List Byte) (length : ℕ) (rxTime : BitVec 32 × BitVec 32) : Option RxCall :=
  if (buffer.getD 6 0).getLsbD 0 then none
  else (registry.lookup (ethType buffer)).map fun handler => ⟨handler, buffer, length, rxTime⟩

namespace Rx

/-! ## The code -/

def initRx (s : Rx) : Rx := { s with rxDesc := fun _ => ⟨true, false, false, 0, 0, 0⟩ }

/-- `restartRx`. The DMA begins at the first descriptor with a new frame. -/
def restartRx (s : Rx) : Rx := { s.initRx with rxTail := 0, dma := 0, received := 0, segments := 0 }

/-- Restore DMA ownership. -/
def restore (s : Rx) (i : Fin RX_RING_SIZE) : Rx :=
  { s with rxDesc := Function.update s.rxDesc i { s.rxDesc i with OWN := true } }

/-- The first loop of `processFrameRx`, for some turns: `none` when it is still running after
these, else whether it found a last segment. -/
def scan (s : Rx) : ℕ → Fin RX_RING_SIZE → Option (Option (Fin RX_RING_SIZE))
  | 0, _ => none
  | n + 1, ptr =>
      if (s.rxDesc ptr).OWN then some none
      else if (s.rxDesc ptr).LS then some (some ptr)
      else scan s n (ptr + 1)

/-- `processFrameRx` up to its second loop. A scan of the whole ring would never end. -/
def processFrameRx (s : Rx) : Option Rx :=
  (s.scan RX_RING_SIZE s.rxTail).map fun
    | none => s
    | some last =>
        let stop := last + 1
        if (s.rxDesc last).ES then { s with loop := .discard s.rxTail stop }
        else
          { s with
            rxTime := ((s.rxDesc last).RTSL, (s.rxDesc last).RTSH)
            loop := .assemble s.rxTail stop [] 0 (s.rxDesc last).FL }

/-- One turn of the loops that return the descriptors of a frame, or their end. -/
def turn (s : Rx) : Option Rx :=
  match s.loop with
  | .idle => none
  | .discard ptr stop =>
      if ptr = stop then some { s with rxTail := ptr, loop := .idle }
      else some { s.restore ptr with loop := .discard (ptr + 1) stop }
  | .assemble ptr stop buffer length size =>
      if ptr = stop then some { s with rxTail := ptr, loop := .idle }
      else
        let accLength := (s.rxDesc ptr).FL
        let buffer := buffer ++ (s.rxBuffer ptr).take (accLength - length)
        some { s.restore ptr with loop := .assemble (ptr + 1) stop buffer accLength size }

/-! ## The DMA -/

/-- The DMA writes a segment. The frame is over with the last one; it has at least the bytes of the
header, and at most 127 segments. -/
def receive (s : Rx) (bytes : List Byte) (last es : Bool) (time : BitVec 32 × BitVec 32) :
    Option Rx :=
  let acc := s.received + bytes.length
  if (s.rxDesc s.dma).OWN ∧ bytes.length ≤ SEGMENT_SIZE ∧
      s.segments + (if last then 1 else 2) ≤ 127 ∧ (last → 14 ≤ acc) then
    some { s with
      rxDesc := Function.update s.rxDesc s.dma ⟨false, last, es, acc, time.1, time.2⟩
      rxBuffer := Function.update s.rxBuffer s.dma
        (bytes ++ (s.rxBuffer s.dma).drop bytes.length)
      dma := s.dma + 1
      received := if last then 0 else acc
      segments := if last then 0 else s.segments + 1 }
  else none

end Rx

/-! ## The machine -/

/-- What happens at the receive ring. -/
inductive RxAction
  | processFrameRx
  | turn
  | receive (bytes : List Byte) (last es : Bool) (time : BitVec 32 × BitVec 32)
  deriving DecidableEq, Repr

/-- The machine of the receive ring. -/
def Rx.step (s : Rx) : RxAction → Option Rx
  | .processFrameRx => if s.loop = .idle then s.processFrameRx else none
  | .turn => s.turn
  | .receive bytes last es time => s.receive bytes last es time

/-- The history of a run of the machine, newest first. -/
abbrev RxHistory := List (Rx × RxAction)

/-! ## What a run did -/

/-- A segment that was received: its bytes, the bytes of its frame up to its end, and its flags. -/
structure RxSegment where
  bytes : List Byte
  acc : ℕ
  last : Bool
  es : Bool
  time : BitVec 32 × BitVec 32
  deriving DecidableEq, Repr

/-- The segment that a step receives. -/
def Rx.receives (s : Rx) : RxAction → List RxSegment
  | .receive bytes last es time => [⟨bytes, s.received + bytes.length, last, es, time⟩]
  | _ => []

/-- The descriptor that a step fills. -/
def Rx.fills (s : Rx) : RxAction → List (Fin RX_RING_SIZE)
  | .receive .. => [s.dma]
  | _ => []

/-- The descriptor that a step returns to the DMA. -/
def Rx.returns (s : Rx) : RxAction → List (Fin RX_RING_SIZE)
  | .turn =>
      match s.loop with
      | .idle => []
      | .discard ptr stop => if ptr = stop then [] else [ptr]
      | .assemble ptr stop _ _ _ => if ptr = stop then [] else [ptr]
  | _ => []

/-- The call that a step makes. -/
def Rx.calls (s : Rx) : RxAction → List RxCall
  | .turn =>
      match s.loop with
      | .assemble ptr stop buffer length _ =>
          if ptr = stop then (dispatch buffer length s.rxTime).toList else []
      | _ => []
  | _ => []

/-- Whether a step ends the processing of a frame. -/
def Rx.finishes (s : Rx) : RxAction → Bool
  | .turn =>
      match s.loop with
      | .idle => false
      | .discard ptr stop => ptr = stop
      | .assemble ptr stop _ _ _ => ptr = stop
  | _ => false

/-- The frames that are in, and the part of a frame that is in. -/
structure Reception where
  frames : List (List RxSegment)
  current : List RxSegment
  deriving DecidableEq, Repr

/-- A segment comes in; the last one completes a frame. -/
def Reception.push (r : Reception) (seg : RxSegment) : Reception :=
  if seg.last then ⟨r.frames ++ [r.current ++ [seg]], []⟩ else ⟨r.frames, r.current ++ [seg]⟩

/-- What the DMA has received. -/
def reception (h : RxHistory) : Reception :=
  (outputs Rx.receives h).foldl Reception.push ⟨[], []⟩

/-- The calls that were made. -/
def handled (h : RxHistory) : List RxCall := outputs Rx.calls h

/-- The number of frames that were processed. -/
def processed (h : RxHistory) : ℕ := h.countP fun p => p.1.finishes p.2

/-- The call that a frame should get: none with an error, else the one for all its bytes. -/
def frameCall (f : List RxSegment) : Option RxCall :=
  f.getLast?.bind fun last =>
    if last.es then none
    else dispatch (f.flatMap (·.bytes)) (f.flatMap (·.bytes)).length last.time

end Gpsdo.Net
