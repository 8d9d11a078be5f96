import Gpsdo.Basic.Run
import Gpsdo.Basic.Span
import Mathlib.Data.BitVec

set_option autoImplicit false

/-! # The transmit ring (`lib/net.cpp`)

`network::transmit` cuts a frame into segments of 128 bytes and hands them to the DMA of the MAC
through a ring of descriptors; `processFrameTx` reclaims them. The DMA runs next to the code: it may
clear an OWN flag at any moment, also between two of the assignments at the end of `transmit` that
set them. So these assignments are steps of their own (`Tx.mark`). The rest of `transmit` is one
step, since it writes to descriptors that the DMA does not own, and so is `processFrameTx`, which
sees what it would see if it ran at the moment when it reads its last flag. It calls back last, when
the ring is in order again: what a callback transmits are the next steps.
-/

namespace Gpsdo.Net

abbrev Byte := BitVec 8

/-! ## Constants -/

/-- Maximum frame length. -/
def MTU : ℕ := 1518

/-- 128 bytes = smallest ethernet frame (64-bytes) plus interframe gap (64-bytes). -/
def SEGMENT_SIZE : ℕ := 128

abbrev TX_RING_SIZE : ℕ := 128

instance neZero_ring : NeZero TX_RING_SIZE := ⟨by decide⟩

/-- The OWN, LS and FS flags of TDES0. -/
def TDES0_OWN : ℕ := 31

def TDES0_LS : ℕ := 29

def TDES0_FS : ℕ := 28

/-- Mask for clearing the TDES0 field of a segment. -/
def MASK_CLEAR : BitVec 32 := 1 <<< 21

/-- Flags for the first segment (FS, TTSE). -/
def FLAGS_FIRST : BitVec 32 := 1 <<< 28 ||| 1 <<< 25

/-- Flags for the last segment (LS, IC). -/
def FLAGS_LAST : BitVec 32 := 1 <<< 30 ||| 1 <<< 29

/-! ## Data -/

/-- The address of a function or an object. -/
abbrev Addr := ℕ

/-- `EMAC_TX_DESC`: TDES0, the size of the segment, and the time stamp. -/
structure TxDesc where
  TDES0 : BitVec 32
  TBS1 : ℕ
  TTSL : BitVec 32
  TTSH : BitVec 32
  deriving DecidableEq, Repr

namespace TxDesc

def OWN (d : TxDesc) : Bool := d.TDES0.getLsbD TDES0_OWN

def LS (d : TxDesc) : Bool := d.TDES0.getLsbD TDES0_LS

def FS (d : TxDesc) : Bool := d.TDES0.getLsbD TDES0_FS

end TxDesc

/-- An element of `txCallback`. -/
structure TxCallback where
  call : Option Addr
  ref : Addr
  deriving DecidableEq, Repr

/-- The variables of the transmitter, and where the DMA is. -/
structure Tx where
  txHead : Fin TX_RING_SIZE
  txTail : Fin TX_RING_SIZE
  overflowTx : BitVec 32
  txTime : BitVec 32 × BitVec 32
  txDesc : Fin TX_RING_SIZE → TxDesc
  txBuffer : Fin TX_RING_SIZE → List Byte
  txCallback : Fin TX_RING_SIZE → TxCallback
  /-- `ptr` and `head` in the last loop of `transmit`. -/
  marking : Option (Fin TX_RING_SIZE × Fin TX_RING_SIZE)
  /-- The descriptor that the DMA looks at. -/
  dma : Fin TX_RING_SIZE

namespace Tx

def setDesc (s : Tx) (i : Fin TX_RING_SIZE) (d : TxDesc) : Tx :=
  { s with txDesc := Function.update s.txDesc i d }

def setBuffer (s : Tx) (i : Fin TX_RING_SIZE) (b : List Byte) : Tx :=
  { s with txBuffer := Function.update s.txBuffer i b }

def setCallback (s : Tx) (i : Fin TX_RING_SIZE) (c : TxCallback) : Tx :=
  { s with txCallback := Function.update s.txCallback i c }

/-- `txDesc[i].TDES0.raw |= flags` -/
def setFlags (s : Tx) (i : Fin TX_RING_SIZE) (flags : BitVec 32) : Tx :=
  s.setDesc i { s.txDesc i with TDES0 := (s.txDesc i).TDES0 ||| flags }

/-- `initDescriptors`, and the counters of the static memory. -/
def init : Tx where
  txHead := 0
  txTail := 0
  overflowTx := 0
  txTime := (0, 0)
  txDesc i := ⟨if i.val = TX_RING_SIZE - 1 then 1 <<< 21 else 0, 0, 0, 0⟩
  txBuffer _ := List.replicate SEGMENT_SIZE 0
  txCallback _ := ⟨none, 0⟩
  marking := none
  dma := 0

/-! ## `network::transmit` -/

/-- One turn of the loop of `transmit`: a segment is copied. -/
def copySegment (s : Tx) (ptr : Fin TX_RING_SIZE) (frame : List Byte) : Tx :=
  let segment := min frame.length SEGMENT_SIZE
  let s := s.setBuffer ptr (frame.take segment ++ (s.txBuffer ptr).drop segment)
  s.setDesc ptr
    { s.txDesc ptr with TBS1 := segment, TDES0 := (s.txDesc ptr).TDES0 &&& MASK_CLEAR }

/-- The loop of `transmit`, with the last value of `ptr`. Every turn but the last takes 128 bytes,
so that it ends after at most `size` turns. -/
def copyFrame : ℕ → Tx → Fin TX_RING_SIZE → List Byte → Tx × Fin TX_RING_SIZE
  | 0, s, ptr, frame => (s.copySegment ptr frame, ptr)
  | n + 1, s, ptr, frame =>
      let s := s.copySegment ptr frame
      let rest := frame.drop SEGMENT_SIZE
      if rest = [] then (s, ptr) else copyFrame n s (ptr + 1) rest

/-- The part of `transmit` from its first loop up to its last one. -/
def submit (s : Tx) (frame : List Byte) (callback : Option Addr) (ref : Addr) : Tx :=
  let head := s.txHead
  let r := copyFrame frame.length s head frame
  let ptr := r.2
  let s := r.1.setFlags head FLAGS_FIRST
  let s := s.setFlags ptr FLAGS_LAST
  let s := s.setCallback ptr ⟨callback, ref⟩
  let ptr := ptr + 1
  { s with txHead := ptr, marking := if ptr = head then none else some (ptr, head) }

/-- `network::transmit` up to its last loop, and what it returns. -/
def transmit (s : Tx) (frame : List Byte) (callback : Option Addr) (ref : Addr) : Tx × Bool :=
  if MTU < frame.length then (s, false)
  else if (s.txTail - s.txHead - 1).val < (frame.length + SEGMENT_SIZE - 1) / SEGMENT_SIZE then
    ({ s with overflowTx := s.overflowTx + 1 }, false)
  else (s.submit frame callback ref, true)

/-- One turn of the last loop of `transmit`, which marks the segments for transmission. -/
def mark (s : Tx) : Option Tx :=
  match s.marking with
  | none => none
  | some (ptr, head) =>
      let ptr := ptr - 1
      some { s.setFlags ptr (1 <<< TDES0_OWN) with
        marking := if ptr = head then none else some (ptr, head) }

/-! ## `processFrameTx` -/

/-- The first loop of `processFrameTx`: the last segment of a completed frame, and the size of the
frame. The ring is left after 128 turns. -/
def scan (s : Tx) : ℕ → Fin TX_RING_SIZE → ℕ → Option (Fin TX_RING_SIZE × ℕ)
  | 0, _, _ => none
  | n + 1, ptr, size =>
      if ptr = s.txHead || (s.txDesc ptr).OWN then none
      else
        let size := size + (s.txDesc ptr).TBS1
        if (s.txDesc ptr).LS then some (ptr, size) else scan s n (ptr + 1) size

/-- The second loop of `processFrameTx`, which copies the frame together up to `stop`. -/
def assemble (s : Tx) (stop : Fin TX_RING_SIZE) : ℕ → Fin TX_RING_SIZE → List Byte
  | 0, _ => []
  | n + 1, ptr =>
      if ptr = stop then []
      else (s.txBuffer ptr).take (s.txDesc ptr).TBS1 ++ assemble s stop n (ptr + 1)

/-- The arguments of a callback: the function, its reference, the frame and its size. -/
structure TxCall where
  call : Addr
  ref : Addr
  frame : List Byte
  size : ℕ
  deriving DecidableEq, Repr

/-- `processFrameTx`: the new state, what it returns, and the callback it makes last. -/
def processFrameTx (s : Tx) : Tx × Bool × Option TxCall :=
  match s.scan TX_RING_SIZE s.txTail 0 with
  | none => (s, false, none)
  | some (last, size) =>
      match (s.txCallback last).call with
      | none => ({ s with txTail := last + 1 }, true, none)
      | some call =>
          let s := s.setCallback last { s.txCallback last with call := none }
          let buffer := s.assemble (last + 1) TX_RING_SIZE s.txTail
          ({ s with
              txTime := ((s.txDesc last).TTSL, (s.txDesc last).TTSH)
              txTail := last + 1 }, true,
            some ⟨call, (s.txCallback last).ref, buffer, size⟩)

/-! ## The DMA -/

/-- A segment that the DMA sends. -/
structure WireSegment where
  first : Bool
  last : Bool
  bytes : List Byte
  deriving DecidableEq, Repr

/-- What the DMA sends from the descriptor that it looks at. -/
def send (s : Tx) : Option WireSegment :=
  let d := s.txDesc s.dma
  if d.OWN then some ⟨d.FS, d.LS, (s.txBuffer s.dma).take d.TBS1⟩ else none

/-- The DMA has sent a segment: it writes its status and a time stamp, clears OWN and goes on. -/
def complete (s : Tx) (status : BitVec 18) (time : BitVec 32 × BitVec 32) : Option Tx :=
  if (s.txDesc s.dma).OWN then
    some { s.setDesc s.dma
        { s.txDesc s.dma with
          TDES0 := (s.txDesc s.dma).TDES0 &&& ~~~(1 <<< TDES0_OWN : BitVec 32) ||| status.setWidth 32
          TTSL := time.1
          TTSH := time.2 } with
      dma := s.dma + 1 }
  else none

end Tx

/-! ## The machine -/

/-- What happens at the transmit ring. -/
inductive TxAction
  /-- `network::transmit`, with at least one byte. -/
  | transmit (frame : List Byte) (callback : Option Addr) (ref : Addr)
  | mark
  | processFrameTx
  | complete (status : BitVec 18) (time : BitVec 32 × BitVec 32)
  deriving DecidableEq, Repr

/-- The machine of the transmit ring. The code is in one function at a time. -/
def Tx.step (s : Tx) : TxAction → Option Tx
  | .transmit frame callback ref =>
      if s.marking = none ∧ frame ≠ [] then some (s.transmit frame callback ref).1 else none
  | .mark => s.mark
  | .processFrameTx => if s.marking = none then some s.processFrameTx.1 else none
  | .complete status time => s.complete status time

/-- The history of a run of the machine, newest first. -/
abbrev TxHistory := List (Tx × TxAction)

/-! ## What a run did -/

/-- A frame that was given to `transmit`. -/
structure Submission where
  bytes : List Byte
  callback : Option Addr
  ref : Addr
  deriving DecidableEq, Repr

/-- The frame that a step accepts. -/
def Tx.accepts (s : Tx) : TxAction → List Submission
  | .transmit frame callback ref =>
      if (s.transmit frame callback ref).2 then [⟨frame, callback, ref⟩] else []
  | _ => []

/-- The segment that a step sends. -/
def Tx.sends (s : Tx) : TxAction → List Tx.WireSegment
  | .complete _ _ => s.send.toList
  | _ => []

/-- The callback that a step makes. -/
def Tx.calls (s : Tx) : TxAction → List Tx.TxCall
  | .processFrameTx => s.processFrameTx.2.2.toList
  | _ => []

/-- Whether a step reclaims a frame. -/
def Tx.reclaims (s : Tx) : TxAction → Bool
  | .processFrameTx => s.processFrameTx.2.1
  | _ => false

/-- The frames that are out, and the part of a frame that is out. -/
structure Wire where
  frames : List (List Byte)
  current : List Byte
  deriving DecidableEq, Repr

/-- A segment goes out: the first one begins a frame, the last one completes it. -/
def Wire.push (w : Wire) (seg : Tx.WireSegment) : Wire :=
  let current := if seg.first then seg.bytes else w.current ++ seg.bytes
  if seg.last then ⟨w.frames ++ [current], []⟩ else ⟨w.frames, current⟩

/-- The frames that were accepted. -/
def accepted (h : TxHistory) : List Submission := outputs Tx.accepts h

/-- What the DMA has sent. -/
def wire (h : TxHistory) : Wire := (outputs Tx.sends h).foldl Wire.push ⟨[], []⟩

/-- The callbacks that were made. -/
def callbacks (h : TxHistory) : List Tx.TxCall := outputs Tx.calls h

/-- The number of frames that were reclaimed. -/
def reclaimed (h : TxHistory) : ℕ := h.countP fun p => p.1.reclaims p.2

theorem reclaimed_cons (s : Tx) (a : TxAction) (h : TxHistory) :
    reclaimed ((s, a) :: h) = reclaimed h + if s.reclaims a then 1 else 0 := List.countP_cons

theorem reclaimed_cons_of_false {s : Tx} {a : TxAction} (ha : s.reclaims a = false)
    (h : TxHistory) : reclaimed ((s, a) :: h) = reclaimed h := by
  rw [reclaimed_cons, ha]
  rfl

end Gpsdo.Net
