import Gpsdo.Basic.Reading
import Gpsdo.Net.Udp

set_option autoImplicit false

/-! # Reading SNMP requests (`lib/snmp/util.cpp`, `lib/snmp/snmp.cpp`)

A reader takes an offset into the message and returns the offset behind what it has read, or -1. The
memory of the message is a function of the offset: in front of the message lie the headers of its
frame, behind it whatever there is. Every function records the offsets that it loads from the
message.
-/

namespace Gpsdo.Snmp

open Net

/-! ## Loads -/

/-- Two bytes in the order of the network. -/
def load16 (data : ℤ → Byte) (offset : ℤ) : Reading ℤ (BitVec 16) := do
  let b₀ ← Reading.load data offset
  let b₁ ← Reading.load data (offset + 1)
  pure (b₀ ++ b₁)

/-- The loops that copy `n` bytes. -/
def loadBytes (data : ℤ → Byte) (offset : ℤ) : ℕ → Reading ℤ (List Byte)
  | 0 => pure []
  | n + 1 => do
      let b ← Reading.load data offset
      let bytes ← loadBytes data (offset + 1) n
      pure (b :: bytes)

/-! ## `util.cpp` -/

/-- `readLength`: the offset, and `result`. -/
def readLength (data : ℤ → Byte) (offset dlen : ℤ) (result : ℕ) : Reading ℤ (ℤ × ℕ) :=
  if offset < 0 then pure (-1, result)
  else if dlen ≤ offset then pure (-1, result)
  else do
    let head ← Reading.load data offset
    let offset := offset + 1
    -- definite short form
    if head &&& 0x80 = 0 then pure (offset, head.toNat)
    else if head &&& 0x7F = 1 then
      if dlen ≤ offset + 1 then pure (-1, result)
      else do
        let b ← Reading.load data offset
        pure (offset + 1, b.toNat)
    else if head &&& 0x7F = 2 then
      if dlen ≤ offset + 2 then pure (-1, result)
      else do
        let w ← load16 data offset
        pure (offset + 2, w.toNat)
    else pure (-1, result)

/-- The start of `buff` is overwritten. -/
def overwrite (buff bytes : List Byte) : List Byte := bytes ++ buff.drop bytes.length

/-- What `readBytes` and `readOID` have in common: a tag, a length, and contents that are copied to
a buffer of `rlen` bytes. -/
def readTagged (tag : Byte) (data : ℤ → Byte) (offset dlen : ℤ) (buff : List Byte) (rlen : ℕ) :
    Reading ℤ (ℤ × List Byte × ℕ) :=
  if offset < 0 then pure (-1, buff, rlen)
  else if dlen ≤ offset then pure (-1, buff, rlen)
  else do
    let head ← Reading.load data offset
    if head ≠ tag then pure (-1, buff, rlen)
    else do
      let (offset, blen) ← readLength data (offset + 1) dlen 0
      if offset < 0 ∨ dlen < offset + blen then pure (-1, buff, rlen)
      else do
        let rlen := min rlen blen
        let bytes ← loadBytes data offset rlen
        pure (offset + blen, overwrite buff bytes, rlen)

/-- `readBytes` -/
def readBytes : (ℤ → Byte) → ℤ → ℤ → List Byte → ℕ → Reading ℤ (ℤ × List Byte × ℕ) :=
  readTagged 0x04

/-- `readOID` -/
def readOID : (ℤ → Byte) → ℤ → ℤ → List Byte → ℕ → Reading ℤ (ℤ × List Byte × ℕ) :=
  readTagged 0x06

/-- The loop of `readInt32` that appends `n` words. -/
def appendWords (data : ℤ → Byte) (offset : ℤ) : ℕ → BitVec 32 → Reading ℤ (BitVec 32)
  | 0, temp => pure temp
  | n + 1, temp => do
      let w ← load16 data offset
      appendWords data (offset + 2) n (temp <<< 16 ||| w.setWidth 32)

/-- The sign extension of `readInt32`: `temp`, the offset and what is left of the length. -/
def readSign (data : ℤ → Byte) (offset blen : ℤ) : Reading ℤ (BitVec 32 × ℤ × ℤ) :=
  if blen % 2 = 1 then do
    let b ← Reading.load data offset
    pure (b.signExtend 32, offset + 1, blen - 1)
  else if blen < 4 then do
    let w ← load16 data offset
    pure (w.signExtend 32, offset + 2, blen - 2)
  else pure (0, offset, blen)

/-- `readInt32`: the offset, and `result`. -/
def readInt32 (data : ℤ → Byte) (offset dlen : ℤ) (result : BitVec 32) :
    Reading ℤ (ℤ × BitVec 32) :=
  if offset < 0 then pure (-1, result)
  else if dlen ≤ offset then pure (-1, result)
  else do
    let tag ← Reading.load data offset
    if tag ≠ 0x02 then pure (-1, result)
    else do
      let (offset, blen) ← readLength data (offset + 1) dlen 0
      if offset < 0 ∨ dlen < offset + blen then pure (-1, result)
      else do
        let (temp, offset, blen) ← readSign data offset blen
        -- `i < blen` in steps of 2
        let temp ← appendWords data offset ((blen + 1) / 2).toNat temp
        pure (offset + blen, temp)

/-! ## `snmp.cpp` -/

def OID_PREFIX_MGMT : List Byte := [0x2B, 6, 1, 2, 1]

/-- `sizeof(buffOID)` -/
def OID_SIZE : ℕ := 16

/-- `"status"` -/
def COMMUNITY : List Byte := [0x73, 0x74, 0x61, 0x74, 0x75, 0x73]

/-- The static variables. -/
structure Statics where
  buffOID : List Byte
  lenOID : ℕ
  reqId : BitVec 32
  errorStat : BitVec 32
  errorId : BitVec 32
  deriving DecidableEq, Repr

/-- A response: the request that it is for, and the column of the sensors in it, if any. -/
structure SnmpReply where
  reqId : BitVec 32
  column : Option Byte
  deriving DecidableEq, Repr

/-- `OID_SENSOR_TYPE` up to `OID_SENSOR_NAME`. -/
def OID_SENSORS : List Byte := [1, 2, 3, 4, 5, 6, 7, 8, 9]

/-- `sendSensors` -/
def sendSensors (s : Statics) : Option SnmpReply :=
  let mib := OID_PREFIX_MGMT.length
  if s.buffOID.getD (mib + 1) 0 ≠ 1 then none
  else if s.buffOID.getD (mib + 2) 0 ≠ 1 then none
  else if s.buffOID.getD (mib + 3) 0 ≠ 1 then none
  else
    let column := s.buffOID.getD (mib + 4) 0
    some ⟨s.reqId, if column ∈ OID_SENSORS then some column else none⟩

/-- `sendBatt` -/
def sendBatt (s : Statics) : Option SnmpReply := some ⟨s.reqId, none⟩

/-- The end of `process`: which section of the MIB is asked for. -/
def dispatch (s : Statics) : Option SnmpReply :=
  let mib := OID_PREFIX_MGMT.length
  if mib ≤ s.lenOID then
    if s.buffOID.take mib = OID_PREFIX_MGMT then
      let sub : BitVec 16 := (s.buffOID.getD mib 0).setWidth 16
      let sub := if sub &&& 0x80 ≠ 0
        then ((sub &&& 0x7F) <<< 7) ||| (s.buffOID.getD (mib + 1) 0).setWidth 16 else sub
      if sub = 99 then sendSensors s
      else if sub = 233 then sendBatt s
      else none
    else none
  else none

/-- `process` from the list of variables on. -/
def processVars (data : ℤ → Byte) (dlen : ℤ) (s : Statics) (offset : ℤ) (slen : ℕ) :
    Reading ℤ (Statics × Option SnmpReply) := do
  let tag ← Reading.load data offset
  if tag ≠ 0x30 then pure (s, none)
  else do
    let (offset, slen) ← readLength data (offset + 1) dlen slen
    if slen ≠ 0 ∧ dlen - offset ≠ slen then pure (s, none)
    else do
      -- the entry of the first variable
      let tag ← Reading.load data offset
      if tag ≠ 0x30 then pure (s, none)
      else do
        let (offset, slen) ← readLength data (offset + 1) dlen slen
        if slen ≠ 0 ∧ dlen - offset ≠ slen then pure (s, none)
        else do
          let (_, buffOID, lenOID) ← readOID data offset dlen s.buffOID OID_SIZE
          let s := { s with buffOID := buffOID, lenOID := lenOID }
          pure (s, dispatch s)

/-- `process` from the three INTEGERs of the request on. -/
def processIntegers (data : ℤ → Byte) (dlen : ℤ) (s : Statics) (offset : ℤ) (slen : ℕ) :
    Reading ℤ (Statics × Option SnmpReply) := do
  let (offset, reqId) ← readInt32 data offset dlen s.reqId
  let (offset, errorStat) ← readInt32 data offset dlen s.errorStat
  let (offset, errorId) ← readInt32 data offset dlen s.errorId
  let s := { s with reqId := reqId, errorStat := errorStat, errorId := errorId }
  processVars data dlen s offset slen

/-- `process` from the request on. -/
def processRequest (data : ℤ → Byte) (dlen : ℤ) (s : Statics) (offset : ℤ) (slen : ℕ) :
    Reading ℤ (Statics × Option SnmpReply) := do
  let tag ← Reading.load data offset
  if tag ≠ 0xA0 then pure (s, none)
  else do
    let (offset, slen) ← readLength data (offset + 1) dlen slen
    if slen ≠ 0 ∧ dlen - offset ≠ slen then pure (s, none)
    else processIntegers data dlen s offset slen

/-- `process` from the first byte of the message on. -/
def processMessage (data : ℤ → Byte) (dlen : ℤ) (s : Statics) :
    Reading ℤ (Statics × Option SnmpReply) := do
  let tag ← Reading.load data 0
  if tag ≠ 0x30 then pure (s, none)
  else do
    let (offset, slen) ← readLength data 1 dlen 0
    if offset < 0 then pure (s, none)
    else if slen ≠ 0 ∧ dlen - offset ≠ slen then pure (s, none)
    else do
      let (offset, version) ← readInt32 data offset dlen 0
      if offset < 0 ∨ version ≠ 0 then pure (s, none)
      else do
        let (offset, buff, blen) ← readBytes data offset dlen (List.replicate 16 0) 16
        if offset < 0 ∨ blen ≠ 6 then pure (s, none)
        else if buff.take 6 ≠ COMMUNITY then pure (s, none)
        else processRequest data dlen s offset slen

/-- The memory of the message in a frame. -/
def dataSNMP (frame : Mem Byte) (offset : ℤ) : Byte := frame (FrameUdp4.DATA_OFFSET + offset).toNat

/-- The frame is for this device. -/
def addressed (mac ip : List Byte) (frame : Mem Byte) : Bool :=
  frame.load Frame.macDst 6 == mac && frame.load Frame.ipDst 4 == ip

/-- `process`, with the address and the IP address of this device. -/
def process (mac ip : List Byte) (frame : Mem Byte) (flen : ℕ) (s : Statics) :
    Reading ℤ (Statics × Option SnmpReply) :=
  if addressed mac ip frame then
    processMessage (dataSNMP frame) (flen - FrameUdp4.DATA_OFFSET) s
  else pure (s, none)

end Gpsdo.Snmp
