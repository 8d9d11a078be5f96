import Gpsdo.Basic.Reading
import Gpsdo.Net.Udp

set_option autoImplicit false

/-! # The parser of the GPS receiver's messages (`lib/gps.cpp`)

`msgBuff` is a memory from the address of the buffer on, since the statements about it say where the
parser goes in it: every function records its loads and stores, and the messages that it
hands on. Lines of text (NEMA, as the source has it) and binary messages (UBX) share the buffer and
have a length each. The numbers that are scaled to a `float` are kept as they are received.
-/

namespace Gpsdo.Gps

open Net

/-! ## Data -/

abbrev MAX_LENGTH : ℕ := 256

/-- What is done with `msgBuff`. -/
inductive Event
  | load (i : ℕ)
  | store (i : ℕ)
  /-- `processNEMA` is called. -/
  | nema (msg : List Byte)
  /-- `processUBX` is called, and whether the checksum is right. -/
  | ubx (msg : List Byte) (passed : Bool)
  deriving DecidableEq, Repr

/-- The variables of `runParse`. -/
structure Parser where
  msgBuff : Mem Byte
  lenNEMA : ℕ
  lenUBX : ℕ
  endUBX : ℕ

/-- The variables that the messages set. -/
structure Receiver extends Parser where
  fixGood : Bool
  locLat : BitVec 32
  locLon : BitVec 32
  locAlt : BitVec 32
  clkBias : BitVec 32
  clkDrift : BitVec 32
  accTime : BitVec 32
  accFreq : BitVec 32
  taiEpochUpdate : BitVec 64
  taiEpoch : BitVec 32
  taiOffset : BitVec 32
  hasNema : Bool
  hasPvt : Bool
  hasGpsTime : Bool
  hasClock : Bool

/-- What the parser reads from elsewhere: the clock, and what follows the tables in memory. -/
structure Env where
  now : BitVec 64
  beyond365 : Mem (BitVec 32)
  beyond366 : Mem (BitVec 32)

def lutDays365 : List (BitVec 32) :=
  [0, 0, 31, 59, 90, 120, 151, 181, 212, 243, 273, 304, 334, 365, 0, 0]

def lutDays366 : List (BitVec 32) :=
  [0, 0, 31, 60, 91, 121, 152, 182, 213, 244, 274, 305, 335, 366, 0, 0]

/-- The tables of days are indexed by a byte of the message. -/
def lutDays (env : Env) (isLeap : Bool) (month : Byte) : BitVec 32 :=
  if isLeap then lutDays366.getD month.toNat (env.beyond366 month.toNat)
  else lutDays365.getD month.toNat (env.beyond365 month.toNat)

namespace Receiver

/-! ## The buffer -/

def load (g : Receiver) (i : ℕ) : Reading Event Byte := ⟨g.msgBuff i, [.load i]⟩

def store (g : Receiver) (i : ℕ) (byte : Byte) : Reading Event Receiver :=
  ⟨{ g with msgBuff := Function.update g.msgBuff i byte }, [.store i]⟩

/-- A message is handed on. -/
def note (e : Event) : Reading Event Unit := ⟨(), [e]⟩

/-- The start of the buffer. -/
def bytes (g : Receiver) (len : ℕ) : List Byte := (List.range len).map g.msgBuff

def load16 (g : Receiver) (i : ℕ) : Reading Event (BitVec 16) := do
  let b₀ ← g.load i
  let b₁ ← g.load (i + 1)
  pure (b₁ ++ b₀)

def load32 (g : Receiver) (i : ℕ) : Reading Event (BitVec 32) := do
  let w₀ ← g.load16 i
  let w₁ ← g.load16 (i + 2)
  pure (w₁ ++ w₀)

/-! ## Lines of text -/

end Receiver

/-- `fromHex`; a `char` of this processor is unsigned. -/
def fromHex (c : Byte) : Byte :=
  if c < 0x41 then c - 0x30 else if c < 0x61 then c - 0x41 + 10 else c - 0x61 + 10

namespace Receiver

/-- The loop of `processNEMA`: the checksum of the text, and where its own checksum is. As many
turns as there are characters are enough. -/
def scanNEMA (g : Receiver) (len : ℕ) : ℕ → ℕ → Byte → Reading Event (Byte × Option ℕ)
  | 0, _, csum => pure (csum, none)
  | n + 1, ptr, csum =>
      let ptr := ptr + 1
      if ptr < len then do
        let c ← g.load ptr
        let csum := csum ^^^ c
        if c = 0x2A then pure (csum ^^^ c, some (ptr + 1))
        else scanNEMA g len n ptr csum
      else pure (csum, none)

/-- `processNEMA` -/
def processNEMA (g : Receiver) (len : ℕ) : Reading Event Receiver := do
  note (.nema (g.bytes len))
  let (csum, chksum) ← g.scanNEMA len len 0 0
  match chksum with
  | none => pure { g with hasNema := true }
  | some chksum =>
      let high ← g.load chksum
      let low ← g.load (chksum + 1)
      let test := fromHex high <<< 4 ||| fromHex low
      pure (if csum ≠ test then g else { g with hasNema := true })

/-! ## Binary messages -/

/-- `processUbxClock` -/
def processUbxClock (g : Receiver) (payload : ℕ) : Reading Event Receiver := do
  let clkBias ← g.load32 (payload + 4)
  let clkDrift ← g.load32 (payload + 8)
  let accTime ← g.load32 (payload + 12)
  let accFreq ← g.load32 (payload + 16)
  pure { g with
    hasClock := true, clkBias := clkBias, clkDrift := clkDrift, accTime := accTime,
    accFreq := accFreq }

/-- `processUbxGpsTime` -/
def processUbxGpsTime (g : Receiver) (payload : ℕ) : Reading Event Receiver := do
  let g := { g with hasGpsTime := true }
  let valid ← g.load (payload + 11)
  if valid &&& 3 ≠ 3 then pure g
  else do
    let offset ← g.load (payload + 10)
    pure { g with taiOffset := offset.signExtend 32 + 19 }

/-- The days of the years, as `processUbxPVT` counts them from 1900, and whether it takes the year
for a leap year. -/
def yearDays (year : BitVec 16) : BitVec 32 × Bool :=
  let offset : BitVec 32 := year.setWidth 32 - 1900
  let isLeap := offset &&& 3 = 0 ∧ offset % 100 ≠ 0
  let leap := offset >>> 2
  let leap := leap - leap / 25
  let leap := leap - if isLeap then 1 else 0
  (offset * 365 + leap, isLeap)

/-- `processUbxPVT` -/
def processUbxPVT (env : Env) (g : Receiver) (payload : ℕ) : Reading Event Receiver := do
  let fix ← g.load (payload + 21)
  let locLon ← g.load32 (payload + 24)
  let locLat ← g.load32 (payload + 28)
  let locAlt ← g.load32 (payload + 36)
  let g := { g with
    hasPvt := true, fixGood := fix &&& 1 ≠ 0, locLon := locLon, locLat := locLat, locAlt := locAlt }
  let valid ← g.load (payload + 11)
  if valid &&& 3 ≠ 3 then pure g
  else do
    let year ← g.load16 (payload + 4)
    let month ← g.load (payload + 6)
    let day ← g.load (payload + 7)
    let hour ← g.load (payload + 8)
    let minute ← g.load (payload + 9)
    let second ← g.load (payload + 10)
    let (offset, isLeap) := yearDays year
    let offset := offset + lutDays env isLeap month
    let offset := offset + day.setWidth 32
    let offset := offset * 24 + hour.setWidth 32
    let offset := offset * 60 + minute.setWidth 32
    let offset := offset * 60 + second.setWidth 32
    -- the epoch is that of TAI
    let offset := offset - 2208988800 + g.taiOffset
    pure { g with
      taiEpoch := offset
      taiEpochUpdate := if g.taiOffset ≠ 0 then env.now else g.taiEpochUpdate }

/-- The loop of `processUBX` over the bytes from `i` on: `chkA` and `chkB`. -/
def checksum (g : Receiver) : ℕ → ℕ → Byte → Byte → Reading Event (Byte × Byte)
  | 0, _, chkA, chkB => pure (chkA, chkB)
  | n + 1, i, chkA, chkB => do
      let byte ← g.load i
      let chkA := chkA + byte
      checksum g n (i + 1) chkA (chkB + chkA)

/-- The test of the checksum in `processUBX`. -/
def checksumTest (g : Receiver) (len : ℕ) : Reading Event Bool := do
  let (chkA, chkB) ← g.checksum (len - 4) 2 0 0
  let a ← g.load (len - 2)
  if chkA ≠ a then pure false
  else do
    let b ← g.load (len - 1)
    pure (chkB == b)

/-- What `processUBX` does with a message that is not damaged. -/
def dispatchUBX (env : Env) (g : Receiver) : Reading Event Receiver := do
  let _class ← g.load 2
  let _id ← g.load 3
  let size ← g.load16 4
  if _class = 0x01 then
    if _id = 0x07 ∧ size = 92 then g.processUbxPVT env 6
    else if _id = 0x20 ∧ size = 16 then g.processUbxGpsTime 6
    else if _id = 0x22 ∧ size = 20 then g.processUbxClock 6
    else pure g
  else pure g

/-- `processUBX` -/
def processUBX (env : Env) (g : Receiver) (len : ℕ) : Reading Event Receiver := do
  let passed ← g.checksumTest len
  note (.ubx (g.bytes len) passed)
  if passed then g.dispatchUBX env else pure g

/-! ## `runParse` -/

/-- The tests on a binary message when a byte has been appended to it. -/
def testUBX (env : Env) (g : Receiver) : Reading Event Receiver :=
  if g.endUBX ≤ g.lenUBX then do
    -- end of message
    let g := if MAX_LENGTH < g.lenUBX then { g with lenUBX := MAX_LENGTH } else g
    let g ← g.processUBX env g.lenUBX
    pure { g with lenUBX := 0, endUBX := 0 }
  else if g.lenUBX = 6 then do
    let size ← g.load16 4
    let g := { g with endUBX := 8 + size.toNat }
    pure (if MAX_LENGTH < g.endUBX then { g with lenUBX := 0 } else g)
  else if g.lenUBX = 2 then do
    let sync ← g.load 1
    pure (if sync ≠ 0x62 then { g with lenUBX := 0 } else g)
  else pure g

/-- A turn of the loop inside a binary message. -/
def parseUBX (env : Env) (g : Receiver) (byte : Byte) : Reading Event Receiver := do
  let g ← (if g.lenUBX < MAX_LENGTH then g.store g.lenUBX byte else pure g)
  ({ g with lenUBX := g.lenUBX + 1 } : Receiver).testUBX env

/-- The character is appended to the line if there is room. -/
def appendNEMA (g : Receiver) (byte : Byte) : Reading Event Receiver :=
  if g.lenNEMA < MAX_LENGTH then do
    let g' ← g.store g.lenNEMA byte
    pure { g' with lenNEMA := g.lenNEMA + 1 }
  else pure g

/-- The end of a line. -/
def endNEMA (g : Receiver) : Reading Event Receiver := do
  let g' ← g.store g.lenNEMA 0
  let g := { g' with lenNEMA := g.lenNEMA - 1 }
  let g ← g.processNEMA g.lenNEMA
  pure { g with lenNEMA := 0 }

/-- What a turn of the loop does first inside a line. -/
def parseNEMA (g : Receiver) (byte : Byte) : Reading Event Receiver := do
  let g ← g.appendNEMA byte
  if byte = 0x0D ∨ byte = 0x0A then g.endNEMA else pure g

/-- The tests for the start of a message. -/
def parseStart (g : Receiver) (byte : Byte) : Reading Event Receiver :=
  if byte = 0x24 then do
    let g ← g.store 0 byte
    pure { g with lenNEMA := 1 }
  else if byte = 0xB5 then do
    let g ← ({ g with lenNEMA := 0 } : Receiver).store 0 byte
    pure { g with lenUBX := 1, endUBX := 8 }
  else pure g

/-- A turn of the loop of `runParse`. -/
def parse (env : Env) (g : Receiver) (byte : Byte) : Reading Event Receiver :=
  if g.lenUBX ≠ 0 then g.parseUBX env byte
  else do
    let g ← (if g.lenNEMA ≠ 0 then g.parseNEMA byte else pure g)
    g.parseStart byte

end Receiver

end Gpsdo.Gps
