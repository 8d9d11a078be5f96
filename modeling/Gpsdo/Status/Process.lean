import Gpsdo.Basic.Known
import Gpsdo.Net.Checksum

set_option autoImplicit false

/-! # Status commands (`status.cpp`, `lib/format.cpp`)

`status::process` copies a frame into a buffer on the stack, ends the datagram with a NUL, compares
what it finds with the names of the commands, and answers in the same buffer. The memories of the
buffer and of `tmp` before the call are parameters. The texts that report the state of the device
are written from the start of the body on; what they say is a parameter too.
-/

namespace Gpsdo.Status

open Net

/-! ## Strings of C -/

def ascii (l : List Char) : List Byte := l.map fun c => BitVec.ofNat 8 c.toNat

/-- `strncpy`: what follows a NUL in the first `n` bytes is filled up. -/
def strncpy (dst src : Mem Byte) (n : ℕ) : Mem Byte :=
  fun i => if i < n then if (src.load 0 i).all (· != 0) then src i else 0 else dst i

/-- The string from an address on, as `append` walks it; `none` if there is no NUL in the memory. -/
def string (src : Mem Byte) : ℕ → ℕ → Option (List Byte)
  | 0, _ => none
  | fuel + 1, i => if src i = 0 then some [] else (string src fuel (i + 1)).map (src i :: ·)

/-- Number of the addresses. -/
def MEMORY : ℕ := 2 ^ 32

def isTerminus (c : Byte) : Bool := c == 0 || c == 0x0A || c == 0x0D

/-- `hasTerminus` -/
def hasTerminus (str : Mem Byte) (offset : ℕ) : Bool := isTerminus (str offset)

/-- One turn of the loop of `fromHex`. -/
def fromHexDigit (result : BitVec 32) (c : Byte) : BitVec 32 :=
  let result := result <<< 4
  if 0x30 ≤ c ∧ c ≤ 0x39 then result + (c - 0x30).setWidth 32
  else if 0x41 ≤ c ∧ c ≤ 0x46 then result + (c - 0x41).setWidth 32
  else if 0x61 ≤ c ∧ c ≤ 0x61 then result + (c - 0x61).setWidth 32
  else result

/-- `fromHex` of two characters -/
def fromHex (c0 c1 : Byte) : BitVec 32 :=
  if c0 = 0 then 0
  else if c1 = 0 then fromHexDigit 0 c0
  else fromHexDigit (fromHexDigit 0 c0) c1

/-! ## Commands -/

inductive Keyword
  | clock
  | eeprom
  | ethernet
  | gps
  | pll
  | system
  | run
  | som
  deriving DecidableEq, Repr

namespace Keyword

def name : Keyword → List Byte
  | clock => ascii ['c', 'l', 'o', 'c', 'k']
  | eeprom => ascii ['e', 'e', 'p', 'r', 'o', 'm']
  | ethernet => ascii ['e', 't', 'h', 'e', 'r', 'n', 'e', 't']
  | gps => ascii ['g', 'p', 's']
  | pll => ascii ['p', 'l', 'l']
  | system => ascii ['s', 'y', 's', 't', 'e', 'm']
  | run => ascii ['r', 'u', 'n']
  | som => ascii ['s', 'o', 'm']

/-- Where the terminus is looked for. -/
def terminus : Keyword → ℕ
  | clock => 8
  | eeprom => 8
  | ethernet => 8
  | gps => 3
  | pll => 3
  | system => 6
  | run => 3
  | som => 3

/-- `strncmp` with the name, and `hasTerminus`. -/
def test (body : Mem Byte) (k : Keyword) : Bool :=
  body.load 0 k.name.length == k.name && hasTerminus body k.terminus

/-- The block of a command, as `statusEEPROM` gets it. -/
def block (body : Mem Byte) : Keyword → BitVec 32
  | eeprom => fromHex (body 6) (body 7)
  | _ => 0

/-- The order of the tests. -/
def all : List Keyword := [clock, eeprom, ethernet, gps, pll, system, run, som]

end Keyword

/-- A command, with the block of the EEPROM when it has one. -/
structure Command where
  keyword : Keyword
  block : BitVec 32
  deriving DecidableEq, Repr

/-- The command that a body selects, if it is one. -/
def select (body : Mem Byte) : Option Command :=
  (Keyword.all.find? (·.test body)).map fun k => ⟨k, k.block body⟩

/-- The state of the device: its addresses, and the texts of the commands. -/
structure Device where
  mac : List Byte
  ipAddress : BitVec 32
  statusClock : List Byte
  statusEEPROM : BitVec 32 → List Byte
  statusETH : List Byte
  statusGPS : List Byte
  PLL_status : List Byte
  statusSystem : List Byte
  runStatus : List Byte
  statusSom : List Byte

/-- The text that answers a command. -/
def Device.text (dev : Device) (c : Command) : List Byte :=
  match c.keyword with
  | .clock => dev.statusClock
  | .eeprom => dev.statusEEPROM c.block
  | .ethernet => dev.statusETH
  | .gps => dev.statusGPS
  | .pll => dev.PLL_status
  | .system => dev.statusSystem
  | .run => dev.runStatus
  | .som => dev.statusSom

/-- "invalid command: " -/
def INVALID_COMMAND : List Byte :=
  ascii ['i', 'n', 'v', 'a', 'l', 'i', 'd', ' ', 'c', 'o', 'm', 'm', 'a', 'n', 'd', ':', ' ']

/-- The answer to what is no command; `none` if `append` runs out of the memory. -/
def invalidText (tmp body : Mem Byte) (size : ℕ) : Option (List Byte) :=
  (string (strncpy tmp body size) MEMORY 0).map fun cmd => INVALID_COMMAND ++ cmd ++ [0x0A]

/-! ## `status::process` -/

/-- The length of the datagram without its header, as an `unsigned`. -/
def udpSize (frame : Mem Byte) : BitVec 32 :=
  (frame Frame.udpLength ++ frame (Frame.udpLength + 1) : BitVec 16).setWidth 32 - 8

/-- What comes of a frame: it is dropped, the answer is never complete, or a frame is sent. -/
inductive Result
  | dropped
  | lost
  | sent (command : Option Command) (frame : List Byte)

/-- The checks that drop a frame. -/
def accepts (dev : Device) (frame : Mem Byte) (flen : ℕ) : Bool :=
  decide (flen ≤ 128) && frame.load Frame.macDst 6 == dev.mac &&
    frame.load Frame.ipDst 4 == le32 dev.ipAddress && decide (udpSize frame ≤ 31)

/-- The frame in its buffer, with the addresses exchanged and the datagram ended. -/
def request (txFrame frame : Mem Byte) (flen : ℕ) : Mem Byte :=
  let txFrame := fun i => if i < flen then frame i else txFrame i
  let txFrame := returnToSender txFrame
  txFrame.store (FrameUdp4.DATA_OFFSET + (udpSize frame).toNat) [0]

/-- The body of the request. -/
def body (m : Mem Byte) : Mem Byte := fun i => m (FrameUdp4.DATA_OFFSET + i)

/-- A text is sent. -/
def send (m : Mem Byte) (text : List Byte) : List Byte :=
  let m := m.store FrameUdp4.DATA_OFFSET (text ++ [0])
  let flen := FrameUdp4.DATA_OFFSET + text.length
  (IPv4_finalize (UDP_finalize m flen) flen).load 0 flen

/-- `status::process` -/
def process (dev : Device) (txFrame tmp frame : Mem Byte) (flen : ℕ) : Result :=
  if accepts dev frame flen then
    let m := request txFrame frame flen
    match select (body m) with
    | some c => .sent (some c) (send m (dev.text c))
    | none =>
        match invalidText tmp (body m) (udpSize frame).toNat with
        | some text => .sent none (send m text)
        | none => .lost
  else .dropped

end Gpsdo.Status
