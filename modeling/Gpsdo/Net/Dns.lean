import Gpsdo.Basic.Run
import Gpsdo.Basic.Serial
import Gpsdo.Basic.Slots
import Gpsdo.Net.Udp
import Gpsdo.Ntp.Peer

set_option autoImplicit false

/-! # Name resolution (`lib/net/dns.cpp`)

A table of sixteen slots holds the requests that wait for a response. What is asked for is left out:
it goes out in a frame and has no part in the table. The seconds of the model do not wrap; the code
sees 32 bits of them. A response is a memory, since its parser may read behind the end of the frame.
-/

namespace Gpsdo.Net

open Ntp (ARP_MAX_AGE IPv4_testSubnet)

/-! ## Data -/

namespace Dns

abbrev MAX_REQUESTS : ℕ := 16

scoped instance neZero_requests : NeZero MAX_REQUESTS := ⟨by decide⟩

def REQUEST_EXPIRE : ℕ := 5

end Dns

/-- An element of `requests`. -/
structure DnsRequest where
  expire : BitVec 32
  requestId : BitVec 32
  callback : Option Addr
  ref : Addr
  deriving DecidableEq, Repr

/-- The variables of the client, and those that it reads. -/
structure Dns where
  requests : Fin Dns.MAX_REQUESTS → DnsRequest
  lastArp : BitVec 32
  nextRequest : BitVec 16
  dnsMAC : BitVec 48
  ipAddress : BitVec 32
  ipSubnet : BitVec 32
  ipDNS : BitVec 32
  macRouter : BitVec 48
  seconds : ℕ
  /-- When the request in a slot expires, in seconds that do not wrap. -/
  deadline : Fin Dns.MAX_REQUESTS → ℕ

/-- A call of a callback: the function, its reference, and the address. -/
structure DnsCall where
  callback : Addr
  ref : Addr
  addr : BitVec 32
  deriving DecidableEq, Repr

namespace Dns

/-- `clock::monotonic::seconds` -/
def now (s : Dns) : BitVec 32 := BitVec.ofNat 32 s.seconds

/-! ## The MAC address of the server -/

/-- `DNS_updateMAC`. A request for the address is answered by a later `callbackARP`. -/
def DNS_updateMAC (s : Dns) : Dns :=
  let s := { s with lastArp := s.now }
  if IPv4_testSubnet s.ipSubnet s.ipAddress s.ipDNS ≠ 0 then { s with dnsMAC := s.macRouter }
  else s

/-- `callbackARP` -/
def callbackARP (s : Dns) (remoteAddress : BitVec 32) (macAddress : BitVec 48) : Dns :=
  if remoteAddress = s.ipDNS then
    if macAddress = 0 then s.DNS_updateMAC else { s with dnsMAC := macAddress }
  else s

/-! ## `DNS_lookup` -/

/-- The slot is in use, and its request is past its time. -/
def expired (s : Dns) (i : Fin MAX_REQUESTS) : Bool :=
  (s.requests i).callback.isSome && decide (0 < sdiff s.now (s.requests i).expire)

/-- The slot that the loop of `DNS_lookup` stops at. -/
def findSlot (s : Dns) : Option (Fin MAX_REQUESTS) :=
  (List.finRange MAX_REQUESTS).find? fun i => !s.expired i

/-- A request is registered in a slot. -/
def register (s : Dns) (i : Fin MAX_REQUESTS) (callback : Option Addr) (ref : Addr) : Dns :=
  { s with
    requests := Function.update s.requests i
      { callback := callback, ref := ref, requestId := s.nextRequest.setWidth 32,
        expire := s.now + BitVec.ofNat 32 REQUEST_EXPIRE }
    nextRequest := s.nextRequest + 1
    deadline := Function.update s.deadline i (s.seconds + REQUEST_EXPIRE) }

/-- Refresh the MAC address of the server when it is old. -/
def refreshMAC (s : Dns) : Dns :=
  if ARP_MAX_AGE < s.now - s.lastArp then s.DNS_updateMAC else s

/-- `DNS_lookup` -/
def DNS_lookup (s : Dns) (callback : Option Addr) (ref : Addr) : Dns × Int :=
  let s := s.refreshMAC
  if s.dnsMAC = 0 then (s, -2)
  else
    match s.findSlot with
    | some i => (s.register i callback ref, 0)
    | none => (s, -1)

/-! ## Responses -/

/-- A word in the order of the network. -/
def load16 (m : Mem Byte) (k : ℕ) : ℕ := 256 * (m k).toNat + (m (k + 1)).toNat

/-- Skip over a name. Every turn passes a byte, so `flen` turns are enough. -/
def skipName (m : Mem Byte) (flen : ℕ) : ℕ → ℕ → ℕ
  | 0, next => next
  | n + 1, next =>
      if next < flen then
        let len := (m next).toNat
        if len = 0 then next + 1
        else if len = 0xC0 then next + 2
        else skipName m flen n (next + 1 + len)
      else next

/-- Skip over the questions: each has a name, a type and a class. -/
def skipQuestions (m : Mem Byte) (flen : ℕ) : ℕ → ℕ → ℕ
  | 0, next => next
  | cnt + 1, next => skipQuestions m flen cnt (skipName m flen flen next + 4)

/-- The addresses that are reported, and whether all answers were read. -/
def answers (m : Mem Byte) (flen : ℕ) : ℕ → ℕ → List (BitVec 32) × Bool
  | 0, _ => ([], true)
  | cnt + 1, next =>
      let next := skipName m flen flen next
      if flen ≤ next then ([], false)
      else
        let atype := load16 m next
        let aclass := load16 m (next + 2)
        let length := load16 m (next + 8)
        let next := next + 10
        if flen ≤ next then ([], false)
        else if atype ≠ 1 ∨ aclass ≠ 1 ∨ length ≠ 4 then answers m flen cnt (next + length)
        else
          let addr := m (next + 3) ++ m (next + 2) ++ m (next + 1) ++ m next
          let r := answers m flen cnt (next + 4)
          (addr :: r.1, r.2)

/-- Where the header and the body are. -/
def HEADER : ℕ := FrameUdp4.DATA_OFFSET

def DATA_OFFSET : ℕ := HEADER + 12

/-- A response to a standard query that is addressed to this machine, whose MAC address is `mac`. -/
def isResponse (s : Dns) (mac : List Byte) (m : Mem Byte) (flen : ℕ) : Bool :=
  decide (DATA_OFFSET ≤ flen) && m.load Frame.macDst 6 == mac &&
  m (Frame.ipDst + 3) ++ m (Frame.ipDst + 2) ++ m (Frame.ipDst + 1) ++ m Frame.ipDst ==
    s.ipAddress &&
  (m (HEADER + 2)).getLsbD 7 && (m (HEADER + 2)).extractLsb' 3 4 == 0

/-- The slot with the request of a response. -/
def findMatch (s : Dns) (m : Mem Byte) : Option (Fin MAX_REQUESTS) :=
  (List.finRange MAX_REQUESTS).find? fun i =>
    (s.requests i).callback.isSome &&
      (s.requests i).requestId == (m (HEADER + 1) ++ m HEADER : BitVec 16).setWidth 32

/-- `processFrame`, and the callbacks that it makes -/
def processFrame (s : Dns) (mac : List Byte) (m : Mem Byte) (flen : ℕ) : Dns × List DnsCall :=
  if !s.isResponse mac m flen then (s, [])
  else
    match s.findMatch m with
    | none => (s, [])
    | some i =>
        let request := s.requests i
        let next := skipQuestions m flen (load16 m (HEADER + 4)) DATA_OFFSET
        if flen ≤ next then (s, [])
        else
          let r := answers m flen (load16 m (HEADER + 6)) next
          let calls := r.1.flatMap fun addr =>
            request.callback.toList.map fun callback => ⟨callback, request.ref, addr⟩
          if r.2 then
            ({ s with requests := Function.update s.requests i { request with callback := none } },
              calls)
          else (s, calls)

end Dns

/-! ## The machine -/

/-- What happens at the client. -/
inductive DnsAction
  | lookup (callback : Option Addr) (ref : Addr)
  /-- A frame for the port of the client. -/
  | processFrame (mac : List Byte) (m : Mem Byte) (flen : ℕ)
  | callbackARP (remoteAddress : BitVec 32) (macAddress : BitVec 48)
  | updateMAC
  /-- The addresses change. -/
  | configure (ipAddress ipSubnet ipDNS : BitVec 32) (macRouter : BitVec 48)
  | elapse (d : ℕ)

/-- The machine of the client. -/
def Dns.step (s : Dns) : DnsAction → Option Dns
  | .lookup callback ref => some (s.DNS_lookup callback ref).1
  | .processFrame mac m flen => some (s.processFrame mac m flen).1
  | .callbackARP remoteAddress macAddress => some (s.callbackARP remoteAddress macAddress)
  | .updateMAC => some s.DNS_updateMAC
  | .configure ipAddress ipSubnet ipDNS macRouter =>
      some { s with
        ipAddress := ipAddress, ipSubnet := ipSubnet, ipDNS := ipDNS, macRouter := macRouter }
  | .elapse d => if d < 2 ^ 31 then some { s with seconds := s.seconds + d } else none

/-- `DNS_init`, with the low bits of the own MAC address. -/
def Dns.init (nextRequest : BitVec 16) : Dns where
  requests _ := ⟨0, 0, none, 0⟩
  lastArp := 0
  nextRequest := nextRequest
  dnsMAC := 0
  ipAddress := 0
  ipSubnet := -1
  ipDNS := 0
  macRouter := 0
  seconds := 0
  deadline _ := 0

/-- The history of a run of the machine, newest first. -/
abbrev DnsHistory := List (Dns × DnsAction)

end Gpsdo.Net
