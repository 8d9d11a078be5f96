import Gpsdo.Basic.Run
import Gpsdo.Basic.Serial
import Gpsdo.Basic.Slots
import Gpsdo.Net.Tx

set_option autoImplicit false

/-! # Address resolution (`lib/net/arp.cpp`)

A table of sixteen slots holds the requests that wait for an answer. `ARP_process` and `arpRun` go
through the table and call the callbacks of the requests that they answer; a callback may call
`ARP_request` in the middle of such a loop. So every turn of the loops is a step, the return of a
callback is a step, and a request may be made before any of them. What `arpRun` does after its loop
is to announce the own address and to request the one of the router.

A callback is its function and its reference. The seconds of the model do not wrap; the code sees
32 bits of them.
-/

namespace Gpsdo.Net

/-! ## Data -/

namespace Arp

abbrev MAX_REQUESTS : ℕ := 16

def REQUEST_EXPIRE : ℕ := 5

def ARP_FRAME_LEN : ℕ := 60

end Arp

/-- `struct ArpRequest`. The slot is empty when the address is 0. -/
structure ArpRequest (κ : Type) where
  expire : BitVec 32
  remoteAddress : BitVec 32
  callback : κ
  deriving DecidableEq, Repr

/-- What a loop looks for: the requests for the sender of a reply, or those that have expired. -/
inductive ArpScan
  | reply (SPA : BitVec 32) (SHA : BitVec 48)
  | expiry (now : BitVec 32)
  deriving DecidableEq, Repr

/-- Where the code is: outside of the loops, in front of a turn, or in a callback. -/
inductive ArpPc
  | idle
  | turn (scan : ArpScan) (i : ℕ)
  | called (scan : ArpScan) (i : Fin Arp.MAX_REQUESTS)
  deriving DecidableEq, Repr

/-- The table, where the code is, and the time. -/
structure Arp (κ : Type) where
  requests : Fin Arp.MAX_REQUESTS → ArpRequest κ
  pc : ArpPc
  seconds : ℕ
  /-- When `arpRun` was last started. -/
  lastTick : ℕ
  /-- When the request in a slot expires, in seconds that do not wrap. -/
  deadline : Fin Arp.MAX_REQUESTS → ℕ
  /-- The number of the request in a slot. -/
  ticket : Fin Arp.MAX_REQUESTS → ℕ
  /-- The number of requests that were accepted. -/
  tickets : ℕ

/-! ## Replies -/

/-- The bytes of a MAC address. -/
def loadMAC (frame : List Byte) (k : ℕ) : BitVec 48 :=
  frame.getD k 0 ++ frame.getD (k + 1) 0 ++ frame.getD (k + 2) 0 ++ frame.getD (k + 3) 0 ++
    frame.getD (k + 4) 0 ++ frame.getD (k + 5) 0

/-- A word in the order of the processor. -/
def loadWord16 (frame : List Byte) (k : ℕ) : BitVec 16 := frame.getD (k + 1) 0 ++ frame.getD k 0

def loadWord32 (frame : List Byte) (k : ℕ) : BitVec 32 :=
  frame.getD (k + 3) 0 ++ frame.getD (k + 2) 0 ++ frame.getD (k + 1) 0 ++ frame.getD k 0

/-- The checks of `ARP_process` up to its loop: the sender of a reply that is addressed to `mac`. -/
def arpReply (frame : List Byte) (mac : BitVec 48) : Option (BitVec 32 × BitVec 48) :=
  if frame.length ≠ Arp.ARP_FRAME_LEN then none
  else if loadWord16 frame 14 ≠ 0x0100 then none
  else if loadWord16 frame 16 ≠ 0x0008 then none
  else if frame.getD 18 0 ≠ 6 then none
  else if frame.getD 19 0 ≠ 4 then none
  else if loadWord16 frame 20 ≠ 0x0200 then none
  else if loadMAC frame 0 ≠ mac then none
  else if loadWord32 frame 28 = 0 then none
  else some (loadWord32 frame 28, loadMAC frame 22)

namespace Arp

variable {κ : Type}

/-- `clock::monotonic::seconds` -/
def now (s : Arp κ) : BitVec 32 := BitVec.ofNat 32 s.seconds

def occupied (s : Arp κ) (i : Fin MAX_REQUESTS) : Bool := (s.requests i).remoteAddress != 0

/-! ## `ARP_request` -/

/-- The empty slot that the loop of `ARP_request` stops at. -/
def findSlot (s : Arp κ) : Option (Fin MAX_REQUESTS) :=
  (List.finRange MAX_REQUESTS).find? fun i => !s.occupied i

/-- A request is registered in a slot. -/
def register (s : Arp κ) (i : Fin MAX_REQUESTS) (remoteAddress : BitVec 32) (callback : κ) :
    Arp κ :=
  { s with
    requests := Function.update s.requests i
      ⟨s.now + BitVec.ofNat 32 REQUEST_EXPIRE, remoteAddress, callback⟩
    deadline := Function.update s.deadline i (s.seconds + REQUEST_EXPIRE)
    ticket := Function.update s.ticket i s.tickets
    tickets := s.tickets + 1 }

/-- `ARP_request` -/
def ARP_request (s : Arp κ) (remoteAddress : BitVec 32) (callback : κ) : Arp κ × Int :=
  match s.findSlot with
  | some i => (s.register i remoteAddress callback, 0)
  | none => (s, -1)

/-! ## The loops -/

/-- The test of a loop for a slot. -/
def hits (s : Arp κ) (i : Fin MAX_REQUESTS) : ArpScan → Bool
  | .reply SPA _ => (s.requests i).remoteAddress = SPA
  | .expiry now => s.occupied i && !decide (sdiff now (s.requests i).expire ≤ 0)

/-- One turn of a loop, or its end. -/
def loopTurn (s : Arp κ) : Option (Arp κ) :=
  match s.pc with
  | .turn scan i =>
      if h : i < MAX_REQUESTS then
        if s.hits ⟨i, h⟩ scan then some { s with pc := .called scan ⟨i, h⟩ }
        else some { s with pc := .turn scan (i + 1) }
      else some { s with pc := .idle }
  | _ => none

/-- A callback returns: its slot is emptied, and the loop goes on. -/
def ret (s : Arp κ) : Option (Arp κ) :=
  match s.pc with
  | .called scan i =>
      some { s with
        requests := Function.update s.requests i { s.requests i with remoteAddress := 0 }
        pc := .turn scan (i.val + 1) }
  | _ => none

/-- `ARP_process` up to its loop. -/
def ARP_process (s : Arp κ) (frame : List Byte) (mac : BitVec 48) : Arp κ :=
  match arpReply frame mac with
  | some (SPA, SHA) => { s with pc := .turn (.reply SPA SHA) 0 }
  | none => s

/-- `arpRun` up to its loop. -/
def arpRun (s : Arp κ) : Arp κ :=
  { s with pc := .turn (.expiry s.now) 0, lastTick := s.seconds }

/-! ## Time -/

/-- Time passes: less than 2^31 seconds from one start of `arpRun` to the next, and from its start
to the last request that is made during its loop, with the 5 seconds that this is given. -/
def elapse (s : Arp κ) (d : ℕ) : Option (Arp κ) :=
  let margin := match s.pc with
    | .turn (.expiry _) _ => REQUEST_EXPIRE
    | .called (.expiry _) _ => REQUEST_EXPIRE
    | _ => 0
  if s.seconds + d + margin < s.lastTick + 2 ^ 31 then some { s with seconds := s.seconds + d }
  else none

end Arp

/-! ## The machine -/

/-- What happens at the table. -/
inductive ArpAction (κ : Type)
  | request (remoteAddress : BitVec 32) (callback : κ)
  | process (frame : List Byte) (mac : BitVec 48)
  | run
  | turn
  | ret
  | elapse (d : ℕ)
  deriving DecidableEq, Repr

namespace Arp

variable {κ : Type}

/-- The machine of the table. A request is made outside of the loops or by a callback. -/
def step (s : Arp κ) : ArpAction κ → Option (Arp κ)
  | .request remoteAddress callback =>
      match s.pc with
      | .turn _ _ => none
      | _ => if remoteAddress ≠ 0 then some (s.ARP_request remoteAddress callback).1 else none
  | .process frame mac => if s.pc = .idle then some (s.ARP_process frame mac) else none
  | .run => if s.pc = .idle then some s.arpRun else none
  | .turn => s.loopTurn
  | .ret => s.ret
  | .elapse d => s.elapse d

/-- The static memory: a table of empty slots. -/
def init [Inhabited κ] : Arp κ where
  requests _ := ⟨0, 0, default⟩
  pc := .idle
  seconds := 0
  lastTick := 0
  deadline _ := 0
  ticket _ := 0
  tickets := 0

end Arp

/-- The history of a run of the machine, newest first. -/
abbrev ArpHistory (κ : Type) := List (Arp κ × ArpAction κ)

/-! ## What a run did -/

/-- A request that was accepted, and when. -/
structure ArpAccepted (κ : Type) where
  remoteAddress : BitVec 32
  callback : κ
  time : ℕ
  deriving DecidableEq, Repr

/-- A call of a callback: the number of the request, the arguments, the loop, and when. -/
structure ArpAnswer (κ : Type) where
  ticket : ℕ
  callback : κ
  remoteAddress : BitVec 32
  scan : ArpScan
  time : ℕ
  deriving DecidableEq, Repr

/-- The MAC address that a callback is given. -/
def ArpScan.mac : ArpScan → BitVec 48
  | .reply _ SHA => SHA
  | .expiry _ => 0

namespace Arp

variable {κ : Type}

/-- The request that a step accepts. -/
def accepts (s : Arp κ) : ArpAction κ → List (ArpAccepted κ)
  | .request remoteAddress callback =>
      if (s.ARP_request remoteAddress callback).2 = 0 then [⟨remoteAddress, callback, s.seconds⟩]
      else []
  | _ => []

/-- The callback that a step calls. -/
def answers (s : Arp κ) : ArpAction κ → List (ArpAnswer κ)
  | .turn =>
      match s.pc with
      | .turn scan i =>
          if h : i < MAX_REQUESTS then
            if s.hits ⟨i, h⟩ scan then
              [⟨s.ticket ⟨i, h⟩, (s.requests ⟨i, h⟩).callback, (s.requests ⟨i, h⟩).remoteAddress, scan,
                s.seconds⟩]
            else []
          else []
      | _ => []
  | _ => []

end Arp

variable {κ : Type}

/-- The requests of a run that were accepted. -/
def arpAccepted (h : ArpHistory κ) : List (ArpAccepted κ) := outputs Arp.accepts h

/-- The callbacks of a run. -/
def arpAnswers (h : ArpHistory κ) : List (ArpAnswer κ) := outputs Arp.answers h

end Gpsdo.Net
