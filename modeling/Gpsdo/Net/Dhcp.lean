import Gpsdo.Net.Checksum
import Gpsdo.Net.DnsReads

set_option autoImplicit false

/-! # The client of DHCP (`lib/net/dhcp.cpp`)

What `processFrame` does with a frame from the server, with the offsets that it loads. The options
are parsed in one loop, in which the addresses of a list stay where they are: the parser remembers
the place, and they are read after the loop.
-/

namespace Gpsdo.Net

open Ntp (IPv4_testSubnet)

/-! ## Layout -/

namespace Frame

def ipHead : ℕ := 14

def ipId : ℕ := 18

def ipFlags : ℕ := 20

def ipTtl : ℕ := 22

end Frame

namespace HEADER_DHCP

def OP : ℕ := 42

def HTYPE : ℕ := 43

def HLEN : ℕ := 44

def XID : ℕ := 46

def CIADDR : ℕ := 54

def YIADDR : ℕ := 58

def SIADDR : ℕ := 62

def CHADDR : ℕ := 70

def MAGIC : ℕ := 278

/-- The end of the header, where the options begin. -/
def OPTIONS : ℕ := 282

end HEADER_DHCP

open HEADER_DHCP

def DHCP_PORT_SRV : BitVec 16 := 67

def DHCP_PORT_CLI : BitVec 16 := 68

def DHCP_MAGIC : BitVec 32 := 0x63538263

def DHCP_OPT_REQUEST : List Byte := [53, 1, 3, 0]

def DHCP_OPT_PARAM_REQ : List Byte := [55, 4, 1, 3, 6, 42]

/-! ## Data -/

/-- The variables of the client, and those of `ip.cpp` that it uses. -/
structure Dhcp where
  dhcpXID : BitVec 32
  dhcpLeaseExpire : BitVec 32
  hostname : List Byte
  hostname_lt : hostname.length < 16
  ntpAddr : Mem (BitVec 32)
  ntpLen : ℕ
  ipAddress : BitVec 32
  ipSubnet : BitVec 32
  ipBroadcast : BitVec 32
  ipRouter : BitVec 32
  ipDNS : BitVec 32
  ipID : BitVec 16
  /-- The MAC address of this machine. -/
  mac : List Byte
  mac_length : mac.length = 6
  /-- `clock::monotonic::seconds` -/
  seconds : BitVec 32

/-- A frame that is built: the buffer, and how much of it is used. -/
structure Packet where
  frame : Mem Byte
  flen : ℕ

/-- Bytes are put behind what the frame has. -/
def Packet.put (p : Packet) (bytes : List Byte) : Packet :=
  ⟨p.frame.store p.flen bytes, p.flen + bytes.length⟩

def Packet.pad_opts (p : Packet) : Packet := if p.flen % 2 = 1 then p.put [0] else p

/-- What `processFrame` calls. -/
inductive DhcpCall
  | ARP_refreshRouter
  | DNS_updateMAC
  | transmit (p : Packet)

/-- A value that the parser remembers: the pointer to it and its length are set together. -/
structure OptValue where
  ptr : ℕ
  len : ℕ
  deriving DecidableEq, Repr

/-- The relevant options. -/
structure DhcpOptions where
  optSubnet : BitVec 32
  optDHCP : BitVec 32
  optLease : BitVec 32
  optMsgType : Byte
  optDns : Option OptValue
  optRouter : Option OptValue
  optNtp : Option OptValue
  deriving DecidableEq, Repr

namespace Dhcp

/-- The list that `DHCP_ntpAddr` gives out. -/
def DHCP_ntpAddr (s : Dhcp) : List (BitVec 32) := s.ntpAddr.load 0 s.ntpLen

/-! ## Reading -/

/-- `n` bytes. -/
def readBytes (m : Mem Byte) (ptr n : ℕ) : Reading ℕ (List Byte) :=
  ⟨m.load ptr n, (List.range n).map (ptr + ·)⟩

/-- The number of an `optLease`, whose bytes come in the order of the network. -/
def readLease (m : Mem Byte) (ptr : ℕ) : Reading ℕ (BitVec 32) := do
  let b₀ ← Reading.load m ptr
  let b₁ ← Reading.load m (ptr + 1)
  let b₂ ← Reading.load m (ptr + 2)
  let b₃ ← Reading.load m (ptr + 3)
  pure (b₀ ++ b₁ ++ b₂ ++ b₃)

/-- An assignment of what is read, under a condition, to a variable with the value `old`. -/
def readIf {α : Type} (c : Prop) [Decidable c] (x : Reading ℕ α) (old : α) : Reading ℕ α :=
  if c then x else pure old

/-- `n` addresses, one behind the other. -/
def readAddrs (m : Mem Byte) : ℕ → ℕ → Reading ℕ (List (BitVec 32))
  | 0, _ => pure []
  | n + 1, ptr => do
      let addr ← Dns.readAddr m ptr
      let addrs ← readAddrs m n (ptr + 4)
      pure (addr :: addrs)

/-- A loop that looks for an address, in `n` turns. -/
def findAddr (m : Mem Byte) (ok : BitVec 32 → Bool) : ℕ → ℕ → Reading ℕ (Option (BitVec 32))
  | 0, _ => pure none
  | n + 1, ptr => do
      let addr ← Dns.readAddr m ptr
      if ok addr then pure (some addr) else findAddr m ok n (ptr + 4)

/-- The loop over the addresses of an option, of which there are none if it was not given. -/
def findIn (m : Mem Byte) (ok : BitVec 32 → Bool) : Option OptValue → Reading ℕ (Option (BitVec 32))
  | none => pure none
  | some v => findAddr m ok ((v.len + 3) / 4) v.ptr

/-! ## The options -/

/-- The body of the loop for an option with its value at `ptr`. -/
def readOption (m : Mem Byte) (key : Byte) (ptr len : ℕ) (opts : DhcpOptions) :
    Reading ℕ DhcpOptions := do
  let optSubnet ← readIf (key = 1 ∧ len = 4) (Dns.readAddr m ptr) opts.optSubnet
  let optRouter := if key = 3 ∧ len % 4 = 0 then some ⟨ptr, len⟩ else opts.optRouter
  let optDns := if key = 6 ∧ len % 4 = 0 then some ⟨ptr, len⟩ else opts.optDns
  let optNtp := if key = 42 ∧ len % 4 = 0 then some ⟨ptr, len⟩ else opts.optNtp
  let optLease ← readIf (key = 51 ∧ len = 4) (readLease m ptr) opts.optLease
  let optMsgType ← readIf (key = 53) (Reading.load m ptr) opts.optMsgType
  let optDHCP ← readIf (key = 54 ∧ len = 4) (Dns.readAddr m ptr) opts.optDHCP
  pure { optSubnet, optRouter, optDns, optNtp, optLease, optMsgType, optDHCP }

/-- The loop over the options, with a number of turns after which it gives up. -/
def parseOptions (m : Mem Byte) (flen : ℕ) :
    ℕ → ℕ → DhcpOptions → Reading ℕ (Option DhcpOptions)
  | 0, _, _ => pure none
  | n + 1, ptr, opts =>
      if ptr + 1 < flen then do
        let key ← Reading.load m ptr
        if key = 0xFF then pure (some opts)
        else if key = 0x00 then parseOptions m flen n (ptr + 1) opts
        else do
          let len ← Reading.load m (ptr + 1)
          if flen ≤ ptr + 2 + len.toNat then pure (some opts)
          else do
            let opts ← readOption m key (ptr + 2) len.toNat opts
            parseOptions m flen n (ptr + 2 + len.toNat) opts
      else pure (some opts)

/-- The options before the loop. -/
def noOptions (s : Dhcp) : DhcpOptions where
  optSubnet := s.ipSubnet
  optDHCP := 0
  optLease := 0
  optMsgType := 0
  optDns := none
  optRouter := none
  optNtp := none

/-- The options of a frame. Every turn passes a byte, so `flen` turns are enough. -/
def options (s : Dhcp) (m : Mem Byte) (flen : ℕ) : Reading ℕ (Option DhcpOptions) :=
  parseOptions m flen flen OPTIONS s.noOptions

/-! ## Replies -/

/-- `IPv4_init`, with the `ipID` that it counts up -/
def IPv4_init (m : Mem Byte) (ipID : BitVec 16) : Mem Byte :=
  let m := m.store Frame.ipHead [0x45]
  let m := m.store Frame.ipId (be16 ipID)
  let m := m.store Frame.ipFlags [0x40]
  m.store Frame.ipTtl [32]

def initPacket (s : Dhcp) (m : Mem Byte) : Mem Byte :=
  let m := m.store 0 (List.replicate OPTIONS 0)
  let m := m.store Frame.macDst (List.replicate 6 0xFF)
  let m := IPv4_init m s.ipID
  let m := m.store Frame.ipDst (le32 0xFFFFFFFF)
  let m := m.store Frame.ipProto [IP_PROTO_UDP]
  let m := m.store Frame.portSrc (be16 DHCP_PORT_CLI)
  let m := m.store Frame.portDst (be16 DHCP_PORT_SRV)
  let m := m.store OP [1]
  let m := m.store HTYPE [1]
  let m := m.store HLEN [6]
  let m := m.store XID (le32 s.dhcpXID)
  let m := m.store CHADDR s.mac
  m.store MAGIC (le32 DHCP_MAGIC)

/-- `sendReply`: the frame that is transmitted. -/
def sendReply (s : Dhcp) (stack m : Mem Byte) : Reading ℕ Packet := do
  let p : Packet := ⟨s.initPacket stack, OPTIONS⟩
  -- request proposed lease
  let yiaddr ← readBytes m YIADDR 4
  let siaddr ← readBytes m SIADDR 4
  let p := { p with frame := (p.frame.store CIADDR yiaddr).store SIADDR siaddr }
  let p := p.put DHCP_OPT_REQUEST
  let p := p.put DHCP_OPT_PARAM_REQ
  let p := p.put [12, BitVec.ofNat 8 s.hostname.length]
  let p := (p.put s.hostname).pad_opts
  -- requested IP
  let p := p.put [50, 4]
  let p := p.put yiaddr
  -- DHCP IP
  let p := p.put [54, 4]
  let p := p.put siaddr
  -- end mark
  let p := (p.put [0xFF]).pad_opts
  pure { p with frame := IPv4_finalize (UDP_finalize p.frame p.flen) p.flen }

/-! ## `processFrame` -/

/-- The checks of the header. -/
def accepts (s : Dhcp) (m : Mem Byte) (flen : ℕ) : Reading ℕ Bool :=
  if flen < OPTIONS then pure false
  else do
    let macDst ← readBytes m Frame.macDst 6
    if macDst ≠ s.mac then pure false
    else do
      let portSrc ← readBytes m Frame.portSrc 2
      if portSrc ≠ be16 DHCP_PORT_SRV then pure false
      else do
        let op ← Reading.load m OP
        if op ≠ 2 then pure false
        else do
          let htype ← Reading.load m HTYPE
          if htype ≠ 1 then pure false
          else do
            let hlen ← Reading.load m HLEN
            if hlen ≠ 6 then pure false
            else do
              let magic ← Dns.readAddr m MAGIC
              if magic ≠ DHCP_MAGIC then pure false
              else do
                let xid ← Dns.readAddr m XID
                pure (decide (xid = s.dhcpXID))

/-- How long a lease counts: 10% less than it was given for, and a day at most. -/
def leaseTime (optLease : BitVec 32) : BitVec 32 :=
  let expire := optLease - optLease / 10
  if 86400 < expire then 86400 else expire

/-- The part of `processFrame` for a DHCPACK. -/
def acknowledge (s : Dhcp) (m : Mem Byte) (opts : DhcpOptions) :
    Reading ℕ (Dhcp × List DhcpCall) := do
  let yiaddr ← Dns.readAddr m YIADDR
  let s := { s with
    ipAddress := yiaddr
    ipSubnet := opts.optSubnet
    ipBroadcast := yiaddr ||| ~~~opts.optSubnet }
  -- the router subnet must match our own
  let router ← findIn m (fun addr => IPv4_testSubnet s.ipSubnet s.ipAddress addr == 0)
    opts.optRouter
  let s := { s with ipRouter := router.getD s.ipRouter }
  -- select first valid address
  let dns ← findIn m (· != 0) opts.optDns
  let s := { s with ipDNS := dns.getD s.ipDNS }
  let s ← match opts.optNtp with
    | none => pure s
    | some v => do
        let optNtpLen := if 32 < v.len then 32 else v.len
        let addrs ← readAddrs m (optNtpLen / 4) v.ptr
        pure { s with ntpAddr := s.ntpAddr.store 0 addrs, ntpLen := optNtpLen / 4 }
  pure ({ s with dhcpLeaseExpire := leaseTime opts.optLease + s.seconds },
    (router.toList.map fun _ => .ARP_refreshRouter) ++ dns.toList.map fun _ => .DNS_updateMAC)

/-- `processFrame`, and what it calls; nothing, if the loop over the options does not end. The
buffer of a reply has the contents `stack` before it is filled. -/
def processFrame (s : Dhcp) (stack m : Mem Byte) (flen : ℕ) :
    Reading ℕ (Option (Dhcp × List DhcpCall)) := do
  let accepted ← s.accepts m flen
  if !accepted then pure (some (s, []))
  else do
    let opts ← s.options m flen
    match opts with
    | none => pure none
    | some opts =>
        if opts.optMsgType = 2 then do
          let p ← s.sendReply stack m
          pure (some ({ s with ipID := s.ipID + 1 }, [.transmit p]))
        else if opts.optMsgType = 5 then do
          let r ← s.acknowledge m opts
          pure (some r)
        else pure (some (s, []))

end Dhcp

end Gpsdo.Net
