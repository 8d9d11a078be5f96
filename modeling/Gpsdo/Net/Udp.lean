import Gpsdo.Basic.CObject
import Gpsdo.Net.Tx

set_option autoImplicit false

/-! # Headers and checksums (`lib/net/eth.hpp`, `ip.cpp`, `udp.cpp`)

A frame is a memory from the address of its first byte on. The functions that finalize it write to
its headers; the checksum reads what it is told to.
-/

namespace Gpsdo.Net

/-! ## Words -/

/-- The bytes of a word as `htons` stores it. -/
def be16 (v : BitVec 16) : List Byte := [v.extractLsb' 8 8, v.extractLsb' 0 8]

def be32 (v : BitVec 32) : List Byte :=
  [v.extractLsb' 24 8, v.extractLsb' 16 8, v.extractLsb' 8 8, v.extractLsb' 0 8]

/-- The bytes of a word in the order of the processor. -/
def le16 (v : BitVec 16) : List Byte := [v.extractLsb' 0 8, v.extractLsb' 8 8]

def le32 (v : BitVec 32) : List Byte :=
  [v.extractLsb' 0 8, v.extractLsb' 8 8, v.extractLsb' 16 8, v.extractLsb' 24 8]

/-! ## Protocols -/

def IP_PROTO_ICMP : Byte := 1

def IP_PROTO_UDP : Byte := 17

/-! ## Offsets of the headers -/

def HeaderEthernet.size : ℕ := 14

def HeaderIp4.size : ℕ := 20

def FrameUdp4.DATA_OFFSET : ℕ := 42

namespace Frame

def macDst : ℕ := 0

def macSrc : ℕ := 6

def ethTypeOffset : ℕ := 12

/-- The header of IP, and its fields. -/
def ip4 : ℕ := 14

def ipLen : ℕ := 16

def ipProto : ℕ := 23

def ipChksum : ℕ := 24

def ipSrc : ℕ := 26

def ipDst : ℕ := 30

/-- The header of UDP, and its fields. -/
def udp : ℕ := 34

def portSrc : ℕ := 34

def portDst : ℕ := 36

def udpLength : ℕ := 38

def udpChksum : ℕ := 40

end Frame

/-! ## The checksum -/

/-- The loop of `RFC1071_checksum` over `n` words. The sum of the words of a frame does not
overflow. -/
def RFC1071_sum (m : Mem Byte) : ℕ → ℕ → ℕ
  | 0, _ => 0
  | n + 1, ptr => (m ptr).toNat + 256 * (m (ptr + 1)).toNat + RFC1071_sum m n (ptr + 2)

/-- The loop that folds the carry. -/
def RFC1071_fold (sum : ℕ) : ℕ :=
  if sum / 65536 = 0 then sum else RFC1071_fold (sum % 65536 + sum / 65536)
termination_by sum
decreasing_by omega

def RFC1071_checksum (m : Mem Byte) (buffer len : ℕ) : BitVec 16 :=
  let sum := RFC1071_sum m (len / 2) buffer
  let sum := if len % 2 = 1 then sum + (m (buffer + 2 * (len / 2))).toNat else sum
  ~~~BitVec.ofNat 16 (RFC1071_fold sum)

/-- The bytes that the loop reads. -/
def RFC1071_words : ℕ → ℕ → List ℕ
  | 0, _ => []
  | n + 1, ptr => ptr :: (ptr + 1) :: RFC1071_words n (ptr + 2)

/-- The bytes that `RFC1071_checksum` reads. -/
def RFC1071_reads (buffer len : ℕ) : List ℕ :=
  RFC1071_words (len / 2) buffer ++ if len % 2 = 1 then [buffer + 2 * (len / 2)] else []

theorem mem_RFC1071_words {n ptr i : ℕ} :
    i ∈ RFC1071_words n ptr ↔ ptr ≤ i ∧ i < ptr + 2 * n := by
  induction n generalizing ptr with
  | zero =>
      simp only [RFC1071_words, List.not_mem_nil, false_iff]
      omega
  | succ n ih =>
      rw [RFC1071_words, List.mem_cons, List.mem_cons, ih]
      omega

theorem mem_RFC1071_reads {buffer len i : ℕ} :
    i ∈ RFC1071_reads buffer len ↔ buffer ≤ i ∧ i < buffer + len := by
  rw [RFC1071_reads, List.mem_append, mem_RFC1071_words]
  split <;> simp <;> omega

/-- **The checksum is one of the bytes that it reads.** -/
theorem RFC1071_checksum_congr {m m' : Mem Byte} (buffer len : ℕ)
    (h : ∀ i ∈ RFC1071_reads buffer len, m i = m' i) :
    RFC1071_checksum m buffer len = RFC1071_checksum m' buffer len := by
  have hsum : ∀ n ptr, (∀ i ∈ RFC1071_words n ptr, m i = m' i) →
      RFC1071_sum m n ptr = RFC1071_sum m' n ptr := by
    intro n
    induction n with
    | zero => exact fun _ _ => rfl
    | succ n ih =>
        intro ptr hw
        unfold RFC1071_words at hw
        rw [RFC1071_sum, RFC1071_sum, hw ptr (by simp), hw (ptr + 1) (by simp),
          ih (ptr + 2) fun i hi => hw i (by simp [hi])]
  unfold RFC1071_checksum
  unfold RFC1071_reads at h
  dsimp only
  rw [hsum _ _ fun i hi => h i (List.mem_append_left _ hi)]
  by_cases hodd : len % 2 = 1
  · rw [if_pos hodd, if_pos hodd, h _ (List.mem_append_right _ (by simp [hodd]))]
  · rw [if_neg hodd, if_neg hodd]

/-! ## Frames -/

/-- `FrameUdp4::returnToSender` -/
def returnToSender (m : Mem Byte) : Mem Byte :=
  let ipAddr := m.load Frame.ipDst 4
  let port := m.load Frame.portDst 2
  let m := m.store Frame.macDst (m.load Frame.macSrc 6)
  let m := m.store Frame.ipDst (m.load Frame.ipSrc 4)
  let m := m.store Frame.ipSrc ipAddr
  let m := m.store Frame.portDst (m.load Frame.portSrc 2)
  m.store Frame.portSrc port

/-- `UDP_finalize` -/
def UDP_finalize (m : Mem Byte) (size : ℕ) : Mem Byte :=
  let size := size - HeaderEthernet.size - HeaderIp4.size
  let m := m.store Frame.udpLength (be16 (BitVec.ofNat 16 size))
  let m := m.store Frame.udpChksum [0, 0]
  let partialSum := RFC1071_checksum m Frame.udp size
  let chkbuf := m.load Frame.ipSrc 4 ++ m.load Frame.ipDst 4 ++ m.load Frame.udpLength 2 ++
    le16 (~~~partialSum) ++ [0] ++ m.load Frame.ipProto 1
  m.store Frame.udpChksum (le16 (RFC1071_checksum (fun i => chkbuf.getD i 0) 0 chkbuf.length))

/-- `IPv4_finalize` -/
def IPv4_finalize (m : Mem Byte) (flen : ℕ) : Mem Byte :=
  let m := m.store Frame.ethTypeOffset [0x08, 0x00]
  let flen := flen - HeaderEthernet.size
  let m := m.store Frame.ipLen (be16 (BitVec.ofNat 16 flen))
  let m := m.store Frame.ipChksum [0, 0]
  m.store Frame.ipChksum (le16 (RFC1071_checksum m Frame.ip4 HeaderIp4.size))

variable {n : ℕ} {m m' : Mem Byte}

theorem returnToSender_agree (h : Mem.AgreeBelow n m m') (hn : FrameUdp4.DATA_OFFSET ≤ n) :
    Mem.AgreeBelow n (returnToSender m) (returnToSender m') := by
  unfold FrameUdp4.DATA_OFFSET at hn
  have hfits : ∀ {off k}, off + k ≤ 42 → off + k ≤ n := fun h => h.trans hn
  unfold returnToSender
  dsimp only
  rw [h.load Frame.ipDst (hfits (by decide)),
    h.load Frame.portDst (hfits (by decide)),
    h.load Frame.macSrc (hfits (by decide))]
  have h1 := h.store Frame.macDst (m'.load Frame.macSrc 6)
  rw [h1.load Frame.ipSrc (hfits (by decide))]
  generalize (m'.store Frame.macDst (m'.load Frame.macSrc 6)).load Frame.ipSrc 4 = src
  have h2 := (h1.store Frame.ipDst src).store Frame.ipSrc (m'.load Frame.ipDst 4)
  rw [h2.load Frame.portSrc (hfits (by decide))]
  exact (h2.store _ _).store _ _

theorem UDP_finalize_agree (h : Mem.AgreeBelow n m m') {size : ℕ}
    (hmin : FrameUdp4.DATA_OFFSET ≤ size) (hn : size ≤ n) :
    Mem.AgreeBelow n (UDP_finalize m size) (UDP_finalize m' size) := by
  unfold FrameUdp4.DATA_OFFSET at hmin
  have hfits : ∀ {off k}, off + k ≤ 42 → off + k ≤ n := fun h => (h.trans hmin).trans hn
  unfold UDP_finalize HeaderEthernet.size HeaderIp4.size
  dsimp only
  have h1 := (h.store Frame.udpLength (be16 (BitVec.ofNat 16 (size - 14 - 20)))).store
    Frame.udpChksum [0, 0]
  have hsum := RFC1071_checksum_congr Frame.udp (size - 14 - 20)
    fun i hi => h1 i (by
      have := (mem_RFC1071_reads.mp hi).2
      unfold Frame.udp at this
      omega)
  rw [hsum, h1.load Frame.ipSrc (hfits (by decide)),
    h1.load Frame.ipDst (hfits (by decide)),
    h1.load Frame.udpLength (hfits (by decide)),
    h1.load Frame.ipProto (hfits (by decide))]
  exact h1.store _ _

theorem IPv4_finalize_agree (h : Mem.AgreeBelow n m m') (hn : FrameUdp4.DATA_OFFSET ≤ n)
    (flen : ℕ) : Mem.AgreeBelow n (IPv4_finalize m flen) (IPv4_finalize m' flen) := by
  unfold FrameUdp4.DATA_OFFSET at hn
  unfold IPv4_finalize
  dsimp only
  have h1 := ((h.store Frame.ethTypeOffset [0x08, 0x00]).store Frame.ipLen
    (be16 (BitVec.ofNat 16 (flen - HeaderEthernet.size)))).store Frame.ipChksum [0, 0]
  have hsum := RFC1071_checksum_congr Frame.ip4 HeaderIp4.size
    fun i hi => h1 i (by
      have := (mem_RFC1071_reads.mp hi).2
      unfold Frame.ip4 HeaderIp4.size at this
      omega)
  rw [hsum]
  exact h1.store _ _

end Gpsdo.Net
