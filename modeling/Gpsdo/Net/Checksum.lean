import Gpsdo.Basic.OnesComplement
import Gpsdo.Net.Udp

set_option autoImplicit false

/-! # Checksums of finalized frames (`lib/net/ip.cpp`, `udp.cpp`)

`RFC1071_checksum` is the complement of the sum of one's complement of the bytes that it is given,
with the low byte of a word first. `UDP_finalize` takes it of the datagram, and again of the pseudo
header and the first sum.
-/

namespace Gpsdo.Net

variable {m : Mem Byte}

/-! ## The sum -/

theorem RFC1071_fold_eq (n : ℕ) : RFC1071_fold n = Ones.norm 65535 n := by
  induction n using RFC1071_fold.induct with
  | case1 n hcarry =>
      rw [RFC1071_fold, if_pos hcarry]
      exact (Ones.norm_of_le (by omega)).symm
  | case2 n hcarry ih =>
      rw [RFC1071_fold, if_neg hcarry, ih]
      exact Ones.norm_carry 65535 n

theorem RFC1071_sum_eq (m : Mem Byte) (n ptr : ℕ) :
    RFC1071_sum m n ptr = leSum (m.load ptr (2 * n)) := by
  induction n generalizing ptr with
  | zero => rfl
  | succ n ih =>
      rw [RFC1071_sum, ih, show 2 * (n + 1) = 2 + 2 * n by omega, Mem.load_add]
      rfl

/-- The bytes that are summed up, in the two parts of the function. -/
theorem RFC1071_total (m : Mem Byte) (buffer len : ℕ) :
    (if len % 2 = 1 then
        RFC1071_sum m (len / 2) buffer + (m (buffer + 2 * (len / 2))).toNat
      else RFC1071_sum m (len / 2) buffer) = leSum (m.load buffer len) := by
  rw [RFC1071_sum_eq]
  split
  · next hodd =>
      have hlen : m.load buffer len =
          m.load buffer (2 * (len / 2)) ++ m.load (buffer + 2 * (len / 2)) 1 := by
        rw [← Mem.load_add]
        exact congrArg _ (by omega)
      rw [hlen, leSum_append (by simp)]
      rfl
  · rw [show 2 * (len / 2) = len by omega]

/-- **The checksum** is the complement of the sum. -/
theorem RFC1071_checksum_eq (m : Mem Byte) (buffer len : ℕ) :
    RFC1071_checksum m buffer len =
      ~~~BitVec.ofNat 16 (Ones.norm 65535 (leSum (m.load buffer len))) := by
  unfold RFC1071_checksum
  rw [← RFC1071_fold_eq, ← RFC1071_total]

/-! ## Filling in a word -/

theorem leSum_le16 (v : BitVec 16) : leSum (le16 v) = v.toNat := by
  have hv := v.isLt
  simp only [le16, leSum, BitVec.extractLsb'_toNat]
  omega

theorem toNat_not_ofNat {c : ℕ} (hc : c ≤ 65535) : (~~~BitVec.ofNat 16 c).toNat = 65535 - c := by
  rw [BitVec.toNat_not, BitVec.toNat_ofNat, Nat.mod_eq_of_lt (by omega)]

/-- A word of a message is replaced. -/
theorem leSum_load_store {b n off : ℕ} {w : List Byte} (hw : w.length = 2) (hb : b ≤ off)
    (hn : off + 2 ≤ b + n) (heven : (off - b) % 2 = 0) :
    leSum ((m.store off w).load b n) + leSum (m.load off 2) = leSum (m.load b n) + leSum w := by
  -- the word, and what is in front of it and behind it; it has an even offset
  have hparts : ∀ m : Mem Byte, leSum (m.load b n) = leSum (m.load b (off - b)) +
      (leSum (m.load off 2) + leSum (m.load (off + 2) (b + n - (off + 2)))) := by
    intro m
    have hcut : m.load b n = m.load b (off - b) ++
        (m.load off 2 ++ m.load (off + 2) (b + n - (off + 2))) := by
      rw [← Mem.load_add]
      have hoff : m.load off (2 + (b + n - (off + 2))) =
          m.load (b + (off - b)) (2 + (b + n - (off + 2))) := by rw [Nat.add_sub_cancel' hb]
      rw [hoff, ← Mem.load_add]
      exact congrArg _ (by omega)
    rw [hcut, leSum_append (by rwa [Mem.length_load]), leSum_append (by rw [Mem.length_load])]
  have hword : (m.store off w).load off 2 = w := by
    rw [← hw]
    exact Mem.load_store_self m off w
  rw [hparts (m.store off w), hparts m, hword, Mem.load_store_of_disjoint (by omega),
    Mem.load_store_of_disjoint (by omega)]
  omega

/-- The complement of a sum is filled in where the message has a word of zeros, and the sum becomes
full. -/
theorem leSum_fill {b n off total : ℕ} (hzero : m.load off 2 = [0, 0]) (hb : b ≤ off)
    (hn : off + 2 ≤ b + n) (heven : (off - b) % 2 = 0) :
    leSum ((m.store off (le16 (~~~BitVec.ofNat 16 (Ones.norm 65535 total)))).load b n) =
      leSum (m.load b n) + (65535 - Ones.norm 65535 total) := by
  have hstore := leSum_load_store (m := m) (w := le16 (~~~BitVec.ofNat 16 (Ones.norm 65535 total)))
    rfl hb hn heven
  rw [hzero, leSum_le16, toNat_not_ofNat (Ones.norm_le (by decide) _)] at hstore
  exact hstore

/-! ## `IPv4_finalize` -/

/-- The frame of which `IPv4_finalize` takes the checksum. -/
def IPv4_cleared (m : Mem Byte) (flen : ℕ) : Mem Byte :=
  ((m.store Frame.ethTypeOffset [0x08, 0x00]).store Frame.ipLen
    (be16 (BitVec.ofNat 16 (flen - HeaderEthernet.size)))).store Frame.ipChksum [0, 0]

theorem IPv4_finalize_eq (m : Mem Byte) (flen : ℕ) :
    IPv4_finalize m flen = (IPv4_cleared m flen).store Frame.ipChksum (le16 (~~~BitVec.ofNat 16
      (Ones.norm 65535 (leSum ((IPv4_cleared m flen).load Frame.ip4 HeaderIp4.size))))) := by
  rw [← RFC1071_checksum_eq]
  rfl

/-- **The header of IP verifies.** -/
theorem IPv4_finalize_header (m : Mem Byte) (flen : ℕ) :
    onesSum ((IPv4_finalize m flen).load Frame.ip4 HeaderIp4.size) = 0xFFFF := by
  have hzero : (IPv4_cleared m flen).load Frame.ipChksum 2 = [0, 0] := Mem.load_store_self _ _ _
  rw [onesSum_eq_full, ← Ones.norm_eq_full (by decide), IPv4_finalize_eq,
    leSum_fill hzero (by decide) (by decide) (by decide)]
  exact Ones.norm_add_compl (by decide) _

/-- The fields that the pseudo header is made of are not written to, nor is what follows. -/
theorem IPv4_finalize_other {flen i : ℕ} (hi : i = Frame.ipProto ∨ Frame.ipSrc ≤ i) :
    IPv4_finalize m flen i = m i := by
  unfold Frame.ipProto Frame.ipSrc at hi
  rw [IPv4_finalize_eq, IPv4_cleared]
  rw [Mem.store_of_notMem (l := le16 _), Mem.store_of_notMem (l := [0, 0]),
    Mem.store_of_notMem (l := be16 _), Mem.store_of_notMem (l := [0x08, 0x00])]
  all_goals
    simp only [Frame.ethTypeOffset, Frame.ipLen, Frame.ipChksum, be16, le16, List.length_cons,
      List.length_nil]
    omega

/-! ## `UDP_finalize` -/

/-- The header that a receiver puts in front of the datagram. -/
def pseudoHeader (m : Mem Byte) : List Byte :=
  m.load Frame.ipSrc 4 ++ m.load Frame.ipDst 4 ++ [0] ++ m.load Frame.ipProto 1 ++
    m.load Frame.udpLength 2

/-- The bytes that the checksum of UDP covers. -/
def udpCovered (m : Mem Byte) (size : ℕ) : List Byte :=
  pseudoHeader m ++ m.load Frame.udp (size - HeaderEthernet.size - HeaderIp4.size)

/-- The frame of which `UDP_finalize` takes the checksum. -/
def UDP_cleared (m : Mem Byte) (size : ℕ) : Mem Byte :=
  (m.store Frame.udpLength (be16 (BitVec.ofNat 16 (size - HeaderEthernet.size -
    HeaderIp4.size)))).store Frame.udpChksum [0, 0]

theorem load_getD (l : List Byte) : Mem.load (fun i => l.getD i 0) 0 l.length = l := by
  refine List.ext_getElem (Mem.length_load _ _ _) fun i h1 h2 => ?_
  simp only [Mem.load, List.getElem_map, List.getElem_range, Nat.zero_add,
    List.getD_eq_getElem?_getD, List.getElem?_eq_getElem h2, Option.getD_some]

theorem length_pseudoHeader (m : Mem Byte) : (pseudoHeader m).length = 12 := by
  simp [pseudoHeader]

theorem leSum_covered (m : Mem Byte) (size : ℕ) :
    leSum (udpCovered m size) = leSum (pseudoHeader m) +
      leSum (m.load Frame.udp (size - HeaderEthernet.size - HeaderIp4.size)) :=
  leSum_append (by rw [length_pseudoHeader])

/-- The `chkbuf` of `UDP_finalize`, where the datagram has the sum `chksum`. -/
def chkbuf (m : Mem Byte) (chksum : List Byte) : List Byte :=
  m.load Frame.ipSrc 4 ++ m.load Frame.ipDst 4 ++ m.load Frame.udpLength 2 ++ chksum ++ [0] ++
    m.load Frame.ipProto 1

/-- The length and the protocol are summed in another order than in the pseudo header. -/
theorem leSum_chkbuf (m : Mem Byte) {chksum : List Byte} (hlen : chksum.length = 2) :
    leSum (chkbuf m chksum) = leSum (pseudoHeader m) + leSum chksum := by
  have haddrs : (m.load Frame.ipSrc 4 ++ m.load Frame.ipDst 4).length = 8 := by simp
  have htail : ([0] ++ m.load Frame.ipProto 1).length = 2 := by simp
  unfold chkbuf pseudoHeader
  rw [List.append_assoc _ [0] _, List.append_assoc _ [0] _]
  generalize m.load Frame.ipSrc 4 ++ m.load Frame.ipDst 4 = addrs at haddrs ⊢
  generalize [0] ++ m.load Frame.ipProto 1 = tail at htail ⊢
  calc leSum (addrs ++ m.load Frame.udpLength 2 ++ chksum ++ tail)
      = leSum addrs + leSum (m.load Frame.udpLength 2) + leSum chksum + leSum tail := by
        rw [leSum_append (by simp [haddrs, hlen]), leSum_append (by simp [haddrs]),
          leSum_append (by simp [haddrs])]
    _ = leSum addrs + leSum tail + leSum (m.load Frame.udpLength 2) + leSum chksum := by omega
    _ = leSum (addrs ++ tail ++ m.load Frame.udpLength 2) + leSum chksum := by
        rw [leSum_append (by simp [haddrs, htail]), leSum_append (by simp [haddrs])]

/-- What `UDP_finalize` computes from a frame with an empty checksum. -/
def udpChecksum (m : Mem Byte) (size : ℕ) : BitVec 16 :=
  let partialSum := RFC1071_checksum m Frame.udp (size - HeaderEthernet.size - HeaderIp4.size)
  let chkbuf := chkbuf m (le16 (~~~partialSum))
  RFC1071_checksum (fun i => chkbuf.getD i 0) 0 chkbuf.length

/-- **The two sums** are the sum of all that the checksum covers. -/
theorem udpChecksum_eq (m : Mem Byte) (size : ℕ) :
    udpChecksum m size = ~~~BitVec.ofNat 16 (Ones.norm 65535 (leSum (udpCovered m size))) := by
  unfold udpChecksum
  dsimp only
  rw [RFC1071_checksum_eq, load_getD, leSum_chkbuf m rfl, leSum_le16, RFC1071_checksum_eq,
    BitVec.not_not, BitVec.toNat_ofNat,
    Nat.mod_eq_of_lt (Nat.lt_succ_of_le (Ones.norm_le (by decide) _)), Ones.norm_add_norm,
    leSum_covered]

theorem UDP_finalize_eq (m : Mem Byte) (size : ℕ) :
    UDP_finalize m size = (UDP_cleared m size).store Frame.udpChksum (le16 (~~~BitVec.ofNat 16
      (Ones.norm 65535 (leSum (udpCovered (UDP_cleared m size) size))))) := by
  rw [← udpChecksum_eq]
  rfl

/-- Only the length and the checksum of the datagram are written. -/
theorem UDP_finalize_other {size i : ℕ} (hi : i < Frame.udpLength ∨ FrameUdp4.DATA_OFFSET ≤ i) :
    UDP_finalize m size i = m i := by
  unfold Frame.udpLength FrameUdp4.DATA_OFFSET at hi
  rw [UDP_finalize_eq, UDP_cleared]
  rw [Mem.store_of_notMem (l := le16 _), Mem.store_of_notMem (l := [0, 0]),
    Mem.store_of_notMem (l := be16 _)]
  all_goals
    simp only [Frame.udpLength, Frame.udpChksum, be16, le16, List.length_cons, List.length_nil]
    omega

/-- `FrameUdp4::returnToSender` changes the headers alone. -/
theorem returnToSender_other {i : ℕ} (hi : FrameUdp4.DATA_OFFSET ≤ i) :
    returnToSender m i = m i := by
  unfold FrameUdp4.DATA_OFFSET at hi
  unfold returnToSender
  rw [Mem.store_of_notMem, Mem.store_of_notMem, Mem.store_of_notMem, Mem.store_of_notMem,
    Mem.store_of_notMem]
  all_goals
    simp only [Mem.length_load, Frame.macDst, Frame.ipDst, Frame.ipSrc, Frame.portDst,
      Frame.portSrc]
    omega

/-- The two bytes of a complement. -/
theorem not_bytes {n : ℕ} (h : n ≤ 65535) :
    ((~~~BitVec.ofNat 16 n).extractLsb' 0 8).toNat = 255 - n % 256 ∧
      ((~~~BitVec.ofNat 16 n).extractLsb' 8 8).toNat = 255 - n / 256 := by
  rw [BitVec.extractLsb'_toNat, BitVec.extractLsb'_toNat, toNat_not_ofNat h,
    Nat.shiftRight_eq_div_pow, Nat.shiftRight_eq_div_pow]
  omega

/-- The word that the processor stores, in the order of the wire. -/
theorem le16_eq_be16 {n : ℕ} (h : n ≤ 65535) :
    le16 (~~~BitVec.ofNat 16 n) = be16 (~~~BitVec.ofNat 16 (swap16 n)) := by
  have hswap : swap16 n % 256 = n / 256 ∧ swap16 n / 256 = n % 256 := by
    unfold swap16
    omega
  obtain ⟨hlow, hhigh⟩ := not_bytes h
  obtain ⟨hlow', hhigh'⟩ := not_bytes (swap16_le h)
  unfold le16 be16
  congr 1
  · exact BitVec.eq_of_toNat_eq (by rw [hlow, hhigh', hswap.2])
  · congr 1
    exact BitVec.eq_of_toNat_eq (by rw [hhigh, hlow', hswap.1])

theorem UDP_finalize_chksum (m : Mem Byte) (size : ℕ) :
    (UDP_finalize m size).load Frame.udpChksum 2 =
      be16 (~~~BitVec.ofNat 16 (onesSum (udpCovered (UDP_cleared m size) size))) := by
  rw [UDP_finalize_eq, onesSum_eq_swap16, ← le16_eq_be16 (Ones.norm_le (by decide) _)]
  exact Mem.load_store_self _ _ _

/-- The pseudo header is not written to after the length of the datagram. -/
theorem pseudoHeader_store_udpChksum (m : Mem Byte) {w : List Byte} :
    pseudoHeader (m.store Frame.udpChksum w) = pseudoHeader m := by
  unfold pseudoHeader
  iterate 4 rw [Mem.load_store_of_disjoint (Or.inl (by decide))]

/-- **The datagram verifies.** -/
theorem UDP_finalize_covered (m : Mem Byte) {size : ℕ} (hsize : FrameUdp4.DATA_OFFSET ≤ size) :
    onesSum (udpCovered (UDP_finalize m size) size) = 0xFFFF := by
  have hzero : (UDP_cleared m size).load Frame.udpChksum 2 = [0, 0] := Mem.load_store_self _ _ _
  unfold FrameUdp4.DATA_OFFSET at hsize
  rw [onesSum_eq_full, ← Ones.norm_eq_full (by decide), UDP_finalize_eq]
  generalize UDP_cleared m size = c at hzero ⊢
  rw [leSum_covered, pseudoHeader_store_udpChksum, leSum_fill hzero (by decide)
    (by unfold HeaderEthernet.size HeaderIp4.size Frame.udpChksum Frame.udp; omega) (by decide),
    ← Nat.add_assoc, ← leSum_covered]
  exact Ones.norm_add_compl (by decide) _

/-- The bytes that the checksum covers. -/
theorem udpCovered_congr {m' : Mem Byte} (size : ℕ)
    (h : ∀ i, i = Frame.ipProto ∨ Frame.ipSrc ≤ i → m i = m' i) :
    udpCovered m size = udpCovered m' size := by
  have hfrom : ∀ off k, Frame.ipSrc ≤ off → m.load off k = m'.load off k := fun off k hoff =>
    Mem.load_congr fun i hi _ => h i (Or.inr (hoff.trans hi))
  have hproto : m.load Frame.ipProto 1 = m'.load Frame.ipProto 1 :=
    Mem.load_congr fun i hi hlt => h i (Or.inl (by omega))
  unfold udpCovered pseudoHeader
  rw [hproto, hfrom Frame.ipSrc 4 (by decide), hfrom Frame.ipDst 4 (by decide),
    hfrom Frame.udpLength 2 (by decide), hfrom Frame.udp _ (by decide)]

/-! ## Finalized datagrams -/

/-- The length of the datagram that a receiver reads. -/
theorem UDP_finalize_length (m : Mem Byte) {size : ℕ} (hsize : size ≤ 1518) :
    256 * (UDP_finalize m size Frame.udpLength).toNat +
      (UDP_finalize m size (Frame.udpLength + 1)).toNat =
        size - HeaderEthernet.size - HeaderIp4.size := by
  have hbytes : (UDP_finalize m size).load Frame.udpLength 2 =
      be16 (BitVec.ofNat 16 (size - HeaderEthernet.size - HeaderIp4.size)) := by
    rw [UDP_finalize_eq, Mem.load_store_of_disjoint (Or.inl (by decide)), UDP_cleared,
      Mem.load_store_of_disjoint (Or.inl (by decide))]
    exact Mem.load_store_self _ _ _
  have hhigh : UDP_finalize m size Frame.udpLength = _ := (List.cons.inj hbytes).1
  have hlow : UDP_finalize m size (Frame.udpLength + 1) = _ :=
    (List.cons.inj (List.cons.inj hbytes).2).1
  rw [hhigh, hlow, BitVec.extractLsb'_toNat, BitVec.extractLsb'_toNat, BitVec.toNat_ofNat,
    Nat.shiftRight_eq_div_pow, Nat.shiftRight_eq_div_pow]
  omega

/-- **Finalized datagrams verify**: the header of IP and the datagram with its pseudo header sum to
`0xFFFF`, and the checksum of UDP is the one that a single pass over the pseudo header and the
datagram gives. -/
theorem finalize_verifies (m : Mem Byte) {len : ℕ} (hmin : FrameUdp4.DATA_OFFSET ≤ len)
    (hmax : len ≤ 1518) :
    let frame := IPv4_finalize (UDP_finalize m len) len
    onesSum (frame.load Frame.ip4 HeaderIp4.size) = 0xFFFF ∧
      onesSum (udpCovered frame len) = 0xFFFF ∧
      256 * (frame Frame.udpLength).toNat + (frame (Frame.udpLength + 1)).toNat =
        len - HeaderEthernet.size - HeaderIp4.size ∧
      frame.load Frame.udpChksum 2 = be16 (~~~BitVec.ofNat 16
        (onesSum (udpCovered (frame.store Frame.udpChksum [0, 0]) len))) := by
  intro frame
  have hkept : ∀ i, i = Frame.ipProto ∨ Frame.ipSrc ≤ i → frame i = UDP_finalize m len i :=
    fun i hi => IPv4_finalize_other hi
  refine ⟨IPv4_finalize_header _ _, ?_, ?_, ?_⟩
  · -- the checksum of IP is not covered by that of UDP
    rw [udpCovered_congr len hkept]
    exact UDP_finalize_covered m hmin
  · rw [hkept _ (Or.inr (by decide)), hkept _ (Or.inr (by decide))]
    exact UDP_finalize_length m hmax
  · -- with the checksum cleared the frame is the one that it was computed from
    have hload : frame.load Frame.udpChksum 2 = (UDP_finalize m len).load Frame.udpChksum 2 :=
      Mem.load_congr fun i hi _ => hkept i (Or.inr ((by decide : Frame.ipSrc ≤ 40).trans hi))
    have hcleared : ∀ i, i = Frame.ipProto ∨ Frame.ipSrc ≤ i →
        frame.store Frame.udpChksum [0, 0] i = UDP_cleared m len i := by
      intro i hi
      calc frame.store Frame.udpChksum [0, 0] i
          = (UDP_finalize m len).store Frame.udpChksum [0, 0] i := Mem.store_apply_congr (hkept i hi)
        _ = (UDP_cleared m len).store Frame.udpChksum [0, 0] i := by
            rw [UDP_finalize_eq, Mem.store_store]
            rfl
        _ = UDP_cleared m len i := congrFun (Mem.store_store _ _ rfl) i
    rw [hload, UDP_finalize_chksum, udpCovered_congr len hcleared]

/-- An empty datagram, as it is before it is finalized. -/
def emptyDatagram : Mem Byte := fun _ => 0

/-- Five bytes from port 123 of `192.168.1.2` to port 49152 of `192.168.1.1`. -/
def fiveByteDatagram : Mem Byte :=
  (emptyDatagram.store Frame.ip4 [0x45, 0, 0, 0, 0, 7, 0x40, 0, 64, 17]).store Frame.ipSrc
    [192, 168, 1, 2, 192, 168, 1, 1, 0, 123, 0xC0, 0, 0, 0, 0, 0, 0xDE, 0xAD, 0xBE, 0xEF, 0x2A]

theorem finalize_verifies_fiveBytes :
    let frame := IPv4_finalize (UDP_finalize fiveByteDatagram 47) 47
    onesSum (frame.load Frame.ip4 HeaderIp4.size) = 0xFFFF ∧
      onesSum (udpCovered frame 47) = 0xFFFF ∧
      256 * (frame Frame.udpLength).toNat + (frame (Frame.udpLength + 1)).toNat =
        47 - HeaderEthernet.size - HeaderIp4.size ∧
      frame.load Frame.udpChksum 2 = be16 (~~~BitVec.ofNat 16
        (onesSum (udpCovered (frame.store Frame.udpChksum [0, 0]) 47))) :=
  finalize_verifies fiveByteDatagram (by decide) (by decide)

/-! ## The checksum that means that there is none -/

/-- The pseudo header and the datagram that go out, before there is a checksum. -/
def udpMessage (m : Mem Byte) (size : ℕ) : List Byte :=
  let length := be16 (BitVec.ofNat 16 (size - HeaderEthernet.size - HeaderIp4.size))
  m.load Frame.ipSrc 4 ++ m.load Frame.ipDst 4 ++ [0] ++ m.load Frame.ipProto 1 ++ length ++
    (m.load Frame.portSrc 4 ++ length ++ [0, 0] ++
      m.load FrameUdp4.DATA_OFFSET (size - FrameUdp4.DATA_OFFSET))

theorem udpCovered_cleared (m : Mem Byte) {size : ℕ} (hsize : FrameUdp4.DATA_OFFSET ≤ size) :
    udpCovered (UDP_cleared m size) size = udpMessage m size := by
  unfold FrameUdp4.DATA_OFFSET at hsize
  have hkept : ∀ {off k}, off + k ≤ Frame.udpLength ∨ FrameUdp4.DATA_OFFSET ≤ off →
      (UDP_cleared m size).load off k = m.load off k := by
    intro off k hoff
    unfold Frame.udpLength FrameUdp4.DATA_OFFSET at hoff
    rw [UDP_cleared, Mem.load_store_of_disjoint, Mem.load_store_of_disjoint]
    all_goals
      simp only [Frame.udpLength, Frame.udpChksum, be16, List.length_cons, List.length_nil]
      omega
  have hlength : (UDP_cleared m size).load Frame.udpLength 2 =
      be16 (BitVec.ofNat 16 (size - HeaderEthernet.size - HeaderIp4.size)) := by
    rw [UDP_cleared, Mem.load_store_of_disjoint (Or.inl (by decide))]
    exact Mem.load_store_self _ _ _
  have hchksum : (UDP_cleared m size).load Frame.udpChksum 2 = [0, 0] := Mem.load_store_self _ _ _
  have hparts : (UDP_cleared m size).load Frame.udp (size - HeaderEthernet.size - HeaderIp4.size) =
      (UDP_cleared m size).load Frame.portSrc 4 ++ (UDP_cleared m size).load Frame.udpLength 2 ++
        (UDP_cleared m size).load Frame.udpChksum 2 ++
        (UDP_cleared m size).load FrameUdp4.DATA_OFFSET (size - FrameUdp4.DATA_OFFSET) := by
    have hcut : size - HeaderEthernet.size - HeaderIp4.size =
        4 + 2 + 2 + (size - FrameUdp4.DATA_OFFSET) := by
      unfold HeaderEthernet.size HeaderIp4.size FrameUdp4.DATA_OFFSET
      omega
    rw [hcut, Mem.load_add, Mem.load_add, Mem.load_add]
    rfl
  unfold udpCovered pseudoHeader udpMessage
  rw [hparts, hlength, hchksum, hkept (Or.inl (by decide)), hkept (Or.inl (by decide)),
    hkept (Or.inl (by decide)), hkept (Or.inl (by decide)), hkept (Or.inr (by decide))]

/-- There is something to sum up, as the length is in the message. -/
theorem leSum_udpMessage_pos (m : Mem Byte) {size : ℕ} (hmin : FrameUdp4.DATA_OFFSET ≤ size)
    (hmax : size ≤ 1518) : 0 < leSum (udpMessage m size) := by
  unfold FrameUdp4.DATA_OFFSET at hmin
  have hlength : 0 < leSum (be16 (BitVec.ofNat 16 (size - HeaderEthernet.size -
      HeaderIp4.size))) := by
    simp only [be16, leSum, BitVec.extractLsb'_toNat, BitVec.toNat_ofNat, HeaderEthernet.size,
      HeaderIp4.size, Nat.shiftRight_eq_div_pow]
    omega
  unfold udpMessage
  rw [leSum_append (by simp [be16]), leSum_append (by simp)]
  omega

theorem le16_not_eq_zero {n : ℕ} (h : n ≤ 65535) :
    le16 (~~~BitVec.ofNat 16 n) = [0, 0] ↔ n = 65535 := by
  constructor
  · intro hzero
    have hsum := congrArg leSum hzero
    rw [leSum_le16, toNat_not_ofNat h] at hsum
    have hnone : leSum [0, 0] = 0 := rfl
    omega
  · rintro rfl
    rfl

theorem UDP_finalize_stored (m : Mem Byte) {size : ℕ} (hsize : FrameUdp4.DATA_OFFSET ≤ size) :
    (UDP_finalize m size).load Frame.udpChksum 2 =
      le16 (~~~BitVec.ofNat 16 (Ones.norm 65535 (leSum (udpMessage m size)))) := by
  rw [UDP_finalize_eq, udpCovered_cleared m hsize]
  exact Mem.load_store_self _ _ _

/-- **The checksum is zero** when the words that it covers sum to a multiple of `0xFFFF`, and only
then: a checksum that is computed as zero is not replaced by `0xFFFF`. -/
theorem UDP_finalize_chksum_ne_zero (m : Mem Byte) {size : ℕ}
    (hmin : FrameUdp4.DATA_OFFSET ≤ size) (hmax : size ≤ 1518) :
    (UDP_finalize m size).load Frame.udpChksum 2 ≠ [0, 0] ↔
      ¬65535 ∣ leSum (udpMessage m size) := by
  rw [UDP_finalize_stored m hmin, ne_eq, le16_not_eq_zero (Ones.norm_le (by decide) _),
    Ones.norm_eq_full (by decide), and_iff_right (leSum_udpMessage_pos m hmin hmax)]

theorem fiveByteDatagram_chksum_ne_zero :
    (UDP_finalize fiveByteDatagram 47).load Frame.udpChksum 2 ≠ [0, 0] :=
  (UDP_finalize_chksum_ne_zero fiveByteDatagram (by decide) (by decide)).mpr (by decide)

/-- A datagram from port 123 of `10.0.0.1` to port 60256 of `10.0.0.2`. -/
def zeroSumDatagram : Mem Byte :=
  (emptyDatagram.store Frame.ipProto [17]).store Frame.ipSrc
    [10, 0, 0, 1, 10, 0, 0, 2, 0, 123, 0xEB, 0x60]

/-- Its words sum to `0xFFFF`, and it says that it has no checksum. -/
theorem zeroSumDatagram_chksum :
    ¬∀ (m : Mem Byte) (size : ℕ), FrameUdp4.DATA_OFFSET ≤ size → size ≤ 1518 →
      (UDP_finalize m size).load Frame.udpChksum 2 ≠ [0, 0] := by
  intro h
  apply h zeroSumDatagram 42 (by decide) (by decide)
  rw [UDP_finalize_stored _ (by decide), le16_not_eq_zero (Ones.norm_le (by decide) _)]
  decide

end Gpsdo.Net
