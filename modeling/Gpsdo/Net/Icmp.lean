import Gpsdo.Net.Checksum

set_option autoImplicit false

/-! # Echo replies (`lib/net/icmp.cpp`)

`sendPingResponse` turns a request into its reply in place. The type goes from 8 to 0, so the
checksum, which has the type in its first byte, goes up by 8.
-/

namespace Gpsdo.Net

namespace Frame

/-- The header of ICMP, and its fields. -/
def icmp : ℕ := 34

def icmpType : ℕ := 34

def icmpCode : ℕ := 35

def icmpChksum : ℕ := 36

end Frame

/-- The assignments of `sendPingResponse` to the checksum. -/
def touchUpChecksum (m : Mem Byte) : Mem Byte :=
  let m := if (m Frame.icmpChksum).toNat > 0xF7 then
      m.store (Frame.icmpChksum + 1) [m (Frame.icmpChksum + 1) + 1]
    else m
  m.store Frame.icmpChksum [m Frame.icmpChksum + 0x08]

/-- `sendPingResponse`: the frame that is transmitted, if there is one. -/
def sendPingResponse (ipAddress : BitVec 32) (m : Mem Byte) (size : ℕ) : Option (Mem Byte) :=
  if m Frame.icmpCode ≠ 0 then none
  else
    let m := m.store Frame.macDst (m.load Frame.macSrc 6)
    let m := m.store Frame.ipDst (m.load Frame.ipSrc 4)
    let m := m.store Frame.ipSrc (le32 ipAddress)
    let m := m.store Frame.icmpType [0]
    let m := touchUpChecksum m
    some (IPv4_finalize m size)

/-- The message of ICMP: the bytes after the header of IP. -/
def icmpMessage (m : Mem Byte) (size : ℕ) : List Byte := m.load Frame.icmp (size - Frame.icmp)

variable {m reply : Mem Byte} {size : ℕ}

/-- The header of ICMP is summed up byte by byte, the body as a whole. -/
theorem leSum_icmpMessage (m : Mem Byte) (hsize : 42 ≤ size) :
    leSum (icmpMessage m size) = (m Frame.icmpType).toNat + 256 * (m Frame.icmpCode).toNat +
      ((m Frame.icmpChksum).toNat + 256 * (m (Frame.icmpChksum + 1)).toNat) +
      leSum (m.load 38 (size - 38)) := by
  have hcut : icmpMessage m size = m.load 34 4 ++ m.load 38 (size - 38) := by
    rw [← Mem.load_add]
    exact congrArg (m.load 34) (by unfold Frame.icmp; omega)
  rw [hcut, leSum_append (by simp)]
  rfl

/-- The message of a reply. -/
structure RepliesTo (m reply : Mem Byte) : Prop where
  type : reply Frame.icmpType = 0
  code : reply Frame.icmpCode = m Frame.icmpCode
  low : reply Frame.icmpChksum = m Frame.icmpChksum + 8
  high : reply (Frame.icmpChksum + 1) =
    if (m Frame.icmpChksum).toNat > 0xF7 then m (Frame.icmpChksum + 1) + 1
    else m (Frame.icmpChksum + 1)
  body : ∀ i, 38 ≤ i → reply i = m i

theorem touchUpChecksum_low (m : Mem Byte) :
    touchUpChecksum m Frame.icmpChksum = m Frame.icmpChksum + 8 := by
  unfold touchUpChecksum
  rw [Mem.store_singleton, if_pos rfl]
  split
  · rw [Mem.store_singleton, if_neg (by decide)]
  · rfl

theorem touchUpChecksum_high (m : Mem Byte) :
    touchUpChecksum m (Frame.icmpChksum + 1) =
      if (m Frame.icmpChksum).toNat > 0xF7 then m (Frame.icmpChksum + 1) + 1
      else m (Frame.icmpChksum + 1) := by
  unfold touchUpChecksum
  rw [Mem.store_singleton, if_neg (by decide)]
  split
  · rw [Mem.store_singleton, if_pos rfl]
  · rfl

theorem touchUpChecksum_other {i : ℕ} (hlow : i ≠ Frame.icmpChksum)
    (hhigh : i ≠ Frame.icmpChksum + 1) : touchUpChecksum m i = m i := by
  unfold touchUpChecksum
  rw [Mem.store_singleton, if_neg hlow]
  split
  · rw [Mem.store_singleton, if_neg hhigh]
  · rfl

theorem sendPingResponse_replies (ipAddress : BitVec 32) (m : Mem Byte) (size : ℕ)
    (hcode : m Frame.icmpCode = 0) :
    ∃ reply, sendPingResponse ipAddress m size = some reply ∧ RepliesTo m reply := by
  unfold sendPingResponse
  rw [if_neg (not_not.mpr hcode)]
  dsimp only
  generalize haddressed : ((m.store Frame.macDst (m.load Frame.macSrc 6)).store Frame.ipDst
    ((m.store Frame.macDst (m.load Frame.macSrc 6)).load Frame.ipSrc 4)).store Frame.ipSrc
      (le32 ipAddress) = addressed
  -- the addresses are in front of the message
  have hmessage : ∀ i, Frame.icmp ≤ i → addressed i = m i := by
    intro i hi
    unfold Frame.icmp at hi
    rw [← haddressed, Mem.store_of_notMem, Mem.store_of_notMem, Mem.store_of_notMem]
    all_goals
      simp only [Mem.length_load, Frame.macDst, Frame.ipDst, Frame.ipSrc, le32, List.length_cons,
        List.length_nil]
      omega
  generalize htyped : addressed.store Frame.icmpType [0] = typed
  have hrest : ∀ i, Frame.icmpCode ≤ i → typed i = m i := by
    intro i hi
    unfold Frame.icmpCode at hi
    rw [← htyped, Mem.store_singleton, if_neg (by unfold Frame.icmpType; omega),
      hmessage i (by unfold Frame.icmp; omega)]
  have hfinal : ∀ i, Frame.icmp ≤ i → IPv4_finalize (touchUpChecksum typed) size i =
      touchUpChecksum typed i := fun i hi =>
    IPv4_finalize_other (Or.inr ((by decide : Frame.ipSrc ≤ Frame.icmp).trans hi))
  refine ⟨_, rfl, ?_, ?_, ?_, ?_, ?_⟩
  · rw [hfinal _ (by decide), touchUpChecksum_other (by decide) (by decide), ← htyped,
      Mem.store_singleton, if_pos rfl]
  · rw [hfinal _ (by decide), touchUpChecksum_other (by decide) (by decide), hrest _ (by decide)]
  · rw [hfinal _ (by decide), touchUpChecksum_low, hrest _ (by decide)]
  · rw [hfinal _ (by decide), touchUpChecksum_high, hrest _ (by decide), hrest _ (by decide)]
  · intro i hi
    rw [hfinal i ((by decide : Frame.icmp ≤ 38).trans hi),
      touchUpChecksum_other (by unfold Frame.icmpChksum; omega)
        (by unfold Frame.icmpChksum; omega), hrest i ((by decide : Frame.icmpCode ≤ 38).trans hi)]

/-- **The reply** verifies unless the carry goes out of the second byte: it is not brought around to
the first one. -/
theorem RepliesTo.valid_iff (h : RepliesTo m reply) (hsize : 42 ≤ size)
    (htype : m Frame.icmpType = 8) (hcode : m Frame.icmpCode = 0)
    (hvalid : onesSum (icmpMessage m size) = 0xFFFF) :
    onesSum (icmpMessage reply size) = 0xFFFF ↔
      ¬((m Frame.icmpChksum).toNat > 0xF7 ∧ m (Frame.icmpChksum + 1) = 0xFF) := by
  have hbody : reply.load 38 (size - 38) = m.load 38 (size - 38) :=
    Mem.load_congr fun i hi _ => h.body i hi
  rw [onesSum_eq_full, leSum_icmpMessage m hsize, htype, hcode] at hvalid
  rw [onesSum_eq_full, leSum_icmpMessage reply hsize, h.type, h.code, hcode, hbody, h.low, h.high,
    ← BitVec.toNat_inj (y := 0xFF)]
  generalize hk0 : m Frame.icmpChksum = k0 at hvalid ⊢
  generalize hk1 : m (Frame.icmpChksum + 1) = k1 at hvalid ⊢
  generalize leSum (m.load 38 (size - 38)) = rest at hvalid ⊢
  have hlt0 := k0.isLt
  have hlt1 := k1.isLt
  obtain ⟨-, hdvd⟩ := hvalid
  have height : (8 : Byte).toNat = 8 := rfl
  have hzero : (0 : Byte).toNat = 0 := rfl
  have hfull : (0xFF : Byte).toNat = 255 := rfl
  have hone : (1 : Byte).toNat = 1 := rfl
  rw [height, hzero] at hdvd
  rw [hzero, hfull, BitVec.toNat_add, height]
  by_cases hcarry : k0.toNat > 0xF7
  · -- the second byte takes the carry, and loses its own
    rw [if_pos hcarry, BitVec.toNat_add, hone]
    omega
  · rw [if_neg hcarry]
    omega

/-- **Echo replies verify** unless the carry of the first byte of the checksum meets a second byte
that is full. -/
theorem sendPingResponse_valid (ipAddress : BitVec 32) {m : Mem Byte} {size : ℕ} (hsize : 42 ≤ size)
    (htype : m Frame.icmpType = 8) (hcode : m Frame.icmpCode = 0)
    (hvalid : onesSum (icmpMessage m size) = 0xFFFF) :
    (∃ reply, sendPingResponse ipAddress m size = some reply ∧
      onesSum (icmpMessage reply size) = 0xFFFF) ↔
      ¬((m Frame.icmpChksum).toNat > 0xF7 ∧ m (Frame.icmpChksum + 1) = 0xFF) := by
  obtain ⟨reply, hreply, hto⟩ := sendPingResponse_replies ipAddress m size hcode
  rw [← hto.valid_iff hsize htype hcode hvalid, hreply]
  constructor
  · rintro ⟨reply', hsome, hsum⟩
    rwa [Option.some.inj hsome]
  · exact fun hsum => ⟨reply, rfl, hsum⟩

/-- An echo request from `10.0.0.2` to `10.0.0.1`, with the given message and zeros behind it. -/
def echoRequest (message : List Byte) : Mem Byte :=
  ((emptyDatagram.store Frame.ip4 [0x45]).store Frame.ipProto [1]).store Frame.ipSrc
    ([10, 0, 0, 2, 10, 0, 0, 1] ++ message)

theorem sendPingResponse_valid_carry :
    (∃ reply, sendPingResponse 0x0100000A (echoRequest [8, 0, 0xF8, 0x7F, 0xFF, 0x7F]) 60 =
      some reply ∧ onesSum (icmpMessage reply 60) = 0xFFFF) ↔
      ¬((echoRequest [8, 0, 0xF8, 0x7F, 0xFF, 0x7F] Frame.icmpChksum).toNat > 0xF7 ∧
        echoRequest [8, 0, 0xF8, 0x7F, 0xFF, 0x7F] (Frame.icmpChksum + 1) = 0xFF) :=
  sendPingResponse_valid 0x0100000A (by decide) (by decide) (by decide) (by decide)

/-- The checksum `F8 FF` of a request becomes `00 00`, where `01 00` is due. -/
theorem sendPingResponse_loses_carry :
    ¬∀ (ipAddress : BitVec 32) (m : Mem Byte) (size : ℕ), 42 ≤ size → m Frame.icmpType = 8 →
      m Frame.icmpCode = 0 → onesSum (icmpMessage m size) = 0xFFFF →
      ∃ reply, sendPingResponse ipAddress m size = some reply ∧
        onesSum (icmpMessage reply size) = 0xFFFF := by
  intro h
  obtain ⟨reply, hreply, hsum⟩ := h 0x0100000A (echoRequest [8, 0, 0xF8, 0xFF, 0xFE, 0xFF]) 60
    (by decide) (by decide) (by decide) (by decide)
  obtain ⟨reply', hreply', hto⟩ := sendPingResponse_replies 0x0100000A
    (echoRequest [8, 0, 0xF8, 0xFF, 0xFE, 0xFF]) 60 (by decide)
  obtain rfl : reply = reply' := Option.some.inj (hreply.symm.trans hreply')
  exact (hto.valid_iff (by decide) (by decide) (by decide) (by decide)).mp hsum (by decide)

end Gpsdo.Net
