import Gpsdo.Ptp.Messages

set_option autoImplicit false

/-! # Responses to delay requests (`lib/ptp/ptp.cpp`)

A response is the request with some fields replaced, so that its sequence number and its correction
are those of the request, and the identity of the requester goes into the data.
-/

namespace Gpsdo.Ptp

open Clock Packed
open Net (Byte)

/-! ## Reading -/

/-- A packet is read header by header. -/
theorem read_packet {T : Type} (data : Packed T) (e : HeaderEthernet) (p : HEADER_PTP)
    (rest : List Byte) :
    (PacketPTP.packed data).read (HeaderEthernet.packed.bytes e ++
      (HEADER_PTP.packed.bytes p ++ rest)) = ⟨e, p, data.read rest⟩ := by
  have htail : (HeaderEthernet.packed.bytes e ++ (HEADER_PTP.packed.bytes p ++ rest)).drop
      HeaderEthernet.packed.size = HEADER_PTP.packed.bytes p ++ rest :=
    List.drop_left' (HeaderEthernet.packed.length_bytes e)
  have hdata : (HEADER_PTP.packed.bytes p ++ rest).drop HEADER_PTP.packed.size = rest :=
    List.drop_left' (HEADER_PTP.packed.length_bytes p)
  show PacketPTP.mk (HeaderEthernet.packed.read _) (HEADER_PTP.packed.read (List.drop _ _))
    (data.read (List.drop _ (List.drop _ _))) = _
  rw [HeaderEthernet.packed.read_bytes, htail, HEADER_PTP.packed.read_bytes, hdata]

/-- The headers are copied. -/
theorem resize_headers {e : HeaderEthernet} {p : HEADER_PTP} (rest : List Byte) {txSize : ℕ}
    (hsize : PTP2_MIN_SIZE ≤ txSize) :
    ∃ rest', resize (HeaderEthernet.packed.bytes e ++ (HEADER_PTP.packed.bytes p ++ rest)) txSize =
      HeaderEthernet.packed.bytes e ++ (HEADER_PTP.packed.bytes p ++ rest') := by
  have he : (HeaderEthernet.packed.bytes e).length = 14 := HeaderEthernet.packed.length_bytes e
  have hp : (HEADER_PTP.packed.bytes p).length = 34 := HEADER_PTP.packed.length_bytes p
  have hmin : PTP2_MIN_SIZE = 48 := rfl
  refine ⟨rest.take (txSize - 48) ++ List.replicate (txSize - (48 + rest.length)) 0, ?_⟩
  rw [resize, List.take_append, List.take_append, List.length_append, List.length_append, he, hp,
    List.take_of_length_le (by omega), List.take_of_length_le (by omega), List.append_assoc,
    List.append_assoc, Nat.sub_sub, ← Nat.add_assoc]

/-! ## Responses -/

/-- The response to a request with the given headers. -/
theorem respond_eq (env : Env) (rxTime : BitVec 32 × BitVec 32) (dataSize : ℕ)
    (messageType : BitVec 4) (e : HeaderEthernet) (p : HEADER_PTP) (data : List Byte) :
    respond env rxTime (PTP2_MIN_SIZE + dataSize) messageType
        (HeaderEthernet.packed.bytes e ++ (HEADER_PTP.packed.bytes p ++ data)) =
      if data.length < dataSize then none
      else some ⟨e, p.assign env messageType PTP2_DELAY_RESP.packed.size 0,
        toPtpTimestamp (env.stamp rxTime), p.sourceIdentity⟩ := by
  have hlen : (HeaderEthernet.packed.bytes e ++ (HEADER_PTP.packed.bytes p ++ data)).length =
      PTP2_MIN_SIZE + data.length := by
    rw [List.length_append, List.length_append, HeaderEthernet.packed.length_bytes,
      HEADER_PTP.packed.length_bytes, ← Nat.add_assoc]
    rfl
  obtain ⟨rest, hrest⟩ := @resize_headers e p data responsePacked.size (by decide)
  unfold respond
  rw [hlen]
  by_cases hsize : data.length < dataSize
  · rw [if_pos hsize, if_pos (Nat.add_lt_add_left hsize _)]
  · rw [if_neg hsize, if_neg (by omega), hrest]
    dsimp only
    rw [responsePacked, read_packet]

/-- The address of the sender is copied over the one of the receiver. -/
theorem flip_macDst (e : HeaderEthernet) (rest : List Byte) :
    ((HeaderEthernet.packed.bytes e ++ rest).drop 6).take 6 ++
        (HeaderEthernet.packed.bytes e ++ rest).drop 6 =
      HeaderEthernet.packed.bytes { e with macDst := e.macSrc } ++ rest := by
  have hlen : ∀ mac, ((word 6).bytes mac).length = 6 := (word 6).length_bytes
  have hbytes : ∀ e, HeaderEthernet.packed.bytes e =
      (word 6).bytes e.macDst ++ ((word 6).bytes e.macSrc ++ (word 2).bytes e.ethType) :=
    fun _ => rfl
  rw [hbytes, hbytes, List.append_assoc, List.drop_left' (hlen _), List.append_assoc,
    List.take_left' (hlen _), List.append_assoc, List.append_assoc]

/-- The response `r` to a request with the headers `e` and `p` that was received at `rxTime`. -/
structure RespondsTo (env : Env) (rxTime : BitVec 32 × BitVec 32) (messageType : BitVec 4)
    (e : HeaderEthernet) (p : HEADER_PTP) (r : PacketPTP PTP2_DELAY_RESP) : Prop where
  eth : r.eth = ⟨e.macSrc, e.macSrc, e.ethType⟩
  type : r.ptp.messageType = messageType ∧ r.ptp.versionPTP = 2
  messageLength : r.ptp.messageLength = htons 54
  source : r.ptp.sourceIdentity = ⟨env.ptpClockId, 0⟩
  requester : r.data.requestingIdentity = p.sourceIdentity
  sequenceId : r.ptp.sequenceId = p.sequenceId
  copied : r.ptp.transportSpecific = p.transportSpecific ∧ r.ptp.flags = p.flags ∧
    r.ptp.correctionField = p.correctionField ∧ r.ptp.controlField = p.controlField
  time : r.data.receiveTimestamp = toPtpTimestamp (env.stamp rxTime)

theorem respondsTo_assign (env : Env) (rxTime : BitVec 32 × BitVec 32) (messageType : BitVec 4)
    (e : HeaderEthernet) (p : HEADER_PTP) :
    RespondsTo env rxTime messageType e p
      ⟨{ e with macDst := e.macSrc }, p.assign env messageType PTP2_DELAY_RESP.packed.size 0,
        toPtpTimestamp (env.stamp rxTime), p.sourceIdentity⟩ :=
  ⟨rfl, ⟨rfl, rfl⟩, rfl, rfl, rfl, rfl, ⟨rfl, rfl, rfl, rfl⟩, rfl⟩

theorem headPacked_read (e : HeaderEthernet) (p : HEADER_PTP) (data : List Byte) :
    headPacked.read (HeaderEthernet.packed.bytes e ++ (HEADER_PTP.packed.bytes p ++ data)) =
      (e, p) := by
  have h := headPacked.read_bytes (e, p) data
  rwa [show headPacked.bytes (e, p) =
    HeaderEthernet.packed.bytes e ++ HEADER_PTP.packed.bytes p from rfl, List.append_assoc] at h

/-- `PTP_process` on a frame with the given headers. -/
theorem PTP_process_eq (env : Env) (rxTime : BitVec 32 × BitVec 32) (e : HeaderEthernet)
    (p : HEADER_PTP) (data : List Byte) (hmac : e.macSrc ≠ env.mac) (hversion : p.versionPTP = 2) :
    PTP_process env rxTime (HeaderEthernet.packed.bytes e ++ (HEADER_PTP.packed.bytes p ++ data)) =
      if p.messageType = PTP2_MT_DELAY_REQ then
        (if data.length < PTP2_TIMESTAMP.packed.size then none else some
          ⟨{ e with macDst := e.macSrc },
            p.assign env PTP2_MT_DELAY_RESP PTP2_DELAY_RESP.packed.size 0,
            toPtpTimestamp (env.stamp rxTime), p.sourceIdentity⟩ : Option _).map fun r =>
              (responsePacked.bytes r, none)
      else if p.messageType = PTP2_MT_PDELAY_REQ then
        (if data.length < PTP2_DELAY_RESP.packed.size then none else some
          ⟨{ e with macDst := e.macSrc },
            p.assign env PTP2_MT_PDELAY_RESP PTP2_DELAY_RESP.packed.size 0,
            toPtpTimestamp (env.stamp rxTime), p.sourceIdentity⟩ : Option _).map fun r =>
              (responsePacked.bytes r, some peerDelayRespFollowupAddr)
      else none := by
  unfold PTP_process
  rw [headPacked_read, flip_macDst]
  dsimp only
  rw [if_neg hmac, if_neg (not_not.mpr hversion), processDelayRequest, processPDelayRequest,
    respond_eq, respond_eq]

/-- The type of the response to a request, the size that the data of the request has at least, and
the callback of the response. -/
def requestKind (messageType : BitVec 4) : Option (BitVec 4 × ℕ × Option Net.Addr) :=
  if messageType = PTP2_MT_DELAY_REQ then
    some (PTP2_MT_DELAY_RESP, PTP2_TIMESTAMP.packed.size, none)
  else if messageType = PTP2_MT_PDELAY_REQ then
    some (PTP2_MT_PDELAY_RESP, PTP2_DELAY_RESP.packed.size, some peerDelayRespFollowupAddr)
  else none

/-- The frame begins with the two headers. -/
theorem exists_headers {frame : List Byte} (hframe : PTP2_MIN_SIZE ≤ frame.length) :
    ∃ e p data, frame = HeaderEthernet.packed.bytes e ++ (HEADER_PTP.packed.bytes p ++ data) := by
  obtain ⟨⟨e, p⟩, h⟩ := headPacked.exists_bytes (l := frame) hframe
  exact ⟨e, p, _, by rw [← List.append_assoc]; exact h⟩

/-- **Requests are answered**: a frame with the two headers gets a response exactly if it is a
request of another station, of version 2 and not too short, and the response is the one to it. -/
theorem PTP_process_responds (env : Env) (rxTime : BitVec 32 × BitVec 32) {frame : List Byte}
    (hframe : PTP2_MIN_SIZE ≤ frame.length) :
    ∃ e p data, frame = HeaderEthernet.packed.bytes e ++ (HEADER_PTP.packed.bytes p ++ data) ∧
      (∀ messageType dataSize callback, e.macSrc ≠ env.mac → p.versionPTP = 2 →
        requestKind p.messageType = some (messageType, dataSize, callback) →
        dataSize ≤ data.length → ∃ r, RespondsTo env rxTime messageType e p r ∧
          PTP_process env rxTime frame = some (responsePacked.bytes r, callback)) ∧
      (PTP_process env rxTime frame ≠ none → e.macSrc ≠ env.mac ∧ p.versionPTP = 2 ∧
        ∃ messageType dataSize callback,
          requestKind p.messageType = some (messageType, dataSize, callback) ∧
          dataSize ≤ data.length) := by
  obtain ⟨e, p, data, rfl⟩ := exists_headers hframe
  refine ⟨e, p, data, rfl, ?_, ?_⟩
  · intro messageType dataSize callback hmac hversion hkind hsize
    rw [PTP_process_eq env rxTime e p data hmac hversion]
    unfold requestKind at hkind
    split at hkind
    · rename_i htype
      cases hkind
      rw [if_pos htype, if_neg (not_lt.mpr hsize)]
      exact ⟨_, respondsTo_assign env rxTime _ e p, rfl⟩
    · rename_i htype
      split at hkind
      · rename_i hpeer
        cases hkind
        rw [if_neg htype, if_pos hpeer, if_neg (not_lt.mpr hsize)]
        exact ⟨_, respondsTo_assign env rxTime _ e p, rfl⟩
      · cases hkind
  · intro hsome
    have hmac : e.macSrc ≠ env.mac := by
      intro hmac
      unfold PTP_process at hsome
      rw [headPacked_read] at hsome
      exact hsome (if_pos hmac)
    have hversion : p.versionPTP = 2 := by
      by_contra hversion
      unfold PTP_process at hsome
      rw [headPacked_read] at hsome
      dsimp only at hsome
      rw [if_neg hmac, if_pos hversion] at hsome
      exact hsome rfl
    refine ⟨hmac, hversion, ?_⟩
    rw [PTP_process_eq env rxTime e p data hmac hversion] at hsome
    unfold requestKind
    split at hsome
    · rename_i htype
      rw [if_pos htype]
      refine ⟨_, _, _, rfl, not_lt.mp fun hsize => hsome ?_⟩
      rw [if_pos hsize]
      rfl
    · rename_i htype
      rw [if_neg htype]
      split at hsome
      · rename_i hpeer
        rw [if_pos hpeer]
        refine ⟨_, _, _, rfl, not_lt.mp fun hsize => hsome ?_⟩
        rw [if_pos hsize]
        rfl
      · exact absurd rfl hsome

/-- A station whose clocks have not started. -/
def idleEnv : Env where
  capture := Capture.init
  clkComp := ⟨0, 0, 0, 0⟩
  clkTai := ⟨0, 0, 0, 0⟩
  clkTaiUtcOffset := 0
  refId := 0
  offsetRms := 0
  mac := 0x030201585554

/-- A delay request with the sequence number 7, padded to the size of a frame. -/
def delayRequest : List Byte :=
  HeaderEthernet.packed.bytes ⟨gPtpMac, 0x0A0908585554, ETHTYPE_PTP⟩ ++
    (HEADER_PTP.packed.bytes { HEADER_PTP.zero with
        messageType := PTP2_MT_DELAY_REQ, versionPTP := 2, sequenceId := htons 7 } ++
      List.replicate 12 0)

theorem PTP_process_responds_delayRequest :
    ∃ r, PTP_process idleEnv (40, 3) delayRequest = some (responsePacked.bytes r, none) ∧
      r.ptp.sequenceId = htons 7 ∧ r.eth.macDst = 0x0A0908585554 := by
  obtain ⟨e, p, data, hframe, hrespond, -⟩ :=
    PTP_process_responds idleEnv (40, 3) (show PTP2_MIN_SIZE ≤ delayRequest.length by decide)
  have hread : headPacked.read delayRequest = (e, p) := by rw [hframe, headPacked_read]
  obtain ⟨rfl, rfl⟩ := Prod.mk.inj ((headPacked_read _ _ _).symm.trans hread)
  have hdata : data = List.replicate 12 0 :=
    (List.append_cancel_left (List.append_cancel_left hframe)).symm
  obtain ⟨r, hr, hsome⟩ := hrespond _ _ none (by decide) rfl rfl (by rw [hdata]; decide)
  exact ⟨r, hsome, hr.sequenceId, by rw [hr.eth]⟩

end Gpsdo.Ptp
