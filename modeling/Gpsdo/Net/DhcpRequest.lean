import Gpsdo.Net.DhcpOptions

set_option autoImplicit false

/-! # The request that answers an offer (`sendReply`)

The reply has the transaction of the offer and asks for the address that was offered. The server
that it names is the next server of the header, and not the one that the offer names in its option
54, which the parser stores and nobody reads.
-/

namespace Gpsdo.Net

open HEADER_DHCP Tlv

/-! ## Packets -/

namespace Packet

/-- The byte that `pad_opts` puts behind `n` bytes. -/
def padding (n : ℕ) : List Byte := if n % 2 = 1 then [0] else []

theorem put_put (p : Packet) (a b : List Byte) : (p.put a).put b = p.put (a ++ b) := by
  unfold put
  rw [Mem.store_append, List.length_append, Nat.add_assoc]

theorem pad_opts_eq (p : Packet) : p.pad_opts = p.put (padding p.flen) := by
  unfold pad_opts padding
  split
  · rfl
  · unfold put
    rw [Mem.store_nil]
    rfl

theorem pad_opts_put (p : Packet) (a : List Byte) :
    (p.put a).pad_opts = p.put (a ++ padding (p.flen + a.length)) := by
  rw [pad_opts_eq, put_put]
  rfl

end Packet

namespace Dhcp

variable {s : Dhcp} {stack m : Mem Byte} {flen : ℕ}

/-! ## The reply -/

/-- The bytes that `sendReply` puts behind the header. -/
def replyBytes (s : Dhcp) (yiaddr siaddr : List Byte) : List Byte :=
  let bytes := DHCP_OPT_REQUEST ++ DHCP_OPT_PARAM_REQ ++ [12, BitVec.ofNat 8 s.hostname.length] ++
    s.hostname
  bytes ++ Packet.padding (OPTIONS + bytes.length) ++ [50, 4] ++ yiaddr ++ [54, 4] ++ siaddr ++
    [0xFF]

/-- The headers of a reply. -/
def replyHeader (s : Dhcp) (stack : Mem Byte) (yiaddr siaddr : List Byte) : Mem Byte :=
  ((s.initPacket stack).store CIADDR yiaddr).store SIADDR siaddr

/-- A frame is finalized. -/
def finalize (p : Packet) : Packet :=
  { p with frame := IPv4_finalize (UDP_finalize p.frame p.flen) p.flen }

theorem sendReply_val (s : Dhcp) (stack m : Mem Byte) :
    ∃ rest, (s.sendReply stack m).val = finalize (Packet.put
      ⟨s.replyHeader stack (m.load YIADDR 4) (m.load SIADDR 4), OPTIONS⟩
      (s.replyBytes (m.load YIADDR 4) (m.load SIADDR 4) ++ rest)) := by
  unfold sendReply
  simp only [Reading.val_bind, readBytes, Packet.put_put, Packet.pad_opts_put]
  exact ⟨_, rfl⟩

/-- The options of the reply. -/
def replyItems (s : Dhcp) (yiaddr siaddr : List Byte) (pads : List Item) : List Item :=
  [.option 53 [3], .pad, .option 55 [1, 3, 6, 42], .option 12 s.hostname] ++ pads ++
    [.option 50 yiaddr, .option 54 siaddr]

variable {yiaddr siaddr sid : List Byte} {pads : List Item}

theorem replyItems_wellFormed (hy : yiaddr.length = 4) (hs : siaddr.length = 4)
    (hpads : ∀ item ∈ pads, item = .pad) :
    ∀ item ∈ s.replyItems yiaddr siaddr pads, item.WellFormed := by
  have hhost := s.hostname_lt
  intro item hitem
  simp only [replyItems, List.mem_append, List.mem_cons, List.not_mem_nil, or_false] at hitem
  rcases hitem with ((rfl | rfl | rfl | rfl) | hpad) | rfl | rfl
  · exact ⟨by decide, by decide, by decide⟩
  · trivial
  · exact ⟨by decide, by decide, by decide⟩
  · exact ⟨by decide, by decide, by omega⟩
  · rw [hpads item hpad]
    trivial
  · exact ⟨by decide, by decide, by omega⟩
  · exact ⟨by decide, by decide, by omega⟩

/-- Pads have no values. -/
theorem values_replyItems (code : Byte) (hpads : ∀ item ∈ pads, item = .pad) :
    values code (s.replyItems yiaddr siaddr pads) =
      values code (s.replyItems yiaddr siaddr []) := by
  have hskip : ∀ items, values code (pads ++ items) = values code items := by
    intro items
    induction pads with
    | nil => rfl
    | cons item pads ih =>
        rw [hpads item List.mem_cons_self]
        exact ih fun item h => hpads item (List.mem_cons_of_mem _ h)
  unfold replyItems
  rw [List.append_assoc, List.append_assoc]
  simp only [List.cons_append, List.nil_append, values, hskip]

theorem replyBytes_eq (hy : yiaddr.length = 4) (hs : siaddr.length = 4) :
    ∃ pads, (∀ item ∈ pads, item = .pad) ∧
      s.replyBytes yiaddr siaddr = encode (s.replyItems yiaddr siaddr pads) ++ [END] := by
  have hpads : ∀ n, ∃ pads : List Item, (∀ item ∈ pads, item = .pad) ∧
      Packet.padding n = encode pads := by
    intro n
    unfold Packet.padding
    split
    · exact ⟨[.pad], by simp, rfl⟩
    · exact ⟨[], by simp, rfl⟩
  obtain ⟨pads, hall, hpadding⟩ := hpads (OPTIONS + (DHCP_OPT_REQUEST ++ DHCP_OPT_PARAM_REQ ++
    [12, BitVec.ofNat 8 s.hostname.length] ++ s.hostname).length)
  refine ⟨pads, hall, ?_⟩
  unfold replyBytes replyItems
  dsimp only
  rw [hpadding]
  simp [encode, Item.encode, hy, hs, DHCP_OPT_REQUEST, DHCP_OPT_PARAM_REQ, END]

/-! ## What a server reads in it -/

/-- A request of a transaction, for an address, at a server. -/
def Requests (p : Packet) (xid yiaddr serverId : List Byte) : Prop :=
  p.frame.load XID 4 = xid ∧ ∃ items rest, (∀ item ∈ items, item.WellFormed) ∧
    p.frame.load OPTIONS (p.flen - OPTIONS) = encode items ++ END :: rest ∧
    values 53 items = [[3]] ∧ values 50 items = [yiaddr] ∧ values 54 items = [serverId]

theorem finalize_load {p : Packet} {off n : ℕ} (h : FrameUdp4.DATA_OFFSET ≤ off) :
    (finalize p).frame.load off n = p.frame.load off n := by
  refine Mem.load_congr fun i hi _ => ?_
  have hdata : FrameUdp4.DATA_OFFSET ≤ i := h.trans hi
  -- the checksums are stored in front of the data
  show IPv4_finalize (UDP_finalize p.frame p.flen) p.flen i = p.frame i
  rw [IPv4_finalize_other (Or.inr ((by decide : Frame.ipSrc ≤ _).trans hdata)),
    UDP_finalize_other (Or.inr hdata)]

/-- The transaction in the header of a reply. -/
theorem replyHeader_XID (s : Dhcp) (stack : Mem Byte) :
    (s.replyHeader stack yiaddr siaddr).load XID 4 = le32 s.dhcpXID := by
  unfold replyHeader initPacket
  dsimp only
  rw [Mem.load_store_of_disjoint (Or.inl (by decide)),
    Mem.load_store_of_disjoint (Or.inl (by decide)),
    Mem.load_store_of_disjoint (Or.inl (by decide)),
    Mem.load_store_of_disjoint (Or.inl (by decide))]
  exact Mem.load_store_self _ XID (le32 s.dhcpXID)

theorem le32_address (b₀ b₁ b₂ b₃ : Byte) : le32 (address [b₀, b₁, b₂, b₃]) = [b₀, b₁, b₂, b₃] := by
  have hskip : ∀ {n w : ℕ} {x : BitVec n} {y : Byte} {start : ℕ}, 8 ≤ start →
      (x ++ y).extractLsb' start w = x.extractLsb' (start - 8) w :=
    fun h => BitVec.extractLsb'_append_eq_of_le h
  have h₀ : (b₃ ++ b₂ ++ b₁ ++ b₀).extractLsb' 0 8 = b₀ := BitVec.extractLsb'_append_eq_right
  have h₁ : (b₃ ++ b₂ ++ b₁ ++ b₀).extractLsb' 8 8 = b₁ :=
    (hskip (by decide)).trans BitVec.extractLsb'_append_eq_right
  have h₂ : (b₃ ++ b₂ ++ b₁ ++ b₀).extractLsb' 16 8 = b₂ :=
    ((hskip (by decide)).trans (hskip (by decide))).trans BitVec.extractLsb'_append_eq_right
  have h₃ : (b₃ ++ b₂ ++ b₁ ++ b₀).extractLsb' 24 8 = b₃ :=
    ((hskip (by decide)).trans (hskip (by decide))).trans BitVec.extractLsb'_append_eq_left
  show [_, _, _, _] = _
  rw [address, h₀, h₁, h₂, h₃]

/-- A frame that is accepted belongs to the transaction. -/
theorem xid_of_accepts (h : (s.accepts m flen).val = true) : m.load XID 4 = le32 s.dhcpXID := by
  obtain ⟨-, -, -, -, -, -, -, hxid⟩ := (accepts_iff s m flen).mp h
  rw [← hxid]
  exact (le32_address _ _ _ _).symm

/-- **The server that a reply names** is the next server of the offer. -/
theorem sendReply_requests_iff (haccept : (s.accepts m flen).val = true) (stack : Mem Byte) :
    Requests (s.sendReply stack m).val (m.load XID 4) (m.load YIADDR 4) sid ↔
      m.load SIADDR 4 = sid := by
  obtain ⟨rest, hreply⟩ := s.sendReply_val stack m
  obtain ⟨pads, hpads, hbytes⟩ := replyBytes_eq (s := s) (Mem.length_load m YIADDR 4)
    (Mem.length_load m SIADDR 4)
  rw [hreply, hbytes, List.append_assoc]
  generalize hheader : s.replyHeader stack (m.load YIADDR 4) (m.load SIADDR 4) = header
  generalize harea : encode (s.replyItems (m.load YIADDR 4) (m.load SIADDR 4) pads) ++
    ([END] ++ rest) = area
  have hxid : (finalize (Packet.put ⟨header, OPTIONS⟩ area)).frame.load XID 4 = m.load XID 4 := by
    have hfront : XID + 4 ≤ OPTIONS := by decide
    rw [finalize_load (by decide), Packet.put, Mem.load_store_of_disjoint (Or.inl hfront),
      ← hheader, replyHeader_XID, xid_of_accepts haccept]
  have hoptions : (finalize (Packet.put ⟨header, OPTIONS⟩ area)).frame.load OPTIONS
      ((finalize (Packet.put ⟨header, OPTIONS⟩ area)).flen - OPTIONS) = area := by
    rw [finalize_load (by decide)]
    show (header.store OPTIONS area).load OPTIONS (OPTIONS + area.length - OPTIONS) = area
    rw [Nat.add_sub_cancel_left, Mem.load_store_self]
  have hwf := replyItems_wellFormed (s := s) (Mem.length_load m YIADDR 4)
    (Mem.length_load m SIADDR 4) hpads
  have h54 : values 54 (s.replyItems (m.load YIADDR 4) (m.load SIADDR 4) pads) =
      [m.load SIADDR 4] := by
    rw [values_replyItems 54 hpads]
    rfl
  constructor
  · rintro ⟨-, items, rest', hitems, hload, -, -, hsid⟩
    -- the area can be read in one way only, so what is found in it are the items of the reply
    rw [hoptions, ← harea] at hload
    have hsame := encode_inj hwf hitems hload
    rw [← hsame, h54] at hsid
    exact (List.cons.inj hsid).1
  · rintro rfl
    refine ⟨hxid, _, rest, hwf, hoptions.trans harea.symm, ?_, ?_, h54⟩
    · rw [values_replyItems 53 hpads]
      rfl
    · rw [values_replyItems 50 hpads]
      rfl

/-! ## Offers -/

/-- An offer is answered by one frame. -/
theorem processFrame_offer (stack : Mem Byte) (haccept : (s.accepts m flen).val = true)
    (hoffer : (s.options m flen).val.map DhcpOptions.optMsgType = some 2) :
    (s.processFrame stack m flen).val =
      some ({ s with ipID := s.ipID + 1 }, [.transmit (s.sendReply stack m).val]) := by
  obtain ⟨opts, hopts, hmsg⟩ := Option.map_eq_some_iff.mp hoffer
  unfold processFrame
  rw [Reading.val_bind, haccept, Bool.not_true, if_neg Bool.false_ne_true, Reading.val_bind, hopts]
  dsimp only
  rw [if_pos hmsg]
  rfl

/-- **Which server is asked.** An offer that is accepted is answered by one frame; and where the
options that are read from the offer name a server, the frame is a request in the transaction of the
offer, for its address and for that server, if and only if the server is the next server of the
header. -/
theorem processFrame_requests_iff (s : Dhcp) (stack m : Mem Byte) (flen : ℕ)
    (haccept : (s.accepts m flen).val = true)
    (hoffer : (s.options m flen).val.map DhcpOptions.optMsgType = some 2) :
    ∃ s' p, (s.processFrame stack m flen).val = some (s', [.transmit p]) ∧
      ∀ items rest serverId, (∀ item ∈ items, item.WellFormed) →
        m.load OPTIONS (flen - OPTIONS) = encode items ++ rest →
        last 54 four items = some serverId →
        (Requests p (m.load XID 4) (m.load YIADDR 4) serverId ↔ m.load SIADDR 4 = serverId) :=
  ⟨_, _, processFrame_offer stack haccept hoffer,
    fun _ _ _ _ _ _ => sendReply_requests_iff haccept stack⟩

/-- An offer of the server 10.0.0.1. -/
def offerItems : List Item := [.option 53 [2], .option 54 [10, 0, 0, 1]]

theorem processFrame_requests_nextServer :
    let m := serverMem [10, 0, 0, 1] (encode offerItems ++ [END])
    let flen := OPTIONS + (encode offerItems ++ [END]).length
    ∃ s' p, (client.processFrame (fun _ => 0) m flen).val = some (s', [.transmit p]) ∧
      Requests p (le32 client.dhcpXID) [10, 0, 0, 9] [10, 0, 0, 1] := by
  intro m flen
  obtain ⟨s', p, hval, hiff⟩ := processFrame_requests_iff client (fun _ => 0) m flen
    (by decide +kernel) (by decide +kernel)
  exact ⟨s', p, hval, (hiff offerItems [END] [10, 0, 0, 1] (by decide +kernel) (by decide +kernel)
    (by decide +kernel)).mpr (by decide +kernel)⟩

/-- The server of the offer is not the next server, and the request names none. -/
theorem offer_not_requested :
    let m := serverMem [0, 0, 0, 0] (encode offerItems ++ [END])
    let flen := OPTIONS + (encode offerItems ++ [END]).length
    (client.accepts m flen).val = true ∧
      (client.options m flen).val.map DhcpOptions.optMsgType = some 2 ∧
      m.load OPTIONS (flen - OPTIONS) = encode offerItems ++ [END] ∧
      last 54 four offerItems = some [10, 0, 0, 1] ∧
      ∀ s' p, (client.processFrame (fun _ => 0) m flen).val = some (s', [.transmit p]) →
        ¬Requests p (m.load XID 4) (m.load YIADDR 4) [10, 0, 0, 1] := by
  intro m flen
  have haccept : (client.accepts m flen).val = true := by decide +kernel
  have hoffer : (client.options m flen).val.map DhcpOptions.optMsgType = some 2 := by
    decide +kernel
  refine ⟨haccept, hoffer, by decide +kernel, by decide +kernel, fun s' p hval hrequests => ?_⟩
  rw [processFrame_offer _ haccept hoffer] at hval
  obtain ⟨-, hcalls⟩ := Prod.mk.inj (Option.some.inj hval)
  obtain rfl := DhcpCall.transmit.inj (List.cons.inj hcalls).1
  have hsame := (sendReply_requests_iff haccept _).mp hrequests
  exact absurd hsame (by decide +kernel)

end Dhcp

end Gpsdo.Net
