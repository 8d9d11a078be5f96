import Gpsdo.Net.Answers
import Gpsdo.Net.Rx
import Gpsdo.Net.Udp

set_option autoImplicit false

/-! # Address resolution between stations (`lib/net/arp.cpp`)

Stations that run this code share a network that may lose, repeat, delay and reorder frames. A
request is answered by the station that has the address, with a frame of its own, and the answer
that a callback is given names a station that had the address.
-/

namespace Gpsdo.Net

/-! ## Frames -/

namespace Arp

def ARP_OP_REQUEST : BitVec 16 := 0x0100

def ARP_OP_REPLY : BitVec 16 := 0x0200

end Arp

/-- The bytes of a MAC address. -/
def macBytes (mac : BitVec 48) : List Byte :=
  [mac.extractLsb' 40 8, mac.extractLsb' 32 8, mac.extractLsb' 24 8, mac.extractLsb' 16 8,
    mac.extractLsb' 8 8, mac.extractLsb' 0 8]

/-- A machine with this code: its table, and the addresses that it has. -/
structure Station (κ : Type) where
  arp : Arp κ
  mac : BitVec 48
  ipAddress : BitVec 32

namespace Station

open Arp

variable {κ : Type}

/-- `makeArpIp4`: the frame behind the addresses of the header. -/
def makeArpIp4 (s : Station κ) (op : BitVec 16) (macTrg : BitVec 48) (ipTrg : BitVec 32) :
    List Byte :=
  le16 ETHTYPE_ARP ++ le16 0x0100 ++ le16 ETHTYPE_IP4 ++ [6, 4] ++ le16 op ++ macBytes s.mac ++
    le32 s.ipAddress ++ macBytes macTrg ++ le32 ipTrg ++ List.replicate 18 0

/-- `network::transmit`: the MAC puts its own address into the header. -/
def transmit (s : Station κ) (macDst : BitVec 48) (frame : List Byte) : List Byte :=
  macBytes macDst ++ macBytes s.mac ++ frame

/-- The frame of `ARP_request` -/
def requestFrame (s : Station κ) (remoteAddress : BitVec 32) : List Byte :=
  s.transmit 0xFFFFFFFFFFFF (s.makeArpIp4 ARP_OP_REQUEST 0 remoteAddress)

/-- `arpAnnounce` -/
def arpAnnounce (s : Station κ) : List (List Byte) :=
  if s.ipAddress = 0 then [] else [s.requestFrame s.ipAddress]

/-- The answer of `ARP_process` to a request. -/
def answer (s : Station κ) (frame : List Byte) : List (List Byte) :=
  if frame.length ≠ ARP_FRAME_LEN then []
  else if loadWord16 frame 14 ≠ 0x0100 then []
  else if loadWord16 frame 16 ≠ ETHTYPE_IP4 then []
  else if frame.getD 18 0 ≠ 6 then []
  else if frame.getD 19 0 ≠ 4 then []
  else if loadWord16 frame 20 = ARP_OP_REQUEST then
    if s.ipAddress ≠ 0 then
      if s.ipAddress = loadWord32 frame 38 then
        [s.transmit (loadMAC frame 6)
          (s.makeArpIp4 ARP_OP_REPLY (loadMAC frame 22) (loadWord32 frame 28))]
      else []
    else []
  else []

end Station

/-! ## The network -/

/-- The stations, and the frames that were transmitted: any of them may still arrive. -/
structure Lan (ι κ : Type) where
  stations : ι → Station κ
  frames : List (List Byte)

/-- What happens at a station. -/
inductive LanAction (κ : Type)
  | request (remoteAddress : BitVec 32) (callback : κ)
  /-- `ARP_process` for a frame that arrives. -/
  | deliver (frame : List Byte)
  | run
  | turn
  | ret
  | elapse (d : ℕ)
  /-- The part of `arpRun` behind its loop. -/
  | announce
  /-- A lease gives a station its address. -/
  | setAddress (ipAddress : BitVec 32)
  deriving DecidableEq

namespace Lan

variable {ι κ : Type} [DecidableEq ι]

/-- What happens to the table of the station. -/
def arpAction (s : Station κ) : LanAction κ → Option (ArpAction κ)
  | .request remoteAddress callback => some (.request remoteAddress callback)
  | .deliver frame => some (.process frame s.mac)
  | .run => some .run
  | .turn => some .turn
  | .ret => some .ret
  | .elapse d => some (.elapse d)
  | .announce => none
  | .setAddress _ => none

/-- The frames that a station transmits. -/
def transmits (s : Station κ) : LanAction κ → List (List Byte)
  | .request remoteAddress callback =>
      if (s.arp.ARP_request remoteAddress callback).2 = 0 then [s.requestFrame remoteAddress]
      else []
  | .deliver frame => s.answer frame
  | .announce => s.arpAnnounce
  | _ => []

/-- The station after a step of its own. -/
def next (s : Station κ) (a : LanAction κ) : Option (Station κ) :=
  match arpAction s a with
  | some b => (s.arp.step b).map fun arp => { s with arp := arp }
  | none =>
      match a with
      | .setAddress ipAddress => some { s with ipAddress := ipAddress }
      | _ => some s

/-- A frame that arrives was transmitted. -/
def arrives (frames : List (List Byte)) : LanAction κ → Bool
  | .deliver frame => decide (frame ∈ frames)
  | _ => true

def step (s : Lan ι κ) (a : ι × LanAction κ) : Option (Lan ι κ) :=
  if arrives s.frames a.2 then
    (next (s.stations a.1) a.2).map fun station =>
      { stations := Function.update s.stations a.1 station
        frames := s.frames ++ transmits (s.stations a.1) a.2 }
  else none

end Lan

/-! ## What a frame says -/

/-- The fields of a frame that a station made. -/
structure ArpFields (frame : List Byte) (macDst macSrc : BitVec 48) (op : BitVec 16)
    (SHA : BitVec 48) (SPA : BitVec 32) (TPA : BitVec 32) : Prop where
  length : frame.length = Arp.ARP_FRAME_LEN
  HTYPE : loadWord16 frame 14 = 0x0100
  PTYPE : loadWord16 frame 16 = ETHTYPE_IP4
  HLEN : frame.getD 18 0 = 6
  PLEN : frame.getD 19 0 = 4
  OPER : loadWord16 frame 20 = op
  macDst : loadMAC frame 0 = macDst
  macSrc : loadMAC frame 6 = macSrc
  SHA : loadMAC frame 22 = SHA
  SPA : loadWord32 frame 28 = SPA
  TPA : loadWord32 frame 38 = TPA

theorem le16_whole (v : BitVec 16) : v.extractLsb' 8 8 ++ v.extractLsb' 0 8 = v :=
  BitVec.extractLsb'_append_extractLsb' (w := 8)

theorem le32_whole (v : BitVec 32) :
    v.extractLsb' 24 8 ++ v.extractLsb' 16 8 ++ v.extractLsb' 8 8 ++ v.extractLsb' 0 8 = v := by
  iterate 3 rw [BitVec.extractLsb'_append_extractLsb'_eq_extractLsb' (by decide)]
  exact BitVec.extractLsb'_eq_self

theorem mac_whole (v : BitVec 48) :
    v.extractLsb' 40 8 ++ v.extractLsb' 32 8 ++ v.extractLsb' 24 8 ++ v.extractLsb' 16 8 ++
      v.extractLsb' 8 8 ++ v.extractLsb' 0 8 = v := by
  iterate 5 rw [BitVec.extractLsb'_append_extractLsb'_eq_extractLsb' (by decide)]
  exact BitVec.extractLsb'_eq_self

namespace Station

open Arp

variable {κ : Type} (s : Station κ)

theorem fields (macDst : BitVec 48) (op : BitVec 16) (macTrg : BitVec 48) (ipTrg : BitVec 32) :
    ArpFields (s.transmit macDst (s.makeArpIp4 op macTrg ipTrg)) macDst s.mac op s.mac s.ipAddress
      ipTrg where
  length := rfl
  HTYPE := le16_whole 0x0100
  PTYPE := le16_whole ETHTYPE_IP4
  HLEN := rfl
  PLEN := rfl
  OPER := le16_whole op
  macDst := mac_whole macDst
  macSrc := mac_whole s.mac
  SHA := mac_whole s.mac
  SPA := le32_whole s.ipAddress
  TPA := le32_whole ipTrg

/-- A frame that a station made is a reply to the machine with the address `macDst`, or none. -/
theorem arpReply_of_fields {frame : List Byte} {macDst macSrc SHA mac : BitVec 48} {op : BitVec 16}
    {SPA TPA : BitVec 32} (hf : ArpFields frame macDst macSrc op SHA SPA TPA) :
    arpReply frame mac =
      if op = ARP_OP_REPLY ∧ macDst = mac ∧ SPA ≠ 0 then some (SPA, SHA) else none := by
  unfold arpReply
  rw [hf.HTYPE, hf.PTYPE, hf.HLEN, hf.PLEN, hf.OPER, hf.macDst, hf.SPA, hf.SHA,
    if_neg (not_not.mpr hf.length), if_neg (by decide), if_neg (by decide), if_neg (by decide),
    if_neg (by decide)]
  have hcode : ARP_OP_REPLY = 0x0200 := rfl
  rw [hcode]
  by_cases hop : op = 0x0200
  · by_cases hdst : macDst = mac
    · by_cases h0 : SPA = 0
      · rw [if_neg (not_not.mpr hop), if_neg (not_not.mpr hdst), if_pos h0,
          if_neg fun h => h.2.2 h0]
      · rw [if_neg (not_not.mpr hop), if_neg (not_not.mpr hdst), if_neg h0,
          if_pos ⟨hop, hdst, h0⟩]
    · rw [if_neg (not_not.mpr hop), if_pos hdst, if_neg fun h => hdst h.2.1]
  · rw [if_pos hop, if_neg fun h => hop h.1]

/-- What a station answers to a frame that a station made. -/
theorem answer_of_fields {frame : List Byte} {macDst macSrc SHA : BitVec 48} {op : BitVec 16}
    {SPA TPA : BitVec 32} (hf : ArpFields frame macDst macSrc op SHA SPA TPA) :
    s.answer frame = if op = ARP_OP_REQUEST ∧ s.ipAddress ≠ 0 ∧ s.ipAddress = TPA then
      [s.transmit macSrc (s.makeArpIp4 ARP_OP_REPLY SHA SPA)] else [] := by
  unfold answer
  rw [hf.HTYPE, hf.PTYPE, hf.HLEN, hf.PLEN, hf.OPER, hf.macSrc, hf.SPA, hf.SHA, hf.TPA,
    if_neg (not_not.mpr hf.length), if_neg (by decide), if_neg (by decide), if_neg (by decide),
    if_neg (by decide)]
  by_cases hop : op = ARP_OP_REQUEST
  · by_cases h0 : s.ipAddress = 0
    · rw [if_pos hop, if_neg (not_not.mpr h0), if_neg fun h => h.2.1 h0]
    · by_cases hTPA : s.ipAddress = TPA
      · rw [if_pos hop, if_pos h0, if_pos hTPA, if_pos ⟨hop, h0, hTPA⟩]
      · rw [if_pos hop, if_pos h0, if_neg hTPA, if_neg fun h => hTPA h.2.2]
  · rw [if_neg hop, if_neg fun h => hop h.1]

/-- **The handshake.** A request is answered by the station that has the address and by no other
one, and it takes the answer. -/
theorem answer_requestFrame (t : Station κ) {remoteAddress : BitVec 32} (h0 : remoteAddress ≠ 0) :
    (t.ipAddress ≠ remoteAddress → t.answer (s.requestFrame remoteAddress) = []) ∧
    (t.ipAddress = remoteAddress → ∃ frame, t.answer (s.requestFrame remoteAddress) = [frame] ∧
      arpReply frame s.mac = some (remoteAddress, t.mac)) := by
  have hanswer := t.answer_of_fields (s.fields 0xFFFFFFFFFFFF ARP_OP_REQUEST 0 remoteAddress)
  refine ⟨fun hne => ?_, fun heq =>
    ⟨t.transmit s.mac (t.makeArpIp4 ARP_OP_REPLY s.mac s.ipAddress), ?_, ?_⟩⟩
  · rw [requestFrame, hanswer, if_neg fun h => hne h.2.2]
  · rw [requestFrame, hanswer, if_pos ⟨rfl, by rwa [heq], heq⟩]
  · rw [arpReply_of_fields (t.fields _ _ _ _), if_pos ⟨rfl, rfl, by rwa [heq]⟩, heq]

/-- A frame that a station made. -/
def Made (frame : List Byte) : Prop := ∃ macDst op macTrg ipTrg,
  frame = s.transmit macDst (s.makeArpIp4 op macTrg ipTrg)

theorem Made.says {s : Station κ} {frame : List Byte} {mac SHA : BitVec 48} {SPA : BitVec 32}
    (hmade : s.Made frame) (hreply : arpReply frame mac = some (SPA, SHA)) :
    SPA = s.ipAddress ∧ SHA = s.mac := by
  obtain ⟨macDst, op, macTrg, ipTrg, rfl⟩ := hmade
  rw [arpReply_of_fields (s.fields _ _ _ _)] at hreply
  obtain ⟨-, hsame⟩ := Option.ite_none_right_eq_some.mp hreply
  obtain ⟨hSPA, hSHA⟩ := Prod.mk.inj (Option.some.inj hsame)
  exact ⟨hSPA.symm, hSHA.symm⟩

theorem made_of_transmits {s : Station κ} {a : LanAction κ} {frame : List Byte}
    (h : frame ∈ Lan.transmits s a) : s.Made frame := by
  have hsingle : ∀ {f : List Byte}, s.Made f → frame ∈ [f] → s.Made frame := by
    intro f hf hmem
    rwa [List.mem_singleton.mp hmem]
  cases a with
  | request remoteAddress callback =>
      dsimp only [Lan.transmits] at h
      split at h
      · exact hsingle ⟨_, _, _, _, rfl⟩ h
      · cases h
  | deliver f =>
      dsimp only [Lan.transmits] at h
      unfold answer at h
      split_ifs at h <;> first | exact hsingle ⟨_, _, _, _, rfl⟩ h | cases h
  | announce =>
      dsimp only [Lan.transmits] at h
      unfold arpAnnounce at h
      split at h
      · cases h
      · exact hsingle ⟨_, _, _, _, rfl⟩ h
  | run => cases h
  | turn => cases h
  | ret => cases h
  | elapse d => cases h
  | setAddress ipAddress => cases h

end Station

/-! ## What holds in every run -/

abbrev LanHistory (ι κ : Type) := List (Lan ι κ × (ι × LanAction κ))

namespace Lan

variable {ι κ : Type} [DecidableEq ι] {s₀ s s' : Lan ι κ} {h : LanHistory ι κ}

/-- The network at the start: no requests, and no frames. -/
structure Boot [Inhabited κ] (s : Lan ι κ) : Prop where
  arp : ∀ i, (s.stations i).arp = Arp.init
  frames : s.frames = []

/-- What happened to the table of a station. -/
def arpHistory (i : ι) (h : LanHistory ι κ) : ArpHistory κ :=
  h.filterMap fun p => (if p.2.1 = i then arpAction (p.1.stations i) p.2.2 else none).map
    ((p.1.stations i).arp, ·)

theorem step_eq_some {i : ι} {a : LanAction κ} : s.step (i, a) = some s' ↔
    arrives s.frames a = true ∧ ∃ station, next (s.stations i) a = some station ∧
      s' = ⟨Function.update s.stations i station, s.frames ++ transmits (s.stations i) a⟩ := by
  unfold step
  rw [Option.ite_none_right_eq_some, Option.map_eq_some_iff]
  simp only [eq_comm]

theorem next_mac {t t' : Station κ} {a : LanAction κ} (hn : next t a = some t') :
    t'.mac = t.mac := by
  unfold next at hn
  cases harp : arpAction t a with
  | some b =>
      rw [harp] at hn
      obtain ⟨arp, -, rfl⟩ := Option.map_eq_some_iff.mp hn
      rfl
  | none =>
      rw [harp] at hn
      cases a with
      | setAddress ipAddress =>
          obtain rfl := Option.some.inj hn
          rfl
      | announce =>
          obtain rfl := Option.some.inj hn
          rfl
      | _ => cases harp

/-- The table of a station takes the steps of the machine of the table. -/
theorem next_arp {t t' : Station κ} {a : LanAction κ} (hn : next t a = some t') :
    (arpAction t a = none ∧ t'.arp = t.arp) ∨
      ∃ b, arpAction t a = some b ∧ t.arp.step b = some t'.arp := by
  unfold next at hn
  cases harp : arpAction t a with
  | some b =>
      rw [harp] at hn
      obtain ⟨arp, hs, rfl⟩ := Option.map_eq_some_iff.mp hn
      exact Or.inr ⟨b, rfl, hs⟩
  | none =>
      rw [harp] at hn
      cases a with
      | setAddress ipAddress =>
          obtain rfl := Option.some.inj hn
          exact Or.inl ⟨rfl, rfl⟩
      | announce =>
          obtain rfl := Option.some.inj hn
          exact Or.inl ⟨rfl, rfl⟩
      | _ => cases harp

/-- A station runs as if it were alone. -/
theorem run_arp (hrun : Run step s₀ h s) (i : ι) :
    Run Arp.step (s₀.stations i).arp (arpHistory i h) (s.stations i).arp := by
  refine hrun.project (f := fun s => (s.stations i).arp)
    (g := fun s a => if a.1 = i then arpAction (s.stations i) a.2 else none) ?_
  rintro s ⟨j, a⟩ s' hs
  obtain ⟨-, station, hn, rfl⟩ := step_eq_some.mp hs
  by_cases hj : j = i
  · subst hj
    dsimp only
    rw [if_pos rfl, Function.update_self]
    exact next_arp hn
  · dsimp only
    rw [if_neg hj, Function.update_of_ne (Ne.symm hj)]
    exact Or.inl ⟨rfl, rfl⟩

/-- Who made the frames. -/
structure Inv (s₀ : Lan ι κ) (h : LanHistory ι κ) (s : Lan ι κ) : Prop where
  mac : ∀ i, (s.stations i).mac = (s₀.stations i).mac
  macs : ∀ p ∈ h, ∀ i, (p.1.stations i).mac = (s₀.stations i).mac
  frames : ∀ frame ∈ s.frames, ∃ p ∈ h, ∃ i, (p.1.stations i).Made frame
  delivered : ∀ p ∈ h, ∀ frame, p.2.2 = .deliver frame → frame ∈ s.frames

theorem Inv.step (hi : Inv s₀ h s) {i : ι} {a : LanAction κ} (hs : s.step (i, a) = some s') :
    Inv s₀ ((s, (i, a)) :: h) s' := by
  obtain ⟨harrives, station, hn, rfl⟩ := step_eq_some.mp hs
  refine ⟨fun j => ?_, List.forall_mem_cons.mpr ⟨hi.mac, hi.macs⟩, fun frame hframe => ?_,
    fun p hp frame hdeliver => ?_⟩
  · by_cases hj : j = i
    · subst hj
      dsimp only
      rw [Function.update_self, next_mac hn]
      exact hi.mac j
    · dsimp only
      rw [Function.update_of_ne hj]
      exact hi.mac j
  · rcases List.mem_append.mp hframe with hold | hnew
    · obtain ⟨p, hp, hmade⟩ := hi.frames frame hold
      exact ⟨p, List.mem_cons_of_mem _ hp, hmade⟩
    · exact ⟨_, List.mem_cons_self, i, Station.made_of_transmits hnew⟩
  · refine List.mem_append_left _ ?_
    rcases List.mem_cons.mp hp with rfl | hp
    · obtain rfl : a = .deliver frame := hdeliver
      exact of_decide_eq_true harrives
    · exact hi.delivered p hp frame hdeliver

theorem inv_of_run [Inhabited κ] (hboot : s₀.Boot) (hrun : Run Lan.step s₀ h s) : Inv s₀ h s := by
  refine hrun.invariant (I := Inv s₀) ⟨fun _ => rfl, ?_, ?_, ?_⟩ fun h s a s' hi hs => hi.step hs
  · exact fun _ hmem => absurd hmem List.not_mem_nil
  · rw [hboot.frames]
    exact fun _ hmem => absurd hmem List.not_mem_nil
  · exact fun _ hmem => absurd hmem List.not_mem_nil

/-- A station has the MAC address, and it had the address. -/
def Had (h : LanHistory ι κ) (s : Lan ι κ) (address : BitVec 32) (mac : BitVec 48) : Prop :=
  ∃ i, (s.stations i).mac = mac ∧ ∃ p ∈ h, (p.1.stations i).ipAddress = address

/-- A reply that was received is true. -/
theorem Inv.had (hi : Inv s₀ h s) {i : ι} {SPA : BitVec 32} {SHA : BitVec 48}
    (hr : ArpReceived (arpHistory i h) SPA SHA) : Had h s SPA SHA := by
  obtain ⟨t, frame, mac, hmem, hreply⟩ := hr
  obtain ⟨p, hp, hmap⟩ := List.mem_filterMap.mp hmem
  obtain ⟨b, hb, heq⟩ := Option.map_eq_some_iff.mp hmap
  obtain ⟨-, rfl⟩ := Prod.mk.inj heq
  obtain ⟨-, haction⟩ := Option.ite_none_right_eq_some.mp hb
  have hdeliver : p.2.2 = .deliver frame := by
    cases ha : p.2.2 with
    | deliver f =>
        rw [ha] at haction
        obtain ⟨rfl, -⟩ := ArpAction.process.inj (Option.some.inj haction)
        rfl
    | _ =>
        rw [ha] at haction
        cases haction
  obtain ⟨q, hq, j, hmade⟩ := hi.frames frame (hi.delivered p hp frame hdeliver)
  obtain ⟨rfl, rfl⟩ := hmade.says hreply
  exact ⟨j, (hi.mac j).trans (hi.macs q hq j).symm, q, hq, rfl⟩

/-- A station, as it was at a time of the run. -/
def Was (h : LanHistory ι κ) (s : Lan ι κ) (i : ι) (t : Station κ) : Prop :=
  t = s.stations i ∨ ∃ p ∈ h, t = p.1.stations i

omit [DecidableEq ι] in
theorem Inv.was (hi : Inv s₀ h s) {i : ι} {t : Station κ} (ht : Was h s i t) :
    t.mac = (s.stations i).mac := by
  rcases ht with rfl | ⟨p, hp, rfl⟩
  · rfl
  · rw [hi.macs p hp, hi.mac]

/-- **Addresses are resolved.** Whatever the network does to the frames, every request of a station
is answered once, by the address of a station that had the address, or by the null address after it
has expired. A request that a station made at any time of the run, before it got another address
too, is answered by the station with the address that is asked for, with a reply that the station
that asked takes, and no other station answers. -/
theorem resolves_of_run [Inhabited κ] (hboot : s₀.Boot) (hrun : Run step s₀ h s) (i : ι) :
    ArpLaw (arpHistory i h) (s.stations i).arp ∧
    (∀ a ∈ arpAnswers (arpHistory i h), ∃ r, (arpAccepted (arpHistory i h))[a.ticket]? = some r ∧
      a.callback = r.callback ∧ a.remoteAddress = r.remoteAddress ∧
        (Had h s r.remoteAddress a.scan.mac ∨
          (a.scan.mac = 0 ∧ r.time + Arp.REQUEST_EXPIRE < a.time))) ∧
    ∀ t, Was h s i t → ∀ j remoteAddress, remoteAddress ≠ 0 →
      ((s.stations j).ipAddress ≠ remoteAddress →
        transmits (s.stations j) (.deliver (t.requestFrame remoteAddress)) = []) ∧
      ((s.stations j).ipAddress = remoteAddress → ∃ frame,
        transmits (s.stations j) (.deliver (t.requestFrame remoteAddress)) = [frame] ∧
          arpReply frame (s.stations i).mac = some (remoteAddress, (s.stations j).mac)) := by
  have hi := inv_of_run hboot hrun
  have harp := run_arp hrun i
  rw [hboot.arp i] at harp
  obtain ⟨hledger, htiming⟩ := ledger_of_run harp
  have hlaw := hledger.law htiming
  refine ⟨hlaw, fun a ha => ?_, fun t ht j remoteAddress h0 => ?_⟩
  · obtain ⟨r, hr, hcallback, haddress, hanswer⟩ := hlaw.sound a ha
    exact ⟨r, hr, hcallback, haddress, hanswer.imp_left hi.had⟩
  · rw [← hi.was ht]
    exact t.answer_requestFrame (s.stations j) h0

/-! ## Two stations -/

/-- 192.168.1.2 at 02:00:00:00:00:01, and 192.168.1.1 at 02:00:00:00:00:09. -/
def twoStations : Lan Bool ℕ where
  stations i := ⟨Arp.init, if i then 0x020000000009 else 0x020000000001,
    if i then 0x0101a8c0 else 0x0201a8c0⟩
  frames := []

/-- The first station asks for the second one, whose answer arrives twice. -/
def askTwice : List (Bool × LanAction ℕ) :=
  let asked := (twoStations.stations false).requestFrame 0x0101a8c0
  let answered := (twoStations.stations true).answer asked
  [(false, .request 0x0101a8c0 7), (true, .deliver asked), (false, .deliver (answered.headD [])),
    (false, .turn), (false, .ret)] ++ List.replicate 16 (false, .turn) ++
    [(false, .deliver (answered.headD []))] ++ List.replicate 17 (false, .turn)

theorem resolves_of_run_askTwice : ∃ h s, Run step twoStations h s ∧
    ArpLaw (arpHistory false h) (s.stations false).arp ∧
    arpAnswers (arpHistory false h) =
      [⟨0, 7, 0x0101a8c0, .reply 0x0101a8c0 0x020000000009, 0⟩] := by
  obtain ⟨h, s, hrun, hp⟩ := @exists_run_of_replay _ _ step twoStations askTwice
    (fun h _ => decide (arpAnswers (arpHistory false h) =
      [⟨0, 7, 0x0101a8c0, .reply 0x0101a8c0 0x020000000009, 0⟩])) (by decide +kernel)
  exact ⟨h, s, hrun, (resolves_of_run ⟨fun _ => rfl, rfl⟩ hrun false).1, of_decide_eq_true hp⟩

end Lan

end Gpsdo.Net
