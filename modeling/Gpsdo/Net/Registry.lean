import Gpsdo.Basic.Mealy
import Gpsdo.Basic.Slots
import Gpsdo.Net.Rx
import Gpsdo.Net.Udp
import Mathlib.Data.Set.Card

set_option autoImplicit false

/-! # Ports and their callbacks (`lib/net/udp.cpp`)

`UDP_register` and `UDP_deregister` keep a table of sixteen slots, in which the port 0 marks an
empty slot. A frame that `processFrameRx` hands on goes through the tables of `net.cpp`, `ip.cpp`
and `udp.cpp` to the callback of its port. All of this together is a map from ports to callbacks
that has room for sixteen.
-/

namespace Gpsdo.Net

/-! ## Data -/

/-- An entry of the registry of `udp.cpp`. -/
structure UdpEntry (κ : Type) where
  port : BitVec 16
  callback : Option κ
  deriving DecidableEq, Repr

abbrev UDP_SLOTS : ℕ := 16

/-- The registry of `udp.cpp`. -/
abbrev UdpTable (κ : Type) := Fin UDP_SLOTS → UdpEntry κ

/-- The functions of the registry of `ip.cpp`. -/
inductive IpHandler
  | ICMP_process
  | UDP_process
  deriving DecidableEq, Repr

def ipRegistry : List (Byte × IpHandler) :=
  [(IP_PROTO_ICMP, .ICMP_process), (IP_PROTO_UDP, .UDP_process)]

namespace UdpTable

variable {κ : Type} [DecidableEq κ]

/-- The static memory. -/
def init : UdpTable κ := fun _ => ⟨0, none⟩

/-! ## The code -/

/-- The first entry with a port. -/
def find (s : UdpTable κ) (port : BitVec 16) : Option (Fin UDP_SLOTS) :=
  (List.finRange UDP_SLOTS).find? fun i => (s i).port == port

def UDP_register (s : UdpTable κ) (port : BitVec 16) (callback : κ) : UdpTable κ × Int :=
  match s.find port with
  | some i => (s, if (s i).callback = some callback then 0 else -1)
  | none =>
      match s.find 0 with
      | some i => (Function.update s i ⟨port, some callback⟩, 0)
      | none => (s, -2)

def UDP_deregister (s : UdpTable κ) (port : BitVec 16) : UdpTable κ × Int :=
  match s.find port with
  | some i => (Function.update s i ⟨0, none⟩, 0)
  | none => (s, -1)

/-- `UDP_process`: the callback that is called. -/
def UDP_process (s : UdpTable κ) (frame : List Byte) : Option κ :=
  let port := frame.getD 36 0 ++ frame.getD 37 0
  if port = 0 then none
  else
    match s.find port with
    | some i => (s i).callback
    | none => none

end UdpTable

/-- `IPv4_process`: the handler that is called. -/
def IPv4_process (frame : List Byte) (size : ℕ) : Option IpHandler :=
  if size < 60 then none
  else if (frame.getD 14 0).extractLsb' 4 4 ≠ 4 then none
  else if (frame.getD 14 0).extractLsb' 0 4 ≠ 5 then none
  else ipRegistry.lookup (frame.getD 23 0)

namespace UdpTable

variable {κ : Type} [DecidableEq κ]

/-- What `processFrameRx` makes of a frame, down to the callback of a port. -/
def deliver (s : UdpTable κ) (frame : List Byte) (rxTime : BitVec 32 × BitVec 32) : Option κ :=
  match dispatch frame frame.length rxTime with
  | some ⟨.IPv4_process, frame, size, _⟩ =>
      match IPv4_process frame size with
      | some .UDP_process => s.UDP_process frame
      | _ => none
  | _ => none

end UdpTable

/-! ## What it is for -/

/-- A map from ports to callbacks. -/
abbrev Services (κ : Type) := BitVec 16 → Option κ

/-- A datagram for a port: the frame is from one station, has a header of IP without options and is
not too short. -/
structure Datagram (frame : List Byte) (port : BitVec 16) : Prop where
  source : (frame.getD 6 0).getLsbD 0 = false
  ethType : frame.getD 12 0 = 0x08 ∧ frame.getD 13 0 = 0x00
  size : 60 ≤ frame.length
  head : frame.getD 14 0 = 0x45
  proto : frame.getD 23 0 = 17
  portDst : frame.getD 36 0 ++ frame.getD 37 0 = port
  ne_zero : port ≠ 0

theorem datagram_iff {frame : List Byte} {port : BitVec 16} : Datagram frame port ↔
    ((frame.getD 6 0).getLsbD 0 = false ∧ frame.getD 12 0 = 0x08 ∧ frame.getD 13 0 = 0x00) ∧
      (60 ≤ frame.length ∧ frame.getD 14 0 = 0x45 ∧ frame.getD 23 0 = 17) ∧
      frame.getD 36 0 ++ frame.getD 37 0 = port ∧ port ≠ 0 :=
  ⟨fun h => ⟨⟨h.source, h.ethType⟩, ⟨h.size, h.head, h.proto⟩, h.portDst, h.ne_zero⟩,
    fun h => ⟨h.1.1, h.1.2, h.2.1.1, h.2.1.2.1, h.2.1.2.2, h.2.2.1, h.2.2.2⟩⟩

instance (frame : List Byte) (port : BitVec 16) : Decidable (Datagram frame port) :=
  decidable_of_iff _ datagram_iff.symm

/-! ## The machine -/

/-- A call of the two functions, or a frame with its time. -/
inductive UdpOp (κ : Type)
  | register (port : BitVec 16) (callback : κ)
  | deregister (port : BitVec 16)
  | frame (frame : List Byte) (rxTime : BitVec 32 × BitVec 32)

/-- What a function returns, or the callback that is called. -/
inductive UdpResult (κ : Type)
  | code (code : Int)
  | call (callback : Option κ)
  deriving DecidableEq, Repr

def UdpTable.exec {κ : Type} [DecidableEq κ] (s : UdpTable κ) :
    UdpOp κ → UdpTable κ × UdpResult κ
  | .register port callback =>
      ((s.UDP_register port callback).1, .code (s.UDP_register port callback).2)
  | .deregister port => ((s.UDP_deregister port).1, .code (s.UDP_deregister port).2)
  | .frame frame rxTime => (s, .call (s.deliver frame rxTime))

namespace Services

variable {κ : Type} [DecidableEq κ]

/-- There are as many services as there can be. -/
def Full (m : Services κ) : Prop := UDP_SLOTS ≤ {port | m port ≠ none}.ncard

open Classical in
/-- What the operations are for. The port 0 is that of no service. -/
noncomputable def exec (m : Services κ) : UdpOp κ → Services κ × UdpResult κ
  | .register port callback =>
      match m port with
      | some other => (m, .code (if other = callback then 0 else -1))
      | none =>
          if m.Full then (m, .code (-2))
          else if port = 0 then (m, .code (-1))
          else (Function.update m port (some callback), .code 0)
  | .deregister port =>
      match m port with
      | some _ => (Function.update m port none, .code 0)
      | none => (m, .code (if port = 0 ∧ ¬m.Full then 0 else -1))
  | .frame frame _ =>
      (m, .call (if Datagram frame (frame.getD 36 0 ++ frame.getD 37 0) then
        m (frame.getD 36 0 ++ frame.getD 37 0) else none))

end Services

/-! ## A frame -/

section

variable {κ : Type} {s : UdpTable κ} {m : Services κ}

theorem registry_lookup (e : BitVec 16) : registry.lookup e =
    if e = ETHTYPE_ARP then some .ARP_process
    else if e = ETHTYPE_PTP then some .PTP_process
    else if e = ETHTYPE_IP4 then some .IPv4_process
    else none := by
  simp only [registry, List.lookup_cons, List.lookup_nil]
  by_cases hARP : e = ETHTYPE_ARP
  · simp [hARP]
  by_cases hPTP : e = ETHTYPE_PTP
  · simp [hPTP, ETHTYPE_ARP, ETHTYPE_PTP]
  by_cases hIP4 : e = ETHTYPE_IP4
  · simp [hIP4, ETHTYPE_ARP, ETHTYPE_PTP, ETHTYPE_IP4]
  · simp [beq_false_of_ne hARP, beq_false_of_ne hPTP, beq_false_of_ne hIP4, hARP, hPTP, hIP4]

theorem ethType_eq_IP4 (frame : List Byte) : ethType frame = ETHTYPE_IP4 ↔
    frame.getD 12 0 = 0x08 ∧ frame.getD 13 0 = 0x00 := by
  unfold ethType ETHTYPE_IP4
  generalize frame.getD 12 0 = low
  generalize frame.getD 13 0 = high
  rw [← BitVec.toNat_inj, BitVec.toNat_append, ← Nat.shiftLeft_add_eq_or_of_lt low.isLt,
    Nat.shiftLeft_eq]
  bv_omega

theorem ipRegistry_lookup (proto : Byte) :
    ipRegistry.lookup proto = some .UDP_process ↔ proto = 17 := by
  revert proto
  decide +kernel

theorem head_eq (head : Byte) :
    head.extractLsb' 4 4 = 4 ∧ head.extractLsb' 0 4 = 5 ↔ head = 0x45 := by
  revert head
  decide +kernel

theorem IPv4_process_eq (frame : List Byte) (size : ℕ) :
    IPv4_process frame size = some .UDP_process ↔
      60 ≤ size ∧ frame.getD 14 0 = 0x45 ∧ frame.getD 23 0 = 17 := by
  rw [← head_eq, ← ipRegistry_lookup]
  unfold IPv4_process
  by_cases hsize : size < 60
  · simp [hsize]
  by_cases hver : (frame.getD 14 0).extractLsb' 4 4 = 4
  · by_cases hihl : (frame.getD 14 0).extractLsb' 0 4 = 5
    · rw [if_neg hsize, if_neg (not_not.mpr hver), if_neg (not_not.mpr hihl)]
      simp only [not_lt.mp hsize, hver, hihl, true_and]
    · rw [if_neg hsize, if_neg (not_not.mpr hver), if_pos hihl]
      simp only [hihl, and_false, false_and, reduceCtorEq]
  · rw [if_neg hsize, if_pos hver]
    simp only [hver, false_and, and_false, reduceCtorEq]

/-- A frame comes to the callback of a port exactly if it is a datagram for that port. -/
theorem UdpTable.deliver_eq (frame : List Byte) (rxTime : BitVec 32 × BitVec 32) :
    s.deliver frame rxTime =
      if Datagram frame (frame.getD 36 0 ++ frame.getD 37 0) then
        (s.find (frame.getD 36 0 ++ frame.getD 37 0)).bind fun i => (s i).callback
      else none := by
  unfold deliver dispatch
  by_cases hsource : (frame.getD 6 0).getLsbD 0 = true
  · rw [if_pos hsource, if_neg fun h => Bool.false_ne_true (h.source.symm.trans hsource)]
  rw [if_neg hsource, registry_lookup]
  by_cases hIP4 : ethType frame = ETHTYPE_IP4
  · have hARP : ethType frame ≠ ETHTYPE_ARP := by rw [hIP4]; decide
    have hPTP : ethType frame ≠ ETHTYPE_PTP := by rw [hIP4]; decide
    rw [if_neg hARP, if_neg hPTP, if_pos hIP4]
    show (match IPv4_process frame frame.length with
      | some .UDP_process => s.UDP_process frame
      | _ => none) = _
    by_cases hudp : IPv4_process frame frame.length = some .UDP_process
    · rw [hudp]
      show s.UDP_process frame = _
      unfold UDP_process
      dsimp only
      generalize hport : frame.getD 36 0 ++ frame.getD 37 0 = port
      by_cases hzero : port = 0
      · rw [if_pos hzero, if_neg fun h => h.ne_zero hzero]
      · rw [if_neg hzero, if_pos (datagram_iff.mpr ⟨⟨Bool.eq_false_of_not_eq_true hsource,
          (ethType_eq_IP4 frame).mp hIP4⟩, (IPv4_process_eq _ _).mp hudp, hport, hzero⟩)]
        cases s.find port with
        | none => rfl
        | some i => rfl
    · rw [if_neg fun h => hudp ((IPv4_process_eq _ _).mpr ⟨h.size, h.head, h.proto⟩)]
      split
      · exact absurd ‹_› hudp
      · rfl
  · have hno : ¬Datagram frame (frame.getD 36 0 ++ frame.getD 37 0) :=
      fun h => hIP4 ((ethType_eq_IP4 frame).mpr h.ethType)
    rw [if_neg hIP4, if_neg hno]
    by_cases hARP : ethType frame = ETHTYPE_ARP
    · rw [if_pos hARP]
      rfl
    · rw [if_neg hARP]
      by_cases hPTP : ethType frame = ETHTYPE_PTP
      · rw [if_pos hPTP]
        rfl
      · rw [if_neg hPTP]
        rfl

/-! ## Refinement -/

/-- The table has the services of the map, each in one slot. -/
structure Registers (s : UdpTable κ) (m : Services κ) : Prop where
  zero : m 0 = none
  service : ∀ port callback, port ≠ 0 →
    (m port = some callback ↔ ∃ i, s i = ⟨port, some callback⟩)
  unique : ∀ i j, (s i).port ≠ 0 → (s i).port = (s j).port → i = j
  empty : ∀ i, (s i).port = 0 ↔ (s i).callback = none

theorem UdpTable.find_eq_some {port : BitVec 16} {i : Fin UDP_SLOTS} (h : s.find port = some i) :
    (s i).port = port := by
  simpa using (find?_finRange_eq_some_iff.mp h).1

theorem UdpTable.find_eq_none {port : BitVec 16} (h : s.find port = none) (i : Fin UDP_SLOTS) :
    (s i).port ≠ port := by
  have hall := List.find?_eq_none.mp h i (List.mem_finRange i)
  simpa using hall

/-- What is found is the service of the port. -/
theorem Registers.lookup (hr : Registers s m) {port : BitVec 16} (hport : port ≠ 0) :
    (s.find port).bind (fun i => (s i).callback) = m port := by
  cases hfind : s.find port with
  | none =>
      cases hm : m port with
      | none => rfl
      | some callback =>
          obtain ⟨i, hi⟩ := (hr.service port callback hport).mp hm
          exact absurd (congrArg UdpEntry.port hi) (UdpTable.find_eq_none hfind i)
  | some i =>
      have hi := UdpTable.find_eq_some hfind
      show (s i).callback = m port
      cases hc : (s i).callback with
      | none => exact absurd (hi.symm.trans ((hr.empty i).mpr hc)) hport
      | some callback =>
          refine ((hr.service port callback hport).mpr ⟨i, ?_⟩).symm
          rw [← hi, ← hc]

theorem Registers.found (hr : Registers s m) {port : BitVec 16} (hport : port ≠ 0)
    {i : Fin UDP_SLOTS} (hfind : s.find port = some i) :
    ∃ callback, (s i).callback = some callback ∧ m port = some callback := by
  have hi := UdpTable.find_eq_some hfind
  have hm := hr.lookup hport
  rw [hfind, Option.bind_some] at hm
  have hused : (s i).callback ≠ none := fun h => hport (hi.symm.trans ((hr.empty i).mpr h))
  obtain ⟨callback, hc⟩ := Option.ne_none_iff_exists'.mp hused
  exact ⟨callback, hc, hm.symm.trans hc⟩

theorem Registers.not_found (hr : Registers s m) {port : BitVec 16} (hfind : s.find port = none) :
    m port = none := by
  by_cases hport : port = 0
  · rw [hport, hr.zero]
  · rw [← hr.lookup hport, hfind, Option.bind_none]

/-- The map is full when no slot is empty. -/
theorem Registers.full_iff (hr : Registers s m) : m.Full ↔ ∀ i, (s i).port ≠ 0 := by
  let used := Finset.univ.filter fun i => (s i).port ≠ 0
  have hports : {port | m port ≠ none} = (used.image fun i => (s i).port : Finset _) := by
    ext port
    rw [Set.mem_ofPred_eq, Finset.mem_coe, Finset.mem_image]
    constructor
    · intro hm
      obtain ⟨callback, hm⟩ := Option.ne_none_iff_exists'.mp hm
      have hport : port ≠ 0 := fun h => by rw [h, hr.zero] at hm; cases hm
      obtain ⟨i, hi⟩ := (hr.service port callback hport).mp hm
      have hi' : (s i).port = port := congrArg UdpEntry.port hi
      exact ⟨i, Finset.mem_filter.mpr ⟨Finset.mem_univ i, by rw [hi']; exact hport⟩, hi'⟩
    · rintro ⟨i, hi, rfl⟩
      have hport := (Finset.mem_filter.mp hi).2
      obtain ⟨callback, hc⟩ := Option.ne_none_iff_exists'.mp (mt (hr.empty i).mpr hport)
      rw [(hr.service _ callback hport).mpr ⟨i, by rw [← hc]⟩]
      exact Option.some_ne_none _
  have hcard : {port | m port ≠ none}.ncard = used.card := by
    rw [hports, Set.ncard_coe_finset]
    refine Finset.card_image_of_injOn fun i hi j _ h => ?_
    exact hr.unique i j (Finset.mem_filter.mp hi).2 h
  have hall : UDP_SLOTS ≤ used.card ↔ used = Finset.univ := by
    rw [← Finset.card_eq_iff_eq_univ, Fintype.card_fin]
    have hle := used.card_le_univ
    rw [Fintype.card_fin] at hle
    omega
  unfold Services.Full
  rw [hcard, hall, Finset.filter_eq_self]
  exact ⟨fun h i => h i (Finset.mem_univ i), fun h i _ => h i⟩

/-- A port without a service is in no slot. -/
theorem Registers.port_ne (hr : Registers s m) {port : BitVec 16} (hport : port ≠ 0)
    (hm : m port = none) (j : Fin UDP_SLOTS) : (s j).port ≠ port := by
  intro hj
  rw [← hj] at hport hm
  obtain ⟨callback, hc⟩ := Option.ne_none_iff_exists'.mp (mt (hr.empty j).mpr hport)
  rw [(hr.service _ callback hport).mpr ⟨j, by rw [← hc]⟩] at hm
  cases hm

/-- A new service in an empty slot. -/
theorem Registers.insert (hr : Registers s m) {i : Fin UDP_SLOTS} (hi : (s i).port = 0)
    {port : BitVec 16} (hport : port ≠ 0) (hm : m port = none) (callback : κ) :
    Registers (Function.update s i ⟨port, some callback⟩)
      (Function.update m port (some callback)) where
  zero := by rw [Function.update_of_ne hport.symm, hr.zero]
  service p c hp := by
    by_cases heq : p = port
    · rw [heq, Function.update_self]
      constructor
      · rintro ⟨⟩
        exact ⟨i, Function.update_self ..⟩
      · rintro ⟨j, hj⟩
        by_cases hji : j = i
        · rw [hji, Function.update_self] at hj
          exact (UdpEntry.mk.inj hj).2
        · rw [Function.update_of_ne hji] at hj
          exact absurd (congrArg UdpEntry.port hj) (hr.port_ne hport hm j)
    · rw [Function.update_of_ne heq, hr.service p c hp]
      refine exists_congr fun j => ?_
      by_cases hji : j = i
      · rw [hji, Function.update_self]
        refine ⟨fun h => ?_, fun h => absurd (congrArg UdpEntry.port h).symm heq⟩
        rw [h] at hi
        exact absurd hi hp
      · rw [Function.update_of_ne hji]
  unique j k hj hjk := by
    by_cases hji : j = i <;> by_cases hki : k = i
    · rw [hji, hki]
    · rw [hji, Function.update_self, Function.update_of_ne hki] at hjk
      exact absurd hjk.symm (hr.port_ne hport hm k)
    · rw [hki, Function.update_self, Function.update_of_ne hji] at hjk
      exact absurd hjk (hr.port_ne hport hm j)
    · rw [Function.update_of_ne hji] at hj hjk
      rw [Function.update_of_ne hki] at hjk
      exact hr.unique j k hj hjk
  empty j := by
    by_cases hji : j = i
    · rw [hji, Function.update_self]
      exact iff_of_false hport (Option.some_ne_none callback)
    · rw [Function.update_of_ne hji]
      exact hr.empty j

/-- A slot that is emptied. -/
theorem Registers.erase (hr : Registers s m) {i : Fin UDP_SLOTS} (hport : (s i).port ≠ 0) :
    Registers (Function.update s i ⟨0, none⟩) (Function.update m (s i).port none) where
  zero := by rw [Function.update_of_ne hport.symm, hr.zero]
  service p c hp := by
    by_cases heq : p = (s i).port
    · rw [heq, Function.update_self]
      refine ⟨fun h => (by cases h), ?_⟩
      rintro ⟨j, hj⟩
      by_cases hji : j = i
      · rw [hji, Function.update_self] at hj
        exact absurd (congrArg UdpEntry.port hj).symm hport
      · rw [Function.update_of_ne hji] at hj
        exact absurd (hr.unique i j hport (congrArg UdpEntry.port hj).symm).symm hji
    · rw [Function.update_of_ne heq, hr.service p c hp]
      refine exists_congr fun j => ?_
      by_cases hji : j = i
      · rw [hji, Function.update_self]
        exact ⟨fun h => absurd (congrArg UdpEntry.port h).symm heq,
          fun h => absurd (congrArg UdpEntry.port h).symm hp⟩
      · rw [Function.update_of_ne hji]
  unique j k hj hjk := by
    by_cases hji : j = i
    · rw [hji, Function.update_self] at hj
      exact absurd rfl hj
    · rw [Function.update_of_ne hji] at hj hjk
      by_cases hki : k = i
      · rw [hki, Function.update_self] at hjk
        exact absurd hjk hj
      · rw [Function.update_of_ne hki] at hjk
        exact hr.unique j k hj hjk
  empty j := by
    by_cases hji : j = i
    · rw [hji, Function.update_self]
      exact iff_of_true rfl rfl
    · rw [Function.update_of_ne hji]
      exact hr.empty j

/-! ## The operations -/

theorem Registers.init : Registers (UdpTable.init : UdpTable κ) fun _ => none where
  zero := rfl
  service port callback hport :=
    ⟨fun h => (by cases h), fun ⟨_, hi⟩ => absurd (congrArg UdpEntry.port hi).symm hport⟩
  unique i _ hi := absurd rfl hi
  empty i := iff_of_true rfl rfl

theorem Registers.not_full (hr : Registers s m) {i : Fin UDP_SLOTS} (hi : s.find 0 = some i) :
    ¬m.Full := fun hfull => hr.full_iff.mp hfull i (UdpTable.find_eq_some hi)

variable [DecidableEq κ]

theorem Registers.register (hr : Registers s m) (port : BitVec 16) (callback : κ) :
    Registers (s.exec (.register port callback)).1 (m.exec (.register port callback)).1 ∧
      (s.exec (.register port callback)).2 = (m.exec (.register port callback)).2 := by
  unfold UdpTable.exec Services.exec UdpTable.UDP_register
  dsimp only
  cases hfind : s.find port with
  | some i =>
      by_cases hport : port = 0
      · subst hport
        rw [hr.zero]
        dsimp only
        rw [if_neg (hr.not_full hfind), if_pos rfl,
          (hr.empty i).mp (UdpTable.find_eq_some hfind)]
        exact ⟨hr, rfl⟩
      · obtain ⟨other, hc, hm⟩ := hr.found hport hfind
        rw [hm]
        dsimp only
        rw [hc]
        simp only [Option.some.injEq, and_true]
        exact hr
  | none =>
      rw [hr.not_found hfind]
      dsimp only
      cases hempty : s.find 0 with
      | some i =>
          have hport : port ≠ 0 := fun h => by rw [h, hempty] at hfind; cases hfind
          rw [if_neg (hr.not_full hempty), if_neg hport]
          exact ⟨hr.insert (UdpTable.find_eq_some hempty) hport (hr.not_found hfind) callback, rfl⟩
      | none =>
          rw [if_pos (hr.full_iff.mpr (UdpTable.find_eq_none hempty))]
          exact ⟨hr, rfl⟩

theorem Registers.deregister (hr : Registers s m) (port : BitVec 16) :
    Registers (s.exec (.deregister port)).1 (m.exec (.deregister port)).1 ∧
      (s.exec (.deregister port)).2 = (m.exec (.deregister port)).2 := by
  unfold UdpTable.exec Services.exec UdpTable.UDP_deregister
  dsimp only
  cases hfind : s.find port with
  | some i =>
      have hi := UdpTable.find_eq_some hfind
      by_cases hport : port = 0
      · -- an empty slot stays empty
        subst hport
        rw [hr.zero]
        dsimp only
        rw [if_pos ⟨rfl, hr.not_full hfind⟩]
        refine ⟨?_, rfl⟩
        have hsame : Function.update s i ⟨0, none⟩ = s := by
          rw [Function.update_eq_self_iff, ← hi, ← (hr.empty i).mp hi]
        rw [hsame]
        exact hr
      · obtain ⟨callback, -, hm⟩ := hr.found hport hfind
        rw [hm]
        refine ⟨?_, rfl⟩
        have herase := hr.erase (i := i) (by rw [hi]; exact hport)
        rw [hi] at herase
        exact herase
  | none =>
      have hno : ¬(port = 0 ∧ ¬m.Full) := fun h =>
        h.2 (hr.full_iff.mpr (UdpTable.find_eq_none (h.1 ▸ hfind)))
      rw [hr.not_found hfind]
      dsimp only
      rw [if_neg hno]
      exact ⟨hr, rfl⟩

/-- **The table refines the map.** -/
theorem simulates_services :
    Simulates (UdpTable.exec (κ := κ)) (Services.exec (κ := κ)) Registers := by
  intro s m op hr
  cases op with
  | register port callback => exact hr.register port callback
  | deregister port => exact hr.deregister port
  | frame frame rxTime =>
      refine ⟨hr, ?_⟩
      show UdpResult.call (s.deliver frame rxTime) = .call _
      rw [UdpTable.deliver_eq]
      by_cases hd : Datagram frame (frame.getD 36 0 ++ frame.getD 37 0)
      · rw [if_pos hd, if_pos hd, hr.lookup hd.ne_zero]
      · rw [if_neg hd, if_neg hd]

/-- **Ports and callbacks.** Whatever is registered, deregistered and received, the two functions
return, and the frames call, what the map of the services says. -/
theorem services_of_run (ops : List (UdpOp κ)) :
    answers UdpTable.exec (UdpTable.init : UdpTable κ) ops =
      answers Services.exec (fun _ => none : Services κ) ops :=
  simulates_services.answers_eq Registers.init ops

example : answers UdpTable.exec (UdpTable.init : UdpTable ℕ)
    [.register 123 0, .register 68 1, .register 123 2, .deregister 68, .register 68 3] =
      [.code 0, .code 0, .code (-1), .code 0, .code 0] := by decide

end

end Gpsdo.Net
