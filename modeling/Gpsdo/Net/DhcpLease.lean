import Gpsdo.Basic.Run
import Gpsdo.Basic.Serial
import Gpsdo.Net.DhcpRequest

set_option autoImplicit false

/-! # When a lease is renewed (`dhcpRun`, `DHCP_renew`)

A task looks at the lease twice a second. When the link is up and the time of the lease has come, it
puts the time off by ten seconds and sends a request with a new transaction; an acknowledgement sets
the time anew. The code compares 32 bits of the time; the seconds of the model do not wrap.
-/

namespace Gpsdo.Net

open HEADER_DHCP Tlv

/-! ## The code -/

namespace Dhcp

def REATTEMPT_INTVL : BitVec 32 := 10

def DHCP_OPT_DISCOVER : List Byte := [53, 1, 1, 0]

/-- `DHCP_renew`, and the frame that it transmits. The buffer has the contents `stack` before it is
filled. -/
def DHCP_renew (s : Dhcp) (dhcpUUID : BitVec 32) (stack : Mem Byte) : Dhcp × Packet :=
  -- create request ID
  let s := { s with dhcpXID := dhcpUUID + s.seconds }
  let p : Packet := ⟨s.initPacket stack, OPTIONS⟩
  let p :=
    if s.ipAddress = 0 then
      -- acquire a new lease
      let p := p.put DHCP_OPT_DISCOVER
      let p := p.put DHCP_OPT_PARAM_REQ
      let p := p.put [12, BitVec.ofNat 8 s.hostname.length]
      let p := (p.put s.hostname).pad_opts
      (p.put [0xFF]).pad_opts
    else
      -- renew existing lease
      let frame := p.frame.store Frame.ipSrc (le32 s.ipAddress)
      let p := { p with frame := frame.store CIADDR (le32 s.ipAddress) }
      let p := p.put DHCP_OPT_REQUEST
      let p := p.put DHCP_OPT_PARAM_REQ
      (p.put [0xFF]).pad_opts
  ({ s with ipID := s.ipID + 1 }, finalize p)

/-- `dhcpRun`, with the state of the link -/
def dhcpRun (s : Dhcp) (dhcpUUID : BitVec 32) (link : Bool) (stack : Mem Byte) :
    Dhcp × Option Packet :=
  if !link then (s, none)
  else if 0 ≤ (s.seconds - s.dhcpLeaseExpire).toInt then
    let s := { s with dhcpLeaseExpire := s.dhcpLeaseExpire + REATTEMPT_INTVL }
    let r := s.DHCP_renew dhcpUUID stack
    (r.1, some r.2)
  else (s, none)

end Dhcp

/-! ## The machine -/

/-- The client, the number of the device that its transactions are made of, and the seconds since
its start. -/
structure DhcpClient where
  dhcp : Dhcp
  dhcpUUID : BitVec 32
  now : ℕ

inductive DhcpAction
  | elapse (d : ℕ)
  | dhcpRun (link : Bool) (stack : Mem Byte)
  | processFrame (stack m : Mem Byte) (flen : ℕ)

namespace DhcpClient

def step (s : DhcpClient) : DhcpAction → Option DhcpClient
  | .elapse d =>
      some { s with
        now := s.now + d, dhcp := { s.dhcp with seconds := BitVec.ofNat 32 (s.now + d) } }
  | .dhcpRun link stack => some { s with dhcp := (s.dhcp.dhcpRun s.dhcpUUID link stack).1 }
  | .processFrame stack m flen =>
      (s.dhcp.processFrame stack m flen).val.map fun r => { s with dhcp := r.1 }

/-- The frame of a renewal. -/
def request (s : DhcpClient) : DhcpAction → Option Packet
  | .dhcpRun link stack => (s.dhcp.dhcpRun s.dhcpUUID link stack).2
  | _ => none

/-- The seconds for which a lease counts that is acknowledged. -/
def lease (s : DhcpClient) : DhcpAction → Option ℕ
  | .processFrame _ m flen =>
      if (s.dhcp.accepts m flen).val = true then
        (s.dhcp.options m flen).val.bind fun opts =>
          if opts.optMsgType = 5 then some (Dhcp.leaseTime opts.optLease).toNat else none
      else none
  | _ => none

/-- The static memory, at the start. -/
structure Boot (s : DhcpClient) : Prop where
  dhcpXID : s.dhcp.dhcpXID = 0
  dhcpLeaseExpire : s.dhcp.dhcpLeaseExpire = 0
  seconds : s.dhcp.seconds = BitVec.ofNat 32 s.now

end DhcpClient

/-! ## What a run did -/

abbrev DhcpHistory := List (DhcpClient × DhcpAction)

/-- When the last lease is over, the requests since it was acknowledged, and the time of the last
request. -/
structure Renewals where
  expire : ℕ
  requests : ℕ
  last : Option ℕ

def renewals : DhcpHistory → Renewals
  | [] => ⟨0, 0, none⟩
  | (s, a) :: h =>
      let r := renewals h
      if (s.request a).isSome then { r with requests := r.requests + 1, last := some s.now }
      else
        match s.lease a with
        | some time => { r with expire := s.now + time, requests := 0 }
        | none => r

/-- When the next request is sent. -/
def Renewals.due (r : Renewals) : ℕ := r.expire + 10 * r.requests

/-! ## What a request says -/

namespace Dhcp

variable {s : Dhcp} {stack : Mem Byte}

end Dhcp

/-! ## The functions -/

namespace Dhcp

variable {s : Dhcp} {stack m : Mem Byte} {flen : ℕ}

/-- What an acknowledgement does to the lease. -/
theorem acknowledge_lease (s : Dhcp) (m : Mem Byte) (opts : DhcpOptions) :
    (s.acknowledge m opts).val.1.dhcpLeaseExpire = leaseTime opts.optLease + s.seconds ∧
      (s.acknowledge m opts).val.1.dhcpXID = s.dhcpXID ∧
      (s.acknowledge m opts).val.1.seconds = s.seconds := by
  unfold acknowledge
  simp only [Reading.val_bind]
  cases opts.optNtp with
  | none => exact ⟨rfl, rfl, rfl⟩
  | some v => exact ⟨rfl, rfl, rfl⟩

/-- A request is sent when the link is up and the time has come. -/
theorem dhcpRun_eq (s : Dhcp) (dhcpUUID : BitVec 32) (link : Bool) (stack : Mem Byte) :
    if link = true ∧ 0 ≤ sdiff s.seconds s.dhcpLeaseExpire then
      (s.dhcpRun dhcpUUID link stack).2.isSome = true ∧
        (s.dhcpRun dhcpUUID link stack).1.dhcpLeaseExpire = s.dhcpLeaseExpire + 10 ∧
        (s.dhcpRun dhcpUUID link stack).1.dhcpXID = dhcpUUID + s.seconds ∧
        (s.dhcpRun dhcpUUID link stack).1.seconds = s.seconds
    else s.dhcpRun dhcpUUID link stack = (s, none) := by
  unfold dhcpRun sdiff
  cases link with
  | false => rfl
  | true =>
      by_cases hdue : 0 ≤ (s.seconds - s.dhcpLeaseExpire).toInt
      · rw [if_pos ⟨rfl, hdue⟩, Bool.not_true, if_neg Bool.false_ne_true, if_pos hdue]
        exact ⟨rfl, rfl, rfl, rfl⟩
      · rw [if_neg fun h => hdue h.2, Bool.not_true, if_neg Bool.false_ne_true, if_neg hdue]

end Dhcp

namespace DhcpClient

variable {s s' : DhcpClient} {stack m : Mem Byte} {flen : ℕ}

/-- What a frame does to the lease. -/
theorem processFrame_lease (hs : s.step (.processFrame stack m flen) = some s') :
    s'.now = s.now ∧ s'.dhcpUUID = s.dhcpUUID ∧ s'.dhcp.dhcpXID = s.dhcp.dhcpXID ∧
      s'.dhcp.seconds = s.dhcp.seconds ∧
      s'.dhcp.dhcpLeaseExpire = match s.lease (.processFrame stack m flen) with
        | some time => BitVec.ofNat 32 time + s.dhcp.seconds
        | none => s.dhcp.dhcpLeaseExpire := by
  obtain ⟨r, hr, rfl⟩ := Option.map_eq_some_iff.mp hs
  dsimp only [lease]
  unfold Dhcp.processFrame at hr
  rw [Reading.val_bind] at hr
  cases haccept : (s.dhcp.accepts m flen).val with
  | false =>
      rw [haccept] at hr
      obtain rfl := Option.some.inj hr
      exact ⟨rfl, rfl, rfl, rfl, rfl⟩
  | true =>
      rw [haccept, Bool.not_true, if_neg Bool.false_ne_true, Reading.val_bind] at hr
      rw [if_pos rfl]
      cases hopts : (s.dhcp.options m flen).val with
      | none =>
          rw [hopts] at hr
          cases hr
      | some opts =>
          rw [hopts] at hr
          dsimp only at hr
          rw [Option.bind_some]
          by_cases hoffer : opts.optMsgType = 2
          · have hno : opts.optMsgType ≠ 5 := by rw [hoffer]; decide
            rw [if_pos hoffer] at hr
            rw [if_neg hno]
            obtain rfl := Option.some.inj hr
            exact ⟨rfl, rfl, rfl, rfl, rfl⟩
          rw [if_neg hoffer] at hr
          by_cases hack : opts.optMsgType = 5
          · rw [if_pos hack] at hr ⊢
            obtain rfl := Option.some.inj hr
            obtain ⟨hexpire, hxid, hseconds⟩ := s.dhcp.acknowledge_lease m opts
            refine ⟨rfl, rfl, hxid, hseconds, ?_⟩
            dsimp only
            rw [BitVec.ofNat_toNat, BitVec.setWidth_eq]
            exact hexpire
          · rw [if_neg hack] at hr ⊢
            obtain rfl := Option.some.inj hr
            exact ⟨rfl, rfl, rfl, rfl, rfl⟩

/-- A request goes out when the link is up and the time has come. -/
theorem request_isSome (s : DhcpClient) (link : Bool) (stack : Mem Byte) :
    (s.request (.dhcpRun link stack)).isSome = true ↔
      link = true ∧ 0 ≤ sdiff s.dhcp.seconds s.dhcp.dhcpLeaseExpire := by
  have hrun := s.dhcp.dhcpRun_eq s.dhcpUUID link stack
  unfold request
  dsimp only
  split at hrun
  · next hdue => exact ⟨fun _ => hdue, fun _ => hrun.1⟩
  · next hdue =>
      rw [hrun]
      exact ⟨fun h => absurd h Bool.false_ne_true, fun h => absurd h hdue⟩

/-- A lease counts a day at most, and it is one of the transaction. -/
theorem lease_le {time : ℕ} (h : s.lease (.processFrame stack m flen) = some time) :
    time ≤ 86400 ∧ m.load XID 4 = le32 s.dhcp.dhcpXID := by
  dsimp only [lease] at h
  split at h
  · next haccept =>
      obtain ⟨opts, -, h⟩ := Option.bind_eq_some_iff.mp h
      split at h
      · obtain rfl := Option.some.inj h
        refine ⟨?_, Dhcp.xid_of_accepts haccept⟩
        rw [Dhcp.leaseTime_eq, BitVec.toNat_ofNat]
        exact (Nat.mod_le _ _).trans (min_le_right _ _)
      · cases h
  · cases h

end DhcpClient

/-! ## The law -/

/-- The transaction of the last request. -/
def Renewals.xid (r : Renewals) (dhcpUUID : BitVec 32) : BitVec 32 :=
  match r.last with
  | none => 0
  | some t => dhcpUUID + BitVec.ofNat 32 t

/-- The variables of the client, in what the run did. -/
structure LeaseLaw (h : DhcpHistory) (s : DhcpClient) : Prop where
  seconds : s.dhcp.seconds = BitVec.ofNat 32 s.now
  dhcpXID : s.dhcp.dhcpXID = (renewals h).xid s.dhcpUUID
  dhcpLeaseExpire : s.dhcp.dhcpLeaseExpire = BitVec.ofNat 32 (renewals h).due
  expire : (renewals h).expire ≤ s.now + 86400
  due : (renewals h).requests = 0 ∨ (renewals h).due ≤ s.now + 10

namespace LeaseLaw

variable {h : DhcpHistory} {s s' : DhcpClient}

/-- The time that the code compares. -/
theorem sdiff_eq (hlaw : LeaseLaw h s) (hnow : s.now < 2 ^ 31) :
    sdiff s.dhcp.seconds s.dhcp.dhcpLeaseExpire = (s.now : ℤ) - (renewals h).due := by
  have hexpire := hlaw.expire
  have hdue := hlaw.due
  have hdef : (renewals h).due = (renewals h).expire + 10 * (renewals h).requests := rfl
  rw [hlaw.seconds, hlaw.dhcpLeaseExpire]
  exact sdiff_ofNat (w := 31) (by omega) (by omega)

theorem elapse (hlaw : LeaseLaw h s) {d : ℕ} (hs : s.step (.elapse d) = some s') :
    LeaseLaw ((s, .elapse d) :: h) s' := by
  obtain rfl := Option.some.inj hs
  have hsame : renewals ((s, .elapse d) :: h) = renewals h := rfl
  refine ⟨rfl, hlaw.dhcpXID, hlaw.dhcpLeaseExpire, ?_, ?_⟩
  · rw [hsame]
    exact hlaw.expire.trans (Nat.add_le_add_right (Nat.le_add_right _ _) _)
  · rw [hsame]
    exact hlaw.due.imp_right fun h => h.trans (Nat.add_le_add_right (Nat.le_add_right _ _) _)

theorem dhcpRun (hlaw : LeaseLaw h s) (hnow : s.now < 2 ^ 31) {link : Bool} {stack : Mem Byte}
    (hs : s.step (.dhcpRun link stack) = some s') :
    LeaseLaw ((s, .dhcpRun link stack) :: h) s' := by
  obtain rfl := Option.some.inj hs
  have hrun := s.dhcp.dhcpRun_eq s.dhcpUUID link stack
  have hsome := s.request_isSome link stack
  by_cases hdue : link = true ∧ 0 ≤ sdiff s.dhcp.seconds s.dhcp.dhcpLeaseExpire
  · -- a request, and the next one ten seconds after this one was due
    rw [if_pos hdue] at hrun
    obtain ⟨-, hexpire, hxid, hseconds⟩ := hrun
    have hsent : renewals ((s, .dhcpRun link stack) :: h) =
        { renewals h with requests := (renewals h).requests + 1, last := some s.now } := by
      rw [renewals, if_pos (hsome.mpr hdue)]
    have hnext : (renewals ((s, .dhcpRun link stack) :: h)).due = (renewals h).due + 10 := by
      rw [hsent]
      show _ + 10 * (_ + 1) = _ + 10 * _ + 10
      ring
    have hcome := hdue.2
    rw [hlaw.sdiff_eq hnow] at hcome
    refine ⟨hseconds.trans hlaw.seconds, ?_, ?_, ?_, Or.inr ?_⟩
    · rw [hsent]
      exact hxid.trans (congrArg (s.dhcpUUID + ·) hlaw.seconds)
    · rw [hnext, BitVec.ofNat_add, ← hlaw.dhcpLeaseExpire]
      exact hexpire
    · rw [hsent]
      exact hlaw.expire
    · rw [hnext]
      show _ ≤ s.now + 10
      omega
  · rw [if_neg hdue] at hrun
    have hsame : renewals ((s, .dhcpRun link stack) :: h) = renewals h := by
      rw [renewals, if_neg fun h => hdue (hsome.mp h)]
      rfl
    refine ⟨?_, ?_, ?_, ?_, ?_⟩
    · rw [hrun]
      exact hlaw.seconds
    · rw [hrun, hsame]
      exact hlaw.dhcpXID
    · rw [hrun, hsame]
      exact hlaw.dhcpLeaseExpire
    · rw [hsame]
      exact hlaw.expire
    · rw [hsame]
      exact hlaw.due

theorem processFrame (hlaw : LeaseLaw h s) {stack m : Mem Byte} {flen : ℕ}
    (hs : s.step (.processFrame stack m flen) = some s') :
    LeaseLaw ((s, .processFrame stack m flen) :: h) s' := by
  obtain ⟨hnow, huuid, hxid, hseconds, hexpire⟩ := DhcpClient.processFrame_lease hs
  have hsecs : s'.dhcp.seconds = BitVec.ofNat 32 s'.now := by
    rw [hseconds, hnow]
    exact hlaw.seconds
  cases hlease : s.lease (.processFrame stack m flen) with
  | none =>
      have hsame : renewals ((s, .processFrame stack m flen) :: h) = renewals h := by
        show (match s.lease (.processFrame stack m flen) with
          | some time => _
          | none => renewals h) = _
        rw [hlease]
      rw [hlease] at hexpire
      refine ⟨hsecs, ?_, ?_, ?_, ?_⟩
      · rw [hsame, hxid, huuid]
        exact hlaw.dhcpXID
      · rw [hsame]
        exact hexpire.trans hlaw.dhcpLeaseExpire
      · rw [hsame, hnow]
        exact hlaw.expire
      · rw [hsame, hnow]
        exact hlaw.due
  | some time =>
      have hnew : renewals ((s, .processFrame stack m flen) :: h) =
          { renewals h with expire := s.now + time, requests := 0 } := by
        show (match s.lease (.processFrame stack m flen) with
          | some time => _
          | none => renewals h) = _
        rw [hlease]
      rw [hlease] at hexpire
      refine ⟨hsecs, ?_, ?_, ?_, Or.inl ?_⟩
      · rw [hnew, hxid, huuid]
        exact hlaw.dhcpXID
      · rw [hnew]
        show _ = BitVec.ofNat 32 (s.now + time + 10 * 0)
        rw [Nat.mul_zero, Nat.add_zero, BitVec.ofNat_add, BitVec.add_comm, ← hlaw.seconds]
        exact hexpire
      · rw [hnew, hnow]
        exact Nat.add_le_add_left (DhcpClient.lease_le hlease).1 _
      · rw [hnew]

end LeaseLaw

variable {s₀ s : DhcpClient} {h : DhcpHistory}

end Gpsdo.Net
