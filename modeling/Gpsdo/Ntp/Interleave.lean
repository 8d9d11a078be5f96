import Gpsdo.Basic.Run
import Gpsdo.Ntp.Peer
import Mathlib.Data.List.Perm.Subperm

set_option autoImplicit false

/-! # Interleaved responses (`lib/ntp/ntp.cpp`)

When a response has been sent, its hardware transmit time is kept in a table, and a client that
names the response in its next request gets that time. The table has one cell for all addresses with
the same hash. Requests and transmitted responses come in any order; a response may be lost on its
way to the transmitter.
-/

namespace Gpsdo.Ntp

/-! ## Data -/

def XLEAVE_SIZE : Nat := 10

/-- A cell of the hash table for interleaved timestamps, `tsXleave`. -/
structure TsXleave where
  rxTime : BitVec 64
  txTime : BitVec 64
  deriving DecidableEq, Repr

abbrev XleaveTable := Fin (2 ^ XLEAVE_SIZE) → TsXleave

/-- `hashXleave` -/
def hashXleave (addr : BitVec 32) : Fin (2 ^ XLEAVE_SIZE) :=
  (((addr * 0xDE9DB139) >>> (32 - XLEAVE_SIZE)).setWidth XLEAVE_SIZE).toFin

def NTP_MODE_CLI : Nat := 3

def NTP_MODE_SRV : Nat := 4

/-- `struct FrameNtp`: the addresses, the ports and the NTP message of a frame. The lengths and
checksums that finalize it are left out. -/
structure FrameNtp where
  macDst : BitVec 48
  macSrc : BitVec 48
  ipSrc : BitVec 32
  ipDst : BitVec 32
  portSrc : BitVec 16
  portDst : BitVec 16
  ntp : HeaderNtp
  deriving DecidableEq, Repr

/-- `sizeof(FrameNtp)` -/
def FrameNtp.size : Nat := 90

/-- `FrameUdp4::returnToSender` -/
def FrameNtp.returnToSender (frame : FrameNtp) : FrameNtp :=
  { frame with
    macDst := frame.macSrc,
    ipDst := frame.ipSrc, ipSrc := frame.ipDst,
    portDst := frame.portSrc, portSrc := frame.portDst }

/-- What `ntpRequest` reads from the rest of the firmware: the address of this device, the stamps of
the request, the TAI clock now and at the last update, and the status of the server. -/
structure ServerEnv where
  ipAddress : BitVec 32
  stamps : Stamps
  taiNow : BitVec 64
  taiUpdate : BitVec 64
  clkTaiUtcOffset : BitVec 64
  leapIndicator : Nat
  clockStratum : Nat
  refId : BitVec 32
  rootDelay : BitVec 32
  rootDispersion : BitVec 32

/-! ## Requests and responses -/

/-- TAI in the domain of NTP. -/
def ntpTime (tai clkTaiUtcOffset : BitVec 64) : BitVec 64 := tai - clkTaiUtcOffset + NTP_UTC_OFFSET

/-- `ntpTxCallback` -/
def ntpTxCallback (tsXleave : XleaveTable) (frame : FrameNtp) (stamps : Stamps)
    (clkTaiUtcOffset : BitVec 64) : XleaveTable :=
  let txTime := ntpTime stamps.tai clkTaiUtcOffset
  let cell := hashXleave frame.ipDst
  Function.update tsXleave cell ⟨frame.ntp.rxTime, htonll txTime⟩

/-- The first part of `ntpRequest`: the cell of an interleaved request. -/
def xleaveCell (tsXleave : XleaveTable) (request : FrameNtp) : Option (Fin (2 ^ XLEAVE_SIZE)) :=
  let orgTime := request.ntp.origTime
  if orgTime ≠ 0 ∧ request.ntp.rxTime ≠ request.ntp.txTime then
    let cell := hashXleave request.ipSrc
    if orgTime = (tsXleave cell).rxTime then some cell else none
  else none

/-- The response of `ntpRequest`. -/
def ntpAnswer (tsXleave : XleaveTable) (env : ServerEnv) (request : FrameNtp) : FrameNtp :=
  let xleave := xleaveCell tsXleave request
  let response := request.returnToSender
  { response with ntp := { response.ntp with
      mode := NTP_MODE_SRV,
      status := env.leapIndicator % 4,
      stratum := env.clockStratum % 256,
      precision := NTP_CLK_PREC,
      rootDelay := htonl env.rootDelay,
      rootDispersion := htonl env.rootDispersion,
      refID := env.refId,
      refTime := htonll (ntpTime env.taiUpdate env.clkTaiUtcOffset),
      origTime := xleave.elim request.ntp.txTime fun _ => request.ntp.rxTime,
      txTime := xleave.elim (htonll (ntpTime env.taiNow env.clkTaiUtcOffset))
        fun cell => (tsXleave cell).txTime,
      rxTime := htonll (ntpTime env.stamps.tai env.clkTaiUtcOffset) } }

/-- `ntpRequest`: the response that is handed to `network::transmit` with `ntpTxCallback`. -/
def ntpRequest (tsXleave : XleaveTable) (env : ServerEnv) (request : FrameNtp) (flen : Nat) :
    Option FrameNtp :=
  -- discard malformed packets
  if flen < FrameNtp.size then none
  -- verify destination
  else if request.ipDst ≠ env.ipAddress then none
  -- prevent loopback
  else if request.ipSrc = env.ipAddress then none
  -- filter non-client frames
  else if request.ntp.mode ≠ NTP_MODE_CLI then none
  else some (ntpAnswer tsXleave env request)

/-! ## The machine -/

/-- The table, and the responses that the transmitter has. -/
structure Server where
  tsXleave : XleaveTable
  sending : List FrameNtp

inductive ServerAction
  /-- A request is received; `network::transmit` takes the response, or does not. -/
  | request (env : ServerEnv) (frame : FrameNtp) (flen : Nat) (accepted : Bool)
  /-- One of the responses has been transmitted. -/
  | transmitted (i : Nat) (stamps : Stamps) (clkTaiUtcOffset : BitVec 64)

namespace Server

/-- The static memory. -/
def init : Server := ⟨fun _ => ⟨0, 0⟩, []⟩

def step (s : Server) : ServerAction → Option Server
  | .request env frame flen accepted =>
      some { s with
        sending := if accepted then s.sending ++ (ntpRequest s.tsXleave env frame flen).toList
          else s.sending }
  | .transmitted i stamps clkTaiUtcOffset =>
      s.sending[i]?.map fun frame =>
        { tsXleave := ntpTxCallback s.tsXleave frame stamps clkTaiUtcOffset,
          sending := s.sending.eraseIdx i }

end Server

abbrev ServerHistory := List (Server × ServerAction)

/-! ## What has happened -/

/-- The responses of the server, the last one first. -/
def responses : ServerHistory → List FrameNtp
  | [] => []
  | (s, .request env frame flen _) :: h =>
      (ntpRequest s.tsXleave env frame flen).toList ++ responses h
  | (_, .transmitted _ _ _) :: h => responses h

/-- The responses that have been transmitted, the last one first, with their hardware transmit
times. -/
def transmissions : ServerHistory → List (FrameNtp × BitVec 64)
  | [] => []
  | (_, .request _ _ _ _) :: h => transmissions h
  | (s, .transmitted i stamps clkTaiUtcOffset) :: h =>
      (s.sending[i]?.map fun frame =>
        (frame, htonll (ntpTime stamps.tai clkTaiUtcOffset))).toList ++ transmissions h

/-- What a transmission leaves in the table. -/
def recordOf (e : FrameNtp × BitVec 64) : TsXleave := ⟨e.1.ntp.rxTime, e.2⟩

/-- The transmission is to an address of the cell. -/
def toCell (c : Fin (2 ^ XLEAVE_SIZE)) (e : FrameNtp × BitVec 64) : Bool :=
  hashXleave e.1.ipDst == c

/-! ## The invariant -/

/-- The responses with the transmitter and the transmitted ones are responses of the server, each
once; and a cell holds what the last transmission to it has left, if there was one. -/
structure XleaveInv (h : ServerHistory) (s : Server) : Prop where
  once : (s.sending ++ (transmissions h).map Prod.fst).Subperm (responses h)
  cells : ∀ c, s.tsXleave c = ((transmissions h).find? (toCell c)).elim ⟨0, 0⟩ recordOf

variable {h : ServerHistory} {s s' : Server}

theorem xleaveInv_init : XleaveInv [] Server.init := ⟨List.Subperm.refl [], fun _ => rfl⟩

theorem XleaveInv.request (hi : XleaveInv h s) (env : ServerEnv) (frame : FrameNtp) (flen : Nat)
    (accepted : Bool) (hs : s.step (.request env frame flen accepted) = some s') :
    XleaveInv ((s, .request env frame flen accepted) :: h) s' := by
  obtain rfl := Option.some.inj hs
  refine ⟨?_, hi.cells⟩
  show ((if accepted then s.sending ++ (ntpRequest s.tsXleave env frame flen).toList else s.sending) ++
    (transmissions h).map Prod.fst).Subperm
      ((ntpRequest s.tsXleave env frame flen).toList ++ responses h)
  generalize (ntpRequest s.tsXleave env frame flen).toList = response
  have hold : (response ++ (s.sending ++ (transmissions h).map Prod.fst)).Subperm
      (response ++ responses h) := (List.Subperm.refl response).append hi.once
  split
  · -- the new response comes behind the ones that are with the transmitter
    have hperm : (s.sending ++ response ++ (transmissions h).map Prod.fst).Perm
        (response ++ (s.sending ++ (transmissions h).map Prod.fst)) := by
      rw [← List.append_assoc]
      exact List.perm_append_comm.append_right _
    exact hperm.subperm.trans hold
  · exact ((List.sublist_append_right _ _).subperm).trans hold

theorem XleaveInv.transmitted (hi : XleaveInv h s) (i : Nat) (stamps : Stamps)
    (clkTaiUtcOffset : BitVec 64) (hs : s.step (.transmitted i stamps clkTaiUtcOffset) = some s') :
    XleaveInv ((s, .transmitted i stamps clkTaiUtcOffset) :: h) s' := by
  obtain ⟨frame, hframe, rfl⟩ := Option.map_eq_some_iff.mp hs
  have htrans : transmissions ((s, .transmitted i stamps clkTaiUtcOffset) :: h) =
      (frame, htonll (ntpTime stamps.tai clkTaiUtcOffset)) :: transmissions h := by
    rw [transmissions, hframe]
    rfl
  refine ⟨?_, fun c => ?_⟩
  · obtain ⟨hlt, hget⟩ := List.getElem?_eq_some_iff.mp hframe
    have hperm : (s.sending.eraseIdx i ++ frame :: (transmissions h).map Prod.fst).Perm
        (s.sending ++ (transmissions h).map Prod.fst) := by
      rw [← hget]
      exact List.perm_middle.trans ((List.getElem_cons_eraseIdx_perm hlt).append_right _)
    rw [htrans]
    exact hperm.subperm.trans hi.once
  · rw [htrans, List.find?_cons]
    show Function.update s.tsXleave (hashXleave frame.ipDst) _ c = _
    by_cases hc : c = hashXleave frame.ipDst
    · subst hc
      rw [Function.update_self, toCell, beq_self_eq_true]
      rfl
    · have hother : toCell c (frame, htonll (ntpTime stamps.tai clkTaiUtcOffset)) = false :=
        beq_eq_false_iff_ne.mpr (Ne.symm hc)
      rw [Function.update_of_ne hc, hother]
      exact hi.cells c

theorem xleaveInv_of_run (hrun : Run Server.step Server.init h s) : XleaveInv h s := by
  refine hrun.invariant xleaveInv_init fun h s a s' hi hs => ?_
  cases a with
  | request env frame flen accepted => exact hi.request env frame flen accepted hs
  | transmitted i stamps clkTaiUtcOffset => exact hi.transmitted i stamps clkTaiUtcOffset hs

/-! ## The law -/

/-- A transmitted response is a response of the server. -/
theorem XleaveInv.mem_responses (hi : XleaveInv h s) {e : FrameNtp × BitVec 64}
    (he : e ∈ transmissions h) : e.1 ∈ responses h :=
  hi.once.subset (List.mem_append_right _ (List.mem_map_of_mem he))

/-- A cell is as in the static memory, or holds what one transmission has left. -/
theorem XleaveInv.cell (hi : XleaveInv h s) (c : Fin (2 ^ XLEAVE_SIZE)) :
    s.tsXleave c = ⟨0, 0⟩ ∨ ∃ e ∈ transmissions h, e.1 ∈ responses h ∧
      hashXleave e.1.ipDst = c ∧ s.tsXleave c = recordOf e := by
  have hcell := hi.cells c
  cases hfind : (transmissions h).find? (toCell c) with
  | none =>
      rw [hfind] at hcell
      exact Or.inl hcell
  | some e =>
      have he := List.mem_of_find?_eq_some hfind
      have hto : toCell c e = true := List.find?_some hfind
      rw [hfind] at hcell
      exact Or.inr ⟨e, he, hi.mem_responses he, beq_iff_eq.mp hto, hcell⟩

theorem xleaveCell_eq_some {tsXleave : XleaveTable} {request : FrameNtp}
    {c : Fin (2 ^ XLEAVE_SIZE)} (hc : xleaveCell tsXleave request = some c) :
    c = hashXleave request.ipSrc ∧ request.ntp.origTime ≠ 0 ∧
      request.ntp.rxTime ≠ request.ntp.txTime ∧ (tsXleave c).rxTime = request.ntp.origTime := by
  unfold xleaveCell at hc
  by_cases hnamed : request.ntp.origTime ≠ 0 ∧ request.ntp.rxTime ≠ request.ntp.txTime
  case neg =>
    rw [if_neg hnamed] at hc
    cases hc
  rw [if_pos hnamed] at hc
  obtain ⟨hrx, hcell⟩ := Option.ite_none_right_eq_some.mp hc
  obtain rfl := Option.some.inj hcell
  exact ⟨rfl, hnamed.1, hnamed.2, hrx.symm⟩

theorem ntpRequest_eq_some {tsXleave : XleaveTable} {env : ServerEnv} {request response : FrameNtp}
    {flen : Nat} (hr : ntpRequest tsXleave env request flen = some response) :
    response = ntpAnswer tsXleave env request := by
  unfold ntpRequest at hr
  split_ifs at hr
  exact (Option.some.inj hr).symm

/-- A request is answered in interleaved mode: the client gets its own receive time back, and the
hardware transmit time of the response that it names, or of one that was received at the same time
and sent to an address of the same cell. -/
structure Interleaved (h : ServerHistory) (request response : FrameNtp) : Prop where
  origTime : response.ntp.origTime = request.ntp.rxTime
  told : request.ntp.rxTime ≠ request.ntp.txTime
  named : request.ntp.origTime ≠ 0
  sent : ∃ e ∈ transmissions h, e.1 ∈ responses h ∧
    hashXleave e.1.ipDst = hashXleave request.ipSrc ∧
    e.1.ntp.rxTime = request.ntp.origTime ∧ response.ntp.txTime = e.2

/-- **One request**: with a cell it is answered in interleaved mode, without one in basic mode. -/
theorem XleaveInv.answer (hi : XleaveInv h s) {env : ServerEnv} {request response : FrameNtp}
    {flen : Nat} (hr : ntpRequest s.tsXleave env request flen = some response) :
    (xleaveCell s.tsXleave request = none ∧ response.ntp.origTime = request.ntp.txTime) ∨
      (xleaveCell s.tsXleave request = some (hashXleave request.ipSrc) ∧
        Interleaved h request response) := by
  obtain rfl := ntpRequest_eq_some hr
  cases hcell : xleaveCell s.tsXleave request with
  | none =>
      refine Or.inl ⟨rfl, ?_⟩
      show (xleaveCell s.tsXleave request).elim request.ntp.txTime _ = _
      rw [hcell]
      rfl
  | some c =>
      obtain ⟨rfl, hnamed, htold, hrx⟩ := xleaveCell_eq_some hcell
      refine Or.inr ⟨rfl, ?_, htold, hnamed, ?_⟩
      · show (xleaveCell s.tsXleave request).elim _ (fun _ => request.ntp.rxTime) = _
        rw [hcell]
        rfl
      · have htx : (ntpAnswer s.tsXleave env request).ntp.txTime =
            (s.tsXleave (hashXleave request.ipSrc)).txTime := by
          show (xleaveCell s.tsXleave request).elim _ (fun c => (s.tsXleave c).txTime) = _
          rw [hcell]
          rfl
        rcases hi.cell (hashXleave request.ipSrc) with hzero | ⟨e, he, hresp, hto, hrec⟩
        · -- the static memory names no response
          rw [hzero] at hrx
          exact absurd hrx.symm hnamed
        · rw [hrec] at hrx htx
          exact ⟨e, he, hresp, hto, hrx, htx⟩

/-- **In every run** each answer is in basic mode, or gives the hardware transmit time of an earlier
response to an address of the same cell that is named by the request; and each cell holds the times
of one transmitted response, or nothing yet. -/
theorem interleaved_of_run (hrun : Run Server.step Server.init h s) :
    (∀ (env : ServerEnv) (request : FrameNtp) (flen : Nat) (response : FrameNtp),
      ntpRequest s.tsXleave env request flen = some response →
        (xleaveCell s.tsXleave request = none ∧ response.ntp.origTime = request.ntp.txTime) ∨
          (xleaveCell s.tsXleave request = some (hashXleave request.ipSrc) ∧
            Interleaved h request response)) ∧
      ∀ c, s.tsXleave c = ⟨0, 0⟩ ∨ ∃ e ∈ transmissions h, e.1 ∈ responses h ∧
        hashXleave e.1.ipDst = c ∧ s.tsXleave c = ⟨e.1.ntp.rxTime, e.2⟩ := by
  have hi := xleaveInv_of_run hrun
  exact ⟨fun env request flen response hr => hi.answer hr, hi.cell⟩

/-- The server at 10.0.0.1, and the stamps of a request. -/
def serverAt (tai : BitVec 64) : ServerEnv :=
  { ipAddress := 0x0100000A, stamps := ⟨0, 0, tai⟩, taiNow := tai + 5, taiUpdate := 0,
    clkTaiUtcOffset := 37 <<< 32, leapIndicator := 0, clockStratum := 1, refId := REF_ID,
    rootDelay := 0, rootDispersion := 0 }

/-- A request of the client at 10.0.0.2. -/
def requestWith (origTime rxTime txTime : BitVec 64) : FrameNtp :=
  { macDst := 1, macSrc := 2, ipSrc := 0x0200000A, ipDst := 0x0100000A, portSrc := 5000,
    portDst := 123,
    ntp := { mode := 3, version := 4, status := 0, stratum := 0, poll := 4, precision := 0,
             rootDelay := 0, rootDispersion := 0, refID := 0, refTime := 0, origTime := origTime,
             rxTime := rxTime, txTime := txTime } }

/-- The second request names the response to the first. -/
theorem interleaved_of_run_secondRequest :
    ∃ h s response, Run Server.step Server.init h s ∧
      ntpRequest s.tsXleave (serverAt (200 <<< 32))
        (requestWith (htonll (ntpTime (100 <<< 32) (37 <<< 32))) 7 8) 90 = some response ∧
      Interleaved h (requestWith (htonll (ntpTime (100 <<< 32) (37 <<< 32))) 7 8) response := by
  obtain ⟨h, s, hrun, hp⟩ := @exists_run_of_replay _ _ Server.step Server.init
    [.request (serverAt (100 <<< 32)) (requestWith 0 0 1) 90 true,
      .transmitted 0 ⟨0, 0, 100 <<< 32 + 9⟩ (37 <<< 32)]
    (fun _ s => decide (xleaveCell s.tsXleave
      (requestWith (htonll (ntpTime (100 <<< 32) (37 <<< 32))) 7 8) ≠ none)) (by decide +kernel)
  have hcell := of_decide_eq_true hp
  obtain ⟨-, hinter⟩ := ((interleaved_of_run hrun).1 (serverAt (200 <<< 32))
    (requestWith (htonll (ntpTime (100 <<< 32) (37 <<< 32))) 7 8) 90 _ rfl).resolve_left
      fun hbasic => hcell hbasic.1
  exact ⟨h, s, _, hrun, rfl, hinter⟩

end Gpsdo.Ntp
