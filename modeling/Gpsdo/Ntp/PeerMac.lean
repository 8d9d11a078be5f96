import Gpsdo.Ntp.Resolver

set_option autoImplicit false

/-! # What a peer does about its MAC address

The code of a peer keeps its address, copies that of the router, or requests it. A request takes an
empty slot of the table.
-/

namespace Gpsdo.Net.Arp

variable {κ : Type} {s s' s'' : Arp κ} {callback : κ} {addrs : BitVec 32 → Prop}

/-! ## New requests -/

/-- Requests with one callback, to some addresses, are put into empty slots. -/
structure Adds (callback : κ) (addrs : BitVec 32 → Prop) (s s' : Arp κ) : Prop where
  pc : s'.pc = s.pc
  kept : ∀ k, s.occupied k = true → s'.requests k = s.requests k
  added : ∀ k, s'.occupied k = true → s.occupied k = true ∨
    ((s'.requests k).callback = callback ∧ addrs (s'.requests k).remoteAddress)

theorem Adds.refl (s : Arp κ) : Adds callback addrs s s :=
  ⟨rfl, fun _ _ => rfl, fun _ => Or.inl⟩

theorem Adds.occupied (h : Adds callback addrs s s') {k : Fin MAX_REQUESTS}
    (hk : s.occupied k = true) : s'.occupied k = true := by
  rw [Arp.occupied, h.kept k hk]
  exact hk

theorem Adds.trans (h : Adds callback addrs s s') (h' : Adds callback addrs s' s'') :
    Adds callback addrs s s'' where
  pc := h'.pc.trans h.pc
  kept k hk := (h'.kept k (h.occupied hk)).trans (h.kept k hk)
  added k hk := by
    rcases h'.added k hk with hk' | hnew
    · rw [h'.kept k hk']
      exact h.added k hk'
    · exact Or.inr hnew

theorem adds_ARP_request (s : Arp κ) (callback : κ) {remoteAddress : BitVec 32} (ha : addrs remoteAddress) :
    Adds callback addrs s (s.ARP_request remoteAddress callback).1 := by
  unfold ARP_request
  cases hfind : s.findSlot with
  | none => exact Adds.refl s
  | some i =>
      have hempty := (findSlot_eq_some_iff.mp hfind).1
      refine ⟨rfl, fun k hk => ?_, fun k hk => ?_⟩
      · have hki : k ≠ i := by
          rintro rfl
          rw [hempty] at hk
          cases hk
        exact Function.update_of_ne hki _ _
      · by_cases hki : k = i
        · subst hki
          refine Or.inr ?_
          simpa [register] using ha
        · refine Or.inl ?_
          simpa [register, Arp.occupied, hki] using hk

end Gpsdo.Net.Arp

namespace Gpsdo.Ntp

variable {F : Type}

/-! ## What the code of a peer does about its address -/

/-- The address is kept, and none is requested. -/
def MacKept (p : Peer F) (r : Peer F × List Output) : Prop :=
  r.1.macAddr = p.macAddr ∧ ∀ addr, Output.ARP_request addr ∉ r.2

/-- The address of the router is copied, or that of the peer is requested, or neither. -/
structure MacStep (p : Peer F) (env : Env F) (r : Peer F × List Output) : Prop where
  id : r.1.id = p.id
  mac : r.1.macAddr = p.macAddr ∨ (p.isRouted env = true ∧ r.1.macAddr = env.macRouter)
  requests : ∀ addr, Output.ARP_request addr ∈ r.2 → addr = p.id

theorem TaskStep.id {src src' : Source F} (h : TaskStep src src') : src'.id = src.id := by
  rcases h with h | ⟨src₁, smp, stats, now, h, h'⟩
  · rw [h]
  · rw [h']
    show src₁.id = src.id
    rw [h]

namespace Peer

theorem pollSend_mac (p : Peer F) (env : Env F) : MacKept p (p.pollSend env) := by
  dsimp only [pollSend]
  split <;> exact ⟨rfl, by simp⟩

theorem pollEnd_mac (p : Peer F) (env : Env F) : MacKept p (p.pollEnd env) := by
  unfold pollEnd
  split <;> exact ⟨rfl, by simp⟩

theorem pollStep_mac (p : Peer F) (env : Env F) : MacKept p (p.pollStep env).2 := by
  have hbranch := p.pollStep_branch env
  generalize p.pollStep env = r at hbranch ⊢
  cases hbranch with
  | send hs => exact pollSend_mac { p with pktSent := true, pktRecv := false } env
  | followUp hs hr hx => exact pollSend_mac { p with pktRecv := false, pollXleave := true } env
  | received hs hr => exact pollEnd_mac { p with pktRecv := false } env
  | fallback hs hr hx => exact pollEnd_mac { p with xleave := false } env
  | timeout hs hr hx => exact ⟨rfl, by simp⟩
  | wait hs hr => exact ⟨rfl, by simp⟩

theorem updateMac_mac (p : Peer F) (env : Env F) : MacStep p env (p.updateMac env) := by
  unfold updateMac
  have hrouted : ({ p with lastArp := env.seconds } : Peer F).isRouted env = p.isRouted env := rfl
  dsimp only
  rw [hrouted]
  split
  · rename_i h
    exact ⟨rfl, Or.inr ⟨h, rfl⟩, by simp⟩
  · exact ⟨rfl, Or.inl rfl, by simp⟩

theorem isMacInvalid_mac (p : Peer F) (env : Env F) : MacStep p env (p.isMacInvalid env).2 := by
  dsimp only [isMacInvalid]
  split
  · exact updateMac_mac p env
  · exact ⟨rfl, Or.inl rfl, by simp⟩

theorem receive_mac (p : Peer F) (packet : HeaderNtp) (stamps : Stamps) :
    (p.receive packet stamps).macAddr = p.macAddr ∧ (p.receive packet stamps).id = p.id := by
  dsimp only [receive]
  split_ifs <;> exact ⟨rfl, rfl⟩

theorem arpCallback_mac (p : Peer F) {mac : BitVec 48} (env : Env F) (h0 : mac = 0) :
    MacStep p env (p.arpCallback mac env) := by
  rw [arpCallback, if_pos h0]
  exact updateMac_mac p env

theorem arpCallback_requests (p : Peer F) (mac : BitVec 48) (env : Env F) :
    ∀ addr, Output.ARP_request addr ∈ (p.arpCallback mac env).2 → addr = p.id := by
  by_cases h0 : mac = 0
  · exact (arpCallback_mac p env h0).requests
  · rw [arpCallback, if_neg h0]
    simp

variable [Single F]

theorem pollRun_mac (p : Peer F) (env : Env F) : MacKept p (p.pollRun env).2 := by
  have hstep := pollStep_mac p env
  rcases p.pollRun_branch env with ⟨hrun, -⟩ | ⟨hrun, -⟩ <;> rw [hrun]
  · exact hstep
  · exact ⟨hstep.1, hstep.2⟩

/-- **What an activation of the task does about the address.** -/
theorem run_mac (p : Peer F) (env : Env F) : MacStep p env (p.run env) := by
  have hid := (run_task p env).id
  have hbranch := p.run_branch env
  obtain ⟨-, hmac, hreq⟩ := isMacInvalid_mac p env
  generalize p.run env = r at hid hbranch ⊢
  refine ⟨hid, ?_, fun addr haddr => ?_⟩
  · cases hbranch with
    | poll h ho => exact Or.inl (pollRun_mac p env).1
    | idle h interval => exact Or.inl rfl
    | wait h ho => exact hmac
    | start h _ _ => exact hmac
  · cases hbranch with
    | poll h ho =>
        rcases List.mem_append.mp haddr with haddr | haddr
        · exact absurd haddr ((pollRun_mac p env).2 addr)
        · exact absurd haddr (ho.not_mem addr)
    | idle h interval => exact absurd haddr ((Adjusts.one interval).not_mem addr)
    | wait h ho => exact hreq addr ((List.mem_append.mp haddr).resolve_right (ho.not_mem addr))
    | start h _ _ =>
        -- a poll that is started only transmits
        refine hreq addr ((List.mem_append.mp haddr).resolve_right ?_)
        simp [startPoll, pollSend]

end Peer

/-! ## The requests of a peer -/

namespace Resolver

variable {s : Resolver F}

theorem perform_spec {caller : ArpCaller} {addrs : BitVec 32 → Prop} {out : List Output}
    (hout : ∀ addr, Output.ARP_request addr ∈ out → addrs addr) :
    ∃ arp, s.perform caller out = { s with arp := arp } ∧
      Net.Arp.Adds caller addrs s.arp arp := by
  induction out generalizing s with
  | nil => exact ⟨s.arp, rfl, .refl _⟩
  | cons o out ih =>
      have hrest : ∀ addr, Output.ARP_request addr ∈ out → addrs addr :=
        fun addr h => hout addr (List.mem_cons_of_mem _ h)
      cases o with
      | ARP_request addr =>
          obtain ⟨arp, heq, hadds⟩ := @ih (s.ARP_request addr caller) hrest
          have hfirst := Net.Arp.adds_ARP_request s.arp caller
            (hout addr List.mem_cons_self)
          exact ⟨arp, heq, hfirst.trans hadds⟩
      | transmit macDst dst packet callback => exact ih hrest
      | runAdjust interval => exact ih hrest
      | sample smp => exact ih hrest

/-- A member function of a peer changes this peer and adds requests of it. -/
theorem setPeer_spec {i : Fin MAX_NTP_PEERS} {r : Peer F × List Output}
    (hreq : ∀ addr, Output.ARP_request addr ∈ r.2 → addr = (s.peers i).id) :
    ∃ arp, s.setPeer i r = { s with arp := arp, peers := Function.update s.peers i r.1 } ∧
      Net.Arp.Adds (.peer i (s.number i)) (· = (s.peers i).id) s.arp arp :=
  perform_spec (s := { s with peers := Function.update s.peers i r.1 }) hreq

theorem setPeer_peers {i : Fin MAX_NTP_PEERS} {r : Peer F × List Output}
    (hreq : ∀ addr, Output.ARP_request addr ∈ r.2 → addr = (s.peers i).id) :
    (s.setPeer i r).peers = Function.update s.peers i r.1 := by
  obtain ⟨arp, heq, -⟩ := setPeer_spec hreq
  rw [heq]

end Resolver

end Gpsdo.Ntp
