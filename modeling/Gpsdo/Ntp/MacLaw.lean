import Gpsdo.Net.Answers
import Gpsdo.Ntp.PeerMac

set_option autoImplicit false

/-! # Whose MAC address a peer holds

A peer either copies the address of the router, or is told the address by a callback. The callback
does not look at the address that was asked for, and a request outlives the peer that made it. As
long as no callback comes to a slot that has been given to another peer, every peer holds an address
that is meant for it.
-/

namespace Gpsdo.Ntp

variable {F : Type} {h : ResolverHistory F} {s s' : Resolver F}

/-! ## The law -/

/-- A peer in a slot has copied the address of the router while its own address was off
the subnet. -/
def RouterCopied [Single F] (h : ResolverHistory F) (i : Fin MAX_NTP_PEERS) (n : ℕ) (id : BitVec 32)
    (mac : BitVec 48) : Prop :=
  ∃ s a s', (s, a) ∈ h ∧ Resolver.step s a = some s' ∧ s.number i = n ∧ (s.peers i).id = id ∧
    IPv4_testSubnet s.ipSubnet s.ipAddress id ≠ 0 ∧ s.macRouter = mac ∧ (s'.peers i).macAddr = mac

/-- A reply to us was received. -/
def ReplyReceived (h : ResolverHistory F) (SPA : BitVec 32) (SHA : BitVec 48) : Prop :=
  ∃ s frame mac, (s, ResolverAction.process frame mac) ∈ h ∧
    Net.arpReply frame mac = some (SPA, SHA)

/-- Where the address of a peer comes from. -/
def MacFrom [Single F] (h : ResolverHistory F) (i : Fin MAX_NTP_PEERS) (n : ℕ) (id : BitVec 32)
    (mac : BitVec 48) : Prop :=
  RouterCopied h i n id mac ∨ ReplyReceived h id mac

/-- The slot that the running callback is for, and the number of the peer that made the request. -/
def Resolver.callee (s : Resolver F) : Option (Fin MAX_NTP_PEERS × ℕ) :=
  match s.arp.pc with
  | .called _ k =>
      match (s.arp.requests k).callback with
      | .peer i n => some (i, n)
      | _ => none
  | _ => none

/-- A callback for a peer that has been deleted changes no other peer. -/
def Resolver.Harmless [Single F] (s : Resolver F) : ResolverAction F → Prop
  | .callback rest => ∀ c ∈ s.callee, ¬ ((s.peers c.1).isAllocated = true ∧ s.number c.1 = c.2) →
      ∀ s', s.callback rest = some s' →
        ∀ j, (s.peers j).isAllocated = true → s'.peers j = s.peers j
  | _ => True

/-- What should hold of the addresses of the peers. -/
structure MacLaw [Single F] (h : ResolverHistory F) (s : Resolver F) : Prop where
  mac : ∀ i, (s.peers i).isAllocated = true → (s.peers i).macAddr ≠ 0 →
    MacFrom h i (s.number i) (s.peers i).id (s.peers i).macAddr
  harmless : ∀ p ∈ h, p.1.Harmless p.2

/-- A callback that comes to a peer comes to the one that made the request. -/
def Resolver.Current (s : Resolver F) : ResolverAction F → Prop
  | .callback _ => ∀ c ∈ s.callee, (s.peers c.1).isAllocated = true → s.number c.1 = c.2
  | _ => True

/-! ## The invariant -/

/-- Who the waiting requests are from, and where the addresses come from. -/
structure MacInv [Single F] (h : ResolverHistory F) (s : Resolver F) : Prop where
  number : ∀ i, s.number i < s.numbers
  /-- A request of a peer that is still there is for its address. -/
  requests : ∀ k i n, s.arp.occupied k = true → (s.arp.requests k).callback = .peer i n →
    n < s.numbers ∧ ((s.peers i).isAllocated = true → s.number i = n →
      (s.arp.requests k).remoteAddress = (s.peers i).id)
  scan : ∀ SPA SHA, s.arp.pc.scan = some (.reply SPA SHA) → SPA ≠ 0 ∧ ReplyReceived h SPA SHA
  called : ∀ scan k, s.arp.pc = .called scan k → s.arp.occupied k = true ∧
    ∀ SPA SHA, scan = .reply SPA SHA → (s.arp.requests k).remoteAddress = SPA
  mac : ∀ i, (s.peers i).isAllocated = true → (s.peers i).macAddr ≠ 0 →
    MacFrom h i (s.number i) (s.peers i).id (s.peers i).macAddr

theorem ReplyReceived.cons {SPA : BitVec 32} {SHA : BitVec 48} (hr : ReplyReceived h SPA SHA)
    (p : Resolver F × ResolverAction F) : ReplyReceived (p :: h) SPA SHA := by
  obtain ⟨s, frame, mac, hmem, hreply⟩ := hr
  exact ⟨s, frame, mac, List.mem_cons_of_mem _ hmem, hreply⟩

variable [Single F]

theorem MacFrom.cons {i : Fin MAX_NTP_PEERS} {n : ℕ} {id : BitVec 32} {mac : BitVec 48}
    (hf : MacFrom h i n id mac) (p : Resolver F × ResolverAction F) :
    MacFrom (p :: h) i n id mac := by
  rcases hf with ⟨s, a, s', hmem, hrest⟩ | hr
  · exact Or.inl ⟨s, a, s', List.mem_cons_of_mem _ hmem, hrest⟩
  · exact Or.inr (hr.cons p)

namespace MacInv

theorem cons (hi : MacInv h s) (p : Resolver F × ResolverAction F) : MacInv (p :: h) s where
  number := hi.number
  requests := hi.requests
  scan SPA SHA hs := ⟨(hi.scan SPA SHA hs).1, (hi.scan SPA SHA hs).2.cons p⟩
  called := hi.called
  mac i ha h0 := (hi.mac i ha h0).cons p

theorem init : MacInv [] (Resolver.init : Resolver F) where
  number _ := Nat.zero_lt_one
  requests k i n hk := by cases hk
  scan SPA SHA hs := by cases hs
  called scan k hpc := by cases hpc
  mac i ha := by cases ha

section Adds

variable {caller : ArpCaller} {P : BitVec 32 → Prop} {arp : Net.Arp ArpCaller}

theorem scan_of_adds (hi : MacInv h s) (hadds : Net.Arp.Adds caller P s.arp arp)
    (SPA : BitVec 32) (SHA : BitVec 48) (hs : arp.pc.scan = some (.reply SPA SHA)) :
    SPA ≠ 0 ∧ ReplyReceived h SPA SHA := by
  rw [hadds.pc] at hs
  exact hi.scan SPA SHA hs

theorem called_of_adds (hi : MacInv h s) (hadds : Net.Arp.Adds caller P s.arp arp)
    (scan : Net.ArpScan) (k : Fin Net.Arp.MAX_REQUESTS) (hpc : arp.pc = .called scan k) :
    arp.occupied k = true ∧
      ∀ SPA SHA, scan = .reply SPA SHA → (arp.requests k).remoteAddress = SPA := by
  rw [hadds.pc] at hpc
  obtain ⟨hocc, hfrom⟩ := hi.called scan k hpc
  refine ⟨hadds.occupied hocc, ?_⟩
  intro SPA SHA hscan
  rw [hadds.kept k hocc]
  exact hfrom SPA SHA hscan

end Adds

/-- A member function of a peer: its address stays, or comes from where it should. -/
theorem setPeer (hi : MacInv h s) {i : Fin MAX_NTP_PEERS} {r : Peer F × List Output}
    (hid : r.1.id = (s.peers i).id)
    (hreq : ∀ addr, Output.ARP_request addr ∈ r.2 → addr = (s.peers i).id)
    (hmac : (s.peers i).isAllocated = true → r.1.macAddr = (s.peers i).macAddr ∨
      MacFrom h i (s.number i) (s.peers i).id r.1.macAddr) :
    MacInv h (s.setPeer i r) := by
  obtain ⟨arp, heq, hadds⟩ := Resolver.setPeer_spec hreq
  rw [heq]
  have hids (j) : (Function.update s.peers i r.1 j).id = (s.peers j).id := by
    by_cases hj : j = i
    · subst hj
      rw [Function.update_self, hid]
    · rw [Function.update_of_ne hj]
  have halloc (j) : (Function.update s.peers i r.1 j).isAllocated = (s.peers j).isAllocated := by
    rw [Source.isAllocated, hids, Source.isAllocated]
  exact
    { number := hi.number
      requests := by
        intro k j n hk hcall
        simp only [halloc, hids]
        by_cases hold : s.arp.occupied k = true
        · have hsame := hadds.kept k hold
          simp only [hsame] at hcall ⊢
          exact hi.requests k j n hold hcall
        · -- the peer itself has just asked
          obtain ⟨hcaller, haddr⟩ := (hadds.added k hk).resolve_left hold
          obtain ⟨rfl, rfl⟩ := ArpCaller.peer.inj (hcaller.symm.trans hcall)
          exact ⟨hi.number i, fun _ _ => haddr⟩
      scan := hi.scan_of_adds hadds
      called := hi.called_of_adds hadds
      mac := by
        intro j ha h0
        simp only [halloc, hids] at ha h0 ⊢
        by_cases hj : j = i
        · subst hj
          simp only [Function.update_self] at h0 ⊢
          rcases hmac ha with hsame | hfrom
          · rw [hsame] at h0 ⊢
            exact hi.mac j ha h0
          · exact hfrom
        · simp only [Function.update_of_ne hj] at h0 ⊢
          exact hi.mac j ha h0 }

/-- A request that is not from a peer. -/
theorem request (hi : MacInv h s) (remoteAddress : BitVec 32) {caller : ArpCaller}
    (hcaller : ∀ i n, caller ≠ .peer i n) : MacInv h (s.ARP_request remoteAddress caller) := by
  have hadds : Net.Arp.Adds caller (fun _ => True) s.arp (s.ARP_request remoteAddress caller).arp :=
    Net.Arp.adds_ARP_request s.arp caller trivial
  exact
    { number := hi.number
      requests := by
        intro k j n hk hcall
        by_cases hold : s.arp.occupied k = true
        · rw [hadds.kept k hold] at hcall ⊢
          exact hi.requests k j n hold hcall
        · obtain ⟨hnew, -⟩ := (hadds.added k hk).resolve_left hold
          exact absurd (hnew.symm.trans hcall) (hcaller j n)
      scan := hi.scan_of_adds hadds
      called := hi.called_of_adds hadds
      mac := hi.mac }

/-- A new peer has a number that no request has, and no address yet. -/
theorem newPeer (hi : MacInv h s) (ipAddr : BitVec 32) : MacInv h (s.newPeer ipAddr) := by
  unfold Resolver.newPeer
  cases (List.finRange MAX_NTP_PEERS).find? fun i => !(s.peers i).isAllocated with
  | none => exact hi
  | some slot =>
      exact
        { number := by
            intro i
            by_cases hslot : i = slot
            · subst hslot
              simp
            · simp only [Function.update_of_ne hslot]
              exact (hi.number i).trans (Nat.lt_succ_self _)
          requests := by
            intro k i n hk hcall
            obtain ⟨hlt, hfor⟩ := hi.requests k i n hk hcall
            refine ⟨hlt.trans (Nat.lt_succ_self _), ?_⟩
            intro ha hn
            by_cases hslot : i = slot
            · -- the number of the new peer is greater than that of any request
              subst hslot
              simp only [Function.update_self] at hn
              omega
            · simp only [Function.update_of_ne hslot] at ha hn ⊢
              exact hfor ha hn
          scan := hi.scan
          called := hi.called
          mac := by
            intro i ha h0
            by_cases hslot : i = slot
            · subst hslot
              simp only [Function.update_self] at h0
              exact absurd rfl h0
            · simp only [Function.update_of_ne hslot] at ha h0 ⊢
              exact hi.mac i ha h0 }

theorem deletePeer (hi : MacInv h s) (i : Fin MAX_NTP_PEERS) : MacInv h (s.deletePeer i) := by
  unfold Resolver.deletePeer
  -- the peer is not allocated any more
  have hcases (j) (ha : (Function.update s.peers i (s.peers i).destroy j).isAllocated = true) :
      Function.update s.peers i (s.peers i).destroy j = s.peers j := by
    refine Function.update_of_ne ?_ _ _
    rintro rfl
    rw [Function.update_self] at ha
    cases ha
  exact
    { number := hi.number
      requests := by
        intro k j n hk hcall
        obtain ⟨hlt, hfor⟩ := hi.requests k j n hk hcall
        refine ⟨hlt, ?_⟩
        intro ha hn
        simp only [hcases j ha] at ha ⊢
        exact hfor ha hn
      scan := hi.scan
      called := hi.called
      mac := by
        intro j ha h0
        simp only [hcases j ha] at ha h0 ⊢
        exact hi.mac j ha h0 }

/-- A turn of a loop. -/
theorem turn (hi : MacInv h s) {arp : Net.Arp ArpCaller} (hs : s.arp.loopTurn = some arp) :
    MacInv h { s with arp := arp } := by
  obtain ⟨scan, i, hpc, hframe, hcases⟩ := Net.Arp.loopTurn_spec hs
  generalize arp.pc = pc at hframe hcases
  subst hframe
  have hscan (SPA SHA) (h' : scan = .reply SPA SHA) : SPA ≠ 0 ∧ ReplyReceived h SPA SHA :=
    hi.scan SPA SHA (by rw [hpc, h']; rfl)
  rcases hcases with ⟨-, rfl⟩ | ⟨hlt, ⟨hhit, rfl⟩ | ⟨-, rfl⟩⟩
  · exact ⟨hi.number, hi.requests, (fun _ _ h => by cases h), (fun _ _ h => by cases h), hi.mac⟩
  · refine ⟨hi.number, hi.requests, fun SPA SHA h => hscan SPA SHA (Option.some.inj h),
      fun scan' k h => ?_, hi.mac⟩
    obtain ⟨rfl, rfl⟩ := Net.ArpPc.called.inj h
    cases scan with
    | reply SPA SHA =>
        have haddress : (s.arp.requests ⟨i, hlt⟩).remoteAddress = SPA := of_decide_eq_true hhit
        have h0 := (hscan SPA SHA rfl).1
        rw [← haddress] at h0
        refine ⟨by simpa [Net.Arp.occupied] using h0, fun SPA' SHA' h' => ?_⟩
        obtain ⟨rfl, -⟩ := Net.ArpScan.reply.inj h'
        exact haddress
    | expiry now => exact ⟨(Bool.and_eq_true _ _ ▸ hhit).1, fun _ _ h' => by cases h'⟩
  · exact ⟨hi.number, hi.requests, fun SPA SHA h => hscan SPA SHA (Option.some.inj h),
      (fun _ _ h => by cases h), hi.mac⟩

/-- The return of a callback. -/
theorem ret (hi : MacInv h s) {arp : Net.Arp ArpCaller} (hs : s.arp.ret = some arp) :
    MacInv h { s with arp := arp } := by
  obtain ⟨scan, i, hpc, hpc', -, -, -, -, -, hempty, hreq⟩ := Net.Arp.ret_spec hs
  exact
    { number := hi.number
      requests := by
        intro k j n hk hcall
        -- the slot that was called is empty now
        have hki : k ≠ i := by
          rintro rfl
          rw [hempty] at hk
          cases hk
        have hsame := hreq k hki
        simp only [Net.Arp.occupied, hsame] at hk hcall ⊢
        exact hi.requests k j n hk hcall
      scan := by
        intro SPA SHA hscan
        apply hi.scan SPA SHA
        rw [hpc]
        simp only [hpc'] at hscan
        exact hscan
      called := by
        intro scan k hcalled
        simp only [hpc'] at hcalled
        cases hcalled
      mac := hi.mac }

end MacInv

/-! ## Steps and runs -/

/-- A peer that copies the address of the router does so because it is off the subnet. -/
theorem MacStep.macFrom {i : Fin MAX_NTP_PEERS} {rest : Env F} {r : Peer F × List Output}
    (hm : MacStep (s.peers i) (s.env rest) r) {a : ResolverAction F} (hs : s.step a = some s')
    (hr : s'.peers i = r.1) :
    r.1.macAddr = (s.peers i).macAddr ∨
      MacFrom ((s, a) :: h) i (s.number i) (s.peers i).id r.1.macAddr := by
  refine hm.mac.imp_right ?_
  rintro ⟨hrouted, hmac⟩
  refine Or.inl ⟨s, a, s', List.mem_cons_self, hs, rfl, rfl, ?_, hmac.symm, by rw [hr]⟩
  simpa [Peer.isRouted, Resolver.env] using hrouted

theorem MacInv.callback (hi : MacInv h s) {rest : Env F} (hcur : s.Current (.callback rest))
    (hs : s.callback rest = some s') : MacInv ((s, .callback rest) :: h) s' := by
  have hstep : s.step (.callback rest) = some s' := hs
  unfold Resolver.callback at hs
  split at hs
  case h_2 => cases hs
  rename_i scan k hpc
  obtain ⟨arp, hret, rfl⟩ := Option.map_eq_some_iff.mp hs
  refine MacInv.ret ?_ hret
  obtain ⟨hocc, hfrom⟩ := hi.called scan k hpc
  have hi' := hi.cons (s, .callback rest)
  cases hcaller : (s.arp.requests k).callback with
  | router =>
      show MacInv _ (s.arpRouter scan.mac)
      unfold Resolver.arpRouter
      split
      · exact hi'.request _ fun _ _ h => by cases h
      · exact ⟨hi'.number, hi'.requests, hi'.scan, hi'.called, hi'.mac⟩
  | dns => exact hi'
  | peer i n =>
      rw [hcaller] at hstep
      show MacInv _ (s.setPeer i ((s.peers i).arpCallback scan.mac (s.env rest)))
      by_cases h0 : scan.mac = 0
      · -- the request has expired, and is made again
        have hm := (s.peers i).arpCallback_mac (s.env rest) h0
        refine hi'.setPeer hm.id hm.requests fun _ => hm.macFrom hstep ?_
        show (s.setPeer i _).peers i = _
        rw [Resolver.setPeer_peers hm.requests, Function.update_self]
      · have heq : (s.peers i).arpCallback scan.mac (s.env rest) =
            ({ s.peers i with macAddr := scan.mac }, []) := by
          rw [Peer.arpCallback, if_neg h0]
        rw [heq]
        refine hi'.setPeer rfl (by simp) fun ha => Or.inr (Or.inr ?_)
        -- the peer is the one that asked, so that the reply is from its address
        have hcallee : (i, n) ∈ s.callee := by
          rw [Resolver.callee, hpc]
          dsimp only
          rw [hcaller]
          exact rfl
        have hnumber := hcur (i, n) hcallee ha
        have haddress := (hi.requests k i n hocc hcaller).2 ha hnumber
        cases scan with
        | reply SPA SHA =>
            rw [← haddress, hfrom SPA SHA rfl]
            exact (hi.scan SPA SHA (by rw [hpc]; rfl)).2.cons _
        | expiry now => exact absurd rfl h0

theorem MacInv.step (hi : MacInv h s) {a : ResolverAction F} (hcur : s.Current a)
    (hs : s.step a = some s') : MacInv ((s, a) :: h) s' := by
  have hi' := hi.cons (s, a)
  cases a with
  | newPeer ipAddr =>
      obtain ⟨-, hs⟩ := Option.ite_none_right_eq_some.mp hs
      obtain rfl := Option.some.inj hs
      exact hi'.newPeer ipAddr
  | deletePeer i =>
      obtain ⟨-, hs⟩ := Option.ite_none_right_eq_some.mp hs
      obtain rfl := Option.some.inj hs
      exact hi'.deletePeer i
  | run i rest =>
      have hstep := hs
      obtain ⟨-, hs⟩ := Option.ite_none_right_eq_some.mp hs
      obtain rfl := Option.some.inj hs
      have hm := (s.peers i).run_mac (s.env rest)
      refine hi'.setPeer hm.id hm.requests fun _ => hm.macFrom hstep ?_
      rw [Resolver.setPeer_peers hm.requests, Function.update_self]
  | receive i packet stamps =>
      obtain ⟨-, hs⟩ := Option.ite_none_right_eq_some.mp hs
      obtain rfl := Option.some.inj hs
      obtain ⟨hmac, hid⟩ := (s.peers i).receive_mac packet stamps
      exact hi'.setPeer hid (by simp) fun _ => Or.inl hmac
  | txCallback i stamps =>
      obtain ⟨-, hs⟩ := Option.ite_none_right_eq_some.mp hs
      obtain rfl := Option.some.inj hs
      exact hi'.setPeer rfl (by simp) fun _ => Or.inl rfl
  | configure ipAddress ipSubnet ipRouter =>
      obtain ⟨-, hs⟩ := Option.ite_none_right_eq_some.mp hs
      obtain rfl := Option.some.inj hs
      exact ⟨hi'.number, hi'.requests, hi'.scan, hi'.called, hi'.mac⟩
  | refreshRouter =>
      obtain ⟨-, hs⟩ := Option.ite_none_right_eq_some.mp hs
      obtain rfl := Option.some.inj hs
      exact hi'.request _ fun _ _ h => by cases h
  | request remoteAddress =>
      obtain ⟨-, hs⟩ := Option.ite_none_right_eq_some.mp hs
      obtain rfl := Option.some.inj hs
      exact hi'.request _ fun _ _ h => by cases h
  | process frame mac =>
      obtain ⟨hidle, hs⟩ := Option.ite_none_right_eq_some.mp hs
      obtain rfl := Option.some.inj hs
      unfold Net.Arp.ARP_process
      split
      · rename_i SPA SHA hreply
        refine ⟨hi'.number, hi'.requests, fun SPA' SHA' h => ?_, (fun _ _ h => by cases h), hi'.mac⟩
        obtain ⟨rfl, rfl⟩ := Net.ArpScan.reply.inj (Option.some.inj h)
        exact ⟨Net.arpReply_ne_zero hreply, s, frame, mac, List.mem_cons_self, hreply⟩
      · exact hi'
  | arpRun =>
      obtain ⟨-, hs⟩ := Option.ite_none_right_eq_some.mp hs
      obtain rfl := Option.some.inj hs
      exact ⟨hi'.number, hi'.requests, (fun _ _ h => by cases h), (fun _ _ h => by cases h), hi'.mac⟩
  | turn =>
      obtain ⟨arp, hturn, rfl⟩ := Option.map_eq_some_iff.mp hs
      exact hi'.turn hturn
  | callback rest => exact hi.callback hcur hs
  | elapse d =>
      obtain rfl := Option.some.inj hs
      exact ⟨hi'.number, hi'.requests, hi'.scan, hi'.called, hi'.mac⟩

/-- A callback that comes to a slot without a peer changes no peer. -/
theorem Resolver.Current.harmless {a : ResolverAction F} (hcur : s.Current a) : s.Harmless a := by
  cases a with
  | callback rest =>
      intro c hc hdead s' hs j hj
      have hne : j ≠ c.1 := by
        rintro rfl
        exact hdead ⟨hj, hcur c hc hj⟩
      unfold Resolver.callee at hc
      unfold Resolver.callback at hs
      cases hpc : s.arp.pc with
      | called scan k =>
          rw [hpc] at hc hs
          obtain ⟨arp, -, rfl⟩ := Option.map_eq_some_iff.mp hs
          dsimp only at hc ⊢
          cases hcaller : (s.arp.requests k).callback with
          | peer i n =>
              rw [hcaller] at hc
              obtain rfl := Option.some.inj hc
              show (s.setPeer i _).peers j = _
              rw [Resolver.setPeer_peers (Peer.arpCallback_requests _ _ _),
                Function.update_of_ne hne]
          | _ =>
              rw [hcaller] at hc
              cases hc
      | _ =>
          rw [hpc] at hc
          cases hc
  | _ => trivial

/-- **As long as no callback comes to a peer that did not ask**, every peer holds an address that is
meant for it. -/
theorem macLaw_of_run (hrun : Run Resolver.step Resolver.init h s)
    (hcur : ∀ p ∈ h, p.1.Current p.2) : MacLaw h s where
  mac := (hrun.invariant_of_forall hcur MacInv.init fun _ _ _ _ hi hc hs => hi.step hc hs).mac
  harmless p hp := (hcur p hp).harmless

/-! ## A late reply -/

instance (s : Resolver F) : (a : ResolverAction F) → Decidable (s.Current a)
  | .callback _ => inferInstanceAs (Decidable (∀ c ∈ s.callee, _))
  | .newPeer _ => isTrue trivial
  | .deletePeer _ => isTrue trivial
  | .run _ _ => isTrue trivial
  | .receive _ _ _ => isTrue trivial
  | .txCallback _ _ => isTrue trivial
  | .configure _ _ _ => isTrue trivial
  | .refreshRouter => isTrue trivial
  | .request _ => isTrue trivial
  | .process _ _ => isTrue trivial
  | .arpRun => isTrue trivial
  | .turn => isTrue trivial
  | .elapse _ => isTrue trivial

/-- What a peer reads when the time is synchronized. -/
def synchronized (now : BitVec 64) : Env Nano where
  now := now
  seconds := 0
  ppsEthernetRaw := 1
  random := 0
  ipAddress := 0
  ipSubnet := 0
  macRouter := 0
  clkTaiUtcOffset := 0
  stats := scored 0

/-- A reply from 192.168.1.9 at 02:00:00:00:00:09 to 02:00:00:00:00:01. -/
def replyOfNine : List Net.Byte :=
  [2, 0, 0, 0, 0, 1, 2, 0, 0, 0, 0, 9, 8, 6, 0, 1, 8, 0, 6, 4, 0, 2, 2, 0, 0, 0, 0, 9, 192, 168, 1, 9,
    2, 0, 0, 0, 0, 1, 192, 168, 1, 2] ++ List.replicate 18 0

/-- An answer of a server of stratum 5. -/
def answerOfNine : HeaderNtp where
  mode := 4
  version := 4
  status := 0
  stratum := 5
  poll := 4
  precision := 0
  rootDelay := 0
  rootDispersion := 0
  refID := 0
  refTime := 0
  origTime := htonll 0x5000000000
  rxTime := 0
  txTime := 0

/-- The peer 192.168.1.9 is made, asks for its address and gets it. -/
def resolved : List (ResolverAction Nano) :=
  [.configure 0x0201a8c0 0x00ffffff 0x0101a8c0, .elapse 10, .newPeer 0x0901a8c0,
    .run 0 (synchronized 0x0a00000000), .process replyOfNine 0x020000000001, .turn,
    .callback (synchronized 0)] ++ List.replicate 16 ResolverAction.turn

/-- It asks again, is pruned for its stratum, and 192.168.1.10 takes its slot before the reply. -/
def lateReply : List (ResolverAction Nano) :=
  resolved ++ [.elapse 70, .run 0 (synchronized 0x5000000000), .txCallback 0 ⟨1, 2, 3⟩,
    .receive 0 answerOfNine ⟨4, 5, 6⟩, .run 0 (synchronized 0x5010000000),
    .run 0 (synchronized 0x50f0000000), .deletePeer 0, .newPeer 0x0a01a8c0,
    .process replyOfNine 0x020000000001, .turn, .callback (synchronized 0)]

theorem macLaw_of_run_resolved :
    ∃ h s, Run Resolver.step (Resolver.init : Resolver Nano) h s ∧
      (s.peers 0).id = 0x0901a8c0 ∧ (s.peers 0).macAddr = 0x020000000009 ∧ MacLaw h s := by
  obtain ⟨h, s, hrun, hp⟩ := @exists_run_of_replay _ _ Resolver.step
    (Resolver.init : Resolver Nano) resolved (fun h s => decide ((s.peers 0).id = 0x0901a8c0 ∧
      (s.peers 0).macAddr = 0x020000000009 ∧ ∀ p ∈ h, p.1.Current p.2)) (by decide +kernel)
  obtain ⟨hid, hmac, hcur⟩ := of_decide_eq_true hp
  exact ⟨h, s, hrun, hid, hmac, macLaw_of_run hrun hcur⟩

/-- No step of a history can have given the address to a peer: the peer is on the subnet, and no
reply from it came in. -/
def notFrom (id : BitVec 32) (p : Resolver Nano × ResolverAction Nano) : Bool :=
  IPv4_testSubnet p.1.ipSubnet p.1.ipAddress id == 0 &&
    match p.2 with
    | .process frame mac => (Net.arpReply frame mac).map Prod.fst != some id
    | _ => true

/-- **The peer 192.168.1.10 holds the address of 192.168.1.9.** -/
theorem not_macLaw_lateReply :
    ∃ h s, Run Resolver.step (Resolver.init : Resolver Nano) h s ∧
      (s.peers 0).id = 0x0a01a8c0 ∧ (s.peers 0).macAddr = 0x020000000009 ∧ ¬ MacLaw h s := by
  obtain ⟨h, s, hrun, hp⟩ := @exists_run_of_replay _ _ Resolver.step
    (Resolver.init : Resolver Nano) lateReply (fun h s => decide ((s.peers 0).id = 0x0a01a8c0 ∧
      (s.peers 0).macAddr = 0x020000000009 ∧ ∀ p ∈ h, notFrom 0x0a01a8c0 p = true))
    (by decide +kernel)
  obtain ⟨hid, hmac, hnot⟩ := of_decide_eq_true hp
  refine ⟨h, s, hrun, hid, hmac, fun hlaw => ?_⟩
  have hfrom := hlaw.mac 0 (by rw [Source.isAllocated, hid]; rfl) (by rw [hmac]; decide)
  rw [hid] at hfrom
  rcases hfrom with ⟨s', a, s'', hmem, -, -, -, hrouted, -⟩ | ⟨s', frame, mac, hmem, hreply⟩
  · have hp := hnot _ hmem
    simp only [notFrom, Bool.and_eq_true, beq_iff_eq] at hp
    exact hrouted hp.1
  · have hp := hnot _ hmem
    simp [notFrom, hreply] at hp

end Gpsdo.Ntp
