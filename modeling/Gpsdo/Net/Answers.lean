import Gpsdo.Net.Expiry

set_option autoImplicit false

/-! # Every request for an address is answered once

A callback may make a new request while its own slot is still occupied, so that the new request gets
another slot. The invariant (`Ledger`) numbers the requests: each of them waits in a slot or has
been answered, and only the slot whose callback is running does both.
-/

namespace Gpsdo.Net

/-! ## Where the code is -/

/-- The slot whose callback is running. -/
def ArpPc.slot : ArpPc → Option (Fin Arp.MAX_REQUESTS)
  | .called _ i => some i
  | _ => none

/-- The loop that is running. -/
def ArpPc.scan : ArpPc → Option ArpScan
  | .idle => none
  | .turn scan _ => some scan
  | .called scan _ => some scan

/-- What is left of a loop. -/
def ArpPc.left : ArpPc → ℕ
  | .idle => 0
  | .turn _ i => 2 * (Arp.MAX_REQUESTS - i) + 1
  | .called _ i => 2 * (Arp.MAX_REQUESTS - i)

/-! ## Answers -/

variable {κ : Type} {h : ArpHistory κ} {s s' : Arp κ}

/-- A reply to us from the address `SPA` was received. -/
def ArpReceived (h : ArpHistory κ) (SPA : BitVec 32) (SHA : BitVec 48) : Prop :=
  ∃ s frame mac, (s, ArpAction.process frame mac) ∈ h ∧ arpReply frame mac = some (SPA, SHA)

/-- A request was answered. -/
def ArpAnswered (h : ArpHistory κ) (n : ℕ) : Prop := ∃ a ∈ arpAnswers h, a.ticket = n

/-- The answer is one to the request: the sender of a reply from its address, or the null address
after it has expired. -/
def ArpAnswers (h : ArpHistory κ) (r : ArpAccepted κ) (a : ArpAnswer κ) : Prop :=
  a.callback = r.callback ∧ a.remoteAddress = r.remoteAddress ∧
    (ArpReceived h r.remoteAddress a.scan.mac ∨
      (a.scan.mac = 0 ∧ r.time + Arp.REQUEST_EXPIRE < a.time))

/-- Nobody answers for the address 0. -/
theorem arpReply_ne_zero {frame : List Byte} {mac SHA : BitVec 48} {SPA : BitVec 32}
    (hreply : arpReply frame mac = some (SPA, SHA)) : SPA ≠ 0 := by
  simp only [arpReply, Option.ite_none_left_eq_some] at hreply
  obtain ⟨-, -, -, -, -, -, -, h0, heq⟩ := hreply
  obtain ⟨rfl, -⟩ := Prod.mk.inj (Option.some.inj heq)
  exact h0

theorem ArpReceived.ne_zero {SPA : BitVec 32} {SHA : BitVec 48} (hr : ArpReceived h SPA SHA) :
    SPA ≠ 0 := by
  obtain ⟨-, frame, mac, -, hreply⟩ := hr
  exact arpReply_ne_zero hreply

theorem ArpReceived.cons {SPA : BitVec 32} {SHA : BitVec 48} (hr : ArpReceived h SPA SHA)
    (p : Arp κ × ArpAction κ) : ArpReceived (p :: h) SPA SHA := by
  obtain ⟨s, frame, mac, hmem, hreply⟩ := hr
  exact ⟨s, frame, mac, List.mem_cons_of_mem _ hmem, hreply⟩

theorem ArpAnswers.cons {r : ArpAccepted κ} {a : ArpAnswer κ} (ha : ArpAnswers h r a)
    (p : Arp κ × ArpAction κ) : ArpAnswers (p :: h) r a := by
  obtain ⟨hcallback, haddress, hmac⟩ := ha
  exact ⟨hcallback, haddress, hmac.imp_left fun hr => hr.cons p⟩

/-- A step that accepts no request. -/
theorem arpAccepted_of_nil {a : ArpAction κ} (hacc : s.accepts a = []) :
    arpAccepted ((s, a) :: h) = arpAccepted h := by
  exact outputs_cons_of_nil hacc h

/-- A step that answers no request. -/
theorem arpAnswers_of_nil {a : ArpAction κ} (hans : s.answers a = []) :
    arpAnswers ((s, a) :: h) = arpAnswers h := by
  exact outputs_cons_of_nil hans h

theorem arpAnswered_of_nil {a : ArpAction κ} (hans : s.answers a = []) {n : ℕ} :
    ArpAnswered ((s, a) :: h) n ↔ ArpAnswered h n := by
  rw [ArpAnswered, arpAnswers_of_nil hans, ArpAnswered]

/-! ## The invariant -/

/-- The requests of a run and their answers. -/
structure Ledger (h : ArpHistory κ) (s : Arp κ) : Prop where
  count : (arpAccepted h).length = s.tickets
  filled : ∀ i, s.occupied i = true → ∃ r, (arpAccepted h)[s.ticket i]? = some r ∧
    (s.requests i).callback = r.callback ∧ (s.requests i).remoteAddress = r.remoteAddress ∧
      s.deadline i = r.time + Arp.REQUEST_EXPIRE
  inj : ∀ i j, s.occupied i = true → s.occupied j = true → s.ticket i = s.ticket j → i = j
  called : ∀ i, s.pc.slot = some i → s.occupied i = true
  /-- The slot whose callback is running is the one that has been answered. -/
  answered : ∀ i, s.occupied i = true → (ArpAnswered h (s.ticket i) ↔ s.pc.slot = some i)
  once : ((arpAnswers h).map ArpAnswer.ticket).Nodup
  sound : ∀ a ∈ arpAnswers h, ∃ r, (arpAccepted h)[a.ticket]? = some r ∧ ArpAnswers h r a
  complete : ∀ n < s.tickets, ArpAnswered h n ∨ ∃ i, s.occupied i = true ∧ s.ticket i = n
  received : ∀ SPA SHA, s.pc.scan = some (.reply SPA SHA) → ArpReceived h SPA SHA

theorem ledger_init [Inhabited κ] : Ledger [] (Arp.init : Arp κ) where
  count := rfl
  filled i hi := by cases hi
  inj i j hi := by cases hi
  called i hi := by cases hi
  answered i hi := by cases hi
  once := List.nodup_nil
  sound a ha := by cases ha
  complete n hn := absurd hn (Nat.not_lt_zero n)
  received SPA SHA hs := by cases hs

/-- A step that leaves the table, and neither accepts a request nor answers one. -/
theorem Ledger.frame (hl : Ledger h s) {a : ArpAction κ} (hacc : s.accepts a = [])
    (hans : s.answers a = []) (hreq : s'.requests = s.requests) (hdead : s'.deadline = s.deadline)
    (hticket : s'.ticket = s.ticket) (htickets : s'.tickets = s.tickets)
    (hslot : s'.pc.slot = s.pc.slot)
    (hscan : ∀ SPA SHA, s'.pc.scan = some (.reply SPA SHA) → ArpReceived ((s, a) :: h) SPA SHA) :
    Ledger ((s, a) :: h) s' := by
  have hA : arpAccepted ((s, a) :: h) = arpAccepted h := arpAccepted_of_nil hacc
  have hB : arpAnswers ((s, a) :: h) = arpAnswers h := arpAnswers_of_nil hans
  have hN (n : ℕ) : ArpAnswered ((s, a) :: h) n ↔ ArpAnswered h n := arpAnswered_of_nil hans
  have hocc (i) : s'.occupied i = s.occupied i := by
    rw [Arp.occupied, hreq, Arp.occupied]
  exact
    { count := by
        rw [hA, htickets]
        exact hl.count
      filled := by
        intro i hi
        rw [hA, hticket, hreq, hdead]
        exact hl.filled i (hocc i ▸ hi)
      inj := by
        intro i j hi hj
        rw [hticket]
        exact hl.inj i j (hocc i ▸ hi) (hocc j ▸ hj)
      called := by
        intro i hi
        rw [hocc]
        exact hl.called i (hslot ▸ hi)
      answered := by
        intro i hi
        rw [hN, hticket, hslot]
        exact hl.answered i (hocc i ▸ hi)
      once := by
        rw [hB]
        exact hl.once
      sound := by
        intro a ha
        rw [hB] at ha
        obtain ⟨r, hr, hra⟩ := hl.sound a ha
        exact ⟨r, by rw [hA, hr], hra.cons _⟩
      complete := by
        intro n hn
        rw [hN]
        rcases hl.complete n (htickets ▸ hn) with hn | ⟨i, hi, hin⟩
        · exact Or.inl hn
        · exact Or.inr ⟨i, by rw [hocc, hi], by rw [hticket, hin]⟩
      received := hscan }

/-! ## The steps -/

/-- An accepted request takes an empty slot. -/
theorem Ledger.register (hl : Ledger h s) {i : Fin Arp.MAX_REQUESTS} (hi : s.occupied i = false)
    {remoteAddress : BitVec 32} (h0 : remoteAddress ≠ 0) {callback : κ} {a : ArpAction κ}
    (hacc : s.accepts a = [⟨remoteAddress, callback, s.seconds⟩]) (hans : s.answers a = []) :
    Ledger ((s, a) :: h) (s.register i remoteAddress callback) := by
  have hA : arpAccepted ((s, a) :: h) =
      arpAccepted h ++ [⟨remoteAddress, callback, s.seconds⟩] := by
    rw [arpAccepted, outputs_cons, hacc, arpAccepted]
  have hB : arpAnswers ((s, a) :: h) = arpAnswers h := arpAnswers_of_nil hans
  have hN (n : ℕ) : ArpAnswered ((s, a) :: h) n ↔ ArpAnswered h n := arpAnswered_of_nil hans
  have hlt {n : ℕ} {r : ArpAccepted κ} (hr : (arpAccepted h)[n]? = some r) : n < s.tickets := by
    rw [← hl.count]
    exact (List.getElem?_eq_some_iff.mp hr).1
  have hold {n : ℕ} {r : ArpAccepted κ} (hr : (arpAccepted h)[n]? = some r) :
      (arpAccepted ((s, a) :: h))[n]? = some r := by
    rw [hA, List.getElem?_append_left (by rw [hl.count]; exact hlt hr), hr]
  -- an occupied slot is the new one, or is as it was
  have hcases (j) (hj : (s.register i remoteAddress callback).occupied j = true) :
      j = i ∨ (j ≠ i ∧ s.occupied j = true) := by
    rw [Arp.occupied_register h0] at hj
    by_cases hji : j = i
    · exact Or.inl hji
    · exact Or.inr ⟨hji, by simpa [hji] using hj⟩
  have hnew : (s.register i remoteAddress callback).ticket i = s.tickets := Function.update_self ..
  have hsame {j} (hji : j ≠ i) : (s.register i remoteAddress callback).ticket j = s.ticket j :=
    Function.update_of_ne hji ..
  have hticket {j} (hj : s.occupied j = true) : s.ticket j < s.tickets := by
    obtain ⟨r, hr, -⟩ := hl.filled j hj
    exact hlt hr
  have hfresh : ¬ ArpAnswered h s.tickets := by
    rintro ⟨b, hb, hbn⟩
    obtain ⟨r, hr, -⟩ := hl.sound b hb
    exact absurd (hlt hr) (by omega)
  exact
    { count := by
        rw [hA, List.length_append, hl.count]
        rfl
      filled := by
        intro j hj
        rcases hcases j hj with rfl | ⟨hji, hj⟩
        · rw [hnew, hA, ← hl.count, List.getElem?_concat_length]
          exact ⟨_, rfl, by simp [Arp.register]⟩
        · obtain ⟨r, hr, hfill⟩ := hl.filled j hj
          refine ⟨r, by rw [hsame hji, hold hr], ?_⟩
          simpa [Arp.register, hji] using hfill
      inj := by
        intro j k hj hk hjk
        rcases hcases j hj with rfl | ⟨hji, hj'⟩
        · rcases hcases k hk with rfl | ⟨hki, hk'⟩
          · rfl
          · rw [hnew, hsame hki] at hjk
            exact absurd (hticket hk') (by omega)
        · rcases hcases k hk with rfl | ⟨hki, hk'⟩
          · rw [hnew, hsame hji] at hjk
            exact absurd (hticket hj') (by omega)
          · rw [hsame hji, hsame hki] at hjk
            exact hl.inj j k hj' hk' hjk
      called := by
        intro j hj
        rw [Arp.occupied_register h0, hl.called j hj, Bool.or_true]
      answered := by
        intro j hj
        rw [hN]
        rcases hcases j hj with rfl | ⟨hji, hj⟩
        · -- the slot was empty, so that no callback is running for it
          rw [hnew]
          refine ⟨fun h => absurd h hfresh, fun hcall => ?_⟩
          rw [hl.called j hcall] at hi
          cases hi
        · rw [hsame hji]
          exact hl.answered j hj
      once := by
        rw [hB]
        exact hl.once
      sound := by
        intro b hb
        rw [hB] at hb
        obtain ⟨r, hr, hrb⟩ := hl.sound b hb
        exact ⟨r, hold hr, hrb.cons _⟩
      complete := by
        intro n hn
        rw [hN]
        rcases Nat.lt_succ_iff_lt_or_eq.mp hn with hn | rfl
        · rcases hl.complete n hn with hn | ⟨j, hj, hjn⟩
          · exact Or.inl hn
          · have hji : j ≠ i := by
              rintro rfl
              rw [hi] at hj
              cases hj
            refine Or.inr ⟨j, ?_, by rw [hsame hji, hjn]⟩
            rw [Arp.occupied_register h0, hj, Bool.or_true]
        · exact Or.inr ⟨i, by rw [Arp.occupied_register h0]; simp, hnew⟩
      received := by
        intro SPA SHA hs
        exact (hl.received SPA SHA hs).cons _ }

/-- A turn of a loop that calls the callback of a slot. -/
theorem Ledger.call (hl : Ledger h s) (ht : s.Timing) {scan : ArpScan} {i : Fin Arp.MAX_REQUESTS}
    (hpc : s.pc = .turn scan i.val) (hhit : s.hits i scan = true) :
    Ledger ((s, .turn) :: h) { s with pc := .called scan i } := by
  have hB : arpAnswers ((s, .turn) :: h) = arpAnswers h ++
      [⟨s.ticket i, (s.requests i).callback, (s.requests i).remoteAddress, scan, s.seconds⟩] := by
    rw [arpAnswers, outputs_cons, arpAnswers, Arp.answers, hpc]
    simp only [i.isLt, dite_true, Fin.eta, if_pos hhit]
  have hA : arpAccepted ((s, .turn) :: h) = arpAccepted h := arpAccepted_of_nil rfl
  have hN (n : ℕ) : ArpAnswered ((s, .turn) :: h) n ↔ ArpAnswered h n ∨ s.ticket i = n := by
    simp only [ArpAnswered, hB, List.mem_append, List.mem_singleton, or_and_right, exists_or,
      exists_eq_left]
  have hreceived (SPA SHA) (hscan : scan = .reply SPA SHA) : ArpReceived h SPA SHA :=
    hl.received SPA SHA (by rw [hpc, hscan]; rfl)
  -- the slot is occupied: nobody answers for the address 0
  have hi : s.occupied i = true := by
    cases scan with
    | reply SPA SHA =>
        have haddress : (s.requests i).remoteAddress = SPA := of_decide_eq_true hhit
        have h0 := (hreceived SPA SHA rfl).ne_zero
        rw [← haddress] at h0
        simpa [Arp.occupied] using h0
    | expiry now => exact (Bool.and_eq_true _ _ ▸ hhit).1
  have hnone : ¬ ArpAnswered h (s.ticket i) := by
    rw [hl.answered i hi, hpc]
    exact fun h => by cases h
  obtain ⟨r, hr, hcallback, haddress, hdead⟩ := hl.filled i hi
  exact
    { count := by
        rw [hA]
        exact hl.count
      filled := by
        intro j hj
        rw [hA]
        exact hl.filled j hj
      inj := hl.inj
      called := by
        intro j hj
        obtain rfl : i = j := Option.some.inj hj
        exact hi
      answered := by
        intro j hj
        rw [hN, hl.answered j hj, hpc]
        constructor
        · rintro (h | h)
          · cases h
          · exact congrArg some (hl.inj i j hi hj h)
        · intro h
          obtain rfl : i = j := Option.some.inj h
          exact Or.inr rfl
      once := by
        rw [hB, List.map_append, List.nodup_append]
        refine ⟨hl.once, by simp, ?_⟩
        intro n hn m hm hnm
        obtain ⟨b, hb, hbn⟩ := List.mem_map.mp hn
        obtain rfl : m = s.ticket i := by simpa using hm
        exact hnone ⟨b, hb, hbn.trans hnm⟩
      sound := by
        intro b hb
        rw [hB, List.mem_append, List.mem_singleton] at hb
        rcases hb with hb | rfl
        · obtain ⟨r', hr', hrb⟩ := hl.sound b hb
          exact ⟨r', by rw [hA, hr'], hrb.cons _⟩
        · refine ⟨r, by rw [hA, hr], hcallback, haddress, ?_⟩
          cases scan with
          | reply SPA SHA =>
              have hfrom : (s.requests i).remoteAddress = SPA := of_decide_eq_true hhit
              rw [← haddress, hfrom]
              exact Or.inl ((hreceived SPA SHA rfl).cons _)
          | expiry now =>
              -- the loop compares with the time at its beginning, which is not after this call
              have hexp : s.pc.expiry = some (now, i.val) := by rw [hpc]; rfl
              have hlate := (ht.hits_iff hexp hi).mp hhit
              have htick := ht.tick
              refine Or.inr ⟨rfl, ?_⟩
              show r.time + Arp.REQUEST_EXPIRE < s.seconds
              omega
      complete := by
        intro n hn
        rw [hN]
        rcases hl.complete n hn with hn | hn
        · exact Or.inl (Or.inl hn)
        · exact Or.inr hn
      received := by
        intro SPA SHA hs
        exact (hreceived SPA SHA (Option.some.inj hs)).cons _ }

/-- A callback returns, and its slot is emptied. -/
theorem Ledger.ret (hl : Ledger h s) (hs : s.ret = some s') : Ledger ((s, .ret) :: h) s' := by
  obtain ⟨scan, i, hpc, hpc', -, -, hdead, hticket, htickets, hempty, hreq⟩ := Arp.ret_spec hs
  have hB : arpAnswers ((s, .ret) :: h) = arpAnswers h := arpAnswers_of_nil rfl
  have hA : arpAccepted ((s, .ret) :: h) = arpAccepted h := arpAccepted_of_nil rfl
  have hN (n : ℕ) : ArpAnswered ((s, .ret) :: h) n ↔ ArpAnswered h n := arpAnswered_of_nil rfl
  have hslot : s.pc.slot = some i := by rw [hpc]; rfl
  have hocc {j} (hj : s'.occupied j = true) : j ≠ i ∧ s.occupied j = true := by
    have hji : j ≠ i := by
      rintro rfl
      rw [hempty] at hj
      cases hj
    refine ⟨hji, ?_⟩
    unfold Arp.occupied at hj ⊢
    rwa [← hreq j hji]
  exact
    { count := by
        rw [hA, htickets]
        exact hl.count
      filled := by
        intro j hj
        obtain ⟨hji, hj⟩ := hocc hj
        rw [hA, hticket, hdead, hreq j hji]
        exact hl.filled j hj
      inj := by
        intro j k hj hk hjk
        rw [hticket] at hjk
        exact hl.inj j k (hocc hj).2 (hocc hk).2 hjk
      called := by
        intro j hj
        rw [hpc'] at hj
        cases hj
      answered := by
        intro j hj
        obtain ⟨hji, hj⟩ := hocc hj
        rw [hN, hticket, hl.answered j hj, hslot, hpc']
        exact ⟨fun h => absurd (Option.some.inj h).symm hji, fun h => by cases h⟩
      once := by
        rw [hB]
        exact hl.once
      sound := by
        intro b hb
        rw [hB] at hb
        obtain ⟨r, hr, hrb⟩ := hl.sound b hb
        exact ⟨r, by rw [hA, hr], hrb.cons _⟩
      complete := by
        intro n hn
        rw [hN]
        rcases hl.complete n (htickets ▸ hn) with hn | ⟨j, hj, hjn⟩
        · exact Or.inl hn
        · by_cases hji : j = i
          · -- the emptied slot is the one that was answered
            subst hji
            exact Or.inl (hjn ▸ (hl.answered j hj).mpr hslot)
          · refine Or.inr ⟨j, ?_, by rw [hticket, hjn]⟩
            rw [Arp.occupied, hreq j hji]
            exact hj
      received := by
        intro SPA SHA hs
        refine (hl.received SPA SHA ?_).cons _
        rw [hpc'] at hs
        rw [hpc]
        exact hs }

theorem Ledger.step (hl : Ledger h s) (ht : s.Timing) {a : ArpAction κ} (hs : s.step a = some s') :
    Ledger ((s, a) :: h) s' := by
  cases a with
  | request remoteAddress callback =>
      have hreq : remoteAddress ≠ 0 ∧ s' = (s.ARP_request remoteAddress callback).1 := by
        simp only [Arp.step] at hs
        split at hs
        · cases hs
        · obtain ⟨h0, hs⟩ := Option.ite_none_right_eq_some.mp hs
          exact ⟨h0, (Option.some.inj hs).symm⟩
      obtain ⟨h0, rfl⟩ := hreq
      cases hfind : s.findSlot with
      | some i =>
          have heq : s.ARP_request remoteAddress callback =
              (s.register i remoteAddress callback, 0) := by rw [Arp.ARP_request, hfind]
          rw [heq]
          exact hl.register (Arp.findSlot_eq_some_iff.mp hfind).1 h0
            (by rw [Arp.accepts, heq]; rfl) rfl
      | none =>
          have heq : s.ARP_request remoteAddress callback = (s, -1) := by
            rw [Arp.ARP_request, hfind]
          rw [heq]
          exact hl.frame (by rw [Arp.accepts, heq]; rfl) rfl rfl rfl rfl rfl rfl
            fun SPA SHA h => (hl.received SPA SHA h).cons _
  | process frame mac =>
      obtain ⟨hidle, hs⟩ := Option.ite_none_right_eq_some.mp hs
      obtain rfl := Option.some.inj hs
      cases hreply : arpReply frame mac with
      | some p =>
          have heq : s.ARP_process frame mac = { s with pc := .turn (.reply p.1 p.2) 0 } := by
            rw [Arp.ARP_process, hreply]
          rw [heq]
          refine hl.frame rfl rfl rfl rfl rfl rfl (by rw [hidle]; rfl) fun SPA SHA h => ?_
          obtain ⟨rfl, rfl⟩ := ArpScan.reply.inj (Option.some.inj h)
          exact ⟨s, frame, mac, List.mem_cons_self, hreply⟩
      | none =>
          have heq : s.ARP_process frame mac = s := by rw [Arp.ARP_process, hreply]
          rw [heq]
          exact hl.frame rfl rfl rfl rfl rfl rfl rfl fun SPA SHA h => (hl.received SPA SHA h).cons _
  | run =>
      obtain ⟨hidle, hs⟩ := Option.ite_none_right_eq_some.mp hs
      obtain rfl := Option.some.inj hs
      exact hl.frame rfl rfl rfl rfl rfl rfl (by rw [hidle]; rfl) fun SPA SHA h => by cases h
  | turn =>
      obtain ⟨scan, i, hpc, hframe, hcases⟩ := Arp.loopTurn_spec hs
      generalize s'.pc = pc at hframe hcases
      subst hframe
      rcases hcases with ⟨hend, rfl⟩ | ⟨hlt, ⟨hhit, rfl⟩ | ⟨hmiss, rfl⟩⟩
      · refine hl.frame rfl ?_ rfl rfl rfl rfl (by rw [hpc]; rfl) fun SPA SHA h => by cases h
        rw [Arp.answers, hpc]
        exact dif_neg (not_lt.mpr hend)
      · exact hl.call ht hpc hhit
      · refine hl.frame rfl ?_ rfl rfl rfl rfl (by rw [hpc]; rfl) fun SPA SHA h => ?_
        · rw [Arp.answers, hpc]
          simp only [hlt, dite_true, hmiss, if_neg Bool.false_ne_true]
        · exact (hl.received SPA SHA (by rw [hpc]; exact h)).cons _
  | ret => exact hl.ret hs
  | elapse d =>
      simp only [Arp.step, Arp.elapse] at hs
      obtain ⟨-, hs⟩ := Option.ite_none_right_eq_some.mp hs
      obtain rfl := Option.some.inj hs
      exact hl.frame rfl rfl rfl rfl rfl rfl rfl fun SPA SHA h => (hl.received SPA SHA h).cons _

/-! ## Runs -/

theorem ledger_of_run [Inhabited κ] (hrun : Run Arp.step Arp.init h s) :
    Ledger h s ∧ s.Timing := by
  have hstart : Ledger [] (Arp.init : Arp κ) ∧ (Arp.init : Arp κ).Timing := by
    refine ⟨ledger_init, le_refl _, ?_, (fun i hi => ?_), (fun _ i hi => ?_), fun now k h => ?_⟩
    · show 0 < 0 + 2 ^ 31
      omega
    · cases hi
    · cases hi
    · cases h
  exact hrun.invariant (I := fun h s => Ledger h s ∧ s.Timing) hstart
    fun h s a s' ih hs => ⟨ih.1.step ih.2 hs, ih.2.step hs⟩

/-- A loop goes on until it is done. -/
theorem exists_step_of_ne_idle (hpc : s.pc ≠ .idle) :
    ∃ s', (s.step .turn = some s' ∨ s.step .ret = some s') ∧ s'.pc.left < s.pc.left := by
  cases hcase : s.pc with
  | idle => exact absurd hcase hpc
  | turn scan i =>
      obtain ⟨s', hs⟩ : ∃ s', s.loopTurn = some s' := by
        unfold Arp.loopTurn
        rw [hcase]
        dsimp only
        split_ifs <;> exact ⟨_, rfl⟩
      obtain ⟨scan', k, hpc', -, hcases⟩ := Arp.loopTurn_spec hs
      obtain ⟨rfl, rfl⟩ := ArpPc.turn.inj (hcase.symm.trans hpc')
      refine ⟨s', Or.inl hs, ?_⟩
      rcases hcases with ⟨-, h⟩ | ⟨hi, ⟨-, h⟩ | ⟨-, h⟩⟩ <;>
        rw [h] <;> simp only [ArpPc.left] <;> omega
  | called scan i =>
      obtain ⟨s', hs⟩ : ∃ s', s.ret = some s' := by
        unfold Arp.ret
        rw [hcase]
        exact ⟨_, rfl⟩
      obtain ⟨scan', k, hpc', h, -⟩ := Arp.ret_spec hs
      obtain ⟨rfl, rfl⟩ := ArpPc.called.inj (hcase.symm.trans hpc')
      refine ⟨s', Or.inr hs, ?_⟩
      have := i.isLt
      rw [h]
      simp only [ArpPc.left]
      omega

/-! ## The law -/

/-- What a run has done about its requests. -/
structure ArpLaw (h : ArpHistory κ) (s : Arp κ) : Prop where
  /-- No request is answered twice. -/
  once : ((arpAnswers h).map ArpAnswer.ticket).Nodup
  /-- An answer is one to an accepted request. -/
  sound : ∀ a ∈ arpAnswers h, ∃ r, (arpAccepted h)[a.ticket]? = some r ∧ ArpAnswers h r a
  /-- A request that has not been answered waits in a slot. -/
  waiting : ∀ n r, (arpAccepted h)[n]? = some r → ArpAnswered h n ∨ ∃ i, s.occupied i = true ∧
    (s.requests i).callback = r.callback ∧ (s.requests i).remoteAddress = r.remoteAddress
  /-- A request is answered once `arpRun` has run past its expiry. -/
  expired : s.pc = .idle → ∀ n r, (arpAccepted h)[n]? = some r →
    r.time + Arp.REQUEST_EXPIRE < s.lastTick → ArpAnswered h n
  /-- Every loop ends. -/
  ends : s.pc ≠ .idle →
    ∃ s', (s.step .turn = some s' ∨ s.step .ret = some s') ∧ s'.pc.left < s.pc.left
  /-- A request fails when all slots are occupied. -/
  full : ∀ remoteAddress callback,
    (s.ARP_request remoteAddress callback).2 = -1 ↔ ∀ i, s.occupied i = true

theorem Ledger.law (hl : Ledger h s) (ht : s.Timing) : ArpLaw h s := by
  have hwait {n : ℕ} {r : ArpAccepted κ} (hr : (arpAccepted h)[n]? = some r) :
      ArpAnswered h n ∨ ∃ i, s.occupied i = true ∧ (s.requests i).callback = r.callback ∧
        (s.requests i).remoteAddress = r.remoteAddress ∧
          s.deadline i = r.time + Arp.REQUEST_EXPIRE := by
    have hn : n < s.tickets := by
      rw [← hl.count]
      exact (List.getElem?_eq_some_iff.mp hr).1
    refine (hl.complete n hn).imp_right ?_
    rintro ⟨i, hi, rfl⟩
    obtain ⟨r', hr', hfill⟩ := hl.filled i hi
    obtain rfl := Option.some.inj (hr.symm.trans hr')
    exact ⟨i, hi, hfill⟩
  exact
    { once := hl.once
      sound := hl.sound
      waiting := fun n r hr => (hwait hr).imp_right
        fun ⟨i, hi, hcallback, haddress, _⟩ => ⟨i, hi, hcallback, haddress⟩
      expired := fun hpc n r hr hlate => by
        refine (hwait hr).resolve_right ?_
        rintro ⟨i, hi, -, -, hdead⟩
        have := ht.done (by rw [hpc]; rfl) i hi
        omega
      ends := exists_step_of_ne_idle
      full := fun _ _ => Arp.ARP_request_eq_neg_one_iff }

/-- **Every request is answered exactly once.** -/
theorem arpLaw_of_run [Inhabited κ] (hrun : Run Arp.step Arp.init h s) : ArpLaw h s := by
  obtain ⟨hl, ht⟩ := ledger_of_run hrun
  exact hl.law ht

/-- A reply from 192.168.1.1 at 02:00:00:00:00:09 to 02:00:00:00:00:01. -/
def replyFrame : List Byte :=
  [2, 0, 0, 0, 0, 1, 2, 0, 0, 0, 0, 9, 8, 6, 0, 1, 8, 0, 6, 4, 0, 2, 2, 0, 0, 0, 0, 9, 192, 168, 1, 1,
    2, 0, 0, 0, 0, 1, 192, 168, 1, 2] ++ List.replicate 18 0

/-- A request expires, its callback asks for the same address again, and the reply answers that. -/
def expiredThenReply : List (ArpAction ℕ) :=
  [.request 0x0101a8c0 7, .elapse 6, .run, .turn, .request 0x0101a8c0 7, .ret] ++
    List.replicate 16 ArpAction.turn ++ [.process replyFrame 0x020000000001, .turn, .turn, .ret] ++
    List.replicate 15 ArpAction.turn

theorem arpLaw_of_run_expiredThenReply : ∃ h s, Run Arp.step Arp.init h s ∧
    arpAnswers h = [⟨0, 7, 0x0101a8c0, .expiry 6, 6⟩,
      ⟨1, 7, 0x0101a8c0, .reply 0x0101a8c0 0x020000000009, 6⟩] ∧
    s.pc = .idle ∧ ArpLaw h s := by
  obtain ⟨h, s, hrun, hp⟩ := @exists_run_of_replay _ _ Arp.step (Arp.init : Arp ℕ) expiredThenReply
    (fun h s => decide (arpAnswers h = [⟨0, 7, 0x0101a8c0, .expiry 6, 6⟩,
      ⟨1, 7, 0x0101a8c0, .reply 0x0101a8c0 0x020000000009, 6⟩] ∧ s.pc = .idle))
    (by decide +kernel)
  obtain ⟨hanswers, hidle⟩ := of_decide_eq_true hp
  exact ⟨h, s, hrun, hanswers, hidle, arpLaw_of_run hrun⟩

end Gpsdo.Net
