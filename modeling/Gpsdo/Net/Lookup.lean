import Gpsdo.Net.Dns

set_option autoImplicit false

/-! # The slots of the requests for names

`DNS_lookup` looks for an empty or expired slot, but its test passes over the slots whose requests
have expired, and stops at one that is still pending. It does what it should as long as some slot is
empty and no pending one comes before it.
-/

namespace Gpsdo.Net

namespace Dns

variable {s s' : Dns}

/-! ## What should hold of a lookup -/

/-- The callback of the slot is set, and the request is not expired. -/
def Pending (s : Dns) (i : Fin MAX_REQUESTS) : Prop :=
  (s.requests i).callback.isSome = true ∧ s.expired i = false

/-- The slot that a step writes a request to. -/
def writes (s : Dns) : DnsAction → Option (Fin MAX_REQUESTS)
  | .lookup _ _ => if s.refreshMAC.dnsMAC = 0 then none else s.findSlot
  | _ => none

/-- A lookup writes to no pending slot, and fails with -1 only when all slots are pending. -/
def LookupOk (s : Dns) : DnsAction → Prop
  | .lookup callback ref =>
      (∀ i, s.writes (.lookup callback ref) = some i → ¬ s.Pending i) ∧
        ((s.DNS_lookup callback ref).2 = -1 → ∀ i, s.Pending i)
  | _ => True

/-- A lookup with a valid MAC address finds an empty slot with expired requests before it. -/
def FindsEmpty (s : Dns) : DnsAction → Prop
  | .lookup _ _ => s.refreshMAC.dnsMAC ≠ 0 →
      ∃ i, (s.requests i).callback = none ∧ ∀ j < i, s.expired j = true
  | _ => True

/-! ## Lookups -/

theorem refreshMAC_requests (s : Dns) :
    s.refreshMAC.requests = s.requests ∧ s.refreshMAC.seconds = s.seconds ∧
      s.refreshMAC.deadline = s.deadline := by
  unfold refreshMAC DNS_updateMAC
  dsimp only
  split_ifs <;> exact ⟨rfl, rfl, rfl⟩

theorem expired_congr (h : s'.requests = s.requests) (hs : s'.seconds = s.seconds)
    (i : Fin MAX_REQUESTS) : s'.expired i = s.expired i := by
  rw [expired, expired, h, now, now, hs]

theorem findSlot_congr (h : s'.requests = s.requests) (hs : s'.seconds = s.seconds) :
    s'.findSlot = s.findSlot := by
  unfold findSlot
  rw [funext fun i => congrArg (!·) (expired_congr h hs i)]

/-- The result of a lookup and the slot it writes to. -/
theorem DNS_lookup_eq (s : Dns) (callback : Option Addr) (ref : Addr) :
    s.DNS_lookup callback ref =
      if s.refreshMAC.dnsMAC = 0 then (s.refreshMAC, -2)
      else
        match s.findSlot with
        | some i => (s.refreshMAC.register i callback ref, 0)
        | none => (s.refreshMAC, -1) := by
  obtain ⟨hreq, hsec, -⟩ := s.refreshMAC_requests
  have hfind := findSlot_congr hreq hsec
  unfold DNS_lookup
  dsimp only
  cases hslot : s.findSlot with
  | none => simp only [hfind, hslot]
  | some i => simp only [hfind, hslot]

/-- The slot is the first one that is not expired. -/
theorem findSlot_eq_some_iff {i : Fin MAX_REQUESTS} :
    s.findSlot = some i ↔ s.expired i = false ∧ ∀ j < i, s.expired j = true := by
  simp [findSlot, find?_finRange_eq_some_iff]

theorem findSlot_eq_none_iff : s.findSlot = none ↔ ∀ i, s.expired i = true := by
  simp [findSlot]

/-- **When a lookup does what it should.** -/
theorem lookupOk_iff (s : Dns) (a : DnsAction) : s.LookupOk a ↔ s.FindsEmpty a := by
  cases a with
  | lookup callback ref =>
      simp only [LookupOk, FindsEmpty, writes, DNS_lookup_eq]
      by_cases hmac : s.refreshMAC.dnsMAC = 0
      · simp [hmac]
      · rw [if_neg hmac, if_neg hmac]
        cases hslot : s.findSlot with
        | none =>
            -- all slots are expired, so that none is pending
            have hall := findSlot_eq_none_iff.mp hslot
            constructor
            · rintro ⟨-, hfail⟩ -
              have hpending := (hfail rfl 0).2
              rw [hall 0] at hpending
              cases hpending
            · intro hfinds
              obtain ⟨i, hempty, -⟩ := hfinds hmac
              have := hall i
              simp [expired, hempty] at this
        | some i =>
            obtain ⟨hfirst, hbefore⟩ := findSlot_eq_some_iff.mp hslot
            constructor
            · rintro ⟨hok, -⟩ -
              refine ⟨i, ?_, hbefore⟩
              by_contra hfull
              exact hok i rfl ⟨Option.isSome_iff_ne_none.mpr hfull, hfirst⟩
            · intro hfinds
              obtain ⟨j, hempty, hj⟩ := hfinds hmac
              -- both are the first slot that is not expired
              have hij : i = j := by
                rcases lt_trichotomy i j with hlt | heq | hgt
                · rw [hj i hlt] at hfirst
                  cases hfirst
                · exact heq
                · have := hbefore j hgt
                  simp [expired, hempty] at this
              refine ⟨fun k hk hpending => ?_, fun h => by cases h⟩
              obtain rfl := Option.some.inj hk
              rw [Pending, hij, hempty] at hpending
              exact absurd hpending.1 (by simp)
  | _ => exact Iff.rfl

/-! ## Expiry -/

/-- The times that the slots in use were given. -/
def Timed (s : Dns) : Prop := ∀ i, (s.requests i).callback.isSome = true →
  (s.requests i).expire = BitVec.ofNat 32 (s.deadline i) ∧
    s.deadline i ≤ s.seconds + REQUEST_EXPIRE

theorem Timed.congr (ht : s.Timed) (hreq : s'.requests = s.requests)
    (hdead : s'.deadline = s.deadline) (hsec : s.seconds ≤ s'.seconds) : s'.Timed := by
  intro i hi
  rw [hreq] at hi
  obtain ⟨hexpire, hle⟩ := ht i hi
  rw [hreq, hdead]
  exact ⟨hexpire, by omega⟩

theorem DNS_updateMAC_frame (s : Dns) : s.DNS_updateMAC.requests = s.requests ∧
    s.DNS_updateMAC.deadline = s.deadline ∧ s.DNS_updateMAC.seconds = s.seconds := by
  unfold DNS_updateMAC
  dsimp only
  split <;> exact ⟨rfl, rfl, rfl⟩

theorem Timed.register (ht : s.Timed) (i : Fin MAX_REQUESTS) (callback : Option Addr)
    (ref : Addr) : (s.register i callback ref).Timed := by
  intro j hj
  by_cases hji : j = i
  · subst hji
    simp only [Dns.register, Function.update_self, now]
    exact ⟨(BitVec.ofNat_add _ _).symm, le_refl _⟩
  · simp only [Dns.register, Function.update_of_ne hji] at hj ⊢
    exact ht j hj

theorem Timed.lookup (ht : s.Timed) (callback : Option Addr) (ref : Addr) :
    (s.DNS_lookup callback ref).1.Timed := by
  obtain ⟨hreq, hsec, hdead⟩ := s.refreshMAC_requests
  have hrefresh : s.refreshMAC.Timed := ht.congr hreq hdead hsec.ge
  rw [DNS_lookup_eq]
  split
  · exact hrefresh
  · split
    · exact hrefresh.register _ callback ref
    · exact hrefresh

/-- A response changes nothing, or it empties a slot. -/
theorem processFrame_cases (s : Dns) (mac : List Byte) (m : Mem Byte) (flen : ℕ) :
    (s.processFrame mac m flen).1 = s ∨ ∃ i, (s.processFrame mac m flen).1 = { s with
      requests := Function.update s.requests i { s.requests i with callback := none } } := by
  unfold processFrame
  split
  · exact Or.inl rfl
  · split
    · exact Or.inl rfl
    · rename_i i _
      dsimp only
      split_ifs
      · exact Or.inl rfl
      · exact Or.inr ⟨i, rfl⟩
      · exact Or.inl rfl

theorem Timed.step (ht : s.Timed) {a : DnsAction} (hs : s.step a = some s') : s'.Timed := by
  cases a with
  | lookup callback ref =>
      obtain rfl := Option.some.inj hs
      exact ht.lookup callback ref
  | processFrame mac m flen =>
      obtain rfl := Option.some.inj hs
      rcases s.processFrame_cases mac m flen with h | ⟨i, h⟩
      · rwa [h]
      · rw [h]
        intro j hj
        by_cases hji : j = i
        · subst hji
          simp at hj
        · simp only [Function.update_of_ne hji] at hj ⊢
          exact ht j hj
  | callbackARP remoteAddress macAddress =>
      obtain rfl := Option.some.inj hs
      obtain ⟨hreq, hdead, hsec⟩ := s.DNS_updateMAC_frame
      unfold callbackARP
      split_ifs
      · exact ht.congr hreq hdead hsec.ge
      · exact ht
      · exact ht
  | updateMAC =>
      obtain rfl := Option.some.inj hs
      obtain ⟨hreq, hdead, hsec⟩ := s.DNS_updateMAC_frame
      exact ht.congr hreq hdead hsec.ge
  | configure ipAddress ipSubnet ipDNS macRouter =>
      obtain rfl := Option.some.inj hs
      exact ht
  | elapse d =>
      obtain ⟨-, hs⟩ := Option.ite_none_right_eq_some.mp hs
      obtain rfl := Option.some.inj hs
      exact ht.congr rfl rfl (Nat.le_add_right _ _)

/-- **The test for expiry is right** for less than 2^31 seconds after it. -/
theorem Timed.expired_iff (ht : s.Timed) {i : Fin MAX_REQUESTS}
    (hi : (s.requests i).callback.isSome = true) (hgap : s.seconds < s.deadline i + 2 ^ 31) :
    s.expired i = true ↔ s.deadline i < s.seconds := by
  obtain ⟨hexpire, hle⟩ := ht i hi
  unfold REQUEST_EXPIRE at hle
  rw [expired, hi, hexpire, now, sdiff_ofNat (by omega) (by omega)]
  simp

/-! ## Runs -/

theorem timed_of_run {nextRequest : BitVec 16} {h : DnsHistory}
    (hrun : Run Dns.step (Dns.init nextRequest) h s) : s.Timed :=
  hrun.invariant (I := fun _ s => s.Timed) (fun i hi => by cases hi)
    fun _ _ _ _ ht hs => ht.step hs

/-- **The slots of a run.** The lookups of a run do what they should exactly when each finds an
empty slot with expired requests before it; and for 2^31 seconds a request counts as expired when
its time has passed. -/
theorem lookups_ok_iff {nextRequest : BitVec 16} {h : DnsHistory}
    (hrun : Run Dns.step (Dns.init nextRequest) h s) :
    ((∀ p ∈ h, p.1.LookupOk p.2) ↔ ∀ p ∈ h, p.1.FindsEmpty p.2) ∧
      ∀ i, (s.requests i).callback.isSome = true → s.seconds < s.deadline i + 2 ^ 31 →
        (s.expired i = true ↔ s.deadline i < s.seconds) :=
  ⟨forall₂_congr fun p _ => lookupOk_iff p.1 p.2,
    fun _ hi hgap => (timed_of_run hrun).expired_iff hi hgap⟩

/-- The address of the server is known, and a name is looked up. -/
def oneLookup : List DnsAction :=
  [.configure 0x0100000A 0x00FFFFFF 0x0200000A 0, .callbackARP 0x0200000A 0xAABBCCDDEEFF,
    .lookup (some 1) 2]

instance (s : Dns) : (a : DnsAction) → Decidable (s.FindsEmpty a)
  | .lookup _ _ => inferInstanceAs (Decidable (_ → _))
  | .processFrame _ _ _ => isTrue trivial
  | .callbackARP _ _ => isTrue trivial
  | .updateMAC => isTrue trivial
  | .configure _ _ _ _ => isTrue trivial
  | .elapse _ => isTrue trivial

theorem lookups_ok_iff_oneLookup : ∃ h s, Run Dns.step (Dns.init 0) h s ∧
    s.requests 0 = ⟨5, 0, some 1, 2⟩ ∧ (∀ p ∈ h, p.1.LookupOk p.2) ∧
      (s.expired 0 = true ↔ s.deadline 0 < s.seconds) := by
  obtain ⟨h, s, hrun, hp⟩ := @exists_run_of_replay _ _ Dns.step (Dns.init 0) oneLookup
    (fun h s => decide (s.requests 0 = ⟨5, 0, some 1, 2⟩ ∧
      s.seconds < s.deadline 0 + 2 ^ 31 ∧ ∀ p ∈ h, p.1.FindsEmpty p.2)) (by decide +kernel)
  obtain ⟨hreq, hgap, hok⟩ := of_decide_eq_true hp
  obtain ⟨hiff, htime⟩ := lookups_ok_iff hrun
  exact ⟨h, s, hrun, hreq, hiff.mpr hok, htime 0 (by rw [hreq]; rfl) hgap⟩

/-- A second name is looked up at once. Sixteen more are looked up when the request before has
expired. -/
def manyLookups : List DnsAction :=
  oneLookup ++ [.lookup (some 3) 4] ++
    (List.replicate 16 [DnsAction.elapse 6, .lookup (some 5) 6]).flatten

instance (s : Dns) (i : Fin MAX_REQUESTS) : Decidable (s.Pending i) :=
  inferInstanceAs (Decidable (_ ∧ _))

/-- The second lookup overwrites the request of the first, and the last one fails although no
request is pending. -/
theorem not_lookupOk_manyLookups : ∃ h s, Run Dns.step (Dns.init 0) h s ∧
    (∃ p ∈ h, p.1.Pending 0 ∧ p.1.writes p.2 = some 0 ∧ ¬ p.1.LookupOk p.2) ∧
    ∃ p ∈ h, (p.1.DNS_lookup (some 5) 6).2 = -1 ∧ (∀ i, ¬ p.1.Pending i) ∧
      ¬ p.1.LookupOk (.lookup (some 5) 6) := by
  obtain ⟨h, s, hrun, hp⟩ := @exists_run_of_replay _ _ Dns.step (Dns.init 0) manyLookups
    (fun h _ => decide ((∃ p ∈ h, p.1.Pending 0 ∧ p.1.writes p.2 = some 0) ∧
      ∃ p ∈ h, (p.1.DNS_lookup (some 5) 6).2 = -1 ∧ ∀ i, ¬ p.1.Pending i)) (by decide +kernel)
  obtain ⟨⟨p, hp, hpending, hwrites⟩, q, hq, hfail, hnone⟩ := of_decide_eq_true hp
  refine ⟨h, s, hrun, ⟨p, hp, hpending, hwrites, ?_⟩, q, hq, hfail, hnone, ?_⟩
  · cases ha : p.2 with
    | lookup callback ref =>
        rw [ha] at hwrites
        exact fun hok => hok.1 0 hwrites hpending
    | _ =>
        rw [ha] at hwrites
        cases hwrites
  · exact fun hok => hnone 0 (hok.2 hfail 0)

end Dns

end Gpsdo.Net
