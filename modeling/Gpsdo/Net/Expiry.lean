import Gpsdo.Net.Arp

set_option autoImplicit false

/-! # When a request for an address expires

`arpRun` compares 32 bits of the time. As long as it is started often enough, these comparisons are
those of the times themselves: after a run of its loop no request is left that was past its time
when the loop began.
-/

namespace Gpsdo.Net

namespace Arp

variable {κ : Type} {s s' : Arp κ}

/-! ## Slots -/

/-- The slot is the first empty one. -/
theorem findSlot_eq_some_iff {i : Fin MAX_REQUESTS} :
    s.findSlot = some i ↔ s.occupied i = false ∧ ∀ j < i, s.occupied j = true := by
  simp [findSlot, find?_finRange_eq_some_iff]

theorem findSlot_eq_none_iff : s.findSlot = none ↔ ∀ i, s.occupied i = true := by
  simp [findSlot]

/-- **A request fails exactly when all slots are occupied.** -/
theorem ARP_request_eq_neg_one_iff {remoteAddress : BitVec 32} {callback : κ} :
    (s.ARP_request remoteAddress callback).2 = -1 ↔ ∀ i, s.occupied i = true := by
  rw [← findSlot_eq_none_iff]
  unfold ARP_request
  cases s.findSlot <;> simp

theorem occupied_register {i j : Fin MAX_REQUESTS} {remoteAddress : BitVec 32} {callback : κ}
    (h0 : remoteAddress ≠ 0) :
    (s.register i remoteAddress callback).occupied j = (decide (j = i) || s.occupied j) := by
  by_cases hj : j = i
  · subst hj
    simpa [occupied, register] using h0
  · simp [occupied, register, hj]

/-- The slot of a callback that has returned is empty, the others are as they were. -/
theorem ret_spec (hs : s.ret = some s') : ∃ scan i, s.pc = .called scan i ∧
    s'.pc = .turn scan (i.val + 1) ∧ s'.seconds = s.seconds ∧ s'.lastTick = s.lastTick ∧
    s'.deadline = s.deadline ∧ s'.ticket = s.ticket ∧ s'.tickets = s.tickets ∧
    s'.occupied i = false ∧ ∀ j, j ≠ i → s'.requests j = s.requests j := by
  unfold ret at hs
  split at hs
  · rename_i scan i hpc
    obtain rfl := Option.some.inj hs
    exact ⟨scan, i, hpc, rfl, rfl, rfl, rfl, rfl, rfl, by simp [occupied],
      fun j hj => Function.update_of_ne hj _ _⟩
  · cases hs

/-- A turn leaves everything but the place in the code. -/
theorem loopTurn_spec (hs : s.loopTurn = some s') : ∃ scan i, s.pc = .turn scan i ∧
    s' = { s with pc := s'.pc } ∧
    ((MAX_REQUESTS ≤ i ∧ s'.pc = .idle) ∨ ∃ h : i < MAX_REQUESTS,
      (s.hits ⟨i, h⟩ scan = true ∧ s'.pc = .called scan ⟨i, h⟩) ∨
        (s.hits ⟨i, h⟩ scan = false ∧ s'.pc = .turn scan (i + 1))) := by
  unfold loopTurn at hs
  split at hs
  · rename_i scan i hpc
    refine ⟨scan, i, hpc, ?_⟩
    split at hs
    · rename_i h
      split at hs <;> rename_i hhit
      · obtain rfl := Option.some.inj hs
        exact ⟨rfl, Or.inr ⟨h, Or.inl ⟨hhit, rfl⟩⟩⟩
      · obtain rfl := Option.some.inj hs
        exact ⟨rfl, Or.inr ⟨h, Or.inr ⟨Bool.eq_false_of_not_eq_true hhit, rfl⟩⟩⟩
    · rename_i h
      obtain rfl := Option.some.inj hs
      exact ⟨rfl, Or.inl ⟨not_lt.mp h, rfl⟩⟩
  · cases hs

/-! ## The invariant of the times -/

end Arp

/-- The time that the loop of `arpRun` compares with, and the slot that it has come to. -/
def ArpPc.expiry : ArpPc → Option (BitVec 32 × ℕ)
  | .turn (.expiry now) i => some (now, i)
  | .called (.expiry now) i => some (now, i.val)
  | _ => none

namespace Arp

variable {κ : Type} {s s' : Arp κ}

/-- The times of the requests on the table. -/
structure Timing (s : Arp κ) : Prop where
  tick : s.lastTick ≤ s.seconds
  gap : s.seconds < s.lastTick + 2 ^ 31
  slots : ∀ i, s.occupied i = true →
    (s.requests i).expire = BitVec.ofNat 32 (s.deadline i) ∧
      s.deadline i ≤ s.seconds + REQUEST_EXPIRE
  /-- Outside of the loop, what had expired when it began is gone. -/
  done : s.pc.expiry = none → ∀ i, s.occupied i = true → s.lastTick ≤ s.deadline i
  loop : ∀ now k, s.pc.expiry = some (now, k) → now = BitVec.ofNat 32 s.lastTick ∧
    s.seconds + REQUEST_EXPIRE < s.lastTick + 2 ^ 31 ∧
      ∀ i, s.occupied i = true → (i.val < k → s.lastTick ≤ s.deadline i) ∧
        s.lastTick < s.deadline i + 2 ^ 31

/-- **The comparison of `arpRun` is right.** -/
theorem Timing.hits_iff (ht : s.Timing) {now : BitVec 32} {k : ℕ}
    (hpc : s.pc.expiry = some (now, k)) {i : Fin MAX_REQUESTS} (hi : s.occupied i = true) :
    s.hits i (.expiry now) = true ↔ s.deadline i < s.lastTick := by
  obtain ⟨rfl, hgap, hloop⟩ := ht.loop now k hpc
  obtain ⟨hexpire, hle⟩ := ht.slots i hi
  have hlow := (hloop i hi).2
  rw [hits, hi, hexpire, sdiff_ofNat (by omega) (by omega)]
  simp

theorem Timing.register (ht : s.Timing) {i : Fin MAX_REQUESTS} {remoteAddress : BitVec 32}
    (h0 : remoteAddress ≠ 0) (callback : κ) : (s.register i remoteAddress callback).Timing where
  tick := ht.tick
  gap := ht.gap
  slots j hj := by
    rw [occupied_register h0] at hj
    by_cases hji : j = i
    · subst hji
      simp only [Arp.register, Function.update_self, now]
      exact ⟨(BitVec.ofNat_add _ _).symm, le_refl _⟩
    · simp only [hji, decide_false, Bool.false_or] at hj
      simp only [Arp.register, Function.update_of_ne hji]
      exact ht.slots j hj
  done hpc j hj := by
    rw [occupied_register h0] at hj
    have htick := ht.tick
    by_cases hji : j = i
    · subst hji
      simp only [Arp.register, Function.update_self]
      omega
    · simp only [hji, decide_false, Bool.false_or] at hj
      simp only [Arp.register, Function.update_of_ne hji]
      exact ht.done hpc j hj
  loop now k hpc := by
    obtain ⟨hnow, hgap, hloop⟩ := ht.loop now k hpc
    refine ⟨hnow, hgap, fun j hj => ?_⟩
    rw [occupied_register h0] at hj
    have htick := ht.tick
    by_cases hji : j = i
    · subst hji
      simp only [Arp.register, Function.update_self]
      omega
    · simp only [hji, decide_false, Bool.false_or] at hj
      simp only [Arp.register, Function.update_of_ne hji]
      exact hloop j hj

theorem Timing.turn (ht : s.Timing) (hs : s.loopTurn = some s') : s'.Timing := by
  obtain ⟨scan, i, hpc, hframe, hcases⟩ := loopTurn_spec hs
  generalize s'.pc = pc at hframe hcases
  subst hframe
  have hloop (now : BitVec 32) (hscan : scan = .expiry now) :
      s.pc.expiry = some (now, i) := by rw [hpc, hscan]; rfl
  have hdone (SPA SHA) (hscan : scan = .reply SPA SHA) :
      s.pc.expiry = none := by rw [hpc, hscan]; rfl
  rcases hcases with ⟨hend, rfl⟩ | ⟨hlt, ⟨hhit, rfl⟩ | ⟨hmiss, rfl⟩⟩
  · exact
      { tick := ht.tick
        gap := ht.gap
        slots := ht.slots
        done := by
          intro _ j hj
          cases scan with
          | reply SPA SHA => exact ht.done (hdone SPA SHA rfl) j hj
          | expiry now =>
              -- the loop has come to every slot
              obtain ⟨-, -, hall⟩ := ht.loop now i (hloop now rfl)
              exact (hall j hj).1 (j.isLt.trans_le hend)
        loop := by
          intro now k h
          cases h }
  · exact
      { tick := ht.tick
        gap := ht.gap
        slots := ht.slots
        done := by
          intro h
          cases scan with
          | reply SPA SHA => exact ht.done (hdone SPA SHA rfl)
          | expiry now => cases h
        loop := by
          intro now' k h
          cases scan with
          | reply SPA SHA => cases h
          | expiry now =>
              obtain ⟨rfl, rfl⟩ := Prod.mk.inj (Option.some.inj h)
              exact ht.loop now i (hloop now rfl) }
  · exact
      { tick := ht.tick
        gap := ht.gap
        slots := ht.slots
        done := by
          intro h
          cases scan with
          | reply SPA SHA => exact ht.done (hdone SPA SHA rfl)
          | expiry now => cases h
        loop := by
          intro now' k h
          cases scan with
          | reply SPA SHA => cases h
          | expiry now =>
              obtain ⟨rfl, rfl⟩ := Prod.mk.inj (Option.some.inj h)
              have hexp := hloop now rfl
              obtain ⟨hnow, hgap, hall⟩ := ht.loop now i hexp
              refine ⟨hnow, hgap, ?_⟩
              intro j hj
              refine ⟨?_, (hall j hj).2⟩
              intro hjk
              rcases Nat.lt_succ_iff_lt_or_eq.mp hjk with hlt' | heq
              · exact (hall j hj).1 hlt'
              · -- the slot of this turn is not past its time
                obtain rfl : j = ⟨i, hlt⟩ := Fin.ext heq
                have hj' : s.occupied ⟨i, hlt⟩ = true := hj
                have hnot := mt (ht.hits_iff hexp hj').mpr (by rw [hmiss]; decide)
                exact not_lt.mp hnot }

theorem Timing.ret (ht : s.Timing) (hs : s.ret = some s') : s'.Timing := by
  obtain ⟨scan, i, hpc, hpc', hsec, htick, hdead, -, -, hempty, hreq⟩ := ret_spec hs
  have hocc : ∀ j, s'.occupied j = true → j ≠ i ∧ s.occupied j = true := by
    intro j hj
    have hji : j ≠ i := by
      rintro rfl
      rw [hempty] at hj
      cases hj
    refine ⟨hji, ?_⟩
    unfold occupied at hj ⊢
    rwa [← hreq j hji]
  exact
    { tick := by
        rw [htick, hsec]
        exact ht.tick
      gap := by
        rw [htick, hsec]
        exact ht.gap
      slots := by
        intro j hj
        obtain ⟨hji, hj⟩ := hocc j hj
        rw [hreq j hji, hdead, hsec]
        exact ht.slots j hj
      done := by
        intro h j hj
        rw [hdead, htick]
        refine ht.done ?_ j (hocc j hj).2
        rw [hpc'] at h
        rw [hpc]
        cases scan with
        | reply SPA SHA => rfl
        | expiry now => cases h
      loop := by
        intro now k h
        rw [hpc'] at h
        cases scan with
        | reply SPA SHA => cases h
        | expiry now' =>
            obtain ⟨rfl, rfl⟩ := Prod.mk.inj (Option.some.inj h)
            obtain ⟨hnow, hgap, hall⟩ := ht.loop now' i (by rw [hpc]; rfl)
            rw [htick, hsec, hdead]
            refine ⟨hnow, hgap, ?_⟩
            intro j hj
            obtain ⟨hji, hj⟩ := hocc j hj
            -- the slot that was called is empty now, so that the loop may pass it
            have hval : j.val ≠ i.val := fun h => hji (Fin.ext h)
            exact ⟨fun hjk => (hall j hj).1 (by omega), (hall j hj).2⟩ }

/-- At the start of the loop nothing has been compared yet. -/
theorem Timing.arpRun (ht : s.Timing) (hidle : s.pc = .idle) : s.arpRun.Timing where
  tick := le_refl _
  gap := by
    show s.seconds < s.seconds + 2 ^ 31
    omega
  slots := ht.slots
  done h := by cases h
  loop := by
    intro now k h
    obtain ⟨rfl, rfl⟩ := Prod.mk.inj (Option.some.inj h)
    have hgap := ht.gap
    have hdone := ht.done (by rw [hidle]; rfl)
    refine ⟨rfl, ?_, ?_⟩
    · show s.seconds + REQUEST_EXPIRE < s.seconds + 2 ^ 31
      unfold REQUEST_EXPIRE
      omega
    · intro i hi
      refine ⟨fun h => absurd h (Nat.not_lt_zero _), ?_⟩
      have := hdone i hi
      show s.seconds < s.deadline i + 2 ^ 31
      omega

theorem Timing.elapse (ht : s.Timing) {d : ℕ} (hs : s.elapse d = some s') : s'.Timing := by
  obtain ⟨hguard, hs⟩ := Option.ite_none_right_eq_some.mp hs
  obtain rfl := Option.some.inj hs
  exact
    { tick := ht.tick.trans (Nat.le_add_right _ _)
      gap := by
        show s.seconds + d < s.lastTick + 2 ^ 31
        omega
      slots := by
        intro i hi
        obtain ⟨hexpire, hle⟩ := ht.slots i hi
        refine ⟨hexpire, ?_⟩
        show s.deadline i ≤ s.seconds + d + REQUEST_EXPIRE
        omega
      done := ht.done
      loop := by
        intro now k h
        obtain ⟨hnow, -, hall⟩ := ht.loop now k h
        refine ⟨hnow, ?_, hall⟩
        show s.seconds + d + REQUEST_EXPIRE < s.lastTick + 2 ^ 31
        -- within the loop the guard has this margin
        have hpc : s.pc.expiry = some (now, k) := h
        cases hcase : s.pc with
        | idle =>
            rw [hcase] at hpc
            cases hpc
        | turn scan i =>
            rw [hcase] at hpc hguard
            cases scan with
            | reply SPA SHA => cases hpc
            | expiry now' => exact hguard
        | called scan i =>
            rw [hcase] at hpc hguard
            cases scan with
            | reply SPA SHA => cases hpc
            | expiry now' => exact hguard }

theorem Timing.step (ht : s.Timing) {a : ArpAction κ} (hs : s.step a = some s') : s'.Timing := by
  cases a with
  | request remoteAddress callback =>
      have hreq : remoteAddress ≠ 0 ∧ s' = (s.ARP_request remoteAddress callback).1 := by
        simp only [Arp.step] at hs
        split at hs
        · cases hs
        · obtain ⟨h0, hs⟩ := Option.ite_none_right_eq_some.mp hs
          exact ⟨h0, (Option.some.inj hs).symm⟩
      obtain ⟨h0, rfl⟩ := hreq
      unfold ARP_request
      split
      · exact ht.register h0 callback
      · exact ht
  | process frame mac =>
      obtain ⟨hidle, hs⟩ := Option.ite_none_right_eq_some.mp hs
      obtain rfl := Option.some.inj hs
      unfold ARP_process
      split
      · exact ⟨ht.tick, ht.gap, ht.slots, fun _ => ht.done (by rw [hidle]; rfl),
          fun _ _ h => by cases h⟩
      · exact ht
  | run =>
      obtain ⟨hidle, hs⟩ := Option.ite_none_right_eq_some.mp hs
      obtain rfl := Option.some.inj hs
      exact ht.arpRun hidle
  | turn => exact ht.turn hs
  | ret => exact ht.ret hs
  | elapse d => exact ht.elapse hs

end Arp

end Gpsdo.Net
