import Gpsdo.Ntp.TableEffect

set_option autoImplicit false

/-! # Samples are fed to the controller once

`runSelect` feeds the selected source to the controller when its `lastUpdate` is not the one that
was fed last, of whichever source. If the selection goes from one source to another and back, the
first source is fed again although it has no new sample. As long as the selection does not return
to a source that was fed and has not been updated since, each update is fed at most once.
-/

namespace Gpsdo.Ntp

variable {F : Type} [Single F]

/-! ## Updates and feeds -/

/-- The source that is fed in a step, and its update. -/
def fedNow (T : Table F) : TableAction F → Option (Ref × BitVec 64)
  | .select => T.runSelect.2.map fun f => (f.source, f.lastUpdate)
  | _ => none

/-- The updates of the sources, the last one first. -/
def updates : TableHistory F → List (Ref × BitVec 64)
  | [] => []
  | (_, a) :: h => a.updates.toList ++ updates h

/-- What was fed to the controller, the last one first. -/
def fed : TableHistory F → List (Ref × BitVec 64)
  | [] => []
  | (T, a) :: h => (fedNow T a).toList ++ fed h

/-- The source was fed, and has not been updated since. -/
def stale : TableHistory F → Ref → Bool
  | [], _ => false
  | (T, a) :: h, r =>
      if a.updates.any (·.1 = r) then false else (fedNow T a).any (·.1 = r) || stale h r

/-- The update times are told apart. -/
def DistinctUpdates (h : TableHistory F) : Prop := ((updates h).map Prod.snd).Nodup

/-- No update is fed twice. -/
def AtMostOnce (h : TableHistory F) : Prop := (fed h).Nodup

/-- A pass of `runSelect` selects a source that was fed and not updated since only if that source
was fed last. -/
def NoReturn : TableHistory F → Prop
  | [] => True
  | (T, .select) :: h =>
      (∀ r ∈ T.selectBest.selectedSource, stale h r = true →
        (fed h).head?.map Prod.fst = some r) ∧ NoReturn h
  | _ :: h => NoReturn h

/-! ## What a step feeds -/

theorem selectBest_spec {T : Table F} {l : List Ref} (h : Lists T l) :
    (T.selectBest.selectedSource = none → fedNow T .select = none) ∧
      ∀ r, T.selectBest.selectedSource = some r → 0 < (T.mem r).usedOffset ∧
        fedNow T .select = if T.lastUpdate = (T.mem r).lastUpdate then none
          else some (r, (T.mem r).lastUpdate) := by
  obtain ⟨l', hl', -, hprune⟩ := Table.pruneSource_spec h
  have hcon := Table.selectBest_considered hl'
  have hlast := Table.pruneSource_lastUpdate h
  refine ⟨fun hnone => by simp [fedNow, Table.runSelect, hnone], fun r hr => ?_⟩
  have hsel := ((hcon.selected r hr).resolve_left (by simp)).2
  have hused := Source.usedOffset_of_selectable hsel
  obtain ⟨state, hmem⟩ := hcon.mem r
  -- pruning keeps the update time of the source, too
  have hkeep : (T.pruneSource.mem r).lastUpdate = (T.mem r).lastUpdate ∧
      (T.pruneSource.mem r).usedOffset = (T.mem r).usedOffset := by
    rcases hprune r with h' | ⟨-, h'⟩
    · rw [h']; exact ⟨rfl, rfl⟩
    · rw [h']; exact ⟨rfl, rfl⟩
  refine ⟨hkeep.2 ▸ hused, ?_⟩
  have hrl : (T.selectBest.mem r).lastUpdate = (T.mem r).lastUpdate := by
    rw [hmem]
    exact hkeep.1
  have htl : T.selectBest.lastUpdate = T.lastUpdate := hcon.lastUpdate.trans hlast
  simp only [fedNow, Table.runSelect, hr, Table.feedSource, Table.modify_mem_self, Source.select]
  rw [hrl, show (T.selectBest.modify r Source.select).lastUpdate = T.lastUpdate from htl]
  split <;> rfl

/-- The table remembers the update that was fed last. -/
theorem lastUpdate_step {T T' : Table F} {l : List Ref} (h : Lists T l) {a : TableAction F}
    (hs : T.step a = some T') :
    T'.lastUpdate = ((fedNow T a).map Prod.snd).getD T.lastUpdate := by
  cases a with
  | report addr ipSubnet ipAddress =>
      obtain rfl := Option.some.inj hs
      rcases Table.ntpDnsCallback_cases h addr ipSubnet ipAddress with h' | ⟨hlt, -, -, h'⟩
      · rw [h']
        rfl
      · rw [h']
        rcases Table.newPeer_cases h hlt addr ipSubnet ipAddress with ⟨h', -⟩ | ⟨_, -, -, -, hlast⟩
        · rw [h']
          rfl
        · exact hlast
  | update r smp stats now =>
      simp only [Table.step, Option.ite_none_right_eq_some, Option.some.injEq] at hs
      obtain ⟨-, rfl⟩ := hs
      rfl
  | status r status =>
      simp only [Table.step, Option.ite_none_right_eq_some, Option.some.injEq] at hs
      obtain ⟨-, rfl⟩ := hs
      rfl
  | setTaiClock offset =>
      obtain rfl := Option.some.inj hs
      rw [Table.ntpSetTaiClock_eq h]
      rfl
  | select =>
      obtain rfl := Option.some.inj hs
      obtain ⟨l', hl', -⟩ := Table.pruneSource_spec h
      rw [(Table.runSelect_spec hl').lastUpdate, Table.pruneSource_lastUpdate h, fedNow,
        Option.map_map]
      rfl

theorem fedNow_eq_some {T : Table F} {l : List Ref} (h : Lists T l) {a : TableAction F}
    {e : Ref × BitVec 64} (he : fedNow T a = some e) :
    a.updates = none ∧ 0 < (T.mem e.1).usedOffset ∧ e.2 = (T.mem e.1).lastUpdate := by
  cases a with
  | select =>
      obtain ⟨f, hf, rfl⟩ := Option.map_eq_some_iff.mp he
      obtain ⟨-, -, h1, h2, -⟩ := Table.feed_spec h hf
      exact ⟨rfl, h1, h2⟩
  | _ => cases he

omit [Single F] in
theorem any_updates_eq_false {a : TableAction F} {r : Ref}
    (hne : ∀ now, a.updates ≠ some (r, now)) : a.updates.any (·.1 = r) = false := by
  cases hu : a.updates with
  | none => rfl
  | some e =>
      have : e.1 ≠ r := fun heq => hne e.2 (by rw [hu, ← heq])
      simpa using this

/-! ## The invariant -/

/-- What the last update of a source tells about the feeds. -/
structure FeedInv (h : TableHistory F) (T : Table F) : Prop where
  last : T.lastUpdate = ((fed h).head?.map Prod.snd).getD 0
  used : ∀ r, 0 < (T.mem r).usedOffset → (r, (T.mem r).lastUpdate) ∈ updates h
  fed : ∀ e ∈ fed h, e ∈ updates h
  stale : ∀ r, stale h r = true → 0 < (T.mem r).usedOffset →
    (Ntp.fed h).find? (·.1 = r) = some (r, (T.mem r).lastUpdate)
  fresh : ∀ r, Ntp.stale h r = false → 0 < (T.mem r).usedOffset →
    (r, (T.mem r).lastUpdate) ∉ Ntp.fed h

theorem feedInv_init : FeedInv [] (Table.init : Table F) := by
  have hnone : ∀ r, ¬ 0 < ((Table.init : Table F).mem r).usedOffset := fun r => by
    cases r <;> exact Nat.lt_irrefl 0
  exact ⟨rfl, fun r hr => absurd hr (hnone r), by simp [fed], fun r _ hr => absurd hr (hnone r),
    fun r _ hr => absurd hr (hnone r)⟩

/-- **A step keeps the invariant.** -/
theorem FeedInv.step {h : TableHistory F} {T T' : Table F} (hi : FeedInv h T) {l : List Ref}
    (hl : Lists T l) {a : TableAction F} (hd : DistinctUpdates ((T, a) :: h))
    (hs : T.step a = some T') : FeedInv ((T, a) :: h) T' := by
  obtain ⟨l', -, -, hsrc⟩ := Table.step_sources hl hs
  have hfed : ∀ e, fedNow T a = some e → e ∈ updates h := fun e he => by
    obtain ⟨-, h1, h2⟩ := fedNow_eq_some hl he
    rw [← Prod.mk.eta (p := e), h2]
    exact hi.used e.1 h1
  constructor
  · rw [lastUpdate_step hl hs, hi.last, Ntp.fed]
    cases fedNow T a <;> rfl
  · intro r hr
    rw [updates, List.mem_append]
    rcases (hsrc r).lastUpdate_cases with ⟨-, h1, h2⟩ | h0 | h1
    · rw [h1] at hr
      rw [h2]
      exact Or.inr (hi.used r hr)
    · exact absurd hr (by omega)
    · exact Or.inl (by rw [h1]; simp)
  · intro e he
    rw [Ntp.fed, List.mem_append, Option.mem_toList] at he
    rw [updates, List.mem_append]
    rcases he with he | he
    · exact Or.inr (hfed e he)
    · exact Or.inr (hi.fed e he)
  · intro r hst hr
    rw [Ntp.stale] at hst
    rcases (hsrc r).lastUpdate_cases with ⟨hne, h1, h2⟩ | h0 | h1
    · rw [h1] at hr
      rw [h2, Ntp.fed]
      rw [any_updates_eq_false hne, if_neg Bool.false_ne_true] at hst
      cases hf : fedNow T a with
      | none =>
          rw [hf] at hst
          exact hi.stale r (by simpa using hst) hr
      | some e =>
          rw [hf] at hst
          by_cases heq : e.1 = r
          · -- the source is fed now
            subst heq
            have h2 := (fedNow_eq_some hl hf).2.2
            simp [← h2]
          · have hst : Ntp.stale h r = true := by simpa [heq] using hst
            simpa [heq] using hi.stale r hst hr
    · exact absurd hr (by omega)
    · simp [h1] at hst
  · intro r hst hr hmem
    rw [Ntp.fed, List.mem_append, Option.mem_toList] at hmem
    rw [Ntp.stale] at hst
    rcases (hsrc r).lastUpdate_cases with ⟨hne, h1, h2⟩ | h0 | h1
    · rw [h1] at hr
      rw [h2] at hmem
      rw [any_updates_eq_false hne, if_neg Bool.false_ne_true] at hst
      obtain ⟨hnow, hst⟩ := Bool.or_eq_false_iff.mp hst
      rcases hmem with hmem | hmem
      · rw [hmem] at hnow
        simp at hnow
      · exact hi.fresh r hst hr hmem
    · exact absurd hr (by omega)
    · -- an update has a new time
      have hnew : (T'.mem r).lastUpdate ∉ (updates h).map Prod.snd := by
        rw [DistinctUpdates, updates, h1] at hd
        exact (List.nodup_cons.mp hd).1
      rcases hmem with hmem | hmem
      · have := (fedNow_eq_some hl hmem).1
        rw [h1] at this
        cases this
      · exact hnew (List.mem_map_of_mem (hi.fed _ hmem))

theorem feedInv_of_run {h : TableHistory F} {T : Table F}
    (hrun : Run Table.step Table.init h T) (hd : DistinctUpdates h) : FeedInv h T := by
  induction hrun with
  | start => exact feedInv_init
  | @next h T a T' hrun hs ih =>
      obtain ⟨l, hl⟩ := Table.lists_of_run hrun
      have hd' : DistinctUpdates h := by
        rw [DistinctUpdates, updates, List.map_append] at hd
        exact (List.nodup_append.mp hd).2.1
      exact (ih hd').step hl hd hs

/-! ## Every run -/

/-- **A pass feeds an update again exactly when it returns** to a stale source that is not the one
fed last. -/
theorem nodup_fed_select {h : TableHistory F} {T : Table F} (hi : FeedInv h T)
    (hd : DistinctUpdates h) {l : List Ref} (hl : Lists T l) :
    (fed ((T, .select) :: h)).Nodup ↔
      (∀ r ∈ T.selectBest.selectedSource, stale h r = true →
        (fed h).head?.map Prod.fst = some r) ∧ (fed h).Nodup := by
  obtain ⟨hnone, hsome⟩ := selectBest_spec hl
  rw [fed]
  cases hsel : T.selectBest.selectedSource with
  | none => simp [hnone hsel]
  | some r =>
      obtain ⟨hused, hnow⟩ := hsome r hsel
      rw [hnow]
      simp only [Option.mem_def, Option.some.injEq, forall_eq']
      cases hst : stale h r with
      | false =>
          have hfresh := hi.fresh r hst hused
          split <;> simp [hfresh]
      | true =>
          have hfind := hi.stale r hst hused
          have hlast := hi.last
          cases hf : fed h with
          | nil =>
              rw [hf] at hfind
              cases hfind
          | cons e rest =>
              rw [hf] at hfind hlast
              have hlast : T.lastUpdate = e.2 := hlast
              rw [hlast]
              by_cases heq : e.1 = r
              · -- the source fed last: it is not fed again
                have he : e = (r, (T.mem r).lastUpdate) := by simpa [heq] using hfind
                rw [he]
                simp
              · -- another source was fed since, at another time
                have hmem : (r, (T.mem r).lastUpdate) ∈ e :: rest := List.mem_of_find?_eq_some hfind
                have hne : e.2 ≠ (T.mem r).lastUpdate := fun htime => by
                  have hinj := List.inj_on_of_nodup_map hd (hi.fed e (hf ▸ List.mem_cons_self))
                    (hi.used r hused) htime
                  exact heq (by rw [hinj])
                rw [if_neg hne]
                simp only [Option.toList_some, List.singleton_append, List.nodup_cons, hmem,
                  not_true_eq_false, false_and, List.head?_cons, Option.map_some,
                  Option.some.injEq, heq, true_implies]

/-- **Each update is fed at most once exactly when the selection never returns to a source without
a new update.** -/
theorem atMostOnce_iff {h : TableHistory F} {T : Table F}
    (hrun : Run Table.step Table.init h T) (hd : DistinctUpdates h) :
    AtMostOnce h ↔ NoReturn h := by
  induction hrun with
  | start => simp [AtMostOnce, fed, NoReturn]
  | @next h T a T' hrun hs ih =>
      obtain ⟨l, hl⟩ := Table.lists_of_run hrun
      have hd' : DistinctUpdates h := by
        rw [DistinctUpdates, updates, List.map_append] at hd
        exact (List.nodup_append.mp hd).2.1
      cases a with
      | select =>
          rw [AtMostOnce, nodup_fed_select (feedInv_of_run hrun hd') hd' hl]
          exact and_congr Iff.rfl (ih hd')
      | _ => exact ih hd'

instance decidableNoReturn : (h : TableHistory F) → Decidable (NoReturn h)
  | [] => isTrue trivial
  | (T, .select) :: h =>
      have := decidableNoReturn h
      inferInstanceAs (Decidable ((∀ r ∈ T.selectBest.selectedSource, stale h r = true →
        (fed h).head?.map Prod.fst = some r) ∧ NoReturn h))
  | (_, .report _ _ _) :: h => decidableNoReturn h
  | (_, .update _ _ _ _) :: h => decidableNoReturn h
  | (_, .status _ _) :: h => decidableNoReturn h
  | (_, .setTaiClock _) :: h => decidableNoReturn h

/-- The selection goes from the GPS source to a peer with a better score. -/
def selectPeer : List (TableAction Nano) :=
  [.report 0x04030201 0x00FFFFFF 0x0100000A, .status .gps reachable, .status (.peer 0) reachable,
    .update .gps ⟨0, 0, 0⟩ (scored 2) 1, .select, .update (.peer 0) ⟨0, 0, 0⟩ (scored 1) 2,
    .select, .select]

/-- The score of the peer gets worse, and the selection goes back. -/
def selectBack : List (TableAction Nano) :=
  selectPeer ++ [.update (.peer 0) ⟨0, 0, 0⟩ (scored 5) 3, .select]

/-- The sample of the GPS source is fed a second time. -/
theorem not_atMostOnce_selectBack :
    ∃ h T, Run Table.step (Table.init : Table Nano) h T ∧ DistinctUpdates h ∧
      fed h = [(.gps, 1), (.peer 0, 2), (.gps, 1)] ∧ ¬ AtMostOnce h := by
  obtain ⟨h, T, hrun, hp⟩ := @exists_run_of_replay _ _ Table.step (Table.init : Table Nano)
    selectBack (fun h _ => decide (((updates h).map Prod.snd).Nodup ∧
      fed h = [(.gps, 1), (.peer 0, 2), (.gps, 1)])) (by decide +kernel)
  obtain ⟨hd, hf⟩ := of_decide_eq_true hp
  exact ⟨h, T, hrun, hd, hf, by rw [AtMostOnce, hf]; decide⟩

theorem atMostOnce_iff_selectPeer :
    ∃ h T, Run Table.step (Table.init : Table Nano) h T ∧ fed h = [(.peer 0, 2), (.gps, 1)] ∧
      AtMostOnce h := by
  obtain ⟨h, T, hrun, hp⟩ := @exists_run_of_replay _ _ Table.step (Table.init : Table Nano)
    selectPeer (fun h _ => decide (((updates h).map Prod.snd).Nodup ∧
      fed h = [(.peer 0, 2), (.gps, 1)] ∧ NoReturn h)) (by decide +kernel)
  obtain ⟨hd, hf, hno⟩ := of_decide_eq_true hp
  exact ⟨h, T, hrun, hf, (atMostOnce_iff hrun hd).mpr hno⟩

end Gpsdo.Ntp
