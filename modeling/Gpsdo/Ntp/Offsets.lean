import Gpsdo.Ntp.Peers

set_option autoImplicit false

/-! # The offset of a source and hard clock steps

`updateFilter` stores the offset of the newest sample in `filteredOffset`, and `runSelect` hands the
stored offset to the controller. `applyOffset` moves the samples of a source, but not the stored
offset. After a hard step each source with a sample still has its offset from before the step until
its next update. If `runSelect` turns to such a source, the step is made again.
-/

namespace Gpsdo.Ntp

variable {F : Type}

/-! ## One source -/

theorem SourceStep.offsetCurrent {a : TableAction F} {r : Ref} {src src' : Source F}
    {d : BitVec 64} (h : src.OffsetCurrent) (hs : SourceStep a r src d src')
    (hd : d = 0 ∨ src.sampleCount = 0) : src'.OffsetCurrent := by
  cases hs with
  | moved ha' state =>
      have h' : ({ src with state := state } : Source F).OffsetCurrent := h
      exact (Source.offsetCurrent_applyOffset_iff h' d).mpr hd
  | deleted ha hp state =>
      have h' : ({ src.destroy with state := state } : Source F).OffsetCurrent := h
      exact (Source.offsetCurrent_applyOffset_iff h' d).mpr hd
  | created =>
      intro hc
      rw [(Peer.new_spec _ _ _).2.1] at hc
      cases hc
  | pushed => exact Source.offsetCurrent_push _ _ _ _
  | status => exact h

/-- A source whose samples are moved does not keep its offset. -/
theorem SourceStep.not_offsetCurrent [Single F] {a : TableAction F} {r : Ref} {src src' : Source F}
    {d : BitVec 64} {T : Table F} (h : src.OffsetCurrent) (hs : SourceStep a r src d src')
    (ha : T.stepOffset a ≠ 0) (hd : d ≠ 0) (hc : 0 < src.sampleCount) :
    ¬ src'.OffsetCurrent := by
  intro hcur
  cases hs with
  | moved ha' state =>
      have h' : ({ src with state := state } : Source F).OffsetCurrent := h
      rcases (Source.offsetCurrent_applyOffset_iff h' d).mp hcur with h0 | h0
      · exact hd h0
      · exact hc.ne' h0
  | deleted ha hp state =>
      have h' : ({ src.destroy with state := state } : Source F).OffsetCurrent := h
      rcases (Source.offsetCurrent_applyOffset_iff h' d).mp hcur with h0 | h0
      · exact hd h0
      · exact hc.ne' h0
  | created ha' => exact ha (by rw [ha']; rfl)
  | pushed ha' => exact ha (by rw [ha']; rfl)
  | status ha' => exact ha (by rw [ha']; rfl)

/-- A source that has used samples has samples. -/
theorem SourceStep.sampled {a : TableAction F} {r : Ref} {src src' : Source F} {d : BitVec 64}
    (h : 0 < src.usedOffset → 0 < src.sampleCount) (hs : SourceStep a r src d src') :
    0 < src'.usedOffset → 0 < src'.sampleCount := by
  cases hs with
  | created =>
      intro hc
      rw [(Peer.new_spec _ _ _).2.2] at hc
      cases hc
  | pushed =>
      intro _
      simp only [Source.push, Source.updateFilter, Source.setSample, Source.advanceFilter]
      split
      · omega
      · simp only [MAX_HISTORY] at *
        omega
  | _ => exact h

/-! ## The law -/

variable [Single F]

/-- The stored offset of every listed source is that of its newest sample. -/
def OffsetsCurrent (T : Table F) : Prop := ∀ r ∈ T.listed, (T.mem r).OffsetCurrent

/-- The controller is fed the offset of the newest sample of the selected source. -/
def FeedCurrent (T : Table F) : TableAction F → Prop
  | .select => ∀ f ∈ T.runSelect.2, f.offset = (T.mem f.source).newest.getOffset
  | _ => True

/-- In all states of a run the stored offsets are current, and only current ones are fed. -/
def OffsetLaw (h : TableHistory F) (T : Table F) : Prop :=
  (∀ p ∈ h, OffsetsCurrent p.1 ∧ FeedCurrent p.1 p.2) ∧ OffsetsCurrent T

/-- The action makes no hard step, or no listed source has a sample. -/
def StepHarmless (T : Table F) (a : TableAction F) : Prop :=
  T.stepOffset a = 0 ∨ ∀ r ∈ T.listed, (T.mem r).sampleCount = 0

/-! ## One step -/

/-- **A harmless action keeps the stored offsets current.** -/
theorem offsetCurrent_step {T T' : Table F} {l : List Ref} (h : Lists T l)
    (hcur : ∀ r, (T.mem r).OffsetCurrent) {a : TableAction F} (hok : StepHarmless T a)
    (hs : T.step a = some T') (r : Ref) : (T'.mem r).OffsetCurrent := by
  obtain ⟨l', -, hsub, hsrc⟩ := Table.step_sources h hs
  refine (hsrc r).offsetCurrent (hcur r) ?_
  by_cases h0 : T.stepOffset a = 0
  · exact Or.inl (by rw [h0, mul_zero])
  · by_cases hr : r ∈ l'
    · have hnone := hok.resolve_left h0
      rw [h.listed] at hnone
      exact Or.inr (hnone r (hsub h0 hr))
    · exact Or.inl (by rw [List.count_eq_zero_of_not_mem hr, Nat.cast_zero, zero_mul])

/-- What is fed is current, if the listed sources are. -/
theorem feedCurrent_of_offsetsCurrent {T : Table F} {l : List Ref} (h : Lists T l)
    (hcur : OffsetsCurrent T)
    (hsampled : ∀ r, 0 < (T.mem r).usedOffset → 0 < (T.mem r).sampleCount)
    (a : TableAction F) : FeedCurrent T a := by
  cases a with
  | select =>
      intro f hf
      obtain ⟨h1, -, h2, -, -, h5⟩ := Table.feed_spec h hf
      rw [h5]
      exact hcur f.source (h.listed.symm ▸ h1) (hsampled f.source h2)
  | _ => trivial

/-- **A harmful step is seen**: a listed source with a sample loses its offset. -/
theorem stepHarmless_of_offsetsCurrent {T T' : Table F} (hok : TableOk T) (hok' : TableOk T')
    (hsampled : ∀ r, 0 < (T.mem r).usedOffset → 0 < (T.mem r).sampleCount)
    {a : TableAction F} (hs : T.step a = some T') (hcur : OffsetsCurrent T)
    (hcur' : OffsetsCurrent T') : StepHarmless T a := by
  by_contra hharm
  obtain ⟨h0, hr⟩ := not_or.mp hharm
  obtain ⟨peers, hwf⟩ := hok
  obtain ⟨peers', hwf'⟩ := hok'
  obtain ⟨l', hl', hsub, hsrc⟩ := Table.step_sources hwf.lists hs
  have hl'eq : l' = .gps :: peers'.map .peer := hl'.listed.symm.trans hwf'.lists.listed
  have hnd : l'.Nodup := by
    rw [hl'eq, List.nodup_cons, List.nodup_map_iff (fun _ _ => Ref.peer.inj)]
    exact ⟨by simp, hwf'.nodup⟩
  -- a source with a sample that is listed after the step
  obtain ⟨r, hr, hc⟩ : ∃ r ∈ l', 0 < (T.mem r).sampleCount := by
    cases a with
    | setTaiClock offset =>
        obtain rfl := Option.some.inj hs
        obtain ⟨r, hr, hc⟩ : ∃ r ∈ T.listed, (T.mem r).sampleCount ≠ 0 := by simpa using hr
        refine ⟨r, ?_, Nat.pos_of_ne_zero hc⟩
        rw [← hl'.listed, Table.ntpSetTaiClock_eq hwf.lists]
        exact hr
    | select =>
        obtain rfl := Option.some.inj hs
        cases hf : T.runSelect.2 with
        | none => exact absurd (by rw [Table.stepOffset, hf]; rfl) h0
        | some f =>
            obtain ⟨-, h1, h2, -⟩ := Table.feed_spec hwf.lists hf
            exact ⟨f.source, hl'.listed ▸ h1, hsampled f.source h2⟩
    | _ => exact absurd rfl h0
  have hd : (l'.count r : BitVec 64) * T.stepOffset a ≠ 0 := by
    rw [List.count_eq_one_of_mem hnd hr, Nat.cast_one, one_mul]
    exact h0
  have hrl : r ∈ T.listed := hwf.lists.listed.symm ▸ hsub h0 hr
  exact (hsrc r).not_offsetCurrent (hcur r hrl) h0 hd hc (hcur' r (hl'.listed.symm ▸ hr))

/-! ## Every run -/

theorem sampled_of_run {h : TableHistory F} {T : Table F}
    (hrun : Run Table.step Table.init h T) (r : Ref) :
    0 < (T.mem r).usedOffset → 0 < (T.mem r).sampleCount := by
  have key : (∃ l, Lists T l) ∧ ∀ r, 0 < (T.mem r).usedOffset → 0 < (T.mem r).sampleCount := by
    refine hrun.invariant (I := fun _ T => (∃ l, Lists T l) ∧
      ∀ r, 0 < (T.mem r).usedOffset → 0 < (T.mem r).sampleCount)
      ⟨Table.lists_of_run .start, fun r => ?_⟩ fun h T a T' ⟨⟨l, hl⟩, hi⟩ hs => ?_
    · cases r <;> exact fun hc => absurd hc (Nat.lt_irrefl 0)
    · obtain ⟨l', hl', -, hsrc⟩ := Table.step_sources hl hs
      exact ⟨⟨l', hl'⟩, fun r => (hsrc r).sampled (hi r)⟩
  exact key.2 r

/-- A run of harmless actions keeps all stored offsets current. -/
theorem offsetLaw_of_forall {h : TableHistory F} {T : Table F}
    (hrun : Run Table.step Table.init h T) (hok : ∀ p ∈ h, StepHarmless p.1 p.2) :
    OffsetLaw h T := by
  have key : (∀ r, (T.mem r).OffsetCurrent) ∧
      ∀ p ∈ h, OffsetsCurrent p.1 ∧ FeedCurrent p.1 p.2 := by
    induction hrun with
    | start => exact ⟨fun r => by cases r <;> exact fun hc => absurd hc (Nat.lt_irrefl 0), by simp⟩
    | @next h T a T' hrun hs ih =>
        obtain ⟨hT, hh⟩ := List.forall_mem_cons.mp hok
        obtain ⟨hall, hlaw⟩ := ih hh
        obtain ⟨l, hl⟩ := Table.lists_of_run hrun
        have hcur : OffsetsCurrent T := fun r _ => hall r
        exact ⟨offsetCurrent_step hl hall hT hs, List.forall_mem_cons.mpr
          ⟨⟨hcur, feedCurrent_of_offsetsCurrent hl hcur (sampled_of_run hrun) a⟩, hlaw⟩⟩
  exact ⟨key.2, fun r _ => key.1 r⟩

/-- **The stored offsets are current as long as no hard step moves a sample.** In a well-formed
table every hard step that moves one leaves an old offset behind. -/
theorem offsetLaw_of_stepHarmless {h : TableHistory F} {T : Table F}
    (hrun : Run Table.step Table.init h T) :
    ((∀ p ∈ h, StepHarmless p.1 p.2) → OffsetLaw h T) ∧
      ((∀ p ∈ h, ¬ ReportsZero p.1 p.2) → (OffsetLaw h T ↔ ∀ p ∈ h, StepHarmless p.1 p.2)) := by
  refine ⟨offsetLaw_of_forall hrun, fun hz => ⟨fun hlaw => ?_, offsetLaw_of_forall hrun⟩⟩
  induction hrun with
  | start => simp
  | @next h T a T' hrun hs ih =>
      obtain ⟨⟨hT, hh⟩, hT'⟩ := (tableOk_iff (hrun.next hs)).mpr hz |>.imp_left List.forall_mem_cons.mp
      obtain ⟨-, hz⟩ := List.forall_mem_cons.mp hz
      obtain ⟨hlaw, hcur'⟩ := hlaw
      obtain ⟨⟨hcur, -⟩, hlaw⟩ := List.forall_mem_cons.mp hlaw
      refine List.forall_mem_cons.mpr ⟨?_, ih hz ⟨hlaw, hcur⟩⟩
      exact stepHarmless_of_offsetsCurrent hT hT' (sampled_of_run hrun) hs hcur hcur'

instance (T : Table F) : Decidable (OffsetsCurrent T) :=
  inferInstanceAs (Decidable (∀ r ∈ T.listed, 0 < (T.mem r).sampleCount →
    (T.mem r).filteredOffset = (T.mem r).newest.getOffset))

instance (T : Table F) (a : TableAction F) : Decidable (StepHarmless T a) :=
  inferInstanceAs (Decidable (_ ∨ ∀ r ∈ T.listed, (T.mem r).sampleCount = 0))

/-- Both sources see that the clock is one second behind. It is stepped by the GPS source, whose
next sample has a bad score. -/
def stepTwice : List (TableAction Nano) :=
  [.report 0x04030201 0x00FFFFFF 0x0100000A, .status .gps reachable, .status (.peer 0) reachable,
    .update .gps ⟨0, 1 <<< 32, 0⟩ (scored 1) 1, .update (.peer 0) ⟨0, 1 <<< 32, 0⟩ (scored 2) 2,
    .select, .update .gps ⟨1 <<< 32, 1 <<< 32, 0⟩ (scored 3) 3, .select]

/-- The step is made again with the old offset of the peer. -/
theorem not_offsetLaw_stepTwice :
    ∃ h T, Run Table.step (Table.init : Table Nano) h T ∧ T.clkTaiOffset = 2 <<< 32 ∧
      ¬ OffsetLaw h T := by
  obtain ⟨h, T, hrun, hp⟩ := @exists_run_of_replay _ _ Table.step (Table.init : Table Nano)
    stepTwice (fun _ T => decide (T.clkTaiOffset = 2 <<< 32 ∧ ¬ OffsetsCurrent T))
    (by decide +kernel)
  obtain ⟨hclk, hcur⟩ := of_decide_eq_true hp
  exact ⟨h, T, hrun, hclk, fun hlaw => hcur hlaw.2⟩

/-- A step before the first sample, and a small offset after it. -/
def stepEarly : List (TableAction Nano) :=
  [.setTaiClock (1 <<< 32), .status .gps reachable, .update .gps ⟨5, 7, 0⟩ (scored 1) 1, .select]

theorem offsetLaw_of_stepHarmless_stepEarly :
    ∃ h T, Run Table.step (Table.init : Table Nano) h T ∧ T.lastUpdate = 1 ∧ OffsetLaw h T := by
  obtain ⟨h, T, hrun, hp⟩ := @exists_run_of_replay _ _ Table.step (Table.init : Table Nano)
    stepEarly (fun h T => decide (T.lastUpdate = 1 ∧ ∀ p ∈ h, StepHarmless p.1 p.2))
    (by decide +kernel)
  obtain ⟨hlast, hok⟩ := of_decide_eq_true hp
  exact ⟨h, T, hrun, hlast, (offsetLaw_of_stepHarmless hrun).1 hok⟩

end Gpsdo.Ntp
