import Gpsdo.Basic.Leftmost
import Gpsdo.Ntp.Selectable

set_option autoImplicit false

/-! # What the server advertises

`runSelect` sets the reference, the stratum and the leap indicator when it consumes an update, and
clears them when no source is selectable. It leaves them when the update of the selected source is
the one that was consumed last. They are those of the selected source all the same: a source that
was not selectable is selected again only after an update of its filter.
-/

namespace Gpsdo.Ntp

variable {F : Type} [Single F] {T T' : Table F} {l : List Ref} {r : Ref}

/-! ## The status of the server -/

/-- What the server advertises: `refId`, `clockStratum` and `leapIndicator`. -/
def Table.advert (T : Table F) : BitVec 32 × Nat × Nat := (T.refId, T.clockStratum, T.leapIndicator)

/-- The update that was consumed last, and what the server advertises, are the same. -/
structure SameStatus (T T' : Table F) : Prop where
  lastUpdate : T'.lastUpdate = T.lastUpdate
  advert : T'.advert = T.advert

namespace Table

omit [Single F] in
theorem deletePeer_status (T : Table F) (r : Ref) : SameStatus T (T.deletePeer r) := by
  unfold deletePeer
  dsimp only
  split <;> split <;> exact ⟨rfl, rfl⟩

omit [Single F] in
theorem pruneSource_status (T : Table F) : SameStatus T T.pruneSource := by
  unfold pruneSource
  split
  · exact ⟨rfl, rfl⟩
  · exact deletePeer_status T _

theorem ntpDnsCallback_status (T : Table F) (addr ipSubnet ipAddress : BitVec 32) :
    SameStatus T (T.ntpDnsCallback addr ipSubnet ipAddress) := by
  unfold ntpDnsCallback newPeer
  split_ifs
  · exact ⟨rfl, rfl⟩
  · exact ⟨rfl, rfl⟩
  · exact ⟨rfl, rfl⟩
  · split <;> exact ⟨rfl, rfl⟩

/-! ## The choice of the best source -/

/-- The source can be selected. -/
def Selects (T : Table F) (r : Ref) : Prop := (T.mem r).selectState = .selectable

/-- The score of a source is better. -/
def Better (T : Table F) (r r' : Ref) : Prop := Single.lt (T.mem r).score (T.mem r').score = true

/-- The scores of some sources are linearly ordered. -/
structure ScoresOrdered (T : Table F) (l : List Ref) : Prop where
  trans : ∀ a ∈ l, ∀ b ∈ l, ∀ c ∈ l, T.Better a b → T.Better b c → T.Better a c
  total : ∀ a ∈ l, ∀ b ∈ l, T.Better a b ∨ (T.mem a).score = (T.mem b).score ∨ T.Better b a

theorem ScoresOrdered.neg (h : ScoresOrdered T l) {a b c : Ref} (ha : a ∈ l) (hb : b ∈ l) (hc : c ∈ l)
    (hac : T.Better a c) : T.Better a b ∨ T.Better b c := by
  rcases h.total a ha b hb with hab | heq | hba
  · exact Or.inl hab
  · refine Or.inr ?_
    unfold Better at hac ⊢
    rwa [← heq]
  · exact Or.inr (h.trans b hb a ha c hc hba hac)

theorem ScoresOrdered.sublist (h : ScoresOrdered T l) {l' : List Ref} (hl : l' ⊆ l) :
    ScoresOrdered T l' where
  trans a ha b hb c hc := h.trans a (hl ha) b (hl hb) c (hl hc)
  total a ha b hb := h.total a (hl ha) b (hl hb)

theorem considerSource_mem (T : Table F) (x : Ref) : (T.considerSource x).mem =
    Function.update T.mem x { T.mem x with state := (T.mem x).selectState } := by
  unfold considerSource
  dsimp only
  split
  · rfl
  · split
    · rfl
    · split <;> rfl

theorem considerSource_selected (T : Table F) (x : Ref) :
    (T.considerSource x).selectedSource =
      if (T.mem x).selectState = .selectable then
        T.selectedSource.elim (some x) fun best =>
          if Single.lt (T.mem x).score (T.mem best).score then some x else some best
      else T.selectedSource := by
  have hscore (r : Ref) : ((T.modify x fun _ => (T.mem x).isSelectable.2).mem r).score =
      (T.mem r).score := by
    by_cases hr : r = x
    · subst hr
      rw [modify_mem_self]
      rfl
    · rw [modify_mem_of_ne T hr]
  unfold considerSource
  dsimp only
  rw [hscore]
  by_cases hsel : (T.mem x).selectState = .selectable
  · have htrue : (T.mem x).isSelectable.1 = true := beq_iff_eq.mpr hsel
    rw [if_pos hsel, if_neg (by rw [htrue]; decide)]
    cases hbest : T.selectedSource with
    | none =>
        rw [show (T.modify x fun _ => (T.mem x).isSelectable.2).selectedSource = none from hbest]
        rfl
    | some best =>
        rw [show (T.modify x fun _ => (T.mem x).isSelectable.2).selectedSource = some best from hbest]
        dsimp only
        rw [hscore, Option.elim_some]
        split
        · rfl
        · exact hbest
  · have hfalse : (T.mem x).isSelectable.1 = false := beq_eq_false_iff_ne.mpr hsel
    rw [if_neg hsel, if_pos hfalse]
    rfl

/-- The loop of `runSelect` that looks for the best source sets the state of each that it
comes to. -/
theorem foldl_state (l : List Ref) (T : Table F) :
    ∀ r ∈ l, ((l.foldl considerSource T).mem r).state = (T.mem r).selectState := by
  induction l using List.reverseRecOn with
  | nil => simp
  | append_singleton l x ih =>
      intro r hr
      rw [List.foldl_append, List.foldl_cons, List.foldl_nil, considerSource_mem]
      obtain ⟨state, hmem⟩ := (foldl_considered l T).mem r
      by_cases hx : r = x
      · subst hx
        rw [Function.update_self, hmem]
        rfl
      · rw [Function.update_of_ne hx]
        exact ih r ((List.mem_append.mp hr).resolve_right (by simpa using hx))

/-- **The loop finds the first of the best sources**, or there is none. -/
theorem foldl_leftmost (l : List Ref) {T : Table F} (hnone : T.selectedSource = none)
    (hord : T.ScoresOrdered l) :
    ((l.foldl considerSource T).selectedSource = none ∧ ∀ r ∈ l, ¬ T.Selects r) ∨
      ∃ r, (l.foldl considerSource T).selectedSource = some r ∧ Leftmost T.Selects T.Better l r := by
  induction l using List.reverseRecOn with
  | nil => exact Or.inl ⟨hnone, by simp⟩
  | append_singleton l x ih =>
      have hcon := foldl_considered l T
      have hsub : l ⊆ l ++ [x] := List.subset_append_left l [x]
      have hx : x ∈ l ++ [x] := by simp
      obtain ⟨xstate, hxmem⟩ := hcon.mem x
      have hselects : ((l.foldl considerSource T).mem x).selectState = .selectable ↔ T.Selects x := by
        rw [hxmem]
        rfl
      rw [List.foldl_append, List.foldl_cons, List.foldl_nil, considerSource_selected]
      rcases ih (hord.sublist hsub) with ⟨hsel, hno⟩ | ⟨r, hsel, hbest⟩
      · by_cases hok : T.Selects x
        · rw [if_pos (hselects.mpr hok), hsel]
          exact Or.inr ⟨x, rfl, .first hok hno⟩
        · rw [if_neg (mt hselects.mp hok)]
          refine Or.inl ⟨hsel, fun y hy => ?_⟩
          rcases List.mem_append.mp hy with hy | hy
          · exact hno y hy
          · rwa [List.mem_singleton.mp hy]
      · obtain ⟨rstate, hrmem⟩ := hcon.mem r
        have hbetter : Single.lt ((l.foldl considerSource T).mem x).score
            ((l.foldl considerSource T).mem r).score = true ↔ T.Better x r := by
          rw [hxmem, hrmem]
          rfl
        by_cases hok : T.Selects x
        · rw [if_pos (hselects.mpr hok), hsel, Option.elim_some]
          by_cases hlt : T.Better x r
          · rw [if_pos (hbetter.mpr hlt)]
            have hr := hsub hbest.mem
            refine Or.inr ⟨x, rfl, hbest.better hok hlt (fun y hy hry => ?_) fun y hy => ?_⟩
            · exact hord.trans x hx r hr y (hsub hy) hlt hry
            · exact hord.neg hx (hsub hy) hr hlt
          · rw [if_neg (mt hbetter.mp hlt)]
            exact Or.inr ⟨r, rfl, hbest.concat fun _ => hlt⟩
        · rw [if_neg (mt hselects.mp hok)]
          exact Or.inr ⟨r, hsel, hbest.concat fun h => absurd h hok⟩

theorem foldl_none {l : List Ref} {T : Table F}
    (h : (l.foldl considerSource T).selectedSource = none) : ∀ r ∈ l, ¬ T.Selects r := by
  induction l using List.reverseRecOn with
  | nil => simp
  | append_singleton l x ih =>
      obtain ⟨state, hmem⟩ := (foldl_considered l T).mem x
      rw [List.foldl_append, List.foldl_cons, List.foldl_nil, considerSource_selected] at h
      by_cases hok : T.Selects x
      · -- there would be a best source
        have hsel : ((l.foldl considerSource T).mem x).selectState = .selectable := by
          rw [hmem]
          exact hok
        rw [if_pos hsel] at h
        cases hbest : (l.foldl considerSource T).selectedSource with
        | none =>
            rw [hbest] at h
            cases h
        | some best =>
            rw [hbest, Option.elim_some] at h
            split at h <;> cases h
      · have hno : ¬ ((l.foldl considerSource T).mem x).selectState = .selectable := by
          rw [hmem]
          exact hok
        rw [if_neg hno] at h
        intro r hr
        rcases List.mem_append.mp hr with hr | hr
        · exact ih h r hr
        · rwa [List.mem_singleton.mp hr]

/-! ## A pass -/

/-- The best source so far and the states of the sources are the same. -/
structure SameStates (T T' : Table F) : Prop where
  selectedSource : T'.selectedSource = T.selectedSource
  state : ∀ r, (T'.mem r).state = (T.mem r).state

omit [Single F] in
theorem ntpSetTaiClock_status (T : Table F) (offset : BitVec 64) :
    SameStatus T (T.ntpSetTaiClock offset) ∧ SameStates T (T.ntpSetTaiClock offset) := by
  unfold ntpSetTaiClock ntpApplyOffset
  rw [foldl_applyOffset]
  exact ⟨⟨rfl, rfl⟩, rfl, fun _ => rfl⟩

omit [Single F] in
theorem PLL_updateOffset_status (T : Table F) (offset : BitVec 64) :
    SameStatus T (T.PLL_updateOffset offset) ∧ SameStates T (T.PLL_updateOffset offset) := by
  unfold PLL_updateOffset
  split
  · exact ntpSetTaiClock_status T offset
  · exact ⟨⟨rfl, rfl⟩, rfl, fun _ => rfl⟩

/-- A pass without a selectable source. -/
theorem runSelect_none (h : T.selectBest.selectedSource = none) :
    T.runSelect.2 = none ∧ T.runSelect.1.selectedSource = none ∧
      T.runSelect.1.lastUpdate = T.selectBest.lastUpdate ∧ T.runSelect.1.advert = (0, 16, 3) := by
  unfold runSelect
  dsimp only
  rw [h]
  exact ⟨rfl, rfl, rfl, rfl⟩

/-- A pass that selects a source whose update is the one that was consumed last. -/
theorem runSelect_known (h : T.selectBest.selectedSource = some r)
    (hlast : T.selectBest.lastUpdate = (T.selectBest.mem r).lastUpdate) :
    T.runSelect = (T.selectBest.modify r Source.select, none) := by
  unfold runSelect feedSource
  dsimp only
  rw [h]
  dsimp only
  rw [modify_mem_self]
  exact if_pos hlast

/-- A pass that consumes the update of the source that it selects. -/
theorem runSelect_update (h : T.selectBest.selectedSource = some r)
    (hlast : T.selectBest.lastUpdate ≠ (T.selectBest.mem r).lastUpdate) :
    (∃ f, T.runSelect.2 = some f ∧ f.source = r ∧
        f.lastUpdate = (T.selectBest.mem r).lastUpdate) ∧
      SameStates (T.selectBest.modify r Source.select) T.runSelect.1 ∧
      T.runSelect.1.lastUpdate = (T.selectBest.mem r).lastUpdate ∧
      T.runSelect.1.advert = ((T.selectBest.mem r).id, (T.selectBest.mem r).stratum + 1,
        (T.selectBest.mem r).leap) := by
  have hrun : T.runSelect = (((T.selectBest.modify r Source.select).setStatus
      (T.selectBest.mem r).select).PLL_updateOffset (T.selectBest.mem r).select.filteredOffset,
        some ⟨r, (T.selectBest.mem r).select.lastUpdate, (T.selectBest.mem r).select.poll,
          (T.selectBest.mem r).select.filteredOffset⟩) := by
    unfold runSelect feedSource
    dsimp only
    rw [h]
    dsimp only
    rw [modify_mem_self]
    exact if_neg hlast
  rw [hrun]
  obtain ⟨hstatus, hstates⟩ := PLL_updateOffset_status
    ((T.selectBest.modify r Source.select).setStatus (T.selectBest.mem r).select)
    (T.selectBest.mem r).select.filteredOffset
  exact ⟨⟨_, rfl, rfl, rfl⟩, ⟨hstates.selectedSource, hstates.state⟩, hstatus.lastUpdate,
    hstatus.advert⟩

end Table

/-! ## The invariant -/

/-- No two updates have the same time, and none the time 0, which `lastUpdate` is before
any update. -/
def DistinctTimes (h : TimeServerHistory F) : Prop := (0 :: (filterUpdates h).map Prod.snd).Nodup

/-- The last consumption is remembered in `lastUpdate`. A listed source that is selectable and whose
update was consumed last is advertised. -/
structure CoherenceInv (h : TimeServerHistory F) (s : TimeServer F) : Prop where
  lists : ∃ l, Lists s.table l
  unreached : ∀ i, LostUnreached (s.table.mem (.peer i))
  used : ∀ r, 0 < (s.table.mem r).usedOffset → (r, (s.table.mem r).lastUpdate) ∈ filterUpdates h
  last : s.table.lastUpdate = (lastConsumed h).elim 0 Consumption.lastUpdate
  consumed : ∀ c ∈ lastConsumed h, (c.source, c.lastUpdate) ∈ filterUpdates h
  advert : ∀ c ∈ lastConsumed h, ∀ r ∈ s.table.listed, s.table.Selects r →
    (s.table.mem r).lastUpdate = c.lastUpdate → s.table.advert = (c.id, c.stratum + 1, c.leap)

variable {h : TimeServerHistory F} {s s' : TimeServer F} {a : ServerEvent F}

theorem coherenceInv_init : CoherenceInv [] (TimeServer.init : TimeServer F) where
  lists := Table.lists_of_run .start
  unreached i hlost := by cases hlost
  used r hr := by cases r <;> cases hr
  last := rfl
  consumed c hc := by cases hc
  advert c hc := by cases hc

/-! ## Steps between the passes -/

/-- What a step that is not a pass of `runSelect` does: the filter of a source is updated, or kept,
or the source is new. -/
structure SourcesStep (s s' : TimeServer F) (pushed : Option (Ref × BitVec 64)) : Prop where
  lists : ∃ l, Lists s'.table l ∧ ∀ r ∈ l, r ∈ s.table.listed ∨ (s'.table.mem r).usedOffset = 0
  status : SameStatus s.table s'.table
  unreached : ∀ i, LostUnreached (s'.table.mem (.peer i))
  mem : ∀ r, pushed = some (r, (s'.table.mem r).lastUpdate) ∨
    Kept (s.table.mem r) (s'.table.mem r) ∨ (s'.table.mem r).usedOffset = 0

/-- **A step between the passes keeps the invariant.** -/
theorem CoherenceInv.sourcesStep (hi : CoherenceInv h s) (hstep : SourcesStep s s' (pushedNow s a))
    (hnone : consumedNow s a = none) (hd : DistinctTimes ((s, a) :: h)) :
    CoherenceInv ((s, a) :: h) s' := by
  obtain ⟨l, hl, hlisted⟩ := hstep.lists
  have hconsumed : lastConsumed ((s, a) :: h) = lastConsumed h := by
    rw [lastConsumed, hnone]
    rfl
  refine ⟨⟨l, hl⟩, hstep.unreached, fun r hr => ?_, ?_, fun c hc => ?_, ?_⟩
  · rw [filterUpdates, List.mem_append, Option.mem_toList]
    rcases hstep.mem r with hpush | hkept | hzero
    · exact Or.inl hpush
    · rw [hkept.usedOffset] at hr
      rw [hkept.lastUpdate]
      exact Or.inr (hi.used r hr)
    · omega
  · rw [hstep.status.lastUpdate, hconsumed]
    exact hi.last
  · rw [hconsumed] at hc
    exact List.mem_append_right _ (hi.consumed c hc)
  · intro c hc r hr hsel hlast
    rw [hconsumed] at hc
    have hused := Source.usedOffset_of_selectable hsel
    rw [hl.listed] at hr
    rcases hstep.mem r with hpush | hkept | hzero
    · -- an update has a new time
      have htimes : ((s'.table.mem r).lastUpdate :: (filterUpdates h).map Prod.snd).Nodup := by
        have hnodup := (List.nodup_cons.mp hd).2
        rwa [filterUpdates, hpush] at hnodup
      have hold := List.mem_map_of_mem (f := Prod.snd) (hi.consumed c hc)
      rw [hlast] at htimes
      exact absurd hold (List.nodup_cons.mp htimes).1
    · rw [hkept.usedOffset] at hused
      rw [hstep.status.advert]
      refine hi.advert c hc r ((hlisted r hr).resolve_right ?_) (hkept.selectable hsel) ?_
      · rw [hkept.usedOffset]
        omega
      · rw [← hkept.lastUpdate]
        exact hlast
    · omega

/-- A member function of one source has run. -/
theorem CoherenceInv.sourceStep (hi : CoherenceInv h s) {src : Source F}
    {pushed : Option (Ref × BitVec 64)} (htable : s'.table = s.table.modify r fun _ => src)
    (hfate : pushed = some (r, src.lastUpdate) ∨ Kept (s.table.mem r) src)
    (hu : ∀ i, r = .peer i → LostUnreached src) : SourcesStep s s' pushed := by
  obtain ⟨l, hl⟩ := hi.lists
  have hmem (r' : Ref) : (r' = r ∧ s'.table.mem r' = src) ∨
      r' ≠ r ∧ s'.table.mem r' = s.table.mem r' := by
    rw [htable]
    by_cases hr : r' = r
    · subst hr
      exact Or.inl ⟨rfl, Table.modify_mem_self _ _ _⟩
    · exact Or.inr ⟨hr, Table.modify_mem_of_ne _ hr _⟩
  refine ⟨⟨l, ?_, fun r' hr' => Or.inl (by rwa [hl.listed])⟩, ?_, fun i => ?_, fun r' => ?_⟩
  · rw [htable]
    exact hl.congr rfl rfl
  · rw [htable]
    exact ⟨rfl, rfl⟩
  · rcases hmem (.peer i) with ⟨hr, h'⟩ | ⟨-, h'⟩
    · rw [h']
      exact hu i hr.symm
    · rw [h']
      exact hi.unreached i
  · rcases hmem r' with ⟨rfl, h'⟩ | ⟨-, h'⟩
    · rw [h']
      rcases hfate with hpush | hkept
      · exact Or.inl hpush
      · exact Or.inr (Or.inl hkept)
    · rw [h']
      exact Or.inr (Or.inl (Quiet.refl _).kept)

omit [Single F] in
/-- Samples are moved, and the state is set. -/
theorem LostUnreached.same {src src' : Source F} (hu : LostUnreached src)
    (hreach : src'.reach = src.reach) (hlost : src'.lost = src.lost) : LostUnreached src' := by
  intro h
  rw [hreach]
  exact hu (hlost ▸ h)

/-- The sources are as they were. -/
theorem CoherenceInv.same (hi : CoherenceInv h s) (ht : s'.table = s.table) :
    SourcesStep s s' none := by
  obtain ⟨l, hl⟩ := hi.lists
  refine ⟨⟨l, ?_, fun r hr => Or.inl (by rwa [hl.listed])⟩, ?_, ?_, fun r => ?_⟩ <;> rw [ht]
  · exact hl
  · exact ⟨rfl, rfl⟩
  · exact hi.unreached
  · exact Or.inr (Or.inl (Quiet.refl _).kept)

theorem CoherenceInv.report (hi : CoherenceInv h s) (addr ipSubnet ipAddress : BitVec 32) :
    SourcesStep s (s.ntpDnsCallback addr ipSubnet ipAddress) none := by
  obtain ⟨l, hl⟩ := hi.lists
  rcases Table.ntpDnsCallback_cases hl addr ipSubnet ipAddress with h' | ⟨hlt, -, -, h'⟩
  · exact hi.same h'
  rcases Table.newPeer_cases hl hlt addr ipSubnet ipAddress with ⟨h'', -⟩ | ⟨slot, -, hl', hmem, -⟩
  · exact hi.same (h'.trans h'')
  have ht : (s.ntpDnsCallback addr ipSubnet ipAddress).table =
      s.table.newPeer addr ipSubnet ipAddress := h'
  have hnew : (Peer.new addr ipSubnet ipAddress : Peer F).usedOffset = 0 :=
    (Peer.new_spec _ _ _).2.2
  refine ⟨⟨_, by rwa [ht], fun r hr => ?_⟩, s.table.ntpDnsCallback_status addr ipSubnet ipAddress,
    fun i => ?_, fun r => ?_⟩ <;> rw [ht, hmem]
  · rcases List.mem_append.mp hr with hr | hr
    · exact Or.inl (by rwa [hl.listed])
    · rw [List.mem_singleton.mp hr, Function.update_self]
      exact Or.inr hnew
  · by_cases hi' : i = slot
    · -- a new peer has not been polled
      have hreach : (Peer.new addr ipSubnet ipAddress : Peer F).reach = 0 := by
        dsimp only [Peer.new]
        split <;> rfl
      rw [hi', Function.update_self]
      intro _
      rw [hreach]
      rfl
    · rw [Function.update_of_ne fun h => hi' (Ref.peer.inj h)]
      exact hi.unreached i
  · by_cases hr : r = .peer slot
    · rw [hr, Function.update_self]
      exact Or.inr (Or.inr hnew)
    · rw [Function.update_of_ne hr]
      exact Or.inr (Or.inl (Quiet.refl _).kept)

theorem CoherenceInv.setTaiClock (hi : CoherenceInv h s) (offset : BitVec 64) :
    SourcesStep s { s with table := s.table.ntpSetTaiClock offset } none := by
  obtain ⟨l, hl⟩ := hi.lists
  have ht := Table.ntpSetTaiClock_eq hl offset
  refine ⟨⟨l, ?_, fun r hr => Or.inl (by rwa [hl.listed])⟩,
    (s.table.ntpSetTaiClock_status offset).1, fun i => ?_, fun r => ?_⟩
  · rw [ht]
    exact hl.congr rfl rfl
  · rw [ht]
    exact (hi.unreached i).same rfl rfl
  · rw [ht]
    exact Or.inr (Or.inl ⟨rfl, rfl, id⟩)

theorem CoherenceInv.run (hi : CoherenceInv h s) (i : Fin MAX_NTP_PEERS) (env : Env F) :
    SourcesStep s (s.setPeer i ((s.peer i).run env).1) (pushedNow s (.run i env)) := by
  have hfate := (s.peer i).run_fate env
  refine hi.sourceStep (r := .peer i) rfl ?_ fun _ _ => hfate.unreached (hi.unreached i)
  show (if samples ((s.peer i).run env).2 = [] then none else some (Ref.peer i, env.now)) = _ ∨ _
  by_cases hs : samples ((s.peer i).run env).2 = []
  · exact Or.inr (hfate.kept hs (hi.unreached i))
  · rw [if_neg hs, hfate.updated hs]
    exact Or.inl rfl

theorem CoherenceInv.gps (hi : CoherenceInv h s) (env : GpsEnv F) :
    SourcesStep s (s.setGps (s.gpsSource.run env).1) (pushedNow s (.gps env)) := by
  obtain ⟨hkept, hupdated⟩ := s.gpsSource.run_fate env
  refine hi.sourceStep (r := .gps) rfl ?_ fun j hj => by cases hj
  show (if s.gpsSource.pushes env then some (Ref.gps, env.now) else none) = _ ∨ _
  by_cases hp : s.gpsSource.pushes env = true
  · rw [if_pos hp, hupdated hp]
    exact Or.inl rfl
  · exact Or.inr (hkept (by simpa using hp))

/-- A member function of a peer that leaves its filter alone. -/
theorem CoherenceInv.quiet (hi : CoherenceInv h s) (i : Fin MAX_NTP_PEERS) {p : Peer F}
    (hq : Quiet (s.peer i).toSource p.toSource) : SourcesStep s (s.setPeer i p) none :=
  hi.sourceStep (r := .peer i) rfl (Or.inr hq.kept) fun _ _ => hq.unreached (hi.unreached i)

/-! ## The pass -/

namespace Table

theorem considerSource_status (T : Table F) (x : Ref) : SameStatus T (T.considerSource x) := by
  unfold considerSource
  dsimp only
  split
  · exact ⟨rfl, rfl⟩
  · split
    · exact ⟨rfl, rfl⟩
    · split <;> exact ⟨rfl, rfl⟩

theorem selectBest_status (T : Table F) : SameStatus T T.selectBest := by
  have hfold (l : List Ref) (T : Table F) : SameStatus T (l.foldl considerSource T) := by
    induction l generalizing T with
    | nil => exact ⟨rfl, rfl⟩
    | cons x l ih =>
        have hx := considerSource_status T x
        have hl := ih (T.considerSource x)
        exact ⟨hl.lastUpdate.trans hx.lastUpdate, hl.advert.trans hx.advert⟩
  have hprune := pruneSource_status T
  have hbest := hfold T.pruneSource.listed { T.pruneSource with selectedSource := none }
  exact ⟨hbest.lastUpdate.trans hprune.lastUpdate, hbest.advert.trans hprune.advert⟩

/-- What a pass looks at is the same in the sources. -/
structure SameFilter (T T' : Table F) : Prop where
  selectState : ∀ r, (T'.mem r).selectState = (T.mem r).selectState
  lastUpdate : ∀ r, (T'.mem r).lastUpdate = (T.mem r).lastUpdate
  usedOffset : ∀ r, (T'.mem r).usedOffset = (T.mem r).usedOffset
  score : ∀ r, (T'.mem r).score = (T.mem r).score
  reach : ∀ r, (T'.mem r).reach = (T.mem r).reach
  lost : ∀ r, (T'.mem r).lost = (T.mem r).lost

/-- A pass sets states and moves samples. A peer that it deletes loses its id. -/
theorem SameFilter.of_mem (h : ∀ r, ∃ mode id state d, T'.mem r =
    { T.mem r with mode := mode, id := id, state := state }.applyOffset d) : SameFilter T T' := by
  constructor <;> intro r <;> obtain ⟨mode, id, state, d, hmem⟩ := h r <;>
    simp [hmem, Source.applyOffset, Source.selectState]

theorem SameFilter.trans {T₁ : Table F} (h : SameFilter T T₁) (h' : SameFilter T₁ T') :
    SameFilter T T' where
  selectState r := (h'.selectState r).trans (h.selectState r)
  lastUpdate r := (h'.lastUpdate r).trans (h.lastUpdate r)
  usedOffset r := (h'.usedOffset r).trans (h.usedOffset r)
  score r := (h'.score r).trans (h.score r)
  reach r := (h'.reach r).trans (h.reach r)
  lost r := (h'.lost r).trans (h.lost r)

theorem SameFilter.selects (h : SameFilter T T') : T'.Selects = T.Selects := by
  funext r
  rw [Selects, Selects, h.selectState]

theorem SameFilter.better (h : SameFilter T T') : T'.Better = T.Better := by
  funext r r'
  rw [Better, Better, h.score, h.score]

theorem SameFilter.scoresOrdered (h : SameFilter T T') (hord : T'.ScoresOrdered l) :
    T.ScoresOrdered l where
  trans := by
    rw [← h.better]
    exact hord.trans
  total a ha b hb := by
    rw [← h.better, ← h.score, ← h.score]
    exact hord.total a ha b hb

/-- The list after a pass is that after pruning, and what the pass looked at is as it was. -/
theorem runSelect_sameFilter (hl : Lists T l) : ∃ l', Lists T.pruneSource l' ∧
    Lists T.runSelect.1 l' ∧ l' ⊆ l ∧ SameFilter T T.pruneSource ∧
    SameFilter T.pruneSource T.runSelect.1 := by
  obtain ⟨l', hl', hsub, hprune⟩ := pruneSource_spec hl
  have hspec := runSelect_spec hl'
  refine ⟨l', hl', hl'.congr hspec.sources hspec.cntSources, hsub, .of_mem fun r => ?_,
    .of_mem fun r => ?_⟩
  · rcases hprune r with h | ⟨-, h⟩
    · exact ⟨(T.mem r).mode, (T.mem r).id, (T.mem r).state, 0#64,
        h.trans (Source.applyOffset_zero _).symm⟩
    · exact ⟨0, 0, (T.mem r).state, 0#64, h.trans (Source.applyOffset_zero _).symm⟩
  · obtain ⟨state, h⟩ := hspec.mem r
    exact ⟨_, _, state, _, h⟩

/-- The update of the source that a pass selects is the one that was consumed last. -/
theorem runSelect_lastUpdate (h : T.selectBest.selectedSource = some r) :
    T.runSelect.1.lastUpdate = (T.selectBest.mem r).lastUpdate := by
  by_cases hlast : T.selectBest.lastUpdate = (T.selectBest.mem r).lastUpdate
  · rw [runSelect_known h hlast]
    exact hlast
  · exact (runSelect_update h hlast).2.2.1

/-- The source that a pass selects, and the states that it leaves. -/
theorem runSelect_states (h : T.selectBest.selectedSource = some r) :
    T.runSelect.1.selectedSource = some r ∧
      ∀ r', (T.runSelect.1.mem r').state =
        if r' = r then .selected else (T.selectBest.mem r').state := by
  have hstates : SameStates (T.selectBest.modify r Source.select) T.runSelect.1 := by
    by_cases hlast : T.selectBest.lastUpdate = (T.selectBest.mem r).lastUpdate
    · rw [runSelect_known h hlast]
      exact ⟨rfl, fun _ => rfl⟩
    · exact (runSelect_update h hlast).2.1
  refine ⟨hstates.selectedSource.trans h, fun r' => ?_⟩
  rw [hstates.state]
  by_cases hr : r' = r
  · rw [if_pos hr, hr, modify_mem_self]
    rfl
  · rw [if_neg hr, modify_mem_of_ne _ hr]

end Table

omit [Single F] in
theorem Source.selectState_ne_selected [Single F] (src : Source F) :
    src.selectState ≠ .selected := by
  unfold Source.selectState
  split_ifs <;> exact fun h => by cases h

/-- What the invariant says of the sources does not depend on what is selected. -/
theorem CoherenceInv.pass (hi : CoherenceInv h s) :
    (∃ l, Lists s.table.runSelect.1 l) ∧ s.table.runSelect.1.listed ⊆ s.table.listed ∧
      (∀ i, LostUnreached (s.table.runSelect.1.mem (.peer i))) ∧
      ∀ r, 0 < (s.table.runSelect.1.mem r).usedOffset →
        (r, (s.table.runSelect.1.mem r).lastUpdate) ∈ filterUpdates h := by
  obtain ⟨l, hl⟩ := hi.lists
  obtain ⟨l', -, hselect, hsub, hpruned, hselected⟩ := Table.runSelect_sameFilter hl
  have hsame := hpruned.trans hselected
  refine ⟨⟨l', hselect⟩, ?_, fun i => ?_, fun r hr => ?_⟩
  · rw [hselect.listed, hl.listed]
    exact hsub
  · exact (hi.unreached i).same (hsame.reach _) (hsame.lost _)
  · rw [hsame.usedOffset] at hr
    rw [hsame.lastUpdate]
    exact hi.used r hr

/-- A pass that consumes nothing leaves what is advertised, or there is no selectable source. -/
theorem CoherenceInv.select_keep (hi : CoherenceInv h s) (hnone : s.table.runSelect.2 = none)
    (hlast : s.table.runSelect.1.lastUpdate = s.table.lastUpdate)
    (hadvert : s.table.runSelect.1.advert = s.table.advert ∨
      ∀ r ∈ s.table.runSelect.1.listed, ¬ s.table.runSelect.1.Selects r) :
    CoherenceInv ((s, .select) :: h) { s with table := s.table.runSelect.1 } := by
  obtain ⟨l, hl⟩ := hi.lists
  obtain ⟨-, -, -, -, hpruned, hselected⟩ := Table.runSelect_sameFilter hl
  have hsame := hpruned.trans hselected
  obtain ⟨hlists, hlisted, hunreached, hused⟩ := hi.pass
  have hconsumed : lastConsumed ((s, ServerEvent.select) :: h) = lastConsumed h := by
    rw [lastConsumed, consumedNow, hnone]
    rfl
  refine ⟨hlists, hunreached, hused, ?_, ?_, fun c hc r hr hsel hc' => ?_⟩
  · rw [hconsumed]
    exact hlast.trans hi.last
  · rw [hconsumed]
    exact hi.consumed
  · rw [hconsumed] at hc
    rcases hadvert with hadvert | hno
    · refine hadvert.trans (hi.advert c hc r (hlisted hr) ?_ ((hsame.lastUpdate r).symm.trans hc'))
      rwa [← hsame.selects]
    · exact absurd hsel (hno r hr)

/-- A pass that consumes the update of the source that it selects advertises that source. -/
theorem CoherenceInv.select_update (hi : CoherenceInv h s)
    (hsel : s.table.selectBest.selectedSource = some r)
    (hnew : s.table.selectBest.lastUpdate ≠ (s.table.selectBest.mem r).lastUpdate) :
    CoherenceInv ((s, .select) :: h) { s with table := s.table.runSelect.1 } := by
  obtain ⟨l, hl⟩ := hi.lists
  obtain ⟨l', hprune, -, -, hpruned, -⟩ := Table.runSelect_sameFilter hl
  obtain ⟨hlists, -, hunreached, hused⟩ := hi.pass
  obtain ⟨⟨f, hf, rfl, hfeed⟩, -, hlast, hadvert⟩ := Table.runSelect_update hsel hnew
  have hconsumed : lastConsumed ((s, ServerEvent.select) :: h) =
      some ⟨f.source, f.lastUpdate, (s.table.selectBest.mem f.source).id,
        (s.table.selectBest.mem f.source).stratum, (s.table.selectBest.mem f.source).leap⟩ := by
    rw [lastConsumed, consumedNow, hf]
    rfl
  have hupdate : (f.source, f.lastUpdate) ∈ filterUpdates h := by
    have hcon := Table.selectBest_considered hprune
    obtain ⟨state, hmem⟩ := hcon.mem f.source
    obtain ⟨-, hselects⟩ := (hcon.selected _ hsel).resolve_left (by simp)
    have hoffset := Source.usedOffset_of_selectable hselects
    rw [hfeed, hmem]
    exact hpruned.lastUpdate f.source ▸ hi.used _ (hpruned.usedOffset f.source ▸ hoffset)
  refine ⟨hlists, hunreached, hused, ?_, fun c hc => ?_, fun c hc _ _ _ _ => ?_⟩
  · rw [hconsumed]
    exact hlast.trans hfeed.symm
  · rw [hconsumed] at hc
    cases hc
    exact hupdate
  · rw [hconsumed] at hc
    cases hc
    exact hadvert

/-- **A pass keeps the invariant.** -/
theorem CoherenceInv.select (hi : CoherenceInv h s) :
    CoherenceInv ((s, .select) :: h) { s with table := s.table.runSelect.1 } := by
  have hstatus := s.table.selectBest_status
  cases hsel : s.table.selectBest.selectedSource with
  | none =>
      obtain ⟨l, hl⟩ := hi.lists
      obtain ⟨l', hprune, hselect, -, -, hselected⟩ := Table.runSelect_sameFilter hl
      obtain ⟨hnone, -, hlast, -⟩ := Table.runSelect_none hsel
      refine hi.select_keep hnone (hlast.trans hstatus.lastUpdate) (Or.inr fun r hr => ?_)
      rw [hselected.selects]
      rw [hselect.listed] at hr
      rw [Table.selectBest, hprune.listed] at hsel
      exact Table.foldl_none hsel r hr
  | some r =>
      by_cases hknown : s.table.selectBest.lastUpdate = (s.table.selectBest.mem r).lastUpdate
      · have hrun := Table.runSelect_known hsel hknown
        apply hi.select_keep
        · rw [hrun]
        · rw [hrun]
          exact hstatus.lastUpdate
        · rw [hrun]
          exact Or.inl hstatus.advert
      · exact hi.select_update hsel hknown

/-! ## Runs -/

/-- **One step keeps the invariant**, if no time is the time of two updates. -/
theorem CoherenceInv.step (hi : CoherenceInv h s) (hs : s.step a = some s')
    (hd : DistinctTimes ((s, a) :: h)) : CoherenceInv ((s, a) :: h) s' := by
  cases a with
  | report addr ipSubnet ipAddress =>
      cases hs
      exact hi.sourcesStep (hi.report addr ipSubnet ipAddress) rfl hd
  | gps env =>
      cases hs
      exact hi.sourcesStep (hi.gps env) rfl hd
  | run i env =>
      obtain ⟨-, hs⟩ := Option.ite_none_right_eq_some.mp hs
      cases hs
      exact hi.sourcesStep (hi.run i env) rfl hd
  | receive i packet stamps =>
      obtain ⟨-, hs⟩ := Option.ite_none_right_eq_some.mp hs
      cases hs
      exact hi.sourcesStep (hi.quiet i (Peer.receive_quiet _ packet stamps)) rfl hd
  | sent i stamps =>
      cases hs
      exact hi.sourcesStep (hi.quiet i (.refl _)) rfl hd
  | arpReply i macAddr env =>
      cases hs
      have hsource : Quiet (s.peer i).toSource ((s.peer i).arpCallback macAddr env).1.toSource := by
        rw [Peer.arpCallback_toSource]
        exact .refl _
      exact hi.sourcesStep (hi.quiet i hsource) rfl hd
  | setTaiClock offset =>
      cases hs
      exact hi.sourcesStep (hi.setTaiClock offset) rfl hd
  | select =>
      cases hs
      exact hi.select

theorem DistinctTimes.tail (hd : DistinctTimes ((s, a) :: h)) : DistinctTimes h := by
  rw [DistinctTimes, filterUpdates, List.map_append] at hd
  exact hd.sublist ((List.sublist_append_right _ _).cons_cons 0)

theorem coherenceInv_of_run (hrun : Run TimeServer.step TimeServer.init h s)
    (hd : DistinctTimes h) : CoherenceInv h s := by
  induction hrun with
  | start => exact coherenceInv_init
  | next _ hs ih => exact (ih hd.tail).step hs hd

/-- **The server advertises what it has selected.** Either no listed source is selectable, and it is
not synchronised. Or it has selected the first listed one of the selectable sources with the least
score, no other is marked, and what it advertises is what this source was when its last update was
consumed. -/
def Coherent (h : TimeServerHistory F) (T : Table F) : Prop :=
  ((∀ r ∈ T.listed, ¬ T.Selects r) ∧ T.selectedSource = none ∧ T.advert = (0, 16, 3)) ∨
    ∃ r c, T.selectedSource = some r ∧ Leftmost T.Selects T.Better T.listed r ∧
      (∀ r' ∈ T.listed, (T.mem r').state = .selected ↔ r' = r) ∧
      lastConsumed h = some c ∧ c.source = r ∧ c.lastUpdate = (T.mem r).lastUpdate ∧
      T.advert = (c.id, c.stratum + 1, c.leap)

/-- If the update of a selectable source is the one that was consumed last, it was consumed as the
update of this source. -/
theorem CoherenceInv.consumption (hi : CoherenceInv h s) (hd : DistinctTimes h)
    (hr : r ∈ s.table.listed) (hsel : s.table.Selects r)
    (hlast : s.table.lastUpdate = (s.table.mem r).lastUpdate) :
    ∃ c, lastConsumed h = some c ∧ c.source = r ∧ c.lastUpdate = (s.table.mem r).lastUpdate ∧
      s.table.advert = (c.id, c.stratum + 1, c.leap) := by
  have hupdate := hi.used r (Source.usedOffset_of_selectable hsel)
  obtain ⟨hzero, htimes⟩ := List.nodup_cons.mp hd
  have hremembered := hlast.symm.trans hi.last
  cases hc : lastConsumed h with
  | none =>
      -- nothing was consumed, and the time of an update is not zero
      rw [hc, Option.elim_none] at hremembered
      rw [hremembered] at hupdate
      exact absurd (List.mem_map_of_mem (f := Prod.snd) hupdate) hzero
  | some c =>
      rw [hc, Option.elim_some] at hremembered
      have hsame := List.inj_on_of_nodup_map htimes (hi.consumed c hc) hupdate hremembered.symm
      exact ⟨c, rfl, congrArg Prod.fst hsame, hremembered.symm,
        hi.advert c hc r hr hsel hremembered⟩

/-- **After every pass** in every run, if no time is the time of two updates or the time that stands
for no update, and the scores of the listed sources are linearly ordered. -/
theorem coherent_of_run (hrun : Run TimeServer.step TimeServer.init ((s, .select) :: h) s')
    (hd : DistinctTimes h) (hord : s'.table.ScoresOrdered s'.table.listed) :
    Coherent ((s, .select) :: h) s'.table := by
  cases hrun with
  | next hrun hs =>
  cases hs
  have hi := coherenceInv_of_run hrun hd
  have hi' := hi.select
  obtain ⟨l, hl⟩ := hi.lists
  obtain ⟨l', hprune, hselect, -, -, hsame⟩ := Table.runSelect_sameFilter hl
  have hlisted : s.table.runSelect.1.listed = l' := hselect.listed
  have hbest : s.table.selectBest =
      l'.foldl Table.considerSource { s.table.pruneSource with selectedSource := none } := by
    rw [Table.selectBest, hprune.listed]
  rw [hlisted] at hord
  dsimp only at hord ⊢
  have hord' := hsame.scoresOrdered hord
  rcases Table.foldl_leftmost l' (T := { s.table.pruneSource with selectedSource := none }) rfl
      ⟨hord'.trans, hord'.total⟩ with ⟨hsel, hno⟩ | ⟨r, hsel, hfirst⟩
  · rw [← hbest] at hsel
    obtain ⟨-, hselected, -, hadvert⟩ := Table.runSelect_none hsel
    refine Or.inl ⟨fun r hr => ?_, hselected, hadvert⟩
    rw [hsame.selects]
    exact hno r (hlisted ▸ hr)
  · rw [← hbest] at hsel
    obtain ⟨hselected, hstates⟩ := Table.runSelect_states hsel
    have hleast : Leftmost s.table.runSelect.1.Selects s.table.runSelect.1.Better l' r := by
      rw [hsame.selects, hsame.better]
      exact hfirst
    have hlast : s.table.runSelect.1.lastUpdate = (s.table.runSelect.1.mem r).lastUpdate := by
      obtain ⟨state, hmem⟩ := (Table.selectBest_considered hprune).mem r
      rw [Table.runSelect_lastUpdate hsel, hsame.lastUpdate, hmem]
    rw [← hlisted] at hleast
    obtain ⟨c, hc, hsource, hconsumed, hadvert⟩ := hi'.consumption hd hleast.mem hleast.passes hlast
    refine Or.inr ⟨r, c, hselected, hleast, fun r' hr' => ?_, hc, hsource, hconsumed, hadvert⟩
    rw [hstates]
    by_cases hr : r' = r
    · exact iff_of_true (if_pos hr) hr
    · rw [if_neg hr, hbest, Table.foldl_state l' _ r' (hlisted ▸ hr')]
      exact iff_of_false (Source.selectState_ne_selected _) hr

/-- The scores of the example sources are integers. -/
theorem scoresOrdered_nano (T : Table Nano) (l : List Ref) : T.ScoresOrdered l where
  trans a _ b _ c _ hab hbc := by
    have hab := of_decide_eq_true hab
    have hbc := of_decide_eq_true hbc
    exact decide_eq_true (by omega)
  total a _ b _ := by
    rcases lt_trichotomy (T.mem a).score.val (T.mem b).score.val with hlt | heq | hgt
    · exact Or.inl (decide_eq_true hlt)
    · exact Or.inr (Or.inl (congrArg Nano.mk heq))
    · exact Or.inr (Or.inr (decide_eq_true hgt))

/-- The pulse of a second, after a time message. -/
def pulseAt (second : BitVec 64) : GpsEnv Nano where
  ppsTime := ⟨second <<< 32, second <<< 32, second <<< 32⟩
  now := second <<< 32 + 5
  taiEpoch := 1700000000
  taiEpochUpdate := 0
  taiOffset := 37
  stats := scored 0

/-- The GPS source is selected after 16 pulses. -/
theorem coherent_of_run_pulses : ∃ (h : TimeServerHistory Nano) (s s' : TimeServer Nano),
    Run TimeServer.step TimeServer.init ((s, .select) :: h) s' ∧ DistinctTimes h ∧
      s'.table.selectedSource = some .gps ∧ Coherent ((s, .select) :: h) s'.table := by
  obtain ⟨h, s, hrun, hp⟩ := @exists_run_of_replay _ _ TimeServer.step TimeServer.init
    ((List.range 16).map fun i => ServerEvent.gps (pulseAt (i + 1)))
    (fun h s => decide ((0 :: (filterUpdates h).map Prod.snd).Nodup ∧
      s.table.runSelect.1.selectedSource = some .gps)) (by decide +kernel)
  obtain ⟨hd, hsel⟩ := of_decide_eq_true hp
  have hpass := Run.next hrun (a := ServerEvent.select) rfl
  exact ⟨h, s, _, hpass, hd, hsel, coherent_of_run hpass hd (scoresOrdered_nano _ _)⟩

end Gpsdo.Ntp
