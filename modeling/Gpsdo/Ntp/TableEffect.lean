import Gpsdo.Ntp.Table

set_option autoImplicit false

/-! # What the operations do to the source table

`Lists T l`: the array `sources` and the counter `cntSources` hold the list `l`. Each operation of
the table is described by what it does to that list and to each source.
-/

namespace Gpsdo.Ntp

variable {F : Type}

/-! ## The list in the array -/

/-- The array holds the list, and null pointers behind it. -/
structure Lists (T : Table F) (l : List Ref) : Prop where
  count : T.cntSources = l.length
  le : l.length ≤ MAX_NTP_SRCS
  sources : ∀ i : Fin MAX_NTP_SRCS, T.sources i = l[i.val]?

theorem Lists.entry {T : Table F} {l : List Ref} (h : Lists T l) (i : Nat) :
    T.entry i = l[i]? := by
  unfold Table.entry
  split
  · exact h.sources ⟨i, ‹_›⟩
  · rw [List.getElem?_eq_none]
    have := h.le
    omega

theorem filterMap_getElem?_range {α : Type*} (l : List α) :
    (List.range l.length).filterMap (fun i => l[i]?) = l := by
  have hmap : (List.range l.length).map (fun i => l[i]?) = l.map some := by
    apply List.ext_getElem <;> simp
  calc (List.range l.length).filterMap (fun i => l[i]?)
      = ((List.range l.length).map (fun i => l[i]?)).filterMap id := by rw [List.filterMap_map]; rfl
    _ = l := by rw [hmap, List.filterMap_map]; exact List.filterMap_some

/-- The loops over the table go through the list. -/
theorem Lists.listed {T : Table F} {l : List Ref} (h : Lists T l) : T.listed = l := by
  rw [Table.listed, h.count]
  exact (congrArg (List.filterMap · _) (funext h.entry)).trans (filterMap_getElem?_range l)

/-- The list only depends on the array and the counter. -/
theorem Lists.congr {T T' : Table F} {l : List Ref} (h : Lists T l)
    (hs : T'.sources = T.sources) (hc : T'.cntSources = T.cntSources) : Lists T' l :=
  ⟨hc.trans h.count, h.le, fun i => by rw [hs]; exact h.sources i⟩

namespace Table

/-! ## Clock steps -/

/-- Each source is moved once for each entry of the list that points to it. -/
theorem foldl_applyOffset (l : List Ref) (offset : BitVec 64) (T : Table F) :
    l.foldl (fun T r => T.modify r (·.applyOffset offset)) T =
      { T with mem := fun r => (T.mem r).applyOffset (l.count r * offset) } := by
  induction l generalizing T with
  | nil => simp
  | cons x l ih =>
      rw [List.foldl_cons, ih]
      simp only [modify, Table.mk.injEq, and_true]
      funext r
      rw [List.count_cons]
      by_cases hx : x = r
      · subst hx
        rw [Function.update_self, Source.applyOffset_add]
        congr 1
        rw [if_pos (beq_self_eq_true x), Nat.cast_add, Nat.cast_one, add_mul, one_mul, add_comm]
      · simp [Function.update_of_ne (Ne.symm hx), hx]

/-- **A hard step** moves the samples of the listed sources, and nothing else. -/
theorem ntpSetTaiClock_eq {T : Table F} {l : List Ref} (h : Lists T l) (offset : BitVec 64) :
    T.ntpSetTaiClock offset = { T with
      clkTaiOffset := T.clkTaiOffset + offset,
      mem := fun r => (T.mem r).applyOffset (l.count r * offset) } := by
  have hl : Lists { T with clkTaiOffset := T.clkTaiOffset + offset } l := h.congr rfl rfl
  rw [ntpSetTaiClock, ntpApplyOffset, hl.listed, foldl_applyOffset]

/-- The step that an offset makes the controller take. -/
def hardOffset (offset : BitVec 64) : BitVec 64 := if hardAlign offset then offset else 0

theorem PLL_updateOffset_spec {T : Table F} {l : List Ref} (h : Lists T l) (offset : BitVec 64) :
    (T.PLL_updateOffset offset).sources = T.sources ∧
      (T.PLL_updateOffset offset).cntSources = T.cntSources ∧
      (T.PLL_updateOffset offset).lastUpdate = T.lastUpdate ∧
      ∀ r, (T.PLL_updateOffset offset).mem r =
        (T.mem r).applyOffset (l.count r * hardOffset offset) := by
  unfold PLL_updateOffset hardOffset
  split
  · rw [ntpSetTaiClock_eq h]
    exact ⟨rfl, rfl, rfl, fun r => rfl⟩
  · exact ⟨rfl, rfl, rfl, fun r => by simp⟩

/-! ## Peers -/

/-- **A new peer** takes a slot that is not allocated, and the first free entry of the list. -/
theorem newPeer_cases [Single F] {T : Table F} {l : List Ref} (h : Lists T l)
    (hle : l.length < MAX_NTP_SRCS) (ipAddr ipSubnet ipAddress : BitVec 32) :
    (T.newPeer ipAddr ipSubnet ipAddress = T ∧ ∀ i, (T.mem (.peer i)).isAllocated = true) ∨
      ∃ slot, (T.mem (.peer slot)).isAllocated = false ∧
        Lists (T.newPeer ipAddr ipSubnet ipAddress) (l ++ [.peer slot]) ∧
        (T.newPeer ipAddr ipSubnet ipAddress).mem = Function.update T.mem (.peer slot)
          (Peer.new ipAddr ipSubnet ipAddress).toSource ∧
        (T.newPeer ipAddr ipSubnet ipAddress).lastUpdate = T.lastUpdate := by
  unfold newPeer
  cases hf : (List.finRange MAX_NTP_PEERS).find? fun i => !(T.mem (.peer i)).isAllocated with
  | none =>
      refine Or.inl ⟨rfl, fun i => ?_⟩
      simpa using List.find?_eq_none.mp hf i (List.mem_finRange i)
  | some slot =>
      refine Or.inr ⟨slot, by simpa using List.find?_some hf, ⟨?_, ?_, fun i => ?_⟩, rfl, rfl⟩
      · simp [h.count]
      · simpa using hle
      · have hc := h.count
        by_cases hi : i.val = T.cntSources
        · simp [hi, hc]
        · simp only [if_neg hi, h.sources i]
          rcases Nat.lt_or_gt_of_ne (hc ▸ hi) with hlt | hgt
          · rw [List.getElem?_append_left hlt]
          · rw [List.getElem?_eq_none hgt.le, List.getElem?_eq_none (by simpa using hgt)]

/-- **Deleting a peer** takes the last entry that points to it from the list. -/
theorem deletePeer_cases {T : Table F} {l : List Ref} (h : Lists T l) {r : Ref} (hr : r ∈ l) :
    ∃ k, l[k]? = some r ∧ Lists (T.deletePeer r) (l.eraseIdx k) ∧
      (T.deletePeer r).mem = Function.update T.mem r (T.mem r).destroy ∧
      (T.deletePeer r).lastUpdate = T.lastUpdate := by
  have key : ∀ T : Table F, Lists T l → ∃ k, l[k]? = some r ∧
      ((List.range T.cntSources).reverse.find? fun i => T.entry i = some r) = some k := by
    intro T h
    obtain ⟨i, hi, hir⟩ := List.mem_iff_getElem.mp hr
    cases hf : (List.range T.cntSources).reverse.find? fun i => T.entry i = some r with
    | none =>
        have := List.find?_eq_none.mp hf i (by simpa [h.count] using hi)
        simp [h.entry, hi, hir] at this
    | some k =>
        have := List.find?_some hf
        exact ⟨k, by simpa [h.entry] using this, rfl⟩
  unfold deletePeer
  dsimp only
  generalize hT : (if T.selectedSource = some r then { T with selectedSource := none } else T)
    = T₁
  have h1 : Lists T₁ l ∧ T₁.mem = T.mem ∧ T₁.lastUpdate = T.lastUpdate := by
    subst hT
    split
    · exact ⟨h.congr rfl rfl, rfl, rfl⟩
    · exact ⟨h, rfl, rfl⟩
  obtain ⟨h1, hmem, hlast⟩ := h1
  obtain ⟨k, hk, hfind⟩ := key T₁ h1
  rw [hfind]
  have hlt : k < l.length := (List.getElem?_eq_some_iff.mp hk).1
  refine ⟨k, hk, ⟨?_, ?_, fun i => ?_⟩, by rw [hmem], hlast⟩
  · rw [List.length_eraseIdx_of_lt hlt, ← h1.count]
  · rw [List.length_eraseIdx_of_lt hlt]
    have := h1.le
    omega
  · have hc := h1.count
    simp only [List.getElem?_eraseIdx, h1.entry, h1.sources, hc]
    -- the entries behind the deleted one move down by one, and the last becomes null
    split_ifs with hend hlt' hmid hlt' hlt'
    · omega
    · rw [List.getElem?_eq_none (by omega)]
    · omega
    · rfl
    · rfl
    · rw [List.getElem?_eq_none (by omega), List.getElem?_eq_none (by omega)]

/-! ## Selection -/

theorem pruneSource_cases {T : Table F} {l : List Ref} (h : Lists T l) :
    T.pruneSource = T ∨
      ∃ r ∈ l, (T.mem r).isPruneable = true ∧ T.pruneSource = T.deletePeer r := by
  unfold pruneSource
  rw [h.listed]
  cases hf : l.find? fun r => (T.mem r).isPruneable with
  | none => exact Or.inl rfl
  | some r => exact Or.inr ⟨r, List.mem_of_find?_eq_some hf, by simpa using List.find?_some hf, rfl⟩

/-- Pruning shortens the list, and destroys at most one source. -/
theorem pruneSource_spec {T : Table F} {l : List Ref} (h : Lists T l) :
    ∃ l', Lists T.pruneSource l' ∧ l' ⊆ l ∧ ∀ r, T.pruneSource.mem r = T.mem r ∨
      (T.mem r).isPruneable = true ∧ T.pruneSource.mem r = (T.mem r).destroy := by
  rcases pruneSource_cases h with h' | ⟨x, hx, hp, h'⟩
  · rw [h']
    exact ⟨l, h, List.Subset.refl l, fun r => Or.inl rfl⟩
  · obtain ⟨k, -, hl, hm, -⟩ := deletePeer_cases h hx
    rw [h']
    refine ⟨_, hl, (List.eraseIdx_sublist l k).subset, fun r => ?_⟩
    by_cases hr : r = x
    · subst hr
      exact Or.inr ⟨hp, by rw [hm, Function.update_self]⟩
    · exact Or.inl (by rw [hm, Function.update_of_ne hr])

theorem pruneSource_lastUpdate {T : Table F} {l : List Ref} (h : Lists T l) :
    T.pruneSource.lastUpdate = T.lastUpdate := by
  rcases pruneSource_cases h with h' | ⟨r, hr, -, h'⟩
  · rw [h']
  · obtain ⟨k, -, -, -, hlast⟩ := deletePeer_cases h hr
    rw [h', hlast]

variable [Single F]

/-- What the search for the best source among `l` changes: states, and the selected source. -/
structure Considered (T T' : Table F) (l : List Ref) : Prop where
  sources : T'.sources = T.sources
  cntSources : T'.cntSources = T.cntSources
  lastUpdate : T'.lastUpdate = T.lastUpdate
  mem : ∀ r, ∃ state, T'.mem r = { T.mem r with state := state }
  selected : ∀ r, T'.selectedSource = some r →
    T.selectedSource = some r ∨ r ∈ l ∧ (T.mem r).selectState = .selectable

theorem considerSource_considered (T : Table F) (x : Ref) :
    Considered T (T.considerSource x) [x] := by
  have hmem : ∀ r, ∃ state, (T.modify x fun _ => (T.mem x).isSelectable.2).mem r =
      { T.mem r with state := state } := by
    intro r
    by_cases hr : r = x
    · subst hr
      exact ⟨_, modify_mem_self T r _⟩
    · exact ⟨(T.mem r).state, modify_mem_of_ne T hr _⟩
  unfold considerSource
  dsimp only
  by_cases hsel : (T.mem x).isSelectable.1 = false
  · rw [if_pos hsel]
    exact ⟨rfl, rfl, rfl, hmem, fun r hr => Or.inl hr⟩
  · rw [if_neg hsel]
    have hsel : (T.mem x).selectState = .selectable := by
      simpa [Source.isSelectable] using hsel
    have hnew : ∀ r, some x = some r → T.selectedSource = some r ∨
        r ∈ [x] ∧ (T.mem r).selectState = .selectable := by
      intro r hr
      obtain rfl := Option.some.inj hr
      exact Or.inr ⟨List.mem_singleton_self x, hsel⟩
    split
    · exact ⟨rfl, rfl, rfl, hmem, hnew⟩
    · split
      · exact ⟨rfl, rfl, rfl, hmem, hnew⟩
      · exact ⟨rfl, rfl, rfl, hmem, fun r hr => Or.inl hr⟩

theorem foldl_considered (l : List Ref) (T : Table F) :
    Considered T (l.foldl considerSource T) l := by
  induction l generalizing T with
  | nil => exact ⟨rfl, rfl, rfl, fun r => ⟨(T.mem r).state, rfl⟩, fun r hr => Or.inl hr⟩
  | cons x l ih =>
      have hx := considerSource_considered T x
      have hl := ih (T.considerSource x)
      refine ⟨hl.sources.trans hx.sources, hl.cntSources.trans hx.cntSources,
        hl.lastUpdate.trans hx.lastUpdate, fun r => ?_, fun r hr => ?_⟩
      · obtain ⟨state, h1⟩ := hl.mem r
        obtain ⟨state', h2⟩ := hx.mem r
        exact ⟨state, by rw [List.foldl_cons, h1, h2]⟩
      · obtain ⟨state', h2⟩ := hx.mem r
        rcases hl.selected r hr with h | ⟨h, hsel⟩
        · rcases hx.selected r h with h | ⟨h, hsel⟩
          · exact Or.inl h
          · exact Or.inr ⟨List.mem_singleton.mp h ▸ List.mem_cons_self, hsel⟩
        · rw [h2] at hsel
          exact Or.inr ⟨List.mem_cons_of_mem _ h, hsel⟩

theorem selectBest_considered {T : Table F} {l : List Ref} (h : Lists T.pruneSource l) :
    Considered { T.pruneSource with selectedSource := none } T.selectBest l := by
  rw [selectBest, h.listed]
  exact foldl_considered l _

/-- The step that a feed makes the controller take. -/
def hardStep (feed : Option Feed) : BitVec 64 := (feed.map fun f => hardOffset f.offset).getD 0

theorem feedSource_spec {T : Table F} {l : List Ref} (h : Lists T l) (r : Ref) :
    (T.feedSource r).1.sources = T.sources ∧ (T.feedSource r).1.cntSources = T.cntSources ∧
      (T.feedSource r).1.lastUpdate = ((T.feedSource r).2.map Feed.lastUpdate).getD T.lastUpdate ∧
      (∀ r', (T.feedSource r).1.mem r' =
        (T.mem r').applyOffset (l.count r' * hardStep (T.feedSource r).2)) ∧
      ∀ f ∈ (T.feedSource r).2, f.source = r ∧ f.lastUpdate = (T.mem r).lastUpdate ∧
        f.lastUpdate ≠ T.lastUpdate ∧ f.offset = (T.mem r).filteredOffset := by
  unfold feedSource
  dsimp only
  by_cases heq : T.lastUpdate = (T.mem r).lastUpdate
  · rw [if_pos heq]
    exact ⟨rfl, rfl, rfl, fun r' => by simp [hardStep], by simp⟩
  · rw [if_neg heq]
    have hfeed : ∀ f ∈ some (Feed.mk r (T.mem r).lastUpdate (T.mem r).poll
        (T.mem r).filteredOffset), f.source = r ∧ f.lastUpdate = (T.mem r).lastUpdate ∧
        f.lastUpdate ≠ T.lastUpdate ∧ f.offset = (T.mem r).filteredOffset := by
      rintro f hf
      obtain rfl := Option.some.inj hf
      exact ⟨rfl, rfl, Ne.symm heq, rfl⟩
    obtain ⟨h1, h2, h3, h4⟩ := PLL_updateOffset_spec
      (h.congr rfl rfl : Lists (T.setStatus (T.mem r)) l) (T.mem r).filteredOffset
    exact ⟨h1, h2, h3, h4, hfeed⟩

/-- **What a pass of `runSelect` does**, after `pruneSource`: it sets states, and feeds at most one
update of a listed selectable source that was not the last one fed. A large offset is a hard
step. -/
structure SelectSpec (T T' : Table F) (l : List Ref) (feed : Option Feed) : Prop where
  sources : T'.sources = T.sources
  cntSources : T'.cntSources = T.cntSources
  lastUpdate : T'.lastUpdate = (feed.map Feed.lastUpdate).getD T.lastUpdate
  mem : ∀ r, ∃ state, T'.mem r =
    { T.mem r with state := state }.applyOffset (l.count r * hardStep feed)
  feed : ∀ f ∈ feed, f.source ∈ l ∧ (T.mem f.source).selectState = .selectable ∧
    f.lastUpdate = (T.mem f.source).lastUpdate ∧ f.lastUpdate ≠ T.lastUpdate ∧
    f.offset = (T.mem f.source).filteredOffset

theorem runSelect_spec {T : Table F} {l : List Ref} (h : Lists T.pruneSource l) :
    SelectSpec T.pruneSource T.runSelect.1 l T.runSelect.2 := by
  have hcon := selectBest_considered h
  unfold runSelect
  dsimp only
  generalize T.selectBest = T₁ at hcon
  cases hs : T₁.selectedSource with
  | none =>
      refine ⟨hcon.sources, hcon.cntSources, hcon.lastUpdate, fun r => ?_, by simp⟩
      obtain ⟨state, hm⟩ := hcon.mem r
      exact ⟨state, by simp [hardStep, hm]⟩
  | some r =>
      obtain ⟨hr, hsel⟩ := (hcon.selected r hs).resolve_left (by simp)
      -- the selected source only differs by its state
      have hmem : ∀ r', ∃ state, (T₁.modify r Source.select).mem r' =
          { T.pruneSource.mem r' with state := state } := by
        intro r'
        obtain ⟨state, hm⟩ := hcon.mem r'
        by_cases hr' : r' = r
        · subst hr'
          exact ⟨.selected, by simp [Source.select, hm]⟩
        · exact ⟨state, by simp [modify_mem_of_ne T₁ hr', hm]⟩
      have hl : Lists (T₁.modify r Source.select) l := h.congr hcon.sources hcon.cntSources
      obtain ⟨h1, h2, h3, h4, h5⟩ := feedSource_spec hl r
      refine ⟨h1.trans hcon.sources, h2.trans hcon.cntSources, ?_, fun r' => ?_, fun f hf => ?_⟩
      · rw [h3]
        exact congrArg _ hcon.lastUpdate
      · obtain ⟨state, hm⟩ := hmem r'
        exact ⟨state, by rw [h4, hm]⟩
      · obtain ⟨rfl, g1, g2, g3⟩ := h5 f hf
        obtain ⟨state, hm⟩ := hmem f.source
        rw [hm] at g1 g3
        exact ⟨hr, hsel, g1, fun heq => g2 (heq.trans hcon.lastUpdate.symm), g3⟩

/-- The source that is fed is listed and has used samples; what is fed is its last update. -/
theorem feed_spec {T : Table F} {l : List Ref} (h : Lists T l) {f : Feed}
    (hf : f ∈ T.runSelect.2) :
    f.source ∈ l ∧ f.source ∈ T.runSelect.1.listed ∧ 0 < (T.mem f.source).usedOffset ∧
      f.lastUpdate = (T.mem f.source).lastUpdate ∧ f.lastUpdate ≠ T.lastUpdate ∧
      f.offset = (T.mem f.source).filteredOffset := by
  obtain ⟨l', hl', hsub, hprune⟩ := pruneSource_spec h
  have hspec := runSelect_spec hl'
  obtain ⟨h1, h2, h3, h4, h5⟩ := hspec.feed f hf
  have h1' : f.source ∈ T.runSelect.1.listed := by
    rwa [(hl'.congr hspec.sources hspec.cntSources).listed]
  rw [pruneSource_lastUpdate h] at h4
  have hused := Source.usedOffset_of_selectable h2
  rcases hprune f.source with h' | ⟨-, h'⟩
  · rw [h'] at h3 h5 hused
    exact ⟨hsub h1, h1', hused, h3, h4, h5⟩
  · rw [h'] at h3 h5 hused
    exact ⟨hsub h1, h1', hused, h3, h4, h5⟩

/-! ## Steps -/

theorem ntpDnsCallback_cases {T : Table F} {l : List Ref} (h : Lists T l)
    (addr ipSubnet ipAddress : BitVec 32) :
    T.ntpDnsCallback addr ipSubnet ipAddress = T ∨
      l.length < MAX_NTP_SRCS ∧ addr ≠ ipAddress ∧ (∀ r ∈ l, (T.mem r).isRecipient addr = false) ∧
        T.ntpDnsCallback addr ipSubnet ipAddress = T.newPeer addr ipSubnet ipAddress := by
  unfold ntpDnsCallback
  rw [h.count, h.listed]
  split_ifs with hfull hown huse
  · exact Or.inl rfl
  · exact Or.inl rfl
  · exact Or.inl rfl
  · exact Or.inr ⟨Nat.lt_of_not_ge hfull, hown, by simpa using huse, rfl⟩

/-- The hard step of the TAI clock that an action makes. -/
def stepOffset (T : Table F) : TableAction F → BitVec 64
  | .setTaiClock offset => offset
  | .select => hardStep T.runSelect.2
  | _ => 0

end Table

/-- What an action can do to the source that a pointer `r` points to, if it moves the samples of
that source by `d`. -/
inductive SourceStep (a : TableAction F) (r : Ref) (src : Source F) (d : BitVec 64) :
    Source F → Prop
  | moved (ha : ∀ now, a.updates ≠ some (r, now)) (state : SdState) :
      SourceStep a r src d ({ src with state := state }.applyOffset d)
  | deleted (ha : a = .select) (hp : src.isPruneable = true) (state : SdState) :
      SourceStep a r src d ({ src.destroy with state := state }.applyOffset d)
  | created [Single F] {slot : Fin MAX_NTP_PEERS} {ipAddr ipSubnet ipAddress : BitVec 32}
      (ha : a = .report ipAddr ipSubnet ipAddress) (hr : r = .peer slot)
      (hfree : src.isAllocated = false) :
      SourceStep a r src d (Peer.new ipAddr ipSubnet ipAddress).toSource
  | pushed {smp : Sample} {stats : Stats F} {now : BitVec 64} (ha : a = .update r smp stats now) :
      SourceStep a r src d (src.push smp stats now)
  | status {status : Status} (ha : a = .status r status) :
      SourceStep a r src d { src with toStatus := status }

theorem SourceStep.same {a : TableAction F} {r : Ref} (ha : ∀ now, a.updates ≠ some (r, now))
    (src : Source F) : SourceStep a r src 0 src := by
  have h : SourceStep a r src 0 ({ src with state := src.state }.applyOffset 0) := .moved ha _
  simpa using h

/-- A source keeps its last update, has none any more, or is updated. -/
theorem SourceStep.lastUpdate_cases {a : TableAction F} {r : Ref} {src src' : Source F}
    {d : BitVec 64} (hs : SourceStep a r src d src') :
    ((∀ now, a.updates ≠ some (r, now)) ∧ src'.usedOffset = src.usedOffset ∧
        src'.lastUpdate = src.lastUpdate) ∨
      src'.usedOffset = 0 ∨ a.updates = some (r, src'.lastUpdate) := by
  cases hs with
  | moved ha state => exact Or.inl ⟨ha, rfl, rfl⟩
  | deleted ha hp state => exact Or.inl ⟨by simp [ha, TableAction.updates], rfl, rfl⟩
  | created ha hr hfree => exact Or.inr (Or.inl (Peer.new_spec _ _ _).2.2)
  | pushed ha => exact Or.inr (Or.inr (by rw [ha]; rfl))
  | status ha => exact Or.inl ⟨by simp [ha, TableAction.updates], rfl, rfl⟩

namespace Table

variable [Single F]

/-- **What a step does to the list and to each source.** -/
theorem step_sources {T T' : Table F} {l : List Ref} (h : Lists T l) {a : TableAction F}
    (hs : T.step a = some T') :
    ∃ l', Lists T' l' ∧ (T.stepOffset a ≠ 0 → l' ⊆ l) ∧
      ∀ r, SourceStep a r (T.mem r) (l'.count r * T.stepOffset a) (T'.mem r) := by
  have hsame : ∀ (l' : List Ref) (r : Ref), T.stepOffset a = 0 →
      (∀ now, a.updates ≠ some (r, now)) →
      SourceStep a r (T.mem r) (l'.count r * T.stepOffset a) (T.mem r) := by
    intro l' r h0 hne
    rw [h0, mul_zero]
    exact .same hne (T.mem r)
  cases a with
  | report addr ipSubnet ipAddress =>
      obtain rfl := Option.some.inj hs
      rcases ntpDnsCallback_cases h addr ipSubnet ipAddress with h' | ⟨hlt, -, -, h'⟩
      · rw [h']
        exact ⟨l, h, fun _ => List.Subset.refl l, fun r => hsame l r rfl (by simp [TableAction.updates])⟩
      · rw [h']
        rcases newPeer_cases h hlt addr ipSubnet ipAddress with ⟨h', -⟩ | ⟨slot, hfree, hl, hm, -⟩
        · rw [h']
          exact ⟨l, h, fun _ => List.Subset.refl l, fun r => hsame l r rfl (by simp [TableAction.updates])⟩
        · refine ⟨_, hl, fun hne => absurd rfl hne, fun r => ?_⟩
          rw [hm]
          by_cases hr : r = .peer slot
          · subst hr
            rw [Function.update_self]
            exact .created rfl rfl hfree
          · rw [Function.update_of_ne hr]
            exact hsame _ r rfl (by simp [TableAction.updates])
  | update r' smp stats now =>
      simp only [step, Option.ite_none_right_eq_some, Option.some.injEq] at hs
      obtain ⟨-, rfl⟩ := hs
      refine ⟨l, h.congr rfl rfl, fun _ => List.Subset.refl l, fun r => ?_⟩
      by_cases hr : r = r'
      · subst hr
        rw [modify_mem_self]
        exact .pushed rfl
      · rw [modify_mem_of_ne T hr]
        exact hsame l r rfl (by simp [TableAction.updates, Ne.symm hr])
  | status r' status =>
      simp only [step, Option.ite_none_right_eq_some, Option.some.injEq] at hs
      obtain ⟨-, rfl⟩ := hs
      refine ⟨l, h.congr rfl rfl, fun _ => List.Subset.refl l, fun r => ?_⟩
      by_cases hr : r = r'
      · subst hr
        rw [modify_mem_self]
        exact .status rfl
      · rw [modify_mem_of_ne T hr]
        exact hsame l r rfl (by simp [TableAction.updates])
  | setTaiClock offset =>
      obtain rfl := Option.some.inj hs
      rw [ntpSetTaiClock_eq h]
      exact ⟨l, h.congr rfl rfl, fun _ => List.Subset.refl l,
        fun r => .moved (by simp [TableAction.updates]) (T.mem r).state⟩
  | select =>
      obtain rfl := Option.some.inj hs
      -- first a source may be pruned
      obtain ⟨l', hl', hsub, hprune⟩ := pruneSource_spec h
      have hspec := runSelect_spec hl'
      refine ⟨l', hl'.congr hspec.sources hspec.cntSources, fun _ => hsub, fun r => ?_⟩
      obtain ⟨state, hm⟩ := hspec.mem r
      rw [hm]
      rcases hprune r with h' | ⟨hp, h'⟩
      · rw [h']
        exact .moved (by simp [TableAction.updates]) state
      · rw [h']
        exact .deleted rfl hp state

/-- In every state the array holds a list. -/
theorem lists_of_run {h : TableHistory F} {T : Table F} (hrun : Run step init h T) :
    ∃ l, Lists T l := by
  refine hrun.invariant (I := fun _ T => ∃ l, Lists T l) ⟨[.gps], rfl, by decide, fun i => ?_⟩
    fun h T a T' ⟨l, hl⟩ hs => ?_
  · show (if i.val = 0 then some Ref.gps else none) = _
    split
    · rename_i hi
      rw [hi]
      rfl
    · rename_i hi
      rw [List.getElem?_eq_none]
      exact Nat.pos_of_ne_zero hi
  · obtain ⟨l', hl', -⟩ := step_sources hl hs
    exact ⟨l', hl'⟩

end Table

end Gpsdo.Ntp
