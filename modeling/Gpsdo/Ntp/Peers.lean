import Gpsdo.Ntp.TableEffect

set_option autoImplicit false

/-! # The source table stays well formed

A slot is taken to be free when its `id` is 0. The address 0.0.0.0 is therefore no address for a
peer: the slot of such a peer is in the list and is handed out again. `ntpDnsCallback` does not test
for it. As long as it is not reported, the list, the slots and the addresses stay in step.
-/

namespace Gpsdo.Ntp

variable {F : Type}

/-! ## The law -/

/-- The table lists the GPS source and then the peers in `peers`: distinct slots, exactly those that
are allocated, with distinct addresses. Behind them the array holds null pointers. -/
structure WellFormed (T : Table F) (peers : List (Fin MAX_NTP_PEERS)) : Prop where
  lists : Lists T (.gps :: peers.map .peer)
  nodup : peers.Nodup
  allocated : ∀ slot, slot ∈ peers ↔ (T.mem (.peer slot)).isAllocated = true
  ids : (peers.map fun slot => (T.mem (.peer slot)).id).Nodup

def TableOk (T : Table F) : Prop := ∃ peers, WellFormed T peers

/-- The address 0.0.0.0 is reported, is not the own address, and the list has room for it. -/
def ReportsZero (T : Table F) : TableAction F → Prop
  | .report addr _ ipAddress => addr = 0 ∧ ipAddress ≠ 0 ∧ T.cntSources < MAX_NTP_SRCS
  | _ => False

/-- `mode` tells the GPS source and the peers apart, whether the slots are in use or not. -/
structure Modes (T : Table F) : Prop where
  gps : (T.mem .gps).mode = RPY_SD_MD_REF
  peer : ∀ slot, (T.mem (.peer slot)).mode = RPY_SD_MD_CLIENT

theorem Modes.step [Single F] {T T' : Table F} {l : List Ref} (hm : Modes T) (h : Lists T l)
    {a : TableAction F} (hs : T.step a = some T') : Modes T' := by
  obtain ⟨l', -, -, hsrc⟩ := Table.step_sources h hs
  constructor
  · have hstep := hsrc .gps
    generalize T'.mem .gps = src at hstep
    cases hstep with
    | deleted ha hp state =>
        -- the GPS source is never pruned
        rw [Source.isPruneable, Source.isReference, hm.gps] at hp
        cases hp
    | created ha hr => cases hr
    | _ => exact hm.gps
  · intro slot
    have hstep := hsrc (.peer slot)
    generalize T'.mem (.peer slot) = src at hstep
    cases hstep with
    | deleted => rfl
    | created => exact (Peer.new_spec _ _ _).1.2
    | _ => exact hm.peer slot

/-! ## What the operations keep -/

theorem WellFormed.congr {T T' : Table F} {peers : List (Fin MAX_NTP_PEERS)}
    (h : WellFormed T peers) (hs : T'.sources = T.sources) (hc : T'.cntSources = T.cntSources)
    (hid : ∀ slot, (T'.mem (.peer slot)).id = (T.mem (.peer slot)).id) : WellFormed T' peers where
  lists := h.lists.congr hs hc
  nodup := h.nodup
  allocated slot := by
    rw [h.allocated, Source.isAllocated, Source.isAllocated, hid]
  ids := by simpa only [hid] using h.ids

/-- **A new peer** with an address other than 0.0.0.0, and that no listed peer has. -/
theorem WellFormed.newPeer [Single F] {T : Table F} {peers : List (Fin MAX_NTP_PEERS)}
    (h : WellFormed T peers) (hlt : (Ref.gps :: peers.map Ref.peer).length < MAX_NTP_SRCS)
    {ipAddr : BitVec 32} (h0 : ipAddr ≠ 0)
    (hnew : ∀ slot ∈ peers, (T.mem (.peer slot)).id ≠ ipAddr) (ipSubnet ipAddress : BitVec 32) :
    TableOk (T.newPeer ipAddr ipSubnet ipAddress) := by
  rcases Table.newPeer_cases h.lists hlt ipAddr ipSubnet ipAddress with
    ⟨h', -⟩ | ⟨slot, hfree, hl, hm, -⟩
  · exact ⟨peers, by rwa [h']⟩
  · have hnot : slot ∉ peers := fun hmem => by
      rw [h.allocated, hfree] at hmem
      cases hmem
    have hid : (Peer.new ipAddr ipSubnet ipAddress : Peer F).id = ipAddr := (Peer.new_spec _ _ _).1.1
    refine ⟨peers ++ [slot], ⟨by simpa using hl, ?_, fun slot' => ?_, ?_⟩⟩
    · exact List.nodup_append.mpr ⟨h.nodup, List.nodup_singleton slot, fun a ha b hb => by
        rw [List.mem_singleton.mp hb]
        exact fun heq => hnot (heq ▸ ha)⟩
    · rw [hm]
      by_cases heq : slot' = slot
      · subst heq
        simpa [Source.isAllocated, hid] using h0
      · rw [Function.update_of_ne (by simpa using heq), ← h.allocated]
        simp [heq]
    · have hkeep : (peers.map fun slot' => ((T.newPeer ipAddr ipSubnet ipAddress).mem
          (.peer slot')).id) = peers.map fun slot' => (T.mem (.peer slot')).id := by
        refine List.map_congr_left fun slot' hmem => ?_
        have hne : Ref.peer slot' ≠ .peer slot := fun heq => hnot (Ref.peer.inj heq ▸ hmem)
        rw [hm, Function.update_of_ne hne]
      rw [List.map_append, hkeep]
      refine List.nodup_append.mpr ⟨h.ids, List.nodup_singleton _, fun a ha b hb => ?_⟩
      obtain ⟨slot', hmem, rfl⟩ := List.mem_map.mp ha
      rw [List.map_singleton, List.mem_singleton, hm, Function.update_self, hid] at hb
      exact hb ▸ hnew slot' hmem

/-- **Pruning** takes a peer from the list and frees its slot. -/
theorem WellFormed.pruneSource {T : Table F} {peers : List (Fin MAX_NTP_PEERS)}
    (h : WellFormed T peers) (hm : Modes T) : TableOk T.pruneSource := by
  rcases Table.pruneSource_cases h.lists with h' | ⟨r, hr, hp, h'⟩
  · exact ⟨peers, by rwa [h']⟩
  · rw [h']
    obtain ⟨k, hk, hl, hmem, -⟩ := Table.deletePeer_cases h.lists hr
    cases k with
    | zero =>
        -- the GPS source is never pruned
        obtain rfl : Ref.gps = r := by simpa using hk
        rw [Source.isPruneable, Source.isReference, hm.gps] at hp
        cases hp
    | succ k =>
        obtain ⟨slot, hslot, rfl⟩ : ∃ slot, peers[k]? = some slot ∧ Ref.peer slot = r := by
          simpa using hk
        obtain ⟨hk, hget⟩ := List.getElem?_eq_some_iff.mp hslot
        have herase : peers.eraseIdx k = peers.erase slot := by
          rw [← hget, h.nodup.erase_getElem]
        have hne : ∀ slot' ∈ peers.erase slot, slot' ≠ slot := fun slot' hmem' =>
          (h.nodup.mem_erase_iff.mp hmem').1
        refine ⟨peers.erase slot, ⟨?_, h.nodup.erase slot, fun slot' => ?_, ?_⟩⟩
        · rwa [← herase, ← List.eraseIdx_map]
        · rw [h.nodup.mem_erase_iff, h.allocated, hmem]
          by_cases heq : slot' = slot
          · subst heq
            simp [Source.isAllocated, Source.destroy]
          · rw [Function.update_of_ne (by simpa using heq)]
            simp [heq]
        · rw [List.map_congr_left (g := fun slot' => (T.mem (.peer slot')).id) fun slot' hmem' => ?_]
          · exact h.ids.sublist (List.erase_sublist.map _)
          · rw [hmem, Function.update_of_ne]
            simpa using hne slot' hmem'

/-! ## Every run -/

variable [Single F]

/-- A step keeps the table well formed, unless it is a report of 0.0.0.0. -/
theorem TableOk.step {T T' : Table F} (h : TableOk T) (hm : Modes T) {a : TableAction F}
    (hz : ¬ ReportsZero T a) (hs : T.step a = some T') : TableOk T' := by
  obtain ⟨peers, h⟩ := h
  cases a with
  | report addr ipSubnet ipAddress =>
      obtain rfl := Option.some.inj hs
      rcases Table.ntpDnsCallback_cases h.lists addr ipSubnet ipAddress with
        h' | ⟨hlt, hown, huse, h'⟩
      · exact ⟨peers, by rwa [h']⟩
      · rw [h']
        have h0 : addr ≠ 0 := fun h0 =>
          hz ⟨h0, fun hown' => hown (h0.trans hown'.symm), by rwa [h.lists.count]⟩
        refine h.newPeer hlt h0 (fun slot hslot heq => ?_) ipSubnet ipAddress
        -- no listed peer has the address
        have hno := huse (.peer slot) (List.mem_cons_of_mem _ (List.mem_map_of_mem hslot))
        simp [Source.isRecipient, Source.isRemote, hm.peer slot, heq] at hno
  | update r smp stats now =>
      simp only [Table.step, Option.ite_none_right_eq_some, Option.some.injEq] at hs
      obtain ⟨-, rfl⟩ := hs
      refine ⟨peers, h.congr rfl rfl fun slot => ?_⟩
      by_cases hr : Ref.peer slot = r
      · subst hr
        rw [Table.modify_mem_self]
        rfl
      · rw [Table.modify_mem_of_ne T hr]
  | status r status =>
      simp only [Table.step, Option.ite_none_right_eq_some, Option.some.injEq] at hs
      obtain ⟨-, rfl⟩ := hs
      refine ⟨peers, h.congr rfl rfl fun slot => ?_⟩
      by_cases hr : Ref.peer slot = r
      · subst hr
        rw [Table.modify_mem_self]
      · rw [Table.modify_mem_of_ne T hr]
  | setTaiClock offset =>
      obtain rfl := Option.some.inj hs
      rw [Table.ntpSetTaiClock_eq h.lists]
      exact ⟨peers, h.congr rfl rfl fun slot => rfl⟩
  | select =>
      obtain rfl := Option.some.inj hs
      obtain ⟨peers', h'⟩ := h.pruneSource hm
      have hspec := Table.runSelect_spec h'.lists
      refine ⟨peers', h'.congr hspec.sources hspec.cntSources fun slot => ?_⟩
      obtain ⟨state, hmem⟩ := hspec.mem (.peer slot)
      rw [hmem]
      rfl

/-- A report of 0.0.0.0 breaks the table: the slot of the new peer is not allocated. -/
theorem not_tableOk_of_reportsZero {T T' : Table F} (h : TableOk T) (hm : Modes T)
    {a : TableAction F} (hz : ReportsZero T a) (hs : T.step a = some T') : ¬ TableOk T' := by
  obtain ⟨peers, h⟩ := h
  cases a with
  | report addr ipSubnet ipAddress =>
      obtain ⟨rfl, hown, hlt⟩ := hz
      obtain rfl := Option.some.inj hs
      -- the test for an address in use lets it pass
      have huse : ¬ (T.listed.any fun r => (T.mem r).isRecipient 0) = true := by
        rw [h.lists.listed]
        simp only [List.any_cons, List.any_map, Bool.or_eq_true, List.any_eq_true]
        rintro (hgps | ⟨slot, hslot, hpeer⟩)
        · rw [Source.isRecipient, Source.isRemote, hm.gps] at hgps
          cases hgps
        · have halloc := (h.allocated slot).mp hslot
          simp only [Function.comp_apply, Source.isRecipient, Bool.and_eq_true, beq_iff_eq] at hpeer
          simp [Source.isAllocated, hpeer.2] at halloc
      have hlen : (Ref.gps :: peers.map Ref.peer).length < MAX_NTP_SRCS := by rwa [← h.lists.count]
      rw [Table.ntpDnsCallback, if_neg (Nat.not_le.mpr hlt), if_neg (Ne.symm hown), if_neg huse]
      rintro ⟨peers', h'⟩
      rcases Table.newPeer_cases h.lists hlen 0 ipSubnet ipAddress with
        ⟨-, hall⟩ | ⟨slot, -, hl, hmem, -⟩
      · -- there is a free slot
        have hsub : (List.finRange MAX_NTP_PEERS).Subperm peers :=
          (List.nodup_finRange _).subperm fun slot _ => (h.allocated slot).mpr (hall slot)
        have hlen' := hsub.length_le
        rw [List.length_finRange] at hlen'
        rw [List.length_cons, List.length_map] at hlen
        exact absurd hlen (Nat.not_lt.mpr (Nat.succ_le_succ hlen'))
      · have hslot : slot ∈ peers' := by
          have hin : Ref.peer slot ∈ Ref.gps :: peers'.map Ref.peer := by
            rw [← h'.lists.listed, hl.listed]
            simp
          simpa using hin
        have halloc := (h'.allocated slot).mp hslot
        rw [hmem, Function.update_self, Source.isAllocated, (Peer.new_spec _ _ _).1.1] at halloc
        cases halloc
  | _ => cases hz

theorem modes_of_run {h : TableHistory F} {T : Table F} (hrun : Run Table.step Table.init h T) :
    Modes T := by
  refine (hrun.invariant (I := fun _ T => Modes T ∧ ∃ l, Lists T l)
    ⟨⟨rfl, fun slot => rfl⟩, Table.lists_of_run .start⟩ fun h T a T' ⟨hm, l, hl⟩ hs => ?_).1
  obtain ⟨l', hl', -⟩ := Table.step_sources hl hs
  exact ⟨hm.step hl hs, l', hl'⟩

/-- **The table stays well formed exactly as long as 0.0.0.0 is not reported.** -/
theorem tableOk_iff {h : TableHistory F} {T : Table F} (hrun : Run Table.step Table.init h T) :
    ((∀ p ∈ h, TableOk p.1) ∧ TableOk T) ↔ ∀ p ∈ h, ¬ ReportsZero p.1 p.2 := by
  induction hrun with
  | start =>
      obtain ⟨l, hl⟩ := Table.lists_of_run (F := F) .start
      have hlist : l = [.gps] := by rw [← hl.listed]; rfl
      refine ⟨fun _ => by simp, fun _ => ⟨by simp, [], hlist ▸ hl, .nil, fun slot => ?_, .nil⟩⟩
      simp [Table.init, Table.rawPeer, Source.isAllocated, Source.new]
  | @next h T a T' hrun hs ih =>
      have hm := modes_of_run hrun
      simp only [List.forall_mem_cons]
      constructor
      · rintro ⟨⟨hT, hh⟩, hT'⟩
        exact ⟨fun hz => not_tableOk_of_reportsZero hT hm hz hs hT', ih.mp ⟨hh, hT⟩⟩
      · rintro ⟨hz, hh⟩
        obtain ⟨hh, hT⟩ := ih.mpr hh
        exact ⟨⟨hT, hh⟩, hT.step hm hz hs⟩

instance (T : Table F) : (a : TableAction F) → Decidable (ReportsZero T a)
  | .report _ _ _ => inferInstanceAs (Decidable (_ ∧ _ ∧ _))
  | .update _ _ _ _ => isFalse id
  | .status _ _ => isFalse id
  | .setTaiClock _ => isFalse id
  | .select => isFalse id

/-- The own address is 10.0.0.1. Address 0.0.0.0 is reported, and then 1.2.3.4. -/
def zeroReported : List (TableAction Nano) :=
  [.report 0 0x00FFFFFF 0x0100000A, .report 0x04030201 0x00FFFFFF 0x0100000A]

/-- The second peer takes the slot of the first: two entries point to it. -/
theorem not_tableOk_zeroReported :
    ∃ h T, Run Table.step (Table.init : Table Nano) h T ∧ T.cntSources = 3 ∧
      T.sources 1 = some (.peer 0) ∧ T.sources 2 = some (.peer 0) ∧ ¬ TableOk T := by
  obtain ⟨h, T, hrun, hp⟩ := @exists_run_of_replay _ _ Table.step (Table.init : Table Nano)
    zeroReported (fun _ T => decide (T.cntSources = 3 ∧ T.sources 1 = some (.peer 0) ∧
      T.sources 2 = some (.peer 0))) (by decide +kernel)
  obtain ⟨hc, h1, h2⟩ := of_decide_eq_true hp
  refine ⟨h, T, hrun, hc, h1, h2, fun ⟨peers, hok⟩ => ?_⟩
  have g1 : some (Ref.peer 0) = (Ref.gps :: peers.map Ref.peer)[1]? := h1 ▸ hok.lists.sources 1
  have g2 : some (Ref.peer 0) = (Ref.gps :: peers.map Ref.peer)[2]? := h2 ▸ hok.lists.sources 2
  simp only [List.getElem?_cons_succ, List.getElem?_map] at g1 g2
  obtain ⟨slot, hs1, hr1⟩ := Option.map_eq_some_iff.mp g1.symm
  obtain ⟨slot', hs2, hr2⟩ := Option.map_eq_some_iff.mp g2.symm
  obtain rfl := Ref.peer.inj (hr1.trans hr2.symm)
  have hlt : 1 < peers.length := (List.getElem?_eq_some_iff.mp hs2).1
  have hinj := (List.getElem?_inj hlt hok.nodup).mp (hs2.trans hs1.symm)
  cases hinj

/-- Two peers, the first of which is pruned. -/
def peerPruned : List (TableAction Nano) :=
  [.report 0x04030201 0x00FFFFFF 0x0100000A, .report 0x05030201 0x00FFFFFF 0x0100000A,
    .report 0x04030201 0x00FFFFFF 0x0100000A,
    .status (.peer 0) { (Table.rawPeer : Source Nano).toStatus with prune := true }, .select]

theorem tableOk_iff_peerPruned :
    ∃ h T, Run Table.step (Table.init : Table Nano) h T ∧ T.cntSources = 2 ∧
      T.sources 1 = some (.peer 1) ∧ TableOk T := by
  obtain ⟨h, T, hrun, hp⟩ := @exists_run_of_replay _ _ Table.step (Table.init : Table Nano)
    peerPruned (fun h T => decide (T.cntSources = 2 ∧ T.sources 1 = some (.peer 1) ∧
      ∀ p ∈ h, ¬ ReportsZero p.1 p.2)) (by decide +kernel)
  obtain ⟨hc, h1, hz⟩ := of_decide_eq_true hp
  exact ⟨h, T, hrun, hc, h1, ((tableOk_iff hrun).mpr hz).2⟩

end Gpsdo.Ntp
