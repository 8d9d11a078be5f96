import Gpsdo.Net.TxRing

set_option autoImplicit false

/-! # What the transmitter does

Every step keeps the layout of the ring; the laws of the transmitter are read off the layout.
-/

namespace Gpsdo.Net

variable {h : TxHistory} {s s' : Tx} {L : Layout}

/-! ## The DMA -/

theorem complete_spec {status : BitVec 18} {time : BitVec 32 × BitVec 32}
    (hs : s.complete status time = some s') :
    (s.txDesc s.dma).OWN = true ∧ s'.txHead = s.txHead ∧ s'.txTail = s.txTail ∧
      s'.marking = s.marking ∧ s'.dma = s.dma + 1 ∧ (∀ i, i ≠ s.dma → SameSlot s s' i) ∧
      ∀ seg, Holds s s.dma (.segment true seg) → Holds s' s.dma (.segment false seg) := by
  unfold Tx.complete at hs
  split at hs
  · rename_i hown
    obtain rfl := Option.some.inj hs
    refine ⟨hown, rfl, rfl, rfl, rfl, fun i hi => ⟨Function.update_of_ne hi _ _, rfl, rfl⟩,
      fun seg ⟨_, hfs, hls, hsize, hbytes, hcall⟩ => ?_⟩
    -- the write-back touches the OWN flag and the low bits only
    refine ⟨?_, ?_, ?_, ?_, hbytes, hcall⟩
    · simp [Tx.setDesc, TxDesc.OWN, TDES0_OWN]
    · simpa [Tx.setDesc, TxDesc.FS, TDES0_FS, TDES0_OWN] using hfs
    · simpa [Tx.setDesc, TxDesc.LS, TDES0_LS, TDES0_OWN] using hls
    · simpa [Tx.setDesc] using hsize
  · cases hs

/-- The DMA owns its descriptor only when a segment is pending. -/
theorem TxInv.pending_of_own (hi : TxInv h s L) (hown : (s.txDesc s.dma).OWN = true) :
    ∃ seg pending, L.pending = seg :: pending := by
  have hspan := hi.span
  unfold Layout.cells at hspan
  have hat := (span_append.mp hspan).2
  rw [List.length_map, ← hi.dma] at hat
  cases hp : L.pending with
  | cons seg pending => exact ⟨seg, pending, rfl⟩
  | nil =>
      rw [hp] at hat
      cases hu : L.unmarked with
      | cons seg unmarked =>
          rw [hu] at hat
          rw [hat.1.1] at hown
          cases hown
      | nil =>
          -- `transmit` is not in its last loop, so the slot is free
          have hidle : s.marking = none := by
            cases hm : s.marking with
            | none => rfl
            | some m => exact absurd hu (hi.marking m.1 m.2 hm).1
          obtain ⟨n, hn⟩ : ∃ n, L.free = n + 1 := ⟨L.free - 1, by have := hi.free; omega⟩
          rw [hu, (hi.idle hidle).2, hn, List.replicate_succ] at hat
          have hfree : (s.txDesc s.dma).OWN = false := hat.1
          rw [hfree] at hown
          cases hown

theorem TxInv.complete (hi : TxInv h s L) {status : BitVec 18} {time : BitVec 32 × BitVec 32}
    (hs : s.complete status time = some s') :
    ∃ L', TxInv ((s, .complete status time) :: h) s' L' := by
  obtain ⟨hown, hhead, htail, hmarking, hdma, hsame, hwrite⟩ := complete_spec hs
  obtain ⟨seg, pending, hp⟩ := hi.pending_of_own hown
  have hspan := hi.span
  have hsize := hi.size
  rw [L.length_cells, hp, List.length_cons] at hsize
  unfold Layout.cells at hspan
  rw [hp, List.map_cons, List.cons_append] at hspan
  have hat : Holds s s.dma (.segment true seg) := by
    have := hspan.mid
    rwa [List.length_map, ← hi.dma] at this
  have hslot : s.dma = slot s.txTail (L.done.map (Cell.segment false)).length := by
    rw [hi.dma, List.length_map]
  have hnew : Span (Holds s') s.txTail (L.done.map (Cell.segment false) ++
      Cell.segment false seg :: (pending.map (Cell.segment true) ++
        (L.unmarked.map (Cell.segment false) ++ (L.marked.map (Cell.segment true) ++
          List.replicate L.free Cell.free)))) := by
    refine hspan.replace ?_ (hslot ▸ hwrite seg hat) fun q b hq hb => hb.congr (hsame q ?_)
    · simp only [List.length_map, List.length_append, List.length_replicate]
      omega
    · rwa [hslot]
  refine ⟨{ L with done := L.done ++ [seg], pending := pending }, ?_⟩
  exact
    { accepted := (outputs_cons_of_nil rfl h).trans hi.accepted
      segments := by simpa [hp] using hi.segments
      span := by
        rw [htail]
        simpa [Layout.cells] using hnew
      size := by
        rw [Layout.length_cells]
        simp only [List.length_append, List.length_singleton]
        omega
      free := hi.free
      head := by rw [hhead, htail, hi.head]
      dma := by rw [hdma, htail, hi.dma, slot_add_one, List.length_append, List.length_singleton]
      sent := by
        have hsend : Tx.sends s (.complete status time) = [seg.wire] := by
          simp [Tx.sends, hat.send]
        rw [outputs_cons, hi.sent, hsend]
        simp
      count := (reclaimed_cons_of_false rfl h).trans hi.count
      callbacks := (outputs_cons_of_nil rfl h).trans hi.callbacks
      idle := fun hm => hi.idle (hmarking ▸ hm)
      marking := fun ptr head hm => by
        obtain ⟨h1, h2, h3⟩ := hi.marking ptr head (hmarking ▸ hm)
        rw [hp, List.length_cons] at h2 h3
        have hlen : (L.done ++ [seg]).length = L.done.length + 1 := by simp
        refine ⟨h1, ?_, ?_⟩
        · rw [h2, htail]
          show _ = slot s.txTail ((L.done ++ [seg]).length + pending.length)
          rw [hlen]
          congr 1
          omega
        · rw [h3, htail]
          show _ = slot s.txTail ((L.done ++ [seg]).length + pending.length + L.unmarked.length)
          rw [hlen]
          congr 1
          omega }

/-! ## Marking -/

theorem mark_spec (hs : s.mark = some s') :
    ∃ ptr head, s.marking = some (ptr, head) ∧ s'.txHead = s.txHead ∧ s'.txTail = s.txTail ∧
      s'.marking = (if ptr - 1 = head then none else some (ptr - 1, head)) ∧ s'.dma = s.dma ∧
      (∀ i, i ≠ ptr - 1 → SameSlot s s' i) ∧
      ∀ seg, Holds s (ptr - 1) (.segment false seg) → Holds s' (ptr - 1) (.segment true seg) := by
  unfold Tx.mark at hs
  split at hs
  · cases hs
  · rename_i ptr head hm
    obtain rfl := Option.some.inj hs
    refine ⟨ptr, head, hm, rfl, rfl, rfl, rfl,
      fun i hi => ⟨Function.update_of_ne hi _ _, rfl, rfl⟩,
      fun seg ⟨_, hfs, hls, hsize, hbytes, hcall⟩ => ⟨?_, ?_, ?_, ?_, hbytes, hcall⟩⟩
    · simp [Tx.setFlags, Tx.setDesc, TxDesc.OWN, TDES0_OWN]
    · simpa [Tx.setFlags, Tx.setDesc, TxDesc.FS, TDES0_FS, TDES0_OWN] using hfs
    · simpa [Tx.setFlags, Tx.setDesc, TxDesc.LS, TDES0_LS, TDES0_OWN] using hls
    · simpa [Tx.setFlags, Tx.setDesc] using hsize

theorem TxInv.mark (hi : TxInv h s L) (hs : s.mark = some s') :
    ∃ L', TxInv ((s, .mark) :: h) s' L' := by
  obtain ⟨ptr, head, hm, hhead, htail, hmarking, hdma, hsame, hwrite⟩ := mark_spec hs
  obtain ⟨hne, hheadPos, hptr⟩ := hi.marking ptr head hm
  obtain ⟨us, seg, hu⟩ : ∃ us seg, L.unmarked = us ++ [seg] :=
    ⟨_, _, (List.dropLast_append_getLast hne).symm⟩
  have hsize := hi.size
  rw [L.length_cells, hu, List.length_append, List.length_singleton] at hsize
  -- the slot that is marked is the one of the last segment that is not
  have hpos : ptr - 1 = slot s.txTail (L.done.length + L.pending.length + us.length) := by
    rw [hptr, hu, List.length_append, List.length_singleton, ← Nat.add_assoc, ← slot_add_one,
      add_sub_cancel_right]
  have hspan : Span (Holds s) s.txTail (L.done.map (Cell.segment false) ++
      (L.pending.map (Cell.segment true) ++ us.map (Cell.segment false)) ++
        Cell.segment false seg ::
          (L.marked.map (Cell.segment true) ++ List.replicate L.free Cell.free)) := by
    simpa [Layout.cells, hu] using hi.span
  have hslot : ptr - 1 = slot s.txTail (L.done.map (Cell.segment false) ++
      (L.pending.map (Cell.segment true) ++ us.map (Cell.segment false))).length := by
    rw [hpos]
    congr 1
    simp [Nat.add_assoc]
  have hnew : Span (Holds s') s.txTail (L.done.map (Cell.segment false) ++
      (L.pending.map (Cell.segment true) ++ us.map (Cell.segment false)) ++
        Cell.segment true seg ::
          (L.marked.map (Cell.segment true) ++ List.replicate L.free Cell.free)) := by
    refine hspan.replace ?_ (hslot ▸ hwrite seg (hslot ▸ hspan.mid))
      fun q b hq hb => hb.congr (hsame q ?_)
    · simp only [List.length_map, List.length_append, List.length_replicate]
      omega
    · rwa [hslot]
  have hseg := hi.segments
  rw [hu] at hseg
  have hlen := congrArg List.length hseg
  by_cases hus : us = []
  · -- the first segment is marked: the DMA owns the frame
    subst hus
    have hdone : ptr - 1 = head := by rw [hpos, hheadPos, List.length_nil, Nat.add_zero]
    rw [if_pos hdone] at hmarking
    refine ⟨{ L with pending := L.pending ++ seg :: L.marked, unmarked := [], marked := [] }, ?_⟩
    exact
      { accepted := (outputs_cons_of_nil rfl h).trans hi.accepted
        segments := by simpa using hseg
        span := by
          rw [htail]
          simpa [Layout.cells] using hnew
        size := by
          rw [Layout.length_cells]
          simp only [List.length_append, List.length_cons, List.length_nil] at hsize ⊢
          omega
        free := hi.free
        head := by rw [hhead, htail, hi.head]
        dma := by rw [hdma, htail, hi.dma]
        sent := (outputs_cons_of_nil rfl h).trans hi.sent
        count := (reclaimed_cons_of_false rfl h).trans hi.count
        callbacks := (outputs_cons_of_nil rfl h).trans hi.callbacks
        idle := fun _ => ⟨rfl, rfl⟩
        marking := fun ptr head h => by rw [hmarking] at h; cases h }
  · have hmore : ptr - 1 ≠ head := by
      intro heq
      rw [hpos, hheadPos] at heq
      have := List.length_pos_iff.mpr hus
      have := slot_inj (by omega) (by omega) heq
      omega
    rw [if_neg hmore] at hmarking
    refine ⟨{ L with unmarked := us, marked := seg :: L.marked }, ?_⟩
    exact
      { accepted := (outputs_cons_of_nil rfl h).trans hi.accepted
        segments := by simpa using hseg
        span := by
          rw [htail]
          simpa [Layout.cells] using hnew
        size := by
          rw [Layout.length_cells]
          simp only [List.length_cons]
          omega
        free := hi.free
        head := by rw [hhead, htail, hi.head]
        dma := by rw [hdma, htail, hi.dma]
        sent := (outputs_cons_of_nil rfl h).trans hi.sent
        count := (reclaimed_cons_of_false rfl h).trans hi.count
        callbacks := (outputs_cons_of_nil rfl h).trans hi.callbacks
        idle := fun h => by rw [hmarking] at h; cases h
        marking := fun ptr' head' h => by
          rw [hmarking] at h
          obtain ⟨rfl, rfl⟩ := Prod.mk.inj (Option.some.inj h)
          exact ⟨hus, by rw [htail, hheadPos], by rw [htail, hpos]⟩ }

/-! ## Submitting -/

theorem SameSlot.trans {s₁ s₂ s₃ : Tx} {i : Fin TX_RING_SIZE} (h : SameSlot s₁ s₂ i)
    (h' : SameSlot s₂ s₃ i) : SameSlot s₁ s₃ i :=
  ⟨h'.1.trans h.1, h'.2.1.trans h.2.1, h'.2.2.trans h.2.2⟩

/-- Only descriptors and buffers differ. -/
def RingOnly (s s' : Tx) : Prop := s' = { s with txDesc := s'.txDesc, txBuffer := s'.txBuffer }

theorem RingOnly.trans {s₁ s₂ s₃ : Tx} (h : RingOnly s₁ s₂) (h' : RingOnly s₂ s₃) :
    RingOnly s₁ s₃ := by
  unfold RingOnly at *
  rw [h', h]

/-- A slot with a piece of a frame, without flags. -/
def Copied (s : Tx) (i : Fin TX_RING_SIZE) (b : List Byte) : Prop :=
  (s.txDesc i).OWN = false ∧ (s.txDesc i).FS = false ∧ (s.txDesc i).LS = false ∧
    (s.txDesc i).TBS1 = b.length ∧ (s.txBuffer i).take b.length = b

theorem copySegment_spec (s : Tx) (ptr : Fin TX_RING_SIZE) (frame : List Byte) :
    Copied (s.copySegment ptr frame) ptr (frame.take SEGMENT_SIZE) ∧
      (∀ i, i ≠ ptr → SameSlot s (s.copySegment ptr frame) i) ∧
      RingOnly s (s.copySegment ptr frame) := by
  refine ⟨⟨?_, ?_, ?_, ?_, ?_⟩,
    fun i hi => ⟨Function.update_of_ne hi _ _, Function.update_of_ne hi _ _, rfl⟩, rfl⟩
  · simp [Tx.copySegment, Tx.setDesc, TxDesc.OWN, TDES0_OWN, MASK_CLEAR]
  · simp [Tx.copySegment, Tx.setDesc, TxDesc.FS, TDES0_FS, MASK_CLEAR]
  · simp [Tx.copySegment, Tx.setDesc, TxDesc.LS, TDES0_LS, MASK_CLEAR]
  · simp [Tx.copySegment, Tx.setDesc, Nat.min_comm]
  · have hmin : frame.take (min frame.length SEGMENT_SIZE) = frame.take SEGMENT_SIZE := by
      rw [Nat.min_comm, ← List.take_take, List.take_length]
    simp [Tx.copySegment, Tx.setDesc, Tx.setBuffer, hmin]

/-- **The loop of `transmit`** copies the pieces of the frame into the slots from `ptr` on. -/
theorem copyFrame_spec (n : ℕ) (s : Tx) (ptr : Fin TX_RING_SIZE) (frame : List Byte)
    (hlen : (chunks n frame).length ≤ TX_RING_SIZE) :
    (Tx.copyFrame n s ptr frame).2 = slot ptr ((chunks n frame).length - 1) ∧
      Span (Copied (Tx.copyFrame n s ptr frame).1) ptr (chunks n frame) ∧
      (∀ i, (∀ k < (chunks n frame).length, i ≠ slot ptr k) →
        SameSlot s (Tx.copyFrame n s ptr frame).1 i) ∧
      RingOnly s (Tx.copyFrame n s ptr frame).1 := by
  induction n generalizing s ptr frame with
  | zero =>
      obtain ⟨hcopied, hsame, honly⟩ := copySegment_spec s ptr frame
      exact ⟨(slot_zero ptr).symm, ⟨hcopied, trivial⟩,
        fun i hi => hsame i (by simpa using hi 0 (by simp [chunks])), honly⟩
  | succ n ih =>
      obtain ⟨hcopied, hsame, honly⟩ := copySegment_spec s ptr frame
      by_cases hrest : frame.drop SEGMENT_SIZE = []
      · simp only [Tx.copyFrame, chunks, hrest, if_true] at hlen ⊢
        exact ⟨(slot_zero ptr).symm, ⟨hcopied, trivial⟩,
          fun i hi => hsame i (by simpa using hi 0 (by simp)), honly⟩
      · simp only [Tx.copyFrame, chunks, hrest, if_false] at hlen ⊢
        rw [List.length_cons] at hlen ⊢
        obtain ⟨hlast, hspan, hsame', honly'⟩ :=
          ih (s.copySegment ptr frame) (ptr + 1) (frame.drop SEGMENT_SIZE) (by omega)
        have hpos := List.length_pos_iff.mpr (chunks_ne_nil n (frame.drop SEGMENT_SIZE))
        refine ⟨?_, ⟨?_, hspan⟩, fun i hi => ?_, honly.trans honly'⟩
        · rw [hlast, slot_succ]
          congr 1
          omega
        · -- the later turns do not come to this slot
          have hptr := hsame' ptr fun k hk heq => by
            rw [slot_succ] at heq
            have := slot_inj (p := ptr) (j := 0) (k := k + 1) (by decide) (by omega)
              (by simpa using heq)
            omega
          obtain ⟨h1, h2, -⟩ := hptr
          simpa only [Copied, h1, h2] using hcopied
        · have h0 : i ≠ ptr := by simpa using hi 0 (by omega)
          refine (hsame i h0).trans (hsame' i fun k hk => ?_)
          rw [slot_succ]
          exact hi (k + 1) (by omega)

theorem setFlags_first (s : Tx) (i j : Fin TX_RING_SIZE) :
    ((s.setFlags i FLAGS_FIRST).txDesc j).OWN = (s.txDesc j).OWN ∧
      ((s.setFlags i FLAGS_FIRST).txDesc j).FS = (decide (j = i) || (s.txDesc j).FS) ∧
      ((s.setFlags i FLAGS_FIRST).txDesc j).LS = (s.txDesc j).LS ∧
      ((s.setFlags i FLAGS_FIRST).txDesc j).TBS1 = (s.txDesc j).TBS1 := by
  by_cases hj : j = i
  · subst hj
    simp [Tx.setFlags, Tx.setDesc, TxDesc.OWN, TxDesc.FS, TxDesc.LS, TDES0_OWN, TDES0_FS,
      TDES0_LS, FLAGS_FIRST]
  · simp [Tx.setFlags, Tx.setDesc, hj]

theorem setFlags_last (s : Tx) (i j : Fin TX_RING_SIZE) :
    ((s.setFlags i FLAGS_LAST).txDesc j).OWN = (s.txDesc j).OWN ∧
      ((s.setFlags i FLAGS_LAST).txDesc j).FS = (s.txDesc j).FS ∧
      ((s.setFlags i FLAGS_LAST).txDesc j).LS = (decide (j = i) || (s.txDesc j).LS) ∧
      ((s.setFlags i FLAGS_LAST).txDesc j).TBS1 = (s.txDesc j).TBS1 := by
  by_cases hj : j = i
  · subst hj
    simp [Tx.setFlags, Tx.setDesc, TxDesc.OWN, TxDesc.FS, TxDesc.LS, TDES0_OWN, TDES0_FS,
      TDES0_LS, FLAGS_LAST]
  · simp [Tx.setFlags, Tx.setDesc, hj]

/-- The effect of the part of `transmit` up to its last loop. -/
theorem submit_spec (s : Tx) (sub : Submission) (hlen : sub.segments.length < TX_RING_SIZE) :
    let s' := s.submit sub.bytes sub.callback sub.ref
    s'.txTail = s.txTail ∧ s'.dma = s.dma ∧ s'.txHead = slot s.txHead sub.segments.length ∧
      s'.marking = some (slot s.txHead sub.segments.length, s.txHead) ∧
      Span (Holds s') s.txHead (sub.segments.map (Cell.segment false)) ∧
      ∀ i, (∀ k < sub.segments.length, i ≠ slot s.txHead k) → SameSlot s s' i := by
  intro s'
  have hcount : sub.segments.length = (chunks sub.bytes.length sub.bytes).length :=
    length_flagged _ _ _
  have hne := List.length_pos_iff.mpr (chunks_ne_nil sub.bytes.length sub.bytes)
  rw [← hcount] at hne
  obtain ⟨hptr, hspan, hsame, honly⟩ :=
    copyFrame_spec sub.bytes.length s s.txHead sub.bytes (by omega)
  rw [← hcount] at hptr hsame
  have hs' : s' = s.submit sub.bytes sub.callback sub.ref := rfl
  unfold Tx.submit at hs'
  dsimp only at hs'
  rw [hptr, slot_add_one, Nat.sub_add_cancel hne] at hs'
  generalize (Tx.copyFrame sub.bytes.length s s.txHead sub.bytes).1 = s₁ at *
  generalize hlast : slot s.txHead (sub.segments.length - 1) = last at *
  have hfresh : slot s.txHead sub.segments.length ≠ s.txHead := by
    intro heq
    have := slot_inj (p := s.txHead) (k := 0) hlen (by decide) (by simpa using heq)
    omega
  rw [if_neg hfresh] at hs'
  have hdesc : ∀ i, s'.txDesc i =
      ((s₁.setFlags s.txHead FLAGS_FIRST).setFlags last FLAGS_LAST).txDesc i := by
    simp [hs', Tx.setCallback]
  have hbuffer : s'.txBuffer = s₁.txBuffer := by simp [hs', Tx.setCallback, Tx.setFlags, Tx.setDesc]
  have hcallback : s'.txCallback = Function.update s.txCallback last ⟨sub.callback, sub.ref⟩ := by
    rw [hs', honly]
    rfl
  refine ⟨by rw [hs', honly]; rfl, by rw [hs', honly]; rfl, by rw [hs'], by rw [hs'], ?_,
    fun i hi => ?_⟩
  · rw [span_iff]
    intro k c hc
    rw [List.getElem?_map, Option.map_eq_some_iff] at hc
    obtain ⟨seg, hseg, rfl⟩ := hc
    have hk := (List.getElem?_eq_some_iff.mp hseg).1
    rw [Submission.segments, getElem?_flagged, Option.map_eq_some_iff] at hseg
    obtain ⟨b, hb, rfl⟩ := hseg
    obtain ⟨hown, hfs, hls, hsize, hbytes⟩ := span_iff.mp hspan k b hb
    obtain ⟨o1, f1, l1, t1⟩ := setFlags_first s₁ s.txHead (slot s.txHead k)
    obtain ⟨o2, f2, l2, t2⟩ :=
      setFlags_last (s₁.setFlags s.txHead FLAGS_FIRST) last (slot s.txHead k)
    have hfirst : slot s.txHead k = s.txHead ↔ k = 0 := by
      constructor
      · intro heq
        exact slot_inj (p := s.txHead) (by omega) (by decide) (by simpa using heq)
      · rintro rfl
        exact slot_zero _
    have hfinal : slot s.txHead k = last ↔ k + 1 = sub.segments.length := by
      rw [← hlast]
      constructor
      · intro heq
        have := slot_inj (by omega) (by omega) heq
        omega
      · intro heq
        congr 1
        omega
    refine ⟨?_, ?_, ?_, ?_, ?_, fun hl => ?_⟩
    · rw [hdesc, o2, o1, hown]
    · rw [hdesc, f2, f1, hfs]
      simp [hfirst]
    · rw [hdesc, l2, l1, hls, ← hcount]
      simp [hfinal]
    · rw [hdesc, t2, t1, hsize]
    · rw [hbuffer, hbytes]
    · rw [hcallback, hfinal.mpr (by simpa [hcount] using hl)]
      exact Function.update_self _ _ _
  · obtain ⟨h1, h2, h3⟩ := hsame i hi
    have hhead : i ≠ s.txHead := by simpa using hi 0 (by omega)
    have hlast' : i ≠ last := hlast ▸ hi _ (by omega)
    refine ⟨?_, by rw [hbuffer, h2], by rw [hcallback, Function.update_of_ne hlast']⟩
    rw [hdesc, ← h1]
    simp [Tx.setFlags, Tx.setDesc, hhead, hlast']

/-- The test for an overflow compares with the number of free slots. -/
theorem transmit_eq (s : Tx) (sub : Submission) (hpos : sub.bytes ≠ []) :
    s.transmit sub.bytes sub.callback sub.ref =
      if MTU < sub.bytes.length then (s, false)
      else if (s.txTail - s.txHead - 1).val < sub.segments.length then
        ({ s with overflowTx := s.overflowTx + 1 }, false)
      else (s.submit sub.bytes sub.callback sub.ref, true) := by
  have hlen : sub.segments.length = (chunks sub.bytes.length sub.bytes).length :=
    length_flagged _ _ _
  rw [hlen, chunks_length hpos (by unfold SEGMENT_SIZE; omega)]
  rfl

theorem TxInv.free_slots (hi : TxInv h s L) :
    (s.txTail - s.txHead - 1).val = L.free - 1 := by
  have hlen := hi.length_segments
  have hfree := hi.free
  have htail : s.txTail = slot s.txHead L.free := by
    rw [hi.head, slot_slot, hlen, slot_self]
  obtain ⟨n, hn⟩ : ∃ n, L.free = n + 1 := ⟨L.free - 1, by omega⟩
  rw [htail, hn, ← slot_add_one, add_sub_right_comm, add_sub_cancel_right,
    slot_sub _ (by omega), Nat.add_sub_cancel]

theorem TxInv.reject (hi : TxInv h s L) {frame : List Byte} {callback : Option Addr} {ref : Addr}
    (hs : (s.transmit frame callback ref).2 = false) (k : BitVec 32) :
    TxInv ((s, .transmit frame callback ref) :: h) { s with overflowTx := k } L :=
  { hi with
    accepted := by
      have hnone : Tx.accepts s (.transmit frame callback ref) = [] := if_neg (Bool.eq_false_iff.mp hs)
      exact (outputs_cons_of_nil hnone h).trans hi.accepted
    span := hi.span
    sent := (outputs_cons_of_nil rfl h).trans hi.sent
    count := (reclaimed_cons_of_false rfl h).trans hi.count
    callbacks := (outputs_cons_of_nil rfl h).trans hi.callbacks }

theorem TxInv.submit (hi : TxInv h s L) (hm : s.marking = none) (sub : Submission)
    (hs : s.transmit sub.bytes sub.callback sub.ref =
      (s.submit sub.bytes sub.callback sub.ref, true))
    (hfree : sub.segments.length ≤ L.free - 1) :
    ∃ L', TxInv ((s, .transmit sub.bytes sub.callback sub.ref) :: h)
      (s.submit sub.bytes sub.callback sub.ref) L' := by
  obtain ⟨hu, hmk⟩ := hi.idle hm
  have hlen := hi.length_segments
  have hfree0 := hi.free
  have hcount : (L.waiting.flatMap Submission.segments).length =
      L.done.length + L.pending.length := by rw [hi.segments, hu, hmk]; simp
  obtain ⟨htail, hdma, hhead, hmarking, hnew, hsame⟩ := submit_spec s sub (by omega)
  generalize s.submit sub.bytes sub.callback sub.ref = s' at *
  have hheadPos : s.txHead = slot s.txTail (L.done.length + L.pending.length) := by
    rw [hi.head, hcount]
  have hpieces : 0 < sub.segments.length := by
    rw [Submission.segments, length_flagged]
    exact List.length_pos_iff.mpr (chunks_ne_nil _ _)
  -- the slots of the older segments and those that stay free are not touched
  have hkeep : ∀ j, j < L.done.length + L.pending.length ∨
      L.done.length + L.pending.length + sub.segments.length ≤ j ∧ j < TX_RING_SIZE →
      SameSlot s s' (slot s.txTail j) := by
    intro j hj
    refine hsame _ fun k hk heq => ?_
    rw [hheadPos, slot_slot] at heq
    have := slot_inj (by omega) (by omega) heq
    omega
  refine ⟨{ L with
    waiting := L.waiting ++ [sub], unmarked := sub.segments,
    free := L.free - sub.segments.length }, ?_⟩
  exact
    { accepted := by
        have haccept : Tx.accepts s (.transmit sub.bytes sub.callback sub.ref) = [sub] := by
          simp [Tx.accepts, hs]
        rw [Net.accepted, outputs_cons, haccept, ← Net.accepted, hi.accepted, List.append_assoc]
      segments := by
        have hseg := hi.segments
        rw [hu, hmk] at hseg
        simp [hseg, hmk]
      span := by
        have hspan : Span (Holds s) s.txTail
            ((L.done.map (Cell.segment false) ++ L.pending.map (Cell.segment true)) ++
              (List.replicate sub.segments.length Cell.free ++
                List.replicate (L.free - sub.segments.length) Cell.free)) := by
          rw [← List.replicate_add, Nat.add_sub_cancel' (by omega)]
          simpa [Layout.cells, hu, hmk] using hi.span
        obtain ⟨hold, hrest⟩ := span_append.mp hspan
        obtain ⟨-, hrest⟩ := span_append.mp hrest
        have hnew' : Span (Holds s') s.txTail
            ((L.done.map (Cell.segment false) ++ L.pending.map (Cell.segment true)) ++
              (sub.segments.map (Cell.segment false) ++
                List.replicate (L.free - sub.segments.length) Cell.free)) := by
          refine span_append.mpr ⟨hold.imp fun k c hc hP => hP.congr (hkeep k (Or.inl ?_)),
            span_append.mpr ⟨?_, ?_⟩⟩
          · have := (List.getElem?_eq_some_iff.mp hc).1
            simpa using this
          · have hat : slot s.txTail (L.done.map (Cell.segment false) ++
                L.pending.map (Cell.segment true)).length = s.txHead := by
              simp [hheadPos]
            rw [hat]
            exact hnew
          · simp only [List.length_append, List.length_map, List.length_replicate] at hrest ⊢
            refine hrest.imp fun k c hc hP => ?_
            have hk := (List.getElem?_eq_some_iff.mp hc).1
            rw [List.length_replicate] at hk
            rw [slot_slot, slot_slot] at hP ⊢
            exact hP.congr (hkeep _ (Or.inr ⟨by omega, by omega⟩))
        rw [htail]
        simpa [Layout.cells, hmk] using hnew'
      size := by
        have hsize := hi.size
        rw [L.length_cells, hu, hmk] at hsize
        rw [Layout.length_cells]
        simp only [hmk, List.length_nil] at hsize ⊢
        omega
      free := by
        show 0 < L.free - sub.segments.length
        omega
      head := by
        rw [hhead, htail, hi.head, slot_slot]
        simp
      dma := by rw [hdma, htail, hi.dma]
      sent := (outputs_cons_of_nil rfl h).trans hi.sent
      count := (reclaimed_cons_of_false rfl h).trans hi.count
      callbacks := (outputs_cons_of_nil rfl h).trans hi.callbacks
      idle := fun h => by rw [hmarking] at h; cases h
      marking := fun ptr head h => by
        rw [hmarking] at h
        obtain ⟨rfl, rfl⟩ := Prod.mk.inj (Option.some.inj h)
        refine ⟨List.length_pos_iff.mp hpieces, by rw [htail, hheadPos], ?_⟩
        rw [htail, hheadPos, slot_slot] }

theorem TxInv.transmit (hi : TxInv h s L) (hm : s.marking = none) {frame : List Byte}
    (hpos : frame ≠ []) (callback : Option Addr) (ref : Addr) :
    ∃ L', TxInv ((s, .transmit frame callback ref) :: h)
      (s.transmit frame callback ref).1 L' := by
  have heq := transmit_eq s ⟨frame, callback, ref⟩ hpos
  rw [hi.free_slots] at heq
  dsimp only at heq
  split_ifs at heq with hmtu hfull
  · rw [heq]
    exact ⟨L, hi.reject (by rw [heq]) s.overflowTx⟩
  · rw [heq]
    exact ⟨L, hi.reject (by rw [heq]) (s.overflowTx + 1)⟩
  · rw [heq]
    exact hi.submit hm ⟨frame, callback, ref⟩ heq (not_lt.mp hfull)

/-! ## Reclaiming -/

theorem processFrameTx_none {s : Tx} (hs : s.scan TX_RING_SIZE s.txTail 0 = none) :
    s.processFrameTx = (s, false, none) := by
  unfold Tx.processFrameTx
  rw [hs]

theorem processFrameTx_some {s : Tx} {last : Fin TX_RING_SIZE} {size : ℕ}
    (hs : s.scan TX_RING_SIZE s.txTail 0 = some (last, size)) :
    let r := s.processFrameTx
    r.1.txHead = s.txHead ∧ r.1.txTail = last + 1 ∧ r.1.marking = s.marking ∧ r.1.dma = s.dma ∧
      (∀ i, (r.1.txDesc i).OWN = (s.txDesc i).OWN) ∧ (∀ i, i ≠ last → SameSlot s r.1 i) ∧
      r.2.1 = true ∧ r.2.2 = (s.txCallback last).call.map fun call =>
        ⟨call, (s.txCallback last).ref, s.assemble (last + 1) TX_RING_SIZE s.txTail, size⟩ := by
  unfold Tx.processFrameTx
  rw [hs]
  dsimp only
  split
  · rename_i hcall
    rw [hcall]
    exact ⟨rfl, rfl, rfl, rfl, fun _ => rfl, fun _ _ => ⟨rfl, rfl, rfl⟩, rfl, rfl⟩
  · rename_i call hcall
    rw [hcall, assemble_setCallback]
    refine ⟨rfl, rfl, rfl, rfl, fun _ => rfl,
      fun i hi => ⟨rfl, rfl, Function.update_of_ne hi _ _⟩, rfl, ?_⟩
    simp [Tx.setCallback]

/-- The oldest frame that waits is out, or the DMA owns a segment of it. -/
theorem TxInv.oldest (hi : TxInv h s L) (hm : s.marking = none) {f : Submission}
    {ws : List Submission} (hw : L.waiting = f :: ws) :
    (∃ done, L.done = f.segments ++ done ∧
        ws.flatMap Submission.segments = done ++ L.pending) ∨
      ∃ seg rest pending, f.segments = L.done ++ seg :: rest ∧ L.pending = seg :: pending := by
  obtain ⟨hu, hmk⟩ := hi.idle hm
  have hseg := hi.segments
  rw [hw, hu, hmk, List.append_nil, List.append_nil, List.flatMap_cons] at hseg
  rcases List.append_eq_append_iff.mp hseg with ⟨done, hdone, hrest⟩ | ⟨c, hf, hpending⟩
  · exact Or.inl ⟨done, hdone, hrest⟩
  · cases c with
    | nil =>
        rw [List.append_nil] at hf
        exact Or.inl ⟨[], by simp [hf], by simpa using hpending.symm⟩
    | cons seg rest => exact Or.inr ⟨seg, rest, _, hf, hpending⟩

/-- **When a frame is reclaimed**: when the oldest that waits is out. -/
theorem TxInv.scan_eq (hi : TxInv h s L) (hm : s.marking = none) :
    (∃ f ws done, L.waiting = f :: ws ∧ L.done = f.segments ++ done ∧
        ws.flatMap Submission.segments = done ++ L.pending ∧
        s.scan TX_RING_SIZE s.txTail 0 =
          some (slot s.txTail (f.segments.length - 1), f.bytes.length)) ∨
      s.scan TX_RING_SIZE s.txTail 0 = none ∧ ∀ f ws, L.waiting = f :: ws →
        ¬ f.segments <+: L.done := by
  cases hw : L.waiting with
  | nil =>
      refine Or.inr ⟨?_, fun f ws h => by cases h⟩
      have hempty : s.txTail = s.txHead := by simpa [hw] using hi.head.symm
      show Tx.scan s (127 + 1) s.txTail 0 = none
      rw [Tx.scan, hempty]
      simp
  | cons f ws =>
      have hspan := hi.span
      have hlen := hi.length_segments
      have hfree := hi.free
      rcases hi.oldest hm hw with ⟨done, hdone, hrest⟩ | ⟨seg, rest, pending, hf, hp⟩
      · refine Or.inl ⟨f, ws, done, rfl, hdone, hrest, ?_⟩
        unfold Layout.cells at hspan
        rw [hdone, List.map_append, List.append_assoc] at hspan
        rw [hw, List.flatMap_cons, List.length_append] at hlen
        have hcount : f.segments.length = (chunks f.bytes.length f.bytes).length :=
          length_flagged _ _ _
        have hscan := scan_flagged s f (chunks_ne_nil f.bytes.length f.bytes)
          (n := TX_RING_SIZE) (by omega) 0 (span_append.mp hspan).1 fun k hk heq => by
            rw [hi.head, hw, List.flatMap_cons, List.length_append] at heq
            have := slot_inj (by omega) (by omega) heq
            omega
        rw [chunks_flatten (by unfold SEGMENT_SIZE; omega), ← hcount, Nat.zero_add] at hscan
        exact hscan
      · refine Or.inr ⟨?_, ?_⟩
        · have hlast := last_of_prefix (show flagged f true _ = _ from hf) (by simp)
          refine scan_owned s seg _ 0 ?_ hlast
          unfold Layout.cells at hspan
          rw [hp, List.map_cons, List.cons_append, ← List.singleton_append (l := _ ++ _),
            ← List.append_assoc] at hspan
          exact (span_append.mp hspan).1
        · intro f' ws' h hprefix
          obtain ⟨rfl, rfl⟩ := List.cons.inj h
          have := hprefix.length_le
          rw [hf] at this
          simp at this

/-- The cell of the last segment of a frame that is out. -/
theorem callback_last {f : Submission} {p : Fin TX_RING_SIZE}
    (hspan : Span (Holds s) p (f.segments.map (Cell.segment false))) :
    s.txCallback (slot p (f.segments.length - 1)) = ⟨f.callback, f.ref⟩ := by
  have hcount : f.segments.length = (chunks f.bytes.length f.bytes).length :=
    length_flagged _ _ _
  have hpos := List.length_pos_iff.mpr (chunks_ne_nil f.bytes.length f.bytes)
  have hget := getElem?_flagged f true (chunks f.bytes.length f.bytes) (f.segments.length - 1)
  rw [List.getElem?_eq_getElem (l := chunks f.bytes.length f.bytes) (by omega),
    Option.map_some] at hget
  have hat := span_iff.mp (span_map.mp hspan) _ _ hget
  obtain ⟨-, -, -, -, -, hcall⟩ := hat
  exact hcall (by simp; omega)

theorem TxInv.processFrameTx (hi : TxInv h s L) (hm : s.marking = none) :
    ∃ L', TxInv ((s, .processFrameTx) :: h) s.processFrameTx.1 L' := by
  rcases hi.scan_eq hm with ⟨f, ws, done, hw, hdone, hrest, hscan⟩ | ⟨hscan, -⟩
  · obtain ⟨hu, hmk⟩ := hi.idle hm
    obtain ⟨hhead, htail, hmarking, hdma, hown, hsame, hreclaims, hcalls⟩ :=
      processFrameTx_some hscan
    have hlen := hi.length_segments
    have hfree := hi.free
    have hsize := hi.size
    rw [L.length_cells, hdone, hu, hmk] at hsize
    simp only [List.length_append, List.length_nil] at hsize
    have hpos : 0 < f.segments.length := by
      rw [Submission.segments, length_flagged]
      exact List.length_pos_iff.mpr (chunks_ne_nil _ _)
    have hspan : Span (Holds s) s.txTail (f.segments.map (Cell.segment false) ++
        (done.map (Cell.segment false) ++ L.pending.map (Cell.segment true) ++
          List.replicate L.free Cell.free)) := by
      simpa [Layout.cells, hdone, hu, hmk] using hi.span
    have hf := (span_append.mp hspan).1
    have hcallback := callback_last hf
    have hnext : slot s.txTail (f.segments.length - 1) + 1 =
        slot s.txTail f.segments.length := by
      rw [slot_add_one, Nat.sub_add_cancel hpos]
    have hcall : s.processFrameTx.2.2 = f.call := by
      have hbytes : f.segments.flatMap (·.bytes) = f.bytes := by
        rw [Submission.segments, flatMap_bytes_flagged,
          chunks_flatten (by unfold SEGMENT_SIZE; omega)]
      rw [hcalls, hcallback, hnext, assemble_eq s (by omega) (by omega) hf, hbytes]
      rfl
    rw [hnext] at htail
    -- the ring from the new tail on, with the slots of the frame at its end
    have hrotate := hspan.rotate (by simp; omega)
    rw [List.length_map] at hrotate
    generalize hr : s.processFrameTx.1 = s' at *
    have hnew : Span (Holds s') s'.txTail (done.map (Cell.segment false) ++
        L.pending.map (Cell.segment true) ++ List.replicate L.free Cell.free ++
          List.replicate f.segments.length Cell.free) := by
      rw [htail]
      obtain ⟨hold, hreclaimed⟩ := span_append.mp hrotate
      refine span_append.mpr ⟨hold.imp fun k c hc hP => hP.congr (hsame _ fun heq => ?_), ?_⟩
      · have hk := (List.getElem?_eq_some_iff.mp hc).1
        simp only [List.length_append, List.length_map, List.length_replicate] at hk
        rw [slot_slot] at heq
        have := slot_inj (by omega) (by omega) heq
        omega
      · rw [← List.map_const', span_map]
        exact (span_map.mp hreclaimed).imp fun k seg _ hP => (hown _).trans hP.1
    refine ⟨{ L with
      reclaimed := L.reclaimed ++ [f], waiting := ws, done := done,
      free := L.free + f.segments.length }, ?_⟩
    exact
      { accepted := by
          have hacc := hi.accepted
          rw [hw, List.append_cons] at hacc
          exact (outputs_cons_of_nil rfl h).trans hacc
        segments := by simpa [hu, hmk] using hrest
        span := by simpa [Layout.cells, hu, hmk] using hnew
        size := by
          rw [Layout.length_cells]
          simp only [hu, hmk, List.length_nil]
          omega
        free := by
          show 0 < L.free + f.segments.length
          omega
        head := by
          rw [hhead, htail, hi.head, hw, List.flatMap_cons, List.length_append, slot_slot]
        dma := by rw [hdma, htail, hi.dma, hdone, List.length_append, slot_slot]
        sent := by
          have hsent := hi.sent
          rw [hdone] at hsent
          rw [outputs_cons_of_nil rfl, hsent, List.flatMap_append, List.flatMap_singleton,
            List.append_assoc]
        count := by
          rw [reclaimed_cons, hi.count, List.length_append, List.length_singleton]
          show _ + (if s.processFrameTx.2.1 = true then 1 else 0) = _
          rw [if_pos hreclaims]
        callbacks := by
          rw [Net.callbacks, outputs_cons, ← Net.callbacks, hi.callbacks, List.filterMap_append]
          show _ ++ s.processFrameTx.2.2.toList = _
          rw [hcall]
          cases hfc : f.call <;> simp [hfc]
        idle := fun _ => ⟨hu, hmk⟩
        marking := fun ptr head h => by
          rw [hmarking, hm] at h
          cases h }
  · have hidle := processFrameTx_none hscan
    have hreclaims : s.reclaims .processFrameTx = false := congrArg (fun r => r.2.1) hidle
    have hcalls : s.calls .processFrameTx = [] := congrArg (fun r => r.2.2.toList) hidle
    rw [hidle]
    refine ⟨L, ?_⟩
    exact
      { hi with
        accepted := (outputs_cons_of_nil rfl h).trans hi.accepted
        sent := (outputs_cons_of_nil rfl h).trans hi.sent
        count := (reclaimed_cons_of_false hreclaims h).trans hi.count
        callbacks := (outputs_cons_of_nil hcalls h).trans hi.callbacks }

end Gpsdo.Net
