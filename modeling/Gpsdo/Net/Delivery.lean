import Gpsdo.Net.Transmit

set_option autoImplicit false

/-! # The law of the transmit ring -/

namespace Gpsdo.Net

variable {h : TxHistory} {s s' : Tx} {L : Layout}

/-! ## Runs -/

theorem TxInv.step (hi : TxInv h s L) {a : TxAction} (hs : s.step a = some s') :
    ∃ L', TxInv ((s, a) :: h) s' L' := by
  cases a with
  | transmit frame callback ref =>
      obtain ⟨⟨hm, hpos⟩, hs⟩ := Option.ite_none_right_eq_some.mp hs
      obtain rfl := Option.some.inj hs
      exact hi.transmit hm hpos callback ref
  | mark => exact hi.mark hs
  | processFrameTx =>
      obtain ⟨hm, hs⟩ := Option.ite_none_right_eq_some.mp hs
      obtain rfl := Option.some.inj hs
      exact hi.processFrameTx hm
  | complete status time => exact hi.complete hs

theorem txInv_of_run (hrun : Run Tx.step Tx.init h s) : ∃ L, TxInv h s L :=
  hrun.invariant (I := fun h s => ∃ L, TxInv h s L) ⟨_, txInv_init⟩
    fun _ _ _ _ ⟨_, hi⟩ hs => hi.step hs

/-! ## The wire -/

/-- **What is out**: the reclaimed frames, some of those that wait, and a part of the next one. -/
theorem TxInv.wire_eq (hi : TxInv h s L) : ∃ n ≤ L.waiting.length, ∃ current,
    wire h = ⟨(L.reclaimed ++ L.waiting.take n).map (·.bytes), current⟩ ∧
      current <+: (L.waiting[n]?.map (·.bytes)).getD [] ∧
      (L.pending ++ (L.unmarked ++ L.marked) = [] → n = L.waiting.length) := by
  obtain ⟨m, -, c, hreclaimed, hc, hall⟩ := @foldl_sent L.reclaimed
    (L.reclaimed.flatMap Submission.segments) [] [] (by simp)
  obtain rfl := hall rfl
  have hnil : c = [] := by simpa using hc
  obtain ⟨n, hn, current, hwaiting, hcurrent, hrest⟩ := foldl_sent _ _
    (L.reclaimed.map (·.bytes)) hi.segments
  refine ⟨n, hn, current, ?_, hcurrent, hrest⟩
  rw [wire, hi.sent, List.map_append, List.foldl_append, hreclaimed, hnil]
  simpa using hwaiting

/-- When the next frame is not to be reclaimed, no frame that waits is out. -/
theorem TxInv.wire_of_scan (hi : TxInv h s L) (hm : s.marking = none)
    (hscan : s.scan TX_RING_SIZE s.txTail 0 = none) :
    (wire h).frames = L.reclaimed.map (·.bytes) := by
  obtain ⟨m, -, c, hreclaimed, hc, hall⟩ := @foldl_sent L.reclaimed
    (L.reclaimed.flatMap Submission.segments) [] [] (by simp)
  obtain rfl := hall rfl
  have hnil : c = [] := by simpa using hc
  rw [wire, hi.sent, List.map_append, List.foldl_append, hreclaimed, hnil]
  rcases hi.scan_eq hm with ⟨f, ws, done, -, -, -, h⟩ | ⟨-, hnone⟩
  · rw [hscan] at h
    cases h
  · cases hw : L.waiting with
    | nil =>
        have hseg := hi.segments
        rw [hw] at hseg
        simp [(List.append_eq_nil_iff.mp hseg.symm).1]
    | cons f ws =>
        rcases hi.oldest hm hw with ⟨done, hdone, -⟩ | ⟨seg, rest, pending, hf, -⟩
        · exact absurd ⟨done, hdone.symm⟩ (hnone f ws hw)
        · obtain ⟨current, hfold, -⟩ := foldl_flagged_prefix f (L.reclaimed.map (·.bytes))
            [] (fun _ => rfl) hf (by simp)
          simp [hfold]

/-! ## The law -/

/-- The segments on the ring: those of the accepted frames that are not reclaimed. -/
def onRing (h : TxHistory) : List Segment :=
  ((accepted h).drop (reclaimed h)).flatMap Submission.segments

/-- A slot with a segment, whoever owns it. -/
def Keeps (s : Tx) (i : Fin TX_RING_SIZE) (seg : Segment) : Prop :=
  ∃ own, Holds s i (.segment own seg)

/-- The law of the transmit ring. -/
structure TxLaw (h : TxHistory) (s : Tx) : Prop where
  /-- Whole frames are sent, in the order in which they were accepted. -/
  sent : (wire h).frames <+: (accepted h).map (·.bytes)
  current : (wire h).current <+: ((accepted h)[(wire h).frames.length]?.map (·.bytes)).getD []
  /-- The DMA rests only when everything is sent. -/
  sent_all : s.marking = none → s.send = none → wire h = ⟨(accepted h).map (·.bytes), []⟩
  /-- A frame is reclaimed when it is out; it gets its callback then. -/
  reclaimed : reclaimed h ≤ (wire h).frames.length
  called : callbacks h = ((accepted h).take (Net.reclaimed h)).filterMap Submission.call
  /-- `processFrameTx` fails only when all frames that are out are reclaimed. -/
  called_all : s.marking = none → s.processFrameTx.2.1 = false →
    Net.reclaimed h = (wire h).frames.length
  /-- A rejected frame counts as an overflow at most. -/
  rejected : ∀ frame callback ref, (s.transmit frame callback ref).2 = false →
    ∃ k, (s.transmit frame callback ref).1 = { s with overflowTx := k }
  /-- A segment stays in its slot, from the tail on, until its frame is reclaimed. -/
  kept : ∀ k seg, (onRing h)[k]? = some seg → Keeps s (slot s.txTail k) seg
  /-- No step writes to a slot in use, apart from the word of flags, nor `transmit` to any of it. -/
  written : ∀ a s', s.step a = some s' → ∀ k < (onRing h).length,
    s'.txBuffer (slot s.txTail k) = s.txBuffer (slot s.txTail k) ∧
      (∀ frame callback ref, a = .transmit frame callback ref → SameSlot s s' (slot s.txTail k))

theorem TxInv.onRing_eq (hi : TxInv h s L) : onRing h = L.waiting.flatMap Submission.segments := by
  rw [onRing, hi.accepted, hi.count, List.drop_left]

theorem TxInv.sent_all (hi : TxInv h s L) (hm : s.marking = none) (hsend : s.send = none) :
    wire h = ⟨(Net.accepted h).map (·.bytes), []⟩ := by
  obtain ⟨hu, hmk⟩ := hi.idle hm
  obtain ⟨n, -, current, hwire, hcurrent, hall⟩ := hi.wire_eq
  have hp : L.pending = [] := by
    cases hp : L.pending with
    | nil => rfl
    | cons seg pending =>
        -- the DMA is at this segment
        have hspan := hi.span
        unfold Layout.cells at hspan
        rw [hp] at hspan
        have hat := (span_append.mp hspan).2.1
        rw [List.length_map, ← hi.dma] at hat
        rw [hat.send] at hsend
        cases hsend
  obtain rfl := hall (by rw [hp, hu, hmk]; rfl)
  rw [hwire, hi.accepted, List.take_length]
  congr 1
  simpa using hcurrent

theorem Layout.getElem?_cells (L : Layout) {k : ℕ} {seg : Segment}
    (hk : (L.done ++ (L.pending ++ (L.unmarked ++ L.marked)))[k]? = some seg) :
    ∃ own, L.cells[k]? = some (.segment own seg) := by
  unfold Layout.cells
  simp only [List.getElem?_append, List.length_map, List.getElem?_map] at hk ⊢
  split_ifs at hk ⊢
  · exact ⟨false, by rw [hk]; rfl⟩
  · exact ⟨true, by rw [hk]; rfl⟩
  · exact ⟨false, by rw [hk]; rfl⟩
  · exact ⟨true, by rw [hk]; rfl⟩
  · rename_i hmarked
    rw [List.getElem?_eq_none (not_lt.mp hmarked)] at hk
    cases hk

theorem TxInv.kept (hi : TxInv h s L) {k : ℕ} {seg : Segment} (hk : (onRing h)[k]? = some seg) :
    Keeps s (slot s.txTail k) seg := by
  rw [hi.onRing_eq, hi.segments] at hk
  obtain ⟨own, hcell⟩ := L.getElem?_cells hk
  exact ⟨own, span_iff.mp hi.span k _ hcell⟩

/-- The slots in use are not those that `transmit` fills. -/
theorem TxInv.transmit_same (hi : TxInv h s L) {frame : List Byte}
    (hpos : frame ≠ []) (callback : Option Addr) (ref : Addr) {k : ℕ}
    (hk : k < (onRing h).length) :
    SameSlot s (s.transmit frame callback ref).1 (slot s.txTail k) := by
  have heq := transmit_eq s ⟨frame, callback, ref⟩ hpos
  rw [hi.free_slots] at heq
  dsimp only at heq
  have hlen := hi.length_segments
  rw [hi.onRing_eq] at hk
  split_ifs at heq with hmtu hfull
  · rw [heq]
    exact ⟨rfl, rfl, rfl⟩
  · rw [heq]
    exact ⟨rfl, rfl, rfl⟩
  · rw [heq]
    have hfree := hi.free
    obtain ⟨-, -, -, -, -, hsame⟩ :=
      submit_spec s ⟨frame, callback, ref⟩ (by omega)
    refine hsame _ fun j hj h => ?_
    rw [hi.head, slot_slot] at h
    have := slot_inj (by omega) (by omega) h
    omega

theorem step_buffer {a : TxAction} (hs : s.step a = some s')
    (ha : ∀ frame callback ref, a ≠ .transmit frame callback ref) : s'.txBuffer = s.txBuffer := by
  cases a with
  | transmit frame callback ref => exact absurd rfl (ha frame callback ref)
  | mark =>
      simp only [Tx.step, Tx.mark] at hs
      split at hs
      · cases hs
      · obtain rfl := Option.some.inj hs
        rfl
  | processFrameTx =>
      obtain ⟨-, hs⟩ := Option.ite_none_right_eq_some.mp hs
      obtain rfl := Option.some.inj hs
      unfold Tx.processFrameTx
      split
      · rfl
      · dsimp only
        split <;> rfl
  | complete status time =>
      obtain ⟨-, hs⟩ := Option.ite_none_right_eq_some.mp hs
      obtain rfl := Option.some.inj hs
      rfl

theorem transmit_rejected {frame : List Byte} {callback : Option Addr} {ref : Addr}
    (hs : (s.transmit frame callback ref).2 = false) :
    ∃ k, (s.transmit frame callback ref).1 = { s with overflowTx := k } := by
  unfold Tx.transmit at hs ⊢
  split at hs <;> rename_i hmtu
  · exact ⟨s.overflowTx, by rw [if_pos hmtu]⟩
  · split at hs <;> rename_i hfull
    · exact ⟨s.overflowTx + 1, by rw [if_neg hmtu, if_pos hfull]⟩
    · cases hs

theorem TxInv.law (hi : TxInv h s L) : TxLaw h s := by
  obtain ⟨n, hn, current, hwire, hcurrent, -⟩ := hi.wire_eq
  have hframes : (wire h).frames.length = L.reclaimed.length + n := by
    rw [hwire]
    simp [hn]
  exact
    { sent := by
        rw [hwire, hi.accepted]
        exact ((List.prefix_append_right_inj _).mpr (List.take_prefix n L.waiting)).map _
      current := by
        rw [hframes, hi.accepted, List.getElem?_append_right (Nat.le_add_right _ _),
          Nat.add_sub_cancel_left, hwire]
        exact hcurrent
      sent_all := hi.sent_all
      reclaimed := by
        rw [hi.count, hframes]
        exact Nat.le_add_right _ _
      called := by rw [hi.callbacks, hi.accepted, hi.count, List.take_left]
      called_all := fun hm hp => by
        have hscan : s.scan TX_RING_SIZE s.txTail 0 = none := by
          cases hscan : s.scan TX_RING_SIZE s.txTail 0 with
          | none => rfl
          | some r =>
              obtain ⟨-, -, -, -, -, -, htrue, -⟩ := processFrameTx_some hscan
              rw [hp] at htrue
              cases htrue
        rw [hi.count, hi.wire_of_scan hm hscan, List.length_map]
      rejected := fun _ _ _ => transmit_rejected
      kept := fun _ _ => hi.kept
      written := fun a s' hs k hk => by
        cases a with
        | transmit frame callback ref =>
            obtain ⟨⟨-, hpos⟩, hs⟩ := Option.ite_none_right_eq_some.mp hs
            obtain rfl := Option.some.inj hs
            have hsame := hi.transmit_same hpos callback ref hk
            refine ⟨hsame.2.1, fun _ _ _ h => ?_⟩
            exact hsame
        | mark => exact ⟨congrFun (step_buffer hs (by simp)) _, by simp⟩
        | processFrameTx => exact ⟨congrFun (step_buffer hs (by simp)) _, by simp⟩
        | complete status time => exact ⟨congrFun (step_buffer hs (by simp)) _, by simp⟩ }

/-- **The law of the transmit ring**: it holds in every state that it reaches. -/
theorem txLaw_of_run (hrun : Run Tx.step Tx.init h s) : TxLaw h s := by
  obtain ⟨L, hi⟩ := txInv_of_run hrun
  exact hi.law

/-- A frame of two segments goes out, and a short one is transmitted before it is reclaimed. -/
def twoFrames : List TxAction :=
  [.transmit (List.replicate 130 7) (some 1) 2, .mark, .mark, .complete 0 (3, 4),
    .transmit [5, 6] none 0, .complete 0 (8, 9), .mark, .processFrameTx]

theorem txLaw_of_run_twoFrames : ∃ h s, Run Tx.step Tx.init h s ∧
    callbacks h = [⟨1, 2, List.replicate 130 7, 130⟩] ∧ s.txTail = 2 ∧ TxLaw h s := by
  obtain ⟨h, s, hrun, hp⟩ := @exists_run_of_replay _ _ Tx.step Tx.init twoFrames
    (fun h s => decide (callbacks h = [⟨1, 2, List.replicate 130 7, 130⟩] ∧ s.txTail = 2))
    (by decide +kernel)
  obtain ⟨hcalls, htail⟩ := of_decide_eq_true hp
  exact ⟨h, s, hrun, hcalls, htail, txLaw_of_run hrun⟩

end Gpsdo.Net
