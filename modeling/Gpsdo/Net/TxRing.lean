import Gpsdo.Net.Tx

set_option autoImplicit false

/-! # The layout of the transmit ring

The ring from `txTail` on holds the segments of the frames that wait to be reclaimed: those that the
DMA has sent, those that it owns, and, while `transmit` is in its last loop, those of the newest
frame, of which the later ones are marked already. The rest of the ring is free.
-/

namespace Gpsdo.Net

/-! ## Segments -/

/-- A segment of a frame. -/
structure Segment where
  first : Bool
  last : Bool
  bytes : List Byte
  sub : Submission

def Segment.wire (seg : Segment) : Tx.WireSegment := ⟨seg.first, seg.last, seg.bytes⟩

/-- The pieces that the loop of `transmit` copies. -/
def chunks : ℕ → List Byte → List (List Byte)
  | 0, frame => [frame.take SEGMENT_SIZE]
  | n + 1, frame =>
      frame.take SEGMENT_SIZE ::
        if frame.drop SEGMENT_SIZE = [] then [] else chunks n (frame.drop SEGMENT_SIZE)

/-- The pieces of a frame as segments. -/
def flagged (sub : Submission) : Bool → List (List Byte) → List Segment
  | _, [] => []
  | first, [b] => [⟨first, true, b, sub⟩]
  | first, b :: b' :: bs => ⟨first, false, b, sub⟩ :: flagged sub false (b' :: bs)

/-- The segments of a frame. -/
def Submission.segments (sub : Submission) : List Segment :=
  flagged sub true (chunks sub.bytes.length sub.bytes)

theorem chunks_ne_nil (n : ℕ) (frame : List Byte) : chunks n frame ≠ [] := by
  cases n <;> simp [chunks]

theorem chunks_flatten {n : ℕ} {frame : List Byte} (h : frame.length ≤ SEGMENT_SIZE * (n + 1)) :
    (chunks n frame).flatten = frame := by
  induction n generalizing frame with
  | zero =>
      have hlen : frame.length ≤ SEGMENT_SIZE := by omega
      simp [chunks, List.take_of_length_le hlen]
  | succ n ih =>
      unfold chunks
      split
      · rename_i hrest
        have hlen : frame.length ≤ SEGMENT_SIZE := by simpa using hrest
        simp [List.take_of_length_le hlen]
      · have hlen : (frame.drop SEGMENT_SIZE).length ≤ SEGMENT_SIZE * (n + 1) := by
          rw [List.length_drop]
          unfold SEGMENT_SIZE at *
          omega
        rw [List.flatten_cons, ih hlen, List.take_append_drop]

/-- The number that the test for an overflow compares with. -/
theorem chunks_length {n : ℕ} {frame : List Byte} (hpos : frame ≠ [])
    (h : frame.length ≤ SEGMENT_SIZE * (n + 1)) :
    (chunks n frame).length = (frame.length + SEGMENT_SIZE - 1) / SEGMENT_SIZE := by
  induction n generalizing frame with
  | zero =>
      have hlen := List.length_pos_iff.mpr hpos
      unfold SEGMENT_SIZE at *
      simp only [chunks, List.length_singleton]
      omega
  | succ n ih =>
      have hlen := List.length_pos_iff.mpr hpos
      unfold chunks
      split
      · rename_i hrest
        have hshort : frame.length ≤ SEGMENT_SIZE := by simpa using hrest
        unfold SEGMENT_SIZE at *
        rw [List.length_singleton]
        omega
      · rename_i hrest
        have hdrop : (frame.drop SEGMENT_SIZE).length = frame.length - SEGMENT_SIZE :=
          List.length_drop
        have hlong := List.length_pos_iff.mpr hrest
        rw [List.length_cons, ih hrest (by unfold SEGMENT_SIZE at *; omega), hdrop]
        unfold SEGMENT_SIZE at *
        omega

theorem getElem?_flagged (sub : Submission) (first : Bool) (bs : List (List Byte)) (k : ℕ) :
    (flagged sub first bs)[k]? =
      bs[k]?.map fun b => ⟨first && k = 0, k + 1 = bs.length, b, sub⟩ := by
  induction first, bs using flagged.induct generalizing k with
  | case1 first => simp [flagged]
  | case2 first b => cases k <;> simp [flagged]
  | case3 first b b' bs ih =>
      cases k with
      | zero => simp [flagged]
      | succ k => simp [flagged, ih]

theorem length_flagged (sub : Submission) (first : Bool) (bs : List (List Byte)) :
    (flagged sub first bs).length = bs.length := by
  induction first, bs using flagged.induct with
  | case1 first => rfl
  | case2 first b => rfl
  | case3 first b b' bs ih => simpa [flagged] using ih

/-! ## What the DMA sends of a frame -/

theorem foldl_flagged (sub : Submission) (frames : List (List Byte)) (first : Bool)
    (current : List Byte) {bs : List (List Byte)} (hbs : bs ≠ []) :
    ((flagged sub first bs).map Segment.wire).foldl Wire.push ⟨frames, current⟩ =
      ⟨frames ++ [(if first then [] else current) ++ bs.flatten], []⟩ := by
  induction first, bs using flagged.induct generalizing current with
  | case1 first => exact absurd rfl hbs
  | case2 first b => cases first <;> simp [flagged, Segment.wire, Wire.push]
  | case3 first b b' bs ih =>
      have h := ih ((if first then [] else current) ++ b) (by simp)
      cases first <;> simpa [flagged, Segment.wire, Wire.push] using h

/-- **All segments of a frame are the frame.** -/
theorem foldl_segments (sub : Submission) (w : Wire) :
    (sub.segments.map Segment.wire).foldl Wire.push w = ⟨w.frames ++ [sub.bytes], []⟩ := by
  have h := foldl_flagged sub w.frames true w.current
    (chunks_ne_nil sub.bytes.length sub.bytes)
  rw [chunks_flatten (by unfold SEGMENT_SIZE; omega)] at h
  simpa [Submission.segments] using h

theorem foldl_flagged_prefix (sub : Submission) (frames : List (List Byte)) {first : Bool}
    (current : List Byte) {bs : List (List Byte)} (hfirst : first = true → current = [])
    {done rest : List Segment} (h : flagged sub first bs = done ++ rest) (hrest : rest ≠ []) :
    ∃ current', (done.map Segment.wire).foldl Wire.push ⟨frames, current⟩ = ⟨frames, current'⟩ ∧
      current' <+: current ++ bs.flatten := by
  induction first, bs using flagged.induct generalizing current done with
  | case1 first =>
      cases done with
      | nil => exact absurd h.symm hrest
      | cons => cases h
  | case2 first b =>
      cases done with
      | nil => exact ⟨current, rfl, List.prefix_append _ _⟩
      | cons seg done =>
          obtain ⟨-, hnil⟩ := List.cons.inj h
          exact absurd (List.append_eq_nil_iff.mp hnil.symm).2 hrest
  | case3 first b b' bs ih =>
      cases done with
      | nil => exact ⟨current, rfl, List.prefix_append _ _⟩
      | cons seg done =>
          obtain ⟨rfl, htail⟩ := List.cons.inj h
          -- the first segment of a frame begins it, with nothing before it
          have hpush : Wire.push ⟨frames, current⟩ (Segment.wire ⟨first, false, b, sub⟩) =
              ⟨frames, current ++ b⟩ := by
            cases first with
            | false => simp [Segment.wire, Wire.push]
            | true => simp [Segment.wire, Wire.push, hfirst rfl]
          obtain ⟨current', hfold, hprefix⟩ := ih (current ++ b) (by simp) htail
          refine ⟨current', ?_, by simpa using hprefix⟩
          rw [List.map_cons, List.foldl_cons, hpush, hfold]

/-- **What the DMA has sent** of some frames: the first of them, and the beginning of the next. -/
theorem foldl_sent {ws : List Submission} (done rest : List Segment) (frames : List (List Byte))
    (h : ws.flatMap Submission.segments = done ++ rest) :
    ∃ n ≤ ws.length, ∃ current, (done.map Segment.wire).foldl Wire.push ⟨frames, []⟩ =
        ⟨frames ++ (ws.take n).map (·.bytes), current⟩ ∧
      current <+: (ws[n]?.map (·.bytes)).getD [] ∧ (rest = [] → n = ws.length) := by
  induction ws generalizing frames done with
  | nil =>
      obtain ⟨rfl, rfl⟩ := List.append_eq_nil_iff.mp h.symm
      exact ⟨0, le_refl _, [], by simp, List.nil_prefix, fun _ => rfl⟩
  | cons f ws ih =>
      rw [List.flatMap_cons] at h
      rcases List.append_eq_append_iff.mp h with ⟨done', hdone, hrest⟩ | ⟨c, hseg, hrest⟩
      · -- the frame is out
        subst hdone
        obtain ⟨n, hn, current, hfold, hcur, hall⟩ := ih _ (frames ++ [f.bytes]) hrest
        refine ⟨n + 1, by simpa using hn, current, ?_, by simpa using hcur, fun hr => ?_⟩
        · rw [List.map_append, List.foldl_append, foldl_segments, hfold]
          simp
        · rw [hall hr, List.length_cons]
      · by_cases hc : c = []
        · subst hc
          rw [List.append_nil] at hseg
          obtain ⟨n, hn, current, hfold, hcur, hall⟩ :=
            ih [] (frames ++ [f.bytes]) hrest.symm
          refine ⟨n + 1, by simpa using hn, current, ?_, by simpa using hcur, fun hr => ?_⟩
          · rw [← hseg, foldl_segments, ← List.nil_append ([] : List Segment)] at *
            simpa using hfold
          · rw [hall hr, List.length_cons]
        · -- a part of the frame is out
          obtain ⟨current, hfold, hcur⟩ := foldl_flagged_prefix f frames [] (fun _ => rfl) hseg hc
          refine ⟨0, Nat.zero_le _, current, by simpa using hfold, ?_, fun hr => ?_⟩
          · rw [chunks_flatten (by unfold SEGMENT_SIZE; omega)] at hcur
            simpa using hcur
          · rw [hr] at hrest
            exact absurd (List.append_eq_nil_iff.mp hrest.symm).1 hc

/-! ## Cells -/

/-- A cell of the ring: free, or a segment that the DMA owns or does not own. -/
inductive Cell
  | free
  | segment (own : Bool) (seg : Segment)

/-- What a slot holds. -/
def Holds (s : Tx) (i : Fin TX_RING_SIZE) : Cell → Prop
  | .free => (s.txDesc i).OWN = false
  | .segment own seg =>
      (s.txDesc i).OWN = own ∧ (s.txDesc i).FS = seg.first ∧ (s.txDesc i).LS = seg.last ∧
        (s.txDesc i).TBS1 = seg.bytes.length ∧
        (s.txBuffer i).take seg.bytes.length = seg.bytes ∧
        (seg.last = true → s.txCallback i = ⟨seg.sub.callback, seg.sub.ref⟩)

/-- Slots with the same contents. -/
def SameSlot (s s' : Tx) (i : Fin TX_RING_SIZE) : Prop :=
  s'.txDesc i = s.txDesc i ∧ s'.txBuffer i = s.txBuffer i ∧ s'.txCallback i = s.txCallback i

theorem Holds.congr {s s' : Tx} {i : Fin TX_RING_SIZE} {c : Cell} (h : Holds s i c)
    (hs : SameSlot s s' i) : Holds s' i c := by
  obtain ⟨h1, h2, h3⟩ := hs
  cases c <;> simpa only [Holds, h1, h2, h3] using h

/-- A segment in a slot is what the DMA would send. -/
theorem Holds.send {s : Tx} {seg : Segment} (h : Holds s s.dma (.segment true seg)) :
    s.send = some seg.wire := by
  obtain ⟨h1, h2, h3, h4, h5, -⟩ := h
  simp [Tx.send, h1, h2, h3, h4, h5, Segment.wire]

/-! ## The loops of `processFrameTx` -/

/-- The first loop finds the end of a frame that is out. -/
theorem scan_flagged (s : Tx) (sub : Submission) {first : Bool} {bs : List (List Byte)}
    (hbs : bs ≠ []) {n : ℕ} (hn : bs.length ≤ n) {ptr : Fin TX_RING_SIZE} (size : ℕ)
    (hspan : Span (Holds s) ptr ((flagged sub first bs).map (.segment false)))
    (hhead : ∀ k < bs.length, slot ptr k ≠ s.txHead) :
    s.scan n ptr size = some (slot ptr (bs.length - 1), size + bs.flatten.length) := by
  induction first, bs using flagged.induct generalizing n ptr size with
  | case1 first => exact absurd rfl hbs
  | case2 first b =>
      obtain ⟨n, rfl⟩ : ∃ m, n = m + 1 := ⟨n - 1, by simp at hn; omega⟩
      obtain ⟨⟨hown, -, hlast, hsize, -⟩, -⟩ := hspan
      have hne : ptr ≠ s.txHead := by simpa using hhead 0 (by simp)
      simp [Tx.scan, hown, hlast, hsize, hne]
  | case3 first b b' bs ih =>
      obtain ⟨n, rfl⟩ : ∃ m, n = m + 1 := ⟨n - 1, by simp at hn; omega⟩
      obtain ⟨⟨hown, -, hlast, hsize, -⟩, hrest⟩ := hspan
      have hne : ptr ≠ s.txHead := by simpa using hhead 0 (by simp)
      have hscan := ih (by simp) (n := n) (by simpa using hn) (size + b.length) hrest
        fun k hk => by
          rw [slot_succ]
          exact hhead (k + 1) (by simpa using hk)
      simp only [Tx.scan, hown, hlast, hsize, hne, decide_false, Bool.or_self, Bool.false_eq_true,
        if_false]
      rw [hscan, slot_succ]
      simp [Nat.add_assoc]

/-- The first loop finds no frame when the DMA owns a segment of the next one. -/
theorem scan_owned (s : Tx) {done : List Segment} (seg : Segment) (n : ℕ)
    {ptr : Fin TX_RING_SIZE} (size : ℕ)
    (hspan : Span (Holds s) ptr (done.map (.segment false) ++ [.segment true seg]))
    (hlast : ∀ seg ∈ done, seg.last = false) : s.scan n ptr size = none := by
  induction done generalizing n ptr size with
  | nil =>
      obtain ⟨⟨hown, -⟩, -⟩ := hspan
      cases n with
      | zero => rfl
      | succ n => simp [Tx.scan, hown]
  | cons d done ih =>
      obtain ⟨⟨hown, -, hl, -⟩, hrest⟩ := hspan
      cases n with
      | zero => rfl
      | succ n =>
          have hscan := ih n (size + (s.txDesc ptr).TBS1) hrest
            fun seg hseg => hlast seg (List.mem_cons_of_mem _ hseg)
          have hd := hlast d List.mem_cons_self
          rw [hd] at hl
          simp only [Tx.scan, hl, hscan, Bool.false_eq_true, if_false, ite_self]

/-- The second loop copies the frame together. -/
theorem assemble_eq (s : Tx) {own : Bool} {l : List Segment} {ptr : Fin TX_RING_SIZE} {n : ℕ}
    (hn : l.length < n) (hlen : l.length < TX_RING_SIZE)
    (hspan : Span (Holds s) ptr (l.map (.segment own))) :
    s.assemble (slot ptr l.length) n ptr = l.flatMap (·.bytes) := by
  induction l generalizing ptr n with
  | nil =>
      obtain ⟨n, rfl⟩ : ∃ m, n = m + 1 := ⟨n - 1, by simp at hn; omega⟩
      simp [Tx.assemble]
  | cons seg l ih =>
      obtain ⟨n, rfl⟩ : ∃ m, n = m + 1 := ⟨n - 1, by omega⟩
      obtain ⟨⟨-, -, -, hsize, hbytes, -⟩, hrest⟩ := hspan
      have hne : ptr ≠ slot ptr (seg :: l).length := by
        intro heq
        rw [← slot_zero ptr, slot_slot, Nat.zero_add] at heq
        have := slot_inj (by decide) hlen heq
        simp at this
      rw [List.length_cons] at hn hlen hne ⊢
      have htail := ih (n := n) (by omega) (by omega) hrest
      rw [slot_succ] at htail
      rw [Tx.assemble, if_neg hne, htail, hsize, hbytes, List.flatMap_cons]

theorem assemble_setCallback (s : Tx) (i stop : Fin TX_RING_SIZE) (c : TxCallback) (n : ℕ)
    (ptr : Fin TX_RING_SIZE) :
    (s.setCallback i c).assemble stop n ptr = s.assemble stop n ptr := by
  induction n generalizing ptr with
  | zero => rfl
  | succ n ih =>
      rw [Tx.assemble, Tx.assemble, ih]
      rfl

theorem flatMap_bytes_flagged (sub : Submission) (first : Bool) (bs : List (List Byte)) :
    (flagged sub first bs).flatMap (·.bytes) = bs.flatten := by
  induction first, bs using flagged.induct with
  | case1 first => rfl
  | case2 first b => simp [flagged]
  | case3 first b b' bs ih => simpa [flagged] using ih

/-- Only the last segment of a frame has the flag. -/
theorem last_of_prefix {sub : Submission} {first : Bool} {bs : List (List Byte)}
    {done rest : List Segment} (h : flagged sub first bs = done ++ rest) (hrest : rest ≠ []) :
    ∀ seg ∈ done, seg.last = false := by
  intro seg hseg
  obtain ⟨k, hk, rfl⟩ := List.mem_iff_getElem.mp hseg
  have hlen := congrArg List.length h
  rw [length_flagged, List.length_append] at hlen
  have hpos := List.length_pos_iff.mpr hrest
  have hget := getElem?_flagged sub first bs k
  rw [h, List.getElem?_append_left hk, List.getElem?_eq_getElem hk] at hget
  obtain ⟨b, -, hb⟩ := Option.map_eq_some_iff.mp hget.symm
  rw [← hb]
  simp only [decide_eq_false_iff_not]
  omega

/-! ## The layout -/

/-- What is on the ring. -/
structure Layout where
  reclaimed : List Submission
  waiting : List Submission
  /-- The DMA has sent these. -/
  done : List Segment
  /-- The DMA owns these. -/
  pending : List Segment
  /-- `transmit` has still to mark these. -/
  unmarked : List Segment
  /-- `transmit` has marked these, and others before them not yet. -/
  marked : List Segment
  free : ℕ

def Layout.cells (L : Layout) : List Cell :=
  L.done.map (.segment false) ++ (L.pending.map (.segment true) ++
    (L.unmarked.map (.segment false) ++ (L.marked.map (.segment true) ++
      List.replicate L.free .free)))

/-- The call that a reclaimed frame gets. -/
def Submission.call (sub : Submission) : Option Tx.TxCall :=
  sub.callback.map fun call => ⟨call, sub.ref, sub.bytes, sub.bytes.length⟩

/-- The invariant of the transmit ring. -/
structure TxInv (h : TxHistory) (s : Tx) (L : Layout) : Prop where
  accepted : accepted h = L.reclaimed ++ L.waiting
  segments : L.waiting.flatMap Submission.segments =
    L.done ++ (L.pending ++ (L.unmarked ++ L.marked))
  span : Span (Holds s) s.txTail L.cells
  size : L.cells.length = TX_RING_SIZE
  free : 0 < L.free
  head : s.txHead = slot s.txTail (L.waiting.flatMap Submission.segments).length
  dma : s.dma = slot s.txTail L.done.length
  sent : outputs Tx.sends h =
    (L.reclaimed.flatMap Submission.segments ++ L.done).map Segment.wire
  count : reclaimed h = L.reclaimed.length
  callbacks : callbacks h = L.reclaimed.filterMap Submission.call
  idle : s.marking = none → L.unmarked = [] ∧ L.marked = []
  marking : ∀ ptr head, s.marking = some (ptr, head) → L.unmarked ≠ [] ∧
    head = slot s.txTail (L.done.length + L.pending.length) ∧
    ptr = slot s.txTail (L.done.length + L.pending.length + L.unmarked.length)

theorem Layout.length_cells (L : Layout) : L.cells.length =
    L.done.length + (L.pending.length + (L.unmarked.length + (L.marked.length + L.free))) := by
  simp [Layout.cells]

theorem TxInv.length_segments {h : TxHistory} {s : Tx} {L : Layout} (hi : TxInv h s L) :
    (L.waiting.flatMap Submission.segments).length + L.free = TX_RING_SIZE := by
  have hsize := hi.size
  rw [L.length_cells] at hsize
  rw [hi.segments]
  simp only [List.length_append]
  omega

theorem txInv_init : TxInv [] Tx.init ⟨[], [], [], [], [], [], TX_RING_SIZE⟩ where
  accepted := rfl
  segments := rfl
  span := by
    rw [span_iff]
    intro k c hc
    obtain ⟨-, rfl⟩ : k < TX_RING_SIZE ∧ c = .free := by
      simpa [Layout.cells, List.getElem?_replicate, eq_comm] using hc
    show (Tx.init.txDesc (slot 0 k)).OWN = false
    simp only [TxDesc.OWN, Tx.init]
    split <;> rfl
  size := by simp [Layout.cells]
  free := by decide
  head := by simp [Tx.init]
  dma := by simp [Tx.init]
  sent := rfl
  count := rfl
  callbacks := rfl
  idle := fun _ => ⟨rfl, rfl⟩
  marking := fun _ _ h => by cases h

end Gpsdo.Net
