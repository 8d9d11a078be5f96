import Gpsdo.Basic.Span
import Gpsdo.Net.Rx

set_option autoImplicit false

/-! # The layout of the receive ring

From the descriptor that the code looks at next, the ring holds the segments of the frame in hand
that are not yet returned, the frames that wait, and what is in of the next frame. The DMA owns the
rest of the ring.
-/

namespace Gpsdo.Net

/-! ## Segments and frames -/

/-- The byte counts of successive segments, the first of which comes after `n` bytes. -/
def Counts : ℕ → List RxSegment → Prop
  | _, [] => True
  | n, seg :: l => seg.acc = n + seg.bytes.length ∧ seg.bytes.length ≤ SEGMENT_SIZE ∧ Counts seg.acc l

theorem counts_append {n : ℕ} {l l' : List RxSegment} :
    Counts n (l ++ l') ↔ Counts n l ∧ Counts (n + (l.flatMap (·.bytes)).length) l' := by
  induction l generalizing n with
  | nil => simp [Counts]
  | cons seg l ih =>
      rw [List.cons_append, Counts, Counts, ih, List.flatMap_cons, List.length_append,
        and_assoc, and_assoc]
      refine and_congr_right fun hacc => ?_
      rw [hacc, Nat.add_assoc]

/-- The last count is the number of bytes. -/
theorem Counts.total {n : ℕ} {l : List RxSegment} {seg : RxSegment} (h : Counts n (l ++ [seg])) :
    seg.acc = n + ((l ++ [seg]).flatMap (·.bytes)).length := by
  obtain ⟨-, hacc, -⟩ := counts_append.mp h
  rw [hacc]
  simp [Nat.add_assoc]

/-- A frame that is in part in. -/
structure Part (c : List RxSegment) : Prop where
  more : ∀ seg ∈ c, seg.last = false
  counts : Counts 0 c
  short : c.length ≤ 126

/-- A frame that is in. -/
structure Whole (f : List RxSegment) : Prop where
  ends : ∃ init last, f = init ++ [last] ∧ (∀ seg ∈ init, seg.last = false) ∧ last.last = true ∧
    14 ≤ last.acc
  counts : Counts 0 f
  short : f.length ≤ 127

theorem Part.whole {c : List RxSegment} (h : Part c) {seg : RxSegment} (hlast : seg.last = true)
    (hcounts : Counts 0 (c ++ [seg])) (hacc : 14 ≤ seg.acc) : Whole (c ++ [seg]) where
  ends := ⟨c, seg, rfl, h.more, hlast, hacc⟩
  counts := hcounts
  short := by
    have := h.short
    simp
    omega

theorem Whole.ne_nil {f : List RxSegment} (h : Whole f) : f ≠ [] := by
  obtain ⟨init, last, rfl, -⟩ := h.ends
  simp

/-! ## Cells -/

/-- A cell of the ring: one that the DMA owns, or a segment. -/
inductive RxCell
  | free
  | segment (seg : RxSegment)

/-- What a descriptor and its buffer hold. -/
def RxHolds (s : Rx) (i : Fin RX_RING_SIZE) : RxCell → Prop
  | .free => (s.rxDesc i).OWN = true
  | .segment seg =>
      s.rxDesc i = ⟨false, seg.last, seg.es, seg.acc, seg.time.1, seg.time.2⟩ ∧
        (s.rxBuffer i).take seg.bytes.length = seg.bytes

theorem RxHolds.congr {s s' : Rx} {i : Fin RX_RING_SIZE} {c : RxCell} (h : RxHolds s i c)
    (hdesc : s'.rxDesc i = s.rxDesc i) (hbuffer : s'.rxBuffer i = s.rxBuffer i) :
    RxHolds s' i c := by
  cases c <;> simpa only [RxHolds, hdesc, hbuffer] using h

/-- The scan passes the segments that are not last. -/
theorem scan_more (s : Rx) {l : List RxSegment} {n : ℕ} (hn : l.length ≤ n)
    {ptr : Fin RX_RING_SIZE} (hspan : Span (RxHolds s) ptr (l.map .segment))
    (hmore : ∀ seg ∈ l, seg.last = false) :
    s.scan n ptr = s.scan (n - l.length) (slot ptr l.length) := by
  induction l generalizing n ptr with
  | nil => simp
  | cons seg l ih =>
      rw [List.length_cons] at hn
      obtain ⟨m, rfl⟩ : ∃ m, n = m + 1 := ⟨n - 1, by omega⟩
      obtain ⟨⟨hdesc, -⟩, hrest⟩ := hspan
      have hstep := ih (n := m) (by omega) hrest fun seg h => hmore seg (List.mem_cons_of_mem _ h)
      have hlast := hmore seg List.mem_cons_self
      rw [List.length_cons, Nat.add_sub_add_right, Rx.scan, hdesc, hlast, hstep, slot_succ]
      rfl

/-! ## The layout -/

/-- What is on the ring. -/
structure RxLayout where
  processed : List (List RxSegment)
  /-- The segments of the frame in hand: those that are returned, and the others. -/
  hand : Option (List RxSegment × List RxSegment)
  waiting : List (List RxSegment)
  current : List RxSegment
  free : ℕ

namespace RxLayout

def rest (L : RxLayout) : List RxSegment := (L.hand.map Prod.snd).getD []

def done (L : RxLayout) : List RxSegment := (L.hand.map Prod.fst).getD []

/-- The segments on the ring. -/
def segments (L : RxLayout) : List RxSegment := L.rest ++ (L.waiting.flatten ++ L.current)

def cells (L : RxLayout) : List RxCell :=
  L.segments.map .segment ++ List.replicate L.free .free

/-- All frames that are in. -/
def frames (L : RxLayout) : List (List RxSegment) :=
  L.processed ++ (L.hand.toList.map (fun p => p.1 ++ p.2) ++ L.waiting)

end RxLayout

/-- The descriptor that the code looks at next. -/
def Rx.base (s : Rx) : Fin RX_RING_SIZE :=
  match s.loop with
  | .idle => s.rxTail
  | .discard ptr _ => ptr
  | .assemble ptr _ _ _ _ => ptr

/-- The loop and the frame in hand. -/
def Agrees (s : Rx) (L : RxLayout) : Prop :=
  match s.loop with
  | .idle => L.hand = none
  | .discard ptr stop => ∃ done rest last, L.hand = some (done, rest) ∧
      stop = slot ptr rest.length ∧ (done ++ rest).getLast? = some last ∧ last.es = true
  | .assemble ptr stop buffer length size => ∃ done rest last, L.hand = some (done, rest) ∧
      stop = slot ptr rest.length ∧ (done ++ rest).getLast? = some last ∧ last.es = false ∧
        buffer = done.flatMap (·.bytes) ∧ length = buffer.length ∧ size = last.acc ∧
        s.rxTime = last.time

/-- The invariant of the receive ring. -/
structure RxInv (h : RxHistory) (s : Rx) (L : RxLayout) : Prop where
  reception : reception h = ⟨L.frames, L.current⟩
  whole : ∀ f ∈ L.frames, Whole f
  part : Part L.current
  span : Span (RxHolds s) s.base L.cells
  size : L.segments.length + L.free = RX_RING_SIZE
  dma : s.dma = slot s.base L.segments.length
  received : s.received = (L.current.flatMap (·.bytes)).length
  segments : s.segments = L.current.length
  agrees : Agrees s L
  fills : outputs Rx.fills h =
    outputs Rx.returns h ++ (List.range L.segments.length).map (slot s.base)
  returns : (outputs Rx.returns h).length = L.processed.flatten.length + L.done.length
  count : processed h = L.processed.length
  handled : handled h = L.processed.filterMap frameCall

theorem rxInv_restart {s : Rx} (hidle : s.loop = .idle) :
    RxInv [] s.restartRx ⟨[], none, [], [], RX_RING_SIZE⟩ where
  reception := rfl
  whole := by simp [RxLayout.frames]
  part := ⟨by simp, trivial, by simp⟩
  span := by
    rw [span_iff]
    intro k c hc
    obtain ⟨-, rfl⟩ : k < RX_RING_SIZE ∧ c = .free := by
      simpa [RxLayout.cells, RxLayout.segments, RxLayout.rest, List.getElem?_replicate, eq_comm]
        using hc
    rfl
  size := rfl
  dma := by
    have hbase : s.restartRx.base = 0 := by simp [Rx.base, Rx.restartRx, Rx.initRx, hidle]
    rw [hbase]
    rfl
  received := rfl
  segments := rfl
  agrees := by simp [Agrees, Rx.restartRx, Rx.initRx, hidle]
  fills := rfl
  returns := rfl
  count := rfl
  handled := rfl

end Gpsdo.Net
