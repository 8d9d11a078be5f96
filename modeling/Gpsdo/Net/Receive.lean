import Gpsdo.Net.RxRing

set_option autoImplicit false

/-! # What the receiver does

Every step keeps the layout of the receive ring; the law of the ring is read off it.
-/

namespace Gpsdo.Net

variable {h : RxHistory} {s s' : Rx} {L : RxLayout}

/-! ## The DMA -/

theorem receive_spec {bytes : List Byte} {last es : Bool} {time : BitVec 32 × BitVec 32}
    (hs : s.receive bytes last es time = some s') :
    (s.rxDesc s.dma).OWN = true ∧ bytes.length ≤ SEGMENT_SIZE ∧
      s.segments + (if last then 1 else 2) ≤ 127 ∧ (last → 14 ≤ s.received + bytes.length) ∧
      s'.base = s.base ∧ s'.loop = s.loop ∧ s'.rxTime = s.rxTime ∧ s'.dma = s.dma + 1 ∧
      s'.received = (if last then 0 else s.received + bytes.length) ∧
      s'.segments = (if last then 0 else s.segments + 1) ∧
      (∀ i, i ≠ s.dma → s'.rxDesc i = s.rxDesc i ∧ s'.rxBuffer i = s.rxBuffer i) ∧
      RxHolds s' s.dma (.segment ⟨bytes, s.received + bytes.length, last, es, time⟩) := by
  unfold Rx.receive at hs
  obtain ⟨⟨hown, hlen, hsegs, hmin⟩, hs⟩ := Option.ite_none_right_eq_some.mp hs
  obtain rfl := Option.some.inj hs
  refine ⟨hown, hlen, hsegs, hmin, rfl, rfl, rfl, rfl, rfl, rfl,
    fun i hi => ⟨Function.update_of_ne hi _ _, Function.update_of_ne hi _ _⟩, ?_, ?_⟩
  · exact Function.update_self _ _ _
  · simp

/-- The DMA owns the descriptor it looks at only when the ring is not full. -/
theorem RxInv.free_pos (hi : RxInv h s L) (hown : (s.rxDesc s.dma).OWN = true) : 0 < L.free := by
  by_contra hzero
  have hfull : L.segments.length = RX_RING_SIZE := by
    have := hi.size
    omega
  have hbase : s.dma = s.base := by rw [hi.dma, hfull, slot_self]
  have hspan := hi.span
  unfold RxLayout.cells at hspan
  cases hseg : L.segments with
  | nil =>
      rw [hseg] at hfull
      cases hfull
  | cons seg l =>
      rw [hseg] at hspan
      obtain ⟨⟨hdesc, -⟩, -⟩ := hspan
      rw [hbase, hdesc] at hown
      cases hown

/-- A segment comes in. -/
def RxLayout.push (L : RxLayout) (seg : RxSegment) : RxLayout :=
  if seg.last then
    { L with waiting := L.waiting ++ [L.current ++ [seg]], current := [], free := L.free - 1 }
  else { L with current := L.current ++ [seg], free := L.free - 1 }

theorem RxLayout.push_spec (L : RxLayout) (seg : RxSegment) :
    (L.push seg).segments = L.segments ++ [seg] ∧ (L.push seg).free = L.free - 1 ∧
      (L.push seg).hand = L.hand ∧ (L.push seg).processed = L.processed := by
  unfold RxLayout.push
  split <;> simp [RxLayout.segments, RxLayout.rest]

theorem RxLayout.push_frames (L : RxLayout) (seg : RxSegment) :
    (⟨(L.push seg).frames, (L.push seg).current⟩ : Reception) =
      Reception.push ⟨L.frames, L.current⟩ seg := by
  unfold RxLayout.push Reception.push
  split <;> simp [RxLayout.frames]

theorem RxInv.receive (hi : RxInv h s L) {bytes : List Byte} {last es : Bool}
    {time : BitVec 32 × BitVec 32} (hs : s.receive bytes last es time = some s') :
    ∃ L', RxInv ((s, .receive bytes last es time) :: h) s' L' := by
  obtain ⟨hown, hlen, hsegs, hmin, hbase, hloop, htime, hdma, hreceived, hcount, hsame, hnew⟩ :=
    receive_spec hs
  have hfree := hi.free_pos hown
  have hsize := hi.size
  generalize hseg : (⟨bytes, s.received + bytes.length, last, es, time⟩ : RxSegment) = seg at *
  have hlast : seg.last = last := by rw [← hseg]
  have hacc : seg.acc = s.received + bytes.length := by rw [← hseg]
  have hbytes : seg.bytes = bytes := by rw [← hseg]
  have hreceives : Rx.receives s (.receive bytes last es time) = [seg] := by rw [← hseg]; rfl
  obtain ⟨hpush, hpfree, hhand, hproc⟩ := L.push_spec seg
  have hframes := L.push_frames seg
  have hcounts : Counts 0 (L.current ++ [seg]) := by
    refine counts_append.mpr ⟨hi.part.counts, ?_, ?_, trivial⟩
    · rw [hacc, hi.received, hbytes, Nat.zero_add]
    · rw [hbytes]
      exact hlen
  have hslot : s.dma = slot s.base (L.segments.map RxCell.segment).length := by
    rw [List.length_map, hi.dma]
  have hspan : Span (RxHolds s') s.base (L.segments.map .segment ++
      RxCell.segment seg :: List.replicate (L.free - 1) .free) := by
    have hold : Span (RxHolds s) s.base (L.segments.map .segment ++
        RxCell.free :: List.replicate (L.free - 1) .free) := by
      have hspan := hi.span
      unfold RxLayout.cells at hspan
      rwa [show L.free = L.free - 1 + 1 by omega, List.replicate_succ] at hspan
    refine hold.replace ?_ (hslot ▸ hnew) fun q c hq hc => ?_
    · rw [List.length_map, List.length_replicate]
      omega
    · rw [← hslot] at hq
      exact hc.congr (hsame q hq).1 (hsame q hq).2
  refine ⟨L.push seg, ?_⟩
  have hrest : (L.push seg).rest = L.rest ∧ (L.push seg).done = L.done := by
    simp [RxLayout.rest, RxLayout.done, hhand]
  exact
    { reception := by
        rw [Net.reception, outputs_cons, hreceives, List.foldl_append, ← Net.reception,
          hi.reception, hframes]
        rfl
      whole := by
        intro f hf
        rw [show (L.push seg).frames = (Reception.push ⟨L.frames, L.current⟩ seg).frames by
          rw [← hframes]] at hf
        unfold Reception.push at hf
        split at hf <;> rename_i hl
        · rcases List.mem_append.mp hf with hf | hf
          · exact hi.whole f hf
          · obtain rfl := List.mem_singleton.mp hf
            exact hi.part.whole hl hcounts (by rw [hacc]; exact hmin (hlast ▸ hl))
        · exact hi.whole f hf
      part := by
        unfold RxLayout.push
        split <;> rename_i hl
        · exact ⟨by simp, trivial, by simp⟩
        · refine ⟨fun x hx => ?_, hcounts, ?_⟩
          · rcases List.mem_append.mp hx with hx | hx
            · exact hi.part.more x hx
            · obtain rfl := List.mem_singleton.mp hx
              exact Bool.eq_false_of_not_eq_true hl
          · rw [hi.segments, if_neg (hlast ▸ hl)] at hsegs
            rw [List.length_append, List.length_singleton]
            omega
      span := by
        rw [hbase, RxLayout.cells, hpush, hpfree, List.map_append, List.append_assoc]
        exact hspan
      size := by
        rw [hpush, hpfree, List.length_append, List.length_singleton]
        omega
      dma := by
        rw [hdma, hbase, hi.dma, hpush, slot_add_one, List.length_append, List.length_singleton]
      received := by
        rw [hreceived, hi.received, ← hlast]
        unfold RxLayout.push
        split <;> simp [hbytes]
      segments := by
        rw [hcount, hi.segments, ← hlast]
        unfold RxLayout.push
        split <;> simp
      agrees := by
        have hagrees := hi.agrees
        unfold Agrees at hagrees ⊢
        rw [hloop, htime, hhand]
        exact hagrees
      fills := by
        rw [outputs_cons, outputs_cons, hi.fills, hpush, List.length_append, List.length_singleton,
          List.range_succ, List.map_append, hbase]
        simp [Rx.fills, Rx.returns, hi.dma]
      returns := by
        rw [hproc, hrest.2, outputs_cons]
        simpa [Rx.returns] using hi.returns
      count := by
        rw [hproc]
        simpa [Net.processed, Rx.finishes] using hi.count
      handled := by
        rw [hproc]
        simpa [Net.handled, Rx.calls] using hi.handled }

/-! ## Finding a frame -/

/-- **What the scan finds**: the end of the oldest frame that waits, if there is one. -/
theorem RxInv.scan_eq (hi : RxInv h s L) (hidle : s.loop = .idle) :
    (L.waiting = [] ∧ s.scan RX_RING_SIZE s.rxTail = some none) ∨
      ∃ f ws last, L.waiting = f :: ws ∧ f.getLast? = some last ∧
        s.scan RX_RING_SIZE s.rxTail = some (some (slot s.rxTail (f.length - 1))) ∧
        s.rxDesc (slot s.rxTail (f.length - 1)) =
          ⟨false, true, last.es, last.acc, last.time.1, last.time.2⟩ := by
  have hhand : L.hand = none := by simpa [Agrees, hidle] using hi.agrees
  have hbase : s.base = s.rxTail := by simp [Rx.base, hidle]
  have hspan := hi.span
  have hsize := hi.size
  rw [hbase] at hspan
  unfold RxLayout.cells RxLayout.segments RxLayout.rest at hspan
  rw [hhand] at hspan
  unfold RxLayout.segments RxLayout.rest at hsize
  rw [hhand] at hsize
  cases hw : L.waiting with
  | nil =>
      refine Or.inl ⟨rfl, ?_⟩
      rw [hw] at hspan hsize
      have hshort := hi.part.short
      simp only [Option.map_none, Option.getD_none, List.flatten_nil, List.nil_append] at hspan hsize
      obtain ⟨hcurrent, hfree⟩ := span_append.mp hspan
      obtain ⟨m, hm⟩ : ∃ m, L.free = m + 1 := by
        have hring : L.current.length + L.free = 128 := hsize
        exact ⟨L.free - 1, by omega⟩
      rw [List.length_map, hm, List.replicate_succ] at hfree
      have hown : (s.rxDesc (slot s.rxTail L.current.length)).OWN = true := hfree.1
      have hfuel : RX_RING_SIZE - L.current.length = m + 1 := by omega
      rw [scan_more s (by omega) hcurrent hi.part.more, hfuel, Rx.scan, if_pos hown]
  | cons f ws =>
      obtain ⟨init, last, rfl, hmore, hlast, -⟩ :=
        (hi.whole f (by simp [RxLayout.frames, hw])).ends
      rw [hw] at hspan hsize
      have hf : Span (RxHolds s) s.rxTail (init.map .segment ++ [RxCell.segment last]) := by
        simp only [Option.map_none, Option.getD_none, List.nil_append, List.flatten_cons,
          List.map_append, List.append_assoc] at hspan
        rw [← List.append_assoc] at hspan
        exact (span_append.mp hspan).1
      obtain ⟨hinit, ⟨hdesc, -⟩, -⟩ := span_append.mp hf
      rw [List.length_map, hlast] at hdesc
      refine Or.inr ⟨_, ws, last, rfl, List.getLast?_concat, ?_, ?_⟩
      · have hlen : init.length < RX_RING_SIZE := by
          simp at hsize
          omega
        obtain ⟨m, hm⟩ : ∃ m, RX_RING_SIZE - init.length = m + 1 :=
          ⟨RX_RING_SIZE - init.length - 1, by omega⟩
        rw [scan_more s (by omega) hinit hmore, hm, Rx.scan, hdesc]
        simp
      · simpa using hdesc

theorem RxInv.processFrameRx (hi : RxInv h s L) (hidle : s.loop = .idle)
    (hs : s.processFrameRx = some s') :
    ∃ L', RxInv ((s, .processFrameRx) :: h) s' L' := by
  have hhand : L.hand = none := by simpa [Agrees, hidle] using hi.agrees
  have hbase : s.base = s.rxTail := by simp [Rx.base, hidle]
  unfold Rx.processFrameRx at hs
  rcases hi.scan_eq hidle with ⟨-, hscan⟩ | ⟨f, ws, last, hw, hlast, hscan, hdesc⟩
  · rw [hscan] at hs
    obtain rfl := Option.some.inj hs
    refine ⟨L, ?_⟩
    exact
      { hi with
        reception := by simpa [Net.reception, Rx.receives] using hi.reception
        fills := by simpa [Rx.fills, Rx.returns] using hi.fills
        returns := by simpa [Rx.returns] using hi.returns
        count := by simpa [Net.processed, Rx.finishes] using hi.count
        handled := by simpa [Net.handled, Rx.calls] using hi.handled }
  · rw [hscan] at hs
    obtain rfl := Option.some.inj hs
    have hpos := List.length_pos_iff.mpr (hi.whole f (by simp [RxLayout.frames, hw])).ne_nil
    have hstop : slot s.rxTail (f.length - 1) + 1 = slot s.rxTail f.length := by
      rw [slot_add_one, Nat.sub_add_cancel hpos]
    dsimp only
    rw [hdesc, hstop]
    dsimp only
    -- only the loop and the time stamp differ
    generalize hs' : (if last.es = true then _ else _ : Rx) = s'
    have hframe : s'.base = s.base ∧ s'.rxDesc = s.rxDesc ∧ s'.rxBuffer = s.rxBuffer ∧
        s'.dma = s.dma ∧ s'.received = s.received ∧ s'.segments = s.segments := by
      rw [← hs', hbase]
      split <;> exact ⟨rfl, rfl, rfl, rfl, rfl, rfl⟩
    obtain ⟨hb, hd, hbuf, hdma, hrec, hseg⟩ := hframe
    have hsegments : L.segments =
        RxLayout.segments { L with hand := some ([], f), waiting := ws } := by
      simp [RxLayout.segments, RxLayout.rest, hhand, hw]
    have hframes : L.frames = RxLayout.frames { L with hand := some ([], f), waiting := ws } := by
      simp [RxLayout.frames, hhand, hw]
    refine ⟨{ L with hand := some ([], f), waiting := ws }, ?_⟩
    exact
      { reception := by
          rw [← hframes]
          simpa [Net.reception, Rx.receives] using hi.reception
        whole := hframes ▸ hi.whole
        part := hi.part
        span := by
          rw [hb, RxLayout.cells, ← hsegments]
          exact hi.span.imp fun k c _ hc => hc.congr (by rw [hd]) (by rw [hbuf])
        size := hsegments ▸ hi.size
        dma := by rw [hdma, hb, ← hsegments, hi.dma]
        received := by rw [hrec, hi.received]
        segments := by rw [hseg, hi.segments]
        agrees := by
          rw [← hs']
          unfold Agrees
          by_cases hes : last.es = true
          · rw [if_pos hes]
            exact ⟨[], f, last, rfl, rfl, hlast, hes⟩
          · rw [if_neg hes]
            exact ⟨[], f, last, rfl, rfl, hlast, Bool.eq_false_of_not_eq_true hes, rfl, rfl, rfl, rfl⟩
        fills := by
          rw [hb, ← hsegments]
          simpa [Rx.fills, Rx.returns] using hi.fills
        returns := by simpa [Rx.returns, RxLayout.done, hhand] using hi.returns
        count := by simpa [Net.processed, Rx.finishes] using hi.count
        handled := by simpa [Net.handled, Rx.calls] using hi.handled }

/-! ## Returning the descriptors -/

/-- The loops stop where the frame ends. -/
theorem RxInv.stop_iff (hi : RxInv h s L) {done rest : List RxSegment}
    (hhand : L.hand = some (done, rest)) {ptr : Fin RX_RING_SIZE} :
    ptr = slot ptr rest.length ↔ rest = [] := by
  have hshort := (hi.whole (done ++ rest) (by simp [RxLayout.frames, hhand])).short
  rw [List.length_append] at hshort
  constructor
  · intro heq
    have hlen : rest.length < 128 := by omega
    have := slot_inj (p := ptr) (j := 0) (by decide) hlen (by simpa using heq)
    exact List.length_eq_zero_iff.mp this.symm
  · rintro rfl
    simp

/-- A descriptor is returned. -/
theorem RxInv.restore (hi : RxInv h s L) {done rest : List RxSegment} {seg : RxSegment}
    (hhand : L.hand = some (done, seg :: rest)) (hbase : s'.base = s.base + 1)
    (hown : (s'.rxDesc s.base).OWN = true)
    (hdesc : ∀ i, i ≠ s.base → s'.rxDesc i = s.rxDesc i) (hbuffer : s'.rxBuffer = s.rxBuffer)
    (hdma : s'.dma = s.dma) (hreceived : s'.received = s.received)
    (hsegments : s'.segments = s.segments) (hreturns : s.returns .turn = [s.base])
    (hfinishes : s.finishes .turn = false) (hcalls : s.calls .turn = [])
    (hagrees : Agrees s' { L with hand := some (done ++ [seg], rest), free := L.free + 1 }) :
    RxInv ((s, .turn) :: h) s'
      { L with hand := some (done ++ [seg], rest), free := L.free + 1 } := by
  generalize hL' : ({ L with hand := some (done ++ [seg], rest), free := L.free + 1 } : RxLayout) =
    L' at *
  have hseg : L.segments = seg :: L'.segments := by
    rw [← hL']
    simp [RxLayout.segments, RxLayout.rest, hhand]
  have hlen : L.segments.length = L'.segments.length + 1 := by rw [hseg, List.length_cons]
  have hframes : L'.frames = L.frames := by
    rw [← hL']
    simp [RxLayout.frames, hhand]
  have hfree : L'.free = L.free + 1 := by rw [← hL']
  have hsize := hi.size
  have hspan : Span (RxHolds s) s.base
      ([RxCell.segment seg] ++ (L'.segments.map .segment ++ List.replicate L.free .free)) := by
    simpa [RxLayout.cells, hseg] using hi.span
  -- the returned descriptor comes last
  have hrotate := hspan.rotate (by
    simp only [List.length_append, List.length_map, List.length_replicate, List.length_singleton]
    omega)
  obtain ⟨hrest, -⟩ := span_append.mp hrotate
  rw [List.length_singleton, slot_one] at hrest
  have hlast : slot (s.base + 1) (L'.segments.map RxCell.segment ++
      List.replicate L.free RxCell.free).length = s.base := by
    rw [slot_succ, List.length_append, List.length_map, List.length_replicate,
      show L'.segments.length + L.free + 1 = RX_RING_SIZE by omega, slot_self]
  exact
    { reception := by
        rw [hframes, ← hL']
        simpa [Net.reception, Rx.receives] using hi.reception
      whole := hframes ▸ hi.whole
      part := by
        rw [← hL']
        exact hi.part
      span := by
        rw [hbase, RxLayout.cells, hfree, List.replicate_succ', ← List.append_assoc]
        refine span_append.mpr ⟨hrest.imp fun k c hk hc => hc.congr (hdesc _ fun heq => ?_)
          (by rw [hbuffer]), ?_, trivial⟩
        · have hklen := (List.getElem?_eq_some_iff.mp hk).1
          rw [List.length_append, List.length_map, List.length_replicate] at hklen
          rw [slot_succ] at heq
          have := slot_inj (p := s.base) (j := k + 1) (k := 0) (by omega) (by decide)
            (by simpa using heq)
          omega
        · rw [hlast]
          exact hown
      size := by omega
      dma := by rw [hdma, hi.dma, hbase, slot_succ, hlen]
      received := by
        rw [hreceived, hi.received, ← hL']
      segments := by
        rw [hsegments, hi.segments, ← hL']
      agrees := hagrees
      fills := by
        rw [outputs_cons, outputs_cons, hreturns, hi.fills, hlen, List.range_succ_eq_map, hbase]
        simp [Rx.fills, Function.comp_def, slot_succ]
      returns := by
        rw [outputs_cons, hreturns, List.length_append, hi.returns, ← hL']
        simp [RxLayout.done, hhand, Nat.add_assoc]
      count := by
        rw [← hL']
        simpa [Net.processed, hfinishes] using hi.count
      handled := by
        rw [← hL']
        simpa [Net.handled, hcalls] using hi.handled }

/-- A frame is finished. -/
theorem RxInv.finish (hi : RxInv h s L) {done : List RxSegment} (hhand : L.hand = some (done, []))
    (hloop : s'.loop = .idle) (hbase : s'.base = s.base) (hdesc : s'.rxDesc = s.rxDesc)
    (hbuffer : s'.rxBuffer = s.rxBuffer) (hdma : s'.dma = s.dma)
    (hreceived : s'.received = s.received) (hsegments : s'.segments = s.segments)
    (hreturns : s.returns .turn = []) (hfinishes : s.finishes .turn = true)
    (hcalls : s.calls .turn = (frameCall done).toList) :
    RxInv ((s, .turn) :: h) s' { L with processed := L.processed ++ [done], hand := none } := by
  generalize hL' : ({ L with processed := L.processed ++ [done], hand := none } : RxLayout) =
    L' at *
  have hseg : L'.segments = L.segments := by
    rw [← hL']
    simp [RxLayout.segments, RxLayout.rest, hhand]
  have hframes : L'.frames = L.frames := by
    rw [← hL']
    simp [RxLayout.frames, hhand]
  exact
    { reception := by
        rw [hframes, ← hL']
        simpa [Net.reception, Rx.receives] using hi.reception
      whole := hframes ▸ hi.whole
      part := by
        rw [← hL']
        exact hi.part
      span := by
        rw [hbase, RxLayout.cells, hseg, ← hL']
        exact hi.span.imp fun k c _ hc => hc.congr (by rw [hdesc]) (by rw [hbuffer])
      size := by
        rw [hseg, ← hL']
        exact hi.size
      dma := by rw [hdma, hi.dma, hbase, hseg]
      received := by
        rw [hreceived, hi.received, ← hL']
      segments := by
        rw [hsegments, hi.segments, ← hL']
      agrees := by
        rw [← hL']
        simp [Agrees, hloop]
      fills := by
        rw [outputs_cons, outputs_cons, hreturns, hi.fills, hseg, hbase]
        simp [Rx.fills]
      returns := by
        rw [outputs_cons, hreturns, List.append_nil, hi.returns, ← hL']
        simp [RxLayout.done, hhand]
      count := by
        rw [← hL']
        simpa [Net.processed, List.countP_cons, hfinishes] using hi.count
      handled := by
        rw [Net.handled, outputs_cons, ← Net.handled, hi.handled, hcalls, ← hL']
        cases hf : frameCall done <;> simp [hf] }

theorem frameCall_eq {f : List RxSegment} {last : RxSegment} (hlast : f.getLast? = some last) :
    frameCall f = if last.es then none
      else dispatch (f.flatMap (·.bytes)) (f.flatMap (·.bytes)).length last.time := by
  rw [frameCall, hlast, Option.bind_some]

/-- The segment that the copying loop looks at. -/
theorem RxInv.next (hi : RxInv h s L) {done rest : List RxSegment} {seg : RxSegment}
    (hhand : L.hand = some (done, seg :: rest)) :
    RxHolds s s.base (.segment seg) ∧
      seg.acc = (done.flatMap (·.bytes)).length + seg.bytes.length ∧
      seg.bytes.length ≤ SEGMENT_SIZE := by
  have hspan := hi.span
  unfold RxLayout.cells RxLayout.segments RxLayout.rest at hspan
  rw [hhand] at hspan
  have hcounts := (hi.whole (done ++ seg :: rest) (by simp [RxLayout.frames, hhand])).counts
  obtain ⟨-, hacc, hlen, -⟩ := counts_append.mp hcounts
  rw [Nat.zero_add] at hacc
  exact ⟨hspan.1, hacc, hlen⟩

theorem RxInv.turn (hi : RxInv h s L) (hs : s.turn = some s') :
    ∃ L', RxInv ((s, .turn) :: h) s' L' := by
  have hagrees := hi.agrees
  unfold Agrees at hagrees
  unfold Rx.turn at hs
  cases hloop : s.loop with
  | idle =>
      rw [hloop] at hs
      cases hs
  | discard ptr stop =>
      rw [hloop] at hs hagrees
      obtain ⟨done, rest, last, hhand, rfl, hlast, hes⟩ := hagrees
      have hbase : s.base = ptr := by rw [Rx.base, hloop]
      dsimp only at hs
      cases rest with
      | nil =>
          rw [if_pos ((hi.stop_iff hhand).mpr rfl)] at hs
          obtain rfl := Option.some.inj hs
          rw [List.append_nil] at hlast
          refine ⟨_, hi.finish hhand rfl hbase.symm rfl rfl rfl rfl rfl ?_ ?_ ?_⟩
          · simp [Rx.returns, hloop]
          · simp [Rx.finishes, hloop]
          · simp [Rx.calls, hloop, frameCall_eq hlast, hes]
      | cons seg rest =>
          have hne : ¬ ptr = slot ptr (seg :: rest).length := by
            rw [hi.stop_iff hhand]
            exact List.cons_ne_nil _ _
          rw [if_neg hne] at hs
          obtain rfl := Option.some.inj hs
          refine ⟨_, hi.restore hhand (by rw [hbase]; rfl) ?_ (fun i hi => ?_) rfl rfl rfl rfl
            ?_ ?_ ?_ ⟨done ++ [seg], rest, last, rfl, ?_, by simpa using hlast, hes⟩⟩
          · simp [Rx.restore, hbase]
          · rw [hbase] at hi
            exact Function.update_of_ne hi _ _
          · simp only [Rx.returns, hloop, if_neg hne, hbase]
          · simp only [Rx.finishes, hloop, hne, decide_false]
          · simp [Rx.calls, hloop]
          · rw [slot_succ, List.length_cons]
  | assemble ptr stop buffer length size =>
      rw [hloop] at hs hagrees
      obtain ⟨done, rest, last, hhand, rfl, hlast, hes, rfl, rfl, rfl, htime⟩ := hagrees
      have hbase : s.base = ptr := by rw [Rx.base, hloop]
      dsimp only at hs
      cases rest with
      | nil =>
          rw [if_pos ((hi.stop_iff hhand).mpr rfl)] at hs
          obtain rfl := Option.some.inj hs
          rw [List.append_nil] at hlast
          refine ⟨_, hi.finish hhand rfl hbase.symm rfl rfl rfl rfl rfl ?_ ?_ ?_⟩
          · simp [Rx.returns, hloop]
          · simp [Rx.finishes, hloop]
          · simp [Rx.calls, hloop, frameCall_eq hlast, hes, htime]
      | cons seg rest =>
          have hne : ¬ ptr = slot ptr (seg :: rest).length := by
            rw [hi.stop_iff hhand]
            exact List.cons_ne_nil _ _
          rw [if_neg hne] at hs
          obtain rfl := Option.some.inj hs
          obtain ⟨⟨hdesc, hbytes⟩, hacc, -⟩ := hi.next hhand
          rw [hbase] at hdesc hbytes
          have hcopy : (s.rxBuffer ptr).take (seg.acc - (done.flatMap (·.bytes)).length) =
              seg.bytes := by rw [hacc, Nat.add_sub_cancel_left, hbytes]
          refine ⟨_, hi.restore hhand (by rw [hbase]; rfl) ?_ (fun i hi => ?_) rfl rfl rfl rfl
            ?_ ?_ ?_ ⟨done ++ [seg], rest, last, rfl, ?_, by simpa using hlast, hes, ?_, ?_, rfl,
              htime⟩⟩
          · simp [Rx.restore, hbase]
          · rw [hbase] at hi
            exact Function.update_of_ne hi _ _
          · simp only [Rx.returns, hloop, if_neg hne, hbase]
          · simp only [Rx.finishes, hloop, hne, decide_false]
          · simp only [Rx.calls, hloop, if_neg hne]
          · rw [slot_succ, List.length_cons]
          · rw [hdesc, hcopy]
            simp
          · rw [hdesc, hcopy, hacc]
            simp

end Gpsdo.Net
