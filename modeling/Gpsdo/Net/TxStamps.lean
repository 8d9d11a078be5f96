import Gpsdo.Net.Delivery

set_option autoImplicit false

/-! # The time stamps of the transmitter

The DMA writes a time stamp into every descriptor that it is done with. `processFrameTx` copies the
one of the last segment of a frame to `txTime` before it makes the callback of the frame, which
reads it by `network::getTxTime`. A callback gets the stamp of its own frame in every interleaving:
the stamps stay in the slots of the segments until the frame is reclaimed.
-/

namespace Gpsdo.Net

variable {h : TxHistory} {s s' : Tx} {L : Layout}

/-! ## What a run did -/

/-- The time at which a step sends the last segment of a frame. -/
def Tx.frameTime (s : Tx) : TxAction → List (BitVec 32 × BitVec 32)
  | .complete _ time => (s.send.toList.filter (·.last)).map fun _ => time
  | _ => []

/-- The times at which the frames went out, in their order. -/
def frameTimes (h : TxHistory) : List (BitVec 32 × BitVec 32) := outputs Tx.frameTime h

/-- The callback that a step makes, and `txTime` while it runs. -/
def Tx.stampedCall (s : Tx) : TxAction → List (Tx.TxCall × (BitVec 32 × BitVec 32))
  | .processFrameTx => s.processFrameTx.2.2.toList.map fun c => (c, s.processFrameTx.1.txTime)
  | _ => []

/-- The callbacks that were made, each with `txTime` while it ran. -/
def stampedCalls (h : TxHistory) : List (Tx.TxCall × (BitVec 32 × BitVec 32)) :=
  outputs Tx.stampedCall h

/-- The call that a frame gets when it is reclaimed, with the time at which it went out. -/
def Submission.stampedCall (p : Submission × (BitVec 32 × BitVec 32)) :
    Option (Tx.TxCall × (BitVec 32 × BitVec 32)) :=
  p.1.call.map fun c => (c, p.2)

/-! ## The layout, from the history -/

def reclaimedFrames (h : TxHistory) : List Submission := (accepted h).take (reclaimed h)

/-- The segments on the ring that are out. -/
def doneSegments (h : TxHistory) : List Segment :=
  (onRing h).take
    ((outputs Tx.sends h).length - ((reclaimedFrames h).flatMap Submission.segments).length)

theorem TxInv.reclaimedFrames_eq (hi : TxInv h s L) : reclaimedFrames h = L.reclaimed := by
  rw [reclaimedFrames, hi.accepted, hi.count, List.take_left]

theorem TxInv.sends_length (hi : TxInv h s L) : (outputs Tx.sends h).length =
    (L.reclaimed.flatMap Submission.segments).length + L.done.length := by
  rw [hi.sent, List.length_map, List.length_append]

theorem TxInv.doneSegments_eq (hi : TxInv h s L) : doneSegments h = L.done := by
  rw [doneSegments, hi.reclaimedFrames_eq, hi.sends_length, Nat.add_sub_cancel_left, hi.onRing_eq,
    hi.segments, List.take_left]

/-! ## Stamps of segments -/

/-- The descriptor of a slot has the time stamp. -/
def Stamped (s : Tx) (i : Fin TX_RING_SIZE) (time : BitVec 32 × BitVec 32) : Prop :=
  ((s.txDesc i).TTSL, (s.txDesc i).TTSH) = time

/-- The times of the segments that end a frame. -/
def endTimes (segs : List Segment) (times : List (BitVec 32 × BitVec 32)) :
    List (BitVec 32 × BitVec 32) :=
  ((segs.zip times).filter (·.1.last)).map Prod.snd

theorem endTimes_append {segs segs' : List Segment} {times times' : List (BitVec 32 × BitVec 32)}
    (hlen : segs.length = times.length) :
    endTimes (segs ++ segs') (times ++ times') = endTimes segs times ++ endTimes segs' times' := by
  rw [endTimes, List.zip_append hlen, List.filter_append, List.map_append]
  rfl

theorem endTimes_singleton (seg : Segment) (time : BitVec 32 × BitVec 32) :
    endTimes [seg] [time] = if seg.last then [time] else [] := by
  cases hlast : seg.last <;> simp [endTimes, hlast]

/-- A frame ends with its last segment. -/
theorem endTimes_flagged (sub : Submission) {first : Bool} {bs : List (List Byte)} (hbs : bs ≠ [])
    {times : List (BitVec 32 × BitVec 32)} (hlen : times.length = bs.length) :
    ∃ time, times[bs.length - 1]? = some time ∧
      endTimes (flagged sub first bs) times = [time] := by
  induction first, bs using flagged.induct generalizing times with
  | case1 first => exact absurd rfl hbs
  | case2 first b =>
      obtain ⟨time, rfl⟩ := List.length_eq_one_iff.mp hlen
      exact ⟨time, rfl, endTimes_singleton _ time⟩
  | case3 first b b' bs ih =>
      cases times with
      | nil => cases hlen
      | cons t times =>
          obtain ⟨time, hget, htimes⟩ := ih (by simp) (by simpa using hlen)
          refine ⟨time, by simpa using hget, ?_⟩
          rw [← htimes]
          rfl

theorem endTimes_segments (sub : Submission) {times : List (BitVec 32 × BitVec 32)}
    (hlen : times.length = sub.segments.length) :
    ∃ time, times[sub.segments.length - 1]? = some time ∧ endTimes sub.segments times = [time] := by
  have hcount : sub.segments.length = (chunks sub.bytes.length sub.bytes).length :=
    length_flagged _ _ _
  rw [hcount] at hlen ⊢
  exact endTimes_flagged sub (chunks_ne_nil _ _) hlen

/-! ## The invariant -/

/-- The times of the frames that are reclaimed, and of the segments on the ring that are out. -/
structure StampInv (h : TxHistory) (s : Tx) (old new : List (BitVec 32 × BitVec 32)) : Prop where
  times : frameTimes h = old ++ endTimes (doneSegments h) new
  old_length : old.length = (reclaimedFrames h).length
  new_length : new.length = (doneSegments h).length
  span : Span (Stamped s) s.txTail new
  called : stampedCalls h = ((reclaimedFrames h).zip old).filterMap Submission.stampedCall

variable {old new : List (BitVec 32 × BitVec 32)}

theorem stampInv_init : StampInv [] Tx.init [] [] := ⟨rfl, rfl, rfl, trivial, rfl⟩

/-- A step that changes no slot with a stamp. -/
theorem StampInv.keep (hi : StampInv h s old new) {a : TxAction} (htimes : s.frameTime a = [])
    (hcalls : s.stampedCall a = []) (hdone : doneSegments ((s, a) :: h) = doneSegments h)
    (hreclaimed : reclaimedFrames ((s, a) :: h) = reclaimedFrames h) (htail : s'.txTail = s.txTail)
    (hsame : ∀ k < (doneSegments h).length,
      (s'.txDesc (slot s.txTail k)).TTSL = (s.txDesc (slot s.txTail k)).TTSL ∧
        (s'.txDesc (slot s.txTail k)).TTSH = (s.txDesc (slot s.txTail k)).TTSH) :
    StampInv ((s, a) :: h) s' old new where
  times := by
    rw [hdone, ← hi.times]
    exact outputs_cons_of_nil htimes h
  old_length := by rw [hreclaimed, hi.old_length]
  new_length := by rw [hdone, hi.new_length]
  span := by
    rw [htail]
    refine hi.span.imp fun k time hk hstamp => ?_
    have hlt := (List.getElem?_eq_some_iff.mp hk).1
    rw [hi.new_length] at hlt
    obtain ⟨hlo, hhi⟩ := hsame k hlt
    unfold Stamped at hstamp ⊢
    rw [hlo, hhi, hstamp]
  called := by
    rw [hreclaimed, ← hi.called]
    exact outputs_cons_of_nil hcalls h

/-! ## Steps -/

theorem TxInv.doneSegments_le (hi : TxInv h s L) : (doneSegments h).length ≤ (onRing h).length := by
  rw [hi.doneSegments_eq, hi.onRing_eq, hi.segments, List.length_append]
  exact Nat.le_add_right _ _

theorem TxInv.transmit_txTail (hi : TxInv h s L) {frame : List Byte} (hpos : frame ≠ [])
    (callback : Option Addr) (ref : Addr) :
    (s.transmit frame callback ref).1.txTail = s.txTail := by
  have heq := transmit_eq s ⟨frame, callback, ref⟩ hpos
  rw [hi.free_slots] at heq
  dsimp only at heq
  have hlen := hi.length_segments
  split_ifs at heq with hmtu hfull
  · rw [heq]
  · rw [heq]
  · rw [heq]
    have hfree := hi.free
    exact (submit_spec s ⟨frame, callback, ref⟩ (by omega)).1

theorem StampInv.transmit (hs : StampInv h s old new) (hi : TxInv h s L) {frame : List Byte}
    (hpos : frame ≠ []) (callback : Option Addr) (ref : Addr) :
    StampInv ((s, .transmit frame callback ref) :: h) (s.transmit frame callback ref).1 old
      new := by
  have haccepted : accepted ((s, .transmit frame callback ref) :: h) =
      accepted h ++ Tx.accepts s (.transmit frame callback ref) := rfl
  have hcount : reclaimed ((s, .transmit frame callback ref) :: h) = reclaimed h :=
    reclaimed_cons_of_false rfl h
  have hle : reclaimed h ≤ (accepted h).length := by
    rw [hi.count, hi.accepted, List.length_append]
    exact Nat.le_add_right _ _
  have hreclaimed : reclaimedFrames ((s, .transmit frame callback ref) :: h) =
      reclaimedFrames h := by
    unfold reclaimedFrames
    rw [haccepted, hcount, List.take_append_of_le_length hle]
  have hring : onRing ((s, .transmit frame callback ref) :: h) =
      onRing h ++ (Tx.accepts s (.transmit frame callback ref)).flatMap Submission.segments := by
    unfold onRing
    rw [haccepted, hcount, List.drop_append_of_le_length hle, List.flatMap_append]
  have hdone : doneSegments ((s, .transmit frame callback ref) :: h) = doneSegments h := by
    have hsends : outputs Tx.sends ((s, .transmit frame callback ref) :: h) = outputs Tx.sends h :=
      outputs_cons_of_nil rfl h
    unfold doneSegments
    rw [hsends, hreclaimed, hring, List.take_append_of_le_length]
    rw [hi.reclaimedFrames_eq, hi.sends_length, Nat.add_sub_cancel_left, hi.onRing_eq, hi.segments,
      List.length_append]
    exact Nat.le_add_right _ _
  refine hs.keep rfl rfl hdone hreclaimed (hi.transmit_txTail hpos callback ref) fun k hk => ?_
  have hsame := hi.transmit_same hpos callback ref (hk.trans_le hi.doneSegments_le)
  rw [hsame.1]
  exact ⟨rfl, rfl⟩

theorem StampInv.mark (hs : StampInv h s old new) (hm : s.mark = some s') :
    StampInv ((s, .mark) :: h) s' old new := by
  obtain ⟨ptr, head, -, -, htail, -⟩ := mark_spec hm
  have hstamp : ∀ i, (s'.txDesc i).TTSL = (s.txDesc i).TTSL ∧
      (s'.txDesc i).TTSH = (s.txDesc i).TTSH := by
    intro i
    unfold Tx.mark at hm
    split at hm
    · cases hm
    · rename_i ptr head _
      obtain rfl := Option.some.inj hm
      by_cases hi : i = ptr - 1
      · subst hi
        simp [Tx.setFlags, Tx.setDesc]
      · simp [Tx.setFlags, Tx.setDesc, hi]
  have hkeep : accepted ((s, .mark) :: h) = accepted h := outputs_cons_of_nil rfl h
  have hcount : reclaimed ((s, .mark) :: h) = reclaimed h := reclaimed_cons_of_false rfl h
  have hsends : outputs Tx.sends ((s, .mark) :: h) = outputs Tx.sends h := outputs_cons_of_nil rfl h
  have hreclaimed : reclaimedFrames ((s, .mark) :: h) = reclaimedFrames h := by
    rw [reclaimedFrames, hkeep, hcount, reclaimedFrames]
  refine hs.keep rfl rfl ?_ hreclaimed htail fun k _ => hstamp _
  rw [doneSegments, hreclaimed, hsends, onRing, hkeep, hcount]
  rfl

theorem StampInv.complete (hs : StampInv h s old new) (hi : TxInv h s L) {status : BitVec 18}
    {time : BitVec 32 × BitVec 32} (hc : s.complete status time = some s') :
    StampInv ((s, .complete status time) :: h) s' old (new ++ [time]) := by
  obtain ⟨hown, -, htail, -, -, hsame, -⟩ := complete_spec hc
  obtain ⟨seg, pending, hp⟩ := hi.pending_of_own hown
  have hspan := hi.span
  unfold Layout.cells at hspan
  rw [hp, List.map_cons, List.cons_append] at hspan
  have hat : Holds s s.dma (.segment true seg) := by
    have := hspan.mid
    rwa [List.length_map, ← hi.dma] at this
  have hsend : Tx.sends s (.complete status time) = [seg.wire] := by simp [Tx.sends, hat.send]
  have htime : s.frameTime (.complete status time) = if seg.last then [time] else [] := by
    cases hlast : seg.last <;> simp [Tx.frameTime, hat.send, Segment.wire, hlast]
  have hkeep : accepted ((s, .complete status time) :: h) = accepted h :=
    outputs_cons_of_nil rfl h
  have hcount : reclaimed ((s, .complete status time) :: h) = reclaimed h :=
    reclaimed_cons_of_false rfl h
  have hreclaimed : reclaimedFrames ((s, .complete status time) :: h) = reclaimedFrames h := by
    rw [reclaimedFrames, hkeep, hcount, reclaimedFrames]
  have hdone : doneSegments ((s, .complete status time) :: h) = doneSegments h ++ [seg] := by
    have hring : onRing ((s, .complete status time) :: h) = onRing h := by
      rw [onRing, hkeep, hcount, onRing]
    rw [hi.doneSegments_eq, doneSegments, hring, hreclaimed, outputs_cons, hsend,
      List.length_append, hi.reclaimedFrames_eq, hi.sends_length, List.length_singleton,
      Nat.add_assoc, Nat.add_sub_cancel_left, hi.onRing_eq, hi.segments, hp, List.cons_append,
      List.append_cons]
    exact List.take_left' (by simp)
  have hlen : s.dma = slot s.txTail new.length := by
    rw [hi.dma, hs.new_length, hi.doneSegments_eq]
  have hbound : new.length < TX_RING_SIZE := by
    have hsize := hi.size
    rw [L.length_cells, hp, List.length_cons] at hsize
    rw [hs.new_length, hi.doneSegments_eq]
    omega
  refine ⟨?_, by rw [hreclaimed, hs.old_length], ?_, ?_, ?_⟩
  · rw [hdone, endTimes_append hs.new_length.symm, endTimes_singleton, ← List.append_assoc,
      ← hs.times, ← htime]
    rfl
  · rw [hdone, List.length_append, List.length_append, hs.new_length]
    rfl
  · rw [htail]
    refine span_append.mpr ⟨hs.span.imp fun k t hk hstamp => ?_, ?_, trivial⟩
    · -- the stamps of the older segments stay
      have hk := (List.getElem?_eq_some_iff.mp hk).1
      have hne : slot s.txTail k ≠ s.dma := by
        rw [hlen]
        intro heq
        have := slot_inj (by omega) hbound heq
        omega
      unfold Stamped at hstamp ⊢
      rw [(hsame _ hne).1, hstamp]
    · rw [← hlen]
      obtain ⟨-, hc⟩ := Option.ite_none_right_eq_some.mp hc
      obtain rfl := Option.some.inj hc
      simp [Stamped, Tx.setDesc]
  · rw [hreclaimed, ← hs.called]
    exact outputs_cons_of_nil rfl h

theorem processFrameTx_txTime {last : Fin TX_RING_SIZE} {size : ℕ} {c : Tx.TxCall}
    (hscan : s.scan TX_RING_SIZE s.txTail 0 = some (last, size))
    (hc : s.processFrameTx.2.2 = some c) : Stamped s last s.processFrameTx.1.txTime := by
  unfold Tx.processFrameTx at hc ⊢
  rw [hscan] at hc ⊢
  dsimp only at hc ⊢
  split at hc
  · cases hc
  · rfl

theorem processFrameTx_txDesc (s : Tx) : s.processFrameTx.1.txDesc = s.txDesc := by
  unfold Tx.processFrameTx
  split
  · rfl
  · dsimp only
    split <;> rfl

theorem StampInv.processFrameTx (hs : StampInv h s old new) (hi : TxInv h s L)
    (hm : s.marking = none) :
    ∃ old' new', StampInv ((s, .processFrameTx) :: h) s.processFrameTx.1 old' new' := by
  have hkeep : accepted ((s, .processFrameTx) :: h) = accepted h := outputs_cons_of_nil rfl h
  have hsends : outputs Tx.sends ((s, .processFrameTx) :: h) = outputs Tx.sends h :=
    outputs_cons_of_nil rfl h
  have hcalls : stampedCalls ((s, .processFrameTx) :: h) = stampedCalls h ++
      s.processFrameTx.2.2.toList.map fun c => (c, s.processFrameTx.1.txTime) := rfl
  rcases hi.scan_eq hm with ⟨f, ws, done, hw, hdone, hrest, hscan⟩ | ⟨hscan, -⟩
  · obtain ⟨-, htail, -, -, -, -, hreclaims, -⟩ := processFrameTx_some hscan
    have hpos : 0 < f.segments.length := by
      rw [Submission.segments, length_flagged]
      exact List.length_pos_iff.mpr (chunks_ne_nil _ _)
    have hcount : reclaimed ((s, .processFrameTx) :: h) = reclaimed h + 1 := by
      rw [reclaimed_cons]
      show _ + (if s.processFrameTx.2.1 = true then 1 else 0) = _
      rw [if_pos hreclaims]
    have hreclaimed : reclaimedFrames ((s, .processFrameTx) :: h) = L.reclaimed ++ [f] := by
      rw [reclaimedFrames, hkeep, hcount, hi.accepted, hi.count, hw, List.append_cons]
      exact List.take_left' (by simp)
    have hnow : doneSegments ((s, .processFrameTx) :: h) = done := by
      have hring : onRing ((s, .processFrameTx) :: h) = done ++ L.pending := by
        rw [onRing, hkeep, hcount, hi.accepted, hi.count, hw, List.append_cons,
          List.drop_left' (by simp), hrest]
      rw [doneSegments, hring, hreclaimed, hsends, hi.sends_length, hdone, List.flatMap_append,
        List.flatMap_singleton, List.length_append, List.length_append, ← Nat.add_assoc,
        Nat.add_sub_cancel_left, List.take_left]
    have hold := hs.old_length
    have hnew := hs.new_length
    rw [hi.reclaimedFrames_eq] at hold
    rw [hi.doneSegments_eq, hdone, List.length_append] at hnew
    -- the stamps of the frame, and those of the segments after it
    obtain ⟨mine, rest, rfl, hmine⟩ : ∃ mine rest, new = mine ++ rest ∧
        mine.length = f.segments.length :=
      ⟨new.take f.segments.length, new.drop f.segments.length, (List.take_append_drop _ _).symm,
        by rw [List.length_take]; omega⟩
    obtain ⟨time, hget, hends⟩ := endTimes_segments f hmine
    have hstamp : Stamped s (slot s.txTail (f.segments.length - 1)) time :=
      span_iff.mp (span_append.mp hs.span).1 _ _ hget
    have hcall : s.processFrameTx.2.2 = f.call := by
      obtain ⟨L', hi'⟩ := hi.processFrameTx hm
      have hcallbacks : callbacks h ++ s.processFrameTx.2.2.toList =
          L'.reclaimed.filterMap Submission.call := hi'.callbacks
      rw [← hi'.reclaimedFrames_eq, hreclaimed, List.filterMap_append, hi.callbacks] at hcallbacks
      have hlist := List.append_cancel_left hcallbacks
      have hhead := congrArg List.head? hlist
      cases hfc : f.call <;> simpa [hfc] using hhead
    refine ⟨old ++ [time], rest, ?_, ?_, ?_, ?_, ?_⟩
    · have htimes := hs.times
      rw [hi.doneSegments_eq, hdone, endTimes_append hmine.symm, hends, ← List.append_assoc]
        at htimes
      rw [hnow, ← htimes]
      exact outputs_cons_of_nil rfl h
    · rw [hreclaimed, List.length_append, List.length_append, hold]
      rfl
    · rw [List.length_append] at hnew
      rw [hnow]
      omega
    · have hspan := (span_append.mp hs.span).2
      rw [htail, slot_add_one, Nat.sub_add_cancel hpos, ← hmine]
      refine hspan.imp fun k t _ ht => ?_
      rwa [Stamped, processFrameTx_txDesc]
    · rw [hcalls, hs.called, hi.reclaimedFrames_eq, hreclaimed, List.zip_append hold.symm,
        List.filterMap_append, hcall]
      congr 1
      cases hfc : f.call with
      | none => simp [Submission.stampedCall, hfc]
      | some c =>
          have htime := processFrameTx_txTime hscan (hcall.trans hfc)
          have heq : s.processFrameTx.1.txTime = time := htime.symm.trans hstamp
          simp [Submission.stampedCall, hfc, heq]
  · have hidle := processFrameTx_none hscan
    have hcount : reclaimed ((s, .processFrameTx) :: h) = reclaimed h :=
      reclaimed_cons_of_false (congrArg (fun r => r.2.1) hidle) h
    have hreclaimed : reclaimedFrames ((s, .processFrameTx) :: h) = reclaimedFrames h := by
      rw [reclaimedFrames, hkeep, hcount, reclaimedFrames]
    have hsame : s.processFrameTx.1 = s := congrArg Prod.fst hidle
    have hnone : s.processFrameTx.2.2 = none := congrArg (fun r => r.2.2) hidle
    refine ⟨old, new, hs.keep rfl ?_ ?_ hreclaimed (by rw [hsame]) fun k _ => by
      rw [hsame]; exact ⟨rfl, rfl⟩⟩
    · show s.processFrameTx.2.2.toList.map _ = []
      rw [hnone]
      rfl
    · rw [doneSegments, hreclaimed, hsends, onRing, hkeep, hcount, doneSegments, onRing]

/-! ## The law -/

theorem stampInv_of_run (hrun : Run Tx.step Tx.init h s) :
    (∃ L, TxInv h s L) ∧ ∃ old new, StampInv h s old new := by
  refine hrun.invariant
    (I := fun h s => (∃ L, TxInv h s L) ∧ ∃ old new, StampInv h s old new)
    ⟨⟨_, txInv_init⟩, _, _, stampInv_init⟩ ?_
  rintro h s a s' ⟨⟨L, hi⟩, old, new, hs⟩ hstep
  refine ⟨hi.step hstep, ?_⟩
  cases a with
  | transmit frame callback ref =>
      obtain ⟨⟨-, hpos⟩, hstep⟩ := Option.ite_none_right_eq_some.mp hstep
      obtain rfl := Option.some.inj hstep
      exact ⟨_, _, hs.transmit hi hpos callback ref⟩
  | mark => exact ⟨_, _, hs.mark hstep⟩
  | processFrameTx =>
      obtain ⟨hm, hstep⟩ := Option.ite_none_right_eq_some.mp hstep
      obtain rfl := Option.some.inj hstep
      exact hs.processFrameTx hi hm
  | complete status time => exact ⟨_, _, hs.complete hi hstep⟩

/-- The frames that are out have their times. -/
theorem length_frameTimes (h : TxHistory) : (frameTimes h).length = (wire h).frames.length := by
  induction h with
  | nil => rfl
  | cons p h ih =>
      obtain ⟨s, a⟩ := p
      have hwire : wire ((s, a) :: h) = (s.sends a).foldl Wire.push (wire h) := by
        rw [wire, outputs_cons, List.foldl_append, ← wire]
      have htimes : frameTimes ((s, a) :: h) = frameTimes h ++ s.frameTime a := rfl
      rw [hwire, htimes, List.length_append, ih]
      cases a with
      | complete status time =>
          show _ + ((s.send.toList.filter (·.last)).map fun _ => time).length =
            (s.send.toList.foldl Wire.push (wire h)).frames.length
          cases hsend : s.send with
          | none => rfl
          | some seg => cases hlast : seg.last <;> simp [Wire.push, hlast]
      | _ => rfl

/-- The times of the reclaimed frames, and their number. -/
theorem reclaimed_eq (hrun : Run Tx.step Tx.init h s) :
    ∃ old new, StampInv h s old new ∧ reclaimed h = old.length := by
  obtain ⟨⟨L, hi⟩, old, new, hs⟩ := stampInv_of_run hrun
  exact ⟨old, new, hs, by rw [hs.old_length, hi.reclaimedFrames_eq, hi.count]⟩

theorem reclaimed_le_frameTimes (hrun : Run Tx.step Tx.init h s) :
    reclaimed h ≤ (frameTimes h).length := by
  obtain ⟨old, new, hs, hcount⟩ := reclaimed_eq hrun
  rw [hs.times, List.length_append, hcount]
  exact Nat.le_add_right _ _

/-- The callbacks got the times of the frames that were reclaimed. -/
theorem stampedCalls_eq (hrun : Run Tx.step Tx.init h s) :
    stampedCalls h = (((accepted h).zip (frameTimes h)).take (reclaimed h)).filterMap
      Submission.stampedCall := by
  obtain ⟨old, new, hs, hcount⟩ := reclaimed_eq hrun
  have htake : (frameTimes h).take (reclaimed h) = old := by rw [hs.times, hcount, List.take_left]
  rw [hs.called, List.zip_eq_zipWith, List.zip_eq_zipWith, List.take_zipWith, htake]
  rfl

/-- **The time stamps of the transmitter**: every frame that is out has one time, and the frames
that were reclaimed got their callbacks in order, each with the time at which the last segment of
that very frame went out. -/
theorem stampedCalls_of_run (hrun : Run Tx.step Tx.init h s) :
    (frameTimes h).length = (wire h).frames.length ∧ reclaimed h ≤ (frameTimes h).length ∧
      stampedCalls h = (((accepted h).zip (frameTimes h)).take (reclaimed h)).filterMap
        Submission.stampedCall :=
  ⟨length_frameTimes h, reclaimed_le_frameTimes hrun, stampedCalls_eq hrun⟩

theorem stampedCalls_of_run_twoFrames : ∃ h s, Run Tx.step Tx.init h s ∧
    stampedCalls h = [(⟨1, 2, List.replicate 130 7, 130⟩, (8, 9))] ∧
    (frameTimes h).length = (wire h).frames.length ∧ reclaimed h ≤ (frameTimes h).length ∧
      stampedCalls h = (((accepted h).zip (frameTimes h)).take (reclaimed h)).filterMap
        Submission.stampedCall := by
  obtain ⟨h, s, hrun, hp⟩ := @exists_run_of_replay _ _ Tx.step Tx.init twoFrames
    (fun h _ => decide (stampedCalls h = [(⟨1, 2, List.replicate 130 7, 130⟩, (8, 9))]))
    (by decide +kernel)
  exact ⟨h, s, hrun, of_decide_eq_true hp, stampedCalls_of_run hrun⟩

end Gpsdo.Net
