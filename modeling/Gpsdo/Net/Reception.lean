import Gpsdo.Net.Receive

set_option autoImplicit false

/-! # The law of the receive ring -/

namespace Gpsdo.Net

variable {h : RxHistory} {s s' : Rx} {L : RxLayout}

/-! ## Runs -/

theorem RxInv.step (hi : RxInv h s L) {a : RxAction} (hs : s.step a = some s') :
    ∃ L', RxInv ((s, a) :: h) s' L' := by
  cases a with
  | processFrameRx =>
      obtain ⟨hidle, hs⟩ := Option.ite_none_right_eq_some.mp hs
      exact hi.processFrameRx hidle hs
  | turn => exact hi.turn hs
  | receive bytes last es time => exact hi.receive hs

theorem rxInv_of_run {s₀ : Rx} (hidle : s₀.loop = .idle) (hrun : Run Rx.step s₀.restartRx h s) :
    ∃ L, RxInv h s L :=
  hrun.invariant (I := fun h s => ∃ L, RxInv h s L) ⟨_, rxInv_restart hidle⟩
    fun _ _ _ _ ⟨_, hi⟩ hs => hi.step hs

/-! ## The law -/

/-- The law of the receive ring. -/
structure RxLaw (h : RxHistory) (s : Rx) : Prop where
  /-- The frames are processed in their order, and each gets the call that it should get. -/
  processed : processed h ≤ (reception h).frames.length
  handled : handled h = ((reception h).frames.take (Net.processed h)).filterMap frameCall
  /-- `processFrameRx` fails only when all frames that are in are processed. -/
  handled_all : s.loop = .idle → s.scan RX_RING_SIZE s.rxTail = some none →
    Net.processed h = (reception h).frames.length
  /-- The scan for a last segment ends. -/
  scan : s.loop = .idle → s.scan RX_RING_SIZE s.rxTail ≠ none
  /-- The descriptors are returned in the order in which they were filled, each once. -/
  returned : outputs Rx.returns h <+: outputs Rx.fills h
  returned_all : s.loop = .idle → (outputs Rx.returns h).length =
    ((reception h).frames.take (Net.processed h)).flatten.length
  /-- A descriptor that is returned was not owned by the DMA. -/
  owned : ∀ i ∈ s.returns .turn, (s.rxDesc i).OWN = false
  /-- The copies are inside of the buffers. -/
  copied : ∀ ptr stop buffer length size, s.loop = .assemble ptr stop buffer length size →
    length = buffer.length ∧ if ptr = stop then 14 ≤ length ∧ length = size else
      length ≤ (s.rxDesc ptr).FL ∧ (s.rxDesc ptr).FL - length ≤ SEGMENT_SIZE ∧
        (s.rxDesc ptr).FL ≤ size

theorem RxInv.frames_eq (hi : RxInv h s L) : (Net.reception h).frames = L.frames := by
  rw [hi.reception]

theorem RxInv.take_processed (hi : RxInv h s L) :
    (Net.reception h).frames.take (Net.processed h) = L.processed := by
  rw [hi.frames_eq, hi.count, RxLayout.frames, List.take_left]

/-- The count of a segment that is still to come is within the frame. -/
theorem Counts.acc_le {n : ℕ} {l l' : List RxSegment} {seg last : RxSegment}
    (h : Counts n (l ++ seg :: l')) (hlast : (l ++ seg :: l').getLast? = some last) :
    seg.acc ≤ last.acc := by
  obtain ⟨f, hf⟩ := List.getLast?_eq_some_iff.mp hlast
  have htotal := (hf ▸ h).total
  rw [← hf] at htotal
  obtain ⟨-, hacc, -⟩ := counts_append.mp h
  rw [htotal, hacc]
  simp only [List.flatMap_append, List.flatMap_cons, List.length_append]
  omega

theorem RxInv.copied (hi : RxInv h s L) {ptr stop : Fin RX_RING_SIZE} {buffer : List Byte}
    {length size : ℕ} (hloop : s.loop = .assemble ptr stop buffer length size) :
    length = buffer.length ∧ if ptr = stop then 14 ≤ length ∧ length = size else
      length ≤ (s.rxDesc ptr).FL ∧ (s.rxDesc ptr).FL - length ≤ SEGMENT_SIZE ∧
        (s.rxDesc ptr).FL ≤ size := by
  have hagrees := hi.agrees
  unfold Agrees at hagrees
  rw [hloop] at hagrees
  obtain ⟨done, rest, last, hhand, rfl, hlast, hes, rfl, rfl, rfl, htime⟩ := hagrees
  have hwhole := hi.whole (done ++ rest) (by simp [RxLayout.frames, hhand])
  have hbase : s.base = ptr := by rw [Rx.base, hloop]
  refine ⟨rfl, ?_⟩
  cases rest with
  | nil =>
      rw [if_pos ((hi.stop_iff hhand).mpr rfl)]
      rw [List.append_nil] at hlast hwhole
      obtain ⟨init, last', rfl, -, -, hmin⟩ := hwhole.ends
      obtain rfl := Option.some.inj (List.getLast?_concat.symm.trans hlast)
      have htotal := hwhole.counts.total
      omega
  | cons seg rest =>
      have hne : ¬ ptr = slot ptr (seg :: rest).length := by
        rw [hi.stop_iff hhand]
        exact List.cons_ne_nil _ _
      obtain ⟨⟨hdesc, -⟩, hacc, hlen⟩ := hi.next hhand
      have hle := hwhole.counts.acc_le hlast
      rw [if_neg hne, ← hbase, hdesc]
      dsimp only
      omega

theorem RxInv.owned (hi : RxInv h s L) {i : Fin RX_RING_SIZE} (hmem : i ∈ s.returns .turn) :
    (s.rxDesc i).OWN = false := by
  have hagrees := hi.agrees
  unfold Agrees at hagrees
  -- the segment at the pointer is one of the frame in hand
  have key : ∀ {ptr : Fin RX_RING_SIZE} {done rest : List RxSegment}, s.base = ptr →
      L.hand = some (done, rest) → i ∈ (if ptr = slot ptr rest.length then [] else [ptr]) →
        (s.rxDesc i).OWN = false := by
    intro ptr done rest hbase hhand hmem
    cases rest with
    | nil =>
        rw [if_pos ((hi.stop_iff hhand).mpr rfl)] at hmem
        cases hmem
    | cons seg rest =>
        split at hmem
        · cases hmem
        · obtain rfl := List.mem_singleton.mp hmem
          obtain ⟨⟨hdesc, -⟩, -⟩ := hi.next hhand
          rw [hbase] at hdesc
          rw [hdesc]
  cases hloop : s.loop with
  | idle =>
      simp only [Rx.returns, hloop] at hmem
      cases hmem
  | discard ptr stop =>
      rw [hloop] at hagrees
      obtain ⟨done, rest, last, hhand, rfl, -⟩ := hagrees
      simp only [Rx.returns, hloop] at hmem
      exact key (by rw [Rx.base, hloop]) hhand hmem
  | assemble ptr stop buffer length size =>
      rw [hloop] at hagrees
      obtain ⟨done, rest, last, hhand, rfl, -⟩ := hagrees
      simp only [Rx.returns, hloop] at hmem
      exact key (by rw [Rx.base, hloop]) hhand hmem

theorem RxInv.law (hi : RxInv h s L) : RxLaw h s where
  processed := by
    rw [hi.frames_eq, hi.count, RxLayout.frames, List.length_append]
    exact Nat.le_add_right _ _
  handled := by rw [hi.take_processed, hi.handled]
  handled_all := fun hidle hscan => by
    have hhand : L.hand = none := by simpa [Agrees, hidle] using hi.agrees
    rcases hi.scan_eq hidle with ⟨hw, -⟩ | ⟨f, ws, last, -, -, hsome, -⟩
    · rw [hi.count, hi.frames_eq]
      simp [RxLayout.frames, hhand, hw]
    · rw [hscan] at hsome
      cases hsome
  scan := fun hidle hscan => by
    rcases hi.scan_eq hidle with ⟨-, h⟩ | ⟨f, ws, last, -, -, h, -⟩
    all_goals
      rw [hscan] at h
      cases h
  returned := by
    rw [hi.fills]
    exact List.prefix_append _ _
  returned_all := fun hidle => by
    have hhand : L.hand = none := by simpa [Agrees, hidle] using hi.agrees
    rw [hi.returns, hi.take_processed]
    simp [RxLayout.done, hhand]
  owned := fun _ => hi.owned
  copied := fun _ _ _ _ _ => hi.copied

/-- **The law of the receive ring**: it holds in every state that the ring reaches after a
restart. -/
theorem rxLaw_of_run {s₀ : Rx} (hidle : s₀.loop = .idle)
    (hrun : Run Rx.step s₀.restartRx h s) : RxLaw h s := by
  obtain ⟨L, hi⟩ := rxInv_of_run hidle hrun
  exact hi.law

/-- The variables of the receiver in the static memory. -/
def Rx.zero : Rx where
  rxTail := 0
  rxTime := (0, 0)
  rxDesc _ := ⟨false, false, false, 0, 0, 0⟩
  rxBuffer _ := List.replicate SEGMENT_SIZE 0
  loop := .idle
  dma := 0
  received := 0
  segments := 0

/-- A frame for the handler of ARP in two segments, and one with an error that comes in while the
first is copied. -/
def arpThenError : List RxAction :=
  [.receive (List.replicate 12 2 ++ [8, 6] ++ List.replicate 114 7) false false (0, 0),
    .processFrameRx, .receive [1, 2] true false (3, 4), .processFrameRx, .turn,
    .receive (List.replicate 64 5) true true (8, 9), .turn, .turn, .processFrameRx, .turn, .turn,
    .processFrameRx]

theorem rxLaw_of_run_arpThenError : ∃ h s, Run Rx.step Rx.zero.restartRx h s ∧
    handled h = [⟨.ARP_process,
      List.replicate 12 2 ++ [8, 6] ++ List.replicate 114 7 ++ [1, 2], 130, (3, 4)⟩] ∧
    outputs Rx.returns h = [0, 1, 2] ∧ RxLaw h s := by
  obtain ⟨h, s, hrun, hp⟩ := @exists_run_of_replay _ _ Rx.step Rx.zero.restartRx arpThenError
    (fun h _ => decide (handled h = [⟨.ARP_process,
      List.replicate 12 2 ++ [8, 6] ++ List.replicate 114 7 ++ [1, 2], 130, (3, 4)⟩] ∧
      outputs Rx.returns h = [0, 1, 2])) (by decide +kernel)
  obtain ⟨hcalls, hreturns⟩ := of_decide_eq_true hp
  exact ⟨h, s, hrun, hcalls, hreturns, rxLaw_of_run rfl hrun⟩

end Gpsdo.Net
