import Gpsdo.Gps.Uart

set_option autoImplicit false

/-! # The bounds of the message buffer

A line that is ended when it has 255 characters or more is ended behind the buffer. All other turns
stay in it, whatever the bytes are.
-/

namespace Gpsdo.Gps

open Net

variable {g : Receiver} {env : Env} {byte : Byte}

/-- The access lies in `msgBuff`; a message that is handed on is not longer. -/
def InBuffer : Event → Prop
  | .load i => i < MAX_LENGTH
  | .store i => i < MAX_LENGTH
  | .nema msg => msg.length ≤ MAX_LENGTH
  | .ubx msg _ => msg.length ≤ MAX_LENGTH

instance : DecidablePred InBuffer := fun e => by cases e <;> exact Nat.decLe _ _

theorem LoadBelow.inBuffer {n : ℕ} {e : Event} (hn : n ≤ MAX_LENGTH) (h : LoadBelow n e) :
    InBuffer e := by
  cases e with
  | load i => exact Nat.lt_of_lt_of_le h hn
  | _ => exact h.elim

/-- The byte ends a line. -/
def EndsLine (byte : Byte) : Prop := byte = 0x0D ∨ byte = 0x0A

instance (byte : Byte) : Decidable (EndsLine byte) := inferInstanceAs (Decidable (_ ∨ _))

namespace Receiver

/-! ## Binary messages -/

theorem processUBX_inBuffer (env : Env) (g : Receiver) {len : ℕ} (h4 : 4 ≤ len)
    (hlen : len ≤ MAX_LENGTH) : (g.processUBX env len).Within InBuffer := by
  unfold processUBX
  simp only [Reading.within_bind, within_note]
  refine ⟨fun e he => (checksumTest_within g h4 e he).inBuffer hlen, ?_, ?_⟩
  · show (g.bytes len).length ≤ MAX_LENGTH
    rwa [length_bytes]
  · split
    · exact fun e he => ((dispatchUBX_spec env g).2 e he).inBuffer (by decide)
    · exact Reading.within_pure _

theorem testUBX_inBuffer (hend : g.lenUBX ≤ g.endUBX) (h8 : 8 ≤ g.endUBX)
    (hmax : g.endUBX ≤ MAX_LENGTH) : (g.testUBX env).Within InBuffer := by
  by_cases hlast : g.endUBX ≤ g.lenUBX
  · have hlen : ¬ MAX_LENGTH < g.lenUBX := Nat.not_lt.mpr (hend.trans hmax)
    unfold testUBX
    rw [if_pos hlast, if_neg hlen]
    simp only [Reading.within_bind, Reading.within_pure, and_true]
    exact processUBX_inBuffer env g (by omega) (hend.trans hmax)
  by_cases h6 : g.lenUBX = 6
  · obtain ⟨-, hreads⟩ := testUBX_length env hlast h6
    intro e he
    rw [hreads] at he
    rcases List.mem_pair.mp he with rfl | rfl <;> decide
  by_cases h2 : g.lenUBX = 2
  · obtain ⟨-, hreads⟩ := testUBX_sync env hlast h2
    intro e he
    rw [hreads] at he
    obtain rfl := List.mem_singleton.mp he
    decide
  · rw [testUBX_append env hlast h6 h2]
    exact Reading.within_pure _

theorem parseUBX_inBuffer (hs : g.toParser.Sound) (h0 : g.lenUBX ≠ 0) :
    (g.parseUBX env byte).Within InBuffer := by
  obtain ⟨hlt, h8, hmax⟩ := hs h0
  rw [parseUBX_eq hs h0]
  simp only [Reading.within_bind, within_note]
  exact ⟨Nat.lt_of_lt_of_le hlt hmax, testUBX_inBuffer (g := g.append byte) hlt h8 hmax⟩

/-! ## Lines -/

theorem appendNEMA_inBuffer (g : Receiver) (byte : Byte) :
    (g.appendNEMA byte).Within InBuffer := by
  unfold appendNEMA
  split
  · rename_i hroom
    simpa [InBuffer] using hroom
  · exact Reading.within_pure _

theorem endNEMA_inBuffer_iff (g : Receiver) :
    g.endNEMA.Within InBuffer ↔ g.lenNEMA < MAX_LENGTH := by
  unfold endNEMA
  simp only [Reading.within_bind, within_store, Reading.within_pure, and_true]
  refine ⟨fun h => h.1, fun hlen => ⟨hlen, fun e he => ?_⟩⟩
  rcases (processNEMA_spec _ _).2.2 e he with rfl | hload
  · show (bytes _ _).length ≤ MAX_LENGTH
    rw [length_bytes]
    exact (Nat.sub_le _ 1).trans hlen.le
  · refine hload.inBuffer ?_
    have hshort : g.lenNEMA < 256 := hlen
    show g.lenNEMA - 1 + 2 ≤ 256
    omega

theorem parseNEMA_inBuffer_iff (g : Receiver) (byte : Byte) :
    (g.parseNEMA byte).Within InBuffer ↔
      ¬ (MAX_LENGTH ≤ g.lenNEMA + 1 ∧ EndsLine byte) := by
  unfold parseNEMA
  simp only [Reading.within_bind, appendNEMA_inBuffer, true_and]
  by_cases hend : EndsLine byte
  · rw [if_pos (show byte = 0x0D ∨ byte = 0x0A from hend), endNEMA_inBuffer_iff, (appendNEMA_spec g byte).2.2]
    split <;> simp only [hend, and_true] <;> omega
  · rw [if_neg (show ¬ (byte = 0x0D ∨ byte = 0x0A) from hend)]
    simp [hend]

theorem parseStart_inBuffer (g : Receiver) (byte : Byte) :
    (g.parseStart byte).Within InBuffer := by
  unfold parseStart
  split
  · simp [InBuffer]
  · split
    · simp [InBuffer]
    · exact Reading.within_pure _

/-- **A turn stays in the buffer**, unless it ends a long line. -/
theorem parse_inBuffer_iff (env : Env) (byte : Byte) (hs : g.toParser.Sound) :
    (g.parse env byte).Within InBuffer ↔
      ¬ (g.lenUBX = 0 ∧ MAX_LENGTH ≤ g.lenNEMA + 1 ∧ EndsLine byte) := by
  unfold parse
  by_cases h0 : g.lenUBX = 0
  · rw [if_neg (not_not.mpr h0)]
    simp only [Reading.within_bind, parseStart_inBuffer, and_true, h0, true_and]
    by_cases hline : g.lenNEMA = 0
    · simp [hline]
    · rw [if_pos hline]
      exact parseNEMA_inBuffer_iff g byte
  · rw [if_pos h0]
    simp only [h0, false_and, not_false_eq_true, iff_true]
    exact parseUBX_inBuffer hs h0

end Receiver

/-! ## Runs -/

/-- The parser ends a line that has 255 characters or more. -/
def EndsLongLine (u : Uart) : UartAction → Prop
  | .isr _ => False
  | .parse _ =>
      u.gps.lenUBX = 0 ∧ MAX_LENGTH ≤ u.gps.lenNEMA + 1 ∧ ∃ byte ∈ u.rx.front, EndsLine byte

instance (u : Uart) (a : UartAction) : Decidable (EndsLongLine u a) := by
  cases a <;> unfold EndsLongLine <;> infer_instance

/-- What holds of the parser in every run. -/
structure Parser.Bounded (p : Parser) : Prop where
  sound : p.Sound
  line : p.lenNEMA ≤ MAX_LENGTH

theorem Turn.bounded {p p' : Parser} {calls : List (List Byte × Bool)}
    (ht : Turn p byte p' calls) (hp : p.Bounded) : p'.Bounded := by
  refine ⟨ht.sound hp.sound, ?_⟩
  cases ht with
  | text h0 hb hp' hline => exact hline hp.line
  | start => exact Nat.zero_le _
  | _ => exact hp.line

theorem Parser.Bounded.lengths {p : Parser} (hp : p.Bounded) :
    p.lenUBX < MAX_LENGTH ∧ p.lenNEMA ≤ MAX_LENGTH := by
  refine ⟨?_, hp.line⟩
  by_cases h0 : p.lenUBX = 0
  · rw [h0]
    decide
  · obtain ⟨hlt, -, hmax⟩ := hp.sound h0
    exact Nat.lt_of_lt_of_le hlt hmax

variable {u u' u₀ : Uart} {h : UartHistory} {memory : Mem Byte}

theorem Uart.step_bounded {a : UartAction} (hu : u.gps.toParser.Bounded)
    (hs : u.step a = some u') :
    u'.gps.toParser.Bounded ∧
      ((∀ e ∈ u.events a, InBuffer e) ↔ ¬ EndsLongLine u a) := by
  cases a with
  | isr bytes =>
      cases hs
      exact ⟨hu, by simp [Uart.events, EndsLongLine]⟩
  | parse env =>
      obtain ⟨byte, hbyte, rfl⟩ := Option.map_eq_some_iff.mp hs
      refine ⟨(Receiver.parse_turn _ _ hu.sound).bounded hu, ?_⟩
      have hiff := Receiver.parse_inBuffer_iff env byte hu.sound
      unfold Reading.Within at hiff
      simpa [Uart.events, EndsLongLine, hbyte] using hiff

theorem run_bounded (hrun : Run Uart.step (Uart.init memory) h u) :
    u.gps.toParser.Bounded ∧
      ((∀ p ∈ h, ∀ e ∈ p.1.events p.2, InBuffer e) ↔ ∀ p ∈ h, ¬ EndsLongLine p.1 p.2) := by
  refine hrun.invariant (I := fun h u => u.gps.toParser.Bounded ∧
    ((∀ p ∈ h, ∀ e ∈ p.1.events p.2, InBuffer e) ↔ ∀ p ∈ h, ¬ EndsLongLine p.1 p.2)) ?_ ?_
  · exact ⟨⟨fun hne => absurd rfl hne, Nat.zero_le _⟩, by simp⟩
  · rintro h u a u' ⟨hu, hiff⟩ hs
    obtain ⟨hu', hstep⟩ := Uart.step_bounded hu hs
    refine ⟨hu', ?_⟩
    simp only [List.forall_mem_cons, hstep, hiff]

/-- **The parser stays in its buffer** exactly in the runs in which it ends no long line, and the
lengths stay in bounds in all. -/
theorem inBuffer_iff (hrun : Run Uart.step (Uart.init memory) h u) :
    (u.gps.lenUBX < MAX_LENGTH ∧ u.gps.lenNEMA ≤ MAX_LENGTH) ∧
      ((∀ p ∈ h, ∀ e ∈ p.1.events p.2, InBuffer e) ↔ ∀ p ∈ h, ¬ EndsLongLine p.1 p.2) := by
  obtain ⟨hbounded, hiff⟩ := run_bounded hrun
  exact ⟨hbounded.lengths, hiff⟩

/-- The bytes come in, and the parser takes them. -/
def deliver (bytes : List Byte) : List UartAction :=
  .isr bytes :: List.replicate bytes.length (.parse anyTime)

/-- A line without its end, of 255 characters, and then the end. -/
def longLine : List UartAction := deliver (0x24 :: List.replicate 254 0x41) ++ deliver [0x0D]

theorem not_inBuffer_longLine :
    ¬ ∀ (memory : Mem Byte) (h : UartHistory) (u : Uart), Run Uart.step (Uart.init memory) h u →
      (∀ p ∈ h, ∀ e ∈ p.1.events p.2, InBuffer e) ∧ u.gps.lenUBX ≤ MAX_LENGTH ∧
        u.gps.lenNEMA ≤ MAX_LENGTH := by
  intro hsafe
  obtain ⟨h, u, hrun, hp⟩ := @exists_run_of_replay _ _ Uart.step (Uart.init fun _ => 0) longLine
    (fun h _ => h.any fun p => decide (EndsLongLine p.1 p.2)) (by decide +kernel)
  obtain ⟨p, hmem, hlong⟩ := List.any_eq_true.mp hp
  exact (run_bounded hrun).2.mp (hsafe _ h u hrun).1 p hmem (of_decide_eq_true hlong)

/-- The line `$A` is ended in the buffer. -/
theorem inBuffer_iff_shortLine :
    ∃ h u, Run Uart.step (Uart.init fun _ => 0) h u ∧ u.gps.hasNema = true ∧
      ∀ p ∈ h, ∀ e ∈ p.1.events p.2, InBuffer e := by
  obtain ⟨h, u, hrun, hp⟩ := @exists_run_of_replay _ _ Uart.step (Uart.init fun _ => 0)
    (deliver [0x24, 0x41, 0x0D])
    (fun h u => decide (u.gps.hasNema = true ∧ ∀ p ∈ h, ¬ EndsLongLine p.1 p.2))
    (by decide +kernel)
  obtain ⟨hline, hshort⟩ := of_decide_eq_true hp
  exact ⟨h, u, hrun, hline, (inBuffer_iff hrun).2.mpr hshort⟩

end Gpsdo.Gps
