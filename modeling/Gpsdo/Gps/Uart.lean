import Gpsdo.Basic.RingBuffer
import Gpsdo.Basic.Run
import Gpsdo.Gps.Turns

set_option autoImplicit false

/-! # The bytes of the receiver (`lib/gps.cpp`)

The machine of the receiving side: the interrupt of the UART puts the bytes of its FIFO into a ring,
and `runParse` takes them out. The interrupt comes between any two turns of the loop of `runParse`,
and overruns the ring when there is no room.
-/

namespace Gpsdo.Gps

open Net

abbrev GPS_RING_SIZE : ℕ := 256

instance neZero_gpsRing : NeZero GPS_RING_SIZE := ⟨by decide⟩

/-- The ring `rxBuff` between the interrupt and the parser, and what the parser has come to. -/
structure Uart where
  rx : RingBuffer GPS_RING_SIZE Byte
  gps : Receiver

inductive UartAction
  /-- `ISR_UART3` drains the FIFO of the UART. -/
  | isr (bytes : List Byte)
  /-- A turn of the loop of `runParse`. -/
  | parse (env : Env)

namespace Uart

def step (u : Uart) : UartAction → Option Uart
  | .isr bytes => some { u with rx := u.rx.putAll bytes }
  | .parse env => u.rx.front.map fun byte => ⟨u.rx.drop, (u.gps.parse env byte).val⟩

/-- The statics of the program are zero when it starts; the contents of the memory do not matter. -/
def init (memory : Mem Byte) : Uart where
  rx := ⟨fun _ => 0, 0, 0⟩
  gps := {
    msgBuff := memory, lenNEMA := 0, lenUBX := 0, endUBX := 0, fixGood := false, locLat := 0,
    locLon := 0, locAlt := 0, clkBias := 0, clkDrift := 0, accTime := 0, accFreq := 0,
    taiEpochUpdate := 0, taiEpoch := 0, taiOffset := 37, hasNema := false, hasPvt := false,
    hasGpsTime := false, hasClock := false }

/-- What a step does with `msgBuff`. -/
def events (u : Uart) : UartAction → List Event
  | .isr _ => []
  | .parse env => (u.rx.front.map fun byte => (u.gps.parse env byte).reads).getD []

end Uart

abbrev UartHistory := List (Uart × UartAction)

/-! ## The stream -/

/-- The parser takes the bytes of a stream, each at its time. -/
def feed (g : Receiver) : List (Env × Byte) → Reading Event Receiver
  | [] => pure g
  | (env, byte) :: stream => do
      let g ← g.parse env byte
      feed g stream

theorem feed_append (g : Receiver) (stream stream' : List (Env × Byte)) :
    (feed g (stream ++ stream')).val = (feed (feed g stream).val stream').val ∧
      (feed g (stream ++ stream')).reads =
        (feed g stream).reads ++ (feed (feed g stream).val stream').reads := by
  induction stream generalizing g with
  | nil => exact ⟨rfl, rfl⟩
  | cons p stream ih =>
      obtain ⟨hval, hreads⟩ := ih (g.parse p.1 p.2).val
      refine ⟨hval, ?_⟩
      show (g.parse p.1 p.2).reads ++ (feed _ (stream ++ stream')).reads = _
      rw [hreads, ← List.append_assoc]
      rfl

variable {u u' u₀ : Uart} {h : UartHistory}

/-- The bytes that the interrupt puts into the ring. -/
def arrives (_ : Uart) : UartAction → List Byte
  | .isr bytes => bytes
  | .parse _ => []

/-- The byte that the parser takes, at its time. -/
def takes (u : Uart) : UartAction → List (Env × Byte)
  | .isr _ => []
  | .parse env => (u.rx.front.map fun byte => (env, byte)).toList

def arrived (h : UartHistory) : List Byte := outputs arrives h

def taken (h : UartHistory) : List (Env × Byte) := outputs takes h

/-- The parser only sees the stream of what it takes. -/
theorem run_feed (hrun : Run Uart.step u₀ h u) :
    (feed u₀.gps (taken h)).val = u.gps ∧
      (feed u₀.gps (taken h)).reads = outputs Uart.events h := by
  refine hrun.invariant (I := fun h u => (feed u₀.gps (taken h)).val = u.gps ∧
    (feed u₀.gps (taken h)).reads = outputs Uart.events h) ⟨rfl, rfl⟩ ?_
  rintro h u a u' ⟨hval, hreads⟩ hs
  obtain ⟨hval', hreads'⟩ := feed_append u₀.gps (taken h) (takes u a)
  rw [hval] at hval' hreads'
  refine ⟨hval'.trans ?_, hreads'.trans ?_⟩
  · cases a with
    | isr bytes =>
        cases hs
        rfl
    | parse env =>
        obtain ⟨byte, hbyte, rfl⟩ := Option.map_eq_some_iff.mp hs
        simp only [takes, hbyte]
        rfl
  · rw [outputs_cons, hreads]
    congr 1
    cases a with
    | isr bytes => rfl
    | parse env =>
        obtain ⟨byte, hbyte, -⟩ := Option.map_eq_some_iff.mp hs
        simp only [Uart.events, takes, hbyte]
        exact List.append_nil _

/-- The interrupt finds room in the ring, where the bytes `l` wait. -/
def FindsRoom (l : List Byte) : UartAction → Prop
  | .isr bytes => l.length + bytes.length < GPS_RING_SIZE
  | .parse _ => True

/-- **What arrives is what the parser takes**, and what waits, unless the ring is overrun. -/
theorem run_queued (hrun : Run Uart.step u₀ h u) (hempty : u₀.rx.head = u₀.rx.tail)
    (hroom : ∀ p ∈ h, ∀ l, p.1.rx.Queued l → FindsRoom l p.2) :
    ∃ l, u.rx.Queued l ∧ arrived h = (taken h).map Prod.snd ++ l := by
  refine hrun.invariant_of_forall
    (I := fun h u => ∃ l, u.rx.Queued l ∧ arrived h = (taken h).map Prod.snd ++ l)
    (C := fun u a => ∀ l, u.rx.Queued l → FindsRoom l a) hroom
    ⟨[], RingBuffer.Queued.nil hempty, rfl⟩ ?_
  rintro h u a u' ⟨l, hl, harrived⟩ hfits hs
  cases a with
  | isr bytes =>
      cases hs
      refine ⟨l ++ bytes, hl.putAll (hfits l hl), ?_⟩
      show arrived h ++ bytes = (taken h ++ []).map Prod.snd ++ (l ++ bytes)
      rw [harrived, List.append_nil, List.append_assoc]
  | parse env =>
      obtain ⟨byte, hbyte, rfl⟩ := Option.map_eq_some_iff.mp hs
      rw [hl.front_eq] at hbyte
      cases l with
      | nil => cases hbyte
      | cons b l =>
          cases hbyte
          refine ⟨l, hl.drop, ?_⟩
          show arrived h ++ [] = (taken h ++ (u.rx.front.map fun byte => (env, byte)).toList).map _
            ++ l
          rw [hl.front_eq, harrived]
          simp

/-! ## Streams to look at -/

/-- What a turn reads from elsewhere does not matter to the parser. -/
def anyTime : Env := ⟨0, fun _ => 0, fun _ => 0⟩

def streamOf (bytes : List Byte) : List (Env × Byte) := bytes.map fun byte => (anyTime, byte)

@[simp] theorem map_streamOf (bytes : List Byte) : (streamOf bytes).map Prod.snd = bytes := by
  simp [streamOf]

end Gpsdo.Gps
