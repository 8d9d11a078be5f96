import Gpsdo.Basic.Run
import Gpsdo.Clock.Clocks
import Gpsdo.Clock.FromRaw

set_option autoImplicit false

/-! # Captured edges (`lib/clock/capture.cpp`, `lib/net.cpp`)

A timer captures the low 24 bits of the hardware counter at an edge, and the interrupt for the edge
comes later. It takes the whole counter and goes back to the edge. The edges are those of the PPS
output of the MAC, from which the interrupt learns where the clock of the MAC is on the counter, the
pulses of the GPS, and the output of the sensor for the temperature.

The clock of the MAC counts steps of 40 ns, which are five ticks of the counter: both come from one
oscillator. It is at zero at the tick `start`.
-/

namespace Gpsdo.Clock

/-! ## Code -/

/-- Mask for timer edge events. -/
def EDGE_MASK : BitVec 32 := BitVec.ofNat 32 (2 ^ 24 - 1)

/-- Sample ring size. -/
abbrev RING_SIZE : ℕ := 256

/-- The edges that the timers capture. -/
inductive CaptureInput
  /-- The sensor, on timer 4B. -/
  | sensor
  /-- The PPS of the MAC, on timer 5A. -/
  | ethernet
  /-- The PPS of the GPS, on timer 5B. -/
  | gps
  deriving DecidableEq, Repr

/-- The hardware, and the static variables of `mono.cpp` and `capture.cpp`. -/
structure Capture where
  /-- The counter, which never wraps here. -/
  ticks : ℕ
  /-- The edge that a timer has captured, until its interrupt. -/
  edge : CaptureInput → Option ℕ
  mono : MonoClock
  ringPos : Fin RING_SIZE
  ringBuffer : Fin RING_SIZE → BitVec 32
  ppsEthernetOffset : BitVec 32
  ppsGpsEvent : BitVec 32
  ppsStamp : BitVec 64 × BitVec 64 × BitVec 64

namespace Capture

def init : Capture where
  ticks := 0
  edge _ := none
  mono := MonoClock.init
  ringPos := 0
  ringBuffer _ := 0
  ppsEthernetOffset := 0
  ppsGpsEvent := 0
  ppsStamp := (0, 0, 0)

/-- `clock::monotonic::raw` -/
def raw (s : Capture) : BitVec 32 := BitVec.ofNat 32 s.ticks

/-- The register of a timer after an edge: the low bits of the counter. -/
def captureRegister (edge : ℕ) : BitVec 32 := BitVec.ofNat 32 (edge % 2 ^ 24)

/-- The edge time that the interrupts determine. -/
def edgeTime (timer register : BitVec 32) : BitVec 32 := timer - ((timer - register) &&& EDGE_MASK)

/-- What the clock of the MAC reads at a tick, in nanoseconds. -/
def ethernetNanos (start ticks : ℕ) : ℕ := 40 * ((ticks - start) / 5)

/-- A reading of the clock of the MAC as its registers hold it: the nanoseconds and the seconds. -/
def ethernetTime (start ticks : ℕ) : BitVec 32 × BitVec 32 :=
  (BitVec.ofNat 32 (ethernetNanos start ticks % 10 ^ 9),
    BitVec.ofNat 32 (ethernetNanos start ticks / 10 ^ 9))

/-- `ISR_Timer4B` -/
def ISR_Timer4B (s : Capture) (register : BitVec 32) : Capture :=
  let timer := edgeTime s.raw register
  let next := s.ringPos + 1
  { s with ringBuffer := Function.update s.ringBuffer next timer, ringPos := next }

/-- `ISR_Timer5A`, when `EMAC0.TIMSEC` reads `TIMSEC`. -/
def ISR_Timer5A (s : Capture) (register TIMSEC : BitVec 32) : Capture :=
  let timer := edgeTime s.raw register
  { s with ppsEthernetOffset := timer - TIMSEC * BitVec.ofNat 32 CLK_FREQ }

/-- `ISR_Timer5B` -/
def ISR_Timer5B (s : Capture) (register : BitVec 32) : Capture :=
  { s with ppsGpsEvent := edgeTime s.raw register }

/-- `capture::rawToFull` from the raw value of the counter. -/
def rawToFull (s : Capture) (clkComp clkTai : Trim (BitVec 64)) (monoRaw : BitVec 32) :
    BitVec 64 × BitVec 64 × BitVec 64 :=
  capture.rawToFull clkComp clkTai (s.mono.fromRaw monoRaw)

/-- `runPpsGps` -/
def runPpsGps (s : Capture) (clkComp clkTai : Trim (BitVec 64)) : Capture :=
  { s with ppsStamp := s.rawToFull clkComp clkTai s.ppsGpsEvent }

/-- `nanosToRaw` of `net.cpp` -/
def nanosToRaw (seconds nanos : BitVec 32) : BitVec 32 :=
  seconds * BitVec.ofNat 32 CLK_FREQ + nanos / BitVec.ofNat 32 CLK_NANOS

/-- `network::getRxTime` and `network::getTxTime`, for the time stamp that the MAC took. -/
def packetTime (s : Capture) (clkComp clkTai : Trim (BitVec 64)) (time : BitVec 32 × BitVec 32) :
    BitVec 64 × BitVec 64 × BitVec 64 :=
  s.rawToFull clkComp clkTai (s.ppsEthernetOffset + nanosToRaw time.2 time.1)

end Capture

/-! ## The machine -/

/-- What happens: the counter counts, an edge is captured, or one of the functions above runs. -/
inductive CaptureAction
  | tick
  | edge (input : CaptureInput)
  | ISR_Timer0A
  /-- The interrupt for an edge. -/
  | interrupt (input : CaptureInput)
  | runPpsGps (clkComp clkTai : Trim (BitVec 64))
  deriving DecidableEq, Repr

namespace Capture

/-- The interrupt for an edge, when the MAC reads zero at the tick `start`. -/
def interrupt (start : ℕ) (s : Capture) (edge : ℕ) : CaptureInput → Capture
  | .sensor => s.ISR_Timer4B (captureRegister edge)
  | .ethernet => s.ISR_Timer5A (captureRegister edge) (ethernetTime start s.ticks).2
  | .gps => s.ISR_Timer5B (captureRegister edge)

/-- The MAC puts out an edge when a second of its clock begins. -/
def canCapture (start : ℕ) (s : Capture) : CaptureInput → Prop
  | .ethernet => start ≤ s.ticks ∧ CLK_FREQ ∣ s.ticks - start
  | _ => True

instance (start : ℕ) (s : Capture) (input : CaptureInput) :
    Decidable (s.canCapture start input) := by
  cases input
  · exact inferInstanceAs (Decidable True)
  · exact inferInstanceAs (Decidable (_ ∧ _))
  · exact inferInstanceAs (Decidable True)

def step (start : ℕ) (s : Capture) : CaptureAction → Option Capture
  | .tick => some { s with ticks := s.ticks + 1 }
  | .edge input =>
      if s.canCapture start input then
        some { s with edge := Function.update s.edge input (some s.ticks) }
      else none
  | .ISR_Timer0A => some { s with mono := s.mono.ISR_Timer0A }
  | .interrupt input =>
      match s.edge input with
      | none => none
      | some edge =>
          some (interrupt start { s with edge := Function.update s.edge input none } edge input)
  | .runPpsGps clkComp clkTai => some (s.runPpsGps clkComp clkTai)

end Capture

/-- The history of a run of the machine, newest first. -/
abbrev CaptureHistory := List (Capture × CaptureAction)

/-! ## Edge times -/

namespace Capture

theorem toNat_and_EDGE_MASK (x : BitVec 32) : (x &&& EDGE_MASK).toNat = x.toNat % 2 ^ 24 := by
  have hmask : EDGE_MASK.toNat = 2 ^ 24 - 1 := by decide
  rw [BitVec.toNat_and, hmask, Nat.and_two_pow_sub_one_eq_mod]

/-- **The interrupt goes back to the edge** when it comes within 2^24 ticks. -/
theorem edgeTime_eq {edge now : ℕ} (hle : edge ≤ now) (hlt : now < edge + 2 ^ 24) :
    edgeTime (BitVec.ofNat 32 now) (captureRegister edge) = BitVec.ofNat 32 edge := by
  have hdelay : (BitVec.ofNat 32 now - captureRegister edge) &&& EDGE_MASK =
      BitVec.ofNat 32 (now - edge) := by
    apply BitVec.eq_of_toNat_eq
    rw [toNat_and_EDGE_MASK, captureRegister, BitVec.toNat_sub, BitVec.toNat_ofNat,
      BitVec.toNat_ofNat, BitVec.toNat_ofNat]
    omega
  rw [edgeTime, hdelay]
  apply BitVec.eq_of_toNat_eq
  rw [BitVec.toNat_sub, BitVec.toNat_ofNat, BitVec.toNat_ofNat, BitVec.toNat_ofNat]
  omega

/-- A stamp of the MAC, in ticks: it is up to four ticks early. -/
theorem nanosToRaw_ethernetTime {start ticks : ℕ} :
    nanosToRaw (ethernetTime start ticks).2 (ethernetTime start ticks).1 =
      BitVec.ofNat 32 ((ticks - start) / 5 * 5) := by
  have hnanos : BitVec.ofNat 32 (ethernetNanos start ticks % 10 ^ 9) / BitVec.ofNat 32 CLK_NANOS =
      BitVec.ofNat 32 (ethernetNanos start ticks % 10 ^ 9 / 8) := by
    apply BitVec.eq_of_toNat_eq
    generalize ethernetNanos start ticks = nanos
    have hclk : CLK_NANOS % 2 ^ 32 = 8 := by decide
    rw [BitVec.toNat_udiv, BitVec.toNat_ofNat, BitVec.toNat_ofNat, BitVec.toNat_ofNat, hclk,
      Nat.mod_eq_of_lt (by omega : nanos % 10 ^ 9 < 2 ^ 32)]
    omega
  unfold nanosToRaw ethernetTime
  dsimp only
  rw [hnanos, ← BitVec.ofNat_mul, ← BitVec.ofNat_add]
  congr 1
  unfold ethernetNanos CLK_FREQ
  omega

/-- The seconds of the MAC, up to the next edge. -/
theorem ethernetTime_seconds {start edge now : ℕ} (hstart : start ≤ edge)
    (hdvd : CLK_FREQ ∣ edge - start) (hle : edge ≤ now) (hlt : now < edge + 2 ^ 24) :
    (ethernetTime start now).2 = BitVec.ofNat 32 ((edge - start) / CLK_FREQ) := by
  obtain ⟨k, hk⟩ := hdvd
  unfold ethernetTime ethernetNanos
  dsimp only
  rw [hk, Nat.mul_div_cancel_left _ (by decide)]
  congr 1
  unfold CLK_FREQ at hk
  omega

end Capture

/-! ## Runs -/

/-- The number of seconds that were counted. -/
def countedSeconds (h : CaptureHistory) : ℕ := h.countP fun p => p.2 = .ISR_Timer0A

/-- The edges whose interrupts have come, newest first. -/
def served (input : CaptureInput) : CaptureHistory → List ℕ
  | [] => []
  | (s, .interrupt i) :: h => (if i = input then (s.edge input).toList else []) ++ served input h
  | _ :: h => served input h

/-- An interrupt comes within 2^24 ticks of its edge. -/
def Prompt (s : Capture) : CaptureAction → Prop
  | .interrupt input => ∀ edge ∈ s.edge input, s.ticks < edge + 2 ^ 24
  | _ => True

instance (s : Capture) (a : CaptureAction) : Decidable (Prompt s a) := by
  cases a
  case interrupt input =>
    exact inferInstanceAs (Decidable (∀ edge ∈ s.edge input, s.ticks < edge + 2 ^ 24))
  all_goals exact inferInstanceAs (Decidable True)

/-- What holds of the captures. -/
structure CaptureInv (start : ℕ) (h : CaptureHistory) (s : Capture) : Prop where
  mono : s.mono = MonoClock.ISR_Timer0A^[countedSeconds h] MonoClock.init
  edge : ∀ input e, s.edge input = some e → e ≤ s.ticks
  pps : ∀ e, s.edge .ethernet = some e → start ≤ e ∧ CLK_FREQ ∣ e - start
  offset : served .ethernet h ≠ [] → s.ppsEthernetOffset = BitVec.ofNat 32 start
  event : ∀ e, (served .gps h).head? = some e → s.ppsGpsEvent = BitVec.ofNat 32 e
  ring : ∀ i < RING_SIZE, ∀ e, (served .sensor h)[i]? = some e →
    s.ringBuffer (s.ringPos - Fin.ofNat RING_SIZE i) = BitVec.ofNat 32 e

variable {start : ℕ} {h : CaptureHistory} {s s' : Capture}

theorem captureInv_init : CaptureInv start [] Capture.init where
  mono := rfl
  edge := fun _ _ h => by cases h
  pps := fun _ h => by cases h
  offset := fun h => absurd rfl h
  event := fun _ h => by cases h
  ring := fun _ _ _ h => by cases h

theorem CaptureInv.captured (hi : CaptureInv start h s) {input : CaptureInput}
    (hcan : s.canCapture start input) :
    CaptureInv start ((s, .edge input) :: h)
      { s with edge := Function.update s.edge input (some s.ticks) } where
  mono := hi.mono
  edge := fun i e he => by
    by_cases hi' : i = input
    · subst hi'
      obtain rfl : s.ticks = e := by simpa using he
      exact le_refl _
    · exact hi.edge i e (by simpa [hi'] using he)
  pps := fun e he => by
    by_cases hi' : CaptureInput.ethernet = input
    · subst hi'
      obtain rfl : s.ticks = e := by simpa using he
      exact hcan
    · exact hi.pps e (by simpa [hi'] using he)
  offset := hi.offset
  event := hi.event
  ring := hi.ring

theorem ringPos_back (pos : Fin RING_SIZE) (i : ℕ) :
    pos + 1 - Fin.ofNat RING_SIZE (i + 1) = pos - Fin.ofNat RING_SIZE i := by
  have hsucc : Fin.ofNat RING_SIZE (i + 1) = Fin.ofNat RING_SIZE i + 1 := by
    apply Fin.ext
    simp [Fin.val_add]
  rw [hsucc, add_sub_add_right_eq_sub]

/-- The next slot is not one of the newest samples. -/
theorem ringPos_back_ne (pos : Fin RING_SIZE) {i : ℕ} (hlt : i + 1 < RING_SIZE) :
    pos - Fin.ofNat RING_SIZE i ≠ pos + 1 := by
  intro heq
  have hzero : Fin.ofNat RING_SIZE i + 1 = 0 := by
    have h := sub_eq_iff_eq_add.mp heq
    rw [add_assoc, add_comm 1] at h
    exact (left_eq_add.mp h)
  have hval := congrArg Fin.val hzero
  change (i % 256 + 1) % 256 = 0 at hval
  have hlt : i + 1 < 256 := hlt
  omega

/-- The interrupt of an edge that was captured. -/
theorem CaptureInv.interrupt (hi : CaptureInv start h s) {input : CaptureInput} {e : ℕ}
    (he : s.edge input = some e) (hprompt : s.ticks < e + 2 ^ 24) :
    CaptureInv start ((s, .interrupt input) :: h)
      (Capture.interrupt start { s with edge := Function.update s.edge input none } e input) := by
  have hle := hi.edge input e he
  have htime := Capture.edgeTime_eq hle hprompt
  have hedge : ∀ i e', Function.update s.edge input none i = some e' → s.edge i = some e' := by
    intro i e' h
    by_cases hi' : i = input
    · subst hi'
      simp at h
    · simpa [hi'] using h
  have hserved : served input ((s, .interrupt input) :: h) = e :: served input h := by
    simp [served, he]
  have hother : ∀ i, input ≠ i → served i ((s, .interrupt input) :: h) = served i h := by
    intro i hne
    simp [served, hne]
  cases input with
  | sensor =>
      exact
        { mono := hi.mono
          edge := fun i e' h => hi.edge i e' (hedge i e' h)
          pps := fun e' h => hi.pps e' (hedge _ e' h)
          offset := fun h => hi.offset (by rwa [hother _ (by decide)] at h)
          event := fun e' h => hi.event e' (by rwa [hother _ (by decide)] at h)
          ring := fun i hlt e' h => by
            rw [hserved] at h
            show Function.update s.ringBuffer (s.ringPos + 1) _ (s.ringPos + 1 - _) = _
            cases i with
            | zero =>
                obtain rfl : e = e' := by simpa using h
                rw [show Fin.ofNat RING_SIZE 0 = 0 from rfl, sub_zero, Function.update_self]
                exact htime
            | succ i =>
                -- an older sample, one place further back
                rw [ringPos_back, Function.update_of_ne (ringPos_back_ne s.ringPos hlt)]
                exact hi.ring i (Nat.lt_of_succ_lt hlt) e' (by simpa using h) }
  | ethernet =>
      obtain ⟨hstart, hdvd⟩ := hi.pps e he
      exact
        { mono := hi.mono
          edge := fun i e' h => hi.edge i e' (hedge i e' h)
          pps := fun e' h => hi.pps e' (hedge _ e' h)
          offset := fun _ => by
            show Capture.edgeTime (BitVec.ofNat 32 s.ticks) (Capture.captureRegister e) -
              (Capture.ethernetTime start s.ticks).2 * BitVec.ofNat 32 CLK_FREQ = _
            rw [htime, Capture.ethernetTime_seconds hstart hdvd hle hprompt, ← BitVec.ofNat_mul,
              Nat.div_mul_cancel hdvd]
            exact (eq_sub_of_add_eq (by rw [← BitVec.ofNat_add, Nat.add_sub_cancel' hstart])).symm
          event := fun e' h => hi.event e' (by rwa [hother _ (by decide)] at h)
          ring := fun i hlt e' h => hi.ring i hlt e' (by rwa [hother _ (by decide)] at h) }
  | gps =>
      exact
        { mono := hi.mono
          edge := fun i e' h => hi.edge i e' (hedge i e' h)
          pps := fun e' h => hi.pps e' (hedge _ e' h)
          offset := fun h => hi.offset (by rwa [hother _ (by decide)] at h)
          event := fun e' h => by
            rw [hserved] at h
            obtain rfl : e = e' := by simpa using h
            exact htime
          ring := fun i hlt e' h => hi.ring i hlt e' (by rwa [hother _ (by decide)] at h) }

theorem captureInv_of_run (hrun : Run (Capture.step start) Capture.init h s)
    (hprompt : ∀ p ∈ h, Prompt p.1 p.2) : CaptureInv start h s := by
  refine hrun.invariant_of_forall hprompt captureInv_init ?_
  intro h s a s' hi hp hs
  cases a with
  | tick =>
      obtain rfl := Option.some.inj hs
      exact { hi with edge := fun i e he => (hi.edge i e he).trans (Nat.le_succ _) }
  | edge input =>
      obtain ⟨hcan, hs⟩ := Option.ite_none_right_eq_some.mp hs
      obtain rfl := Option.some.inj hs
      exact hi.captured hcan
  | ISR_Timer0A =>
      obtain rfl := Option.some.inj hs
      have hmono : s.mono.ISR_Timer0A =
          MonoClock.ISR_Timer0A^[countedSeconds ((s, .ISR_Timer0A) :: h)] MonoClock.init := by
        have hcount : countedSeconds ((s, .ISR_Timer0A) :: h) = countedSeconds h + 1 := by
          simp [countedSeconds]
        rw [hcount, Function.iterate_succ_apply', ← hi.mono]
      exact { hi with mono := hmono }
  | interrupt input =>
      rw [Capture.step] at hs
      cases he : s.edge input with
      | none =>
          rw [he] at hs
          cases hs
      | some e =>
          rw [he] at hs
          obtain rfl := Option.some.inj hs
          exact hi.interrupt he (hp e he)
  | runPpsGps clkComp clkTai =>
      obtain rfl := Option.some.inj hs
      exact { hi with mono := hi.mono }

/-! ## The law -/

/-- What the captured edges give. -/
structure CaptureLaw (start : ℕ) (h : CaptureHistory) (s : Capture) : Prop where
  /-- `runPpsGps` reads the clocks at the tick of the last pulse. -/
  gps : ∀ e : ℕ, (served .gps h).head? = some e →
    |(e : ℤ) - countedSeconds h * CLK_FREQ| < 2 ^ 31 → ∀ clkComp clkTai,
      (s.runPpsGps clkComp clkTai).ppsStamp =
        capture.rawToFull clkComp clkTai (BitVec.ofInt 64 (MonoClock.stampOf e))
  /-- A packet that the MAC stamps at a tick has the time of that tick, or of one of the four before
  it, whichever second of the MAC was captured. -/
  packet : served .ethernet h ≠ [] → ∀ T : ℕ, start ≤ T →
    |(T : ℤ) - countedSeconds h * CLK_FREQ| < 2 ^ 31 - 4 →
      ∃ T' : ℕ, T' ≤ T ∧ T < T' + 5 ∧ ∀ clkComp clkTai,
        s.packetTime clkComp clkTai (Capture.ethernetTime start T) =
          capture.rawToFull clkComp clkTai (BitVec.ofInt 64 (MonoClock.stampOf T'))
  /-- The ring holds the last 256 edges of the sensor. -/
  sensor : ∀ i < RING_SIZE, ∀ e, (served .sensor h)[i]? = some e →
    s.ringBuffer (s.ringPos - Fin.ofNat RING_SIZE i) = BitVec.ofNat 32 e

/-- What is read at a tick that was captured. -/
theorem CaptureInv.fromRaw (hi : CaptureInv start h s) {e : ℕ}
    (he : |(e : ℤ) - countedSeconds h * CLK_FREQ| < 2 ^ 31) :
    s.mono.fromRaw (BitVec.ofNat 32 e) = BitVec.ofInt 64 (MonoClock.stampOf e) := by
  rw [hi.mono, ← BitVec.ofInt_natCast]
  exact MonoClock.fromRaw_stampOf (countedSeconds h) he

theorem CaptureInv.packet (hi : CaptureInv start h s) (hpps : served .ethernet h ≠ []) {T : ℕ}
    (hstart : start ≤ T) (hT : |(T : ℤ) - countedSeconds h * CLK_FREQ| < 2 ^ 31 - 4) :
    ∃ T' : ℕ, T' ≤ T ∧ T < T' + 5 ∧ ∀ clkComp clkTai,
      s.packetTime clkComp clkTai (Capture.ethernetTime start T) =
        capture.rawToFull clkComp clkTai (BitVec.ofInt 64 (MonoClock.stampOf T')) := by
  refine ⟨start + (T - start) / 5 * 5, by omega, by omega, fun clkComp clkTai => ?_⟩
  have hnear :
      |((start + (T - start) / 5 * 5 : ℕ) : ℤ) - countedSeconds h * CLK_FREQ| < 2 ^ 31 := by
    obtain ⟨hlo, hhi⟩ := abs_lt.mp hT
    exact abs_lt.mpr ⟨by omega, by omega⟩
  rw [Capture.packetTime, Capture.rawToFull, Capture.nanosToRaw_ethernetTime, hi.offset hpps,
    ← BitVec.ofNat_add, hi.fromRaw hnear]

theorem CaptureInv.law (hi : CaptureInv start h s) : CaptureLaw start h s := by
  refine ⟨fun e he hnear clkComp clkTai => ?_, fun hpps _ => hi.packet hpps, hi.ring⟩
  show s.rawToFull clkComp clkTai s.ppsGpsEvent = _
  rw [Capture.rawToFull, hi.event e he, hi.fromRaw hnear]

/-- **The captures are exact** in every run whose interrupts come within 2^24 ticks. -/
theorem captureLaw_of_run (hrun : Run (Capture.step start) Capture.init h s)
    (hprompt : ∀ p ∈ h, Prompt p.1 p.2) : CaptureLaw start h s :=
  (captureInv_of_run hrun hprompt).law

/-- The MAC starts at tick 2, and a pulse of the GPS comes before the first interrupt. -/
def twoPulses : List CaptureAction :=
  [.tick, .tick, .edge .ethernet, .edge .sensor, .tick, .edge .gps, .tick, .interrupt .ethernet,
    .interrupt .sensor, .interrupt .gps, .runPpsGps ⟨0, 0, 0, 0⟩ ⟨0, 0, 0, 0⟩, .tick, .edge .sensor]

theorem captureLaw_of_run_twoPulses : ∃ h s, Run (Capture.step 2) Capture.init h s ∧
    served .ethernet h = [2] ∧ served .gps h = [3] ∧ served .sensor h = [2] ∧
      s.ppsEthernetOffset = 2 ∧ CaptureLaw 2 h s := by
  obtain ⟨h, s, hrun, hp⟩ := @exists_run_of_replay _ _ (Capture.step 2) Capture.init twoPulses
    (fun h s => decide ((served .ethernet h = [2] ∧ served .gps h = [3] ∧ served .sensor h = [2] ∧
      s.ppsEthernetOffset = 2) ∧ ∀ p ∈ h, Prompt p.1 p.2)) (by decide +kernel)
  obtain ⟨⟨h1, h2, h3, h4⟩, hprompt⟩ := of_decide_eq_true hp
  exact ⟨h, s, hrun, h1, h2, h3, h4, captureLaw_of_run hrun hprompt⟩

end Gpsdo.Clock
