import Gpsdo.Basic.Word
import Gpsdo.Gps.Codec
import Gpsdo.Gps.Pvt
import Gpsdo.Ntp.TimeServer

set_option autoImplicit false

/-! # The second of a pulse (`lib/ntp/GPS.cpp`, `lib/gps.cpp`)

`GPS::run` counts the seconds from the time stamp of the last PVT message to the pulse, and labels
the pulse with the second that begins there. A message is processed in the second after its pulse;
so the pulse of the message comes out as zero seconds ahead, and the pulses behind it in their
order.
-/

namespace Gpsdo.Ntp

open Gps (Receiver Uart UartAction UartHistory PvtMessage lastPvt)

variable {F : Type}

/-- What `GPS::run` reads from the receiver. -/
def gpsEnv (g : Receiver) (ppsTime : Stamps) (now : BitVec 64) (stats : Stats F) : GpsEnv F where
  ppsTime := ppsTime
  now := now
  taiEpoch := g.taiEpoch
  taiEpochUpdate := g.taiEpochUpdate
  taiOffset := g.taiOffset
  stats := stats

/-- The sample that is stored with a pulse. -/
theorem GPS.run_newest {p : GPS F} {env : GpsEnv F} (hpush : p.pushes env = true) :
    (p.run env).1.newest = ppsSample env := by
  obtain ⟨hold, htime, hpulse⟩ := of_decide_eq_true hpush
  have hstatus (src : Source F) : (updateStatus src).newest = src.newest := by
    unfold updateStatus
    split_ifs <;> rfl
  unfold GPS.run
  rw [if_neg hold, if_neg htime, if_neg hpulse]
  show (updateStatus (Source.push _ _ _ _)).newest = _
  rw [hstatus, Source.newest_push]

/-! ## Seconds -/

/-- The seconds up to a stamp, and one more, are `k` if the stamp is in the `k`-th second. -/
theorem label_eq {since : BitVec 64} {k r : ℕ} (epoch : BitVec 32) (hr : r < 2 ^ 32)
    (hsince : since + 2 ^ 32 = BitVec.ofNat 64 (k * 2 ^ 32 + r)) :
    (((since >>> 32).setWidth 32 + epoch + 1 : BitVec 32).setWidth 64) <<< 32 =
      BitVec.ofNat 64 ((epoch.toNat + k) * 2 ^ 32) := by
  have hepoch := epoch.isLt
  have hlt := since.isLt
  have hnat := congrArg BitVec.toNat hsince
  have hunit : (2 ^ 32 : BitVec 64).toNat = 2 ^ 32 := rfl
  have hone : (1 : BitVec 32).toNat = 1 := rfl
  rw [BitVec.toNat_add, BitVec.toNat_ofNat, hunit] at hnat
  apply BitVec.eq_of_toNat_eq
  rw [BitVec.toNat_shiftLeft, BitVec.toNat_setWidth, BitVec.toNat_add, BitVec.toNat_add,
    BitVec.toNat_setWidth, BitVec.toNat_ushiftRight, BitVec.toNat_ofNat, hone,
    Nat.shiftRight_eq_div_pow, Nat.shiftLeft_eq]
  omega

/-- A message that is processed at `u` belongs to the pulse at `pE`, and the pulse at `pm` is that
of `k` seconds later, up to a jitter that leaves it between the messages. -/
structure SecondsApart (pE u pm : BitVec 64) (k : ℕ) : Prop where
  after : 0 < (u - pE).toNat
  before : (u - pE).toNat < 2 ^ 32
  jitter : (pm - pE - BitVec.ofNat 64 (k * 2 ^ 32)).toInt.natAbs <
    min (u - pE).toNat (2 ^ 32 - (u - pE).toNat)

/-- The pulse is in the second that ends `k` seconds after the message. -/
theorem SecondsApart.since {pE u pm : BitVec 64} {k : ℕ} (h : SecondsApart pE u pm k) :
    ∃ r < 2 ^ 32, pm - u + 2 ^ 32 = BitVec.ofNat 64 (k * 2 ^ 32 + r) := by
  obtain ⟨-, hbefore, hjitter⟩ := h
  -- the jitter and the delay of the message, as numbers
  generalize hx : (pm - pE - BitVec.ofNat 64 (k * 2 ^ 32)).toInt = x at hjitter
  generalize hs : (u - pE).toNat = s at hbefore hjitter
  have hX : pm - pE - BitVec.ofNat 64 (k * 2 ^ 32) = BitVec.ofInt 64 x := by
    rw [← hx, BitVec.ofInt_toInt]
  have hS : u - pE = BitVec.ofInt 64 s := by
    rw [← hs, BitVec.ofInt_natCast, BitVec.ofNat_toNat, BitVec.setWidth_eq]
  obtain ⟨r, hr⟩ : ∃ r : ℕ, (r : ℤ) = 2 ^ 32 + x - s := ⟨(2 ^ 32 + x - s).toNat, by omega⟩
  have hsum : 2 ^ 32 + BitVec.ofInt 64 x - BitVec.ofInt 64 s = BitVec.ofNat 64 r := by
    rw [← BitVec.ofInt_natCast, hr, ofInt_sub, BitVec.ofInt_add]
    rfl
  refine ⟨r, by omega, ?_⟩
  calc pm - u + 2 ^ 32
      = BitVec.ofNat 64 (k * 2 ^ 32) + (2 ^ 32 + (pm - pE - BitVec.ofNat 64 (k * 2 ^ 32)) -
          (u - pE)) := by ring
    _ = BitVec.ofNat 64 (k * 2 ^ 32) + BitVec.ofNat 64 r := by rw [hX, hS, hsum]
    _ = BitVec.ofNat 64 (k * 2 ^ 32 + r) := (BitVec.ofNat_add _ _).symm

/-! ## Labels -/

section runs

variable {memory : Mem Net.Byte} {h : UartHistory} {s : Uart} {m : PvtMessage}
  {ppsTime : Stamps} {now : BitVec 64} {stats : Stats F}

/-- **The second of a pulse** is that of the last PVT message and the seconds since then, whatever
the bytes and the pulses in between, if the offset of TAI was known when the message came. -/
theorem GPS.run_taiRemote (hrun : Run Uart.step (Uart.init memory) h s) (hlast : lastPvt h = some m)
    (hoffset : m.taiOffset ≠ 0) {pE : BitVec 64} {k : ℕ}
    (hpulse : SecondsApart pE m.now ppsTime.mono k) {p : GPS F}
    (hpush : p.pushes (gpsEnv s.gps ppsTime now stats) = true) :
    (p.run (gpsEnv s.gps ppsTime now stats)).1.newest.taiRemote =
      BitVec.ofNat 64 ((m.taiEpoch.toNat + k) * 2 ^ 32) := by
  have hshows := Gps.run_shows hrun hlast
  obtain ⟨r, hr, hsince⟩ := hpulse.since
  rw [GPS.run_newest hpush]
  show (((ppsTime.mono - s.gps.taiEpochUpdate) >>> 32).setWidth 32 + s.gps.taiEpoch + 1 :
    BitVec 32).setWidth 64 <<< 32 = _
  -- the stamp is that of the message, since the offset was known
  rw [hshows.update hoffset, hshows.taiEpoch]
  exact label_eq m.taiEpoch hr hsince

end runs

/-- The bytes of messages come in one by one, and the parser takes each. -/
def received (now : BitVec 64) (msgs : List Gps.Message) : List UartAction :=
  (msgs.flatMap Gps.Message.encode).flatMap fun byte =>
    [.isr [byte], .parse ⟨now, fun _ => 0, fun _ => 0⟩]

/-- A PVT message for the 13th of February of 2009, 23:31:30. -/
def pvtMessage : Gps.Message :=
  ⟨0x01, 0x07, [0, 0, 0, 0, 0xD9, 0x07, 2, 13, 23, 31, 30, 3] ++ List.replicate 80 0⟩

/-- A time message with leap seconds that make the offset of TAI zero. -/
def zeroOffset : Gps.Message := ⟨0x01, 0x20, [0, 0, 0, 0, 0, 0, 0, 0, 0, 0, 0xED, 7, 0, 0, 0, 0]⟩

/-- The pulse of the monotonic second `n`. -/
def secondPulse (n : ℕ) : Stamps := ⟨BitVec.ofNat 64 (n * 2 ^ 32), 0, 0⟩

def noStats : Stats Nano := ⟨0, ⟨0⟩, ⟨0⟩, ⟨0⟩, ⟨0⟩⟩

/-- The source, before its first pulse. -/
def newSource : GPS Nano := GPS.new

/-- Half a second after the pulse of the second 100. -/
def halfAfter : BitVec 64 := BitVec.ofNat 64 (100 * 2 ^ 32 + 2 ^ 31)

/-- The message leaves its time stamp behind, and the pulse gets a second that is 101 too late. -/
theorem GPS.run_taiRemote_zeroOffset :
    ¬ ∀ (memory : Mem Net.Byte) (h : UartHistory) (s : Uart) (m : PvtMessage)
      (ppsTime : Stamps) (now : BitVec 64) (stats : Stats Nano) (pE : BitVec 64) (k : ℕ)
      (p : GPS Nano), Run Uart.step (Uart.init memory) h s → lastPvt h = some m →
      SecondsApart pE m.now ppsTime.mono k →
      p.pushes (gpsEnv s.gps ppsTime now stats) = true →
      (p.run (gpsEnv s.gps ppsTime now stats)).1.newest.taiRemote =
        BitVec.ofNat 64 ((m.taiEpoch.toNat + k) * 2 ^ 32) := by
  intro hlabels
  obtain ⟨h, s, hrun, hp⟩ := @exists_run_of_replay _ _ Uart.step (Uart.init fun _ => 0)
    (received halfAfter [zeroOffset, pvtMessage])
    (fun h s => decide (lastPvt h = some ⟨1234567890, halfAfter, 0⟩ ∧
      newSource.pushes (gpsEnv s.gps (secondPulse 100) halfAfter noStats) = true ∧
      (newSource.run (gpsEnv s.gps (secondPulse 100) halfAfter noStats)).1.newest.taiRemote =
        BitVec.ofNat 64 ((1234567890 + 101) * 2 ^ 32))) (by decide +kernel)
  obtain ⟨hlast, hpush, hlate⟩ := of_decide_eq_true hp
  have hsecond : SecondsApart (secondPulse 100).mono halfAfter (secondPulse 100).mono 0 :=
    ⟨by decide, by decide, by decide⟩
  have hlabel := hlabels _ h s _ _ _ _ _ 0 _ hrun hlast hsecond hpush
  rw [hlate] at hlabel
  exact absurd hlabel (by decide)

/-- The offset is the one of the start. The message is that of the pulse 100, and two messages are
missed before the pulse 103. -/
theorem GPS.run_taiRemote_missed :
    ∃ h s, Run Uart.step (Uart.init fun _ => 0) h s ∧
      (newSource.run
          (gpsEnv s.gps (secondPulse 103) (secondPulse 103).mono noStats)).1.newest.taiRemote =
        BitVec.ofNat 64 ((1234567890 + 37 + 3) * 2 ^ 32) := by
  obtain ⟨h, s, hrun, hp⟩ := @exists_run_of_replay _ _ Uart.step (Uart.init fun _ => 0)
    (received halfAfter [pvtMessage])
    (fun h s => decide (lastPvt h = some ⟨1234567890 + 37, halfAfter, 37⟩ ∧
      newSource.pushes (gpsEnv s.gps (secondPulse 103) (secondPulse 103).mono noStats) = true))
    (by decide +kernel)
  obtain ⟨hlast, hpush⟩ := of_decide_eq_true hp
  have hsecond : SecondsApart (secondPulse 100).mono halfAfter (secondPulse 103).mono 3 :=
    ⟨by decide, by decide, by decide⟩
  exact ⟨h, s, hrun, GPS.run_taiRemote hrun hlast (by decide) hsecond hpush⟩

end Gpsdo.Ntp
