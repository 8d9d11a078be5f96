import Gpsdo.Ntp.Source

set_option autoImplicit false

/-! # The GPS source (`lib/ntp/GPS.cpp`)

`class GPS` as functions on its data. The capture of the pulse, the clock and the state of the GPS
receiver (`lib/gps.cpp`) are the argument `GpsEnv`.
-/

namespace Gpsdo.Ntp

/-- `GPS::REF_ID` -/
def REF_ID : BitVec 32 := 0x00535047

def NTP_CLK_PREC : BitVec 8 := BitVec.ofInt 8 (-27)

/-- A hardware time stamp on the monotonic, the compensated and the TAI clock. -/
structure Stamps where
  mono : BitVec 64
  comp : BitVec 64
  tai : BitVec 64
  deriving DecidableEq, Repr

/-- `class GPS` -/
structure GPS (F : Type) extends Source F where
  lastPoll : BitVec 64
  lastPps : BitVec 64

/-- What the GPS source reads from the rest of the firmware. -/
structure GpsEnv (F : Type) where
  /-- `clock::capture::ppsGps` -/
  ppsTime : Stamps
  now : BitVec 64
  taiEpoch : BitVec 32
  taiEpochUpdate : BitVec 64
  taiOffset : BitVec 32
  stats : Stats F

namespace GPS

variable {F : Type}

/-- `GPS::GPS` -/
def new [Single F] : GPS F where
  toSource := { (Source.new REF_ID RPY_SD_MD_REF : Source F) with
    version := 4, ntpMode := 4, precision := NTP_CLK_PREC, maxPoll := 0, minPoll := 0, poll := 0 }
  lastPoll := 0
  lastPps := 0

/-- `GPS::updateStatus` -/
def updateStatus (src : Source F) : Source F :=
  if src.reach = 0 then { src with lost := true }
  else if src.reach = 0xFFFF then { src with lost := false }
  else src

/-- The sample of a pulse: its second is the number of seconds since the last time message, the
one after the second of the message. -/
def ppsSample (env : GpsEnv F) : Sample where
  taiLocal := env.ppsTime.tai
  taiRemote :=
    ((((env.ppsTime.mono - env.taiEpochUpdate) >>> 32).setWidth 32 + env.taiEpoch + 1 :
      BitVec 32).setWidth 64) <<< 32
  delay := 0

/-- `GPS::run`, with the new `clkTaiUtcOffset` if it is set. -/
def run (p : GPS F) (env : GpsEnv F) : GPS F × Option (BitVec 64) :=
  if 0x140000000#64 < env.now - env.ppsTime.mono then
    if (0x100000000#64).slt (env.now - p.lastPoll) then
      ({ p with
          toSource := updateStatus { p.toSource with
            reach := p.reach <<< 1, txCount := p.txCount + 1 },
          lastPoll := env.now }, none)
    else (p, none)
  else if env.taiEpoch = 0 then (p, none)
  else if env.ppsTime.mono = p.lastPps then (p, none)
  else
    let src := { p.toSource with
      reach := p.reach <<< 1 ||| 1, rxCount := p.rxCount + 1, rxValid := p.rxValid + 1,
      txCount := p.txCount + 1 }
    ({ p with
        toSource := updateStatus (src.push (ppsSample env) env.stats env.now),
        lastPoll := env.now, lastPps := env.ppsTime.mono },
      some (env.taiOffset.setWidth 64 <<< 32))

end GPS

end Gpsdo.Ntp
