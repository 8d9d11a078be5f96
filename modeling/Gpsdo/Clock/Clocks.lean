import Gpsdo.Basic.Trimmed
import Gpsdo.Clock.Mono

set_option autoImplicit false

/-! # The compensated and the TAI clock (`lib/clock/comp.cpp`, `lib/clock/tai.cpp`,
`lib/clock/capture.cpp`)

Both are trimmed clocks: the compensated clock runs on the monotonic clock, the TAI clock on the
compensated one. The code keeps times in `uint64_t`. Here a time is a word of any commutative ring
with a conversion to 32 bits: with `BitVec 64` the definitions are the code, and with `ℤ` they
follow the code's readings as unbounded integers (`Clocks.wrap`).
-/

namespace Gpsdo.Clock

/-! ## Words -/

/-- Words for times. -/
class Word (W : Type) [CommRing W] where
  /-- The conversion to `uint32_t`. -/
  lo32 : W →+* BitVec 32

export Word (lo32)

instance : Word (BitVec 64) where
  lo32 :=
    { toFun := BitVec.setWidth 32
      map_one' := rfl
      map_zero' := rfl
      map_mul' := fun x y => BitVec.setWidth_mul x y (by decide)
      map_add' := fun x y => BitVec.setWidth_add x y (by decide) }

instance : Word ℤ where
  lo32 := Int.castRingHom (BitVec 32)

/-! ## Data -/

/-- The static variables of a clock. -/
structure Trim (W : Type) where
  offset : W
  ref : W
  rate : BitVec 32
  rem : BitVec 32
  deriving DecidableEq, Repr

/-- The counter of the hardware, which never wraps here, and the variables of the clocks. -/
structure Clocks (W : Type) where
  ticks : ℕ
  clkComp : Trim W
  clkTai : Trim W
  frqInc : BitVec 64
  deriving DecidableEq, Repr

section Code

variable {W : Type} [CommRing W]

/-- The conversion of an `int32_t` to a word. -/
def ofInt32 (x : BitVec 32) : W := (x.toInt : W)

/-- `monotonic::now` -/
def monotonic.now (s : Clocks W) : W := (monotonicAt s.ticks : W)

variable [Word W]

/-! ## Readings -/

/-- `compensated::now`, when `monotonic::now` reads `clkMono`. -/
def compensated.now (clkComp : Trim W) (clkMono : W) : W :=
  let scratch : BitVec 64 := (lo32 (clkMono - clkComp.ref)).signExtend 64
  let scratch := scratch * clkComp.rate.signExtend 64
  clkMono + clkComp.offset + ofInt32 ((scratch.sshiftRight 32).setWidth 32)

/-- `tai::now`, when `monotonic::now` reads `ts`. -/
def tai.now (clkComp clkTai : Trim W) (ts : W) : W :=
  -- translate to the compensated domain
  let r := corrFracRem clkComp.rate (lo32 (ts - clkComp.ref)) 0
  let ts := ts + ofInt32 r.1
  let ts := ts + clkComp.offset
  -- translate to the TAI domain
  let r := corrFracRem clkTai.rate (lo32 (ts - clkTai.ref)) r.2
  let ts := ts + ofInt32 r.1
  ts + clkTai.offset

/-- `capture::rawToFull`, when `monotonic::fromRaw` gives `stamp`: the three stamps. -/
def capture.rawToFull (clkComp clkTai : Trim W) (stamp : W) : W × W × W :=
  let r := corrFracRem clkComp.rate (lo32 (stamp - clkComp.ref)) 0
  let stamp1 := stamp + ofInt32 r.1 + clkComp.offset
  let r := corrFracRem clkTai.rate (lo32 (stamp1 - clkTai.ref)) r.2
  let stamp2 := stamp1 + ofInt32 r.1 + clkTai.offset
  (stamp, stamp1, stamp2)

/-- `compensated::fromMono` -/
def compensated.fromMono (clkComp : Trim (BitVec 64)) (ts : BitVec 64) : BitVec 64 :=
  let ts := ts + corrValue clkComp.rate (ts - clkComp.ref)
  ts + clkComp.offset

/-- `tai::fromMono` -/
def tai.fromMono (clkComp clkTai : Trim (BitVec 64)) (ts : BitVec 64) : BitVec 64 :=
  -- translate to the compensated domain
  let ts := ts + corrValue clkComp.rate (ts - clkComp.ref)
  let ts := ts + clkComp.offset
  -- translate to the TAI domain
  let ts := ts + corrValue clkTai.rate (ts - clkTai.ref)
  ts + clkTai.offset

/-! ## Updates -/

/-- The update that all of the functions below make: the correction since `ref` is booked. -/
def Trim.update (c : Trim W) (now : W) : Trim W :=
  let r := corrFracRem c.rate (lo32 (now - c.ref)) c.rem
  { c with ref := now, offset := c.offset + ofInt32 r.1, rem := r.2 }

/-- `runClkComp`, when `monotonic::now` reads `now`. -/
def runClkComp (clkComp : Trim W) (now : W) : Trim W := clkComp.update now

/-- The interval of the frequency output: `CLK_FREQ / 2000`. -/
def INTERVAL : ℕ := CLK_FREQ / 2000

/-- `compensated::setTrim`, when `monotonic::now` reads `now`, with the new value of `frqInc`. -/
def compensated.setTrim (clkComp : Trim W) (now : W) (rate : BitVec 32) : Trim W × BitVec 64 :=
  ({ clkComp.update now with rate := rate },
    rate.signExtend 64 * -BitVec.ofNat 64 INTERVAL + BitVec.ofNat 64 (INTERVAL - 1) <<< 32)

/-- `runClkTai`, when `compensated::now` reads `now`. -/
def runClkTai (clkTai : Trim W) (now : W) : Trim W := clkTai.update now

/-- `tai::setTrim`, when `compensated::now` reads `now`. -/
def tai.setTrim (clkTai : Trim W) (now : W) (trim : BitVec 32) : Trim W :=
  { clkTai.update now with rate := trim }

/-- `tai::adjust` -/
def tai.adjust (clkTai : Trim W) (delta : BitVec 64) : Trim W :=
  { clkTai with offset := clkTai.offset + (delta.toInt : W) }

/-! ## The machine -/

/-- What happens to the clocks: time passes, or one of the functions above is called. -/
inductive ClockAction
  | elapse (ticks : ℕ)
  | runClkComp
  | compSetTrim (rate : BitVec 32)
  | runClkTai
  | taiSetTrim (trim : BitVec 32)
  | taiAdjust (delta : BitVec 64)
  deriving DecidableEq, Repr

namespace Clocks

def compNow (s : Clocks W) : W := compensated.now s.clkComp (monotonic.now s)

def taiNow (s : Clocks W) : W := tai.now s.clkComp s.clkTai (monotonic.now s)

def step (s : Clocks W) : ClockAction → Clocks W
  | .elapse ticks => { s with ticks := s.ticks + ticks }
  | .runClkComp => { s with clkComp := Clock.runClkComp s.clkComp (monotonic.now s) }
  | .compSetTrim rate =>
      let r := compensated.setTrim s.clkComp (monotonic.now s) rate
      { s with clkComp := r.1, frqInc := r.2 }
  | .runClkTai => { s with clkTai := Clock.runClkTai s.clkTai s.compNow }
  | .taiSetTrim trim => { s with clkTai := tai.setTrim s.clkTai s.compNow trim }
  | .taiAdjust delta => { s with clkTai := tai.adjust s.clkTai delta }

/-- The state after some actions. -/
def run (s : Clocks W) (as : List ClockAction) : Clocks W := as.foldl step s

/-- The static memory is zero. -/
def init : Clocks W where
  ticks := 0
  clkComp := ⟨0, 0, 0, 0⟩
  clkTai := ⟨0, 0, 0, 0⟩
  frqInc := 0

end Clocks

end Code

end Gpsdo.Clock
