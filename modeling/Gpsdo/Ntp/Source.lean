import Mathlib.Data.BitVec
import Mathlib.Tactic

set_option autoImplicit false

/-! # Time sources (`lib/ntp/Source.cpp`)

The data of `class Source` and its member functions. Times and offsets are 32.32 fixed point in
64-bit words. The single-precision numbers of the source (`float`) are a type `F` with the few
operations that selection and status need; what `updateFilter` computes in them is an argument of
the model (`Stats`). Fields that only the status reports to `chronyc` read are left out.
-/

namespace Gpsdo.Ntp

/-! ## Data -/

/-- The operations on `float` that the control flow depends on. -/
class Single (F : Type) where
  zero : F
  lt : F → F → Bool
  /-- `static_cast<uint32_t>(0x1p16f * x)` -/
  fix16 : F → BitVec 32
  MAX_FREQ_SKEW : F
  MAX_DELAY : F

/-- Numbers in billionths, to compute with. -/
structure Nano where
  val : Int
  deriving DecidableEq, Repr

instance : Single Nano where
  zero := ⟨0⟩
  lt x y := decide (x.val < y.val)
  fix16 x := BitVec.ofInt 32 ((x.val * 65536).tdiv 1000000000)
  MAX_FREQ_SKEW := ⟨50000⟩
  MAX_DELAY := ⟨50000000⟩

/-- The maximum number of polling samples. -/
def MAX_HISTORY : Nat := 16

def MAX_STRATUM : Nat := 3

def RPY_SD_MD_CLIENT : Nat := 0

def RPY_SD_MD_REF : Nat := 2

/-- `RPY_SD_ST_SELECTED` and its siblings. -/
inductive SdState
  | selected
  | nonselectable
  | falseticker
  | jittery
  | unselected
  | selectable
  deriving DecidableEq, Repr

/-- `struct Sample`. The delay is kept as the integer it is converted from. -/
structure Sample where
  taiLocal : BitVec 64
  taiRemote : BitVec 64
  delay : BitVec 32
  deriving DecidableEq, Repr

/-- `Sample::getOffset` -/
def Sample.getOffset (smp : Sample) : BitVec 64 := smp.taiRemote - smp.taiLocal

/-- What `updateFilter` computes in floating point from the samples: the number of samples with
weight, the mean and deviation of the delay, the frequency skew and the score. -/
structure Stats (F : Type) where
  count : Nat
  delayMean : F
  delayStdDev : F
  freqSkew : F
  score : F

/-- The fields of `class Source` that its task sets outside the filter: what it knows of the server,
and how polling goes. -/
structure Status where
  refTime : BitVec 64
  refId : BitVec 32
  rootDelay : BitVec 32
  rootDispersion : BitVec 32
  rxCount : BitVec 32
  rxValid : BitVec 32
  txCount : BitVec 32
  reach : BitVec 16
  stratum : Nat
  poll : Nat
  pollCounter : BitVec 16
  precision : BitVec 8
  leap : Nat
  version : Nat
  ntpMode : Nat
  xleave : Bool
  prune : Bool
  lost : Bool
  deriving DecidableEq, Repr

/-- `class Source` -/
structure Source (F : Type) extends Status where
  ringSamples : Fin 16 → Sample
  ringPtr : Fin 16
  sampleCount : Nat
  usedOffset : Nat
  usedDrift : Nat
  filteredOffset : BitVec 64
  lastUpdate : BitVec 64
  id : BitVec 32
  mode : Nat
  state : SdState
  minPoll : Nat
  maxPoll : Nat
  delayMean : F
  delayStdDev : F
  freqSkew : F
  score : F

namespace Source

variable {F : Type}

/-- `Source::Source` -/
def new [Single F] (id_ : BitVec 32) (mode_ : Nat) : Source F where
  ringSamples := fun _ => ⟨0, 0, 0⟩
  ringPtr := 0
  sampleCount := 0
  usedOffset := 0
  usedDrift := 0
  filteredOffset := 0
  lastUpdate := 0
  refTime := 0
  id := id_
  refId := 0
  rootDelay := 0
  rootDispersion := 0
  rxCount := 0
  rxValid := 0
  txCount := 0
  mode := mode_
  state := .unselected
  reach := 0
  stratum := 0
  poll := 0
  pollCounter := 0
  minPoll := 0
  maxPoll := 0
  precision := 0
  leap := 0
  version := 0
  ntpMode := 0
  delayMean := Single.zero
  delayStdDev := Single.zero
  freqSkew := Single.zero
  score := Single.zero
  xleave := false
  prune := false
  lost := true

/-! ## Member functions -/

/-- `Source::~Source`; the tasks of the source are cancelled by the scheduler. -/
def destroy (src : Source F) : Source F := { src with mode := 0, id := 0 }

/-- `Source::isAllocated` -/
def isAllocated (src : Source F) : Bool := src.id != 0

/-- `Source::isReference` -/
def isReference (src : Source F) : Bool := src.mode == RPY_SD_MD_REF

/-- `Source::isRemote` -/
def isRemote (src : Source F) : Bool := src.mode == RPY_SD_MD_CLIENT

/-- `Source::isRecipient` -/
def isRecipient (src : Source F) (srcAddr : BitVec 32) : Bool := src.isRemote && src.id == srcAddr

/-- `Source::isPruneable` -/
def isPruneable (src : Source F) : Bool := !src.isReference && src.prune

/-- `Source::isSelectable`: the state it stores, which says whether it returns true. -/
def selectState [Single F] (src : Source F) : SdState :=
  if src.reach = 0 ∨ src.lost = true then .nonselectable
  else if src.usedOffset < 8 ∨ src.usedDrift < 4 then .falseticker
  else if Single.lt Single.MAX_FREQ_SKEW src.freqSkew then .jittery
  else .selectable

/-- A selectable source has used samples. -/
theorem usedOffset_of_selectable [Single F] {src : Source F} (h : src.selectState = .selectable) :
    0 < src.usedOffset := by
  unfold selectState at h
  split_ifs at h with h1 h2 h3
  omega

/-- `Source::isSelectable` -/
def isSelectable [Single F] (src : Source F) : Bool × Source F :=
  (src.selectState == .selectable, { src with state := src.selectState })

/-- `Source::select` -/
def select (src : Source F) : Source F := { src with state := .selected }

/-- `Source::applyOffset` -/
def applyOffset (src : Source F) (offset : BitVec 64) : Source F :=
  { src with ringSamples := fun i =>
      { src.ringSamples i with taiLocal := (src.ringSamples i).taiLocal + offset } }

/-- `Source::advanceFilter`; the caller then writes to the sample at `ringPtr`. -/
def advanceFilter (src : Source F) : Source F :=
  { src with
    ringPtr := src.ringPtr + 1,
    sampleCount := if src.sampleCount < MAX_HISTORY then src.sampleCount + 1 else src.sampleCount }

/-- The sample at `ringPtr`. -/
def newest (src : Source F) : Sample := src.ringSamples src.ringPtr

/-- Assign to the sample at `ringPtr`. -/
def setSample (src : Source F) (smp : Sample) : Source F :=
  { src with ringSamples := Function.update src.ringSamples src.ringPtr smp }

/-- `Source::updateFilter` at the monotonic time `now`. -/
def updateFilter (src : Source F) (stats : Stats F) (now : BitVec 64) : Source F :=
  { src with
    delayMean := stats.delayMean,
    delayStdDev := stats.delayStdDev,
    filteredOffset := src.newest.getOffset,
    freqSkew := stats.freqSkew,
    usedOffset := stats.count,
    usedDrift := stats.count,
    score := stats.score,
    lastUpdate := now }

/-- A source update: the sample buffer advances, the new sample is written, and the filter is
updated. -/
def push (src : Source F) (smp : Sample) (stats : Stats F) (now : BitVec 64) : Source F :=
  (src.advanceFilter.setSample smp).updateFilter stats now

@[simp] theorem applyOffset_zero (src : Source F) : src.applyOffset 0#64 = src := by
  simp [applyOffset]

/-- Two steps are one step by the sum. -/
theorem applyOffset_add (src : Source F) (a b : BitVec 64) :
    (src.applyOffset a).applyOffset b = src.applyOffset (a + b) := by
  simp [applyOffset, BitVec.add_assoc]

/-! ## The cached offset -/

/-- The cached offset is that of the newest sample. -/
def OffsetCurrent (src : Source F) : Prop :=
  0 < src.sampleCount → src.filteredOffset = src.newest.getOffset

@[simp] theorem newest_push (src : Source F) (smp : Sample) (stats : Stats F) (now : BitVec 64) :
    (src.push smp stats now).newest = smp := by
  simp [push, newest, updateFilter, setSample]

theorem offsetCurrent_push (src : Source F) (smp : Sample) (stats : Stats F) (now : BitVec 64) :
    (src.push smp stats now).OffsetCurrent := by
  intro _
  rw [newest_push]
  simp [push, newest, updateFilter, setSample]

/-- **A hard step makes the cached offset stale**, unless it is no step or there is no sample. -/
theorem offsetCurrent_applyOffset_iff {src : Source F} (h : src.OffsetCurrent) (offset : BitVec 64) :
    (src.applyOffset offset).OffsetCurrent ↔ offset = 0 ∨ src.sampleCount = 0 := by
  have hoff : (src.applyOffset offset).newest.getOffset = src.newest.getOffset - offset := by
    simp only [newest, applyOffset, Sample.getOffset]
    ring
  show (0 < src.sampleCount → src.filteredOffset = _) ↔ _
  rw [hoff]
  by_cases hc : src.sampleCount = 0
  · simp [hc]
  · have hcur := h (Nat.pos_of_ne_zero hc)
    constructor
    · intro hnew
      have heq : src.newest.getOffset = src.newest.getOffset - offset :=
        hcur.symm.trans (hnew (Nat.pos_of_ne_zero hc))
      left
      calc offset = src.newest.getOffset - (src.newest.getOffset - offset) := by ring
        _ = 0 := by rw [← heq]; ring
    · rintro (rfl | h0)
      · intro _
        rw [hcur]
        ring
      · exact absurd h0 hc

end Source

end Gpsdo.Ntp
