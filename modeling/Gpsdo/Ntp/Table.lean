import Gpsdo.Basic.Run
import Gpsdo.Ntp.Peer

set_option autoImplicit false

/-! # The source table (`lib/ntp/ntp.cpp`)

The list of time sources and the selection of the one that the clock follows, as a machine. A
pointer to a source is a `Ref`: the GPS source or one of the slots for peers. What the task of a
listed source does to it is one of two actions: it pushes a sample into the filter, or sets its
status fields. `Ntp/Tasks.lean` shows that `Peer::run`, `Peer::receive` and `GPS::run` do no more.
The floating-point controller of `PLL_updateOffset` is left out, its hard steps are not.
-/

namespace Gpsdo.Ntp

/-! ## Data -/

abbrev MAX_NTP_PEERS : Nat := 8

abbrev MAX_NTP_SRCS : Nat := 9

/-- For the literals of slots. -/
instance neZero_peers : NeZero MAX_NTP_PEERS := ⟨by decide⟩

/-- A pointer to a source. -/
inductive Ref
  | gps
  | peer (slot : Fin MAX_NTP_PEERS)
  deriving DecidableEq, Repr

/-- `PLL_OFFSET_HARD_ALIGN` -/
def PLL_OFFSET_HARD_ALIGN : BitVec 64 := 0x01000000

/-- The static variables of `ntp.cpp`, and the offset of the TAI clock. -/
structure Table (F : Type) where
  /-- `rawGps` and `rawPeers`. -/
  mem : Ref → Source F
  sources : Fin MAX_NTP_SRCS → Option Ref
  cntSources : Nat
  selectedSource : Option Ref
  lastUpdate : BitVec 64
  leapIndicator : Nat
  clockStratum : Nat
  refId : BitVec 32
  rootDelay : BitVec 32
  rootDispersion : BitVec 32
  clkTaiOffset : BitVec 64

/-- A call of `PLL_updateOffset` and `PLL_updateDrift`: which update of which source is fed to the
controller. -/
structure Feed where
  source : Ref
  lastUpdate : BitVec 64
  interval : Nat
  offset : BitVec 64
  deriving DecidableEq, Repr

variable {F : Type}

namespace Table

/-- `sources[i]` -/
def entry (T : Table F) (i : Nat) : Option Ref :=
  if h : i < MAX_NTP_SRCS then T.sources ⟨i, h⟩ else none

/-- The sources that the loops `for (uint32_t i = 0; i < cntSources; i++)` come to. -/
def listed (T : Table F) : List Ref := (List.range T.cntSources).filterMap T.entry

/-- Change a source. -/
def modify (T : Table F) (r : Ref) (f : Source F → Source F) : Table F :=
  { T with mem := Function.update T.mem r (f (T.mem r)) }

@[simp] theorem modify_mem_self (T : Table F) (r : Ref) (f : Source F → Source F) :
    (T.modify r f).mem r = f (T.mem r) := Function.update_self _ _ _

theorem modify_mem_of_ne (T : Table F) {r r' : Ref} (h : r' ≠ r) (f : Source F → Source F) :
    (T.modify r f).mem r' = T.mem r' := Function.update_of_ne h _ _

/-! ## Clock steps -/

/-- `ntpApplyOffset` -/
def ntpApplyOffset (T : Table F) (offset : BitVec 64) : Table F :=
  T.listed.foldl (fun T r => T.modify r (·.applyOffset offset)) T

/-- `ntpSetTaiClock` -/
def ntpSetTaiClock (T : Table F) (offset : BitVec 64) : Table F :=
  ({ T with clkTaiOffset := T.clkTaiOffset + offset } : Table F).ntpApplyOffset offset

/-- The offset is too large for the controller. -/
def hardAlign (offset : BitVec 64) : Bool :=
  PLL_OFFSET_HARD_ALIGN.slt offset || offset.slt (-PLL_OFFSET_HARD_ALIGN)

/-- `PLL_updateOffset` -/
def PLL_updateOffset (T : Table F) (offset : BitVec 64) : Table F :=
  if hardAlign offset then T.ntpSetTaiClock offset else T

/-! ## Peers -/

/-- `newPeer` -/
def newPeer [Single F] (T : Table F) (ipAddr ipSubnet ipAddress : BitVec 32) : Table F :=
  match (List.finRange MAX_NTP_PEERS).find? fun i => !(T.mem (.peer i)).isAllocated with
  | none => T
  | some slot =>
      { T with
        mem := Function.update T.mem (.peer slot) (Peer.new ipAddr ipSubnet ipAddress).toSource,
        sources := fun i => if i.val = T.cntSources then some (.peer slot) else T.sources i,
        cntSources := T.cntSources + 1 }

/-- `deletePeer` -/
def deletePeer (T : Table F) (peer : Ref) : Table F :=
  let T := if T.selectedSource = some peer then { T with selectedSource := none } else T
  match (List.range T.cntSources).reverse.find? fun i => T.entry i = some peer with
  | none => T
  | some slot =>
      let cnt := T.cntSources - 1
      { T with
        cntSources := cnt,
        sources := fun i =>
          if i.val = cnt then none
          else if slot ≤ i.val ∧ i.val < cnt then T.entry (i.val + 1)
          else T.sources i,
        mem := Function.update T.mem peer (T.mem peer).destroy }

/-- `ntpDnsCallback` -/
def ntpDnsCallback [Single F] (T : Table F) (addr ipSubnet ipAddress : BitVec 32) : Table F :=
  if MAX_NTP_SRCS ≤ T.cntSources then T
  else if addr = ipAddress then T
  else if T.listed.any fun r => (T.mem r).isRecipient addr then T
  else T.newPeer addr ipSubnet ipAddress

/-! ## Selection -/

/-- The loop of `runSelect` that prunes a source. -/
def pruneSource (T : Table F) : Table F :=
  match T.listed.find? fun r => (T.mem r).isPruneable with
  | none => T
  | some r => T.deletePeer r

/-- One step of the loop of `runSelect` that looks for the best source. -/
def considerSource [Single F] (T : Table F) (r : Ref) : Table F :=
  let (selectable, src) := (T.mem r).isSelectable
  let T := T.modify r fun _ => src
  if selectable = false then T
  else
    match T.selectedSource with
    | none => { T with selectedSource := some r }
    | some best =>
        if Single.lt (T.mem r).score (T.mem best).score then { T with selectedSource := some r }
        else T

/-- `runSelect` up to the choice of the best source. -/
def selectBest [Single F] (T : Table F) : Table F :=
  let T := T.pruneSource
  T.listed.foldl considerSource { T with selectedSource := none }

/-- The part of `runSelect` that sets the aggregate status from the selected source. -/
def setStatus [Single F] (T : Table F) (source : Source F) : Table F :=
  { T with
    lastUpdate := source.lastUpdate,
    refId := source.id,
    clockStratum := source.stratum + 1,
    leapIndicator := source.leap,
    rootDelay := source.rootDelay + Single.fix16 source.delayMean,
    rootDispersion := source.rootDispersion + Single.fix16 source.delayStdDev }

/-- The part of `runSelect` that feeds the selected source to the controller, if it has an update
that is not the last one fed. -/
def feedSource [Single F] (T : Table F) (r : Ref) : Table F × Option Feed :=
  let source := T.mem r
  if T.lastUpdate = source.lastUpdate then (T, none)
  else
    ((T.setStatus source).PLL_updateOffset source.filteredOffset,
      some ⟨r, source.lastUpdate, source.poll, source.filteredOffset⟩)

/-- `runSelect`, with the update that it feeds to the controller. -/
def runSelect [Single F] (T : Table F) : Table F × Option Feed :=
  let T := T.selectBest
  match T.selectedSource with
  | none =>
      ({ T with
          refId := 0, clockStratum := 16, leapIndicator := 3, rootDelay := 0,
          rootDispersion := 0 }, none)
  | some r => (T.modify r Source.select).feedSource r

/-! ## The machine -/

/-- A slot for a peer that has never been used: the static memory is zero. -/
def rawPeer [Single F] : Source F := { (Source.new 0 0 : Source F) with lost := false, state := .selected }

/-- The state that `ntp::init` leaves. -/
def init [Single F] : Table F where
  mem
    | .gps => (GPS.new : GPS F).toSource
    | .peer _ => rawPeer
  sources i := if i.val = 0 then some .gps else none
  cntSources := 1
  selectedSource := none
  lastUpdate := 0
  leapIndicator := 0
  clockStratum := 16
  refId := 0
  rootDelay := 0
  rootDispersion := 0
  clkTaiOffset := 0

end Table

/-- What happens to the table. -/
inductive TableAction (F : Type)
  /-- `ntpDnsCallback`, from a DNS answer or the list of DHCP. -/
  | report (addr ipSubnet ipAddress : BitVec 32)
  /-- A listed source pushes a sample. -/
  | update (r : Ref) (smp : Sample) (stats : Stats F) (now : BitVec 64)
  /-- A listed source sets its status. -/
  | status (r : Ref) (status : Status)
  | setTaiClock (offset : BitVec 64)
  | select

/-- The source that an action updates, and the time of the update. -/
def TableAction.updates : TableAction F → Option (Ref × BitVec 64)
  | .update r _ _ now => some (r, now)
  | _ => none

/-- The machine of the source table. -/
def Table.step [Single F] (T : Table F) : TableAction F → Option (Table F)
  | .report addr ipSubnet ipAddress => some (T.ntpDnsCallback addr ipSubnet ipAddress)
  | .update r smp stats now =>
      if r ∈ T.listed then some (T.modify r (·.push smp stats now)) else none
  | .status r status =>
      if r ∈ T.listed then some (T.modify r ({ · with toStatus := status })) else none
  | .setTaiClock offset => some (T.ntpSetTaiClock offset)
  | .select => some T.runSelect.1

/-- The history of a run of the machine, newest first. -/
abbrev TableHistory (F : Type) := List (Table F × TableAction F)

/-! ## Sources to look at -/

/-- The status of a source that answers. -/
def reachable : Status :=
  { (Table.rawPeer : Source Nano).toStatus with reach := 0xFFFF, stratum := 1 }

/-- Eight used samples and a score. -/
def scored (score : Int) : Stats Nano := ⟨8, ⟨0⟩, ⟨0⟩, ⟨0⟩, ⟨score⟩⟩

end Gpsdo.Ntp
