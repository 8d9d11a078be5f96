import Gpsdo.Basic.CObject

set_option autoImplicit false

/-! # The layout of the packets of chronyc (`lib/chrony/candm.h`)

Signed and unsigned integers of a width have one layout. Every record ends with the field EOR.
-/

namespace Gpsdo.Chrony

open CType

/-! ## Fields -/

namespace IPAddr

/-- The member `addr` is a union of in4, in6 and id; family and padding follow. -/
def fields : List CType := [union [uint32_t, array 16 uint8_t, uint32_t], uint16_t, uint16_t]

def family : ℕ := offsetof fields 1

end IPAddr

def IPAddr : CType := struct IPAddr.fields

/-- The halves of the seconds, and the nanoseconds. -/
def Timespec : CType := struct [uint32_t, uint32_t, uint32_t]

def Integer64 : CType := struct [uint32_t, uint32_t]

def Float : CType := struct [uint32_t]

/-! ## Requests -/

def REQ_Null : CType := struct [uint32_t]

def REQ_Online : CType := struct [IPAddr, IPAddr, uint32_t]

def REQ_Offline : CType := struct [IPAddr, IPAddr, uint32_t]

def REQ_Burst : CType := struct [IPAddr, IPAddr, uint32_t, uint32_t, uint32_t]

def REQ_Modify_Minpoll : CType := struct [IPAddr, uint32_t, uint32_t]

def REQ_Modify_Maxpoll : CType := struct [IPAddr, uint32_t, uint32_t]

def REQ_Dump : CType := struct [uint32_t, uint32_t]

def REQ_Modify_Maxdelay : CType := struct [IPAddr, Float, uint32_t]

def REQ_Modify_Maxdelayratio : CType := struct [IPAddr, Float, uint32_t]

def REQ_Modify_Maxdelaydevratio : CType := struct [IPAddr, Float, uint32_t]

def REQ_Modify_Minstratum : CType := struct [IPAddr, uint32_t, uint32_t]

def REQ_Modify_Polltarget : CType := struct [IPAddr, uint32_t, uint32_t]

def REQ_Modify_Maxupdateskew : CType := struct [Float, uint32_t]

def REQ_Modify_Makestep : CType := struct [uint32_t, Float, uint32_t]

def REQ_Logon : CType := struct [Timespec, uint32_t]

def REQ_Settime : CType := struct [Timespec, uint32_t]

def REQ_Local : CType := struct [uint32_t, uint32_t, Float, uint32_t, uint32_t]

def REQ_Manual : CType := struct [uint32_t, uint32_t]

def REQ_Source_Data : CType := struct [uint32_t, uint32_t]

def REQ_Allow_Deny : CType := struct [IPAddr, uint32_t, uint32_t]

def REQ_Ac_Check : CType := struct [IPAddr, uint32_t]

/-- Type and name, twelve integers from the port to `nts_port`, six floats from `max_delay` to
`offset`, then `flags`, `filter_length`, `cert_set`, `max_delay_quant` and `reserved`. -/
def REQ_NTP_Source : CType := struct [
  uint32_t, array 256 uint8_t,
  uint32_t, uint32_t, uint32_t, uint32_t, uint32_t, uint32_t,
  uint32_t, uint32_t, uint32_t, uint32_t, uint32_t, uint32_t,
  Float, Float, Float, Float, Float, Float,
  uint32_t, uint32_t, uint32_t, Float, array 1 uint32_t, uint32_t]

def REQ_Del_Source : CType := struct [IPAddr, uint32_t]

def REQ_Dfreq : CType := struct [Float, uint32_t]

def REQ_Doffset : CType := struct [Float, uint32_t]

def REQ_Sourcestats : CType := struct [uint32_t, uint32_t]

def REQ_ClientAccessesByIndex : CType := struct [uint32_t, uint32_t, uint32_t, uint32_t, uint32_t]

def REQ_ManualDelete : CType := struct [uint32_t, uint32_t]

def REQ_ReselectDistance : CType := struct [Float, uint32_t]

def REQ_SmoothTime : CType := struct [uint32_t, uint32_t]

def REQ_NTPData : CType := struct [IPAddr, uint32_t]

def REQ_NTPSourceName : CType := struct [IPAddr, uint32_t]

def REQ_AuthData : CType := struct [IPAddr, uint32_t]

def REQ_SelectData : CType := struct [uint32_t, uint32_t]

def REQ_Modify_SelectOpts : CType := struct [IPAddr, uint32_t, uint32_t, uint32_t, uint32_t]

def MAX_PADDING_LENGTH : ℕ := 484

namespace CMD_Request

def data : List CType := [
  REQ_Null, REQ_Online, REQ_Offline, REQ_Burst, REQ_Modify_Minpoll, REQ_Modify_Maxpoll, REQ_Dump,
  REQ_Modify_Maxdelay, REQ_Modify_Maxdelayratio, REQ_Modify_Maxdelaydevratio,
  REQ_Modify_Minstratum, REQ_Modify_Polltarget, REQ_Modify_Maxupdateskew, REQ_Modify_Makestep,
  REQ_Logon, REQ_Settime, REQ_Local, REQ_Manual, REQ_Source_Data, REQ_Allow_Deny, REQ_Ac_Check,
  REQ_NTP_Source, REQ_Del_Source, REQ_Dfreq, REQ_Doffset, REQ_Sourcestats,
  REQ_ClientAccessesByIndex, REQ_ManualDelete, REQ_ReselectDistance, REQ_SmoothTime, REQ_NTPData,
  REQ_NTPSourceName, REQ_AuthData, REQ_SelectData, REQ_Modify_SelectOpts]

/-- version, pkt_type, res1, res2, command, attempt, sequence, pad1, pad2, data, padding. -/
def fields : List CType := [
  uint8_t, uint8_t, uint8_t, uint8_t, uint16_t, uint16_t, uint32_t, uint32_t, uint32_t,
  union data, array MAX_PADDING_LENGTH uint8_t]

def size : ℕ := (struct fields).size

def version : ℕ := offsetof fields 0

def pkt_type : ℕ := offsetof fields 1

def command : ℕ := offsetof fields 4

def sequence : ℕ := offsetof fields 6

def pad1 : ℕ := offsetof fields 7

def pad2 : ℕ := offsetof fields 8

/-- Where the member `data` is. -/
def dataOffset : ℕ := offsetof fields 9

end CMD_Request

/-! ## Replies -/

def MAX_CLIENT_ACCESSES : ℕ := 8

def MAX_MANUAL_LIST_SAMPLES : ℕ := 16

def RPY_Null : List CType := [uint32_t]

def RPY_N_Sources : List CType := [uint32_t, uint32_t]

def RPY_Source_Data : List CType := [
  IPAddr, uint16_t, uint16_t, uint16_t, uint16_t, uint16_t, uint16_t, uint32_t,
  Float, Float, Float, uint32_t]

def RPY_Tracking : List CType := [
  uint32_t, IPAddr, uint16_t, uint16_t, Timespec, Float, Float, Float, Float, Float, Float, Float,
  Float, Float, uint32_t]

def RPY_Sourcestats : List CType := [
  uint32_t, IPAddr, uint32_t, uint32_t, uint32_t, Float, Float, Float, Float, Float, uint32_t]

def RPY_Rtc : List CType := [Timespec, uint16_t, uint16_t, uint32_t, Float, Float, uint32_t]

def RPY_ManualTimestamp : List CType := [Float, Float, Float, uint32_t]

def RPY_ClientAccesses_Client : List CType := [
  IPAddr, uint32_t, uint32_t, uint32_t, uint32_t, uint32_t, uint32_t,
  uint8_t, uint8_t, uint8_t, uint8_t, uint32_t, uint32_t, uint32_t]

def RPY_ClientAccessesByIndex : List CType := [
  uint32_t, uint32_t, uint32_t,
  array MAX_CLIENT_ACCESSES (struct RPY_ClientAccesses_Client), uint32_t]

/-- Seventeen counters, from `ntp_hits` to `ntp_hw_tx_timestamps`. -/
def RPY_ServerStats : List CType := [
  Integer64, Integer64, Integer64, Integer64, Integer64, Integer64, Integer64, Integer64,
  Integer64, Integer64, Integer64, Integer64, Integer64, Integer64, Integer64, Integer64,
  Integer64, array 4 Integer64, uint32_t]

def RPY_ManualListSample : List CType := [Timespec, Float, Float, Float]

def RPY_ManualList : List CType := [
  uint32_t, array MAX_MANUAL_LIST_SAMPLES (struct RPY_ManualListSample), uint32_t]

def RPY_Activity : List CType := [uint32_t, uint32_t, uint32_t, uint32_t, uint32_t, uint32_t]

def RPY_Smoothing : List CType := [uint32_t, Float, Float, Float, Float, Float, uint32_t]

def RPY_NTPData : List CType := [
  IPAddr, IPAddr, uint16_t, uint8_t, uint8_t, uint8_t, uint8_t, uint8_t, uint8_t,
  Float, Float, uint32_t, Timespec, Float, Float, Float, Float, Float, uint16_t, uint8_t, uint8_t,
  uint32_t, uint32_t, uint32_t, uint32_t, array 3 uint32_t, uint32_t]

def RPY_NTPSourceName : List CType := [array 256 uint8_t, uint32_t]

def RPY_AuthData : List CType := [
  uint16_t, uint16_t, uint32_t, uint16_t, uint16_t, uint32_t, uint16_t, uint16_t, uint16_t,
  uint16_t, uint32_t]

def RPY_SelectData : List CType := [
  uint32_t, IPAddr, uint8_t, uint8_t, uint8_t, uint8_t, uint16_t, uint16_t, uint32_t,
  Float, Float, Float, uint32_t]

namespace CMD_Reply

def data : List CType := [
  struct RPY_Null, struct RPY_N_Sources, struct RPY_Source_Data, struct RPY_ManualTimestamp,
  struct RPY_Tracking, struct RPY_Sourcestats, struct RPY_Rtc, struct RPY_ClientAccessesByIndex,
  struct RPY_ServerStats, struct RPY_ManualList, struct RPY_Activity, struct RPY_Smoothing,
  struct RPY_NTPData, struct RPY_NTPSourceName, struct RPY_AuthData, struct RPY_SelectData]

/-- version, pkt_type, res1, res2, command, reply, status, pad1, pad2, pad3, sequence, pad4, pad5,
data. -/
def fields : List CType := [
  uint8_t, uint8_t, uint8_t, uint8_t, uint16_t, uint16_t, uint16_t, uint16_t, uint16_t, uint16_t,
  uint32_t, uint32_t, uint32_t, union data]

def size : ℕ := (struct fields).size

def version : ℕ := offsetof fields 0

def pkt_type : ℕ := offsetof fields 1

def command : ℕ := offsetof fields 4

def reply : ℕ := offsetof fields 5

def status : ℕ := offsetof fields 6

def sequence : ℕ := offsetof fields 10

/-- Where the member `data` is. -/
def dataOffset : ℕ := offsetof fields 13

/-- `offsetof(CMD_Reply, data.x.EOR)`, where `x` is a record with the members `ts`. -/
def EOR (ts : List CType) : ℕ := dataOffset + offsetof ts (ts.length - 1)

end CMD_Reply

/-- The padding of a request makes it larger than any reply. -/
theorem sizes : CMD_Request.size = 860 ∧ CMD_Reply.size = 524 := by decide +kernel

/-- A record of the union lies in the reply. -/
theorem data_le_size {ts : List CType} (h : struct ts ∈ CMD_Reply.data) :
    CMD_Reply.dataOffset + (struct ts).size ≤ CMD_Reply.size := by
  have hunion : CMD_Reply.fields[13]? = some (union CMD_Reply.data) := rfl
  have hfits := offsetof_add_size_le hunion
  have hmember := size_le_union h
  unfold CMD_Reply.dataOffset CMD_Reply.size
  omega

end Gpsdo.Chrony
