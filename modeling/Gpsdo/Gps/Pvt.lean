import Gpsdo.Gps.Uart

set_option autoImplicit false

/-! # The last PVT message

The epoch of the receiver is that of the last PVT message with a valid time, and so is its time
stamp if the offset of TAI was known then. No other byte of the stream changes them.
-/

namespace Gpsdo.Gps

open Net

variable {g : Receiver} {env : Env} {byte : Byte}

namespace Receiver

/-! ## Messages -/

/-- The epoch, and when it was set. -/
def epoch (g : Receiver) : BitVec 32 × BitVec 64 := (g.taiEpoch, g.taiEpochUpdate)

/-- The message in the buffer is a PVT message with a valid time. -/
def hasTime (g : Receiver) : Bool :=
  g.msgBuff 2 = 0x01 ∧ g.msgBuff 3 = 0x07 ∧ g.msgBuff 5 ++ g.msgBuff 4 = 92#16 ∧
    g.msgBuff 17 &&& 3 = 3

theorem processUbxGpsTime_epoch (g : Receiver) (payload : ℕ) :
    (g.processUbxGpsTime payload).val.epoch = g.epoch := by
  simp only [processUbxGpsTime, Reading.val_bind]
  split <;> rfl

/-- The seconds since 1900 that a PVT message tells. -/
def pvtSeconds (env : Env) (g : Receiver) (payload : ℕ) : BitVec 32 :=
  let year := yearDays (g.msgBuff (payload + 5) ++ g.msgBuff (payload + 4))
  (((year.1 + lutDays env year.2 (g.msgBuff (payload + 6)) +
    (g.msgBuff (payload + 7)).setWidth 32) * 24 + (g.msgBuff (payload + 8)).setWidth 32) * 60 +
    (g.msgBuff (payload + 9)).setWidth 32) * 60 + (g.msgBuff (payload + 10)).setWidth 32

/-- A message with a valid time sets the epoch. -/
theorem processUbxPVT_epoch (env : Env) (g : Receiver) (payload : ℕ) :
    (g.processUbxPVT env payload).val.epoch =
      if g.msgBuff (payload + 11) &&& 3 = 3 then
        (g.pvtSeconds env payload - 2208988800 + g.taiOffset,
          if g.taiOffset ≠ 0 then env.now else g.taiEpochUpdate)
      else g.epoch := by
  simp only [processUbxPVT, Reading.val_bind]
  split
  · next hinvalid => exact (if_neg hinvalid).symm
  · next hvalid => exact (if_pos (not_not.mp hvalid)).symm

/-- No other message sets the epoch. -/
theorem dispatchUBX_epoch (env : Env) (htime : g.hasTime = false) :
    (g.dispatchUBX env).val.epoch = g.epoch := by
  have hother := of_decide_eq_false htime
  simp only [dispatchUBX, Reading.val_bind]
  split_ifs with hclass hpvt hgps hclock
  · rw [processUbxPVT_epoch, if_neg]
    intro hvalid
    exact hother ⟨hclass, hpvt.1, hpvt.2, hvalid⟩
  · exact processUbxGpsTime_epoch g 6
  · rfl
  · rfl
  · rfl

theorem dispatchUBX_update (env : Env) (htime : g.hasTime = true) :
    (g.dispatchUBX env).val.taiEpochUpdate =
      if g.taiOffset ≠ 0 then env.now else g.taiEpochUpdate := by
  obtain ⟨hclass, hid, hsize, hvalid⟩ := of_decide_eq_true htime
  have hpvt : (g.load 3).val = 0x07 ∧ (g.load16 4).val = 92 := ⟨hid, hsize⟩
  simp only [dispatchUBX, Reading.val_bind]
  rw [if_pos (show (g.load 2).val = 0x01 from hclass), if_pos hpvt]
  have hepoch := processUbxPVT_epoch env g 6
  rw [if_pos hvalid] at hepoch
  exact congrArg Prod.snd hepoch

/-! ## Lines of text -/

theorem processNEMA_epoch (g : Receiver) (len : ℕ) : (g.processNEMA len).val.epoch = g.epoch := by
  unfold processNEMA
  simp only [Reading.val_bind]
  cases (g.scanNEMA len len 0 0).val with
  | mk csum chksum =>
      cases chksum with
      | none => rfl
      | some k =>
          dsimp only [Reading.val_bind, Reading.val_pure]
          split <;> rfl

theorem appendNEMA_epoch (g : Receiver) (byte : Byte) :
    (g.appendNEMA byte).val.epoch = g.epoch := by
  unfold appendNEMA
  split <;> rfl

theorem parseNEMA_epoch (g : Receiver) (byte : Byte) : (g.parseNEMA byte).val.epoch = g.epoch := by
  have happend := appendNEMA_epoch g byte
  unfold parseNEMA
  simp only [Reading.val_bind]
  split
  · exact (processNEMA_epoch _ _).trans happend
  · exact happend

theorem parseStart_epoch (g : Receiver) (byte : Byte) : (g.parseStart byte).val.epoch = g.epoch := by
  unfold parseStart
  split
  · rfl
  · split <;> rfl

/-! ## Turns of the parser -/

/-- The byte completes a PVT message with a valid time. -/
def completesPvt (g : Receiver) (byte : Byte) : Bool :=
  g.lenUBX ≠ 0 ∧ (g.append byte).endUBX ≤ (g.append byte).lenUBX ∧
    ((g.append byte).checksumTest (g.append byte).lenUBX).val = true ∧ (g.append byte).hasTime = true

theorem processUBX_val (env : Env) (g : Receiver) (len : ℕ) :
    (g.processUBX env len).val = if (g.checksumTest len).val then (g.dispatchUBX env).val else g := by
  simp only [processUBX, Reading.val_bind]
  split <;> rfl

theorem testUBX_epoch (env : Env) (hmax : g.lenUBX ≤ MAX_LENGTH)
    (hother : ¬(g.endUBX ≤ g.lenUBX ∧ (g.checksumTest g.lenUBX).val = true ∧ g.hasTime = true)) :
    (g.testUBX env).val.epoch = g.epoch := by
  unfold testUBX
  by_cases hend : g.endUBX ≤ g.lenUBX
  · rw [if_pos hend, if_neg (Nat.not_lt.mpr hmax)]
    show (g.processUBX env g.lenUBX).val.epoch = g.epoch
    rw [processUBX_val]
    split
    · rename_i hpassed
      apply dispatchUBX_epoch
      apply Bool.eq_false_iff.mpr
      intro htime
      exact hother ⟨hend, hpassed, htime⟩
    · rfl
  rw [if_neg hend]
  split
  · simp only [Reading.val_bind, Reading.val_pure]
    split <;> rfl
  · split
    · simp only [Reading.val_bind, Reading.val_pure]
      split <;> rfl
    · rfl

/-- **Other bytes** leave the epoch alone. -/
theorem parse_epoch (env : Env) (hs : g.toParser.Sound) (hother : g.completesPvt byte = false) :
    (g.parse env byte).val.epoch = g.epoch := by
  have hno := of_decide_eq_false hother
  unfold parse
  split
  · -- inside a binary message, which may be complete now
    rename_i h0
    obtain ⟨hlt, -, hmax⟩ := hs h0
    rw [parseUBX_eq hs h0]
    apply testUBX_epoch (g := g.append byte) env
    · exact (Nat.succ_le_of_lt hlt).trans hmax
    · exact fun hdone => hno ⟨h0, hdone⟩
  · simp only [Reading.val_bind]
    rw [parseStart_epoch]
    split
    · exact parseNEMA_epoch g byte
    · rfl

/-- The time stamp of a message, if the offset of TAI is known. -/
theorem parse_update (env : Env) (hs : g.toParser.Sound) (hpvt : g.completesPvt byte = true) :
    (g.parse env byte).val.taiEpochUpdate =
      if g.taiOffset ≠ 0 then env.now else g.taiEpochUpdate := by
  obtain ⟨h0, hend, hpassed, htime⟩ := of_decide_eq_true hpvt
  obtain ⟨hlt, -, hmax⟩ := hs h0
  have hlen : (g.append byte).lenUBX ≤ MAX_LENGTH := (Nat.succ_le_of_lt hlt).trans hmax
  unfold parse
  rw [if_pos h0, parseUBX_eq hs h0]
  show ((g.append byte).testUBX env).val.taiEpochUpdate = _
  unfold testUBX
  rw [if_pos hend, if_neg (Nat.not_lt.mpr hlen)]
  show ((g.append byte).processUBX env (g.append byte).lenUBX).val.taiEpochUpdate = _
  rw [processUBX_val, if_pos hpassed]
  exact dispatchUBX_update env htime

end Receiver

/-! ## Runs -/

/-- What becomes of a PVT message: the epoch that is set, the time, and the offset of TAI then. -/
structure PvtMessage where
  taiEpoch : BitVec 32
  now : BitVec 64
  taiOffset : BitVec 32
  deriving DecidableEq, Repr

/-- The PVT message with a valid time that is processed in a step. -/
def pvtNow (u : Uart) : UartAction → Option PvtMessage
  | .isr _ => none
  | .parse env => u.rx.front.bind fun byte =>
      if u.gps.completesPvt byte then
        some ⟨(u.gps.parse env byte).val.taiEpoch, env.now, u.gps.taiOffset⟩
      else none

/-- The last one of a run. -/
def lastPvt : UartHistory → Option PvtMessage
  | [] => none
  | (u, a) :: h => (pvtNow u a).or (lastPvt h)

/-- The epoch is that of the message. -/
structure Shows (g : Receiver) (m : PvtMessage) : Prop where
  taiEpoch : g.taiEpoch = m.taiEpoch
  update : m.taiOffset ≠ 0 → g.taiEpochUpdate = m.now

theorem Shows.of_epoch {g' : Receiver} {m : PvtMessage} (hg : Shows g m) (heq : g'.epoch = g.epoch) :
    Shows g' m where
  taiEpoch := (congrArg Prod.fst heq).trans hg.taiEpoch
  update hoffset := (congrArg Prod.snd heq).trans (hg.update hoffset)

variable {memory : Mem Byte} {h : UartHistory} {u u' : Uart}

/-- A step of the receiving side. -/
theorem Uart.step_shows {a : UartAction} (hs : u.gps.toParser.Sound)
    (hlast : ∀ m, lastPvt h = some m → Shows u.gps m) (hstep : Uart.step u a = some u') :
    u'.gps.toParser.Sound ∧ ∀ m, lastPvt ((u, a) :: h) = some m → Shows u'.gps m := by
  cases a with
  | isr bytes =>
      obtain rfl := Option.some.inj hstep
      exact ⟨hs, hlast⟩
  | parse env =>
      obtain ⟨byte, hfront, rfl⟩ := Option.map_eq_some_iff.mp hstep
      refine ⟨(Receiver.parse_turn env byte hs).sound hs, ?_⟩
      intro m hm
      simp only [lastPvt, pvtNow, hfront, Option.bind_some] at hm
      by_cases hpvt : u.gps.completesPvt byte = true
      · -- the message of this step is the last one now
        rw [if_pos hpvt] at hm
        obtain rfl := Option.some.inj hm
        constructor
        · rfl
        · intro hoffset
          show (u.gps.parse env byte).val.taiEpochUpdate = _
          rw [Receiver.parse_update env hs hpvt, if_pos hoffset]
      · rw [if_neg hpvt] at hm
        apply (hlast m hm).of_epoch
        exact Receiver.parse_epoch env hs (Bool.eq_false_iff.mpr hpvt)

/-- **The receiver shows the last PVT message**, whatever the bytes are. -/
theorem run_shows (hrun : Run Uart.step (Uart.init memory) h u) {m : PvtMessage}
    (hlast : lastPvt h = some m) : Shows u.gps m := by
  have hall : u.gps.toParser.Sound ∧ ∀ m, lastPvt h = some m → Shows u.gps m := by
    apply hrun.invariant (I := fun h u => u.gps.toParser.Sound ∧
      ∀ m, lastPvt h = some m → Shows u.gps m)
    · refine ⟨fun hne => absurd rfl hne, ?_⟩
      intro m hm
      cases hm
    · rintro h u a u' ⟨hs, hshows⟩ hstep
      exact Uart.step_shows hs hshows hstep
  exact hall.2 m hlast

end Gpsdo.Gps
