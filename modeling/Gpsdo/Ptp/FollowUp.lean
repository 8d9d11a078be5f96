import Gpsdo.Net.TxStamps
import Gpsdo.Ptp.Responses

set_option autoImplicit false

/-! # Follow-ups (`lib/ptp/ptp.cpp`)

When a SYNC message has left, the transmitter calls `syncFollowup`, which sends its precise time in
a second message; `peerDelayRespFollowup` does so for the responses to peer delay requests. Here the
functions of `ptp.cpp` run next to the transmit ring, to the DMA and to the rest of the firmware,
which transmits frames of its own.
-/

namespace Gpsdo.Ptp

open Clock Packed
open Net (Byte Addr Tx TxAction TxHistory Submission)

/-! ## The machine -/

/-- The transmit ring, the next sequence number, and the callback that runs. -/
structure Station where
  tx : Tx
  seqId : BitVec 32
  calling : Option Tx.TxCall

/-- What happens: one of the functions of `ptp.cpp` runs, another part of the firmware transmits a
frame, or there is a step of the transmit ring. -/
inductive PtpAction
  | sendAnnounce (env : Env)
  | sendSync (env : Env)
  | PTP_process (env : Env) (rxTime : BitVec 32 × BitVec 32) (frame : List Byte)
  | transmit (frame : List Byte) (callback : Option Addr) (ref : Addr)
  | mark
  | processFrameTx
  /-- `syncFollowup` or `peerDelayRespFollowup` runs. -/
  | callback (env : Env)
  /-- Another callback returns. -/
  | returned
  | complete (status : BitVec 18) (time : BitVec 32 × BitVec 32)

def announcePacked : Packed (PacketPTP PTP2_ANNOUNCE) := PacketPTP.packed PTP2_ANNOUNCE.packed

/-- The callbacks of `ptp.cpp`. -/
def isFollowUp (addr : Addr) : Bool := addr = syncFollowupAddr || addr = peerDelayRespFollowupAddr

/-- The follow-up that a callback transmits. -/
def followUp (env : Env) (txTime : BitVec 32 × BitVec 32) (addr : Addr) (frame : List Byte) :
    List Byte :=
  if addr = syncFollowupAddr then syncPacked.bytes (syncFollowup env txTime frame)
  else responsePacked.bytes (peerDelayRespFollowup env txTime frame)

namespace Station

def init : Station := ⟨Tx.init, 0, none⟩

/-- The frame that is given to `network::transmit`, with its callback and the reference. -/
def submits (s : Station) : PtpAction → Option Submission
  | .sendAnnounce env => some ⟨announcePacked.bytes (announce env s.seqId), none, 0⟩
  | .sendSync env => some ⟨syncPacked.bytes (sync env s.seqId), some syncFollowupAddr, 0⟩
  | .PTP_process env rxTime frame =>
      (Ptp.PTP_process env rxTime frame).map fun r => ⟨r.1, r.2, 0⟩
  | .transmit frame callback ref => some ⟨frame, callback, ref⟩
  | .callback env => s.calling.map fun c => ⟨followUp env s.tx.txTime c.call c.frame, none, 0⟩
  | _ => none

/-- The code is in one function at a time. -/
def enabled (s : Station) : PtpAction → Prop
  | .transmit frame callback _ =>
      s.tx.marking = none ∧ frame ≠ [] ∧ (∀ addr ∈ callback, isFollowUp addr = false) ∧
        ∀ c ∈ s.calling, isFollowUp c.call = false
  | .callback _ => s.tx.marking = none ∧ ∃ c ∈ s.calling, isFollowUp c.call = true
  | .returned => s.tx.marking = none ∧ ∃ c ∈ s.calling, isFollowUp c.call = false
  | .mark => True
  | .complete _ _ => True
  | _ => s.tx.marking = none ∧ s.calling = none

instance (s : Station) (a : PtpAction) : Decidable (s.enabled a) := by
  cases a <;> unfold enabled <;> infer_instance

/-- The step of the transmit ring. -/
def txAction (s : Station) : PtpAction → Option TxAction
  | .mark => some .mark
  | .processFrameTx => some .processFrameTx
  | .complete status time => some (.complete status time)
  | a => (s.submits a).map fun sub => .transmit sub.bytes sub.callback sub.ref

/-- `seqId` after a step. -/
def nextSeqId (s : Station) : PtpAction → BitVec 32
  | .sendAnnounce _ => s.seqId + 1
  | .sendSync _ => s.seqId + 1
  | _ => s.seqId

/-- The callback that runs after a step. -/
def nextCalling (s : Station) : PtpAction → Option Tx.TxCall
  | .processFrameTx => s.tx.processFrameTx.2.2
  | .callback _ => none
  | .returned => none
  | _ => s.calling

def step (s : Station) (a : PtpAction) : Option Station :=
  if s.enabled a then
    match s.txAction a with
    | none => some ⟨s.tx, s.nextSeqId a, s.nextCalling a⟩
    | some action => (s.tx.step action).map fun tx => ⟨tx, s.nextSeqId a, s.nextCalling a⟩
  else none

end Station

/-- The history of a run of the machine, newest first. -/
abbrev PtpHistory := List (Station × PtpAction)

/-- The run of the transmit ring in a run. -/
def txHistory (h : PtpHistory) : TxHistory :=
  h.filterMap fun p => (p.1.txAction p.2).map (p.1.tx, ·)

/-- What a step does to the transmit ring. -/
theorem Station.step_cases {s s' : Station} {a : PtpAction} (hs : s.step a = some s') :
    s.enabled a ∧ s'.seqId = s.nextSeqId a ∧ s'.calling = s.nextCalling a ∧
      (s.txAction a = none ∧ s'.tx = s.tx ∨
        ∃ action, s.txAction a = some action ∧ s.tx.step action = some s'.tx) := by
  unfold Station.step at hs
  split at hs
  · rename_i henabled
    split at hs
    · rename_i hnone
      obtain rfl := Option.some.inj hs
      exact ⟨henabled, rfl, rfl, Or.inl ⟨hnone, rfl⟩⟩
    · rename_i action hsome
      obtain ⟨tx, htx, rfl⟩ := Option.map_eq_some_iff.mp hs
      exact ⟨henabled, rfl, rfl, Or.inr ⟨action, hsome, htx⟩⟩
  · cases hs

variable {h : PtpHistory} {s s' : Station}

/-- The transmit ring runs as it does alone. -/
theorem tx_run (hrun : Run Station.step Station.init h s) :
    Run Tx.step Tx.init (txHistory h) s.tx := by
  refine hrun.project (f := Station.tx) (g := Station.txAction) fun s a s' hs => ?_
  obtain ⟨-, -, -, hskip | htake⟩ := Station.step_cases hs
  · exact Or.inl hskip
  · exact Or.inr htake

/-! ## What a run did -/

/-- The callback of `ptp.cpp` that a step runs, with `txTime`. -/
def Station.followed (s : Station) : PtpAction → List (Tx.TxCall × (BitVec 32 × BitVec 32))
  | .callback _ => s.calling.toList.map fun c => (c, s.tx.txTime)
  | _ => []

/-- The callbacks of `ptp.cpp` that ran, each with `txTime`. -/
def followed (h : PtpHistory) : List (Tx.TxCall × (BitVec 32 × BitVec 32)) :=
  outputs Station.followed h

/-- The callback of `ptp.cpp` that is to run next. -/
def Station.pending (s : Station) : List (Tx.TxCall × (BitVec 32 × BitVec 32)) :=
  (s.calling.toList.map fun c => (c, s.tx.txTime)).filter fun p => isFollowUp p.1.call

/-- The callbacks of `ptp.cpp` among those that the transmitter made. -/
def followUpCalls (h : PtpHistory) : List (Tx.TxCall × (BitVec 32 × BitVec 32)) :=
  (Net.stampedCalls (txHistory h)).filter fun p => isFollowUp p.1.call

theorem copyFrame_txTime (n : ℕ) (t : Tx) (ptr : Fin Net.TX_RING_SIZE) (frame : List Byte) :
    (Tx.copyFrame n t ptr frame).1.txTime = t.txTime := by
  induction n generalizing t ptr frame with
  | zero => rfl
  | succ n ih =>
      unfold Tx.copyFrame
      dsimp only
      split
      · rfl
      · exact ih _ _ _

/-- `txTime` is written when a frame is reclaimed, and at no other time. -/
theorem tx_step_txTime {t t' : Tx} {action : TxAction} (hs : t.step action = some t')
    (hne : action ≠ .processFrameTx) : t'.txTime = t.txTime := by
  cases action with
  | transmit frame callback ref =>
      obtain ⟨-, hs⟩ := Option.ite_none_right_eq_some.mp hs
      obtain rfl := Option.some.inj hs
      unfold Tx.transmit
      split
      · rfl
      · split
        · rfl
        · exact copyFrame_txTime frame.length t t.txHead frame
  | mark =>
      simp only [Tx.step, Tx.mark] at hs
      split at hs
      · cases hs
      · obtain rfl := Option.some.inj hs
        rfl
  | processFrameTx => exact absurd rfl hne
  | complete status time =>
      obtain ⟨-, hs⟩ := Option.ite_none_right_eq_some.mp hs
      obtain rfl := Option.some.inj hs
      rfl

theorem followUpCalls_cons (s : Station) (a : PtpAction) (h : PtpHistory) :
    followUpCalls ((s, a) :: h) = followUpCalls h ++
      (((s.txAction a).toList.flatMap s.tx.stampedCall).filter fun p => isFollowUp p.1.call) := by
  unfold followUpCalls
  cases htx : s.txAction a with
  | none => simp [txHistory, htx]
  | some action => simp [txHistory, htx, Net.stampedCalls]

/-- A step in which no frame is reclaimed and no callback ends. -/
theorem keep_pending {a : PtpAction} (hs : s.step a = some s')
    (hcalling : s.nextCalling a = s.calling) (htx : s.txAction a ≠ some .processFrameTx) :
    s'.pending = s.pending ∧ followUpCalls ((s, a) :: h) = followUpCalls h := by
  obtain ⟨-, -, hcall, hring⟩ := Station.step_cases hs
  have hsame : s'.tx.txTime = s.tx.txTime := by
    rcases hring with ⟨-, heq⟩ | ⟨action, hsome, hstep⟩
    · rw [heq]
    · exact tx_step_txTime hstep fun heq => htx (heq ▸ hsome)
  refine ⟨by rw [Station.pending, Station.pending, hcall, hcalling, hsame], ?_⟩
  rw [followUpCalls_cons]
  cases hsome : s.txAction a with
  | none => simp
  | some action =>
      cases action with
      | processFrameTx => exact absurd hsome htx
      | _ => simp [Tx.stampedCall]

/-- **The callbacks run in the order of the transmitter**, and at most one is still to run. -/
theorem followUpCalls_of_run (hrun : Run Station.step Station.init h s) :
    followUpCalls h = followed h ++ s.pending := by
  refine hrun.invariant (I := fun h s => followUpCalls h = followed h ++ s.pending) rfl ?_
  intro h s a s' ih hs
  have hfollowed : followed ((s, a) :: h) = followed h ++ s.followed a := rfl
  cases a with
  | processFrameTx =>
      obtain ⟨⟨-, hnone⟩, -, hcall, ⟨hskip, -⟩ | ⟨action, hsome, hstep⟩⟩ := Station.step_cases hs
      · cases hskip
      · obtain rfl := Option.some.inj hsome
        obtain ⟨-, hstep⟩ := Option.ite_none_right_eq_some.mp hstep
        have htx := Option.some.inj hstep
        have hidle : s.pending = [] := by simp [Station.pending, hnone]
        rw [hfollowed, followUpCalls_cons, ih, hidle, Station.pending, hcall, ← htx]
        simp [Station.followed, Station.txAction, Station.nextCalling, Tx.stampedCall]
  | callback env =>
      obtain ⟨⟨-, c, hc, hours⟩, -, hcall, -⟩ := Station.step_cases hs
      have hkeep : followUpCalls ((s, .callback env) :: h) = followUpCalls h := by
        rw [followUpCalls_cons]
        simp [Station.txAction, Station.submits, Option.mem_def.mp hc, Tx.stampedCall]
      have hpending : s.pending = s.followed (.callback env) := by
        simp [Station.pending, Station.followed, Option.mem_def.mp hc, hours]
      have hdone : s'.pending = [] := by simp [Station.pending, hcall, Station.nextCalling]
      rw [hfollowed, hkeep, ih, hpending, hdone, List.append_nil]
  | returned =>
      obtain ⟨⟨-, c, hc, hours⟩, -, hcall, -⟩ := Station.step_cases hs
      have hkeep : followUpCalls ((s, .returned) :: h) = followUpCalls h := by
        rw [followUpCalls_cons]
        simp [Station.txAction, Station.submits]
      have hpending : s.pending = [] := by
        simp [Station.pending, Option.mem_def.mp hc, hours]
      have hdone : s'.pending = [] := by simp [Station.pending, hcall, Station.nextCalling]
      rw [hfollowed, hkeep, ih, hpending, hdone]
      simp [Station.followed]
  | _ =>
      obtain ⟨hpending, hkeep⟩ := @keep_pending h _ _ _ hs rfl (by
        simp [Station.txAction, Station.submits])
      rw [hfollowed, hkeep, ih, hpending]
      exact congrArg (· ++ s.pending) (List.append_nil _).symm

/-! ## The messages that are followed up -/

/-- The number of messages that got a sequence number. -/
def numbers : PtpHistory → ℕ
  | [] => 0
  | (_, .sendAnnounce _) :: h => numbers h + 1
  | (_, .sendSync _) :: h => numbers h + 1
  | _ :: h => numbers h

/-- The SYNC message with the number `n`, as it is given to `network::transmit`. -/
def IsSync (sub : Submission) (n : ℕ) : Prop :=
  ∃ env, sub = ⟨syncPacked.bytes (sync env (BitVec.ofNat 32 n)), some syncFollowupAddr, 0⟩

/-- The SYNC messages that the transmitter accepted. -/
def syncs (h : PtpHistory) : List Submission :=
  (Net.accepted (txHistory h)).filter fun sub => sub.callback = some syncFollowupAddr

theorem accepted_cons (s : Station) (a : PtpAction) (h : PtpHistory) :
    Net.accepted (txHistory ((s, a) :: h)) = Net.accepted (txHistory h) ++
      (s.txAction a).toList.flatMap s.tx.accepts := by
  cases htx : s.txAction a with
  | none => simp [txHistory, htx]
  | some action => simp [txHistory, htx, Net.accepted]

theorem accepts_transmit (t : Tx) (sub : Submission) :
    t.accepts (.transmit sub.bytes sub.callback sub.ref) = [] ∨
      t.accepts (.transmit sub.bytes sub.callback sub.ref) = [sub] := by
  unfold Tx.accepts
  dsimp only
  split
  · exact Or.inr rfl
  · exact Or.inl rfl

/-- A step accepts the frame that is given to `network::transmit`, or nothing. -/
theorem accepts_cases (s : Station) (a : PtpAction) :
    (s.txAction a).toList.flatMap s.tx.accepts = [] ∨
      ∃ sub, s.submits a = some sub ∧ (s.txAction a).toList.flatMap s.tx.accepts = [sub] := by
  cases hsub : s.submits a with
  | none =>
      left
      cases a <;> simp [Station.txAction, hsub, Tx.accepts]
  | some sub =>
      have haction : s.txAction a = some (.transmit sub.bytes sub.callback sub.ref) := by
        cases a <;> first | cases hsub; done | simp [Station.txAction, hsub]
      rw [haction]
      rcases accepts_transmit s.tx sub with hnone | hone
      · exact Or.inl (by simp [hnone])
      · exact Or.inr ⟨sub, rfl, by simp [hone]⟩

/-- Only `sendSync` asks for `syncFollowup`, and only `PTP_process` for the other callback. -/
theorem submits_callback {a : PtpAction} {sub : Submission} (henabled : s.enabled a)
    (hsub : s.submits a = some sub) :
    (sub.callback = some syncFollowupAddr → ∃ env, a = .sendSync env) ∧
      (sub.callback = some peerDelayRespFollowupAddr → ∃ env rxTime frame,
        PTP_process env rxTime frame = some (sub.bytes, sub.callback)) := by
  have hne : syncFollowupAddr ≠ peerDelayRespFollowupAddr := by decide
  cases a with
  | sendSync env =>
      obtain rfl := Option.some.inj hsub
      exact ⟨fun _ => ⟨env, rfl⟩, fun h => absurd (Option.some.inj h) hne⟩
  | sendAnnounce env =>
      obtain rfl := Option.some.inj hsub
      exact ⟨fun h => (by cases h), fun h => (by cases h)⟩
  | PTP_process env rxTime frame =>
      obtain ⟨⟨bytes, callback⟩, hp, rfl⟩ := Option.map_eq_some_iff.mp hsub
      refine ⟨fun h => ?_, fun _ => ⟨env, rxTime, frame, hp⟩⟩
      obtain rfl : callback = some syncFollowupAddr := h
      unfold PTP_process at hp
      dsimp only at hp
      split_ifs at hp
      · obtain ⟨_, -, heq⟩ := Option.map_eq_some_iff.mp hp
        cases heq
      · obtain ⟨_, -, heq⟩ := Option.map_eq_some_iff.mp hp
        exact absurd (Option.some.inj (congrArg Prod.snd heq)).symm hne
  | transmit frame callback ref =>
      obtain rfl := Option.some.inj hsub
      obtain ⟨-, -, hforeign, -⟩ := henabled
      constructor
      · intro h
        exact absurd (hforeign _ (Option.mem_def.mpr h)) (by decide)
      · intro h
        exact absurd (hforeign _ (Option.mem_def.mpr h)) (by decide)
  | callback env =>
      obtain ⟨c, -, rfl⟩ := Option.map_eq_some_iff.mp hsub
      exact ⟨fun h => (by cases h), fun h => (by cases h)⟩
  | _ => cases hsub

/-- What the transmitter accepted for the follow-ups. -/
structure FollowedUp (h : PtpHistory) (s : Station) : Prop where
  seqId : s.seqId = BitVec.ofNat 32 (numbers h)
  /-- The SYNC messages have increasing numbers, which they share with the announcements. -/
  numbered : ∃ ns : List ℕ, ns.Pairwise (· < ·) ∧ (∀ n ∈ ns, n < numbers h) ∧
    List.Forall₂ IsSync (syncs h) ns
  /-- The other messages with a follow-up are responses. -/
  responses : ∀ sub ∈ Net.accepted (txHistory h), sub.callback = some peerDelayRespFollowupAddr →
    ∃ env rxTime frame, PTP_process env rxTime frame = some (sub.bytes, sub.callback)

/-- The number that a message gets. -/
theorem numbers_cons (s : Station) (a : PtpAction) (h : PtpHistory) :
    numbers h ≤ numbers ((s, a) :: h) ∧ (s.seqId = BitVec.ofNat 32 (numbers h) →
      s.nextSeqId a = BitVec.ofNat 32 (numbers ((s, a) :: h))) := by
  cases a with
  | sendAnnounce env =>
      refine ⟨Nat.le_succ _, fun heq => ?_⟩
      rw [Station.nextSeqId, numbers, heq, BitVec.ofNat_add]
      rfl
  | sendSync env =>
      refine ⟨Nat.le_succ _, fun heq => ?_⟩
      rw [Station.nextSeqId, numbers, heq, BitVec.ofNat_add]
      rfl
  | _ => exact ⟨le_refl _, id⟩

theorem followedUp_of_run (hrun : Run Station.step Station.init h s) : FollowedUp h s := by
  refine hrun.invariant (I := FollowedUp)
    ⟨rfl, ⟨[], List.Pairwise.nil, by simp, .nil⟩, fun _ hsub => by cases hsub⟩ ?_
  rintro h s a s' ⟨hseq, ⟨ns, hsorted, hlt, hforall⟩, hresponses⟩ hs
  obtain ⟨henabled, hnext, -, -⟩ := Station.step_cases hs
  obtain ⟨hle, hnumber⟩ := numbers_cons s a h
  have hlt' : ∀ n ∈ ns, n < numbers ((s, a) :: h) := fun n hn => (hlt n hn).trans_le hle
  have hsyncs : syncs ((s, a) :: h) = syncs h ++ ((s.txAction a).toList.flatMap s.tx.accepts).filter
      fun sub => sub.callback = some syncFollowupAddr := by
    rw [syncs, accepted_cons, List.filter_append, ← syncs]
  refine ⟨hnext.trans (hnumber hseq), ?_, ?_⟩
  · rcases accepts_cases s a with hnone | ⟨sub, hsub, hone⟩
    · exact ⟨ns, hsorted, hlt', by rwa [hsyncs, hnone, List.filter_nil, List.append_nil]⟩
    · by_cases hcallback : sub.callback = some syncFollowupAddr
      · -- a SYNC message takes the next number
        obtain ⟨env, rfl⟩ := (submits_callback henabled hsub).1 hcallback
        obtain rfl := Option.some.inj hsub
        refine ⟨ns ++ [numbers h], ?_, ?_, ?_⟩
        · refine List.pairwise_append.mpr ⟨hsorted, List.pairwise_singleton _ _, ?_⟩
          intro n hn m hm
          obtain rfl := List.mem_singleton.mp hm
          exact hlt n hn
        · intro n hn
          rcases List.mem_append.mp hn with hn | hn
          · exact hlt' n hn
          · obtain rfl := List.mem_singleton.mp hn
            exact Nat.lt_succ_self _
        · rw [hsyncs, hone]
          refine List.rel_append hforall ?_
          rw [List.filter_cons_of_pos (by simp), List.filter_nil]
          exact .cons ⟨env, by rw [← hseq]⟩ .nil
      · refine ⟨ns, hsorted, hlt', ?_⟩
        rw [hsyncs, hone, List.filter_cons_of_neg (by simpa using hcallback), List.filter_nil,
          List.append_nil]
        exact hforall
  · intro sub hsub hcallback
    rw [accepted_cons] at hsub
    rcases List.mem_append.mp hsub with hsub | hsub
    · exact hresponses sub hsub hcallback
    · rcases accepts_cases s a with hnone | ⟨sub', hsub', hone⟩
      · rw [hnone] at hsub
        cases hsub
      · rw [hone] at hsub
        obtain rfl := List.mem_singleton.mp hsub
        exact (submits_callback henabled hsub').2 hcallback

/-! ## The law -/

/-- The follow-up that a step transmits, with the clocks as they are then. -/
def Station.followUps (s : Station) : PtpAction → List (Env × List Byte)
  | .callback env => s.calling.toList.map fun c => (env, followUp env s.tx.txTime c.call c.frame)
  | _ => []

/-- The follow-ups that were given to `network::transmit`, each with the clocks of its callback. -/
def followUps (h : PtpHistory) : List (Env × List Byte) := outputs Station.followUps h

/-- The messages that are to be followed up and whose frames were reclaimed, with the times at which
they went out. -/
def departed (h : PtpHistory) : List (Submission × (BitVec 32 × BitVec 32)) :=
  (((Net.accepted (txHistory h)).zip (Net.frameTimes (txHistory h))).take
    (Net.reclaimed (txHistory h))).filter fun p => p.1.callback.any isFollowUp

/-- The follow-up `frame` of a message that went out at `time`, which the clocks `env` convert. -/
def FollowsUp (sub : Submission) (time : BitVec 32 × BitVec 32) (env : Env) (frame : List Byte) :
    Prop :=
  (∃ (env₀ : Env) (n : ℕ), IsSync sub n ∧
    sub.bytes = syncPacked.bytes (sync env₀ (BitVec.ofNat 32 n)) ∧
    frame = syncPacked.bytes { sync env₀ (BitVec.ofNat 32 n) with
      ptp := { (sync env₀ (BitVec.ofNat 32 n)).ptp with messageType := PTP2_MT_FOLLOW_UP }
      data := toPtpTimestamp (env.stamp time) }) ∨
  ∃ r : PacketPTP PTP2_DELAY_RESP, sub.callback = some peerDelayRespFollowupAddr ∧
    sub.bytes = responsePacked.bytes r ∧ frame = responsePacked.bytes { r with
      ptp := { r.ptp with messageType := PTP2_MT_PDELAY_FOLLOW_UP, messageLength := htons 54 }
      data := { r.data with receiveTimestamp := toPtpTimestamp (env.stamp time) } }

/-- The calls for the follow-ups. -/
theorem followUpCalls_eq (hrun : Run Station.step Station.init h s) :
    followUpCalls h = (departed h).map fun p =>
      (⟨p.1.callback.getD 0, p.1.ref, p.1.bytes, p.1.bytes.length⟩, p.2) := by
  rw [followUpCalls, Net.stampedCalls_eq (tx_run hrun), departed]
  generalize List.take _ _ = l
  induction l with
  | nil => rfl
  | cons p l ih =>
      cases hcallback : p.1.callback with
      | none => simp [Submission.stampedCall, Submission.call, hcallback, ih]
      | some addr =>
          cases hours : isFollowUp addr <;>
            simp [Submission.stampedCall, Submission.call, hcallback, hours, ih]

/-- The follow-ups are those of the callbacks that ran. -/
theorem followUps_followed (h : PtpHistory) :
    List.Forall₂ (fun f p => f.2 = followUp f.1 p.2 p.1.call p.1.frame) (followUps h)
      (followed h) := by
  induction h with
  | nil => exact .nil
  | cons p h ih =>
      obtain ⟨s, a⟩ := p
      refine List.rel_append ih ?_
      cases a with
      | callback env =>
          unfold Station.followUps Station.followed
          cases s.calling with
          | none => exact .nil
          | some c => exact .cons rfl .nil
      | _ => exact .nil

/-- What `syncFollowup` makes of a SYNC message. -/
theorem followUp_sync (env : Env) (time : BitVec 32 × BitVec 32) (p : PacketPTP PTP2_TIMESTAMP) :
    followUp env time syncFollowupAddr (syncPacked.bytes p) = syncPacked.bytes { p with
      ptp := { p.ptp with messageType := PTP2_MT_FOLLOW_UP }
      data := toPtpTimestamp (env.stamp time) } := by
  rw [followUp, if_pos rfl, syncFollowup, syncPacked.read_bytes_self]

/-- What `peerDelayRespFollowup` makes of a response. -/
theorem followUp_response (env : Env) (time : BitVec 32 × BitVec 32)
    (r : PacketPTP PTP2_DELAY_RESP) :
    followUp env time peerDelayRespFollowupAddr (responsePacked.bytes r) =
      responsePacked.bytes { r with
        ptp := { r.ptp with messageType := PTP2_MT_PDELAY_FOLLOW_UP, messageLength := htons 54 }
        data := { r.data with receiveTimestamp := toPtpTimestamp (env.stamp time) } } := by
  have hsize : resize (responsePacked.bytes r) responsePacked.size = responsePacked.bytes r := by
    have hlen := responsePacked.length_bytes r
    rw [resize, hlen, Nat.sub_self, List.take_of_length_le hlen.le, List.replicate_zero,
      List.append_nil]
  rw [followUp, if_neg (by decide), peerDelayRespFollowup, hsize, responsePacked.read_bytes_self]
  rfl

/-- A message that is to be followed up. -/
theorem FollowedUp.followsUp (hi : FollowedUp h s) {p : Submission × (BitVec 32 × BitVec 32)}
    (hp : p ∈ departed h) (env : Env) :
    FollowsUp p.1 p.2 env (followUp env p.2 (p.1.callback.getD 0) p.1.bytes) := by
  obtain ⟨hmem, hours⟩ := List.mem_filter.mp hp
  have haccepted : p.1 ∈ Net.accepted (txHistory h) :=
    (List.of_mem_zip (List.mem_of_mem_take hmem)).1
  cases hcallback : p.1.callback with
  | none =>
      rw [hcallback] at hours
      cases hours
  | some addr =>
      rw [hcallback] at hours
      have hours : isFollowUp addr = true := hours
      rw [isFollowUp, Bool.or_eq_true, decide_eq_true_eq, decide_eq_true_eq] at hours
      rcases hours with rfl | rfl
      · obtain ⟨ns, -, -, hforall⟩ := hi.numbered
        have hsync : p.1 ∈ syncs h := List.mem_filter.mpr ⟨haccepted, by simp [hcallback]⟩
        obtain ⟨i, hi', hget⟩ := List.getElem_of_mem hsync
        have hlen := hforall.length_eq
        have hnth := (List.forall₂_iff_get.mp hforall).2 i hi' (hlen ▸ hi')
        rw [List.get_eq_getElem, hget] at hnth
        obtain ⟨env₀, heq⟩ := hnth
        refine Or.inl ⟨env₀, _, ⟨env₀, heq⟩, by rw [heq], ?_⟩
        rw [← followUp_sync, Option.getD_some, heq]
      · obtain ⟨env₁, rxTime, request, hresponse⟩ := hi.responses p.1 haccepted hcallback
        obtain ⟨r, hr⟩ : ∃ r, p.1.bytes = responsePacked.bytes r := by
          unfold PTP_process at hresponse
          dsimp only at hresponse
          split_ifs at hresponse
          · obtain ⟨r, -, heq⟩ := Option.map_eq_some_iff.mp hresponse
            exact ⟨r, (congrArg Prod.fst heq).symm⟩
          · obtain ⟨r, -, heq⟩ := Option.map_eq_some_iff.mp hresponse
            exact ⟨r, (congrArg Prod.fst heq).symm⟩
        exact Or.inr ⟨r, hcallback, hr, by rw [← followUp_response, Option.getD_some, hr]⟩

/-- **Follow-ups**: in every run of the firmware and the DMA, the SYNC messages that the transmitter
accepts have increasing numbers; and of the messages that are to be followed up and were reclaimed,
all but at most the last one have been followed up, once each and in order, with the time at which
that very message went out, as the clocks convert it when the callback runs. -/
theorem followUps_of_run (hrun : Run Station.step Station.init h s) :
    FollowedUp h s ∧ (departed h).length ≤ (followUps h).length + 1 ∧
      ∀ (i : ℕ) (env : Env) (frame : List Byte), (followUps h)[i]? = some (env, frame) →
        ∃ sub time, (departed h)[i]? = some (sub, time) ∧ FollowsUp sub time env frame := by
  have hi := followedUp_of_run hrun
  have hcalls := (followUpCalls_eq hrun).symm.trans (followUpCalls_of_run hrun)
  have hforall := followUps_followed h
  refine ⟨hi, ?_, fun i env frame hframe => ?_⟩
  · have hlen := congrArg List.length hcalls
    have hpending : s.pending.length ≤ 1 := by
      refine (List.length_filter_le _ _).trans ?_
      cases s.calling <;> simp
    rw [List.length_map, List.length_append, ← hforall.length_eq] at hlen
    omega
  · obtain ⟨hlt, hframe⟩ := List.getElem?_eq_some_iff.mp hframe
    have hlt' : i < (followed h).length := hforall.length_eq ▸ hlt
    have heq := (List.forall₂_iff_get.mp hforall).2 i hlt hlt'
    rw [List.get_eq_getElem, hframe, List.get_eq_getElem] at heq
    have hget := congrArg (·[i]?) hcalls
    rw [List.getElem?_append_left hlt', List.getElem?_map, List.getElem?_eq_getElem hlt',
      Option.map_eq_some_iff] at hget
    obtain ⟨p, hp, hcall⟩ := hget
    rw [← hcall] at heq
    obtain rfl : frame = followUp env p.2 (p.1.callback.getD 0) p.1.bytes := heq
    exact ⟨p.1, p.2, hp, hi.followsUp (List.mem_of_getElem? hp) env⟩

/-- The TAI clock has been set. -/
def alignedEnv : Env := { idleEnv with clkTai := ⟨37 <<< 32, 0, 0, 0⟩ }

/-- A SYNC message goes out before an announcement is transmitted, and is followed up then, with a
clock that has been set since. -/
def syncAndAnnounce : List PtpAction :=
  [.sendSync idleEnv, .mark, .complete 0 (40, 3), .sendAnnounce idleEnv, .mark, .processFrameTx,
    .callback alignedEnv, .mark]

theorem followUps_of_run_syncAndAnnounce : ∃ h s, Run Station.step Station.init h s ∧
    s.seqId = 2 ∧ ∃ env frame sub, followUps h = [(env, frame)] ∧
      env.stamp (40, 3) = 0x28000000AC ∧ departed h = [(sub, (40, 3))] ∧
      FollowsUp sub (40, 3) env frame := by
  obtain ⟨h, s, hrun, hp⟩ := @exists_run_of_replay _ _ Station.step Station.init syncAndAnnounce
    (fun h s => decide (s.seqId = 2 ∧ (followUps h).map (·.1.stamp (40, 3)) = [0x28000000AC] ∧
      (departed h).map (·.2) = [(40, 3)])) (by decide +kernel)
  obtain ⟨hseq, hstamps, htimes⟩ := of_decide_eq_true hp
  obtain ⟨⟨env, frame⟩, hframe⟩ : ∃ f, followUps h = [f] :=
    List.length_eq_one_iff.mp (by simpa using congrArg List.length hstamps)
  have hstamp : env.stamp (40, 3) = 0x28000000AC := by
    rw [hframe] at hstamps
    exact List.head_eq_of_cons_eq hstamps
  obtain ⟨sub, time, hget, hfollows⟩ :=
    (followUps_of_run hrun).2.2 0 env frame (by rw [hframe]; rfl)
  obtain ⟨⟨sub', time'⟩, hdeparted⟩ : ∃ p, departed h = [p] :=
    List.length_eq_one_iff.mp (by simpa using congrArg List.length htimes)
  rw [hdeparted] at hget htimes
  obtain ⟨rfl, rfl⟩ := Prod.mk.inj (Option.some.inj hget)
  obtain rfl : time' = (40, 3) := by simpa using htimes
  exact ⟨h, s, hrun, hseq, env, frame, sub', hframe, hstamp, hdeparted, hfollows⟩

end Gpsdo.Ptp
