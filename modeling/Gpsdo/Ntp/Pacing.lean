import Gpsdo.Ntp.Poll
import Gpsdo.Sched.Sleep

set_option autoImplicit false

/-! # The time between two polls

When a poll ends, `Peer::run` draws the time to the next one. It is spent as whole seconds and a
rest: the interval of the task is set for the next sleep, one activation before the countdown comes
to its end. Other events may happen in between.
-/

namespace Gpsdo.Ntp

variable {F : Type}

/-! ## The interval that is drawn -/

/-- The interval, in units of `2 ^ -24` s. -/
def pollInterval (poll : ℕ) (random : BitVec 32) : ℕ :=
  2 ^ (poll + 24) + random.toNat * 2 ^ poll / 2 ^ 12

/-- It is at most 1/16 longer than asked for. -/
theorem pollInterval_lt (poll : ℕ) (random : BitVec 32) :
    16 * pollInterval poll random < 17 * 2 ^ (poll + 24) := by
  have hrandom : random.toNat * 2 ^ poll < 2 ^ 32 * 2 ^ poll :=
    Nat.mul_lt_mul_of_pos_right random.isLt (Nat.two_pow_pos poll)
  unfold pollInterval
  rw [pow_add]
  generalize 2 ^ poll = e at hrandom ⊢
  omega

namespace Peer

/-- **The shifts** put the random part below the power of two. -/
theorem fuzz_toNat {poll : ℕ} (hpoll : poll ≤ 6) (random : BitVec 32) :
    (fuzz poll random).toNat = 2 ^ (32 + poll) + random.toNat * 2 ^ poll / 2 ^ 4 := by
  have hrandom := random.isLt
  have hshift : ((random.setWidth 64 <<< 32) >>> (36 - poll)).toNat =
      random.toNat * 2 ^ poll / 2 ^ 4 := by
    have hleft : (random.setWidth 64 <<< 32).toNat = random.toNat * 2 ^ 32 := by
      rw [BitVec.toNat_shiftLeft, BitVec.toNat_setWidth, Nat.shiftLeft_eq]
      omega
    have hsplit : random.toNat * 2 ^ 32 = random.toNat * 2 ^ poll * 2 ^ (32 - poll) := by
      rw [Nat.mul_assoc, ← pow_add, Nat.add_sub_cancel' (hpoll.trans (by decide))]
    have hscale : 2 ^ (36 - poll) = 2 ^ 4 * 2 ^ (32 - poll) := by
      rw [← pow_add]
      exact congrArg _ (by omega)
    rw [BitVec.toNat_ushiftRight, hleft, Nat.shiftRight_eq_div_pow, hsplit, hscale,
      Nat.mul_div_mul_right _ _ (Nat.two_pow_pos _)]
  have hone : (1#64 <<< (32 + poll)).toNat = 2 ^ (32 + poll) := by
    have hle : 2 ^ (32 + poll) ≤ 2 ^ 38 := Nat.pow_le_pow_right (by decide) (by omega)
    rw [BitVec.toNat_shiftLeft, Nat.shiftLeft_eq]
    show 1 * 2 ^ (32 + poll) % 2 ^ 64 = _
    omega
  have hsmall : random.toNat * 2 ^ poll / 2 ^ 4 < 2 ^ (32 + poll) := by
    have hlt : random.toNat * 2 ^ poll < 2 ^ 32 * 2 ^ poll :=
      Nat.mul_lt_mul_of_pos_right hrandom (Nat.two_pow_pos poll)
    rw [← pow_add] at hlt
    omega
  unfold fuzz
  rw [BitVec.toNat_or, hshift, hone, Nat.or_comm, ← Nat.mul_one (2 ^ (32 + poll)),
    ← Nat.two_pow_add_eq_or_of_lt hsmall, Nat.mul_one]

/-- The two halves: whole seconds, of which there are some, and a rest. -/
theorem fuzz_parts {poll : ℕ} (hpoll : poll ≤ 6) (random : BitVec 32) :
    0 < ((fuzz poll random >>> 32).setWidth 32 : BitVec 32).toNat ∧
      ((((fuzz poll random).setWidth 32 : BitVec 32)) >>> 8).toNat < 2 ^ 24 ∧
      ((fuzz poll random >>> 32).setWidth 32 : BitVec 32).toNat * 2 ^ 24 +
          ((((fuzz poll random).setWidth 32 : BitVec 32)) >>> 8).toNat =
        pollInterval poll random := by
  have hfull := fuzz_toNat hpoll random
  have hlt := pollInterval_lt poll random
  have hpow : 2 ^ (32 + poll) = 2 ^ 8 * 2 ^ (poll + 24) := by
    rw [← pow_add]
    exact congrArg _ (by omega)
  have hbound : 2 ^ (poll + 24) ≤ 2 ^ 30 := Nat.pow_le_pow_right (by decide) (by omega)
  have hmin : 2 ^ 24 ≤ 2 ^ (poll + 24) := Nat.pow_le_pow_right (by decide) (by omega)
  have heighth : (fuzz poll random).toNat / 2 ^ 8 = pollInterval poll random := by
    unfold pollInterval
    rw [hfull, hpow]
    generalize 2 ^ (poll + 24) = e
    generalize random.toNat * 2 ^ poll = r
    omega
  rw [BitVec.toNat_setWidth, BitVec.toNat_ushiftRight, BitVec.toNat_ushiftRight,
    BitVec.toNat_setWidth, Nat.shiftRight_eq_div_pow, Nat.shiftRight_eq_div_pow]
  generalize (fuzz poll random).toNat = full at heighth ⊢
  rw [← heighth] at hlt ⊢
  have hge : 2 ^ (poll + 24) ≤ full / 2 ^ 8 := by
    rw [heighth]
    exact Nat.le_add_right _ _
  generalize 2 ^ (poll + 24) = e at hlt hbound hmin hge
  omega

end Peer

/-! ## The interval of the task -/

/-- The interval of the task after some outputs: `runAdjust` sets it. -/
def intervalOf (interval : BitVec 32) : List Output → BitVec 32
  | [] => interval
  | .runAdjust interval' :: out => intervalOf interval' out
  | _ :: out => intervalOf interval out

theorem intervalOf_append (interval : BitVec 32) (out out' : List Output) :
    intervalOf interval (out ++ out') = intervalOf (intervalOf interval out) out' := by
  induction out generalizing interval with
  | nil => rfl
  | cons o out ih =>
      cases o with
      | runAdjust interval' => exact ih interval'
      | _ => exact ih interval

theorem intervalOf_concat (interval interval' : BitVec 32) (out : List Output) :
    intervalOf interval (out ++ [.runAdjust interval']) = interval' := by
  rw [intervalOf_append]
  rfl

section history

variable [Single F]

/-- The interval of the task after an event. -/
def nextInterval (interval : BitVec 32) (s : Link F) : PeerAction F → BitVec 32
  | .run env _ => intervalOf interval (s.peer.run env).2
  | _ => interval

/-- The interval of the task, which was `interval` at the start. -/
def taskInterval (interval : BitVec 32) : PeerHistory F → BitVec 32
  | [] => interval
  | (s, a) :: h => nextInterval (taskInterval interval h) s a

/-- The sleeps before the activations, the last one first: `Task::requeue` uses the interval that
the task has when its callback returns. -/
def sleeps (interval : BitVec 32) : PeerHistory F → List (BitVec 32)
  | [] => []
  | (_, .run _ _) :: h => taskInterval interval h :: sleeps interval h
  | _ :: h => sleeps interval h

/-- The activation starts a poll. -/
def starts (s : Link F) : PeerAction F → Bool
  | .run env _ => !s.peer.pollActive && (s.peer.run env).1.pollActive
  | _ => false

/-- A poll was started. -/
def started (h : PeerHistory F) : Bool := h.any fun p => starts p.1 p.2

/-- An activation finds the Ethernet clock captured and the MAC address valid. -/
def Ready (s : Link F) : PeerAction F → Prop
  | .run env _ => env.ppsEthernetRaw ≠ 0 ∧ (s.peer.isMacInvalid env).1 = false
  | _ => True

instance (s : Link F) (a : PeerAction F) : Decidable (Ready s a) :=
  match a with
  | .run env _ => inferInstanceAs (Decidable (env.ppsEthernetRaw ≠ 0 ∧ _ = _))
  | .receive _ _ | .sent _ | .arpReply _ _ | .setTaiClock _ => isTrue trivial

end history

/-- The sleeps up to the next poll, the last one first. -/
def Peer.countdown (p : Peer F) : List (BitVec 32) :=
  p.pollTrim :: List.replicate p.pollWait.toNat (BitVec.ofNat 32 Sched.RUN_SEC)

/-- A time that is slept, in units of `2 ^ -24` s. -/
def total (intervals : List (BitVec 32)) : ℕ := (intervals.map BitVec.toNat).sum

theorem Peer.total_countdown (p : Peer F) :
    total p.countdown = p.pollWait.toNat * 2 ^ 24 + p.pollTrim.toNat := by
  have hsec : (BitVec.ofNat 32 Sched.RUN_SEC).toNat = 2 ^ 24 := by decide
  unfold total countdown
  rw [List.map_cons, List.sum_cons, List.map_replicate, List.sum_replicate, hsec, smul_eq_mul]
  exact Nat.add_comm _ _

/-- In the scheduler: the task is next due after the interval that its callback has set. -/
theorem due_of_runAdjust {s s' : Sched.State} {n : Sched.Node} {interval : BitVec 32}
    (hsleep : (s.mem n).schedule = .sleep)
    (h : (s.runAdjust n interval).requeue n = some s') :
    s'.due n = Sched.toMonoRaw interval + s.raw := by
  have hmem := Sched.State.runAdjust_mem_self s n interval
  have hd := Sched.requeue_self h (by rw [hmem]; simp [hsleep])
  show (s'.mem n).runNext = _
  rw [hd.runNext]
  simp [Sched.requeueTime, hsleep]
  rfl

/-- The sleeps of a countdown are not clipped. -/
theorem Peer.countdown_ticks {p : Peer F} (htrim : p.pollTrim.toNat < 2 ^ 24) {interval : BitVec 32}
    (hmem : interval ∈ p.countdown) :
    (Sched.toMonoRaw interval).toNat = Sched.delayTicks interval := by
  apply Sched.toMonoRaw_eq
  rw [BitVec.le_def, Sched.RUN_MAX_toNat]
  rcases List.mem_cons.mp hmem with rfl | hmem
  · omega
  · rw [List.eq_of_mem_replicate hmem]
    decide

/-! ## What packets and addresses leave alone -/

/-- The polling exponents of a source: their bounds and the current one. -/
def exponents (src : Source F) : ℕ × ℕ × ℕ := (src.minPoll, src.maxPoll, src.poll)

/-- The countdown and the exponents are the same. -/
structure SamePace (p q : Peer F) : Prop where
  pollActive : q.pollActive = p.pollActive
  pollWait : q.pollWait = p.pollWait
  pollTrim : q.pollTrim = p.pollTrim
  exponents : exponents q.toSource = exponents p.toSource

theorem SamePace.refl (p : Peer F) : SamePace p p := ⟨rfl, rfl, rfl, rfl⟩

namespace Peer

theorem updateMac_pace (p : Peer F) (env : Env F) : SamePace p (p.updateMac env).1 := by
  dsimp only [updateMac]
  split <;> exact ⟨rfl, rfl, rfl, rfl⟩

theorem isMacInvalid_pace (p : Peer F) (env : Env F) : SamePace p (p.isMacInvalid env).2.1 := by
  dsimp only [isMacInvalid]
  split
  · exact updateMac_pace p env
  · exact .refl p

/-- No interval is set for a MAC address. -/
theorem intervalOf_isMacInvalid (p : Peer F) (env : Env F) (interval : BitVec 32) :
    intervalOf interval (p.isMacInvalid env).2.2 = interval := by
  dsimp only [isMacInvalid, updateMac]
  split
  · split <;> rfl
  · rfl

theorem arpCallback_pace (p : Peer F) (macAddr : BitVec 48) (env : Env F) :
    SamePace p (p.arpCallback macAddr env).1 := by
  unfold arpCallback
  split
  · exact updateMac_pace p env
  · exact ⟨rfl, rfl, rfl, rfl⟩

theorem receive_pace (p : Peer F) (packet : HeaderNtp) (stamps : Stamps) :
    SamePace p (p.receive packet stamps) := by
  dsimp only [receive]
  split
  · split
    · exact ⟨rfl, rfl, rfl, rfl⟩
    · split <;> exact ⟨rfl, rfl, rfl, rfl⟩
  · split <;> exact ⟨rfl, rfl, rfl, rfl⟩

end Peer

/-- An event other than an activation leaves the pace alone. -/
theorem Link.step_pace [Single F] {s s' : Link F} {a : PeerAction F} (hstep : s.step a = some s')
    (hother : ∀ env accepted, a ≠ .run env accepted) : SamePace s.peer s'.peer := by
  cases step_cases hstep with
  | run env accepted => exact absurd rfl (hother env accepted)
  | dropped packet stamps h0 => exact .refl _
  | receive packet stamps h0 => exact s.peer.receive_pace packet stamps
  | sent stamps hsending => exact ⟨rfl, rfl, rfl, rfl⟩
  | arpReply macAddr env => exact s.peer.arpCallback_pace macAddr env
  | setTaiClock offset => exact ⟨rfl, rfl, rfl, rfl⟩

/-! ## What the task does while it waits -/

namespace Peer

variable [Single F]

/-- An activation counts down. The interval changes when the count comes to 0, one activation before
the poll. -/
theorem run_counts {p : Peer F} {env : Env F} (hidle : p.pollActive = false)
    (hraw : env.ppsEthernetRaw ≠ 0) (hmac : (p.isMacInvalid env).1 = false)
    (hwait : p.pollWait ≠ 0) (interval : BitVec 32) :
    (p.run env).1.pollActive = false ∧ (p.run env).1.pollWait = p.pollWait - 1 ∧
      (p.run env).1.pollTrim = p.pollTrim ∧
      intervalOf interval (p.run env).2 =
        if p.pollWait - 1 = 0 then p.pollTrim else interval := by
  obtain ⟨hactive, hsame, htrim, -⟩ := p.isMacInvalid_pace env
  have hrun : p.run env = ({ (p.isMacInvalid env).2.1 with pollWait := p.pollWait - 1 },
      (p.isMacInvalid env).2.2 ++
        if p.pollWait - 1 = 0 then [.runAdjust p.pollTrim] else []) := by
    unfold run
    rw [if_neg (by simp [hidle]), if_neg hraw]
    dsimp only
    rw [if_neg (by simp [hmac]), if_pos (by rwa [hsame]), hsame, htrim]
  rw [hrun]
  refine ⟨hactive.trans hidle, rfl, htrim, ?_⟩
  rw [intervalOf_append, intervalOf_isMacInvalid]
  split <;> rfl

/-- An activation with nothing left to count starts a poll. -/
theorem run_starts {p : Peer F} {env : Env F} (hidle : p.pollActive = false)
    (hraw : env.ppsEthernetRaw ≠ 0) (hmac : (p.isMacInvalid env).1 = false)
    (hwait : p.pollWait = 0) : (p.run env).1.pollActive = true := by
  have hsame := (p.isMacInvalid_pace env).pollWait
  unfold run
  rw [if_neg (by simp [hidle]), if_neg hraw]
  dsimp only
  rw [if_neg (by simp [hmac]), if_neg (by rw [hsame]; exact not_not.mpr hwait)]
  rfl

/-- **The end of a poll**: the interval is drawn and the task sleeps for a second. -/
theorem run_ends {p : Peer F} {env : Env F} (hactive : p.pollActive = true)
    (hend : (p.pollRun env).1 = false) (interval : BitVec 32) :
    (p.run env).1.pollActive = false ∧
      (p.run env).1.pollWait = (fuzz (p.run env).1.poll env.random >>> 32).setWidth 32 ∧
      (p.run env).1.pollTrim = ((fuzz (p.run env).1.poll env.random).setWidth 32) >>> 8 ∧
      ((p.run env).1.pollWait ≠ 0 →
        intervalOf interval (p.run env).2 = BitVec.ofNat 32 Sched.RUN_SEC) := by
  have hdone : (p.pollRun env).2.1.pollActive = false := by
    rcases p.pollRun_branch env with ⟨hrun, -⟩ | ⟨hrun, -, hidle⟩
    · rw [hrun] at hend
      cases hend
    · rw [hrun]
      exact hidle
  unfold run
  rw [if_pos hactive]
  dsimp only
  rw [if_neg (by simp [hend])]
  refine ⟨hdone, rfl, rfl, fun hwait => ?_⟩
  dsimp only at hwait
  rw [intervalOf_concat, if_pos hwait]

end Peer

/-! ## The countdown -/

section pacing

variable [Single F]

/-- The countdown that `p` began is under way. -/
structure Counting (p : Peer F) (interval : BitVec 32) (h : PeerHistory F) (s : Link F) :
    Prop where
  idle : s.peer.pollActive = false
  trim : s.peer.pollTrim = p.pollTrim
  wait : s.peer.pollWait.toNat + (sleeps interval h).length = p.pollWait.toNat
  slept : sleeps interval h =
    List.replicate (sleeps interval h).length (BitVec.ofNat 32 Sched.RUN_SEC)
  next : taskInterval interval h =
    if s.peer.pollWait = 0 then p.pollTrim else BitVec.ofNat 32 Sched.RUN_SEC
  quiet : started h = false

variable {p : Peer F} {interval : BitVec 32} {h : PeerHistory F} {s s' : Link F}
  {a : PeerAction F}

theorem Counting.begin (hidle : s.peer.pollActive = false) (hwait : s.peer.pollWait ≠ 0)
    (hinterval : interval = BitVec.ofNat 32 Sched.RUN_SEC) :
    Counting s.peer interval [] s where
  idle := hidle
  trim := rfl
  wait := rfl
  slept := rfl
  next := (if_neg hwait).symm ▸ hinterval
  quiet := rfl

theorem Counting.other (hc : Counting p interval h s) (hstep : s.step a = some s')
    (hother : ∀ env accepted, a ≠ .run env accepted) :
    Counting p interval ((s, a) :: h) s' := by
  obtain ⟨hactive, hwait, htrim, -⟩ := Link.step_pace hstep hother
  have hsame : sleeps interval ((s, a) :: h) = sleeps interval h ∧
      taskInterval interval ((s, a) :: h) = taskInterval interval h ∧
      started ((s, a) :: h) = started h := by
    cases a with
    | run env accepted => exact absurd rfl (hother env accepted)
    | _ => exact ⟨rfl, rfl, rfl⟩
  obtain ⟨hsleeps, htask, hstarted⟩ := hsame
  constructor
  · exact hactive.trans hc.idle
  · exact htrim.trans hc.trim
  · rw [hwait, hsleeps]
    exact hc.wait
  · rw [hsleeps]
    exact hc.slept
  · rw [htask, hwait]
    exact hc.next
  · exact hstarted.trans hc.quiet

/-- The sleep before an activation. -/
theorem Counting.sleeps_run (hc : Counting p interval h s) (env : Env F) (accepted : Bool) :
    sleeps interval ((s, .run env accepted) :: h) =
      if s.peer.pollWait = 0 then p.countdown
      else List.replicate ((sleeps interval h).length + 1) (BitVec.ofNat 32 Sched.RUN_SEC) := by
  show taskInterval interval h :: sleeps interval h = _
  rw [hc.next, hc.slept, List.length_replicate]
  by_cases hzero : s.peer.pollWait = 0
  · have hcounted : (sleeps interval h).length = p.pollWait.toNat := by
      have hwait := hc.wait
      rw [hzero] at hwait
      exact (Nat.zero_add _).symm.trans hwait
    rw [if_pos hzero, if_pos hzero, hcounted]
    rfl
  · rw [if_neg hzero, if_neg hzero]
    rfl

/-- The activation counts down. -/
theorem Counting.run (hc : Counting p interval h s) {env : Env F} {accepted : Bool}
    (hready : Ready s (.run env accepted)) (hstep : s.step (.run env accepted) = some s')
    (hwait : s.peer.pollWait ≠ 0) : Counting p interval ((s, .run env accepted) :: h) s' := by
  obtain rfl := Option.some.inj hstep
  obtain ⟨hactive, hcount, htrim, hout⟩ := Peer.run_counts hc.idle hready.1 hready.2 hwait
    (taskInterval interval h)
  have hsleeps := hc.sleeps_run env accepted
  rw [if_neg hwait] at hsleeps
  have hlength : (sleeps interval ((s, .run env accepted) :: h)).length =
      (sleeps interval h).length + 1 := rfl
  have hpos : 0 < s.peer.pollWait.toNat :=
    Nat.pos_of_ne_zero fun hzero => hwait (BitVec.eq_of_toNat_eq hzero)
  have htotal := hc.wait
  -- one second less to wait, one sleep more
  constructor
  · exact hactive
  · exact htrim.trans hc.trim
  · rw [hlength]
    show (s.peer.run env).1.pollWait.toNat + _ = _
    rw [hcount, BitVec.toNat_sub_of_le (by rw [BitVec.le_def]; exact hpos)]
    show s.peer.pollWait.toNat - 1 + _ = _
    omega
  · rw [hlength]
    exact hsleeps
  · show intervalOf (taskInterval interval h) (s.peer.run env).2 =
      if (s.peer.run env).1.pollWait = 0 then _ else _
    rw [hout, hcount, hc.trim, hc.next, if_neg hwait]
  · show (starts s (.run env accepted) || started h) = false
    rw [hc.quiet, Bool.or_false]
    show (!s.peer.pollActive && (s.peer.run env).1.pollActive) = false
    rw [hactive, Bool.and_false]

/-- The activation starts the poll exactly when nothing is left to count. -/
theorem Counting.starts_iff (hc : Counting p interval h s) {env : Env F} {accepted : Bool}
    (hready : Ready s (.run env accepted)) :
    starts s (.run env accepted) = true ↔ s.peer.pollWait = 0 := by
  show (!s.peer.pollActive && (s.peer.run env).1.pollActive) = true ↔ _
  rw [hc.idle, Bool.not_false, Bool.true_and]
  by_cases hwait : s.peer.pollWait = 0
  · exact iff_of_true (Peer.run_starts hc.idle hready.1 hready.2 hwait) hwait
  · have hactive := (Peer.run_counts hc.idle hready.1 hready.2 hwait 0).1
    exact iff_of_false (by rw [hactive]; exact Bool.false_ne_true) hwait

/-- The countdown is under way, or it is over and a poll was started. -/
def Paced (p : Peer F) (interval : BitVec 32) (h : PeerHistory F) (s : Link F) : Prop :=
  Counting p interval h s ∨ started h = true ∧ p.pollWait.toNat < (sleeps interval h).length

theorem Paced.step (hp : Paced p interval h s) (hready : Ready s a) (hstep : s.step a = some s') :
    Paced p interval ((s, a) :: h) s' := by
  rcases hp with hc | ⟨hstarted, hlong⟩
  · cases a with
    | run env accepted =>
        -- the activation that finds nothing to count is the one that ends the countdown
        by_cases hwait : s.peer.pollWait = 0
        · refine Or.inr ⟨?_, ?_⟩
          · show (starts s (.run env accepted) || started h) = true
            rw [(hc.starts_iff hready).mpr hwait, Bool.true_or]
          · rw [hc.sleeps_run env accepted, if_pos hwait]
            show _ < (List.replicate _ _).length + 1
            rw [List.length_replicate]
            exact Nat.lt_succ_self _
        · exact Or.inl (hc.run hready hstep hwait)
    | receive packet stamps => exact Or.inl (hc.other hstep fun _ _ ha => by cases ha)
    | sent stamps => exact Or.inl (hc.other hstep fun _ _ ha => by cases ha)
    | arpReply macAddr env => exact Or.inl (hc.other hstep fun _ _ ha => by cases ha)
    | setTaiClock offset => exact Or.inl (hc.other hstep fun _ _ ha => by cases ha)
  · refine Or.inr ⟨?_, lt_of_lt_of_le hlong ?_⟩
    · show (starts s a || started h) = true
      rw [hstarted, Bool.or_true]
    · cases a with
      | run env accepted => exact Nat.le_succ _
      | _ => exact le_rfl

/-- **The countdown along a run** whose activations find the peer ready. -/
theorem paced_of_run {s₁ : Link F} (hrun : Run Link.step s₁ h s)
    (hready : ∀ q ∈ h, Ready q.1 q.2) (hidle : s₁.peer.pollActive = false)
    (hwait : s₁.peer.pollWait ≠ 0) (hinterval : interval = BitVec.ofNat 32 Sched.RUN_SEC) :
    Paced s₁.peer interval h s :=
  hrun.invariant_of_forall (I := Paced s₁.peer interval) (C := Ready) hready
    (Or.inl (Counting.begin hidle hwait hinterval)) fun _ _ _ _ hp hr hs => hp.step hr hs

end pacing

/-! ## The exponents -/

/-- The exponents of a timeserver in the local subnet, and of one elsewhere. -/
def PollRange : ℕ × ℕ × ℕ → Prop
  | (minPoll, maxPoll, poll) =>
      minPoll = 2 ∧ maxPoll = 4 ∧ 1 ≤ poll ∧ poll ≤ 4 ∨
        minPoll = 4 ∧ maxPoll = 6 ∧ 4 ≤ poll ∧ poll ≤ 6

namespace Peer

theorem pollSend_exponents (p : Peer F) (env : Env F) :
    exponents (p.pollSend env).1.toSource = exponents p.toSource := by
  dsimp only [pollSend]
  split <;> rfl

theorem pollEnd_exponents (p : Peer F) (env : Env F) :
    exponents (p.pollEnd env).1.toSource = exponents p.toSource := by
  unfold pollEnd
  split <;> rfl

theorem pollStep_exponents (p : Peer F) (env : Env F) :
    exponents (p.pollStep env).2.1.toSource = exponents p.toSource := by
  have hbranch := p.pollStep_branch env
  generalize p.pollStep env = r at hbranch ⊢
  cases hbranch with
  | send hs => exact pollSend_exponents _ env
  | followUp hs hr hx => exact pollSend_exponents _ env
  | received hs hr => exact pollEnd_exponents _ env
  | fallback hs hr hx =>
      show exponents (pollEnd _ env).1.toSource = _
      exact pollEnd_exponents _ env
  | timeout hs hr hx => rfl
  | wait hs hr => rfl

variable [Single F]

/-- The exponent stays within its bounds. -/
theorem updateStatus_exponents {p : Peer F} (h : PollRange (exponents p.toSource)) :
    PollRange (exponents p.updateStatus.toSource) := by
  have hspec := p.updateStatus_spec
  have hmin : p.updateStatus.minPoll = p.minPoll := by rw [hspec.writes]
  have hmax : p.updateStatus.maxPoll = p.maxPoll := by rw [hspec.writes]
  unfold PollRange exponents at *
  dsimp only at *
  rw [hmin, hmax]
  rcases hspec.poll with hpoll | ⟨hlt, hpoll⟩ | hpoll
  · rwa [hpoll]
  · rw [hpoll]
    split <;> omega
  · rw [hpoll]
    split <;> omega

theorem run_exponents {p : Peer F} {env : Env F} (h : PollRange (exponents p.toSource)) :
    PollRange (exponents (p.run env).1.toSource) := by
  have hbranch := p.run_branch env
  have hmac := (p.isMacInvalid_pace env).exponents
  generalize p.run env = r at hbranch ⊢
  cases hbranch with
  | poll hactive ho =>
      show PollRange (exponents (p.pollRun env).2.1.toSource)
      have hstep : PollRange (exponents (p.pollStep env).2.1.toSource) := by
        rwa [pollStep_exponents]
      rcases p.pollRun_branch env with ⟨hrun, -⟩ | ⟨hrun, -⟩ <;> rw [hrun]
      · exact hstep
      · exact updateStatus_exponents hstep
  | idle hactive interval => exact h
  | wait hactive ho =>
      show PollRange (exponents (p.isMacInvalid env).2.1.toSource)
      rwa [hmac]
  | start hactive _ _ =>
      show PollRange (exponents (pollSend _ env).1.toSource)
      rw [pollSend_exponents]
      show PollRange (exponents (p.isMacInvalid env).2.1.toSource)
      rwa [hmac]

end Peer

/-- **The range of the exponent** in every reachable state. -/
theorem poll_range_of_run [Single F] {ipAddr ipSubnet ipAddress : BitVec 32}
    {h : PeerHistory F} {s : Link F}
    (hrun : Run Link.step (Link.init ipAddr ipSubnet ipAddress) h s) :
    1 ≤ s.peer.poll ∧ s.peer.poll ≤ 6 := by
  have hrange : PollRange (exponents s.peer.toSource) := by
    refine hrun.invariant (I := fun _ s => PollRange (exponents s.peer.toSource)) ?_ ?_
    · show PollRange (exponents (Peer.new ipAddr ipSubnet ipAddress).toSource)
      unfold Peer.new
      dsimp only
      split <;> simp [PollRange, exponents, PEER_MIN_POLL, PEER_MAX_POLL]
    · intro h s a s' hi hstep
      by_cases hrun : ∃ env accepted, a = .run env accepted
      · obtain ⟨env, accepted, rfl⟩ := hrun
        obtain rfl := Option.some.inj hstep
        exact Peer.run_exponents hi
      · have hsame := Link.step_pace hstep fun env accepted ha => hrun ⟨env, accepted, ha⟩
        rwa [hsame.exponents]
  unfold PollRange exponents at hrange
  dsimp only at hrange
  omega

/-! ## From one poll to the next -/

section pacing

variable [Single F]

/-- What the end of a poll leaves for the countdown. -/
theorem Link.step_ends {s₀ s₁ : Link F} {env : Env F} {accepted : Bool}
    (hactive : s₀.peer.pollActive = true) (hend : (s₀.peer.pollRun env).1 = false)
    (hstep : s₀.step (.run env accepted) = some s₁) (hpoll : s₁.peer.poll ≤ 6) :
    s₁.peer.pollActive = false ∧
      (0 < s₁.peer.pollWait.toNat ∧ s₁.peer.pollTrim.toNat < 2 ^ 24 ∧
        s₁.peer.pollWait.toNat * 2 ^ 24 + s₁.peer.pollTrim.toNat =
          pollInterval s₁.peer.poll env.random) ∧
      ∀ interval, nextInterval interval s₀ (.run env accepted) =
        BitVec.ofNat 32 Sched.RUN_SEC := by
  obtain rfl := Option.some.inj hstep
  have hends := Peer.run_ends hactive hend
  have hparts := Peer.fuzz_parts hpoll env.random
  obtain ⟨hidle, hwait, htrim, -⟩ := hends 0
  rw [← hwait, ← htrim] at hparts
  refine ⟨hidle, hparts, fun interval => (hends interval).2.2.2 fun hzero => ?_⟩
  have hpos := hparts.1
  rw [hzero] at hpos
  exact absurd hpos (lt_irrefl 0)

variable {p : Peer F} {interval : BitVec 32} {h : PeerHistory F} {s : Link F} {env : Env F}
  {accepted : Bool}

/-- **The next poll** is started by the activation after the countdown. -/
theorem Paced.starts_iff (hp : Paced p interval h s) (hready : Ready s (.run env accepted)) :
    starts s (.run env accepted) = true ∧ started h = false ↔
      sleeps interval ((s, .run env accepted) :: h) = p.countdown := by
  have hlength : (sleeps interval ((s, .run env accepted) :: h)).length =
      (sleeps interval h).length + 1 := rfl
  have hcountdown : p.countdown.length = p.pollWait.toNat + 1 := by
    unfold Peer.countdown
    rw [List.length_cons, List.length_replicate]
  -- once a poll was started there were too many sleeps for the countdown
  constructor
  · rintro ⟨hstarts, hquiet⟩
    rcases hp with hc | ⟨hstarted, -⟩
    · rw [hc.sleeps_run, if_pos ((hc.starts_iff hready).mp hstarts)]
    · rw [hquiet] at hstarted
      cases hstarted
  · intro hsleeps
    have hcounted : (sleeps interval h).length = p.pollWait.toNat := by
      rw [hsleeps, hcountdown] at hlength
      exact (Nat.succ.inj hlength).symm
    rcases hp with hc | ⟨-, hlong⟩
    · refine ⟨(hc.starts_iff hready).mpr ?_, hc.quiet⟩
      have hwait := hc.wait
      apply BitVec.eq_of_toNat_eq
      show s.peer.pollWait.toNat = 0
      omega
    · exact absurd hlong (by omega)

/-- Up to then the sleeps are those of the countdown. -/
theorem Paced.suffix (hp : Paced p interval h s)
    (hlength : (sleeps interval ((s, .run env accepted) :: h)).length ≤ p.pollWait.toNat + 1) :
    sleeps interval ((s, .run env accepted) :: h) <:+ p.countdown := by
  have hle : (sleeps interval h).length ≤ p.pollWait.toNat := Nat.le_of_succ_le_succ hlength
  rcases hp with hc | ⟨-, hlong⟩
  · rw [hc.sleeps_run]
    by_cases hzero : s.peer.pollWait = 0
    · rw [if_pos hzero]
    · rw [if_neg hzero]
      have hpos : 0 < s.peer.pollWait.toNat :=
        Nat.pos_of_ne_zero fun h => hzero (BitVec.eq_of_toNat_eq h)
      have hwait := hc.wait
      have hsplit : p.pollWait.toNat =
          (s.peer.pollWait.toNat - 1) + ((sleeps interval h).length + 1) := by omega
      refine List.IsSuffix.trans ?_ (List.suffix_cons _ _)
      rw [hsplit]
      exact ⟨_, List.replicate_append_replicate⟩
  · exact absurd hle (Nat.not_le.mpr hlong)

end pacing

/-- **Poll pacing.** The end of a poll draws the interval to the next one: the seconds and the rest
add up to it. Of the activations after that, which may be mixed with any other events, the one that
starts the next poll is the one that follows this many sleeps of a second and one of the rest, and
the sleeps are these from the beginning. -/
theorem run_paced [Single F] {s₀ s₁ : Link F} {env₀ : Env F} {accepted₀ : Bool}
    (hactive : s₀.peer.pollActive = true) (hend : (s₀.peer.pollRun env₀).1 = false)
    (hstep : s₀.step (.run env₀ accepted₀) = some s₁) (hpoll : s₁.peer.poll ≤ 6)
    (interval : BitVec 32) :
    (0 < s₁.peer.pollWait.toNat ∧ s₁.peer.pollTrim.toNat < 2 ^ 24 ∧
      s₁.peer.pollWait.toNat * 2 ^ 24 + s₁.peer.pollTrim.toNat =
        2 ^ (s₁.peer.poll + 24) + env₀.random.toNat * 2 ^ s₁.peer.poll / 2 ^ 12) ∧
    ∀ {h : PeerHistory F} {s : Link F} {env : Env F} {accepted : Bool},
      Run Link.step s₁ h s → (∀ q ∈ h, Ready q.1 q.2) → Ready s (.run env accepted) →
      let slept := sleeps (nextInterval interval s₀ (.run env₀ accepted₀))
        ((s, .run env accepted) :: h)
      let next := starts s (.run env accepted) = true ∧ started h = false
      (next ↔ slept = s₁.peer.pollTrim ::
          List.replicate s₁.peer.pollWait.toNat (BitVec.ofNat 32 Sched.RUN_SEC)) ∧
        (slept.length ≤ s₁.peer.pollWait.toNat + 1 →
          slept <:+ s₁.peer.pollTrim ::
            List.replicate s₁.peer.pollWait.toNat (BitVec.ofNat 32 Sched.RUN_SEC)) ∧
        (next → 2 ^ s₁.peer.poll * 2 ^ 24 ≤ total slept ∧
          16 * total slept < 17 * (2 ^ s₁.peer.poll * 2 ^ 24)) := by
  obtain ⟨hidle, hparts, hinterval⟩ := Link.step_ends hactive hend hstep hpoll
  refine ⟨hparts, fun {h s env accepted} hrun hready hnow => ?_⟩
  have hwait : s₁.peer.pollWait ≠ 0 := by
    intro hzero
    have hpos := hparts.1
    rw [hzero] at hpos
    exact absurd hpos (lt_irrefl 0)
  have hpaced : Paced s₁.peer (nextInterval interval s₀ (.run env₀ accepted₀)) h s :=
    paced_of_run hrun hready hidle hwait (hinterval interval)
  have hstarts := hpaced.starts_iff hnow
  refine ⟨hstarts, fun hlength => hpaced.suffix hlength, fun hnext => ?_⟩
  rw [hstarts.mp hnext, Peer.total_countdown, hparts.2.2, ← pow_add]
  exact ⟨Nat.le_add_right _ _, pollInterval_lt _ _⟩

/-! ## A timeserver in the local subnet -/

def localServer : Link Nano := Link.init 0x0200000A 0x00FFFFFF 0x0100000A

/-- Its address is resolved, and its first poll is started. -/
def firstPoll : List (PeerAction Nano) :=
  [.run (atSecond 1) true, .arpReply 2 (atSecond 1), .run (atSecond 1) false]

/-- The poll times out. -/
def timedOut : Env Nano := { atSecond 2 with random := 0x80000000 }

/-- The activation after a run ends a sleep of 1/16 s, the ones in the run slept a second each. -/
def slowStart (h : PeerHistory Nano) (s : Link Nano) : Bool :=
  decide ((∀ q ∈ h, Ready q.1 q.2) ∧ Ready s (.run (atSecond 5) true) ∧
    sleeps (BitVec.ofNat 32 Sched.RUN_SEC) ((s, .run (atSecond 5) true) :: h) =
      [0x100000, 0x1000000, 0x1000000])

/-- The next poll comes after two sleeps of a second and one of 1/16 s. -/
theorem run_paced_localServer :
    ∃ s₀ s₁ h s, s₀.peer.pollActive = true ∧ Link.step s₀ (.run timedOut false) = some s₁ ∧
      s₁.peer.poll = 1 ∧
      s₁.peer.pollWait.toNat * 2 ^ 24 + s₁.peer.pollTrim.toNat =
        2 ^ (s₁.peer.poll + 24) + timedOut.random.toNat * 2 ^ s₁.peer.poll / 2 ^ 12 ∧
      Run Link.step s₁ h s ∧ starts s (.run (atSecond 5) true) = true ∧ started h = false := by
  obtain ⟨h₀, s₀, -, hp⟩ := @exists_run_of_replay _ _ Link.step localServer firstPoll
    (fun _ s₀ => decide (s₀.peer.pollActive = true ∧ (s₀.peer.pollRun timedOut).1 = false) &&
      (s₀.step (.run timedOut false)).any fun (s₁ : Link Nano) =>
        decide (s₁.peer.poll = 1 ∧ s₁.peer.pollTrim = 0x100000 ∧ s₁.peer.pollWait = 2) &&
        (replay Link.step [] s₁ [.run (atSecond 3) true, .run (atSecond 4) true]).any
          fun r => slowStart r.1 r.2) (by decide +kernel)
  obtain ⟨hpoll, hp⟩ := Bool.and_eq_true_iff.mp hp
  obtain ⟨hactive, hend⟩ := of_decide_eq_true hpoll
  obtain ⟨s₁, hstep, hp⟩ := (Option.any_eq_true _ _).mp hp
  obtain ⟨hone, hp⟩ := Bool.and_eq_true_iff.mp hp
  obtain ⟨hone, htrim, hwait⟩ := of_decide_eq_true hone
  obtain ⟨h, s, hrun, hp⟩ := exists_run_of_replay (p := slowStart) hp
  obtain ⟨hready, hnow, hslept⟩ := of_decide_eq_true hp
  obtain ⟨⟨-, -, hparts⟩, hnext⟩ :=
    run_paced hactive hend hstep (by rw [hone]; decide) 0
  have hinterval : nextInterval 0 s₀ (.run timedOut false) = BitVec.ofNat 32 Sched.RUN_SEC :=
    (Link.step_ends hactive hend hstep (by rw [hone]; decide)).2.2 0
  have hstarts := (hnext hrun hready hnow).1.mpr (by rw [hinterval, hslept, htrim, hwait]; rfl)
  exact ⟨s₀, s₁, h, s, hactive, hstep, hone, hparts, hrun, hstarts⟩

end Gpsdo.Ntp
