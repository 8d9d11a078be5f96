import Gpsdo.Basic.Run
import Gpsdo.Sched.Task

set_option autoImplicit false

/-! # The scheduler loop (`lib/run.cpp`)

The functions of `run.hpp` and the loop `runScheduler`, as a machine in the sense of
`Basic/Run.lean`. The loop is cut into the steps between which interrupts are placed; a step
of the loop, a call made by the running callback and a call of `runWake` by an interrupt are
each one action. While a callback runs it makes any calls it likes. Before `runScheduler` is
entered the same calls are made by `main`.
-/

namespace Gpsdo.Sched

/-! ## The functions of `run.hpp` -/

namespace State

/-- `runWait` -/
def runWait (s : State) (callback : Nat) (ref : Option Nat) : Option (Node × State) :=
  s.alloc.bind fun (task, s) => (s.setWait task (.entry callback) ref).map (task, ·)

/-- `runSleep` -/
def runSleep (s : State) (delay : BitVec 32) (callback : Nat) (ref : Option Nat) :
    Option (Node × State) :=
  s.alloc.bind fun (task, s) => (s.setSleep task delay (.entry callback) ref).map (task, ·)

/-- `runPeriodic` -/
def runPeriodic (s : State) (interval : BitVec 32) (callback : Nat) (ref : Option Nat) :
    Option (Node × State) :=
  s.alloc.bind fun (task, s) => (s.setPeriodic task interval (.entry callback) ref).map (task, ·)

/-- `runAdjust` -/
def runAdjust (s : State) (taskHandle : Node) (interval : BitVec 32) : State :=
  s.setInterval taskHandle interval

/-- `runWake` -/
def runWake (s : State) (taskHandle : Node) : State :=
  { s.wake taskHandle with taskUpdate := true }

/-- `runCancel(void*)` -/
def runCancelTask (s : State) (taskHandle : Node) : State :=
  { s.cancel taskHandle with taskUpdate := true }

/-- The test of the three loops of `runCancel`: by reference when no callback is given, by
callback when no reference is given, by both otherwise. -/
def cancelMatch (callback : Option Nat) (ref : Option Nat) (t : Task) : Bool :=
  match callback with
  | none => t.reference == ref
  | some addr =>
      match ref with
      | none => t.callback == .entry addr
      | some _ => t.callback == .entry addr && t.reference == ref

/-- The loop of `runCancel`. -/
def cancelFrom (callback : Option Nat) (ref : Option Nat) :
    Nat → State → Option Node → Option State
  | 0, _, _ => none
  | _ + 1, _, none => none
  | fuel + 1, s, some task =>
      if task = .queueRoot then some s
      else
        let iter := s.next task
        let s := if cancelMatch callback ref (s.mem task) then s.runCancelTask task else s
        cancelFrom callback ref fuel s iter

/-- `runCancel` -/
def runCancel (s : State) (callback : Option Nat) (ref : Option Nat) : Option State :=
  cancelFrom callback ref 33 s (s.next .queueRoot)

end State

/-- A call of a function of `run.hpp`. A task handle is a slot of the pool. -/
inductive Call
  | runWait (callback : Nat) (ref : Option Nat)
  | runSleep (delay : BitVec 32) (callback : Nat) (ref : Option Nat)
  | runPeriodic (interval : BitVec 32) (callback : Nat) (ref : Option Nat)
  | runAdjust (taskHandle : Fin 32) (interval : BitVec 32)
  | runWake (taskHandle : Fin 32)
  | runCancel (callback : Option Nat) (ref : Option Nat)
  deriving DecidableEq, Repr

/-- The state a call leaves behind; the handle it may return is the caller's. -/
def State.perform (s : State) : Call → Option State
  | .runWait callback ref => (s.runWait callback ref).map Prod.snd
  | .runSleep delay callback ref => (s.runSleep delay callback ref).map Prod.snd
  | .runPeriodic interval callback ref => (s.runPeriodic interval callback ref).map Prod.snd
  | .runAdjust taskHandle interval => some (s.runAdjust (.pool taskHandle) interval)
  | .runWake taskHandle => some (s.runWake (.pool taskHandle))
  | .runCancel callback ref => s.runCancel callback ref

/-! ## The loop -/

/-- Where the processor is: in `main` before `runScheduler`, or in the loop at its top, at the
clearing of `taskUpdate`, at slot `i` of the scan, at the readiness check, at `run`, inside a
callback, or at `requeue` of a task. -/
inductive Pc
  | boot
  | top
  | clear
  | scan (i : Nat)
  | check
  | run (task : Node)
  | callback (task : Node)
  | requeue (task : Node)
  deriving DecidableEq, Repr

/-- The task the loop is busy with. -/
def Pc.task : Pc → Option Node
  | .run task => some task
  | .callback task => some task
  | .requeue task => some task
  | _ => none

/-- The scheduler and the place it is at. -/
structure Sys where
  st : State
  pc : Pc

inductive Action
  /-- The timer advances. -/
  | elapse (ticks : Nat)
  /-- An interrupt calls `runWake`. -/
  | interrupt (taskHandle : Fin 32)
  /-- The next step of `runScheduler`. -/
  | loop
  /-- The running callback, or `main`, makes a call. -/
  | call (c : Call)
  /-- The running callback returns, or `main` enters `runScheduler`. -/
  | ret
  deriving DecidableEq, Repr

/-- One step of `runScheduler`. -/
def loopStep (s : Sys) : Option Sys :=
  match s.pc with
  | .boot => none
  | .top => some { s with pc := if s.st.taskUpdate then .clear else .check }
  | .clear => some ⟨{ s.st with taskUpdate := false }, .scan 0⟩
  | .scan i =>
      if h : i < 32 then (s.st.update (.pool ⟨i, h⟩)).map (⟨·, .scan (i + 1)⟩)
      else some { s with pc := .check }
  | .check =>
      (s.st.next .queueRoot).map fun task =>
        { s with pc := if s.st.isReady task then .run task else .top }
  | .run task =>
      match s.st.run task with
      | (st, none) => some ⟨st, .requeue task⟩
      | (_, some (.nullptr, _)) => none
      | (st, some (.doNothing, _)) => some ⟨st, .requeue task⟩
      | (st, some (.entry _, _)) => some ⟨st, .callback task⟩
  | .callback _ => none
  | .requeue task => (s.st.requeue task).map (⟨·, .top⟩)

/-- The places where functions of `run.hpp` are called from: `main` and the callbacks. -/
def Pc.inTask : Pc → Bool
  | .boot => true
  | .callback _ => true
  | _ => false

/-- One action of the scheduler and its surroundings. -/
def step (s : Sys) : Action → Option Sys
  | .elapse ticks => some { s with st.raw := s.st.raw + BitVec.ofNat 32 ticks }
  | .interrupt taskHandle => some { s with st := s.st.runWake (.pool taskHandle) }
  | .loop => loopStep s
  | .call c => if s.pc.inTask then (s.st.perform c).map (⟨·, s.pc⟩) else none
  | .ret =>
      match s.pc with
      | .boot => some { s with pc := .top }
      | .callback task => some { s with pc := .requeue task }
      | _ => none

/-- Where the loop goes from `run`: into the callback of the client, or on to `requeue`. -/
inductive RunCase (task : Node) : Option (RunCall × Option Nat) → Pc → Prop
  | waiting : RunCase task none (.requeue task)
  | doNothing (ref : Option Nat) : RunCase task (some (.doNothing, ref)) (.requeue task)
  | entry (addr : Nat) (ref : Option Nat) : RunCase task (some (.entry addr, ref)) (.callback task)

/-- All that can happen in a step. -/
inductive StepCase (s : Sys) : Action → Sys → Prop
  | elapse (ticks : Nat) :
      StepCase s (.elapse ticks) { s with st.raw := s.st.raw + BitVec.ofNat 32 ticks }
  | interrupt (taskHandle : Fin 32) :
      StepCase s (.interrupt taskHandle) { s with st := s.st.runWake (.pool taskHandle) }
  | call {c : Call} {st' : State} (htask : s.pc.inTask = true) (hst : s.st.perform c = some st') :
      StepCase s (.call c) ⟨st', s.pc⟩
  | enter (hpc : s.pc = .boot) : StepCase s .ret { s with pc := .top }
  | ret {x : Node} (hpc : s.pc = .callback x) : StepCase s .ret { s with pc := .requeue x }
  | top (hpc : s.pc = .top) :
      StepCase s .loop { s with pc := if s.st.taskUpdate then .clear else .check }
  | clear (hpc : s.pc = .clear) :
      StepCase s .loop ⟨{ s.st with taskUpdate := false }, .scan 0⟩
  | scan {i : Nat} {st' : State} (hi : i < 32) (hpc : s.pc = .scan i)
      (hst : s.st.update (.pool ⟨i, hi⟩) = some st') : StepCase s .loop ⟨st', .scan (i + 1)⟩
  | scanned {i : Nat} (hi : 32 ≤ i) (hpc : s.pc = .scan i) :
      StepCase s .loop { s with pc := .check }
  | check {x : Node} (hpc : s.pc = .check) (hx : s.st.next .queueRoot = some x) :
      StepCase s .loop { s with pc := if s.st.isReady x then .run x else .top }
  | run {x : Node} {pc' : Pc} (hpc : s.pc = .run x) (hpc' : RunCase x (s.st.run x).2 pc') :
      StepCase s .loop ⟨(s.st.run x).1, pc'⟩
  | requeue {x : Node} {st' : State} (hpc : s.pc = .requeue x)
      (hst : s.st.requeue x = some st') : StepCase s .loop ⟨st', .top⟩

theorem loopStep_cases {s s' : Sys} (h : loopStep s = some s') : StepCase s .loop s' := by
  cases hpc : s.pc with
  | boot => simp [loopStep, hpc] at h
  | callback x => simp [loopStep, hpc] at h
  | top =>
      obtain rfl : s' = _ := by simpa [loopStep, hpc] using h.symm
      exact .top hpc
  | clear =>
      obtain rfl : s' = _ := by simpa [loopStep, hpc] using h.symm
      exact .clear hpc
  | scan i =>
      by_cases hi : i < 32
      · simp only [loopStep, hpc, hi, dif_pos, Option.map_eq_some_iff] at h
        obtain ⟨st', hst, rfl⟩ := h
        exact .scan hi hpc hst
      · obtain rfl : s' = { s with pc := .check } := by simpa [loopStep, hpc, hi] using h.symm
        exact .scanned (Nat.not_lt.mp hi) hpc
  | check =>
      simp only [loopStep, hpc, Option.map_eq_some_iff] at h
      obtain ⟨x, hx, rfl⟩ := h
      exact .check hpc hx
  | run x =>
      simp only [loopStep, hpc] at h
      have hrun : ∀ pc', RunCase x (s.st.run x).2 pc' → s' = ⟨(s.st.run x).1, pc'⟩ →
          StepCase s .loop s' := by
        rintro pc' hcase rfl
        exact .run hpc hcase
      generalize s.st.run x = r at h hrun
      split at h
      · exact hrun _ .waiting (Option.some.inj h).symm
      · cases h
      · exact hrun _ (.doNothing _) (Option.some.inj h).symm
      · exact hrun _ (.entry _ _) (Option.some.inj h).symm
  | requeue x =>
      simp only [loopStep, hpc, Option.map_eq_some_iff] at h
      obtain ⟨st', hst, rfl⟩ := h
      exact .requeue hpc hst

theorem step_cases {s s' : Sys} {a : Action} (h : step s a = some s') : StepCase s a s' := by
  cases a with
  | elapse ticks =>
      obtain rfl := Option.some.inj h
      exact .elapse ticks
  | interrupt taskHandle =>
      obtain rfl := Option.some.inj h
      exact .interrupt taskHandle
  | loop => exact loopStep_cases h
  | call c =>
      simp only [step] at h
      split at h
      · obtain ⟨st', hst, rfl⟩ := Option.map_eq_some_iff.mp h
        exact .call ‹_› hst
      · cases h
  | ret =>
      simp only [step] at h
      split at h
      · obtain rfl := Option.some.inj h
        exact .enter ‹_›
      · obtain rfl := Option.some.inj h
        exact .ret ‹_›
      · cases h

/-- The scheduler after `initScheduler`. -/
def Sys.init : Sys := ⟨initScheduler, .boot⟩

/-- A history of the scheduler: states and actions, newest first. -/
abbrev History := List (Sys × Action)

/-! ## The surroundings

What a statement about runs may ask of the callers and of the passing of time, as conditions on
each action in the state it is taken in. -/

/-- The tasks in the run queue: the registered ones that have not been reclaimed. -/
def State.live (s : State) : List Node := s.runQueue.getD []

/-- What a registration sets up: the tag, the interval, the callback and the reference. -/
def Call.setup : Call → Option (Schedule × BitVec 32 × Nat × Option Nat)
  | .runWait callback ref => some (.sleep, MAX_RAW_INTV, callback, ref)
  | .runSleep delay callback ref => some (.sleep, toMonoRaw delay, callback, ref)
  | .runPeriodic interval callback ref => some (.periodic, toMonoRaw interval, callback, ref)
  | _ => none

def Action.setup : Action → Option (Schedule × BitVec 32 × Nat × Option Nat)
  | .call c => c.setup
  | _ => none

/-- The slot an action wakes. -/
def Action.wakes : Action → Option Node
  | .interrupt taskHandle => some (.pool taskHandle)
  | .call (.runWake taskHandle) => some (.pool taskHandle)
  | _ => none

def Action.ticks : Action → Option Nat
  | .elapse ticks => some ticks
  | _ => none

/-- `runWake` is given the handle of a task that has not been reclaimed. The clients keep to it:
they wake tasks they registered with `runWait`, and never cancel these. -/
def HandleOk (s : Sys) (a : Action) : Prop := ∀ x ∈ a.wakes, x ∈ s.st.live

/-- A callback registers a task only while fewer than 32 tasks are live. For `main` this is not
asked: there the exhausted pool leads to `faultBlink`. -/
def AllocOk (s : Sys) (a : Action) : Prop :=
  a.setup.isSome → s.pc ≠ .boot → s.st.live.length < 32

/-- Time does not advance so far that a queued task is overdue by 2^30 ticks or more. -/
def Timely (s : Sys) (a : Action) : Prop :=
  ∀ ticks ∈ a.ticks, ∀ n ∈ s.st.live, sdiff s.st.raw (s.st.due n) + (ticks : Int) < 2 ^ 30

/-- The surroundings keep to all three. -/
def Ok (s : Sys) (a : Action) : Prop := AllocOk s a ∧ HandleOk s a ∧ Timely s a

instance (s : Sys) (a : Action) : Decidable (Ok s a) :=
  inferInstanceAs (Decidable ((a.setup.isSome → s.pc ≠ .boot → s.st.live.length < 32) ∧
    (∀ x ∈ a.wakes, x ∈ s.st.live) ∧
    ∀ ticks ∈ a.ticks, ∀ n ∈ s.st.live, sdiff s.st.raw (s.st.due n) + (ticks : Int) < 2 ^ 30))

end Gpsdo.Sched
