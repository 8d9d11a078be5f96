import Gpsdo.Basic.Serial
import Gpsdo.Basic.Ring

set_option autoImplicit false

/-! # Tasks of the scheduler (`lib/run.cpp`)

The data of the scheduler and the member functions of `class Task`, as state-passing
functions on `State`. A `Task*` is an `Option Node`: null, the queue root or a slot of the
pool. `none` as the result of an operation means that the code does not come back from it: it
dereferences a null pointer for reading, or follows links that never reach the queue root.
A write through a null link has no effect (`State.storeNext`, `State.storePrev`).
-/

namespace Gpsdo.Sched

/-! ## Constants -/

/-- Timer ticks per second. -/
def CLK_FREQ : Nat := 125000000

/-- The longest interval the timer is used for, in ticks. -/
def MAX_RAW_INTV : BitVec 32 := 1#32 <<< 30

/-- One second in 8.24 fixed point. -/
def RUN_SEC : Nat := 1 <<< 24

/-- `MAX_RAW_INTV` in 8.24 fixed-point seconds. -/
def RUN_MAX : BitVec 32 := BitVec.ofNat 32 (MAX_RAW_INTV.toNat * RUN_SEC / CLK_FREQ)

/-! ## Data -/

/-- For the literals of slots. -/
instance neZero_slots : NeZero 32 := ⟨by decide⟩

/-- What a `Task*` points to: `taskQueue` or an element of `taskPool`. -/
inductive Node
  | queueRoot
  | pool (i : Fin 32)
  deriving DecidableEq, Repr

/-- `Task::Schedule` -/
inductive Schedule
  | free
  | canceled
  | sleep
  | periodic
  | wait
  | wake
  deriving DecidableEq, Repr

/-- A `RunCall`: null, the private callback `doNothing`, or a function of the clients. -/
inductive RunCall
  | nullptr
  | doNothing
  | entry (addr : Nat)
  deriving DecidableEq, Repr

/-- `class Task`. References are addresses, `none` is the null pointer. -/
structure Task where
  qNext : Option Node
  qPrev : Option Node
  schedule : Schedule
  callback : RunCall
  reference : Option Nat
  runNext : BitVec 32
  runInterval : BitVec 32
  deriving DecidableEq, Repr

/-- `Task::Task()` -/
def Task.new : Task where
  qNext := none
  qPrev := none
  schedule := .canceled
  callback := .doNothing
  reference := none
  runNext := 0
  runInterval := 0

/-- The static data of the scheduler, and the timer it reads: `raw` is the tick counter
`TIMER_MONO.TAV`. -/
structure State where
  mem : Node → Task
  taskFree : Option Node
  taskUpdate : Bool
  raw : BitVec 32

namespace State

/-- Assign to fields of the task `n`. -/
def write (s : State) (n : Node) (f : Task → Task) : State :=
  { s with mem := Function.update s.mem n (f (s.mem n)) }

def next (s : State) (n : Node) : Option Node := (s.mem n).qNext

def prev (s : State) (n : Node) : Option Node := (s.mem n).qPrev

def due (s : State) (n : Node) : BitVec 32 := (s.mem n).runNext

/-- `n->qNext = p` -/
def setNext (s : State) (n : Node) (p : Option Node) : State :=
  s.write n fun t => { t with qNext := p }

/-- `n->qPrev = p` -/
def setPrev (s : State) (n : Node) (p : Option Node) : State :=
  s.write n fun t => { t with qPrev := p }

/-- `link->qNext = p` through a link, which may be null: then nothing is written. -/
def storeNext (s : State) (link : Option Node) (p : Option Node) : State :=
  match link with
  | none => s
  | some n => s.setNext n p

/-- `link->qPrev = p` through a link, which may be null: then nothing is written. -/
def storePrev (s : State) (link : Option Node) (p : Option Node) : State :=
  match link with
  | none => s
  | some n => s.setPrev n p

end State

/-- `initScheduler`, on tasks as their constructor leaves them: the pool is chained into the
free list and the queue root is linked to itself. -/
def initScheduler : State where
  mem
    | .queueRoot => { Task.new with qNext := some .queueRoot, qPrev := some .queueRoot }
    | .pool i => { Task.new with qNext := if h : i.val + 1 < 32 then some (.pool ⟨i + 1, h⟩) else none }
  taskFree := some (.pool 0)
  taskUpdate := false
  raw := 0

/-! ## Member functions -/

/-- `Task::toMonoRaw` -/
def toMonoRaw (fixed_8_24 : BitVec 32) : BitVec 32 :=
  let clipped := if RUN_MAX < fixed_8_24 then RUN_MAX else fixed_8_24
  let scratch : BitVec 64 := clipped.setWidth 64 * BitVec.ofNat 64 CLK_FREQ
  (scratch >>> 24).setWidth 32

namespace State

/-- `Task::alloc`; `none` is the call of `faultBlink(3, 1)`, which never returns. -/
def alloc (s : State) : Option (Node × State) :=
  s.taskFree.map fun task =>
    (task, { s with taskFree := s.next task }.write task fun _ => Task.new)

/-- `Task::cancel` -/
def cancel (s : State) (this : Node) : State :=
  s.write this fun t => { t with schedule := .canceled, callback := .doNothing, reference := none }

/-- `Task::wake` -/
def wake (s : State) (this : Node) : State :=
  s.write this fun t => { t with schedule := .wake }

/-- `Task::isReady` -/
def isReady (s : State) (this : Node) : Bool :=
  decide (0 ≤ sdiff s.raw (s.due this))

/-- `Task::pop` -/
def pop (s : State) (this : Node) : State :=
  let s := s.storeNext (s.prev this) (s.next this)
  s.storePrev (s.next this) (s.prev this)

/-- `Task::run`: what it leaves behind when it performs the task, and the callback it calls
with which reference, if it calls one. -/
def run (s : State) (this : Node) : State × Option (RunCall × Option Nat) :=
  let task := ((s.mem this).callback, (s.mem this).reference)
  match (s.mem this).schedule with
  | .wait => (s, none)
  | .wake => (s.write this fun t => { t with schedule := .wait }, some task)
  | _ => (s, some task)

/-- The loop of `Task::insert`: the first task from `ins` on that is due after `runNext`, or the
root. A queue of 32 tasks takes 33 steps; a longer walk goes in a circle. -/
def insertionPoint (s : State) (runNext : BitVec 32) : Nat → Option Node → Option Node
  | 0, _ => none
  | _ + 1, none => none
  | fuel + 1, some ins =>
      if ins = .queueRoot then some ins
      else if sdiff runNext (s.due ins) < 0 then some ins
      else insertionPoint s runNext fuel (s.next ins)

/-- `Task::insert` -/
def insert (s : State) (this : Node) : Option State :=
  (s.insertionPoint (s.due this) 33 (s.next .queueRoot)).map fun ins =>
    let s := s.setNext this (some ins)
    let s := s.setPrev this (s.prev ins)
    let s := s.setPrev ins (some this)
    s.storeNext (s.prev this) (some this)

/-- `Task::update` -/
def update (s : State) (this : Node) : Option State :=
  match (s.mem this).schedule with
  | .canceled =>
      let s := s.pop this
      let s := s.write this fun t => { t with schedule := .free, callback := .nullptr }
      let s := s.setPrev this none
      let s := s.setNext this s.taskFree
      some { s with taskFree := some this }
  | .wake =>
      let s := s.pop this
      let s := s.write this fun t => { t with runNext := s.raw }
      s.insert this
  | _ => some s

/-- `Task::requeue` -/
def requeue (s : State) (this : Node) : Option State :=
  if (s.mem this).schedule = .canceled then some s
  else
    let s := s.pop this
    let s := s.write this fun t =>
      { t with runNext := t.runInterval + if t.schedule = .periodic then t.runNext else s.raw }
    s.insert this

/-- `Task::setInterval` -/
def setInterval (s : State) (this : Node) (interval : BitVec 32) : State :=
  s.write this fun t => { t with runInterval := toMonoRaw interval }

/-- The common body of `setPeriodic`, `setSleep` and `setWait`: the task first runs one
interval from now. -/
def setTask (s : State) (this : Node) (schedule : Schedule) (runInterval : BitVec 32)
    (callback : RunCall) (ref : Option Nat) : Option State :=
  (s.write this fun t =>
    { t with schedule, callback, reference := ref, runInterval, runNext := s.raw + runInterval }).insert
      this

/-- `Task::setPeriodic` -/
def setPeriodic (s : State) (this : Node) (interval : BitVec 32) (callback : RunCall)
    (ref : Option Nat) : Option State :=
  s.setTask this .periodic (toMonoRaw interval) callback ref

/-- `Task::setSleep` -/
def setSleep (s : State) (this : Node) (delay : BitVec 32) (callback : RunCall)
    (ref : Option Nat) : Option State :=
  s.setTask this .sleep (toMonoRaw delay) callback ref

/-- `Task::setWait`. The tag it writes is `Sleep`. -/
def setWait (s : State) (this : Node) (callback : RunCall) (ref : Option Nat) : Option State :=
  s.setTask this .sleep MAX_RAW_INTV callback ref

/-! ## The queue and the free list, as the code walks them -/

/-- The tasks from the root on along `qNext`, back to the root. -/
def runQueue (s : State) : Option (List Node) :=
  walk s.next (some .queueRoot) 32 (s.next .queueRoot)

/-- The slots from `taskFree` on along `qNext`, up to the null pointer. -/
def freeList (s : State) : Option (List Node) := walk s.next none 32 s.taskFree

end State

end Gpsdo.Sched
