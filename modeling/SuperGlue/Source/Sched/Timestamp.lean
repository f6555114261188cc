import SuperGlue.Lib.Transition
import SuperGlue.Source.Stub.Cstub

/-!
# The clock of the scheduler and its client stub

`sched_timestamp` and `sched_timeout` of `interface/sched/__stubs_rec/__c_stub.c`, with
`sched_timestamp`, `sched_restore_ticks` and the tick of `sched_timer_tick` of
`sched/__cos_sched_base_rec`. The stub keeps the largest timestamp it has seen in `last_ticks`, a
volatile variable that all threads of the client share.

The steps of a thread are its accesses to `last_ticks` and to the tick count, and the crossings between
stub and server. The timer thread is not preempted by clients, so a tick is one step.
-/
namespace SuperGlue.Source.Sched.Timestamp
open Lib.Transition Source.Stub.Cstub

abbrev Tid := Nat

/-- `ticks` is a `u64_t`. -/
def tickModulus : Nat := 2 ^ 64

/-- A timestamp is an `unsigned long`. -/
def stampModulus : Nat := 2 ^ 32

inductive Call where
  | timestamp
  | timeout
  deriving DecidableEq, Repr

/-- Where a thread is. `entered` is the fault count of the scheduler when the kernel let the thread in,
and `call` the call that goes on after a `sched_restore_ticks`. -/
inductive Pc where
  | idle
  | redo (call : Call)
  | inside (call : Call) (entered : Nat)
  | replied (call : Call) (ret : Nat) (entered : Nat)
  /-- At `if (last_ticks > ret)`. -/
  | compare (ret : Nat)
  /-- At `last_ticks = ret`. -/
  | store (ret : Nat)
  /-- At the argument of `sched_restore_ticks(last_ticks)`. -/
  | restore (call : Call)
  | restoreCall (arg : Nat) (call : Call)
  /-- In the server, at `if (last_ticks <= ticks)`. -/
  | restoreInside (arg : Nat) (call : Call) (entered : Nat)
  /-- In the server, at `ticks = last_ticks`. -/
  | restoreWrite (arg : Nat) (call : Call) (entered : Nat)
  | restored (call : Call)
  /-- At `ret = last_ticks`. -/
  | last
  deriving DecidableEq, Repr

structure State where
  ticks : Nat
  lastTicks : Nat
  link : Link
  pc : Tid → Pc

def init : State := ⟨0, 0, Link.init, fun _ => .idle⟩

variable (s : State)

def State.goto (t : Tid) (pc : Pc) : State := { s with pc := Function.update s.pc t pc }

/-- A fault of the invocation of a call. -/
def seesFault (t : Tid) (call : Call) : Option State :=
  s.link.faultUpdate.map fun link => { s with link := link }.goto t (match call with
    | .timestamp => .redo .timestamp
    | .timeout => .restore .timeout)

/-- What the server answers: `sched_timeout` does not touch the tick count. -/
def answer : Call → Nat
  | .timestamp => s.ticks % stampModulus
  | .timeout => 0

/-- After a return without a fault. -/
def returned (ret : Nat) : Call → Pc
  | .timestamp => .compare ret
  | .timeout => .idle

/-- What follows `sched_restore_ticks`. -/
def continued : Call → Pc
  | .timestamp => .last
  | .timeout => .redo .timeout

/-- The next step of a thread. The plain stub of `sched_restore_ticks` yields an error code on a fault,
and the result is not used. -/
def run (t : Tid) : Option State :=
  match s.pc t with
  | .idle => none
  | .redo call =>
    if s.link.reaches then some (s.goto t (.inside call s.link.faultCnt)) else seesFault s t call
  | .inside call entered =>
    if entered = s.link.faultCnt then some (s.goto t (.replied call (answer s call) entered))
    else seesFault s t call
  | .replied call ret entered =>
    if entered = s.link.faultCnt then some (s.goto t (returned ret call)) else seesFault s t call
  | .compare ret => some (s.goto t (if s.lastTicks > ret then .restore .timestamp else .store ret))
  | .store ret => some ({ s with lastTicks := ret }.goto t .idle)
  | .restore call => some (s.goto t (.restoreCall s.lastTicks call))
  | .restoreCall arg call =>
    some (s.goto t (if s.link.reaches then .restoreInside arg call s.link.faultCnt else .restored call))
  | .restoreInside arg call entered =>
    some (s.goto t (if entered = s.link.faultCnt ∧ ¬ arg ≤ s.ticks then .restoreWrite arg call entered
      else .restored call))
  | .restoreWrite arg call entered =>
    some ((if entered = s.link.faultCnt then { s with ticks := arg } else s).goto t (.restored call))
  | .restored call => some (s.goto t (continued call))
  | .last => some (s.goto t .idle)

inductive Label where
  | call (t : Tid) (call : Call)
  | run (t : Tid)
  | tick
  /-- The scheduler fails and is started again with a tick count that is not larger. -/
  | reboot (ticks : Nat)
  deriving DecidableEq, Repr

def step : Label → Option State
  | .call t call => if s.pc t = .idle then some (s.goto t (.redo call)) else none
  | .run t => run s t
  | .tick => some { s with ticks := (s.ticks + 2) % tickModulus }
  | .reboot ticks => if ticks ≤ s.ticks then some { s with ticks := ticks, link := s.link.trigger } else none

/-- The value that the next step of a thread returns from `sched_timestamp`. -/
def result (t : Tid) : Option Nat :=
  match s.pc t with
  | .store ret => some ret
  | .last => some s.lastTicks
  | _ => none

end SuperGlue.Source.Sched.Timestamp
