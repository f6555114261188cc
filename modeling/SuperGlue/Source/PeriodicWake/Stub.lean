import SuperGlue.Lib.FiniteMap
import SuperGlue.Lib.Transition
import SuperGlue.Source.Stub.Cstub

/-!
# The client stub of periodic threads

`interface/periodic_wake/__stubs_rec/__c_stub.c` with the part of `timed_blk/timed_evt/__timed_event_rec`
that makes a thread periodic. The stub keeps one record for each thread. `rd_update` re-creates the
thread in the server through a plain stub, whose result is not looked at.

The steps of a thread are the pieces of the stub between two invocations, the entries, and the server's
parts. An assertion that fails leaves its thread in `failed`.
-/
namespace SuperGlue.Source.PeriodicWake.Stub
open Lib.Transition Lib.FiniteMap Source.Stub.Cstub

abbrev Tid := Nat

/-- `struct rec_data_pte` without its constant fields. -/
structure RecData where
  period : Nat
  fcnt : Nat
  deriving DecidableEq, Repr

inductive Op where
  | create (period : Nat)
  | wait
  deriving DecidableEq, Repr

/-- Where a thread is. `entered` is the fault count of the server when the kernel let the thread in. -/
inductive Pc where
  | idle
  /-- At `redo` of `periodic_wake_create`. -/
  | create (period : Nat)
  | createInside (period : Nat) (entered : Nat)
  | createReplied (period : Nat) (ret : Int) (entered : Nat)
  /-- At `redo` of `periodic_wake_wait`. -/
  | wait
  /-- At `periodic_wake_create_exist`. -/
  | recreate (period : Nat)
  | recreateInside (period : Nat) (entered : Nat)
  /-- Past `rd_update`, at the invocation of `periodic_wake_wait`. -/
  | waitCall
  | waitInside (entered : Nat)
  | waitReplied (ret : Int) (entered : Nat)
  | failed
  deriving DecidableEq, Repr

structure State where
  link : Link
  /-- `rec_pte_vect`. -/
  table : Table Tid RecData
  /-- The periods of the threads that are periodic in the server. -/
  server : Tid → Option Nat
  /-- The threads that are not idle. -/
  pcs : Table Tid Pc

def init : State := ⟨Link.init, .empty, fun _ => none, .empty⟩

variable (s : State) (t : Tid)

def State.pc : Pc := (s.pcs.get t).getD .idle

def State.goto (pc : Pc) : State := { s with pcs := s.pcs.set t pc }

def State.record (rd : RecData) : State := { s with table := s.table.set t rd }

/-- `__periodic_wake_create`. -/
def createServed (period : Nat) : State × Int :=
  if period < 1 then (s, -1) else ({ s with server := Function.update s.server t (some period) }, 0)

/-- A fault that the stub sees: update the counters, then `redo`. -/
def seesFault (redo : Pc) : State :=
  match s.link.faultUpdate with
  | some link => { s with link := link }.goto t redo
  | none => s.goto t .failed

/-- `periodic_wake_create` after its invocation: a record is made when there is none. -/
def created (period : Nat) : State :=
  match s.table.get t with
  | some _ => s.goto t .idle
  | none => if t = 0 then s.goto t .failed else (s.record t ⟨period, s.link.globalFaultCnt⟩).goto t .idle

/-- `rd_update` and the assertion behind it. -/
def rdUpdate : State :=
  match s.table.get t with
  | none => s.goto t .failed
  | some rd =>
    if rd.fcnt = s.link.globalFaultCnt then s.goto t .waitCall
    else (s.record t { rd with fcnt := s.link.globalFaultCnt }).goto t (.recreate rd.period)

/-- The next step of a thread. -/
def run : Option State :=
  match s.pc t with
  | .idle => none
  | .failed => none
  | .create period =>
    some (if s.link.reaches then s.goto t (.createInside period s.link.faultCnt)
      else seesFault s t (.create period))
  | .createInside period entered =>
    some (if entered = s.link.faultCnt then
        let (s, ret) := createServed s t period
        s.goto t (.createReplied period ret entered)
      else seesFault s t (.create period))
  | .createReplied period _ entered =>
    some (if entered = s.link.faultCnt then created s t period else seesFault s t (.create period))
  | .wait => some (rdUpdate s t)
  | .recreate period =>
    some (if s.link.reaches then s.goto t (.recreateInside period s.link.faultCnt) else s.goto t .waitCall)
  | .recreateInside period entered =>
    some ((if entered = s.link.faultCnt then (createServed s t period).1 else s).goto t .waitCall)
  | .waitCall =>
    some (if s.link.reaches then s.goto t (.waitInside s.link.faultCnt) else seesFault s t .wait)
  | .waitInside entered =>
    some (if entered = s.link.faultCnt then
        s.goto t (.waitReplied (if (s.server t).isSome then 0 else -1) entered)
      else seesFault s t .wait)
  | .waitReplied _ entered =>
    some (if entered = s.link.faultCnt then s.goto t .idle else seesFault s t .wait)

inductive Label where
  | call (t : Tid) (op : Op)
  | run (t : Tid)
  /-- The server fails and is started again. -/
  | reboot
  deriving DecidableEq, Repr

def redo : Op → Pc
  | .create period => .create period
  | .wait => .wait

def step : Label → Option State
  | .call t op => if s.pc t = .idle then some (s.goto t (redo op)) else none
  | .run t => run s t
  | .reboot => some { s with server := fun _ => none, link := s.link.trigger }

@[simp]
theorem goto_pc (pc : Pc) (t' : Tid) : (s.goto t pc).pc t' = if t' = t then pc else s.pc t' := by
  rw [State.pc, State.goto, Table.get_set]
  split
  · rfl
  · rfl

end SuperGlue.Source.PeriodicWake.Stub
