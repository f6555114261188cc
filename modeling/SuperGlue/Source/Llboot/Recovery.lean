import Mathlib

/-!
# The recovery thread of the low-level booter

`recovery_upcall` and the loop of `llboot_thd_done` of `no_interface/llboot/__boot_deps_rec`. A thread leaves its
request in the fields of `struct llbooter_per_core` and switches to the recovery thread until `prev_thd` is not its
own any more. The recovery thread runs from such a switch until it switches back.

The steps are the accesses to the shared fields, the switches and the upcalls.
-/
namespace SuperGlue.Source.Llboot.Recovery
open Function

def llbootSched : Nat := 2

/-- `COS_UPCALL_HOMEAGAIN`. -/
def homeAgain : Nat := 9

/-- The arguments of `recovery_upcall`, and those of `cos_upcall_args`. -/
structure Request where
  op : Nat
  dest : Nat
  arg : Nat
  deriving DecidableEq, Repr

/-- Where a thread is in `recovery_upcall`. -/
inductive Pc where
  | out
  | setSpd (r : Request)
  | setOp (r : Request)
  | setArg (r : Request)
  /-- At the read of `prev_thd` for the argument of the scheduler. -/
  | readPrev
  | setSched (arg : Nat)
  /-- At the condition of the loop. -/
  | check
  | switch
  deriving DecidableEq, Repr

/-- Where the recovery thread is, with what it has read. -/
inductive Loop where
  /-- Not started, or in `cos_switch_thread`. -/
  | parked
  | top
  | gotPrev (pthd : Nat)
  | gotSpd (pthd rspd : Nat)
  | gotOp (pthd rspd op : Nat)
  | gotArg (pthd : Nat) (r : Request)
  | upcall (r : Request)
  | inside (r : Request)
  | switchBack (pthd : Nat)
  /-- An assertion has failed. -/
  | failed
  deriving DecidableEq, Repr

structure State where
  prevThd : Nat
  recoverSpd : Nat
  operation : Nat
  recoveryArg : Nat
  pc : Nat → Pc
  recovery : Loop

def State.init : State := ⟨0, 0, 0, 0, fun _ => .out, .parked⟩

def State.goto (s : State) (t : Nat) (pc : Pc) : State := { s with pc := update s.pc t pc }

/-- The argument of an upcall into the scheduler. -/
def schedArg (prevThd initThd : Nat) : Nat := prevThd <<< 16 ||| initThd

/-- A thread switches to the recovery thread. -/
def Loop.woken : Loop → Loop
  | .parked => .top
  | loop => loop

/-- The next step of a thread. -/
def run (initThd : Nat) (s : State) (t : Nat) : Option State :=
  match s.pc t with
  | .out => none
  | .setSpd r => some ({ s with recoverSpd := r.dest }.goto t (.setOp r))
  | .setOp r => some ({ s with operation := r.op }.goto t (.setArg r))
  | .setArg r => some ({ s with recoveryArg := r.arg }.goto t (if r.dest = llbootSched then .readPrev else .check))
  | .readPrev => some (s.goto t (.setSched (schedArg s.prevThd initThd)))
  | .setSched arg => some ({ s with recoveryArg := arg }.goto t .check)
  | .check => some (s.goto t (if s.prevThd = t then .switch else .out))
  | .switch => some ({ s with recovery := s.recovery.woken }.goto t .check)

/-- The next step of the recovery thread. An upcall ends by entering the loop again. -/
def recover (recoveryThd : Nat) (s : State) : Option State :=
  match s.recovery with
  | .parked | .failed => none
  | .top => some { s with recovery := .gotPrev s.prevThd }
  | .gotPrev pthd => some { s with recovery := .gotSpd pthd s.recoverSpd }
  | .gotSpd pthd rspd => some { s with recovery := .gotOp pthd rspd s.operation }
  | .gotOp pthd rspd op => some { s with recovery := .gotArg pthd ⟨op, rspd, s.recoveryArg⟩ }
  | .gotArg pthd r =>
    if r.dest ≠ 0 then
      if pthd = 0 then some { s with recovery := .failed }
      else some { s with recoverSpd := 0, recovery := .upcall r }
    else if pthd = 0 ∨ pthd = recoveryThd then some { s with recovery := .failed }
    else some { s with prevThd := 0, recovery := .switchBack pthd }
  | .upcall r => some { s with recovery := .inside r }
  | .inside _ => some { s with recovery := .top }
  | .switchBack _ => some { s with recovery := .parked }

inductive Label where
  /-- A thread calls `recovery_upcall` and names itself in `prev_thd`. -/
  | request (t : Nat) (r : Request)
  | run (t : Nat)
  | recover
  deriving DecidableEq, Repr

def step (recoveryThd initThd : Nat) (s : State) : Label → Option State
  | .request t r =>
    if s.pc t = .out ∧ t ≠ 0 ∧ t ≠ recoveryThd ∧ r.op ≠ homeAgain then
      some ({ s with prevThd := t }.goto t (.setSpd r))
    else none
  | .run t => run initThd s t
  | .recover => recover recoveryThd s

end SuperGlue.Source.Llboot.Recovery
