import Mathlib

/-!
# Budgets of deferrable servers

`time_elapsed` and `timer_tick` of `sched/fprr/fp_rr.c` for a thread in the list of servers, without the counters of
the round robin and the run queue. One call of `time_elapsed` charges one quantum at most, and only if more than that
has gathered.
-/
namespace SuperGlue.Source.Sched.Budget

/-- `unsigned long`. -/
def wordSize : Nat := 2 ^ 32

/-- The tick count, and what `struct sched_accounting` has for a budget `C` in a window `T`. -/
structure State where
  ticks : Nat
  polCycles : Nat
  cUsed : Nat
  tExp : Nat
  /-- `THD_SUSPENDED`. -/
  suspended : Bool
  deriving DecidableEq, Repr

/-- From the tick at which the window is set. -/
def State.init (start : Nat) : State := ⟨start, 0, 0, 0, false⟩

variable (quantum C T : Nat) (s : State)

/-- `pol_cycles` is an `unsigned long long`. -/
def timeElapsed (time : Nat) : State :=
  let pol := (s.polCycles + time) % 2 ^ 64
  if quantum < pol then
    if T = 0 then { s with polCycles := pol - quantum }
    else
      let cUsed := (s.cUsed + 1) % wordSize
      { s with polCycles := pol - quantum, cUsed, suspended := s.suspended || decide (C ≤ cUsed) }
  else { s with polCycles := pol }

/-- `none` is a failed assertion. -/
def timerTick (numTicks : Nat) : Option State :=
  let ticks := (s.ticks + numTicks) % wordSize
  if numTicks = 0 ∨ T = 0 then none
  else if s.tExp ≤ ticks then some ⟨ticks, s.polCycles, 0, (ticks + (T - ticks % T)) % wordSize, false⟩
  else some { s with ticks }

end SuperGlue.Source.Sched.Budget
