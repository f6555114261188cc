import SuperGlue.Lib.Transition

/-!
# The periodic threads of the timed event server

`timed_blk/timed_evt/__timed_event_rec`: `__event_expiration` on the periodic list, the two ways to create
a periodic thread, its removal and `periodic_wake_wait`. A record is on the periodic list exactly while
it is periodic, so the list itself is not kept. The statistics on lateness are left out. Beside it, the time
that the server stub of the scheduler tracks for each thread (`interface/sched/__stubs_rec/__s_cstub.c`).

A failed assertion is `none`. Each thread carries, beside its record, whether it is inside `evt_wait`,
whether its event was triggered, and how many periods expired and how many waits returned since it was
made periodic.
-/
namespace SuperGlue.Source.PeriodicWake.Timer
open Lib.Transition

/-- `event_time_t` has 64 bits. -/
def eventModulus : Nat := 2 ^ 64

/-- `struct thread_event`. The flags `TE_PERIODIC` and `TE_BLOCKED` are Booleans, and `needRestart` is an
`unsigned short`. A `completion` of zero means that no time is saved. -/
structure ThreadEvent where
  eventExpiration : Nat
  periodic : Bool
  blocked : Bool
  period : Nat
  missed : Bool
  needRestart : Nat
  completion : Nat
  deriving DecidableEq, Repr

/-- The record that `__te_get` makes with `memset`. -/
def ThreadEvent.zero : ThreadEvent := ⟨0, false, false, 0, false, 0, 0⟩

/-- One turn of the loop of `__event_expiration`, with the cycle counter at `now`. The Boolean tells
whether the event of the thread is triggered. -/
def eventExpiration (te : ThreadEvent) (now : Nat) : Option (ThreadEvent × Bool) :=
  let later := { te with blocked := false, eventExpiration := (te.eventExpiration + te.period) % eventModulus }
  if te.blocked then
    if te.missed = false ∧ te.completion ≠ 0 then some ({ later with completion := 0 }, true) else none
  else
    let owed := { later with needRestart := (te.needRestart + 1) % 2 ^ 16 }
    if te.missed then some (owed, false)
    else some ({ owed with missed := true, completion := now }, false)

/-- The expiration of a thread that exists. -/
def recreated (created ticks period : UInt64) : UInt64 := created + period * ((ticks - created) / period + 1)

/-- The first expiration. `exist` holds the time that `sched_restore_data_sched_timestamp` tells. -/
def expiration (ticks period : Nat) : Option Nat → Nat
  | none => (ticks + period) % eventModulus
  | some created => (recreated (.ofNat created) (.ofNat ticks) (.ofNat period)).toNat

/-- `__periodic_wake_create`. -/
def periodicWakeCreate (te : ThreadEvent) (ticks period : Nat) (exist : Option Nat) : Option (ThreadEvent × Int) :=
  if period < 1 then some (te, -1)
  else
    let n := expiration ticks period exist
    if ticks < n then some ({ te with periodic := true, period := period, eventExpiration := n, needRestart := 0 }, 0)
    else none

/-- `periodic_wake_remove`, which clears all the flags. -/
def periodicWakeRemove (te : ThreadEvent) : ThreadEvent × Int :=
  if te.periodic then ({ te with periodic := false, blocked := false }, 0) else (te, -1)

/-- How `periodic_wake_wait` goes on once it released the lock. -/
inductive Waits where
  | returns (ret : Int)
  | blocks
  deriving DecidableEq, Repr

/-- `periodic_wake_wait` up to `evt_wait`, with the cycle counter at `t`. -/
def periodicWakeWait (te : ThreadEvent) (t : Nat) : Option (ThreadEvent × Waits) :=
  if te.periodic = false then some (te, .returns (-1))
  else if te.missed = true ∧ te.completion = 0 then none
  else
    let te := if te.missed then { te with completion := 0, missed := false } else { te with completion := t }
    if 0 < te.needRestart then some ({ te with needRestart := te.needRestart - 1 }, .returns 0)
    else some ({ te with blocked := true }, .blocks)

structure Thread where
  te : ThreadEvent
  /-- Inside `evt_wait`. -/
  waiting : Bool
  /-- The event was triggered and `evt_wait` did not return yet. -/
  inFlight : Bool
  /-- Periods that expired since the thread was made periodic. -/
  expired : Nat
  /-- Waits that returned zero since then. -/
  returned : Nat
  deriving DecidableEq, Repr

inductive Label where
  | create (ticks period : Nat) (exist : Option Nat)
  | remove
  | wait (t : Nat)
  /-- `evt_wait` returns. -/
  | wake
  /-- The timer thread handles the record, at the time `time` and with the cycle counter at `now`. -/
  | expire (time now : Nat)
  deriving DecidableEq, Repr

/-- A step on one thread. The thread itself calls `create` and `wait`; anyone may remove it. The cycle
counter is never zero. -/
def stepThread (h : Thread) : Label → Option Thread
  | .create ticks period exist => do
    if h.waiting then none else
    let (te, ret) ← periodicWakeCreate h.te ticks period exist
    if ret = 0 then some ⟨te, false, h.inFlight, 0, 0⟩ else some h
  | .remove => some { h with te := (periodicWakeRemove h.te).1 }
  | .wait t => do
    if h.waiting ∨ t = 0 then none else
    let (te, waits) ← periodicWakeWait h.te t
    match waits with
    | .returns ret => some { h with te := te, returned := if ret = 0 then h.returned + 1 else h.returned }
    | .blocks => some { h with te := te, waiting := true }
  | .wake =>
    if h.inFlight then some { h with waiting := false, inFlight := false, returned := h.returned + 1 }
    else none
  | .expire time now => do
    if h.te.periodic = false ∨ time < h.te.eventExpiration ∨ now = 0 then none else
    let (te, triggered) ← eventExpiration h.te now
    some { h with te := te, inFlight := h.inFlight || triggered, expired := h.expired + 1 }

abbrev State := Nat → Thread

/-- The system of all the threads; a label names the thread it is about. -/
def periodicThreads : System State (Nat × Label) where
  init := fun _ => ⟨.zero, false, false, 0, 0⟩
  step s label := (stepThread (s label.1) label.2).map (Function.update s label.1)

/-! ## The tracked time -/

/-- A thread with the clock of the scheduler. -/
structure Clocked where
  ticks : Nat
  thread : Thread
  /-- The entry of the thread in `thd_timestamp_track`. -/
  track : Nat
  /-- When the client made the thread periodic. -/
  created : Nat

inductive Event where
  | tick
  | create (period : Nat)
  /-- The thread calls `sched_timestamp` for another reason. -/
  | stamp
  /-- The server is rebooted, and the thread calls `periodic_wake_create_exist`. -/
  | fault
  | wait (t : Nat)
  | wake
  | expire (now : Nat)
  deriving DecidableEq, Repr

def Thread.init : Thread := ⟨.zero, false, false, 0, 0⟩

/-- `__ser_sched_save_data_sched_timestamp` overwrites the tracked time whenever the thread asks for the time,
which `__periodic_wake_create` does after it has read the tracked one. -/
def stepClocked (s : Clocked) : Event → Option Clocked
  | .tick => some { s with ticks := s.ticks + 1 }
  | .create period => (stepThread s.thread (.create s.ticks period none)).map fun h =>
    if period < 1 then s else ⟨s.ticks, h, s.ticks, s.ticks⟩
  | .stamp => some { s with track := s.ticks }
  | .fault => if s.thread.te.periodic then
      (stepThread .init (.create s.ticks s.thread.te.period (some s.track))).map fun h =>
        { s with thread := h, track := s.ticks }
    else none
  | .wait t => (stepThread s.thread (.wait t)).map ({ s with thread := · })
  | .wake => (stepThread s.thread .wake).map ({ s with thread := · })
  | .expire now => (stepThread s.thread (.expire s.ticks now)).map ({ s with thread := · })

def clockedThread : System Clocked Event := ⟨⟨0, .init, 0, 0⟩, stepClocked⟩

end SuperGlue.Source.PeriodicWake.Timer
