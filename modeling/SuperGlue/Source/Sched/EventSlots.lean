import Mathlib

/-!
# Event slots of the scheduler

`sched_alloc_event` and `sched_rem_event` of `sched/cos_scheduler.c`: threads get slots of an array that is shared
with the kernel, which accepts or refuses each binding. Slot 0 is never given to a thread.
-/
namespace SuperGlue.Source.Sched.EventSlots
open Function

abbrev Tid := Nat

structure State where
  /-- `COS_SCHED_EVT_FREE` in the flags of each slot. -/
  free : Nat → Bool
  /-- `sched_map_evt_thd`. -/
  mapEvtThd : Nat → Option Tid
  evtId : Tid → Nat
  event : Tid → Nat

def schedDsInit : State := ⟨(· != 0), fun _ => none, fun _ => 0, fun _ => 0⟩

variable (numSchedEvts : Nat) (s : State) (thd : Tid) (accepted : Bool)

/-- What the loop does at a free slot; `none` is a failed assertion. -/
def bindSlot (i : Nat) : Option (State × Int) :=
  if s.mapEvtThd i = none then
    let bound := { s with mapEvtThd := update s.mapEvtThd i (some thd), evtId := update s.evtId thd i }
    if accepted then some ({ bound with free := update s.free i false, event := update s.event thd i }, i)
    else some (bound, -1)
  else none

def allocLoop (i : Nat) : Nat → Option (State × Int)
  | 0 => some (s, -1)
  | left + 1 => if s.free i then bindSlot s thd accepted i else allocLoop (i + 1) left

def schedAllocEvent : Option (State × Int) :=
  if s.evtId thd = 0 then allocLoop s thd accepted 1 (numSchedEvts - 1) else none

def schedRemEvent : Option (State × Int) :=
  let idx := s.evtId thd
  if idx = 0 ∨ s.free idx then none
  else if accepted then
    some (⟨update s.free idx true, update s.mapEvtThd idx none, update s.evtId thd 0, update s.event thd 0⟩, 0)
  else some (s, -1)

end SuperGlue.Source.Sched.EventSlots
