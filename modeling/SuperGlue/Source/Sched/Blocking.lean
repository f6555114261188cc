import Mathlib

/-!
# Blocking, waking and critical sections in the scheduler

`sched_block`, `sched_wakeup`, `sched_timeout`, `sched_component_take` and `sched_component_release` of
`sched/__cos_sched_base_rec` on one core, with the critical-section helpers and the dependency walk of
`sched/cos_scheduler.h`.

Everything between `cos_sched_lock_take` and the next switch is one step. A thread that switches leaves the
core to whichever thread `schedule` picks, which is an answer of the scheduling policy, and goes on from its
switch when it is dispatched again. A function that fails an assertion has no result.
-/
namespace SuperGlue.Source.Sched.Blocking
open Function

def maxNumSpds : Nat := 64
def schedNumThreads : Nat := 128

/-- The id of a component. 0 stands for none. -/
abbrev Spd := { n : Fin maxNumSpds // 0 < n.val }

/-- Where a thread is in the code of the scheduler. -/
inductive Pc where
  /-- Not in the scheduler. -/
  | user
  /-- At the switch in the loop of `sched_block`, with its `dependency_thd`. -/
  | blocking (dependency : Option Nat)
  /-- At the switch in the loop of `sched_component_take`. -/
  | taking (spd : Spd)
  /-- At the switch of `sched_component_release`. -/
  | releasing
  /-- At the switch that ends `sched_wakeup` or `sched_timeout`. -/
  | switching
  deriving DecidableEq, Repr

/-- `struct sched_thd`. -/
structure Thd where
  wakeCnt : Nat
  /-- `THD_BLOCKED`. -/
  blocked : Bool
  /-- `THD_DEPENDENCY`. -/
  dependent : Bool
  dependencyThd : Option Nat
  contendedComponent : Option Spd
  blockingComponent : Option Spd
  ncsHeld : Nat
  blockTime : Nat
  pc : Pc
  /-- What its last call returned. -/
  ret : Int
  deriving DecidableEq, Repr

/-- `sched_init_thd`. -/
def Thd.init : Thd := ⟨1, false, false, none, none, none, 0, 0, .user, 0⟩

structure State where
  /-- `sched_thd_map`. -/
  thd : Nat → Option Thd
  /-- `holding_thd` of `sched_spd_crit_sections`. -/
  holder : Spd → Option Nat
  /-- The thread on the core, `none` at a switch. -/
  current : Option Nat
  ticks : Nat
  wakeupTime : Nat
  wakeupThd : Option Nat
  /-- An assertion has failed. -/
  failed : Bool

def State.init : State := ⟨fun _ => none, fun _ => none, none, 0, 0, none, false⟩

variable (s : State)

def State.set (id : Nat) (t : Thd) : State := { s with thd := update s.thd id (some t) }

variable (curr : Nat) (t : Thd)

/-- The call of the thread returns. -/
def State.returns (ret : Int) : State :=
  s.set curr { t with pc := .user, ret := ret }

/-- The thread comes to a switch. -/
def State.switch (pc : Pc) : State :=
  { s.set curr { t with pc := pc } with current := none }

/-! ## Wake counts -/

def fpPreWakeup : Option Thd :=
  if 2 < t.wakeCnt then none
  else if t.wakeCnt = 2 then some t
  else some { t with wakeCnt := t.wakeCnt + 1 }

/-- `fp_wakeup`, with `fp_resume_thd`. -/
def fpWakeup : Option Thd :=
  if t.wakeCnt ≠ 1 then none
  else if t.blocked then some { t with blockingComponent := none, blocked := false }
  else none

def fpPreBlock (ticks : Nat) : Option Thd :=
  if t.wakeCnt = 0 ∨ 2 < t.wakeCnt then none
  else some { t with wakeCnt := t.wakeCnt - 1, blockTime := ticks }

/-- `fp_block`, with `fp_block_thd`. -/
def fpBlock (spd : Spd) : Option Thd :=
  if t.wakeCnt ≠ 0 ∨ t.blocked then none
  else some { t with blockingComponent := some spd, blocked := true }

/-! ## `sched_wakeup` -/

/-- What `sched_wakeup` does to the thread, and whether a switch follows. -/
def wake (isCurr : Bool) : Option (Thd × Bool) :=
  (fpPreWakeup t).bind fun t =>
    match t.dependencyThd with
    | some _ =>
      if t.dependent && (t.ncsHeld == 0 || isCurr) then
        some ({ t with dependent := false, dependencyThd := none }, true)
      else none
    | none =>
      if t.dependent then none
      -- it was preempted before it could block
      else if t.blocked = false then some (t, false)
      else (fpWakeup t).map fun t => (t, true)

/-- The caller's record is read after that of the woken thread is written: they may be one. -/
def schedWakeup (curr target : Nat) (caller : Thd) : Option State :=
  match s.thd target with
  | none => some (s.returns curr caller (-1))
  | some t =>
    (wake t (target == curr)).map fun (t, switches) =>
      let s := s.set target t
      let caller := if target = curr then t else caller
      if switches then s.switch curr { caller with ret := 0 } .switching else s.returns curr caller 0

/-! ## `sched_block` -/

def einval : Int := -22

/-- From the label `done`. -/
def blockDone (ret : Int) : Option State :=
  let t := if t.wakeCnt = 2 then { t with wakeCnt := 1 } else t
  if t.wakeCnt ≠ 1 ∨ t.dependent then none else some (s.returns curr t ret)

/-- From the label `unblock`. -/
def unblock : Option State :=
  (fpPreWakeup t).bind fun t => blockDone s curr t (-1)

/-- How long the thread was blocked, as an `int`. -/
def blockedFor (ticks blockTime : Nat) : Int :=
  max 0 (Int.bmod ((ticks : Int) - blockTime - 1) (2 ^ 32))

/-- Past the loop. -/
def blockWoken : Option State :=
  let t := if t.wakeCnt = 2 then { t with wakeCnt := 1 } else t
  if t.wakeCnt ≠ 1 then none else blockDone s curr t (blockedFor s.ticks t.blockTime)

/-- The thread is to depend on `d`. -/
def blockOn (d : Nat) : Option State :=
  match s.thd d with
  | none => unblock s curr t
  | some dep =>
    -- circular dependency
    if dep.dependencyThd = some curr then none
    else if dep.blocked then unblock s curr t
    else if t.ncsHeld ≠ 0 then none
    else some (s.switch curr { t with dependencyThd := some d, dependent := true } (.blocking (some d)))

/-- `sched_block`, with the answer of `sched_thd_on_current_core`. -/
def schedBlock (spd : Spd) (depThd : Nat) (onCore : Bool) : Option State :=
  if depThd = curr then some (s.returns curr t einval)
  else if t.ncsHeld ≠ 0 then blockDone s curr t (-1)
  else if t.blockingComponent ≠ none ∧ t.blockingComponent ≠ some spd then blockDone s curr t (-1)
  else if t.blocked then none
  else
    (fpPreBlock t s.ticks).bind fun t =>
      if t.wakeCnt ≠ 0 then
        if t.wakeCnt = 1 then some (s.returns curr t 0) else none
      else if depThd ≠ 0 ∧ onCore then blockOn s curr t depThd
      else (fpBlock t spd).map fun t => s.switch curr t (.blocking none)

/-- From the switch in the loop on. -/
def blockResumed (dependency : Option Nat) : Option State :=
  match dependency with
  | some d =>
    -- the thread it depends on has suspended itself
    if t.dependent then unblock s curr { t with dependent := false, dependencyThd := none }
    else if t.wakeCnt ≠ 0 then blockWoken s curr t
    else if t.dependencyThd = some d then some (s.switch curr t (.blocking (some d)))
    else none
  | none => if t.wakeCnt ≠ 0 then blockWoken s curr t else some (s.switch curr t (.blocking none))

/-! ## Timeouts -/

def schedTimeout (self : Spd) (amnt : Nat) : Option State :=
  if amnt = 0 then some s
  else
    let absTimeout := s.ticks + amnt
    let s := if s.wakeupTime = 0 ∨ absTimeout < s.wakeupTime then { s with wakeupTime := absTimeout } else s
    if s.wakeupThd ≠ some curr then some s
    else
      (fpPreBlock t s.ticks).bind fun t =>
        if t.wakeCnt ≠ 0 then
          if t.wakeCnt = 1 then some (s.set curr t) else none
        else (fpBlock t self).map fun t => s.switch curr t .switching

def schedTimeoutThd : State :=
  { s with wakeupThd := some curr }.returns curr t 0

/-- The part of `sched_process_wakeups` about the timeout thread. -/
def schedProcessWakeups : Option State :=
  match s.wakeupThd with
  | none => some s
  | some id =>
    match s.thd id with
    | none => some s
    | some t =>
      if s.wakeupTime = 0 ∨ s.ticks < s.wakeupTime then some s
      else if 2 ≤ t.wakeCnt then
        if t.blocked then none else some s
      else
        (fpPreWakeup t).bind fun t =>
          (if t.blocked then fpWakeup t else some t).map fun t => { s with wakeupTime := 0 }.set id t

/-- `sched_timer_tick`: `ticks` is incremented twice. -/
def schedTimerTick : Option State :=
  (schedProcessWakeups { s with ticks := s.ticks + 2 }).map fun s => { s with current := none }

/-! ## Critical sections -/

/-- The loop of `sched_component_take`, with `sched_take_crit_sect`. -/
def componentTake (spd : Spd) : Option State :=
  if t.blocked then none
  else
    match s.holder spd with
    | none =>
      some ({ s with holder := update s.holder spd (some curr) }.returns curr
        { t with ncsHeld := t.ncsHeld + 1, contendedComponent := none, dependent := false } 0)
    | some h =>
      if h = curr then some (s.returns curr { t with dependent := false } 0)
      else if (s.thd h).any (fun holding => holding.blocked = false) && t.dependencyThd.isNone then
        some (s.switch curr { t with contendedComponent := some spd, dependent := true } (.taking spd))
      else none

/-- `sched_component_release`, with `sched_release_crit_sect`. -/
def componentRelease (spd : Spd) : Option State :=
  match s.holder spd with
  | none => some (s.switch curr t .releasing)
  | some h =>
    if t.blocked ∨ h ≠ curr ∨ t.contendedComponent ≠ none then none
    else
      some ({ s with holder := update s.holder spd none }.switch curr { t with ncsHeld := t.ncsHeld - 1 } .releasing)

/-! ## Dependencies -/

/-- The answer of `__sched_thd_dependency`. -/
def dependsOn : Option Nat :=
  if t.dependent = false then none
  else
    match t.dependencyThd with
    | some d => some d
    | none => t.contendedComponent.bind s.holder

/-- `__sched_thd_dependency` of a thread in the map. -/
def State.next (id : Nat) : Option Nat := (s.thd id).bind (dependsOn s)

/-- What `__sched_thd_dependency` does to a thread that has no dependency left. -/
def Thd.undepend : Thd :=
  if t.dependent then { t with dependent := false, contendedComponent := none } else t

/-- The loop of `sched_thd_dependency` for `curr`, at `p`. There is no result if it has not ended after
`fuel` rounds. -/
def dependencyLoop (s : State) (curr : Nat) : Nat → Nat → Option (State × Option Nat)
  | 0, _ => none
  | fuel + 1, p =>
    match s.next p with
    | some d => dependencyLoop s curr fuel d
    | none =>
      (s.thd p).map fun t =>
        (s.set p t.undepend, if t.blocked = false ∧ p ≠ curr then some p else none)

def schedThdDependency (fuel : Nat) (curr : Nat) : Option (State × Option Nat) :=
  dependencyLoop s curr fuel curr

/-! ## Steps -/

inductive Label where
  | create (id : Nat)
  /-- The policy picks a thread, and the walk along its dependencies takes `fuel` rounds. -/
  | dispatch (id fuel : Nat)
  | block (spd : Spd) (depThd : Nat) (onCore : Bool)
  | wakeup (target : Nat)
  | take (spd : Spd)
  | release (spd : Spd)
  | timeout (self : Spd) (amnt : Nat)
  | timeoutThd
  /-- The thread goes on from its switch. -/
  | resume
  | tick
  deriving DecidableEq, Repr

/-- `sched_switch_thread_target`, with `resolve_dependencies`. -/
def dispatch (id fuel : Nat) : Option State :=
  match s.thd id with
  | none => none
  | some t =>
    if t.blocked then none
    else
      (schedThdDependency s fuel id).map fun (s, dep) => { s with current := some (dep.getD id) }

def resume : Option State :=
  match t.pc with
  | .user => some s
  | .blocking dependency => blockResumed s curr t dependency
  | .taking spd => componentTake s curr t spd
  | .releasing => if t.dependent then none else some (s.returns curr t 0)
  | .switching => some (s.returns curr t t.ret)

/-- The calls of a thread that runs outside of the scheduler. -/
def call : Label → Option State
  | .block spd depThd onCore => schedBlock s curr t spd depThd onCore
  | .wakeup target => schedWakeup s curr target t
  | .take spd => componentTake s curr t spd
  | .release spd => componentRelease s curr t spd
  | .timeout self amnt => schedTimeout s curr t self amnt
  | .timeoutThd => some (schedTimeoutThd s curr t)
  | _ => some s

/-- The end of a step: a failed assertion stops the scheduler. -/
def State.after (result : Option State) : State := result.getD { s with failed := true }

def step (label : Label) : Option State :=
  if s.failed then none
  else
    match label with
    | .create id =>
      if id = 0 ∨ schedNumThreads ≤ id ∨ s.thd id ≠ none then none else some (s.set id .init)
    | .dispatch id fuel => dispatch s id fuel
    | .tick => some (s.after (schedTimerTick s))
    | .resume =>
      match s.current with
      | none => none
      | some curr => (s.thd curr).bind fun t => if t.pc = .user then none else some (s.after (resume s curr t))
    | label =>
      match s.current with
      | none => none
      | some curr => (s.thd curr).bind fun t => if t.pc = .user then some (s.after (call s curr t label)) else none

end SuperGlue.Source.Sched.Blocking
