import SuperGlue.Lib.Cursor

/-!
# The threads of the scheduler and its reboot

`sched/__cos_sched_base_rec` for one core: the creation and the death of threads, the timeout thread, the
timer tick and `sched_reboot`, with `thread_param_set` of `sched/fprr/fp_rr.c`, which `sched/ds` compiles
with `DEFERRABLE`. The kernel's part is `sched_thread_add`, `sched_thread_remove` and `sched_thread_info` of
`kernel/include/recovery.h` and the tick count of `kernel/__inv_rec`.

A function that runs under the lock of the scheduler is one step, and one that fails an assertion is none.
-/
namespace SuperGlue.Source.Sched.Reboot
open Function Lib.Cursor

abbrev Tid := Nat
abbrev SpdId := Nat

/-! ## Parameters -/

/-- `union sched_param`: the type in the lowest byte, then `init_data`, then 16 bits of value. -/
abbrev Word := BitVec 32

/-- `sched_param_type_t`. -/
inductive ParamType where
  | noop | prio | rprio | rlprio | deadline | budget | window | proportion | weight
  | idle | init | ipiHandler | timer | coreId | unknown
  deriving DecidableEq, Repr

def ParamType.decode : Nat → ParamType
  | 0 => .noop
  | 1 => .prio
  | 2 => .rprio
  | 3 => .rlprio
  | 4 => .deadline
  | 5 => .budget
  | 6 => .window
  | 7 => .proportion
  | 8 => .weight
  | 9 => .idle
  | 10 => .init
  | 11 => .ipiHandler
  | 12 => .timer
  | 13 => .coreId
  | _ => .unknown

def Word.type (w : Word) : ParamType := .decode (w &&& 0xFF#32).toNat

def Word.initData (w : Word) : Nat := ((w &&& 0xFF00#32) >>> 8).toNat

def Word.value (w : Word) : Nat := ((w &&& 0xFFFF0000#32) >>> 16).toNat

def Word.clearInitData (w : Word) : Word := w &&& 0xFFFF00FF#32

def Word.setValue (w : Word) (value : Nat) : Word := (w &&& 0xFFFF#32) ||| (BitVec.ofNat 32 value <<< 16)

/-- A word of a type with everything else zero. -/
def Word.ofType : ParamType → Word
  | .idle => 9
  | .init => 10
  | .ipiHandler => 11
  | .timer => 12
  | _ => 0

/-! ## `thread_param_set` -/

def numPrios : Nat := 32
def prioLow : Nat := numPrios - 2
def prioLowest : Nat := numPrios - 1
def prioHighest : Nat := 0
def ipiHandlerPrio : Nat := prioHighest + 1

/-- What the policy keeps for a thread: `metric.priority`, and `C` and `T` of its accounting. -/
structure Policy where
  priority : Nat
  budget : Nat
  window : Nat
  deriving DecidableEq, Repr

def Policy.blank : Policy := ⟨0, 0, 0⟩

/-- The accounting that a thread with a relative priority gets. -/
def Policy.inherit (p : Policy) (from_ : Option Policy) : Policy :=
  match from_ with
  | some c => { p with budget := c.budget, window := c.window }
  | none => p

/-- One round of the loop. `old` is the priority of the thread before the call. -/
def paramStep (deferrable : Bool) (old : Nat) (from_ : Option Policy) (p : Policy) (w : Word) : Option Policy :=
  match w.type with
  | .rprio => some { p.inherit from_ with priority := min w.value prioLowest }
  | .rlprio => some { p.inherit from_ with priority := min w.value prioLowest }
  | .prio => some { p with priority := w.value }
  | .idle => some { p with priority := prioLowest }
  | .init => some { p with priority := prioLow }
  | .timer => some { p with priority := prioHighest }
  | .ipiHandler => some { p with priority := ipiHandlerPrio }
  | .coreId => if w.value = 0 then some p else none
  | .budget =>
    if deferrable then some { p with priority := old, budget := w.value } else some { p with priority := prioLow }
  | .window =>
    if deferrable then some { p with priority := old, window := w.value } else some { p with priority := prioLow }
  | _ => some { p with priority := prioLow }

/-- The loop over the words up to one of type `SCHEDP_NOOP`. -/
def paramLoop (deferrable : Bool) (old : Nat) (from_ : Option Policy) : Policy → List Word → Option Policy
  | p, [] => some p
  | p, w :: ws =>
    if w.type = .noop then some p
    else (paramStep deferrable old from_ p w).bind fun p => paramLoop deferrable old from_ p ws

/-- `fp_add_thd` asserts that the priority is one. -/
def threadParamSet (deferrable : Bool) (from_ : Option Policy) (p : Policy) (ws : List Word) : Option Policy :=
  (paramLoop deferrable p.priority from_ { p with priority := prioLowest } ws).bind fun p =>
    if p.priority < numPrios then some p else none

/-! ## The scheduler and the kernel -/

def schedNumThreads : Nat := 128

/-- `struct sched_thd`. -/
structure Thd where
  dying : Bool
  policy : Policy
  spdid : SpdId
  initData : Nat
  deriving DecidableEq, Repr

def Thd.blank : Thd := ⟨false, .blank, 0, 0⟩

/-- The memory of the scheduler: `struct sched_base_per_core` with the threads. -/
structure PerCore where
  thds : Tid → Option Thd
  /-- Killed threads, the last one first. -/
  graveyard : List Tid
  init : Option Tid
  idle : Option Tid
  timer : Option Tid
  ipiHandler : Option Tid
  /-- The timeout thread. -/
  wakeupThd : Option Tid
  ticks : BitVec 64

/-- What `__sched_init` leaves. -/
def PerCore.blank : PerCore := ⟨fun _ => none, [], none, none, none, none, none, 0⟩

/-- The kernel's record of a thread in `struct thd_sched_info`. -/
structure Tracked where
  dest : SpdId
  metric : Word
  fn : Nat
  d : Nat
  param : Bool
  timeout : Bool
  deriving DecidableEq, Repr

def Tracked.nothing : Tracked := ⟨0, 0, 0, 0, false, false⟩

structure Kernel where
  tracked : Tid → Tracked
  systemTicks : BitVec 32

structure State where
  sched : PerCore
  kernel : Kernel

def State.init : State := ⟨.blank, fun _ => .nothing, 0⟩

/-- The component of the scheduler, with the thread that the booter starts it with. -/
structure Config where
  spd : SpdId
  spd_ne : spd ≠ 0
  initThd : Tid
  initThd_ne : initThd ≠ 0
  deferrable : Bool
  fpIdleLoop : Nat
  fpTimer : Nat
  ipiHandler : Nat

/-- `BOOT_SPD`. -/
def bootSpd : SpdId := 5

section
variable (s : PerCore)

def PerCore.setThd (t : Tid) (thd : Thd) : PerCore := { s with thds := update s.thds t (some thd) }

/-- Only a thread that is not dying can call the scheduler. -/
def PerCore.runs (t : Tid) : Bool := (s.thds t).any fun thd => !thd.dying

/-- `sched_get_current`. -/
def PerCore.current (cur : Tid) : Option Tid := if (s.thds cur).isSome then some cur else none

/-- Whose accounting a thread with a relative priority takes over. -/
def PerCore.parent (cur : Tid) : Option Policy :=
  if s.current cur = s.ipiHandler then some .blank else (s.thds cur).map Thd.policy

/-- `sched_alloc_thd`. The entry of the initial thread is not free either. -/
def PerCore.free (t : Tid) : Bool := t < schedNumThreads && (s.thds t).isNone && s.init != some t

end

variable (cfg : Config)

/-! ## Creation -/

/-- A thread for `dest`: one from the graveyard, or else the new thread `tid` of the kernel. -/
def newThread (s : PerCore) (dest : SpdId) (fn : Nat) (tid : Tid) : Option (PerCore × Tid) :=
  match s.graveyard with
  | g :: rest =>
    if dest = 0 ∨ dest = cfg.spd then none
    else
      match s.thds g with
      | some thd =>
        if thd.dying then
          some ({ s with graveyard := rest }.setThd g { Thd.blank with spdid := dest, initData := fn }, g)
        else none
      | none => none
  | [] => if dest ≠ 0 ∧ tid ≠ 0 ∧ s.free tid then some (s.setThd tid .blank, tid) else none

variable (s : State)

/-- `__sched_setup_thread_arg` with a list of parameters, called by thread `cur`. Only the first word of the
list is recorded. -/
def setupThreadArg (cur tid : Tid) (dest : SpdId) (sp : List Word) (fn d : Nat) : Option (State × Tid) :=
  (newThread cfg s.sched dest fn tid).bind fun (sched, new) =>
    match sp, sched.thds new with
    | w :: _, some thd =>
      if w = 0 then none
      else
        (threadParamSet cfg.deferrable (sched.parent cur) thd.policy sp).map fun policy =>
          ({ sched := sched.setThd new { thd with policy := policy }
             kernel := { s.kernel with
               tracked := update s.kernel.tracked new ⟨dest, w, fn, d, true, false⟩ } }, new)
    | _, _ => none

/-- A thread of the scheduler itself. -/
def setupInternal (dest : SpdId) (type : ParamType) (fn : Nat) (tid : Tid) : Option (State × Tid) :=
  setupThreadArg cfg s cfg.initThd tid dest [.ofType type, 0] fn 0

/-- `sched_root_init` with the threads that the kernel creates. -/
def schedRootInit (idle boot timer ipi : Tid) : Option State :=
  if s.sched.init.isSome then none
  else
    let s := { s with sched := { PerCore.blank with init := some cfg.initThd } }
    (setupInternal cfg s cfg.spd .idle cfg.fpIdleLoop idle).bind fun (s, t) =>
    let s := { s with sched := { s.sched with idle := some t } }
    (setupInternal cfg s bootSpd .init 0 boot).bind fun (s, _) =>
    (setupInternal cfg s cfg.spd .timer cfg.fpTimer timer).bind fun (s, t) =>
    let s := { s with sched := { s.sched with timer := some t } }
    (setupInternal cfg s cfg.spd .ipiHandler cfg.ipiHandler ipi).map fun (s, t) =>
    { s with sched := { s.sched with ipiHandler := some t } }

/-- `sched_read_param_core_id`. -/
def readParamCoreId (ws : List Word) : Nat :=
  match ws.find? fun w => w.type == .coreId with
  | some w => w.value
  | none => 0

/-- `relative_prio_convert`: the first relative priority becomes an absolute one. -/
def relativePrioConvert (s : PerCore) (cur : Tid) : List Word → Option (List Word)
  | [] => some []
  | w :: ws =>
    if w.type = .rprio then
      (s.thds cur).map fun c => w.setValue ((c.policy.priority + 2 ^ 16 - w.value) % 2 ^ 16) :: ws
    else if w.type = .rlprio then
      (s.thds cur).map fun c => w.setValue ((c.policy.priority + w.value) % 2 ^ 16) :: ws
    else (relativePrioConvert s cur ws).map (w :: ·)

/-- The parameters of a call of `sched_create_thd` or `sched_create_thread_default`. -/
structure Args where
  spdid : SpdId
  p0 : Word
  p1 : Word
  p2 : Word
  deriving DecidableEq, Repr

def Args.words (a : Args) : List Word := [a.p0, a.p1, a.p2]

/-- What `sched_create_thd` passes on: the list, and `init_data` as the function. -/
def createList (a : List Word) : List Word × Nat :=
  match a with
  | w :: ws => (w.clearInitData :: ws ++ [0], w.initData)
  | [] => ([0], 0)

/-- `sched_create_thd`. A call for another core is none of this core's steps. -/
def schedCreateThd (cur tid : Tid) (a : Args) : Option State :=
  if a.spdid = cfg.spd then some s
  else if readParamCoreId a.words ≠ 0 ∨ s.sched.runs cur = false then none
  else
    (relativePrioConvert s.sched cur a.words).bind fun ws =>
      (setupThreadArg cfg s cur tid a.spdid (createList ws).1 (createList ws).2 0).map Prod.fst

/-- `sched_create_thread_default`. -/
def schedCreateThreadDefault (cur tid : Tid) (a : Args) : Option State :=
  if readParamCoreId a.words ≠ 0 ∨ s.sched.runs cur = false then none
  else
    (relativePrioConvert s.sched cur a.words).bind fun ws =>
      (setupThreadArg cfg s cur tid a.spdid (ws ++ [0]) 0 0).map Prod.fst

/-! ## The other steps -/

/-- `fp_kill_thd`. -/
def fpKillThd (t : Tid) : Option State :=
  match s.sched.thds t with
  | none => none
  | some thd =>
    if thd.dying then none
    else
      some {
        sched := { s.sched with graveyard := t :: s.sched.graveyard }.setThd t { thd with dying := true }
        kernel := { s.kernel with tracked := update s.kernel.tracked t .nothing } }

/-- `sched_timeout_thd` by thread `t`. -/
def schedTimeoutThd (t : Tid) : Option State :=
  match s.sched.thds t with
  | none => some s
  | some thd =>
    if thd.dying then none
    else
      some {
        sched := { s.sched with wakeupThd := some t }
        kernel := { s.kernel with
          tracked := update s.kernel.tracked t { s.kernel.tracked t with timeout := true } } }

/-- A round of `sched_timer_tick`: the count is incremented again after it was read for the kernel. -/
def schedTimerTick : State :=
  { sched := { s.sched with ticks := s.sched.ticks + 1 + 1 }
    kernel := { s.kernel with systemTicks := (s.sched.ticks + 1).setWidth 32 } }

/-! ## `sched_reboot` -/

/-- A fault of the scheduler, and how the reboot finds the stack. -/
structure Fault where
  faultThd : Tid
  /-- The thread that reboots the scheduler. -/
  cur : Tid
  /-- The words that lie behind `tmp` when a thread is set up. -/
  behind : Tid → List Word

variable (k : Kernel)

/-- The roles of a restored thread. -/
def giveRole (s : PerCore) (t : Tid) : PerCore :=
  match (k.tracked t).metric.type with
  | .idle => { s with idle := some t }
  | .timer => { s with timer := some t, ticks := k.systemTicks.signExtend 64 }
  | .ipiHandler => { s with ipiHandler := some t }
  | _ => s

/-- The policy of a restored thread: `thread_param_set` gets the address of one word. -/
def restoredPolicy (f : Fault) (s : PerCore) (t : Tid) : Option Policy :=
  if (k.tracked t).param then
    threadParamSet cfg.deferrable (s.parent f.cur) .blank ((k.tracked t).metric :: f.behind t)
  else some .blank

/-- The entry of a restored thread before its policy is set. -/
def restoredEntry (t : Tid) : Thd := ⟨false, .blank, (k.tracked t).dest, 0⟩

def restoreTimeout (s : PerCore) (t : Tid) : PerCore :=
  if (k.tracked t).timeout then { s with wakeupThd := some t } else s

/-- The body of the loop. -/
def recreate (f : Fault) (s : PerCore) (t : Tid) : Option PerCore :=
  if (k.tracked t).metric = 0 ∨ (k.tracked t).dest = 0 ∨ s.free t = false then none
  else
    (restoredPolicy cfg k f (s.setThd t (restoredEntry k t)) t).map fun policy =>
      giveRole k (restoreTimeout k (s.setThd t { restoredEntry k t with policy := policy }) t) t

/-- `sched_thread_info` with `COS_SCHED_INTRO_THD_FIRST`. -/
def introThdFirst (t : Tid) : Tid :=
  firstAfter (fun t => 0 < (k.tracked t).dest) (schedNumThreads - t) t

def schedReboot (f : Fault) : Option State :=
  if f.faultThd = 0 then none
  else
    (walk (introThdFirst s.kernel) (recreate cfg s.kernel f) schedNumThreads (introThdFirst s.kernel 0)
      { PerCore.blank with init := some cfg.initThd }).bind fun sched =>
        if (s.kernel.tracked f.faultThd).metric = 0 then none else some { s with sched := sched }

/-! ## Steps -/

inductive Label where
  | rootInit (idle boot timer ipi : Tid)
  | createThd (cur tid : Tid) (a : Args)
  | createThreadDefault (cur tid : Tid) (a : Args)
  | kill (t : Tid)
  | timeoutThd (t : Tid)
  | tick
  /-- The scheduler fails and is started again. -/
  | reboot (f : Fault)

def step : Label → Option State
  | .rootInit idle boot timer ipi => schedRootInit cfg s idle boot timer ipi
  | .createThd cur tid a => schedCreateThd cfg s cur tid a
  | .createThreadDefault cur tid a => schedCreateThreadDefault cfg s cur tid a
  | .kill t => fpKillThd s t
  | .timeoutThd t => schedTimeoutThd s t
  | .tick => if s.sched.timer.isSome then some (schedTimerTick s) else none
  | .reboot f => schedReboot cfg s f

end SuperGlue.Source.Sched.Reboot
