import Mathlib

/-!
# Invocations and fault counters of the kernel

`kernel/__inv_rec`, `kernel/include/__thread_rec` and `kernel/include/recovery.h`: every component
counts its faults, and every capability and every frame of an invocation stack has a copy of the count
of its component. A copy that is behind is what an invocation, a return or a thread switch detects.
`none` stands for a kernel that does not go on: a failed assertion, a null pointer or an invocation
stack that is full, which is not checked.
-/
namespace SuperGlue.Source.Kernel.Invocation
open Function

abbrev SpdId := Nat
abbrev ThdId := Nat
abbrev CpuId := Nat
abbrev VAddr := Nat
abbrev CapNo := Nat

def maxServiceDepth : Nat := 31
def maxStaticCap : Nat := 256

/-- The counters are `unsigned long`. -/
def wordSize : Nat := 2 ^ 32

/-- What has happened to a frame, in numbers of faults of its component. The kernel has no such
record and no function reads it. -/
structure Note where
  /-- The faults there had been when the frame was pushed. -/
  pushed : Nat
  /-- The faults that the thread was notified of for this frame. -/
  told : List Nat
  /-- The faults there had been at the last invocation from this frame. -/
  called : Option Nat
  /-- An upcall has put another component in the place of the one of the frame. -/
  reused : Bool
  deriving DecidableEq, Repr

/-- `struct thd_invocation_frame`: `ip` is where to return to in the component below. -/
structure Frame where
  spd : SpdId
  ip : VAddr
  cnt : Nat
  note : Note
  deriving DecidableEq, Repr

/-- The invocation stack, its top first, and `regs.ip`. -/
structure Thread where
  stack : List Frame
  ip : VAddr
  deriving DecidableEq, Repr

/-- `struct invocation_cap` of a capability in use. -/
structure Cap where
  destination : SpdId
  entry : VAddr
  cnt : Nat
  deriving DecidableEq, Repr

structure State where
  threads : ThdId → Option Thread
  /-- `core_get_curr_thd`. -/
  curr : CpuId → ThdId
  /-- The faults of a component; its counter is this number as a machine word. -/
  faults : SpdId → Nat
  reflection : SpdId → Nat
  caps : SpdId → CapNo → Option Cap
  ncaps : SpdId → Nat

/-- What the kernel looks up and these functions do not change. -/
structure Env where
  /-- `spd_get_by_index`. -/
  present : SpdId → Bool
  /-- `fault_handler[COS_FLT_FLT_NOTIF]`. -/
  handler : SpdId → CapNo
  /-- `virtual_namespace_query`. -/
  layout : VAddr → Option SpdId
  /-- `scheduler_find_leaf`. -/
  scheduler : ThdId → SpdId
  upcallEntry : SpdId → VAddr

def init : State := ⟨fun _ => none, fun _ => 0, fun _ => 0, fun _ => 0, fun _ _ => none, fun _ => 0⟩

variable (s : State)

/-- `spd->fault.cnt`. -/
def State.cnt (d : SpdId) : Nat := s.faults d % wordSize

def State.setThread (thd : ThdId) (t : Thread) : State :=
  { s with threads := update s.threads thd (some t) }

def State.setIp (thd : ThdId) (ip : VAddr) : State :=
  match s.threads thd with
  | none => s
  | some t => s.setThread thd { t with ip := ip }

def State.setCurr (cpu : CpuId) (thd : ThdId) : State :=
  { s with curr := update s.curr cpu thd }

/-! ## Frames -/

/-- The frame of `thd_invocation_push`. -/
def newFrame (spd : SpdId) (ip : VAddr) : Frame :=
  ⟨spd, ip, s.cnt spd, ⟨s.faults spd, [], none, false⟩⟩

/-- The count of a frame is brought up to date because a fault was detected. -/
def Frame.tell (f : Frame) : Frame :=
  { f with cnt := s.cnt f.spd, note := { f.note with told := s.faults f.spd :: f.note.told } }

/-- `test_frame->fault.cnt = curr_spd->fault.cnt` of an invocation, for the frame it is made from. -/
def Frame.call (f : Frame) : Frame :=
  { f with cnt := s.cnt f.spd, note := { f.note with called := some (s.faults f.spd) } }

/-- The base frame that `upcall_setup` leaves: another component, with the count as it was. -/
def Frame.reuse (f : Frame) (spd : SpdId) : Frame :=
  { f with spd := spd, note := ⟨s.faults spd, [], none, true⟩ }

/-! ## Detection -/

def ipcFaultDetect (c : Cap) : Bool := decide (c.cnt < s.cnt c.destination)

def switchThdFaultDetect (f : Frame) : Bool := decide (f.cnt < s.cnt f.spd)

/-- Returns into the components 1 and 21 are never detected. -/
def popFaultDetect (f : Frame) : Bool :=
  if f.spd = 21 ∨ f.spd = 1 then false else decide (f.cnt < s.cnt f.spd)

/-! ## Invocations and notifications -/

variable (env : Env)

/-- `thd_ret_upcall_type`: the thread starts again in its scheduler. -/
def thdRetUpcall (s : State) (thd : ThdId) (t : Thread) : State :=
  match t.stack.getLast? with
  | none => s
  | some base =>
    s.setThread thd ⟨[base.reuse s (env.scheduler thd)], env.upcallEntry (env.scheduler thd)⟩

inductive Pushed where
  | refused
  | overrun
  | pushed (s : State) (c : Cap)

/-- `ipc_walk_static_cap` up to the detection. -/
def ipcPush (thd : ThdId) (cap : CapNo) (ip : VAddr) : Pushed :=
  match s.threads thd with
  | none => .refused
  | some t =>
    match t.stack with
    | [] => .refused
    | f :: rest =>
      if s.ncaps f.spd ≤ cap then .refused
      else
        match s.caps f.spd cap with
        | none => .refused
        | some c =>
          if maxServiceDepth ≤ (f :: rest).length then .overrun
          else .pushed (s.setThread thd { t with stack := newFrame s c.destination ip :: f.call s :: rest }) c

/-- The component whose handler is asked for. -/
def notifSpd (t : Thread) (f : Frame) (dest : Option SpdId) : SpdId :=
  dest.getD ((env.layout t.ip).getD f.spd)

/-- `__fault_ipc_invoke`, for the notification: an invocation from the component on top, in which the
next fault can be detected. Every round but the first follows a push. -/
def faultIpcInvoke (env : Env) : Nat → State → ThdId → Option SpdId → Option (State × VAddr)
  | 0, _, _, _ => none
  | fuel + 1, s, thd, dest =>
    match s.threads thd with
    | none => none
    | some t =>
      match t.stack with
      | [] => none
      | f :: _ =>
        if env.handler (notifSpd env t f dest) = 0 then some (thdRetUpcall env s thd t, 0)
        else
          match ipcPush s thd (env.handler (notifSpd env t f dest) + 1) t.ip with
          | .refused => some (s.setIp thd 0, 0)
          | .overrun => none
          | .pushed s c =>
            if ipcFaultDetect s c then
              (faultIpcInvoke env fuel s thd (some c.destination)).map fun (s, addr) => (s.setIp thd addr, addr)
            else some (s.setIp thd c.entry, c.entry)

inductive Answer where
  | refused
  | overrun
  | entered (addr : VAddr)
  /-- The notification instead of the destination; `none` if the stack is overrun there. -/
  | diverted (addr : Option VAddr)
  deriving DecidableEq, Repr

def ipcWalkStaticCap (s : State) (thd : ThdId) (cap : CapNo) (ip : VAddr) : State × Answer :=
  match ipcPush s thd cap ip with
  | .refused => (s, .refused)
  | .overrun => (s, .overrun)
  | .pushed s c =>
    if ipcFaultDetect s c then
      match faultIpcInvoke env (maxServiceDepth + 1) s thd (some c.destination) with
      | none => (s, .diverted none)
      | some (s, addr) => (s, .diverted (some addr))
    else (s, .entered c.entry)

/-! ## Returns -/

inductive Popped where
  /-- There was nothing to return to. -/
  | terminated
  /-- Back to the registers that a fault saved. -/
  | faultRegs
  | notified (addr : VAddr)
  | returned (frame : Frame)
  deriving DecidableEq, Repr

def pop (s : State) (cpu : CpuId) : Option (State × Popped) :=
  match s.threads (s.curr cpu) with
  | none => none
  | some t =>
    match t.stack with
    | [] => none
    | [_] => some (thdRetUpcall env s (s.curr cpu) t, .terminated)
    | inv :: f :: rest =>
      if inv.ip = 0 then some (s.setThread (s.curr cpu) { t with stack := f :: rest }, .faultRegs)
      else if popFaultDetect s f then
        (faultIpcInvoke env (maxServiceDepth + 1)
            (s.setThread (s.curr cpu) { t with stack := f.tell s :: rest }) (s.curr cpu)
            (some f.spd)).map
          fun (s, addr) => (s, .notified addr)
      else some (s.setThread (s.curr cpu) { t with stack := f :: rest }, .returned inv)

/-! ## Switches -/

inductive Switched where
  | notified (addr : VAddr)
  | switched
  deriving DecidableEq, Repr

/-- `cos_syscall_switch_thread` to another thread; `ip` is where the current one called. -/
def switchThread (s : State) (cpu : CpuId) (next : ThdId) (ip : VAddr) : Option (State × Switched) :=
  if next = s.curr cpu then none
  else
    match s.threads next with
    | none => none
    | some t =>
      match t.stack with
      | [] => none
      | f :: rest =>
        if switchThdFaultDetect s f then
          (faultIpcInvoke env (maxServiceDepth + 1)
              (((s.setIp (s.curr cpu) ip).setCurr cpu next).setThread next
                { t with stack := f.tell s :: rest }) next none).map
            fun (s, addr) => (s, .notified addr)
        else some ((s.setIp (s.curr cpu) ip).setCurr cpu next, .switched)

/-- An interrupt that starts the thread of an asynchronous invocation; a fault detected here ends in
`assert(0)`. -/
def interrupt (cpu : CpuId) (next : ThdId) (ip : VAddr) : Option State :=
  if next = s.curr cpu then none
  else
    match s.threads next with
    | none => none
    | some t =>
      match t.stack with
      | [] => none
      | f :: _ =>
        if switchThdFaultDetect s f then none else some ((s.setIp (s.curr cpu) ip).setCurr cpu next)

/-- `ainv_completion_switch_to`: back to the interrupted thread, without a detection. -/
def ainvCompletionSwitchTo (cpu : CpuId) (prev : ThdId) : Option State :=
  if (s.threads prev).isSome then some (s.setCurr cpu prev) else none

/-! ## `fault_cnt_syscall_helper` -/

inductive CntOption where
  | spdFaultTrigger
  | capReflectUpdate
  | capFaultUpdate
  deriving DecidableEq, Repr

def State.trigger (d : SpdId) : State :=
  { s with
    faults := update s.faults d (s.faults d + 1)
    reflection := update s.reflection d ((s.faults d + 1) % wordSize) }

/-- The loop over the capabilities of `d`, which leaves out the return capability. -/
def State.refreshCaps (d dest : SpdId) : State :=
  { s with caps := update s.caps d fun i =>
      if 0 < i ∧ i < s.ncaps d then
        (s.caps d i).map fun c => if c.destination = dest then { c with cnt := s.cnt dest } else c
      else s.caps d i }

def capFaultUpdate (d : SpdId) (cap : CapNo) : Option (State × Int) :=
  match s.caps d cap with
  | none => none
  | some c =>
    if c.cnt = s.cnt c.destination then some (s, (s.cnt c.destination : Int))
    else some (s.refreshCaps d c.destination, (s.cnt c.destination : Int))

def capReflectUpdate (d : SpdId) : State × Int :=
  if s.cnt d = 0 then (s, 0)
  else if s.reflection d = s.cnt d then
    ({ s with reflection := update s.reflection d ((s.reflection d + 1) % wordSize) }, 1)
  else (s, 0)

def faultCntSyscallHelper (s : State) (spdid : SpdId) (option : CntOption) (d : SpdId)
    (cap : CapNo) : Option (State × Int) :=
  if !(env.present spdid && env.present d) then some (s, -1)
  else if maxStaticCap ≤ cap then some (s, -1)
  else
    match option with
    | .spdFaultTrigger => some (s.trigger d, 0)
    | .capReflectUpdate => some (capReflectUpdate s d)
    | .capFaultUpdate => capFaultUpdate s d cap

/-! ## Threads and capabilities -/

def createThread (thd : ThdId) (dest : SpdId) : Option State :=
  if (s.threads thd).isSome then none else some (s.setThread thd ⟨[newFrame s dest 0], 0⟩)

def State.setCap (spd : SpdId) (cap : CapNo) (c : Cap) : State :=
  { s with caps := update s.caps spd (update (s.caps spd) cap (some c)) }

def State.setNcaps (spd : SpdId) (n : Nat) : State :=
  { s with ncaps := update s.ncaps spd n }

/-- `spd_add_static_cap_extended`, with the number after the return capability is counted. -/
def spdAddStaticCap (owner trusted : SpdId) (cap : CapNo) (entry : VAddr) : Option State :=
  if maxStaticCap ≤ cap then some s
  else if cap < s.ncaps owner ∧ (s.caps owner cap).isSome then none
  else
    some ((s.setNcaps owner
      (if s.ncaps owner + 1 < cap then cap + 1 else s.ncaps owner + 1)).setCap owner cap ⟨trusted, entry, 0⟩)

/-- `spd_cap_set_dest` and `spd_cap_activate`, which takes the entry from the stubs. -/
def spdCapSetDest (spd : SpdId) (cap : CapNo) (dspd : SpdId) (entry : VAddr) : State :=
  if s.ncaps spd ≤ cap + 1 then s else s.setCap spd (cap + 1) ⟨dspd, entry, s.cnt dspd⟩

end SuperGlue.Source.Kernel.Invocation
