import SuperGlue.Lib.FiniteMap
import SuperGlue.Lib.Ring
import SuperGlue.Lib.Transition

/-!
# Server stubs that track blocked threads

`interface/{sched,evt,lock}/__stubs_rec/__s_cstub.c`. A thread that blocks in the server through the
stub links a record on its stack into the list of its client, and unlinks it when the call returns.
When a client has failed, the notification goes through the list of that client and wakes the thread,
triggers the event or releases the lock of every record. It drops the lock of the list for each of these
calls.

What a thread does while it holds that lock is one step. The list heads are zero at first.
-/
namespace SuperGlue.Source.Stub.Sstub
open Lib.FiniteMap Lib.Ring

abbrev SpdId := Nat
abbrev ThdId := Nat

/-- A thread id, an event id or a lock id. -/
abbrev Key := Nat

inductive Interface where
  | sched
  | evt
  | lock
  deriving DecidableEq, Repr

inductive Node where
  /-- `bthds[spd]`, `evts_head[spd]` or `spdlocks[spd].list_head`. -/
  | head (spd : SpdId)
  /-- The record on the stack of a thread. -/
  | thd (t : ThdId)
  deriving DecidableEq, Repr

inductive Pc where
  | out
  /-- `__sg_evt_wait` has found the head zero and is to initialise it. -/
  | initHead (spd : SpdId) (key : Key)
  /-- Before the record is linked. -/
  | enter (spd : SpdId) (key : Key)
  /-- In `sched_block`, `evt_wait` or `lock_component_take`. -/
  | inside (spd : SpdId)
  /-- The notification has dropped the lock at a record. The lock stub has saved the successor. -/
  | visit (spd : SpdId) (cur : Node) (tmp : Option Node)
  /-- The call for that record has returned. -/
  | visited (spd : SpdId) (cur : Node) (tmp : Option Node)
  /-- A null pointer has been followed. -/
  | crashed
  deriving DecidableEq, Repr

structure State where
  links : Links Node
  /-- The list heads that are not zero any more. -/
  ready : SpdId → Bool
  key : ThdId → Key
  /-- The threads that are not out. -/
  pcs : Table ThdId Pc

def init : State := ⟨⟨id, id⟩, fun _ => false, fun _ => 0, .empty⟩

variable (s : State) (t : ThdId)

def State.pc : Pc := (s.pcs.get t).getD .out

def State.goto (pc : Pc) : State := { s with pcs := s.pcs.set t pc }

/-! ## Blocking -/

/-- `INIT_LIST` of a head. -/
def State.initHead (spd : SpdId) : State :=
  { s with links := s.links.init (.head spd), ready := Function.update s.ready spd true }

/-- The record is initialised and linked. -/
def link (spd : SpdId) (key : Key) : State :=
  { s with
    links := (s.links.init (.thd t)).add (.head spd) (.thd t)
    key := Function.update s.key t key }.goto t (.inside spd)

/-- `__sg_sched_block` up to its call. -/
def sgSchedBlock (spd : SpdId) : State :=
  link (if s.ready spd then s else s.initHead spd) t spd t

/-- `__sg_evt_wait` with the lock up to its call. -/
def sgEvtWait (spd : SpdId) (evtid : Key) : State := link s t spd evtid

/-- `INIT_LIST` of all heads, under `first_lock_track`. -/
def State.initHeads : State :=
  { s with
    links := ⟨fun n => match n with
        | .head _ => n
        | .thd _ => s.links.next n,
      fun n => match n with
        | .head _ => n
        | .thd _ => s.links.prev n⟩
    ready := fun _ => true }

/-- `__sg_lock_component_take` up to its call. -/
def sgLockComponentTake (spd : SpdId) (lockid : Key) : State :=
  link (if s.ready spd then s else s.initHeads) t spd lockid

variable (i : Interface)

/-- The steps of a call before its record is linked. The event stub initialises the head before it takes
the lock. -/
def block (s : State) (t : ThdId) (spd : SpdId) (key : Key) : Option State :=
  match i with
  | .sched => some (s.goto t (.enter spd t))
  | .evt =>
    if spd = 0 ∨ key = 0 then none
    else some (s.goto t (if s.ready spd then .enter spd key else .initHead spd key))
  | .lock => if spd = 0 ∨ key = 0 then none else some (s.goto t (.enter spd key))

def enter (s : State) (t : ThdId) (spd : SpdId) (key : Key) : State :=
  match i with
  | .sched => sgSchedBlock s t spd
  | .evt => sgEvtWait s t spd key
  | .lock => sgLockComponentTake s t spd key

/-- The call has returned: the record is unlinked. -/
def leave : State := { s with links := s.links.rem (.thd t) }.goto t .out

/-! ## The notification -/

/-- The condition of the loop and its body up to the call; `saves` is set if the body saves the successor. -/
def scan (saves : Bool) (s : State) (n : ThdId) (spd : SpdId) (cur : Node) : State :=
  if cur = .head spd then s.goto n .out
  else s.goto n (.visit spd cur (if saves then some (s.links.next cur) else none))

/-- `__ser_sched_client_fault_notification` up to its first call. -/
def serSchedClientFaultNotification (n : ThdId) (spd : SpdId) : State :=
  if s.ready spd then scan false s n spd (s.links.next (.head spd)) else s.goto n .out

/-- `__ser_evt_client_fault_notification` up to its first call. There is no test whether the head is zero;
if it is, its successor is the null pointer. -/
def serEvtClientFaultNotification (n : ThdId) (spd : SpdId) : State :=
  if s.ready spd then scan false s n spd (s.links.next (.head spd)) else s.goto n .crashed

/-- `__ser_lock_client_fault_notification` up to its first call. -/
def serLockClientFaultNotification (n : ThdId) (spd : SpdId) : State :=
  if s.ready spd then scan true s n spd (s.links.next (.head spd)) else s.goto n .out

def notify (s : State) (n : ThdId) (spd : SpdId) : State :=
  match i with
  | .sched => serSchedClientFaultNotification s n spd
  | .evt => serEvtClientFaultNotification s n spd
  | .lock => serLockClientFaultNotification s n spd

/-- The end of the body, with the lock taken again. -/
def advance (n : ThdId) (spd : SpdId) (cur : Node) (tmp : Option Node) : State :=
  match tmp with
  | some tmp => scan true s n spd tmp
  | none => scan false s n spd (s.links.next cur)

/-! ## Steps -/

inductive Label where
  /-- A thread calls the stub to block. -/
  | block (t : ThdId) (spd : SpdId) (key : Key)
  /-- A thread starts the notification for a client. -/
  | notify (n : ThdId) (spd : SpdId)
  | run (t : ThdId)
  /-- The call in which a thread has blocked returns. -/
  | leave (t : ThdId)
  deriving DecidableEq, Repr

def run (s : State) (t : ThdId) : Option State :=
  match s.pc t with
  | .initHead spd key => some ((s.initHead spd).goto t (.enter spd key))
  | .enter spd key => some (enter i s t spd key)
  | .visit spd cur tmp => some (s.goto t (.visited spd cur tmp))
  | .visited spd cur tmp => some (advance s t spd cur tmp)
  | _ => none

def step (s : State) : Label → Option State
  | .block t spd key => if s.pc t = .out then block i s t spd key else none
  | .notify n spd => if s.pc n = .out then some (notify i s n spd) else none
  | .run t => run i s t
  | .leave t =>
    match s.pc t with
    | .inside _ => some (leave s t)
    | _ => none

@[simp]
theorem goto_pc (pc : Pc) (t' : ThdId) : (s.goto t pc).pc t' = if t' = t then pc else s.pc t' := by
  rw [State.pc, State.goto, Table.get_set]
  split
  · rfl
  · rfl

end SuperGlue.Source.Stub.Sstub
