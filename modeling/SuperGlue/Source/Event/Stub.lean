import SuperGlue.Lib.FiniteMap
import SuperGlue.Source.Event.Groups
import SuperGlue.Source.Stub.Cstub

/-!
# The client stub of the event component

`interface/evt/__stubs_rec/__c_stub.c`, as a machine that runs from one invocation to the next. It is
told what an invocation yields and answers with the next invocation or with the value it returns; a
failed assertion is `none`.

`rd_update` calls the server itself, through plain stubs, and calls itself for a parent that the server
does not know. The events whose `rd_update` waits for that of its parent are kept in a stack.
-/
namespace SuperGlue.Source.Event.Stub
open Lib.FiniteMap Source.Stub.Cstub
open Source.Event.Groups (cvectMaxId slot)

abbrev SpdId := Nat
abbrev Eid := Int

def einval : Int := -22

/-- `struct rec_data_evt`. -/
structure RecData where
  spdid : SpdId
  pEvtid : Eid
  grp : Int
  fcnt : Nat
  deriving DecidableEq, Repr

/-- The functions of the interface, with the arguments of the caller. -/
inductive Op where
  | split (spdid : SpdId) (parent : Eid) (grp : Int)
  | wait (spdid : SpdId) (evt : Eid)
  | trigger (spdid : SpdId) (evt : Eid)
  | free (spdid : SpdId) (evt : Eid)
  deriving DecidableEq, Repr

/-- What the server is asked. -/
inductive Invocation where
  | op (op : Op)
  | splitExist (spdid : SpdId) (parent : Eid) (grp : Int) (existing : Eid)
  | upcallCreator (spdid : SpdId) (evt : Eid)
  deriving DecidableEq, Repr

/-- What the stub is doing: a call of the client, or `evt_cli_if_recover_upcall_entry`. -/
inductive Task where
  | op (op : Op)
  | recover (evt : Eid)
  deriving DecidableEq, Repr

/-- Where the stub waits for an invocation to come back. -/
inductive Frame where
  | call (op : Op)
  | existing (evt : Eid) (stack : List Eid) (task : Task)
  | upcall (stack : List Eid) (task : Task)
  deriving DecidableEq, Repr

inductive Reply where
  | value (v : Int)
  | fault
  deriving DecidableEq, Repr

inductive Action where
  | invoke (inv : Invocation) (frame : Frame)
  | ret (v : Int)
  deriving DecidableEq, Repr

structure Client where
  /-- `cos_spd_id()`. -/
  spd : SpdId
  /-- `rec_evt_map`, by slots. -/
  table : Table Eid RecData
  link : Link

variable (c : Client)

/-- `rd->fcnt = global_fault_cnt`. -/
def Client.touch (evt : Eid) (rd : RecData) : Client :=
  { c with table := c.table.set (slot evt) { rd with fcnt := c.link.globalFaultCnt } }

/-! ## `rd_update` -/

/-- What follows the outermost `rd_update`. `evt_free` never assigns the record it tests, so it returns
at once; the entry for upcalls asserts that there is a record. -/
def proceed (found : Bool) : Task → Option (Client × Action)
  | .op (.free _ _) => some (c, .ret 0)
  | .op op => some (c, .invoke (.op op) (.call op))
  | .recover _ => if found then some (c, .ret 0) else none

/-- At `again`. -/
def again (evt : Eid) (stack : List Eid) (task : Task) : Option (Client × Action) :=
  (c.table.get (slot evt)).map fun rd =>
    (c, .invoke (.splitExist rd.spdid rd.pEvtid rd.grp evt) (.existing evt stack task))

/-- The end of an `rd_update`. -/
def returned (found : Bool) (stack : List Eid) (task : Task) : Option (Client × Action) :=
  match stack with
  | [] => proceed c found task
  | evt :: stack => again c evt stack task

def rdUpdate (evt : Eid) (stack : List Eid) (task : Task) : Option (Client × Action) :=
  if evt = 0 then returned c false stack task
  else if evt < 0 then none
  else
    match c.table.get (slot evt) with
    | none => some (c, .invoke (.upcallCreator c.spd evt) (.upcall stack task))
    | some rd =>
      if rd.fcnt = c.link.globalFaultCnt then returned c true stack task
      else again (c.touch evt rd) evt stack task

/-! ## The interface -/

/-- From `redo` to the next invocation. -/
def redo : Op → Option (Client × Action)
  | .split spdid parent grp => rdUpdate c parent [] (.op (.split spdid parent grp))
  | .free spdid evt => rdUpdate c evt [] (.op (.free spdid evt))
  | op => some (c, .invoke (.op op) (.call op))

def begin : Task → Option (Client × Action)
  | .op op => redo c op
  | .recover evt => rdUpdate c evt [] (.recover evt)

/-- `rdevt_alloc` and `rd_cons`. -/
def rdevtAlloc (id parent : Eid) (grp : Int) : Option Client :=
  if 0 ≤ id ∧ id < cvectMaxId ∧ c.table.get id = none then
    some { c with table := c.table.set id ⟨c.spd, parent, grp, c.link.globalFaultCnt⟩ }
  else none

/-- A value that the server returned for a call of the client. -/
def replied (v : Int) : Op → Option (Client × Action)
  | .split _ parent grp => (rdevtAlloc c v parent grp).map fun c => (c, .ret v)
  | .wait spdid evt =>
    if v = einval then rdUpdate c evt [] (.op (.wait spdid evt)) else some (c, .ret v)
  | .trigger spdid evt =>
    if v = einval then rdUpdate c evt [] (.op (.trigger spdid evt)) else some (c, .ret v)
  | .free _ _ => some (c, .ret v)

/-- The result of `evt_split_exist`. Any other error than an unknown parent is taken to mean that the
event has been freed. -/
def existed (id : Int) (evt : Eid) (stack : List Eid) (task : Task) : Option (Client × Action) :=
  if id = einval then (c.table.get (slot evt)).bind fun rd => rdUpdate c rd.pEvtid (evt :: stack) task
  else if id < 0 then returned { c with table := c.table.erase (slot evt) } false stack task
  else if id = 0 then none
  else returned c true stack task

def resume : Frame → Reply → Option (Client × Action)
  | .call op, .fault => c.link.faultUpdate.bind fun link => redo { c with link := link } op
  | .call op, .value v => replied c v op
  | .existing evt stack task, .fault => existed c fatalErr evt stack task
  | .existing evt stack task, .value v => existed c v evt stack task
  | .upcall stack task, _ => returned c false stack task

end SuperGlue.Source.Event.Stub
