import SuperGlue.Lib.Slots
import SuperGlue.Source.Event.Stub

/-!
# The event stub with its servers

The invocations of the stub served by the event component, which takes the ids of its events from the
name server `name_server/evt_ns`. The name server does not fail. Nothing ever frees an id: only
`evt_free` of the event component would, and the stub does not call it.

`none` is a failed assertion in the stub or in a server, or an invocation that does not come back.
-/
namespace SuperGlue.Source.Event.Service
open Lib.Slots Source.Stub.Cstub Source.Event.Stub

/-- `cos_map_init_static` and the first `mapping_create`: id 0 is taken. -/
def nsInit : SlotMap 1 SpdId where
  get := fun _ => none
  freed := []
  next := 1
  low := Nat.le_refl 1
  below := nofun
  unused := nofun
  nodup := List.nodup_nil

/-- `ns_alloc`: a new id, or the registered one that is asked for. -/
def nsAlloc (ns : SlotMap 1 SpdId) (cli : SpdId) (existing : Eid) : SlotMap 1 SpdId × Int :=
  if existing = 0 then (ns.add cli, (ns.slot : Int))
  else if (ns.get existing.toNat).isSome then (ns, existing)
  else (ns, -1)

/-- `ns_free`. The id 0 is found and not freed. -/
def nsFree (ns : SlotMap 1 SpdId) (id : Nat) : SlotMap 1 SpdId × Int :=
  if id = 0 then (ns, 0)
  else if (ns.get id).isSome then (ns.del id, 0)
  else (ns, -1)

structure World where
  client : Client
  server : Groups.State
  ns : SlotMap 1 SpdId

def boot (spd : SpdId) : World := ⟨⟨spd, .empty, Link.init⟩, Groups.init, nsInit⟩

variable (w : World)

/-- The event component fails and is started again. -/
def World.reboot : World :=
  { w with server := Groups.init, client := { w.client with link := w.client.link.trigger } }

/-- An object that the slab has not handed out. -/
def freshPtr (s : Groups.State) : Groups.EvtPtr := s.live.sup id + 1

/-- What the allocator of pages leaves: an object in the slab of the events, and a page for the slot of a
new id in `evt_map`. -/
structure Memory where
  slab : Bool
  page : Bool
  deriving DecidableEq, Repr

def plenty : Memory := ⟨true, true⟩

/-- `__evt_split`. The name server is asked last, and its answer is the result if it is an id. -/
def splitServed (memory : Memory) (spdid : SpdId) (parent : Eid) (grp : Int) (existing : Eid) :
    Option (World × Int) :=
  let slab := if memory.slab then some (freshPtr w.server) else none
  let answer := nsAlloc w.ns spdid existing
  (Groups.evtSplit w.server spdid parent (grp != 0) slab answer.2 memory.page).map fun (server, ret) =>
    ({ w with server := server, ns := if 0 < ret then answer.1 else w.ns }, ret)

/-- An operation that changes the state of the event component only. -/
def World.served (result : Option (Groups.State × Int)) : Option (World × Int) :=
  result.map fun (server, ret) => ({ w with server := server }, ret)

/-- What an invocation that gets to the server yields. A wait that yields 0 is to be repeated when its
thread is woken. An upcall for an event of another component comes back after that one has run; one for
an event of this component finds no record, asks for an upcall again and so on. -/
def serve (thd : Groups.ThdId) (memory : Memory) : Invocation → Option (World × Int)
  | .op (.split spdid parent grp) => splitServed w memory spdid parent grp 0
  | .splitExist spdid parent grp existing => splitServed w memory spdid parent grp existing
  | .op (.wait spdid evt) => w.served (Groups.evtWait w.server spdid evt thd)
  | .op (.trigger _ evt) => w.served (Groups.evtTrigger w.server evt)
  | .op (.free _ _) => none
  | .upcallCreator _ evt => if w.ns.get evt.toNat = some w.client.spd then none else some (w, 0)

/-! ## A stub that runs alone -/

/-- The next invocation, up to what the stub does next. -/
def exchange (memory : Memory) (w : World) (inv : Invocation) (frame : Frame) : Option (World × Action) :=
  if w.client.link.reaches then
    (serve w 0 memory inv).bind fun (w, v) =>
      (resume w.client frame (.value v)).map fun (c, action) => ({ w with client := c }, action)
  else (resume w.client frame .fault).map fun (c, action) => ({ w with client := c }, action)

/-- Run a call to its end. -/
def drive (memory : Memory) : Nat → World × Action → Option (World × Int)
  | 0, _ => none
  | _ + 1, (w, .ret v) => some (w, v)
  | fuel + 1, (w, .invoke inv frame) => (exchange memory w inv frame).bind (drive memory fuel)

/-- Start a call. -/
def World.begin (w : World) (task : Task) : Option (World × Action) :=
  (Stub.begin w.client task).map fun (c, action) => ({ w with client := c }, action)

/-! ## A history of calls -/

/-- A client with the invocation that its stub waits for. -/
structure Session where
  world : World
  pc : Option (Invocation × Frame)

inductive Label where
  | call (task : Task)
  | go (memory : Memory)
  /-- The event component fails; `asked` if it does so while it serves a split and has its id. -/
  | reboot (asked : Bool)
  /-- Another component splits or re-creates one of its events. -/
  | other (memory : Memory) (spdid : SpdId) (parent : Eid) (grp : Int) (existing : Eid)
  deriving DecidableEq, Repr

def Session.after : World × Action → Session
  | (w, .ret _) => ⟨w, none⟩
  | (w, .invoke inv frame) => ⟨w, some (inv, frame)⟩

/-- An id that the name server hands out for a split whose result is lost. -/
def Session.lose (s : Session) : World :=
  match s.pc with
  | some (.op (.split spdid _ _), _) =>
    if s.world.client.link.reaches then { s.world with ns := s.world.ns.add spdid } else s.world
  | _ => s.world

def Session.step (s : Session) : Label → Option Session
  | .call task => if s.pc = none then (s.world.begin task).map Session.after else none
  | .go memory => s.pc.bind fun (inv, frame) => (exchange memory s.world inv frame).map Session.after
  | .reboot asked => some { s with world := (if asked then s.lose else s.world).reboot }
  | .other memory spdid parent grp existing =>
    if spdid ≠ s.world.client.spd ∧ (existing = 0 ∨ s.world.ns.get existing.toNat = some spdid) then
      (splitServed s.world memory spdid parent grp existing).map fun (w, _) => { s with world := w }
    else none

end SuperGlue.Source.Event.Service
