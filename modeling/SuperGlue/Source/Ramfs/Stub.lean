import SuperGlue.Lib.Transition
import SuperGlue.Lib.Slots
import SuperGlue.Source.Stub.Cstub

/-!
# The client stub of the RAM file system

`interface/rtorrent/__stubs_rec_ramfs/__c_stub.c`. A client knows its torrents by the ids of a map of
its own, whose records hold the server's id of the torrent, the id of its parent, and what is needed to
split it off again. A torrent that is used after a fault is split off its parent again, after the parent
itself, by `rd_recover_state`, which goes through the stub's own `tsplit`.

Server torrents carry their path. Whether the file system accepts a split is an answer of the
environment; so is the failure of the server during an invocation. A failed assertion, and running out
of fuel, is `none`.
-/
namespace SuperGlue.Source.Ramfs.Stub
open Lib.Transition Lib.Slots Source.Stub.Cstub

/-- `td_t`. -/
abbrev Td := Nat
abbrev Param := List UInt8
abbrev Path := List Param

def tdRoot : Td := 1

/-! ## The server -/

structure Tor where
  path : Path
  flags : Nat
  /-- Split by the client of this stub? -/
  own : Bool
  deriving DecidableEq, Repr

def Tor.child (t : Tor) (param : Param) (flags : Nat) : Tor := ⟨t.path ++ [param], flags, true⟩

def rootTor : Tor := ⟨[], 7, false⟩

theorem boot_below (i : Nat) (t : Tor) (found : (if i = tdRoot then some rootTor else none) = some t) : i < 2 := by
  split at found
  next same => rw [same]; decide
  · nomatch found

/-- `torlib_init`: ids 0 and 1 are taken. -/
def bootServer : SlotMap 2 Tor where
  get := fun i => if i = tdRoot then some rootTor else none
  freed := []
  next := 2
  low := Nat.le_refl 2
  below := boot_below
  unused := nofun
  nodup := List.nodup_nil

/-! ## The stub's data -/

/-- `struct rec_data_tor`. -/
structure RecData where
  pTid : Td
  sTid : Td
  param : Param
  tflags : Nat
  fcnt : Nat
  deriving DecidableEq, Repr

structure State where
  link : Link
  /-- `uniq_tids`. -/
  table : SlotMap 2 RecData
  server : SlotMap 2 Tor

/-- `map_rd_create` keeps the ids 0 and 1 for records that no one uses. -/
def emptyTable : SlotMap 2 RecData where
  get := fun _ => none
  freed := []
  next := 2
  low := Nat.le_refl 2
  below := nofun
  unused := nofun
  nodup := List.nodup_nil

def init : State := ⟨Link.init, emptyTable, bootServer⟩

/-- What the server answers to an invocation. -/
inductive Answer where
  | accept
  | refuse
  /-- It fails before it returns. -/
  | fault
  deriving DecidableEq, Repr

/-- The answers to the next invocations; after them the server accepts. -/
abbrev Plan := List Answer

variable (s : State)

def State.reboot : State := { s with link := s.link.trigger, server := bootServer }

/-- `rd->fcnt = global_fault_cnt`. -/
def State.touch (td : Td) : State :=
  { s with table := s.table.modify td fun rd => { rd with fcnt := s.link.globalFaultCnt } }

/-- `rd->s_tid = sTid`. -/
def State.rebind (td : Td) (sTid : Td) : State :=
  { s with table := s.table.modify td fun rd => { rd with sTid := sTid } }

def State.faultUpdate (s : State) : Option State :=
  s.link.faultUpdate.map fun link => { s with link := link }

/-- `map_rd_delete`: the parameter is freed, which is a string literal if it is empty. -/
def mapRdDelete (td : Td) : Option State :=
  match s.table.get td with
  | none => none
  | some rd => if rd.param = [] then none else some { s with table := s.table.del td }

/-! ## Recovery -/

/-- `rd_update` for the operations that recover. -/
def rdUpdate (recover : State → Plan → Td → Option (State × Plan)) (s : State) (plan : Plan) (td : Td) :
    Option (State × Plan) :=
  match s.table.get td with
  | none => some (s, plan)
  | some rd => if rd.fcnt = s.link.globalFaultCnt then some (s, plan) else recover (s.touch td) plan td

/-- The part of `tsplit` that follows the start of an accepted invocation. -/
def splitServed (currPtid : Td) (param : Param) (tflags : Nat) : Option (State × Td) :=
  (s.server.get currPtid).map fun t =>
    ({ s with
        server := s.server.add (t.child param tflags)
        table := s.table.add ⟨currPtid, s.server.slot, param, tflags, s.link.globalFaultCnt⟩ },
      s.table.slot)

/-- The server's id for a torrent: the root, and a torrent that is not tracked, are passed as they
are. -/
def State.serverTd (td : Td) : Td :=
  if td ≤ 1 then td else ((s.table.get td).map (·.sTid)).getD td

/-- The second half of `rd_recover_state`: the `tsplit` from its invocation on, and the move of the new
server id from the temporary record. -/
def replay (answer : Answer) (rd : RecData) (td : Td) : Option State :=
  -- `assert(ser_tid >= 1)`
  if answer = .refuse then none
  else
    (splitServed s (s.serverTd rd.pTid) rd.param rd.tflags).bind fun (s, tmp) =>
    (s.table.get tmp).bind fun t => mapRdDelete (s.rebind td t.sTid) tmp

mutual

/-- `rd_recover_state`. -/
def rdRecoverState : Nat → State → Plan → Td → Option (State × Plan)
  | 0, _, _, _ => none
  | fuel + 1, s, plan, td =>
    (s.table.get td).bind fun rd =>
      if rd.pTid < 1 ∨ td ≤ 1 then none
      else
        (recoverParent fuel s plan rd.pTid).bind fun (s, plan) =>
        (reach fuel s plan rd.pTid).bind fun (s, plan) =>
        (replay s (plan.headD .accept) rd td).map fun s => (s, plan.tail)
  termination_by structural fuel => fuel

/-- A parent that is not the root comes first. -/
def recoverParent : Nat → State → Plan → Td → Option (State × Plan)
  | 0, _, _, _ => none
  | fuel + 1, s, plan, pTid =>
    if pTid > 1 then
      if (s.table.get pTid).isSome then rdRecoverState fuel (s.touch pTid) plan pTid else none
    else some (s, plan)
  termination_by structural fuel => fuel

/-- From `redo` of an operation on a torrent up to an invocation that gets to the server and is not
undone by a fault. -/
def reach : Nat → State → Plan → Td → Option (State × Plan)
  | 0, _, _, _ => none
  | fuel + 1, s, plan, td =>
    (if td ≤ 1 then some (s, plan) else rdUpdate (rdRecoverState fuel) s plan td).bind
      fun (s, plan) =>
      if s.link.reaches then
        match plan with
        | .fault :: plan => s.reboot.faultUpdate.bind fun s => reach fuel s plan td
        | _ => some (s, plan)
      else s.faultUpdate.bind fun s => reach fuel s plan td
  termination_by structural fuel => fuel

end

/-! Fuel only cuts recovery short: a result stays the same with more of it. -/

theorem bind_mono {α β : Type} {x x' : Option α} {f f' : α → Option β} {r : β} (h : x.bind f = some r)
    (first : ∀ a, x = some a → x' = some a) (second : ∀ a, f a = some r → f' a = some r) : x'.bind f' = some r := by
  obtain ⟨a, got, rest⟩ := Option.bind_eq_some_iff.mp h
  rw [first a got]
  exact second a rest

theorem more_fuel (fuel : Nat) :
    (∀ s plan td r, rdRecoverState fuel s plan td = some r → rdRecoverState (fuel + 1) s plan td = some r) ∧
    (∀ s plan td r, recoverParent fuel s plan td = some r → recoverParent (fuel + 1) s plan td = some r) ∧
    (∀ s plan td r, reach fuel s plan td = some r → reach (fuel + 1) s plan td = some r) := by
  induction fuel with
  | zero => exact ⟨nofun, nofun, nofun⟩
  | succ fuel ih =>
    obtain ⟨recover, parent, loop⟩ := ih
    refine ⟨?_, ?_, ?_⟩
    · intro s plan td r h
      refine bind_mono h (fun _ => id) fun rd h => ?_
      split at h
      · contradiction
      next admitted =>
        rw [if_neg admitted]
        refine bind_mono h (parent _ _ _) fun (s, plan) h => ?_
        exact bind_mono h (loop _ _ _) fun _ => id
    · intro s plan td r h
      rw [recoverParent] at h ⊢
      split at h
      next below =>
        rw [if_pos below]
        split at h
        next found => rw [if_pos found]; exact recover _ _ _ _ h
        · contradiction
      next root => rw [if_neg root]; exact h
    · intro s plan td r h
      refine bind_mono h ?_ fun (s, plan) h => ?_
      · intro a got
        split at got
        next root => rw [if_pos root]; exact got
        rename_i below
        rw [if_neg below]
        unfold rdUpdate at got ⊢
        split at got
        · exact got
        · split at got
          next current => rw [if_pos current]; exact got
          next stale => rw [if_neg stale]; exact recover _ _ _ _ got
      · dsimp only at h ⊢
        split at h
        next reaches =>
          rw [if_pos reaches]
          split at h
          · exact bind_mono h (fun _ => id) fun s h => loop _ _ _ _ h
          · exact h
        next closed =>
          rw [if_neg closed]
          exact bind_mono h (fun _ => id) fun s h => loop _ _ _ _ h

theorem reach_more {fuel more : Nat} (le : fuel ≤ more) {s : State} {plan : Plan} {td : Td}
    {r : State × Plan} (h : reach fuel s plan td = some r) : reach more s plan td = some r := by
  induction le with
  | refl => exact h
  | step _ ih => exact (more_fuel _).2.2 s plan td r ih

/-! ## The calls of a client -/

inductive Call where
  | tsplit (parent : Td) (param : Param) (tflags : Nat)
  /-- `tread` or `twrite`. -/
  | transfer (td : Td)
  | tmerge (td : Td)
  | trelease (td : Td)
  deriving DecidableEq, Repr

/-- The torrent that the stub looks up. -/
def Call.td : Call → Td
  | .tsplit parent _ _ => parent
  | .transfer td => td
  | .tmerge td => td
  | .trelease td => td

inductive Pc where
  | idle
  | redo (call : Call)
  /-- At the invocation, with the torrent recovered. -/
  | ready (call : Call)
  deriving DecidableEq, Repr

/-- `tor_free` of the server's torrent, unless it is not there, and the end of the record. -/
def freeServed (td : Td) : Option State :=
  mapRdDelete { s with server := s.server.del (s.serverTd td) } td

/-- The server's part of a call and the rest of the stub; `tsplit` asserts that it is accepted, and
`tmerge` keeps the record if it is not. -/
def serve (accept : Bool) : Call → Option State
  | .tsplit parent param tflags =>
    if accept then (splitServed s (s.serverTd parent) param tflags).map Prod.fst else none
  | .transfer _ => some s
  | .tmerge td => if accept then freeServed s td else some s
  | .trelease td => freeServed s td

structure Client where
  st : State
  pc : Pc

inductive Label where
  | call (call : Call)
  | reach (fuel : Nat) (plan : Plan)
  | serve (accept : Bool)
  | reboot
  /-- Another client splits a torrent, or releases one of its own. -/
  | otherSplit (path : Path) (flags : Nat)
  | otherRelease (td : Td)
  deriving DecidableEq, Repr

/-- Does the call pass the assertions on its arguments? All but `tsplit` assert that the torrent is
tracked. -/
def admitted : Call → Bool
  | .tsplit parent _ _ => 1 ≤ parent
  | call => (s.table.get call.td).isSome

def step (o : Client) : Label → Option Client
  | .call call => if o.pc = .idle ∧ admitted o.st call then some { o with pc := .redo call } else none
  | .reach fuel plan =>
    match o.pc with
    | .redo call => (reach fuel o.st plan call.td).map fun (s, _) => ⟨s, .ready call⟩
    | _ => none
  | .serve accept =>
    match o.pc with
    | .ready call =>
      if o.st.link.reaches then (serve o.st accept call).map fun s => ⟨s, .idle⟩
      else o.st.faultUpdate.map fun s => ⟨s, .redo call⟩
    | _ => none
  | .reboot => some { o with st := o.st.reboot }
  | .otherSplit path flags =>
    some { o with st := { o.st with server := o.st.server.add ⟨path, flags, false⟩ } }
  | .otherRelease td =>
    if ((o.st.server.get td).any fun t => !t.own) ∧ td ≠ tdRoot then
      some { o with st := { o.st with server := o.st.server.del td } }
    else none

end SuperGlue.Source.Ramfs.Stub
