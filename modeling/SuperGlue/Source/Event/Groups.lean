import SuperGlue.Lib.Ring

/-!
# The event component

`evt/edge_grp/__evt_rec`: events in groups, which may be nested. Every child of a group is linked
into one of two rings with the same link fields, that of the inactive or that of the triggered
children. Each function runs under the lock of the component, so it is one step; a failed assertion is
`none`. A thread that is told to block calls `__evt_wait` again when it is woken.
-/
namespace SuperGlue.Source.Event.Groups
open Function Lib.Ring

abbrev EvtPtr := Nat
abbrev SpdId := Nat
abbrev ThdId := Nat

/-- Event ids are `long`; those handed out by the name server are positive. -/
abbrev Eid := Int

/-- `CVECT_MAX_ID`. -/
def cvectMaxId : Int := 2 ^ 20

/-- The slot of the two-level vector that an id leads to. -/
def slot (eid : Eid) : Eid := eid % cvectMaxId

inductive EvtType where
  | group
  | normal
  deriving DecidableEq, Repr

/-- `struct evt` without its links. -/
structure Evt where
  type : EvtType
  blocked : Bool
  triggered : Bool
  eid : Eid
  grp : Option EvtPtr
  iachildren : Option EvtPtr
  tchildren : Option EvtPtr
  bthd : ThdId
  creator : SpdId
  deriving DecidableEq, Repr

/-- What `memset` leaves. -/
def blank : Evt := ⟨.group, false, false, 0, none, none, none, 0, 0⟩

structure State where
  node : EvtPtr → Evt
  links : Links EvtPtr
  /-- The objects that the slab has handed out. -/
  live : Finset EvtPtr
  /-- `evt_map`, by slots. -/
  map : Eid → Option EvtPtr

def init : State := ⟨fun _ => blank, ⟨id, id⟩, ∅, fun _ => none⟩

def enomem : Int := -12
def eagain : Int := -11
def einval : Int := -22
def eacces : Int := -13

variable (s : State)

def State.set (e : EvtPtr) (evt : Evt) : State :=
  { s with node := update s.node e evt }

def State.mark (e : EvtPtr) (triggered : Bool) : State :=
  s.set e { s.node e with triggered := triggered }

def State.setTchildren (g : EvtPtr) (c : Option EvtPtr) : State :=
  s.set g { s.node g with tchildren := c }

def State.setIachildren (g : EvtPtr) (c : Option EvtPtr) : State :=
  s.set g { s.node g with iachildren := c }

def State.relink (links : Links EvtPtr) : State := { s with links := links }

/-- `if (g->iachildren) ADD_LIST(g->iachildren, e); else g->iachildren = e`. -/
def addInactive (g e : EvtPtr) : State :=
  match (s.node g).iachildren with
  | some h => s.relink (s.links.add h e)
  | none => s.setIachildren g (some e)

/-! ## `__evt_alloc` and `__evt_split` -/

/-- An object of the slab becomes an event. -/
def newEvt (type : EvtType) (p : Option EvtPtr) (spdid : SpdId) (e : EvtPtr) : State :=
  { s.set e { blank with type := type, grp := p, creator := spdid } with
    links := s.links.init e
    live := insert e s.live }

/-- It becomes an inactive child of its parent. -/
def joinParent (p : Option EvtPtr) (e : EvtPtr) : State :=
  match p with
  | some p => addInactive s p e
  | none => s

/-- The new event is linked to its parent before the name server is asked for its id, and stays so if
there is none. `page` says whether `cvect_add` has a page for the slot or gets one; nobody looks at its
result, so the id of an event that is not entered is returned all the same. -/
def evtAlloc (type : EvtType) (p : Option EvtPtr) (spdid : SpdId) (e : EvtPtr) (ns : Int) (page : Bool) :
    Option (State × Int) :=
  if e ∈ s.live then none
  else
    let s := joinParent (newEvt s type p spdid e) p e
    let s := s.set e { s.node e with eid := ns }
    if ns ≤ 0 then some (s, enomem)
    else if cvectMaxId ≤ ns ∨ (s.map ns).isSome then none
    else some (if page then { s with map := update s.map ns (some e) } else s, ns)

/-- `evt_split`, with the answers of the slab, of the name server and of the allocator of pages. -/
def evtSplit (spdid : SpdId) (parent : Eid) (group : Bool) (slab : Option EvtPtr) (ns : Int) (page : Bool) :
    Option (State × Int) :=
  let type := if group then EvtType.group else EvtType.normal
  let alloc := fun p => match slab with
    | none => some (s, enomem)
    | some e => evtAlloc s type p spdid e ns page
  if parent = 0 then alloc none
  else if parent < 0 then none
  else
    match s.map (slot parent) with
    | none => some (s, einval)
    | some p =>
      if (s.node p).creator ≠ spdid ∨ (s.node p).type ≠ .group then some (s, enomem)
      else alloc (some p)

/-! ## `__evt_trigger` -/

/-- The body of the loop: `g` goes to the end of the triggered children of its group. -/
def triggerOne (g : EvtPtr) : State :=
  let s := s.mark g true
  match (s.node g).grp with
  | none => s
  | some p =>
    let s := s.relink (s.links.rem g)
    match (s.node p).tchildren with
    | none => s.setTchildren p (some g)
    | some h => s.relink (s.links.add (s.links.prev h) g)

/-- The loop up the groups; `t` is the event to wake a thread for, as soon as it is known. -/
def triggerUp : Nat → State → EvtPtr → Option EvtPtr → Option (State × Option EvtPtr)
  | 0, _, _, _ => none
  | fuel + 1, s, g, t =>
    let s := triggerOne s g
    let here := (s.node g).blocked || (s.node g).grp.isNone
    let t := if t.isNone && here then some g else t
    match (s.node g).grp with
    | none => some (s, t)
    | some p => triggerUp fuel s p t

/-- The thread blocked on `t` is to be woken. -/
def triggerWake (t : EvtPtr) : Option (State × Int) :=
  let s := s.mark t true
  if (s.node t).blocked then
    if (s.node t).bthd = 0 then none
    else some (s.set t { s.node t with blocked := false, bthd := 0 }, ((s.node t).bthd : Int))
  else if (s.node t).bthd ≠ 0 then none
  else some (s, 0)

def evtTrigger (eid : Eid) : Option (State × Int) :=
  if eid < 0 then none
  else
    match s.map (slot eid) with
    | none => some (s, einval)
    | some e =>
      if (s.node e).type ≠ .normal then some (s, einval)
      else (triggerUp (s.live.card + 1) s e none).bind fun (s, t) => t.bind (triggerWake s)

/-! ## `__evt_wait` -/

/-- The loop down to the bottom triggered child. -/
def bottom : Nat → State → EvtPtr → Option EvtPtr
  | 0, _, _ => none
  | fuel + 1, s, c =>
    match (s.node c).tchildren with
    | none => some c
    | some c' => bottom fuel s c'

/-- The loop up: the first triggered child of `g` becomes inactive, whichever it is, and the loop ends
at a group with more of them. -/
def waitUp : Nat → State → Option EvtPtr → Option State
  | _, s, none => some s
  | 0, _, some _ => none
  | fuel + 1, s, some g =>
    match (s.node g).tchildren with
    | none => none
    | some r =>
      if s.links.next r = r then
        let s := ((s.relink (s.links.rem r)).setTchildren g none).mark g false
        let s := addInactive s g r
        waitUp fuel s (s.node g).grp
      else
        let f := s.links.next r
        let s := (s.relink (s.links.rem r)).setTchildren g (some f)
        some (addInactive s g r)

def evtWait (spdid : SpdId) (eid : Eid) (thd : ThdId) : Option (State × Int) :=
  if eid < 0 then none
  else
    match s.map (slot eid) with
    | none => some (s, einval)
    | some e =>
      let evt := s.node e
      if evt.bthd ≠ 0 then some (s, eagain)
      else if evt.creator ≠ spdid then some (s, einval)
      else if evt.blocked ∨ evt.eid = 0 then none
      else if evt.triggered = false then
        some (s.set e { evt with blocked := true, bthd := thd }, 0)
      else (bottom (s.live.card + 1) s e).bind fun t =>
        let s := s.mark t false
        (waitUp (s.live.card + 1) s (s.node t).grp).map fun s => (s, (s.node t).eid)

/-! ## `__evt_free` -/

/-- The body of the loops. -/
def orphan (c : EvtPtr) : State :=
  (s.set c { s.node c with grp := none }).relink (s.links.rem c)

/-- The loop over the ring of `h`: it unlinks the node after `h` until that is `f`, which is the one it
unlinked first. -/
def freeLoop : Nat → State → EvtPtr → EvtPtr → Option State
  | 0, _, _, _ => none
  | fuel + 1, s, h, f =>
    let s := orphan s (s.links.next h)
    if f = s.links.next h then some s else freeLoop fuel s h f

def freeChildren (first : Option EvtPtr) : Option State :=
  match first with
  | none => some s
  | some h => freeLoop (s.live.card + 1) s h (s.links.next h)

/-- The children of a group are not freed with it. -/
def evtFree (spdid : SpdId) (eid : Eid) : Option (State × Int) :=
  if eid < 0 then none
  else
    match s.map (slot eid) with
    | none => some (s, einval)
    | some e =>
      if (s.node e).creator ≠ spdid then some (s, eacces)
      else if (s.node e).bthd ≠ 0 then some (s, eagain)
      else
        (freeChildren s (s.node e).iachildren).bind fun s =>
        let s := s.setIachildren e none
        (freeChildren s (s.node e).tchildren).map fun s =>
        let s := s.setTchildren e none
        ({ s.relink (s.links.rem e) with
          map := update s.map (slot eid) none
          live := s.live.erase e }, 0)

/-! ## Ids and slots -/

theorem slot_small {eid : Eid} (pos : 0 < eid) (small : eid < cvectMaxId) : slot eid = eid :=
  Int.emod_eq_of_lt (le_of_lt pos) small

end SuperGlue.Source.Event.Groups
