import SuperGlue.Lib.Ring
import SuperGlue.Lib.Transition

/-!
# The client stub of the memory manager

`interface/mem_mgr/__stubs_rec/__c_stub.c`: the records that a client keeps of its aliases. They are found
through a two-level vector whose index is twelve bits of the address. A record is linked to the record of
the page it was aliased from, by the same two fields that link its own aliases to it.

Only a call as a whole is a step; `none` is a failed assertion, a call that does not return or one whose
recursion needs more fuel.
-/
namespace SuperGlue.Source.MemMgr.Stub
open Function Lib.Ring

abbrev Addr := Nat
abbrev SpdId := Nat
abbrev Ptr := Nat

/-- The component that is not tracked. -/
def booter : SpdId := 5

/-- `vaddr2id`. -/
def vaddr2id (addr : Addr) : Nat := addr / 2 ^ 12 % 2 ^ 12

/-- `struct rec_data_mm` without its links. -/
structure RecData where
  dAddr : Addr
  sAddr : Addr
  sSpd : SpdId
  dSpdFlags : Nat
  isParent : Bool
  deriving DecidableEq, Repr

def RecData.dSpd (rd : RecData) : SpdId := rd.dSpdFlags / 2 ^ 16

def blank : RecData := ⟨0, 0, 0, 0, false⟩

structure State where
  /-- `rec_mm_vect`. -/
  vect : Nat → Option Ptr
  node : Ptr → RecData
  links : Links Ptr
  /-- The objects that the slab has handed out. -/
  live : Finset Ptr
  /-- The address for which a record was allocated. Only statements about the stub use it. -/
  home : Ptr → Addr

def init : State := ⟨fun _ => none, fun _ => blank, ⟨id, id⟩, ∅, fun _ => 0⟩

variable (s : State)

def State.set (p : Ptr) (rd : RecData) : State := { s with node := update s.node p rd }

/-- An object that the slab can hand out. -/
def fresh (live : Finset Ptr) : Ptr := live.sup id + 1

/-! ## Records -/

def rdmmLookup (addr : Addr) : Option Ptr := s.vect (vaddr2id addr)

/-- `rdmm_alloc`; `cvect_add` asserts that the entry is free. -/
def rdmmAlloc (addr : Addr) : Option (State × Ptr) :=
  if (rdmmLookup s addr).isSome then none
  else
    let p := fresh s.live
    some ({ s with
      vect := update s.vect (vaddr2id addr) (some p)
      live := insert p s.live
      home := update s.home p addr }, p)

/-- `rdmm_dealloc`: the entry of `d_addr` is cleared. -/
def rdmmDealloc (p : Ptr) : State :=
  { s with
    vect := update s.vect (vaddr2id (s.node p).dAddr) none
    live := s.live.erase p }

/-- A record for the page that an alias is made from; its `d_addr` is that of the alias. -/
def newParent (sSpd : SpdId) (sAddr : Addr) (dSpdFlags : Nat) (dAddr : Addr) : Option (State × Ptr) :=
  (rdmmAlloc s sAddr).map fun (s, q) =>
    ({ s.set q ⟨dAddr, sAddr, sSpd, dSpdFlags, false⟩ with links := s.links.init q }, q)

def rdCons (p : Ptr) (sSpd : SpdId) (sAddr : Addr) (dSpdFlags : Nat) (dAddr : Addr) : Option State :=
  let s := { s.set p ⟨dAddr, sAddr, sSpd, dSpdFlags, false⟩ with links := s.links.init p }
  let parent := match rdmmLookup s sAddr with
    | some q => some (s, q)
    | none => newParent s sSpd sAddr dSpdFlags dAddr
  parent.map fun (s, q) => { s.set q { s.node q with isParent := true } with links := s.links.add q p }

/-! ## `__mman_alias_page` -/

/-- What an invocation of the server yields. -/
inductive Answer where
  | fault
  | einval
  | echild
  | value (ret : Addr)
  deriving DecidableEq, Repr

/-- The alias exists in the server: a record is made if there is none. -/
def track (sSpd : SpdId) (sAddr : Addr) (dSpdFlags : Nat) (dAddr : Addr) : Option State :=
  match rdmmLookup s dAddr with
  | some _ => some s
  | none => (rdmmAlloc s dAddr).bind fun (s, p) => rdCons s p sSpd sAddr dSpdFlags dAddr

/-- The answers of the server are taken one by one until the call returns. -/
def mmanAliasPage (me : SpdId) (s : State) (sSpd : SpdId) (sAddr : Addr) (dSpdFlags : Nat) (dAddr : Addr) :
    List Answer → Option State
  | [] => none
  | .fault :: rest => mmanAliasPage me s sSpd sAddr dSpdFlags dAddr rest
  | .einval :: rest =>
    if me = booter then some s else mmanAliasPage me s sSpd sAddr dSpdFlags dAddr rest
  | .echild :: rest =>
    if me = booter then some s
    else if sSpd = me ∧ (rdmmLookup s sAddr).isSome then mmanAliasPage me s sSpd sAddr dSpdFlags dAddr rest
    else none
  | .value ret :: _ =>
    if me = booter ∨ ret = 0 then some s
    else if ret = dAddr then track s sSpd sAddr dSpdFlags dAddr
    else none

/-! ## `mman_revoke_page` -/

/-- The record of an address, if aliases were made from it. -/
def parentAt (addr : Addr) : Option Ptr := (rdmmLookup s addr).filter fun p => (s.node p).isParent

/-- The loop of `rd_update_subtree`: every alias is made again. Those of an alias in this component are
made again by a recursive call, those of another one by an upcall. -/
def updateLoop (me : SpdId) : Nat → State → Ptr → Ptr → List (List Answer) → Option (State × List (List Answer))
  | 0, _, _, _, _ => none
  | fuel + 1, s, rd, aliasRd, answers =>
    if aliasRd = rd then some (s, answers)
    else
      match answers with
      | [] => none
      | answer :: answers =>
        let a := s.node aliasRd
        (mmanAliasPage me s a.sSpd a.sAddr a.dSpdFlags a.dAddr answer).bind fun s =>
          let below :=
            if (s.node aliasRd).dSpd ≠ me then some (s, answers)
            else if (s.node aliasRd).dAddr = 0 then none
            else
              match parentAt s (s.node aliasRd).dAddr with
              | none => some (s, answers)
              | some rd' => updateLoop me fuel s rd' (s.links.next rd') answers
          below.bind fun (s, answers) => updateLoop me fuel s rd (s.links.next aliasRd) answers

def rdUpdateSubtree (me : SpdId) (fuel : Nat) (s : State) (addr : Addr) (answers : List (List Answer)) :
    Option State :=
  if addr = 0 then none
  else
    match parentAt s addr with
    | none => some s
    | some rd => (updateLoop me fuel s rd (s.links.next rd) answers).map Prod.fst

/-- The loop of `rd_remove`: what is linked to the record is removed, one by one. -/
def removeLoop (me : SpdId) : Nat → State → Ptr → Option State
  | 0, _, _ => none
  | fuel + 1, s, rd =>
    let aliasRd := s.links.next rd
    if aliasRd = rd then some s
    else
      let below :=
        if (s.node aliasRd).dSpd ≠ me then some s
        else if (s.node aliasRd).dAddr = 0 then none
        else
          match parentAt s (s.node aliasRd).dAddr with
          | none => some s
          | some rd' => removeLoop me fuel s rd'
      below.bind fun s =>
        let s := { s with links := s.links.rem aliasRd }
        removeLoop me fuel (rdmmDealloc s aliasRd) rd

def rdRemove (me : SpdId) (fuel : Nat) (s : State) (addr : Addr) : Option State :=
  if addr = 0 then none
  else
    match parentAt s addr with
    | none => some s
    | some rd => removeLoop me fuel s rd

/-- The aliases are made again before every invocation; all but the last one yield a fault. -/
def mmanRevokePage (me : SpdId) (fuel : Nat) (s : State) (addr : Addr) : List (List (List Answer)) → Option State
  | [] => none
  | [answers] => (rdUpdateSubtree me fuel s addr answers).bind fun s => rdRemove me fuel s addr
  | answers :: rounds => (rdUpdateSubtree me fuel s addr answers).bind fun s => mmanRevokePage me fuel s addr rounds

/-! ## Steps -/

inductive Label where
  | aliasPage (sSpd : SpdId) (sAddr : Addr) (dSpdFlags : Nat) (dAddr : Addr) (answers : List Answer)
  | revokePage (addr : Addr) (fuel : Nat) (rounds : List (List (List Answer)))
  deriving DecidableEq, Repr

def step (me : SpdId) (s : State) : Label → Option State
  | .aliasPage sSpd sAddr dSpdFlags dAddr answers => mmanAliasPage me s sSpd sAddr dSpdFlags dAddr answers
  | .revokePage addr fuel rounds => mmanRevokePage me fuel s addr rounds

end SuperGlue.Source.MemMgr.Stub
