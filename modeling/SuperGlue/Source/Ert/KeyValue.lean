import SuperGlue.Source.Ert.Trie

/-!
# The key-value trie

`include/kvtrie.h` as `KVT_CREATE` makes it: entries are pointers, to nodes in all levels but the last and to
values there, and 0 is NULL. The answers of `allocfn` are given with each call, and a failed assertion is
`none`. `KVT_CREATE_ALIGNED` is left out: what it expands to is not C.
-/
namespace SuperGlue.Source.Ert.KeyValue
open Lib.RadixTrie Trie

/-- A pointer, 0 for NULL. -/
abbrev Ptr := Nat

/-- `sizeof(int*)`. -/
def ptrSize : Nat := 4

/-- The default functions of `ertrie.h`. -/
def kvt (depth order lastOrder : Nat) : Consts Ptr Ptr Unit (List (Option Ptr)) Ptr where
  depth := depth
  order := order
  lastOrder := lastOrder
  initval := 0
  initfn _ _ := 0
  getfn e := e
  accumfn _ accum := accum
  isnullfn e := e == 0
  setfn v := v
  allocfn answers _ := (answers.head?.join, answers.tail)
  setleaffn v := v

/-- The trie `v` in memory. -/
structure Kvt where
  mem : Memory Ptr Ptr
  v : Ptr

variable (P : Consts Ptr Ptr Unit (List (Option Ptr)) Ptr)

def kvtAlloc (m : Memory Ptr Ptr) (answer : Option Ptr) : Option (Option Kvt) :=
  (ertAlloc P m [answer]).map fun result => result.map fun (m, v) => ⟨m, v⟩

/-- `lkupp`, for an id in range. -/
def kvtLkupp (t : Kvt) (id : Nat) : Ptr :=
  match (ertLookup P t.mem t.v id (P.depth + 1) ()).1 with
  | none => 0
  | some n => n.read t.mem

/-- `__kvt_add`. -/
def kvtAdd (t : Kvt) (id : Nat) (val : Ptr) (answers : List (Option Ptr)) : Option (Kvt × Int) :=
  if val ≠ P.initval ∧ id < ertMaxid P then
    if kvtLkupp P t id ≠ 0 then some (t, 1)
    else
      let r := ertExpand P t.mem t.v id (P.depth + 1) () answers val
      let t := { t with mem := r.mem }
      if val = kvtLkupp P t id then some (t, r.ret) else none
  else none

/-- `__kvt_del`; what `__ert_expand` returned is not looked at. -/
def kvtDel (t : Kvt) (id : Nat) (answers : List (Option Ptr)) : Option (Kvt × Int) :=
  if id < ertMaxid P then
    let r := ertExpand P t.mem t.v id (P.depth + 1) () answers P.initval
    let t := { t with mem := r.mem }
    if kvtLkupp P t id = 0 then some (t, 0) else none
  else none

/-- A call of `freefn`. -/
structure Freed where
  node : Ptr
  sz : Nat
  leaf : Bool
  deriving DecidableEq, Repr

/-- `__kvt_free_rec`. -/
def kvtFreeRec (m : Memory Ptr Ptr) : Nat → Ptr → List Freed
  | 0, vi | 1, vi => [⟨vi, 2 ^ P.lastOrder * ptrSize, true⟩]
  | lvl + 2, vi =>
    ((List.range (2 ^ P.order)).flatMap fun i =>
      if P.isnullfn (m vi i) then [] else kvtFreeRec m (lvl + 1) (P.getfn (m vi i))) ++
    [⟨vi, 2 ^ P.order * ptrSize, false⟩]

def kvtFree (t : Kvt) : List Freed := kvtFreeRec P t.mem P.depth t.v

end SuperGlue.Source.Ert.KeyValue
