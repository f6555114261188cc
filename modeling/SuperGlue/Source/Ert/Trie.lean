import SuperGlue.Lib.RadixTrie

/-!
# The embedded radix trie

`include/ertrie.h`: a trie of fixed depth whose nodes are arrays of entries. What an entry means is up to the
functions that the trie is made with. They are given here on entries instead of pointers to them, and a pointer
is a node with an index into it, or the local variable `r` that holds the address of the trie.

Only calls with `dstart = 0` are modelled, and `resolvefn` is `ert_defresolve`, which always succeeds.
-/
namespace SuperGlue.Source.Ert.Trie
open Lib.RadixTrie

/-- `ERT_CONST_PARAMS`: `ν` are nodes, `ε` entries, `α` what `accum` points to, `μ` what `memctxt` points to,
and `δ` the values to be stored. -/
structure Consts (ν ε α μ δ : Type) where
  depth : Nat
  order : Nat
  lastOrder : Nat
  initval : δ
  initfn : ε → Bool → ε
  getfn : ε → ν
  /-- What `getfn` stores where `accum` points to. -/
  accumfn : ε → α → α
  isnullfn : ε → Bool
  setfn : ν → ε
  allocfn : μ → Bool → Option ν × μ
  setleaffn : δ → ε

variable {ν ε α μ δ : Type} [DecidableEq ν]

/-- What `struct ert_intern *` points to. -/
inductive Place (ν ε : Type) where
  /-- The local variable with the address of the trie. -/
  | root (e : ε)
  | slot (p : ν) (i : Nat)

def Place.read (m : Memory ν ε) : Place ν ε → ε
  | .root e => e
  | .slot p i => m p i

def Place.write (m : Memory ν ε) : Place ν ε → ε → Memory ν ε
  | .root _, _ => m
  | .slot p i, e => Lib.RadixTrie.write m p i e

omit [DecidableEq ν] in
@[simp]
theorem Place.read_root (m : Memory ν ε) (e : ε) : (Place.root e : Place ν ε).read m = e := rfl

omit [DecidableEq ν] in
@[simp]
theorem Place.read_slot (m : Memory ν ε) (p : ν) (i : Nat) : (Place.slot p i : Place ν ε).read m = m p i := rfl

@[simp]
theorem Place.write_slot (m : Memory ν ε) (p : ν) (i : Nat) (e : ε) :
    (Place.slot p i).write m e = Lib.RadixTrie.write m p i e := rfl

variable (P : Consts ν ε α μ δ)

/-- `__ert_maxid`, where ids have fewer bits than a word. -/
def ertMaxid : Nat := 2 ^ (P.order * (P.depth - 1) + P.lastOrder)

/-- `__ert_init`. -/
def ertInit (m : Memory ν ε) (vi : ν) (isleaf : Bool) : Memory ν ε :=
  Function.update m vi fun i =>
    if i < 2 ^ (if isleaf then P.lastOrder else P.order) then P.initfn (m vi i) isleaf else m vi i

/-- `ert_alloc`. The result has been through `setfn`, as an entry would be. -/
def ertAlloc (m : Memory ν ε) (memctxt : μ) : Option (Option (Memory ν ε × ε)) :=
  if P.order * (P.depth - 1) + P.lastOrder < 32 ∧ 1 ≤ P.depth then
    some ((P.allocfn memctxt (!decide (1 < P.depth))).1.map fun v =>
      (ertInit P m v (decide (P.depth = 1)), P.setfn v))
  else none

/-- `__ert_walk`. -/
def ertWalk (m : Memory ν ε) (vi : Place ν ε) (id : Nat) (accum : α) (lvl : Nat) :
    Place ν ε × α :=
  (.slot (P.getfn (vi.read m)) (if lvl - 1 = 0 then id % 2 ^ P.lastOrder
    else id / 2 ^ (P.order * (lvl - 2) + P.lastOrder) % 2 ^ P.order), P.accumfn (vi.read m) accum)

/-- The loop of `__ert_lookup` with some rounds to go. -/
def lookupLoop (P : Consts ν ε α μ δ) (m : Memory ν ε) (id : Nat) : Nat → Nat → Place ν ε → α → Option (Place ν ε) × α
  | 0, _, n, accum => (some n, accum)
  | rounds + 1, i, n, accum =>
    if P.isnullfn (n.read m) then (none, accum)
    else
      let (n, accum) := ertWalk P m n id accum (P.depth - i)
      lookupLoop P m id rounds (i + 1) n accum

/-- `__ert_lookup` without the last step, which is `getleaffn` if `dlimit = depth + 1`. -/
def ertLookup (m : Memory ν ε) (v : ε) (id dlimit : Nat) (accum : α) : Option (Place ν ε) × α :=
  lookupLoop P m id (min dlimit P.depth) 0 (.root v) accum

/-- What `__ert_expand` leaves behind; `ret` is its result. -/
structure Expanded (ν ε μ : Type) where
  ret : Int
  mem : Memory ν ε
  memctxt : μ

/-- The loop of `__ert_expand`: the place it comes to, if every level on the way could be made. -/
def expandLoop (P : Consts ν ε α μ δ) (id : Nat) :
    Nat → Nat → Memory ν ε → Place ν ε → α → μ → Memory ν ε × Option (Place ν ε) × α × μ
  | 0, _, m, n, accum, memctxt => (m, some n, accum, memctxt)
  | rounds + 1, i, m, n, accum, memctxt =>
    let (n, accum) := ertWalk P m n id accum (P.depth - i)
    if !P.isnullfn (n.read m) then expandLoop P id rounds (i + 1) m n accum memctxt
    else
      match P.allocfn memctxt (!decide (i + 2 < P.depth)) with
      | (none, memctxt) => (m, none, accum, memctxt)
      | (some new, memctxt) =>
        let m := ertInit P m new (decide (P.depth ≤ i + 2))
        expandLoop P id rounds (i + 1) (n.write m (P.setfn new)) n accum memctxt

/-- `__ert_expand` for `1 ≤ dlimit`. -/
def ertExpand [DecidableEq δ] (P : Consts ν ε α μ δ) (m : Memory ν ε) (v : ε) (id dlimit : Nat) (accum : α)
    (memctxt : μ) (data : δ) : Expanded ν ε μ :=
  let rounds := min dlimit P.depth - 1
  match expandLoop P id rounds 0 m (.root v) accum memctxt with
  | (m, none, _, memctxt) => ⟨-1, m, memctxt⟩
  | (m, some n, accum, memctxt) =>
    if dlimit = P.depth + 1 then
      let (n, _) := ertWalk P m n id accum (P.depth - rounds)
      -- a value is not overwritten, unless with the initial one
      if data ≠ P.initval ∧ P.isnullfn (n.read m) = false then ⟨1, m, memctxt⟩
      else ⟨0, n.write m (P.setleaffn data), memctxt⟩
    else ⟨0, m, memctxt⟩

end SuperGlue.Source.Ert.Trie
