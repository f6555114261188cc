import Mathlib

/-!
# The growing id map

`include/cos_vect.h` and `include/cos_map.h`. A vector has one array of slots, or an array of pointers to
such arrays. The slot `2 * i` of a map's vector has the value of the id `i` and the slot `2 * i + 1` the next
id on the free list. Arrays are named by numbers, 0 is NULL, and ids are not negative.

`none` is a failed assertion or `BUG()`. The results of `COS_VECT_ALLOC` are arguments.
-/
namespace SuperGlue.Source.CosMap.Map
open Function

/-- `COS_VECT_BASE`. -/
def vectBase : Nat := 1024

/-- `COS_MAP_BASE`. -/
def mapBase : Nat := vectBase / 2

/-- `cos_vect_t`, with the memory that it is in. `deep` if the depth is 2. -/
structure Vect where
  deep : Bool
  vect : Nat
  val : Nat → Nat → Int

variable (v : Vect)

/-- `__cos_vect_lookup`: the array and the index in it. -/
def Vect.lookup (id : Nat) : Option (Nat × Nat) :=
  if v.deep then
    if vectBase ≤ id / vectBase ∨ v.val v.vect (id / vectBase) = 0 then none
    else some ((v.val v.vect (id / vectBase)).toNat, id % vectBase)
  else if vectBase ≤ id then none
  else some (v.vect, id)

/-- `is->val = x`. -/
def Vect.write (is : Nat × Nat) (x : Int) : Vect :=
  { v with val := update v.val is.1 (update (v.val is.1) is.2 x) }

/-- `__cos_vect_set`; `none` stands for the result -1, on which every caller stops. -/
def Vect.set (id : Nat) (x : Int) : Option Vect := (v.lookup id).map fun is => v.write is x

/-- The first part of `__cos_vect_expand`: a new root. -/
def Vect.promote (is : Nat) : Vect :=
  ⟨true, is, update v.val is fun i => if i = 0 then v.vect else 0⟩

/-- A new array of slots below the root. -/
def Vect.attach (t is : Nat) : Vect :=
  { v with val := update v.val is fun _ => 0 }.write (v.vect, t) is

/-- The second part of `__cos_vect_expand`. The Boolean is whether it succeeds. -/
def Vect.extend (id : Nat) (leaf : Option Nat) : Option (Vect × Bool) :=
  if v.deep = false then none
  else match leaf with
    | none => some (v, false)
    | some is =>
      if v.val v.vect (id / vectBase % vectBase) ≠ 0 then none
      else some (v.attach (id / vectBase % vectBase) is, true)

/-- `__cos_vect_expand`. -/
def Vect.expand (id : Nat) (root leaf : Option Nat) : Option (Vect × Bool) :=
  if vectBase ^ (if v.deep then 2 else 1) ≤ id then
    if v.deep then some (v, false)
    else match root with
      | none => some (v, false)
      | some is => (v.promote is).extend id leaf
  else v.extend id leaf

/-- `cos_vect_add_id`, of a value that is not NULL. -/
def Vect.addId (val : Int) (id : Nat) (root leaf : Option Nat) : Option (Vect × Bool) :=
  match v.lookup id with
  | some is => some (v.write is val, true)
  | none => (v.expand id root leaf).bind fun (v, grown) =>
    if grown then (v.set id val).map fun v => (v, true) else some (v, false)

/-- `cos_map_t`. -/
structure CosMapT where
  data : Vect
  freeList : Int
  idBoundary : Nat

/-- The loops that put `n` new ids on the free list. -/
def linkFree (v : Vect) (lower : Nat) : Nat → Option Vect
  | 0 => some v
  | n + 1 => (v.set (2 * lower + 1) (lower + 1)).bind fun v => linkFree v (lower + 1) n

/-- The loop and the store after it, which ends the list. -/
def newFree (lower : Nat) : Option Vect :=
  (linkFree v lower mapBase).bind fun v => v.set (2 * (lower + mapBase - 1) + 1) (-1)

/-- `cos_map_init`. -/
def cosMapInit (vect : Nat) : Option CosMapT :=
  (newFree ⟨false, vect, fun _ _ => 0⟩ 0).map fun data => ⟨data, 0, mapBase⟩

variable (m : CosMapT)

def cosMapLookup (mid : Nat) : Int :=
  match m.data.lookup (2 * mid) with
  | none => 0
  | some is => m.data.val is.1 is.2

/-- The end of `cos_map_add`: the id at the head of the free list is taken. -/
def takeFree (free : Nat) (val : Int) : Option (CosMapT × Int) :=
  (m.data.lookup (2 * free)).map fun is =>
    let data := m.data.write is val
    (⟨data.write (is.1, is.2 + 1) (-1), data.val is.1 (is.2 + 1), m.idBoundary⟩, (free : Int))

/-- `cos_map_add`. A NULL value does not make the vector grow. -/
def cosMapAdd (val : Int) (root leaf : Option Nat) : Option (CosMapT × Int) :=
  if m.freeList = -1 then
    (if val = 0 then some (m.data, true) else m.data.addId val (2 * m.idBoundary) root leaf).bind
      fun (data, grown) =>
        if grown then
          (newFree data m.idBoundary).bind fun data =>
            takeFree ⟨data, m.freeList, m.idBoundary + mapBase⟩ m.idBoundary val
        else some ({ m with data := data }, -1)
  else takeFree m m.freeList.toNat val

def cosMapDel (mid : Nat) : Option (CosMapT × Int) :=
  match m.data.lookup (2 * mid) with
  | none => some (m, -1)
  | some is =>
    let data := m.data.write is 0
    (data.lookup (2 * mid + 1)).map fun is => (⟨data.write is m.freeList, mid, m.idBoundary⟩, 0)

end SuperGlue.Source.CosMap.Map
