import SuperGlue.Lib.Ring
import SuperGlue.Source.Valloc.Bits

/-!
# The slab allocator

`include/cslab.h`: objects of one size in pages, with a header at the start of each page. The header has a bitmap
of the objects that are free, their number, and the links of the list of slabs with free objects. Pages come from
`CSLAB_ALLOC`, whose answer is a parameter, and go back with `CSLAB_FREE`. A failed assertion is `none`.

`obj_sz` of the header is never read. The links of pages that are no slabs are not read before they are set.
-/
namespace SuperGlue.Source.Slab.Allocator
open Function Lib.Ring Valloc.Bits

/-- `CSLAB_MEM_ALLOC_SZ`. -/
def pageSize : Nat := 4096
/-- `CSLAB_FIRST_OFF`. -/
def firstOff : Nat := 64
/-- `CSLAB_BITMAP_SIZE`. -/
def bitmapSize : Nat := 4
/-- `sizeof(struct cslab)`. -/
def headerSize : Nat := 28

/-- `round_up_to_pow2(size, WORD_SIZE)`. -/
def objSize (size : Nat) : Nat := (size + wordSize - 1) / wordSize * wordSize

/-- `slab_##name##_max_objs`. -/
def slabMaxObjs (size : Nat) : Nat := (pageSize - firstOff) / objSize size

/-- `struct cslab` without its links. -/
structure Cslab where
  nfree : Nat
  bitmap : Bitmap

/-- The list of slabs with free objects, and the headers by the addresses of their pages. -/
structure Freelist where
  list : Option Nat
  slab : Nat → Cslab
  links : Links Nat

/-- `__cslab_lookup`. -/
def cslabLookup (buf : Nat) : Nat := buf / pageSize * pageSize

/-- `__cslab_mem_first`. -/
def cslabMemFirst (s : Nat) : Nat := s + firstOff

variable (fl : Freelist)

/-- `__slab_freelist_rem`. -/
def slabFreelistRem (s : Nat) : Freelist :=
  let list := if fl.list = some s then if fl.links.next s = s then none else some (fl.links.next s) else fl.list
  { fl with list := list, links := fl.links.rem s }

/-- `__slab_freelist_add`. -/
def slabFreelistAdd (s : Nat) : Option Freelist :=
  if fl.links.next s = s ∧ fl.list ≠ some s then
    some { fl with
      list := some s
      links := match fl.list with
        | some head => fl.links.add head s
        | none => fl.links }
  else none

/-- `__cslab_mem_free`, and the page that goes back. -/
def cslabMemFree (buf : Nat) (fl : Freelist) (objSz maxObjs : Nat) : Option (Freelist × Option Nat) :=
  let s := cslabLookup buf
  if buf < cslabMemFirst s then none
  else
    let idx := (buf - cslabMemFirst s) / objSz
    if idx < maxObjs ∧ bitmapCheck (fl.slab s).bitmap idx = false then
      let nfree := (fl.slab s).nfree + 1
      let fl := { fl with slab := update fl.slab s ⟨nfree, bitmapSet (fl.slab s).bitmap idx⟩ }
      if nfree = maxObjs then some (slabFreelistRem fl s, some s)
      else if nfree = 1 then (slabFreelistAdd fl s).map fun fl => (fl, none)
      else some (fl, none)
    else none

/-- `__cslab_init`. -/
def cslabInit (s : Nat) (fl : Freelist) (maxObjs : Nat) : Option Freelist :=
  slabFreelistAdd { fl with
    slab := update fl.slab s ⟨maxObjs, fun _ => BitVec.allOnes 32⟩
    links := fl.links.init s } s

/-- The second half of `__cslab_mem_alloc`. -/
def cslabTake (s objSz maxObjs : Nat) : Option (Freelist × Option Nat) :=
  match bitmapOne (fl.slab s).bitmap bitmapSize with
  | none => none
  | some idx =>
    if idx < maxObjs ∧ (fl.slab s).nfree ≠ 0 then
      let mem := cslabMemFirst s + idx * objSz
      let nfree := (fl.slab s).nfree - 1
      let fl := { fl with slab := update fl.slab s ⟨nfree, bitmapUnset (fl.slab s).bitmap idx⟩ }
      some (if nfree = 0 then slabFreelistRem fl s else fl, some mem)
    else none

/-- `__cslab_mem_alloc`. -/
def cslabMemAlloc (objSz maxObjs : Nat) (answer : Option Nat) : Option (Freelist × Option Nat) :=
  match fl.list with
  | some s => cslabTake fl s objSz maxObjs
  | none =>
    match answer with
    | none => some (fl, none)
    | some s => (cslabInit s fl maxObjs).bind fun fl => cslabTake fl s objSz maxObjs

/-- `cslab_alloc_##name`. -/
def cslabAlloc (size : Nat) (fl : Freelist) (answer : Option Nat) : Option (Freelist × Option Nat) :=
  cslabMemAlloc fl (objSize size) (slabMaxObjs size) answer

/-- `cslab_free_##name`. -/
def cslabFree (size : Nat) (fl : Freelist) (buf : Nat) : Option (Freelist × Option Nat) :=
  cslabMemFree buf fl (objSize size) (slabMaxObjs size)

end SuperGlue.Source.Slab.Allocator
