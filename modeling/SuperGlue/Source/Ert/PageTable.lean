import SuperGlue.Source.Ert.Trie

/-!
# The page table

`include/pgtbl.h`: a trie of two levels with entries as the hardware has them, a frame number and flags in one
word. Physical addresses are modelled by the source itself, as the complement of virtual ones. A failed
assertion is `none`, and so is an access to the page at address 0.
-/
namespace SuperGlue.Source.Ert.PageTable
open Lib.RadixTrie Trie

abbrev Word := BitVec 32

/-- `PGTBL_PRESENT`. -/
def present : Word := 1
/-- `PGTBL_COSFRAME`. -/
def cosframe : Word := 1 <<< 9
/-- `PGTBL_INTERN_DEF`. -/
def internDef : Word := 0x67
/-- `PGTBL_FLAG_MASK`. -/
def flagMask : Word := 0xfff
/-- `PGTBL_FRAME_MASK`. -/
def frameMask : Word := ~~~flagMask

def chalPa2va (p : Word) : Word := ~~~p &&& frameMask
def chalVa2pa (v : Word) : Word := ~~~v &&& frameMask

/-- `__pgtbl_get`. -/
def pgtblGet (e : Word) : Word := chalPa2va (e &&& frameMask)

/-- `__pgtbl_isnull`. -/
def pgtblIsnull (e : Word) : Bool := e &&& (present ||| cosframe) == 0

/-- `__pgtbl_set` above the leaves. -/
def pgtblSet (v : Word) : Word := chalVa2pa (v &&& frameMask) ||| internDef

/-- `__pgtbl_setleaf`. -/
def pgtblSetleaf (v : Word) : Word := chalVa2pa (v &&& frameMask) ||| v &&& flagMask

/-- The page that `memctxt` points to is used once, and is 0 for NULL. -/
def pgtblConsts : Consts Word Word Word Word Word where
  depth := 2
  order := 10
  lastOrder := 10
  initval := 0
  initfn e isleaf := if isleaf then e else 0
  getfn := pgtblGet
  accumfn e _ := e &&& flagMask
  isnullfn := pgtblIsnull
  setfn := pgtblSet
  allocfn page _ := if page = 0 then (none, page) else (some page, 0)
  setleaffn := pgtblSetleaf

/-- `pgtbl_t` and the memory of the pages. -/
structure Pgtbl where
  mem : Memory Word Word
  pt : Word

def einval : Int := 22
def eexist : Int := 17
def enoent : Int := 2

/-- `addr >> PGTBL_PAGEIDX_SHIFT`. -/
def pageIdx (addr : Word) : Nat := (addr >>> 12).toNat

def pgtblAlloc (m : Memory Word Word) (page : Word) : Option (Option Pgtbl) :=
  (ertAlloc pgtblConsts m page).map fun result => result.map fun (m, pt) => ⟨m, pt⟩

variable (s : Pgtbl)

def pgtblInitPte (pte : Word) : Pgtbl :=
  { s with mem := Function.update s.mem pte fun i => if i < 2 ^ pgtblConsts.order then 0 else s.mem pte i }

def pgtblInternExpand (addr pte flags : Word) : Option (Pgtbl × Int) :=
  if flagMask &&& pte = 0 ∧ frameMask &&& flags = 0 then
    if pte = 0 then some (s, -einval)
    else
      let r := ertExpand pgtblConsts s.mem s.pt (pageIdx addr) pgtblConsts.depth flags pte 0
      let s := { s with mem := r.mem }
      if r.ret = 0 ∧ r.memctxt ≠ 0 then some (s, -eexist)
      else if r.ret ≠ 0 ∧ r.memctxt = 0 then none
      else some (s, r.ret)
  else none

/-- The page that is cut off, or 0 for NULL. -/
def pgtblInternPrune (addr : Word) : Option (Pgtbl × Word) :=
  if flagMask &&& addr = 0 then
    match (ertLookup pgtblConsts s.mem s.pt (pageIdx addr) 1 0).1 with
    | none => some (s, 0)
    | some pgd => some ({ s with mem := pgd.write s.mem (pgtblSet 0) }, pgtblGet (pgd.read s.mem))
  else none

/-- The entry of the address is in the page at address 0, and so an access to it is a fault. -/
def faults (addr : Word) : Bool :=
  match (ertLookup pgtblConsts s.mem s.pt (pageIdx addr) pgtblConsts.depth 0).1 with
  | some (.slot p _) => p == 0
  | _ => false

/-- `__pgtbl_expandn` with `PGTBL_DEPTH + 1` and no memory. -/
def expandLeaf (addr data : Word) : Option (Pgtbl × Int) :=
  if faults s addr then none
  else
    let r := ertExpand pgtblConsts s.mem s.pt (pageIdx addr) (pgtblConsts.depth + 1) 0 0 data
    some ({ s with mem := r.mem }, r.ret)

def pgtblMappingAdd (addr page flags : Word) : Option (Pgtbl × Int) :=
  if flagMask &&& addr = 0 ∧ flagMask &&& page = 0 ∧ frameMask &&& flags = 0 then
    expandLeaf s addr (page ||| flags)
  else none

def pgtblMappingDel (addr : Word) : Option (Pgtbl × Int) :=
  if flagMask &&& addr = 0 then expandLeaf s addr 0 else none

/-- The page and the flags, which are what `flags` points to afterwards. -/
def pgtblTranslate (addr flags : Word) : Option (Word × Word) :=
  match ertLookup pgtblConsts s.mem s.pt (pageIdx addr) (pgtblConsts.depth + 1) flags with
  | (some (.slot p i), accum) =>
    -- `__pgtbl_getleaf` tests for a NULL pointer to the entry
    if p = 0 then if i = 0 then some (0, accum) else none
    else some (pgtblGet (s.mem p i), s.mem p i &&& flagMask)
  | (_, accum) => some (0, accum)

/-- The result is with what `prevflags` points to. A page that is mapped comes to `__pgtbl_set` with `isleaf`,
which asserts the contrary. -/
def pgtblMappingMod (addr flags : Word) : Option (Pgtbl × Word × Int) :=
  if flagMask &&& addr = 0 ∧ frameMask &&& flags = 0 then
    match pgtblTranslate s addr 0 with
    | none => none
    | some (page, prevflags) => if page = 0 then some (s, prevflags, -enoent) else none
  else none

end SuperGlue.Source.Ert.PageTable
