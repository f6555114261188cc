import SuperGlue.Source.Valloc.Bits

/-!
# The allocator of virtual addresses

`valloc/simple/__valloc_rec`: the address space of a component is handed out in pages from up to eight
extents. The first one is the page directory entry that the heap pointer of the component is in, the others
come from the manager of address spaces. Each has a bitmap of its pages, in which a one is a free page.

Each function runs under the lock of the component, so it is one step; a failed assertion is `none`. The slots
of `extents` in use are the first ones, so they are a list.
-/
namespace SuperGlue.Source.Valloc.Server
open Function Bits

abbrev SpdId := Nat

def pageSize : Nat := 2 ^ 12
def pgdSize : Nat := 2 ^ 22
def mapMax : Nat := pageSize / wordBytes
def maxSpdVasLocations : Nat := 8

/-- `EXTENT_SIZE`. -/
def extentSize : Nat := 32 * 1024 * 1024 / pageSize

/-- `struct vas_extent`, with the bitmap it points to. -/
structure Extent where
  start : Nat
  stop : Nat
  map : Bitmap

/-- The size of an extent in pages. -/
def Extent.pages (e : Extent) : Nat := (e.stop - e.start) / pageSize

/-- `struct requestor_vaddr_tracker`. -/
structure Requestor where
  vaddr : Nat
  requestor : SpdId
  dest : SpdId
  deriving DecidableEq, Repr

structure State where
  /-- `spd_vect`, with the extents of each tracker. -/
  spds : SpdId → Option (List Extent)
  /-- `requestor_vect`. -/
  requestors : Nat → Option Requestor

def init : State := ⟨fun _ => none, fun _ => none⟩

/-! ## `__valloc_init` -/

def roundToPgdPage (x : Nat) : Nat := x / pgdSize * pgdSize

def roundUpToPgdPage (x : Nat) : Nat := roundToPgdPage (x + pgdSize - 1)

/-- The extent of the heap: everything from the heap pointer on is free. -/
def heapExtent (hp : Nat) : Extent :=
  let pageOff := (hp - roundToPgdPage hp) / pageSize
  ⟨roundToPgdPage hp, roundUpToPgdPage hp, bitmapSetContig Bitmap.empty pageOff (pgdSize / pageSize - pageOff) true⟩

variable (s : State)

/-- The extents of a component. If there is no tracker yet, `heap` is the heap pointer read from its
information page, or `none` if something fails on the way to it. -/
def vallocInit (dest : SpdId) (heap : Option Nat) : Option (List Extent) :=
  match s.spds dest with
  | some extents => some extents
  | none => heap.map fun hp => [heapExtent hp]

/-! ## `valloc_alloc` -/

/-- The search through the extents in use. -/
def findExtent (npages : Nat) : List Extent → Option (List Extent × Nat)
  | [] => none
  | e :: rest =>
    match bitmapExtentFindSet e.map npages mapMax with
    | some (map, off) => some ({ e with map := map } :: rest, e.start + off * pageSize)
    | none => (findExtent npages rest).map fun (rest, ret) => (e :: rest, ret)

/-- `ext_size` when the loop comes to a slot that is not in use: the size of the extent before. -/
def nextSize (extents : List Extent) (npages : Nat) : Nat :=
  if extentSize < npages then npages else (extents.getLast?.map Extent.pages).getD 0

/-- A new extent at the address that `vas_mgr_expand` returned, with the region taken from its start. -/
def newExtent (start size npages : Nat) : Extent :=
  ⟨start, start + size * pageSize, bitmapSetContig (bitmapSetContig Bitmap.empty 0 size true) 0 npages false⟩

def requestorId (addr : Nat) : Nat := addr / pageSize % 2 ^ 16

/-- Which component requests the address; an entry that is there already is kept. -/
def track (spdid dest : SpdId) (ret : Nat) : State :=
  if (s.requestors (requestorId ret)).isSome then s
  else { s with requestors := update s.requestors (requestorId ret) (some ⟨ret, spdid, dest⟩) }

def State.setExtents (dest : SpdId) (extents : List Extent) : State :=
  { s with spds := update s.spds dest (some extents) }

/-- `valloc_alloc`, with 0 for NULL; `expanded` is what `vas_mgr_expand` returns if it is called. -/
def vallocAlloc (spdid dest : SpdId) (npages : Nat) (heap : Option Nat) (expanded : Nat) : State × Nat :=
  match vallocInit s dest heap with
  | none => (s, 0)
  | some extents =>
    if mapMax * wordBytes < npages then (s.setExtents dest extents, 0)
    else
      match findExtent npages extents with
      | some (extents, ret) => (track (s.setExtents dest extents) spdid dest ret, ret)
      | none =>
        if extents.length < maxSpdVasLocations then
          let e := newExtent expanded (nextSize extents npages) npages
          (track (s.setExtents dest (extents ++ [e])) spdid dest e.start, e.start)
        else (s.setExtents dest extents, 0)

/-! ## `valloc_free` -/

/-- The end of an extent counts as part of it. -/
def Extent.covers (e : Extent) (addr : Nat) : Bool := decide (e.start ≤ addr ∧ addr ≤ e.stop)

/-- The pages are free again in the first extent that covers the address. -/
def freeIn (addr : Nat) (npages : Nat) : List Extent → Option (List Extent)
  | [] => some []
  | e :: rest =>
    if e.covers addr then
      let off := (addr - e.start) / pageSize
      let last := (off + npages) % 2 ^ 32
      if last < mapMax * wordBytes then
        some ({ e with map := bitmapSetContig e.map off (last - off) true } :: rest)
      else none
    else (freeIn addr npages rest).map (e :: ·)

def untrack (addr : Nat) : State :=
  { s with requestors := update s.requestors (requestorId addr) none }

/-- A slot that is not in use covers the address 0. -/
def vallocFree (dest : SpdId) (addr : Nat) (npages : Nat) : Option (State × Int) :=
  match s.spds dest with
  | none => some (s, -1)
  | some extents =>
    if extents.any (·.covers addr) then
      (freeIn addr npages extents).map fun extents => (untrack (s.setExtents dest extents) addr, 0)
    else if addr = 0 ∧ extents.length < maxSpdVasLocations then none
    else some (s, -1)

end SuperGlue.Source.Valloc.Server
