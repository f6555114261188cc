import SuperGlue.Source.Ert.Trie

/-!
# The capability table

`include/captbl.h`: a trie of two levels whose leaves are arrays of slots of 16 bytes, four of them in a cache
line. The first slot of a line has the header that says which slots of the line are in use and how large the
capabilities in it are. Nodes are aligned, so what masking an address yields is given by the index of its slot.
A failed assertion is `none`, and the compare-and-swap of a header always succeeds: calls are not concurrent.
-/
namespace SuperGlue.Source.Ert.CapabilityTable
open Lib.RadixTrie Trie

/-- `cap_t`. -/
inductive Cap where
  | free | sinv | sret | asnd | arcv | thd | captbl | pgtbl
  deriving DecidableEq, Repr

/-- `cap_sz_t`. -/
inductive CapSz where
  | b16 | b32 | b64 | err
  deriving DecidableEq, Repr

def CapSz.val : CapSz → Nat
  | .b16 => 0
  | .b32 => 1
  | .b64 => 2
  | .err => 3

/-- `__captbl_cap2sz`. -/
def cap2sz : Cap → CapSz
  | .thd | .sret => .b16
  | .sinv | .asnd | .arcv => .b32
  | _ => .err

/-- `struct cap_header`. -/
structure CapHeader where
  amap : BitVec 4
  size : CapSz
  flags : BitVec 3
  type : Cap
  deriving DecidableEq, Repr

/-- `CAP_FLAG_RO`. -/
def capFlagRo : BitVec 3 := 1

def eperm : Int := 1
def enoent : Int := 2
def eexist : Int := 17
def einval : Int := 22

/-- A pointer in the root, 0 for NULL, or a slot of a leaf. -/
inductive Entry where
  | ptr (p : Nat)
  | cap (h : CapHeader)
  deriving DecidableEq, Repr

/-- The memory that `memctxt` points to is used once. -/
def captblConsts : Consts Nat Entry Unit (Option Nat) Unit where
  depth := 2
  order := 9
  lastOrder := 7
  initval := ()
  initfn e isleaf := if isleaf then e else .ptr 0
  getfn
    | .ptr p => p
    | .cap _ => 0
  accumfn _ accum := accum
  isnullfn
    | .ptr p => p == 0
    | .cap _ => false
  setfn v := .ptr v
  allocfn mem _ := (mem, none)
  setleaffn _ := .ptr 0

structure Captbl where
  mem : Memory Nat Entry
  t : Entry

def captblMaxid : Nat := ertMaxid captblConsts

def emptyHeader : CapHeader := ⟨0, .b64, 0, .free⟩

variable (s : Captbl)

/-- `captbl_init` of a leaf. -/
def captblInit (node : Nat) : Captbl :=
  { s with mem := Function.update s.mem node fun i =>
      if i < 2 ^ captblConsts.lastOrder then .cap emptyHeader else s.mem node i }

variable (m : Memory Nat Entry)

def captblAlloc (mem : Option Nat) : Option (Option Captbl) :=
  (ertAlloc captblConsts m mem).map fun result => result.map fun (m, t) => ⟨m, t⟩

/-- The header in a slot. -/
def header (p i : Nat) : CapHeader :=
  match m p i with
  | .cap h => h
  | .ptr _ => emptyHeader

/-- The first slot of the cache line. -/
def line (i : Nat) : Nat := i / 4 * 4

/-- `CT_MSK(a, size + CAP_SZ_OFF)`. -/
def mask (size : CapSz) (i : Nat) : Nat := i / 2 ^ size.val * 2 ^ size.val

/-- `__captbl_getleaf`: the slot where the capability starts that covers this one. -/
def captblGetleaf (p i : Nat) : Option (Nat × Nat) :=
  let h := header m p (line i)
  let c := mask h.size i
  if h.amap.getLsbD (c - line i) then some (p, c) else none

/-- `__captbl_lkupan` with the depth of the trie. -/
def captblSlot (cap : Nat) : Option (Nat × Nat) :=
  match (ertLookup captblConsts s.mem s.t cap captblConsts.depth ()).1 with
  | some (.slot p i) => some (p, i)
  | _ => none

def captblLkup (cap : Nat) : Option (Nat × Nat) :=
  if captblMaxid ≤ cap then none
  else
    match (ertLookup captblConsts s.mem s.t cap (captblConsts.depth + 1) ()).1 with
    | some (.slot p i) => captblGetleaf s.mem p i
    | _ => none

/-- `__captbl_header_validate`. -/
def headerValidate (h : CapHeader) (sz : CapSz) : Bool :=
  let mask : BitVec 4 :=
    match sz with
    | .b16 => 0b1111
    | .b32 => 0b0101
    | .b64 => 0b0001
    | .err => 0
  sz ≠ h.size || h.amap &&& ~~~mask != 0

/-- The slot that is added, or `none` for NULL, and the error. -/
def captblAdd (cap : Nat) (type : Cap) : Option (Captbl × Option (Nat × Nat) × Int) :=
  let sz := cap2sz type
  if sz = .err then some (s, none, -einval)
  else if captblMaxid ≤ cap then some (s, none, -einval)
  else
    match captblSlot s cap with
    | none => some (s, none, -eperm)
    | some (p, i) =>
      let l := header s.mem p (line i)
      if l.flags &&& capFlagRo ≠ 0 then some (s, none, -eperm)
      else
        let off := i - line i
        if l.amap.getLsbD off then some (s, none, -eexist)
        else if (l.amap ≠ 0 ∧ l.size ≠ sz) ∨ l.size.val < sz.val then some (s, none, -eexist)
        else
          let l := { l with amap := l.amap ||| BitVec.twoPow 4 off, size := sz }
          if headerValidate l sz then some (s, none, -einval)
          else
            let l := if i = line i then { l with type := type } else l
            let m := write s.mem p (line i) (.cap l)
            let m := if i ≠ line i then write m p i (.cap { header m p i with type := type }) else m
            let s := { s with mem := m }
            if captblLkup s cap = some (p, i) then some (s, some (p, i), 0) else none

def captblDel (cap : Nat) : Captbl × Int :=
  if captblMaxid ≤ cap then (s, -einval)
  else
    match captblSlot s cap with
    | none => (s, -eperm)
    | some (p, i) =>
      if captblGetleaf s.mem p i ≠ some (p, i) then (s, -einval)
      else
        let l := header s.mem p (line i)
        let off := i - line i
        if l.flags &&& capFlagRo ≠ 0 then (s, -eperm)
        else if !l.amap.getLsbD off then (s, -enoent)
        else
          let amap := l.amap &&& ~~~BitVec.twoPow 4 off
          let l := { l with amap := amap, size := if amap = 0 then .b64 else l.size }
          ({ s with mem := write s.mem p (line i) (.cap l) }, 0)

/-- `none` also if `depth = 0`: then the loop of `__ert_expand` has no end and runs past the leaves. -/
def captblExpand (cap depth : Nat) (memctxt : Option Nat) : Option (Captbl × Int) :=
  if captblMaxid < cap ∨ captblConsts.depth < depth then some (s, -einval)
  else if cap < captblMaxid ∧ 1 ≤ depth then
    let r := ertExpand captblConsts s.mem s.t cap depth () memctxt ()
    let s := { s with mem := r.mem }
    if r.memctxt.isSome then some (s, -eexist)
    else if r.ret ≠ 0 then some (s, 1)
    else some (s, 0)
  else none

end SuperGlue.Source.Ert.CapabilityTable
