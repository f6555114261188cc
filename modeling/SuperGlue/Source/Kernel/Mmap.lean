import SuperGlue.Source.MemMgr.Mappings

/-!
# Memory mapping and root pages in the kernel

`kernel/__inv_rec` (`cos_syscall_mmap_cntl`, `cos_syscall_mmap_introspect`) and `kernel/__mmap_rec`
(the root information kept for every frame), as the memory manager, component 3, calls them. The
system calls get their operation, flags and component packed into one word, which the kernel takes
apart again.

A page-table entry only says which frame of `cos_pages` it maps; the read/write bit is not kept. The
checks of `virtual_namespace_query` and `spd_get_by_index` are one partial map from addresses to the
component that owns them.
-/
namespace SuperGlue.Source.Kernel.Mmap
open Nat Function MemMgr.Frames MemMgr.Mappings

/-! ## The packed argument -/

/-- Conversion to `short int`. -/
def short (x : Int) : Int := (x + 32768) % 65536 - 32768

/-- The bits of an `int`. -/
def word32 (x : Int) : Nat := (x % 4294967296).toNat

/-- `(op<<24) | (flags << 16) | (dest_spd)` of `cos_mmap_cntl` and `cos_mmap_introspect`. -/
def opFlagsDspd (op flags dspd : Int) : Nat :=
  word32 (short op * 16777216) ||| word32 (short flags * 65536) ||| word32 (short dspd)

/-- `op_flags_dspd>>24`, an arithmetic shift of a signed word. -/
def opOf (w : Nat) : Int := ((w + 2147483648) % 4294967296 - 2147483648 : Int) / 16777216

def flagsOf (w : Nat) : Nat := w / 65536 % 256

def dspdOf (w : Nat) : Int := short (w % 65536 : Nat)

/-! ## State -/

/-- A page-table entry: its table is missing, it is not present, it maps the frame `cap` of
`cos_pages`, or it maps a page from elsewhere. -/
inductive Pte where
  | missing
  | empty
  | cos (cap : Nat)
  | other
  deriving DecidableEq, Repr

/-- The `rt_spdid`, `rt_vaddr` and `flags` of a `struct cos_page`. -/
structure RootInfo where
  spdid : Nat
  vaddr : VAddr
  flags : Nat
  deriving DecidableEq, Repr

def noRoot : RootInfo := ⟨0, 0, 0⟩

structure PhysMem where
  pgtbl : SpdId → Nat → Pte
  cosPages : Nat → RootInfo

/-- `MAX_NUM_SPDS`. -/
def maxNumSpds : Nat := 64

/-- What does not change: the components, the owner of each address, and the frames given to the
manager. -/
structure Config where
  spds : SpdId → Bool
  /-- `virtual_spd_layout`. -/
  layout : Nat → Option SpdId
  pfnBase : Nat
  pfnExtent : Nat
  spdsBound : ∀ d, spds d = true → d < maxNumSpds
  pfnBound : pfnBase + pfnExtent ≤ cosMaxMemory

variable (c : Config)

/-- `virtual_namespace_query`: the layout is in regions of 1024 pages. -/
def Config.owner (addr : VAddr) : Option SpdId := c.layout (addr / 4194304)

def enoent : Int := -2

/-- The component that the packed argument names, if it exists and owns the address. -/
def destSpd (w : Nat) (daddr : VAddr) : Option SpdId :=
  (c.owner daddr).filter fun d => c.spds d && (d : Int) == dspdOf w

/-- `cos_paddr_to_cap` of the page mapped by an entry, if one is present. -/
def Pte.cap : Pte → Option Nat
  | .cos cap => some cap
  | .other => some 0
  | _ => none

variable (k : PhysMem)

def setPte (d : SpdId) (daddr : VAddr) (pte : Pte) : PhysMem :=
  { k with
    pgtbl := update k.pgtbl d (update (k.pgtbl d) (pageIdx daddr) pte) }

/-- `chal_pgtbl_add`. -/
def chalPgtblAdd (d : SpdId) (daddr : VAddr) (cap : Nat) : PhysMem × Int :=
  if k.pgtbl d (pageIdx daddr) = .empty then (setPte k d daddr (.cos cap), 0) else (k, -1)

/-- `cos_is_rootpage`, for a frame number that may lie outside the array. -/
def cosIsRootpage (d : SpdId) (daddr : VAddr) (frame : Int) (flags : Nat) : Bool :=
  0 ≤ frame && k.cosPages frame.toNat == ⟨d, daddr, flags⟩

def setInfo (frame : Nat) (info : RootInfo) : PhysMem :=
  { k with cosPages := update k.cosPages frame info }

/-! ## The system calls -/

/-- `COS_MMAP_REVOKE`. -/
def mmapRevoke (d : SpdId) (daddr : VAddr) (flags : Nat) : PhysMem × Int :=
  match (k.pgtbl d (pageIdx daddr)).cap with
  | none => (k, 0)
  | some cap =>
    let ret : Int := cap - c.pfnBase
    let k := setPte k d daddr .empty
    if cosIsRootpage k d daddr ret flags then (setInfo k ret.toNat noRoot, ret) else (k, ret)

def mmapCntl (w : Nat) (daddr : VAddr) (memId : Nat) : PhysMem × Int :=
  match destSpd c w daddr with
  | none => (k, enoent)
  | some d =>
    if opOf w = 0 then -- COS_MMAP_GRANT
      if c.pfnBase + c.pfnExtent ≤ memId + c.pfnBase then (k, einval)
      else chalPgtblAdd k d daddr (memId + c.pfnBase)
    else if opOf w = 1 then -- COS_MMAP_REVOKE
      mmapRevoke c k d daddr (flagsOf w)
    else if opOf w = 2 then -- COS_MMAP_SETRW
      (k, if (k.pgtbl d (pageIdx daddr)).cap.isSome ∧ flagsOf w ≤ 1 then 0 else -1)
    else if opOf w = 3 then -- COS_MMAP_SETROOT
      if c.pfnBase + c.pfnExtent ≤ memId + c.pfnBase then (k, einval)
      else (setInfo k memId ⟨d, daddr, flagsOf w⟩, 0)
    else if opOf w = 4 then -- COS_MMAP_TLBFLUSH
      (k, 0)
    else (k, -1)

/-- `COS_MMAP_INTROSPECT_ROOTPAGE`. -/
def introspectRootpage (d : SpdId) (daddr : VAddr) (flags : Nat) : Int :=
  match (k.pgtbl d (pageIdx daddr)).cap with
  | none => einval
  | some cap => if cosIsRootpage k d daddr (cap - c.pfnBase) flags then 1 else 0

/-- `cos_syscall_mmap_introspect`, except for `COS_MMAP_RESET_MM_FRAME`. The base is added to the
frame number before the operation is looked at, and once more for an address or flags. -/
def mmapIntrospect (w : Nat) (daddr : VAddr) (memId : Nat) : Int :=
  let spd := if 0 < dspdOf w ∧ c.spds (dspdOf w).toNat then some (dspdOf w).toNat else none
  let memId := memId + c.pfnBase
  if c.pfnBase + c.pfnExtent ≤ memId then einval
  else if opOf w = 0 then -- COS_MMAP_INTROSPECT_ADDR
    (k.cosPages (memId + c.pfnBase)).vaddr
  else if opOf w = 1 then -- COS_MMAP_INTROSPECT_SPD
    if (List.range (cosMaxMemory - 1)).any fun i =>
      memId ≤ i ∧ (k.cosPages i).spdid ≠ 0 ∧ ((k.cosPages i).spdid : Int) = dspdOf w then 1 else 0
  else if opOf w = 2 then -- COS_MMAP_INTROSPECT_FLAGS
    (k.cosPages (memId + c.pfnBase)).flags
  else if opOf w = 3 then -- COS_MMAP_INTROSPECT_ROOTPAGE
    match spd with
    | none => einval
    | some d => introspectRootpage c k d daddr (flagsOf w)
  else if opOf w = 5 then -- COS_MMAP_INTROSPECT_FRAME
    match spd.bind fun d => (k.pgtbl d (pageIdx daddr)).cap with
    | none => einval
    | some cap => cap - c.pfnBase
  else -1

/-- `COS_MMAP_RESET_MM_FRAME` for one frame number: the pages of the manager itself are unmapped and
forgotten. -/
def resetFrame (i : Nat) : Option PhysMem :=
  if (k.cosPages i).spdid = mmSpd ∧ (k.cosPages i).vaddr ≠ 0 then
    let daddr := (k.cosPages i).vaddr
    if (k.pgtbl mmSpd (pageIdx daddr)).cap.isSome then
      some (setInfo (setPte k mmSpd daddr .empty) i noRoot)
    else none
  else some k

/-- The loop over the frames below `n`; `none` is the error answer, which the manager asserts not to
get when it reboots. -/
def resetMmFrame (k : PhysMem) : Nat → Option PhysMem
  | 0 => some k
  | n + 1 => (resetMmFrame k n).bind fun k => resetFrame k n

/-- The kernel as the manager calls it. -/
def kernelOps : KernelOps PhysMem where
  grant := fun k flags d daddr f => mmapCntl c k (opFlagsDspd 0 flags d) daddr f
  revoke := fun k d daddr => mmapCntl c k (opFlagsDspd 1 0 d) daddr 0
  setRoot := fun k flags d daddr f => mmapCntl c k (opFlagsDspd 3 flags d) daddr f
  introspectRoot := fun k flags d daddr => mmapIntrospect c k (opFlagsDspd 3 flags d) daddr 0

/-! ## Packing and unpacking -/

variable {flags dspd : Nat}

theorem opFlagsDspd_small {op : Nat} (opBound : op < 128) (flagsBound : flags < 256) (dspdBound : dspd < 32768) :
    opFlagsDspd op flags dspd = op * 16777216 + flags * 65536 + dspd := by
  have shortOp : short op = op := by unfold short; omega
  have shortFlags : short flags = flags := by unfold short; omega
  have shortDspd : short dspd = dspd := by unfold short; omega
  have first : word32 ((op : Int) * 16777216) = 2 ^ 24 * op := by unfold word32; omega
  have second : word32 ((flags : Int) * 65536) = flags * 65536 := by unfold word32; omega
  have third : word32 (dspd : Int) = dspd := by unfold word32; omega
  rw [opFlagsDspd, shortOp, shortFlags, shortDspd, first, second, ← two_pow_add_eq_or_of_lt (by omega)]
  have grouped : 2 ^ 24 * op + flags * 65536 = 2 ^ 16 * (256 * op + flags) := by omega
  rw [grouped, ← two_pow_add_eq_or_of_lt (by omega)]
  omega

/-- Small arguments arrive as they were sent. -/
theorem unpack_small (op : Nat) (opBound : op < 128) (flagsBound : flags < 256) (dspdBound : dspd < 32768) :
    opOf (opFlagsDspd op flags dspd) = op ∧ flagsOf (opFlagsDspd op flags dspd) = flags ∧
      dspdOf (opFlagsDspd op flags dspd) = dspd := by
  rw [opFlagsDspd_small opBound flagsBound dspdBound]
  refine ⟨?_, ?_, ?_⟩
  · unfold opOf
    omega
  · unfold flagsOf
    omega
  · unfold dspdOf short
    omega

/-- The component arrives as a `short int`, whatever the flags are. -/
theorem dspdOf_pack (op flags : Int) (bound : dspd < 65536) : dspdOf (opFlagsDspd op flags dspd) = short dspd := by
  have first : word32 (short op * 16777216) % 65536 = 0 := by unfold word32; omega
  have second : word32 (short flags * 65536) % 65536 = 0 := by unfold word32; omega
  have third : word32 (short dspd) % 65536 = dspd := by unfold word32 short; omega
  have low : opFlagsDspd op flags dspd % 2 ^ 16 = dspd := by
    rw [opFlagsDspd, or_mod_two_pow, or_mod_two_pow]
    simp [first, second, third]
  have low : opFlagsDspd op flags dspd % 65536 = dspd := low
  rw [dspdOf, low]

/-! ## What the calls do -/

variable {c : Config} {k k' : PhysMem} {d : SpdId} {daddr : VAddr} {f : Nat}

theorem setPte_pgtbl (k : PhysMem) (d : SpdId) (daddr : VAddr) (pte : Pte) (d' : SpdId) (i : Nat) :
    (setPte k d daddr pte).pgtbl d' i = if d' = d ∧ i = pageIdx daddr then pte else k.pgtbl d' i := by
  by_cases eq : d' = d
  · subst eq
    by_cases page : i = pageIdx daddr <;> simp [setPte, page]
  · simp [setPte, eq]

theorem short_natCast {a b : Nat} (bound : b < 65536) (same : (a : Int) = short b) : a = b ∧ b < 32768 := by
  unfold short at same
  omega

/-- A page has one owner. -/
theorem owner_page {addr : VAddr} (page : pageIdx addr = pageIdx daddr) : c.owner addr = c.owner daddr := by
  unfold pageIdx pageSize at page
  unfold Config.owner
  congr 1
  omega

/-- The kernel accepts the address only for the component that owns it. -/
theorem destSpd_some {op flags : Int} {d' : SpdId} (bound : d < 65536)
    (h : destSpd c (opFlagsDspd op flags d) daddr = some d') :
    d' = d ∧ d < 32768 ∧ c.owner daddr = some d ∧ c.spds d := by
  simp only [destSpd, Option.filter_eq_some_iff, Bool.and_eq_true, beq_iff_eq, dspdOf_pack op flags bound] at h
  obtain ⟨owner, exists_, same⟩ := h
  obtain ⟨rfl, small⟩ := short_natCast bound same
  exact ⟨rfl, small, owner, exists_⟩

theorem Config.small (c : Config) (spd : c.spds d) : d < 32768 :=
  (c.spdsBound d spd).trans (by decide)

/-- The address belongs to the component. -/
structure Accepted (c : Config) (d : SpdId) (daddr : VAddr) : Prop where
  owner : c.owner daddr = some d
  spd : c.spds d = true

theorem destSpd_accepted (accepted : Accepted c d daddr) {op : Nat} (opBound : op < 128)
    (fits : flags < 256) : destSpd c (opFlagsDspd op flags d) daddr = some d := by
  have dspd := (unpack_small op opBound fits (c.small accepted.spd)).2.2
  simp [destSpd, accepted.owner, accepted.spd, dspd]

/-- A grant with flags that fit: refused as a whole, or left to the page table. -/
theorem grant_cases (k : PhysMem) (daddr : VAddr) (f : Nat) (fits : flags < 256) (bound : d < 65536) :
    (∃ e : Int, e ≠ 0 ∧ e ≠ -1 ∧ (kernelOps c).grant k flags d daddr f = (k, e) ∧
      ¬ (Accepted c d daddr ∧ f < c.pfnExtent)) ∨ Accepted c d daddr ∧ f < c.pfnExtent ∧
      (kernelOps c).grant k flags d daddr f = chalPgtblAdd k d daddr (f + c.pfnBase) := by
  simp only [kernelOps, mmapCntl]
  cases dest : destSpd c (opFlagsDspd 0 flags d) daddr with
  | none =>
    refine .inl ⟨enoent, by decide, by decide, rfl, ?_⟩
    rintro ⟨accepted, _⟩
    have found := destSpd_accepted accepted (show 0 < 128 by decide) fits
    simp [dest] at found
  | some d' =>
    obtain ⟨rfl, small, owner, exists_⟩ := destSpd_some bound dest
    have op : opOf (opFlagsDspd 0 flags d') = 0 := (unpack_small 0 (by decide) fits small).1
    simp only [op, if_true]
    by_cases inside : f < c.pfnExtent
    · exact .inr ⟨⟨owner, exists_⟩, inside, if_neg (by omega)⟩
    · exact .inl ⟨einval, by decide, by decide, if_pos (by omega), fun both => inside both.2⟩

/-- A successful `COS_MMAP_SETROOT` stores the record of the frame. -/
theorem setRoot_stores (fits : flags < 256) (bound : d < 65536) (h : (kernelOps c).setRoot k flags d daddr f = (k', 0))
    : Accepted c d daddr ∧ f < c.pfnExtent ∧ k' = setInfo k f ⟨d, daddr, flags⟩ := by
  simp only [kernelOps, mmapCntl] at h
  cases dest : destSpd c (opFlagsDspd 3 flags d) daddr with
  | none => simp [dest, enoent] at h
  | some d' =>
    obtain ⟨rfl, small, owner, exists_⟩ := destSpd_some bound dest
    have op : opOf (opFlagsDspd 3 flags d') = 3 := (unpack_small 3 (by decide) fits small).1
    have flagsEq : flagsOf (opFlagsDspd 3 flags d') = flags := (unpack_small 3 (by decide) fits small).2.1
    simp only [dest, op, flagsEq, Int.reduceEq, if_false, if_true] at h
    split at h
    · simp [einval] at h
    next inside =>
      refine ⟨⟨owner, exists_⟩, by omega, ?_⟩
      simpa using h.symm

/-- Revoking a page that maps frame `f` of the manager. -/
theorem revoke_clears (accepted : Accepted c d daddr) (mapped : k.pgtbl d (pageIdx daddr) = .cos (f + c.pfnBase)) :
    (kernelOps c).revoke k d daddr = (if k.cosPages f = ⟨d, daddr, 0⟩ then setInfo (setPte k d daddr .empty) f noRoot
       else setPte k d daddr .empty, (f : Int)) := by
  have op : opOf (opFlagsDspd 1 0 d) = 1 := (unpack_small 1 (by decide) (by decide) (c.small accepted.spd)).1
  have flags : flagsOf (opFlagsDspd 1 0 d) = 0 := (unpack_small 1 (by decide) (by decide) (c.small accepted.spd)).2.1
  have dest : destSpd c (opFlagsDspd 1 0 d) daddr = some d :=
    destSpd_accepted accepted (show 1 < 128 by decide) (by decide)
  have frame : ((f + c.pfnBase : Nat) : Int) - c.pfnBase = f := by omega
  have root : cosIsRootpage (setPte k d daddr .empty) d daddr f 0 ↔ k.cosPages f = ⟨d, daddr, 0⟩ := by
    simp [cosIsRootpage, setPte]
  simp only [kernelOps, mmapCntl, dest, op, flags, mmapRevoke, mapped, Pte.cap, frame, root, Int.reduceEq, if_false,
    if_true]
  split <;> rfl

/-- Introspection by address, for a component that exists. -/
theorem introspectRoot_iff (fits : flags < 256) (pos : 0 < d) (spd : c.spds d) :
    (kernelOps c).introspectRoot k flags d daddr = 1 ↔ 0 < c.pfnExtent ∧
      ∃ cap, (k.pgtbl d (pageIdx daddr)).cap = some cap ∧ c.pfnBase ≤ cap ∧
        k.cosPages (cap - c.pfnBase) = ⟨d, daddr, flags⟩ := by
  have op : opOf (opFlagsDspd 3 flags d) = 3 := (unpack_small 3 (by decide) fits (c.small spd)).1
  have flagsEq : flagsOf (opFlagsDspd 3 flags d) = flags := (unpack_small 3 (by decide) fits (c.small spd)).2.1
  have dspd : dspdOf (opFlagsDspd 3 flags d) = d := (unpack_small 3 (by decide) fits (c.small spd)).2.2
  have pos := Int.natCast_pos.mpr pos
  have range : c.pfnBase + c.pfnExtent ≤ 0 + c.pfnBase ↔ ¬ 0 < c.pfnExtent := by omega
  simp only [kernelOps, mmapIntrospect, op, flagsEq, dspd, pos, Int.toNat_natCast, spd, range, and_self,
    if_true, introspectRootpage]
  by_cases inside : 0 < c.pfnExtent
  · cases (k.pgtbl d (pageIdx daddr)).cap with
    | none => simp [einval]
    | some cap =>
      have frame : ((cap : Int) - c.pfnBase).toNat = cap - c.pfnBase := by omega
      simp [cosIsRootpage, frame, inside]
  · simp [inside, einval]

end SuperGlue.Source.Kernel.Mmap
