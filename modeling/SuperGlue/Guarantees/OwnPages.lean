import SuperGlue.Source.Kernel.Mmap

/-!
# Pages for the memory manager itself

A frame that the kernel refuses goes back to the front of the free list, which is where `__page_get` takes the next
one: it tries the same frame again. That does not matter with the kernel below it. What the kernel answers for the
frames of the manager depends on the page table at the address, not on the frame.
-/
namespace SuperGlue.Guarantees.OwnPages
open List Source.MemMgr.Frames Source.MemMgr.Mappings Source.Kernel.Mmap

variable {c : Config} {s : State PhysMem} {f : Nat} {l : List Nat}

/-- What the kernel answers to a grant of the frame at the next heap page. -/
def granting (c : Config) (s : State PhysMem) (f : Nat) : Int := ((kernelOps c).grant s.kern mappingRW mmSpd s.heap f).2

/-- `__page_get` returns with a frame of the list that can be granted, and the others stay free. -/
def Returns (c : Config) (s : State PhysMem) (l : List Nat) : Prop :=
  ∃ tries s' f rest, pageGet (kernelOps c) tries s = some s' ∧ f ∈ l ∧ granting c s f = 0 ∧
    s'.table.frames f = ⟨-1, .addr s.heap⟩ ∧ FreeList s'.table rest ∧ ∀ g ∈ l, g ≠ f → g ∈ rest

/-- A frame that is put back is the first one again. -/
theorem deref_alloc {t : FrameTable} (free : FreeList t (f :: l)) :
    frameDeref ({ t with freelist := (t.frames f).c }.set f ⟨0, .null⟩) f = t := by
  have head : t.freelist = .free f := free.chain.1
  have same : (⟨0, (t.frames f).c⟩ : Frame) = t.frames f := by rw [← (free.valid f mem_cons_self).2]
  simp [frameDeref, derefCount, FrameTable.set, same, ← head]

/-- The kernel would map a page of the manager at the address. -/
def Open (c : Config) (k : PhysMem) (hp : VAddr) : Prop :=
  Accepted c mmSpd hp ∧ k.pgtbl mmSpd (pageIdx hp) = .empty

variable {k : PhysMem} {hp : VAddr}

section
variable (inside : f < c.pfnExtent)
include inside

/-- The page table decides, unless the kernel does not know the address at all. -/
theorem grant_own (k : PhysMem) (hp : VAddr) : Accepted c mmSpd hp ∧
      (kernelOps c).grant k mappingRW mmSpd hp f = chalPgtblAdd k mmSpd hp (f + c.pfnBase) ∨
    ¬ Accepted c mmSpd hp ∧ ∃ e : Int, e ≠ 0 ∧ e ≠ -1 ∧ (kernelOps c).grant k mappingRW mmSpd hp f = (k, e) := by
  rcases grant_cases (c := c) k hp f (show 1 < 256 by decide) (show mmSpd < 65536 by decide) with
    ⟨e, nonzero, other, answer, unknown⟩ | ⟨accepted, -, answer⟩
  · exact .inr ⟨fun accepted => unknown ⟨accepted, inside⟩, e, nonzero, other, answer⟩
  · exact .inl ⟨accepted, answer⟩

theorem granting_iff : granting c s f = 0 ↔ Open c s.kern s.heap := by
  unfold granting Open
  rcases grant_own inside s.kern s.heap with ⟨accepted, answer⟩ | ⟨unknown, e, nonzero, -, answer⟩
  · rw [answer, chalPgtblAdd]
    split <;> simp [*]
  · simp [answer, nonzero, unknown]

theorem setRoot_own (accepted : Accepted c mmSpd hp) : ((kernelOps c).setRoot k mappingRW mmSpd hp f).2 = 0 := by
  have op : opOf (opFlagsDspd 3 mappingRW mmSpd) = 3 :=
    (unpack_small 3 (by decide) (show 1 < 256 by decide) (c.small accepted.spd)).1
  have dest : destSpd c (opFlagsDspd 3 mappingRW mmSpd) hp = some mmSpd :=
    destSpd_accepted accepted (show 3 < 128 by decide) (show 1 < 256 by decide)
  have range : ¬ c.pfnBase + c.pfnExtent ≤ f + c.pfnBase := by omega
  simp [kernelOps, mmapCntl, op, dest, range]

variable (free : FreeList s.table (f :: l))
include free

/-- The loop does not return with a page that the kernel does not map: it puts the frame back and takes it again. -/
theorem grantOwn_closed (closed : ¬ Open c s.kern hp) (tries : Nat) : grantOwn (kernelOps c) hp tries s = none := by
  induction tries with
  | zero => rfl
  | succ tries ih =>
    obtain ⟨nil, -⟩ | ⟨_, _, ⟨⟩, -, popped, -⟩ := frameAlloc_freeList free
    · contradiction
    rcases grant_own inside s.kern hp with ⟨accepted, answer⟩ | ⟨unknown, e, nonzero, other, answer⟩
    · have full : s.kern.pgtbl mmSpd (pageIdx hp) ≠ .empty := fun empty => closed ⟨accepted, empty⟩
      simp only [grantOwn, popped, answer, chalPgtblAdd, if_neg full, if_true, deref_alloc free]
      exact ih
    · have unrooted : ((kernelOps c).setRoot s.kern mappingRW mmSpd hp f).2 ≠ 0 := fun rooted =>
        unknown (setRoot_stores (show 1 < 256 by decide) (show mmSpd < 65536 by decide) (Prod.ext rfl rooted)).1
      simp [grantOwn, popped, answer, other, unrooted]

/-- The first frame is as good as any. -/
theorem returns_of_open (heap : s.heap ≠ 0) (isOpen : Open c s.kern s.heap) : Returns c s (f :: l) := by
  obtain ⟨nil, -⟩ | ⟨_, _, ⟨⟩, -, popped, left⟩ := frameAlloc_freeList free
  · contradiction
  have granted := (granting_iff inside).mpr isOpen
  have off := (nodup_cons.mp (freeList_nodup free)).1
  have accepted : ((kernelOps c).grant s.kern mappingRW mmSpd s.heap f).2 ≠ -1 := by
    change granting c s f ≠ -1
    rw [granted]
    decide
  have run : pageGet (kernelOps c) 1 s = some ?_ := by
    simp only [pageGet, if_neg heap, grantOwn, popped]
    rw [if_neg accepted, if_neg (not_not.mpr (setRoot_own inside isOpen.1))]
  refine ⟨1, _, f, l, run, mem_cons_self, granted, if_pos rfl, freeList_set left off _, ?_⟩
  intro g member other
  exact (mem_cons.mp member).resolve_left other

end

/-- One component, the manager, and two frames. -/
def manager : Config where
  spds := fun d => d == mmSpd
  layout := fun _ => some mmSpd
  pfnBase := 5
  pfnExtent := 2
  spdsBound := by simp [mmSpd, maxNumSpds]
  pfnBound := by decide

/-- Frames 1 and 0 are free, and no page is mapped. -/
def twoFree : State PhysMem :=
  { init pageSize ⟨fun _ _ => .empty, fun _ => noRoot⟩ with
    table := ⟨fun i => ⟨0, if i = 1 then .free 0 else .null⟩, .free 1⟩ }

end SuperGlue.Guarantees.OwnPages
