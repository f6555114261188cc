import SuperGlue.Lib.LinkedWords
import SuperGlue.Lib.Transition

/-!
# Physical frames of the memory manager

`struct frame`, the array `frames` and the free list of
`components/implementation/mem_mgr/naive/__mem_man_rec`. The union `c` of a frame is one word: the
next free frame, the root mapping, or the manager's own address, and nothing tags which. Reading it
as a free-list pointer when it is something else yields a wild pointer; using a wild pointer, or
one past the array, is a fault.
-/
namespace SuperGlue.Source.MemMgr.Frames
open List Function Lib.LinkedWords

/-- `COS_MAX_MEMORY`. -/
def cosMaxMemory : Nat := 128 * 1024

/-- The contents of `union c`, or of the `freelist` variable. -/
inductive FrameWord where
  | null
  | free (i : Nat)
  | mapping (m : Nat)
  | addr (a : Nat)
  deriving DecidableEq, Repr

structure Frame where
  nmaps : Int
  c : FrameWord
  deriving DecidableEq, Repr

structure FrameTable where
  frames : Nat → Frame
  freelist : FrameWord

inductive Fault where
  | wildPointer | assertion
  deriving DecidableEq, Repr

variable (t : FrameTable)

def FrameTable.set (i : Nat) (f : Frame) : FrameTable :=
  { t with frames := update t.frames i f }

def frameInit : FrameTable where
  frames := fun i => ⟨0, if i + 1 < cosMaxMemory then .free (i + 1) else .null⟩
  freelist := .free 0

/-- `frame_alloc`: `none` is the `NULL` of an empty free list. -/
def frameAlloc : Except Fault (Option Nat × FrameTable) :=
  match t.freelist with
  | .null => .ok (none, t)
  | .free i =>
    if i < cosMaxMemory then
      .ok (some i, { t with freelist := (t.frames i).c }.set i ⟨0, .null⟩)
    else .error .wildPointer
  | _ => .error .wildPointer

/-- `frame_alloc_index`, with its assertion on the index of the list head. -/
def frameAllocIndex (idx : Nat) : Except Fault (Option Nat × FrameTable) :=
  match t.freelist with
  | .null => .ok (none, t)
  | .free head =>
    if idx < head then .error .assertion
    else if head = idx then frameAlloc t
    else
      .ok (some idx, (t.set (idx - 1) { t.frames (idx - 1) with c := .free (idx + 1) }).set idx ⟨0, .null⟩)
  | _ => .error .wildPointer

def frameRef (i : Nat) : FrameTable :=
  t.set i { t.frames i with nmaps := (t.frames i).nmaps + 1 }

/-- `if (f->nmaps > 0) f->nmaps--`. -/
def derefCount (nmaps : Int) : Int :=
  if 0 < nmaps then nmaps - 1 else nmaps

def frameDeref (i : Nat) : FrameTable :=
  if derefCount (t.frames i).nmaps = 0 then
    { t.set i ⟨0, t.freelist⟩ with freelist := .free i }
  else t.set i { t.frames i with nmaps := derefCount (t.frames i).nmaps }

/-- `f->c.m = m` of `__mman_get_page`. -/
def setRoot (i m : Nat) : FrameTable :=
  t.set i { t.frames i with c := .mapping m }

/-- `f->nmaps = -1; f->c.addr = hp` of `__page_get`. -/
def ownPage (i hp : Nat) : FrameTable :=
  t.set i ⟨-1, .addr hp⟩

/-! ## The free list as a list -/

def freeEncoding : Encoding Nat FrameWord where
  ptr := .free
  nil := .null
  ptr_inj := fun a b h => by simpa using h
  ptr_ne_nil := fun a h => by simp at h

/-- The free list is `l`: it ends, and its frames are in the array with no mapping. -/
structure FreeList (t : FrameTable) (l : List Nat) : Prop where
  chain : Chain freeEncoding (fun i => (t.frames i).c) t.freelist l
  valid : ∀ i ∈ l, i < cosMaxMemory ∧ (t.frames i).nmaps = 0

theorem set_frames (i j : Nat) (f : Frame) : (t.set i f).frames j = if j = i then f else t.frames j := by
  simp [FrameTable.set, update_apply]

theorem set_words (i : Nat) (f : Frame) :
    (fun j => ((t.set i f).frames j).c) = update (fun j => (t.frames j).c) i f.c := by
  funext j
  by_cases h : j = i <;> simp [set_frames, h]

variable {t : FrameTable} {l : List Nat}

theorem freeList_nodup (h : FreeList t l) : l.Nodup :=
  chain_nodup h.chain

variable {i : Nat} {t' : FrameTable}

/-- Writing a frame that is not on the free list leaves the list alone. -/
theorem freeList_set (h : FreeList t l) (off : i ∉ l) (f : Frame) : FreeList (t.set i f) l := by
  refine ⟨?_, ?_⟩
  · rw [set_words]
    exact chain_update_off h.chain off f.c
  intro j mem
  rw [set_frames, if_neg (ne_of_mem_of_not_mem mem off)]
  exact h.valid j mem

/-- `frame_alloc` pops the free list. -/
theorem frameAlloc_freeList (h : FreeList t l) :
    (l = [] ∧ frameAlloc t = .ok (none, t)) ∨
      ∃ i rest, l = i :: rest ∧ i < cosMaxMemory ∧
        frameAlloc t = .ok (some i, { t with freelist := (t.frames i).c }.set i ⟨0, .null⟩) ∧
        FreeList ({ t with freelist := (t.frames i).c }.set i ⟨0, .null⟩) rest := by
  cases l with
  | nil =>
    have empty : t.freelist = .null := h.chain
    exact .inl ⟨rfl, by rw [frameAlloc, empty]⟩
  | cons i rest =>
    obtain ⟨head, tail⟩ := h.chain
    have head : t.freelist = .free i := head
    obtain ⟨bound, _⟩ := h.valid i mem_cons_self
    have off : i ∉ rest := (nodup_cons.mp (freeList_nodup h)).1
    refine .inr ⟨i, rest, rfl, bound, ?_, ?_⟩
    · rw [frameAlloc, head]
      simp [bound]
    · apply freeList_set _ off
      exact ⟨tail, fun j mem => h.valid j (mem_cons_of_mem i mem)⟩

theorem frameAlloc_none (h : frameAlloc t = .ok (none, t')) : t' = t := by
  unfold frameAlloc at h
  split at h
  · simpa using h.symm
  · split at h <;> simp at h
  · simp at h

/-- `frame_alloc` writes the frame that it hands out only. -/
theorem frameAlloc_frames {j : Nat} (h : frameAlloc t = .ok (some i, t'))
    (other : j ≠ i) : t'.frames j = t.frames j := by
  unfold frameAlloc at h
  split at h
  · simp at h
  · split at h
    · obtain ⟨rfl, rfl⟩ := h
      simp [set_frames, other]
    · simp at h
  · simp at h

theorem frameDeref_frames {j : Nat} (other : j ≠ i) : (frameDeref t i).frames j = t.frames j := by
  unfold frameDeref
  split <;> simp [set_frames, other]

/-- `frame_deref` of a frame in use either keeps it in use or pushes it on the free list. -/
theorem frameDeref_freeList (h : FreeList t l) (off : i ∉ l) (bound : i < cosMaxMemory) :
    ((frameDeref t i).frames i).nmaps = 0 ∧ FreeList (frameDeref t i) (i :: l) ∨
      ((frameDeref t i).frames i).nmaps ≠ 0 ∧ FreeList (frameDeref t i) l := by
  unfold frameDeref
  split
  next zero =>
    refine .inl ⟨by simp [FrameTable.set], ?_, ?_⟩
    · simp only [set_words]
      exact chain_push h.chain off
    intro j mem
    rcases mem_cons.mp mem with rfl | later
    · exact ⟨bound, by simp [FrameTable.set]⟩
    · have other := ne_of_mem_of_not_mem later off
      simpa [set_frames, other] using h.valid j later
  next nonzero =>
    exact .inr ⟨by simpa [set_frames] using nonzero, freeList_set h off _⟩

/-- `frame_alloc_index` unlinks `idx` when `idx - 1`, `idx` and `idx + 1` stand in this order on the
free list, since the word it stores is then the one it should copy. -/
theorem frameAllocIndex_freeList {front back : List Nat} {head idx : Nat}
    (h : FreeList t (front ++ (idx - 1) :: idx :: (idx + 1) :: back)) (first : t.freelist = .free head)
    (after : head < idx) : ∃ t', frameAllocIndex t idx = .ok (some idx, t') ∧
      FreeList t' (front ++ (idx - 1) :: (idx + 1) :: back) ∧
      ∀ j, j ≠ idx → j ≠ idx - 1 → t'.frames j = t.frames j := by
  have next : (t.frames idx).c = .free (idx + 1) := by
    obtain ⟨middle, _, _, rest⟩ := chain_append h.chain
    exact rest.1
  have spliced := chain_splice h.chain
  rw [show (t.frames idx).c = _ from next] at spliced
  have off := nodup_spliced (freeList_nodup h)
  refine ⟨_, ?_, freeList_set (f := ⟨0, .null⟩)
    (t := t.set (idx - 1) { t.frames (idx - 1) with c := .free (idx + 1) }) ⟨?_, ?_⟩ off, ?_⟩
  · simp [frameAllocIndex, first, Nat.not_lt.mpr (Nat.le_of_lt after), Nat.ne_of_lt after]
  · rw [set_words]
    exact spliced
  · intro j mem
    have old : j ∈ front ++ (idx - 1) :: idx :: (idx + 1) :: back := by
      simp only [mem_append, mem_cons] at mem ⊢
      tauto
    have valid := h.valid j old
    rw [set_frames]
    split
    next eq => subst eq; exact valid
    · exact valid
  · intro j other before
    simp [set_frames, other, before]

theorem frameInit_chain (n k : Nat) (last : k + n = cosMaxMemory) : Chain freeEncoding (fun i => (frameInit.frames i).c)
      (if k < cosMaxMemory then .free k else .null) (range' k n) := by
  induction n generalizing k with
  | zero =>
    have past : ¬ k < cosMaxMemory := by omega
    simp only [past]
    rfl
  | succ n ih =>
    have inside : k < cosMaxMemory := by omega
    simp only [inside]
    exact ⟨rfl, ih (k + 1) (by omega)⟩

/-- After `frame_init` every frame is on the free list, in order. -/
theorem frameInit_freeList : FreeList frameInit (range cosMaxMemory) := by
  refine ⟨?_, ?_⟩
  · rw [range_eq_range']
    exact frameInit_chain cosMaxMemory 0 (by omega)
  · intro i mem
    exact ⟨mem_range.mp mem, rfl⟩

end SuperGlue.Source.MemMgr.Frames
