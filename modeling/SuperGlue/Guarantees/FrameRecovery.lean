import SuperGlue.Source.MemMgr.Frames

/-!
# Re-acquiring frames after a reboot of the memory manager

Starting from `frame_init`, frames are handed out by `frame_alloc` and, for pages that survived the
reboot, by `frame_alloc_index`. A frame is in use from the call that hands it out to the
`frame_deref` that puts it back on the free list; in between only its holder writes its record.

`frame_alloc_index` removes `idx` from the middle of the list by storing `&frames[idx + 1]` in
`frames[idx - 1]`. That is the right store only while the three frames are neighbours on the list.
-/
namespace SuperGlue.Guarantees.FrameRecovery
open Option List Function Lib.Transition Lib.LinkedWords Source.MemMgr.Frames

structure Recovery where
  table : FrameTable
  inUse : Nat → Bool

inductive FrameOp where
  | alloc
  | allocIndex (idx : Nat)
  | ref (i : Nat)
  | root (i m : Nat)
  | own (i hp : Nat)
  | deref (i : Nat)
  deriving DecidableEq, Repr

def Recovery.handOut (s : Recovery) : Except Fault (Option Nat × FrameTable) → Option Recovery
  | .ok (some i, t) => some { table := t, inUse := update s.inUse i true }
  | .ok (none, t) => some { s with table := t }
  | .error _ => none

/-- `frame_alloc_index` is given an index in range; the other calls on a frame are by its holder. -/
def recoveryStep (s : Recovery) : FrameOp → Option Recovery
  | .alloc => s.handOut (frameAlloc s.table)
  | .allocIndex idx =>
    if idx < cosMaxMemory then s.handOut (frameAllocIndex s.table idx) else none
  | .ref i => if s.inUse i then some { s with table := frameRef s.table i } else none
  | .root i m => if s.inUse i then some { s with table := setRoot s.table i m } else none
  | .own i hp => if s.inUse i then some { s with table := ownPage s.table i hp } else none
  | .deref i =>
    if s.inUse i then
      let t := frameDeref s.table i
      some { table := t, inUse := update s.inUse i (decide ((t.frames i).nmaps ≠ 0)) }
    else none

def recoverySystem : System Recovery FrameOp :=
  ⟨{ table := frameInit, inUse := fun _ => false }, recoveryStep⟩

/-- The frame that a call hands out. -/
def handedOut (s : Recovery) : FrameOp → Option Nat
  | .alloc => (frameAlloc s.table).toOption.bind Prod.fst
  | .allocIndex idx => (frameAllocIndex s.table idx).toOption.bind Prod.fst
  | _ => none

/-- Every frame on the free list is unused, and the list ends. -/
def FreeUnused (s : Recovery) : Prop :=
  ∃ l, FreeList s.table l ∧ ∀ i ∈ l, s.inUse i = false

/-- A call that hands out a frame behaves: it does not fault or fail the assertion on the list
head, the frame was unused, and re-acquiring it changes no record of a frame in use. -/
def CallSound (s : Recovery) : FrameOp → Prop
  | .alloc => ∃ s', recoveryStep s .alloc = some s' ∧
      ∀ i, handedOut s .alloc = some i → s.inUse i = false
  | .allocIndex idx => idx < cosMaxMemory → ∃ s', recoveryStep s (.allocIndex idx) = some s' ∧
      (∀ i, handedOut s (.allocIndex idx) = some i → s.inUse i = false) ∧
      ∀ j, s.inUse j = true → s'.table.frames j = s.table.frames j
  | _ => True

/-- The guard on `frame_alloc_index`: `idx` is the head of the free list, or the head is below it
and `idx - 1`, `idx` and `idx + 1` stand next to each other on the list. -/
def InOrder (s : Recovery) : FrameOp → Prop
  | .allocIndex idx => ∀ head, s.table.freelist = .free head →
      head = idx ∨ head < idx ∧ ∃ front back, FreeList s.table (front ++ (idx - 1) :: idx :: (idx + 1) :: back)
  | _ => True

variable {s : Recovery} {i : Nat} {op : FrameOp}

/-- Handing out a frame that is off the new free list. -/
theorem freeUnused_handOut {t : FrameTable} {l : List Nat} (free : FreeList t l) (off : i ∉ l)
    (unused : ∀ j ∈ l, s.inUse j = false) : FreeUnused { table := t, inUse := update s.inUse i true } := by
  refine ⟨l, free, ?_⟩
  intro j mem
  have other := ne_of_mem_of_not_mem mem off
  simpa [other] using unused j mem

/-- What `frame_alloc` does, head of the list or not. -/
theorem alloc_sound (h : FreeUnused s) : (frameAlloc s.table = .ok (none, s.table)) ∨
      ∃ i t, frameAlloc s.table = .ok (some i, t) ∧ i < cosMaxMemory ∧ s.inUse i = false ∧
        s.table.freelist = .free i ∧ (∀ j, j ≠ i → t.frames j = s.table.frames j) ∧
        FreeUnused { table := t, inUse := update s.inUse i true } := by
  obtain ⟨l, free, unused⟩ := h
  rcases frameAlloc_freeList free with ⟨_, empty⟩ | ⟨i, rest, rfl, bound, popped, free'⟩
  · exact .inl empty
  · have off : i ∉ rest := (nodup_cons.mp (freeList_nodup free)).1
    refine .inr ⟨i, _, popped, bound, unused i mem_cons_self, free.chain.1, ?_, ?_⟩
    · intro j other
      simp [set_frames, other]
    · exact freeUnused_handOut free' off fun j mem => unused j (mem_cons_of_mem i mem)

/-- What `frame_alloc_index` does when it is called in order. -/
theorem allocIndex_sound (h : FreeUnused s) {idx : Nat} (order : InOrder s (.allocIndex idx)) :
    (frameAllocIndex s.table idx = .ok (none, s.table)) ∨
      ∃ t, frameAllocIndex s.table idx = .ok (some idx, t) ∧ s.inUse idx = false ∧
        (∀ j, s.inUse j → t.frames j = s.table.frames j) ∧
        FreeUnused { table := t, inUse := update s.inUse idx true } := by
  obtain ⟨l, free, unused⟩ := id h
  cases l with
  | nil =>
    have empty : s.table.freelist = .null := free.chain
    exact .inl (by rw [frameAllocIndex, empty])
  | cons head =>
    have first : s.table.freelist = .free head := free.chain.1
    rcases order head first with rfl | ⟨after, front, back, neighbours⟩
    · have same : frameAllocIndex s.table head = frameAlloc s.table := by
        simp [frameAllocIndex, first]
      rcases alloc_sound h with empty | ⟨i, t, popped, _, unusedI, firstI, others, free'⟩
      · exact .inl (by rw [same, empty])
      have eq : head = i := by
        rw [first] at firstI
        simpa using firstI
      subst eq
      refine .inr ⟨t, by rw [same, popped], unusedI, ?_, free'⟩
      intro j used
      apply others
      rintro rfl
      simp [unusedI] at used
    · obtain ⟨t, taken, free', others⟩ := frameAllocIndex_freeList neighbours first after
      have list := chain_unique free.chain neighbours.chain
      have unused' : ∀ j ∈ front ++ (idx - 1) :: idx :: (idx + 1) :: back, s.inUse j = false := by
        rw [← list]
        exact unused
      have unusedIdx := unused' idx (by simp)
      refine .inr ⟨t, taken, unusedIdx, ?_, freeUnused_handOut free' ?_ ?_⟩
      · intro j used
        apply others
        · rintro rfl
          simp [unusedIdx] at used
        · rintro rfl
          simp [unused' (idx - 1) (by simp)] at used
      · exact nodup_spliced (freeList_nodup neighbours)
      · intro j mem
        apply unused'
        simp only [mem_append, mem_cons] at mem ⊢
        tauto

structure RecoveryInv (s : Recovery) : Prop where
  free : FreeUnused s
  bounded : ∀ i, s.inUse i = true → i < cosMaxMemory

variable (inv : RecoveryInv s)
include inv

theorem bounded_update (bound : i < cosMaxMemory)
    (b : Bool) : ∀ j, update s.inUse i b j → j < cosMaxMemory := by
  intro j used
  by_cases eq : j = i
  · rw [eq]
    exact bound
  · rw [update_of_ne eq] at used
    exact inv.bounded j used

theorem recoveryInv_deref (used : s.inUse i) :
    FreeUnused { table := frameDeref s.table i
                 inUse := update s.inUse i (decide (((frameDeref s.table i).frames i).nmaps ≠ 0)) } := by
  obtain ⟨l, free, unused⟩ := inv.free
  have off : i ∉ l := by
    intro mem
    simp [unused i mem] at used
  rcases frameDeref_freeList free off (inv.bounded i used) with ⟨zero, pushed⟩ | ⟨nonzero, kept⟩
  · refine ⟨i :: l, pushed, ?_⟩
    intro j mem
    by_cases eq : j = i
    · simp [eq, zero]
    · simpa [eq] using unused j (by simpa [eq] using mem)
  · refine ⟨l, kept, ?_⟩
    intro j mem
    have eq := ne_of_mem_of_not_mem mem off
    simpa [eq] using unused j mem

theorem recoveryInv_step {s' : Recovery}
    (order : InOrder s op) (step : recoveryStep s op = some s') : RecoveryInv s' := by
  cases op with
  | alloc =>
    rcases alloc_sound inv.free with empty | ⟨i, t, popped, bound, _, _, _, free⟩
    · rw [recoveryStep, empty] at step
      cases step
      exact inv
    · rw [recoveryStep, popped] at step
      cases step
      exact ⟨free, bounded_update inv bound true⟩
  | allocIndex =>
    simp only [recoveryStep, ite_none_right_eq_some] at step
    rcases allocIndex_sound inv.free order with empty | ⟨t, taken, _, _, free⟩
    · rw [empty] at step
      cases step.2
      exact inv
    · rw [taken] at step
      cases step.2
      exact ⟨free, bounded_update inv step.1 true⟩
  | ref i | root i m | own i hp =>
    simp only [recoveryStep, ite_none_right_eq_some, some.injEq] at step
    obtain ⟨used, rfl⟩ := step
    obtain ⟨l, free, unused⟩ := inv.free
    have off : i ∉ l := by
      intro mem
      simp [unused i mem] at used
    exact ⟨⟨l, freeList_set free off _, unused⟩, inv.bounded⟩
  | deref i =>
    simp only [recoveryStep, ite_none_right_eq_some, some.injEq] at step
    obtain ⟨used, rfl⟩ := step
    exact ⟨recoveryInv_deref inv used, bounded_update inv (inv.bounded i used) _⟩

omit inv in
theorem recoveryInv_reachable (reached : Reachable recoverySystem InOrder s) : RecoveryInv s := by
  refine reached.invariant RecoveryInv ⟨⟨_, frameInit_freeList, ?_⟩, ?_⟩ ?_
  · intro i _
    rfl
  · intro i used
    simp [recoverySystem] at used
  · intro s op s' inv order step
    exact recoveryInv_step inv order step

theorem callSound_of_inv (order : InOrder s op) : CallSound s op := by
  cases op with
  | alloc =>
    rcases alloc_sound inv.free with empty | ⟨i, t, popped, _, unused, _⟩
    · simp [CallSound, recoveryStep, handedOut, Recovery.handOut, empty, Except.toOption]
    · simp [CallSound, recoveryStep, handedOut, Recovery.handOut, popped, Except.toOption, unused]
  | allocIndex idx =>
    intro bound
    rcases allocIndex_sound inv.free order with empty | ⟨t, taken, unused, others, _⟩
    · refine ⟨s, ?_, ?_, fun _ _ => rfl⟩
      · simp [recoveryStep, Recovery.handOut, empty, bound]
      · simp [handedOut, empty, Except.toOption]
    · refine ⟨{ table := t, inUse := update s.inUse idx true }, ?_, ?_, others⟩
      · simp [recoveryStep, bound, taken, Recovery.handOut]
      · simpa [handedOut, taken, Except.toOption] using unused
  | _ => exact trivial

omit inv

/-- In every run whose re-acquisitions come in list order, the free list ends and holds only unused
frames, and every further call made in order is sound. -/
theorem frame_recovery_in_order (s : Recovery) (reached : Reachable recoverySystem InOrder s) :
    FreeUnused s ∧ ∀ op, InOrder s op → CallSound s op :=
  ⟨(recoveryInv_reachable reached).free, fun _ order =>
    callSound_of_inv (recoveryInv_reachable reached) order⟩

/-- A frame between its neighbours is re-acquired in order. -/
theorem reacquired (front back : List Nat) {idx : Nat} (reached : Reachable recoverySystem InOrder s) (after : 0 < idx)
    (inside : idx < cosMaxMemory) (free : FreeList s.table (0 :: front ++ (idx - 1) :: idx :: (idx + 1) :: back)) :
    ∃ t, Reachable recoverySystem InOrder ⟨t, update s.inUse idx true⟩ ∧
      FreeList t (0 :: front ++ (idx - 1) :: (idx + 1) :: back) ∧
      ∀ j, j ≠ idx → j ≠ idx - 1 → t.frames j = s.table.frames j := by
  have first : s.table.freelist = .free 0 := free.chain.1
  obtain ⟨t, taken, free', others⟩ := frameAllocIndex_freeList free first after
  obtain ⟨ops, run⟩ := reached
  have order : InOrder s (.allocIndex idx) := by
    intro head at_
    cases first.symm.trans at_
    exact .inr ⟨after, _, back, free⟩
  refine ⟨t, ⟨_, .next run order ?_⟩, free', others⟩
  simp [recoverySystem, recoveryStep, inside, taken, Recovery.handOut]

/-- Frame 5 is re-acquired and mapped, then frame 8 is re-acquired. The first frame of the list can be next. -/
theorem mapped_frame_recovered : ∃ s, Reachable recoverySystem InOrder s ∧ (s.inUse 5 ∧ s.inUse 8) ∧
    (s.table.frames 5).c = .mapping 77 ∧ FreeUnused s ∧ CallSound s (.allocIndex 0) := by
  have list : 0 :: [1, 2, 3] ++ (5 - 1) :: 5 :: (5 + 1) :: range' 7 (cosMaxMemory - 7) = range cosMaxMemory := by
    rw [range_eq_range']
    rfl
  have start : Reachable recoverySystem InOrder recoverySystem.init := ⟨[], .start⟩
  obtain ⟨t, ⟨_, run⟩, free, -⟩ := reacquired _ _ start (by decide) (by decide) (list ▸ frameInit_freeList)
  have off : 5 ∉ 0 :: [1, 2, 3] ++ (5 - 1) :: (5 + 1) :: range' 7 (cosMaxMemory - 7) := by simp
  have mapped : Reachable recoverySystem InOrder ⟨setRoot (frameRef t 5) 5 77, update (fun _ => false) 5 true⟩ :=
    ⟨_, .next (.next run (show InOrder _ (.ref 5) from trivial) rfl) (show InOrder _ (.root 5 77) from trivial) rfl⟩
  have free : FreeList (setRoot (frameRef t 5) 5 77) _ := freeList_set (freeList_set free off _) off _
  obtain ⟨t', reached, free', others⟩ := reacquired [1, 2, 3, 4, 6] (range' 10 (cosMaxMemory - 10)) mapped
    (show 0 < 8 by decide) (by decide) free
  have sound := frame_recovery_in_order _ reached
  refine ⟨_, reached, by simp, ?_, sound.1, sound.2 _ ?_⟩
  · rw [others 5 (by decide) (by decide)]
    simp [setRoot, set_frames]
  · intro head at_
    cases free'.chain.1.symm.trans at_
    exact .inl rfl

/-- Frame 5 has been re-acquired and mapped; re-acquiring its neighbour 6 overwrites its record. -/
def overwritten (s : Recovery) : Bool :=
  s.inUse 5 && decide (s.table.frames 5 = ⟨1, .mapping 77⟩) &&
    (recoveryStep s (.allocIndex 6)).all fun s' => decide (s'.table.frames 5 = ⟨1, .free 7⟩)

/-- Frames 5 and 6 are both in use at the reboot and are re-acquired in this order. -/
theorem frame_recovery_neighbours_fail :
    ¬ ∀ s, Reachable recoverySystem anyStep s → FreeUnused s ∧ ∀ op, CallSound s op := by
  intro claim
  obtain ⟨s, run, final⟩ := exec_ends recoverySystem anyStep
    [.allocIndex 5, .ref 5, .root 5 77] (overwritten · = true) (by decide)
  simp only [overwritten, Bool.and_eq_true, decide_eq_true_eq] at final
  obtain ⟨⟨used, record⟩, after⟩ := final
  obtain ⟨s', step, _, others⟩ := (claim s ⟨_, run⟩).2 (.allocIndex 6) (by decide)
  have same := others 5 used
  simp [step, same, record] at after

end SuperGlue.Guarantees.FrameRecovery
