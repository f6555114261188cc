import SuperGlue.Guarantees.MappingTree
import SuperGlue.Source.Kernel.Mmap

/-!
# The invariant of the root-page records

The memory manager on top of the kernel that tracks its root pages: every live mapping has its page
in the page table, every root mapping and every page of the manager itself has its record, and an
unused frame has none. This module says what each step of a request does to that.
-/
namespace SuperGlue.Guarantees.RootInvariant
open Finset Option Lib.Tally Source.MemMgr.Frames Source.MemMgr.Mappings Source.Kernel.Mmap MappingCounts MappingTree

/-! ## The invariant between the two components -/

/-- The page of a mapping is in the page table of its component. -/
structure Mapped (c : Config) (k : PhysMem) (r : Mapping) : Prop where
  accepted : Accepted c r.spdid r.addr
  positive : r.spdid ≠ 0
  outside : r.spdid ≠ mmSpd
  inside : r.f < c.pfnExtent
  slot : k.pgtbl r.spdid (pageIdx r.addr) = .cos (r.f + c.pfnBase)

/-- The frame holds a page of the manager itself, mapped and recorded. -/
def Owned (c : Config) (k : PhysMem) (t : FrameTable) (g : Nat) : Prop :=
  ∃ hp, hp ≠ 0 ∧ t.frames g = ⟨-1, .addr hp⟩ ∧ k.cosPages g = ⟨mmSpd, hp, 1⟩ ∧
    k.pgtbl mmSpd (pageIdx hp) = .cos (g + c.pfnBase)

/-- `root` tells the root mappings, and `asked` the flags with which they were obtained. -/
structure RootInv (c : Config) (k : PhysMem) (t : FrameTable) (live : Finset MapPtr)
    (maps : MapPtr → Mapping) (asked : MapPtr → Nat) (root : MapPtr → Prop) : Prop where
  counted : ∀ x ∈ live, 0 < (t.frames (maps x).f).nmaps
  mapped : ∀ x ∈ live, Mapped c k (maps x)
  owned : ∀ g, (t.frames g).nmaps = -1 → g < cosMaxMemory ∧ Owned c k t g
  record : ∀ m ∈ live, root m → asked m < 256 ∧ k.cosPages (maps m).f = ⟨(maps m).spdid, (maps m).addr, asked m⟩
  rooted : ∀ x ∈ live, ∃ m ∈ live, root m ∧ (maps m).f = (maps x).f
  unused : ∀ g, (t.frames g).nmaps = 0 → k.cosPages g = noRoot
  beyond : ∀ g, cosMaxMemory ≤ g → k.cosPages g = noRoot

variable {c : Config} {k : PhysMem} {t t' : FrameTable} {live : Finset MapPtr}
  {maps : MapPtr → Mapping} {asked : MapPtr → Nat} {root : MapPtr → Prop} {g : Nat} {d : SpdId}
  {daddr : VAddr}

/-! ## Grants -/

theorem setPte_slot {d' : SpdId} {i n : Nat} (slot : k.pgtbl d' i = .cos n)
    (vacant : k.pgtbl d (pageIdx daddr) = .empty) (pte : Pte) : (setPte k d daddr pte).pgtbl d' i = .cos n := by
  rw [setPte_pgtbl, if_neg]
  · exact slot
  · rintro ⟨rfl, rfl⟩
    nomatch slot.symm.trans vacant

section

variable (h : RootInv c k t live maps asked root)
include h

/-- A page added to an empty entry is in nobody's way. -/
theorem RootInv.add (vacant : k.pgtbl d (pageIdx daddr) = .empty) (pte : Pte) :
    RootInv c (setPte k d daddr pte) t live maps asked root := by
  refine { h with mapped := fun x member => ?_, owned := fun g minus => ?_ }
  · have mapped := h.mapped x member
    exact { mapped with slot := setPte_slot mapped.slot vacant pte }
  · obtain ⟨bound, hp, nonzero, frame, record, slot⟩ := h.owned g minus
    exact ⟨bound, hp, nonzero, frame, record, setPte_slot slot vacant pte⟩

/-- The count of a frame changes that is not a page of the manager, before or after. -/
theorem RootInv.recount (same : ∀ j, j ≠ g → t'.frames j = t.frames j) (before : 0 ≤ (t.frames g).nmaps)
    (after : 0 ≤ (t'.frames g).nmaps) (unused : (t'.frames g).nmaps = 0 → (t.frames g).nmaps = 0) :
    RootInv c k t' live maps asked root := by
  refine { h with counted := fun x member => ?_, owned := fun j minus => ?_, unused := fun j zero => ?_ }
  · have counted := h.counted x member
    by_cases eq : (maps x).f = g
    · rw [eq] at counted ⊢
      omega
    · rwa [same _ eq]
  · have other : j ≠ g := by
      rintro rfl
      omega
    rw [same j other] at minus
    obtain ⟨bound, hp, nonzero, frame, rest⟩ := h.owned j minus
    exact ⟨bound, hp, nonzero, (same j other).trans frame, rest⟩
  · by_cases eq : j = g
    · subst eq
      exact h.unused j (unused zero)
    · exact h.unused j (same j eq ▸ zero)

/-- An unused frame becomes a page of the manager. -/
theorem RootInv.own {hp : VAddr} (zero : (t.frames g).nmaps = 0) (bound : g < cosMaxMemory) (nonzero : hp ≠ 0)
    (vacant : k.pgtbl mmSpd (pageIdx hp) = .empty) (same : ∀ j, j ≠ g → t'.frames j = t.frames j)
    (frame : t'.frames g = ⟨-1, .addr hp⟩) :
    RootInv c (setInfo (setPte k mmSpd hp (.cos (g + c.pfnBase))) g ⟨mmSpd, hp, 1⟩) t' live maps asked root := by
  have added := h.add vacant (.cos (g + c.pfnBase))
  have used : ∀ x ∈ live, (maps x).f ≠ g := by
    rintro x member rfl
    have := h.counted x member
    omega
  refine ⟨?_, ?_, ?_, ?_, h.rooted, ?_, ?_⟩
  · intro x member
    rw [same _ (used x member)]
    exact h.counted x member
  · intro x member
    exact { added.mapped x member with }
  · intro j minus
    by_cases eq : j = g
    · subst eq
      refine ⟨bound, hp, nonzero, frame, by simp [setInfo], ?_⟩
      simp [setInfo, setPte_pgtbl]
    · rw [same j eq] at minus
      obtain ⟨boundJ, hp', nonzero', frame', record, slot⟩ := added.owned j minus
      refine ⟨boundJ, hp', nonzero', (same j eq).trans frame', ?_, slot⟩
      simpa [setInfo, eq] using record
  · intro m member isRoot
    obtain ⟨fits, info⟩ := h.record m member isRoot
    refine ⟨fits, ?_⟩
    simpa [setInfo, used m member, setPte] using info
  · intro j unused
    have other : j ≠ g := by
      rintro rfl
      simp [frame] at unused
    rw [same j other] at unused
    simpa [setInfo, other, setPte] using h.unused j unused
  · intro j past
    have other : j ≠ g := by omega
    simpa [setInfo, other, setPte] using h.beyond j past

end

variable {s s' : State PhysMem} {out : List Nat} {addr : VAddr}

/-- A grant that is refused leaves the kernel as it was. -/
theorem grant_refused (k : PhysMem) {d : SpdId} {f : Nat} (flags : Nat) (fits : flags < 256) (bound : d < 65536)
    (refused : ((kernelOps c).grant k flags d addr f).2 ≠ 0) : ((kernelOps c).grant k flags d addr f).1 = k := by
  rcases grant_cases k addr f fits bound with ⟨_, _, _, answer, _⟩ | ⟨_, _, answer⟩
  · rw [answer]
  · rw [answer] at refused ⊢
    unfold chalPgtblAdd at refused ⊢
    split
    · simp_all
    · rfl

section

variable (h : RootInv c s.kern s.table live maps asked root)
include h

theorem pageStep_roots (step : PageStep (kernelOps c) s s') (frames : FrameRefs s.table s.live s.maps out) :
    RootInv c s'.kern s'.table live maps asked root ∧ ∀ d i, d ≠ mmSpd → s'.kern.pgtbl d i = s.kern.pgtbl d i := by
  have mapRW : mappingRW = ((1 : Nat) : Int) := rfl
  cases step with
  | heap => exact ⟨h, fun _ _ _ => rfl⟩
  | @retry f t hp popped refused =>
    obtain ⟨_, _, _, zero, nmaps⟩ := frameRefs_pop frames popped
    have kern : ((kernelOps c).grant s.kern mappingRW mmSpd hp f).1 = s.kern :=
      grant_refused s.kern 1 (by decide) (by decide) (refused.trans_ne (by decide))
    rw [kern]
    refine ⟨h.recount (fun j other => ?_) zero.ge ?_ fun _ => zero, fun _ _ _ => rfl⟩
    · rw [frameDeref_frames other, frameAlloc_frames popped other]
    · simp [frameDeref, derefCount, nmaps, zero, set_frames]
  | @own f t hp k nonzero popped granted rooted =>
    obtain ⟨_, bound, _, zero, nmaps⟩ := frameRefs_pop frames popped
    rw [mapRW] at granted rooted
    obtain ⟨accepted, inside, rfl⟩ := setRoot_stores (by decide) (by decide) rooted
    rcases grant_cases (d := mmSpd) s.kern hp f (show 1 < 256 by decide) (by decide) with
      ⟨_, _, _, _, refused⟩ | ⟨_, _, answer⟩
    · exact absurd ⟨accepted, inside⟩ refused
    rw [answer] at granted ⊢
    unfold chalPgtblAdd at granted ⊢
    split
    next vacant =>
      refine ⟨h.own zero bound nonzero vacant ?_ ?_, ?_⟩
      · intro j other
        simp [ownPage, set_frames, other, frameAlloc_frames popped other]
      · simp [ownPage, set_frames]
      · intro d i other
        simp [setInfo, setPte_pgtbl, other]
    next full => simp [full] at granted

theorem pagesTaken_roots (taken : PagesTaken (kernelOps c) s s') (frames : FrameRefs s.table s.live s.maps out) :
    RootInv c s'.kern s'.table live maps asked root ∧ ∀ d i, d ≠ mmSpd → s'.kern.pgtbl d i = s.kern.pgtbl d i := by
  induction taken with
  | refl => exact ⟨h, fun _ _ _ => rfl⟩
  | tail before step ih =>
    obtain ⟨inv, same⟩ := ih
    obtain ⟨frames', _⟩ := pagesTaken_frames before frames
    obtain ⟨inv', same'⟩ := pageStep_roots inv step frames'
    exact ⟨inv', fun d i other => (same' d i other).trans (same d i other)⟩

/-! ## New mappings -/

variable {dest : SpdId}

theorem counted_roots {idx : Nat} (counted : Counted (kernelOps c) s dest idx s') (counts : Counts s out none) :
    RootInv c s'.kern s'.table live maps asked root ∧ ∀ d i, d ≠ mmSpd → s'.kern.pgtbl d i = s.kern.pgtbl d i := by
  cases counted with
  | found _ _ taken =>
    have frames := counts.frames
    exact pagesTaken_roots (s := cvasRef s dest _) h taken frames
  | @fresh s1 _ _ before taken =>
    obtain ⟨inv1, same1⟩ := pagesTaken_roots h before counts.frames
    obtain ⟨frames1, _⟩ := pagesTaken_frames before counts.frames
    obtain ⟨inv, same⟩ := pagesTaken_roots (by exact inv1) taken frames1
    exact ⟨inv, fun d i other => (same d i other).trans (same1 d i other)⟩

omit h in
theorem dropped_roots (dropped : cvasDeref s dest = some s') : s'.kern = s.kern ∧ s'.table = s.table := by
  unfold cvasDeref at dropped
  split at dropped
  · contradiction
  · simp only [ite_none_right_eq_some, some.injEq] at dropped
    obtain ⟨_, rfl⟩ := dropped
    exact ⟨rfl, rfl⟩

variable {f flags : Nat} {p : Option MapPtr}

/-- A `mapping_crt` that fails leaves the records alone. -/
theorem crtFailed_roots (fits : flags < 256) (bound : dest < 65536)
    (exit : CrtExit (kernelOps c) s p f dest addr flags s' none) (counts : Counts s out none) :
    RootInv c s'.kern s'.table live maps asked root := by
  cases exit with
  | noRecord _ taken => exact (pagesTaken_roots h taken counts.frames).1
  | collision _ dropped =>
    obtain ⟨kern, table⟩ := dropped_roots dropped
    rwa [kern, table]
  | noSlab counted dropped =>
    obtain ⟨kern, table⟩ := dropped_roots dropped
    rw [kern, table]
    exact (counted_roots h counted counts).1
  | @refused s1 _ counted answer dropped =>
    obtain ⟨kern, table⟩ := dropped_roots dropped
    rw [kern, table, grant_refused s1.kern flags fits bound answer.1]
    exact (counted_roots h counted counts).1

/-- A new mapping whose page-table entry is empty gets its page, and the other mappings and their
records stay. -/
theorem crtCreated_roots {out' : List Nat} {m : MapPtr} (fits : flags < 256) (bound : dest < 65536)
    (outside : dest ≠ mmSpd) (target : c.owner addr ≠ some dest ∨ s.kern.pgtbl dest (pageIdx addr) = .empty)
    (frame : f < cosMaxMemory) (isRoot : p = none → f ∈ out) (child : ∀ q, p = some q → q ∈ s.live)
    (rest : ∀ g, g ∈ out' ↔ g ∈ out ∧ g ≠ f) (exit : CrtExit (kernelOps c) s p f dest addr flags s' (some m))
    (counts : Counts s out none) :
    RootInv c s'.kern s'.table live maps asked root ∧ Accepted c dest addr ∧ f < c.pfnExtent ∧
      s'.kern.pgtbl dest (pageIdx addr) = .cos (f + c.pfnBase) := by
  cases exit with
  | @created s1 s2 s3 _ counted unused answer linked mapped _ taken =>
    obtain ⟨inv1, same1⟩ := counted_roots h counted counts
    obtain ⟨counts1, held, _⟩ := counted_counts counts counted
    have notSelf : p ≠ some m := fun eq => unused (held.live ▸ child m eq)
    obtain ⟨table2, _, _, kern2⟩ := linked ▸ mappingInit_frame { s1 with
      live := insert m s1.live, kern := ((kernelOps c).grant s1.kern flags dest addr f).1 }
      m dest addr p f
    obtain ⟨frames2, nonneg⟩ := frameRefs_linked counts1.frames frame isRoot unused notSelf linked mapped rest
    rcases grant_cases s1.kern addr f fits bound with
      ⟨e, notZero, notMinus, result, _⟩ | ⟨accepted, inside, result⟩
    · rw [result] at answer
      rcases answer with zero | minus
      · exact absurd zero notZero
      · exact absurd minus notMinus
    · have vacant : s1.kern.pgtbl dest (pageIdx addr) = .empty := by
        rw [same1 dest _ outside]
        exact target.resolve_left (not_not.mpr accepted.owner)
      have kern : s2.kern = setPte s1.kern dest addr (.cos (f + c.pfnBase)) := by
        rw [kern2, result, chalPgtblAdd, if_pos vacant]
      have inv2 : RootInv c s2.kern (frameRef s2.table f) live maps asked root := by
        rw [kern, table2]
        refine (inv1.add vacant _).recount (fun j other => ?_) nonneg ?_ ?_
        · simp [frameRef, set_frames, other]
        all_goals
          simp only [frameRef, set_frames, if_true]
          omega
      obtain ⟨inv3, same3⟩ := pagesTaken_roots inv2 taken frames2
      refine ⟨inv3, accepted, inside, ?_⟩
      change s3.kern.pgtbl dest (pageIdx addr) = _
      rw [same3 dest _ outside, kern, setPte_pgtbl, if_pos ⟨rfl, rfl⟩]

end

/-- Two records of the same page and frame. -/
def SamePage (r r' : Mapping) : Prop := r'.spdid = r.spdid ∧ r'.addr = r.addr ∧ r'.f = r.f

theorem Mapped.congr {r r' : Mapping} (h : Mapped c k r) (same : SamePage r r') : Mapped c k r' := by
  obtain ⟨_, _, _, _, _, _⟩ := r'
  obtain ⟨rfl, rfl, rfl⟩ := same
  exact { h with }

section Insert

variable {maps' : MapPtr → Mapping} {root' : MapPtr → Prop} {m : MapPtr}

section

variable (h : RootInv c k t live maps asked root)
include h

theorem RootInv.congr (same : ∀ x ∈ live, SamePage (maps x) (maps' x)) (roots : ∀ x ∈ live, root' x ↔ root x) :
    RootInv c k t live maps' asked root' := by
  refine ⟨?_, ?_, h.owned, ?_, ?_, h.unused, h.beyond⟩
  · intro x member
    rw [(same x member).2.2]
    exact h.counted x member
  · intro x member
    exact (h.mapped x member).congr (same x member)
  · intro x member rootX
    obtain ⟨spd, addr, frame⟩ := same x member
    rw [spd, addr, frame]
    exact h.record x member ((roots x member).mp rootX)
  · intro x member
    obtain ⟨r, liveR, rootR, frame⟩ := h.rooted x member
    exact ⟨r, liveR, (roots r liveR).mpr rootR, by rw [(same r liveR).2.2, (same x member).2.2, frame]⟩

/-- A new root mapping, the only one of its frame, and its record. -/
theorem RootInv.insertRoot (fresh : m ∉ live) (same : ∀ x ∈ live, SamePage (maps x) (maps' x))
    (mapped : Mapped c k (maps' m)) (fits : flags < 256) (pos : 0 < (t.frames (maps' m).f).nmaps)
    (lone : ∀ x ∈ live, (maps' x).f ≠ (maps' m).f) (roots : ∀ x ∈ live, root' x ↔ root x) (isRoot : root' m) :
    RootInv c (setInfo k (maps' m).f ⟨(maps' m).spdid, (maps' m).addr, flags⟩)
      (setRoot t (maps' m).f m) (insert m live) maps' (Function.update asked m flags) root' := by
  have bound : (maps' m).f < cosMaxMemory := by
    have inside := mapped.inside
    have range := c.pfnBound
    omega
  have h : RootInv c k (setRoot t (maps' m).f m) live maps' asked root' := by
    refine (h.congr same roots).recount (fun j other => ?_) pos.le ?_ ?_
    · simp [setRoot, set_frames, other]
    all_goals
      simp only [setRoot, set_frames, if_true]
      omega
  have pos : 0 < ((setRoot t (maps' m).f m).frames (maps' m).f).nmaps := by simpa [setRoot, set_frames] using pos
  refine ⟨(forall_mem_insert ..).mpr ⟨pos, h.counted⟩, fun x member => ?_, fun g minus => ?_,
    (forall_mem_insert ..).mpr ⟨fun _ => by simp [setInfo, fits], fun x old rootX => ?_⟩,
    (forall_mem_insert ..).mpr ⟨⟨m, mem_insert_self .., isRoot, rfl⟩, fun x old => ?_⟩, fun g zero => ?_,
    fun g past => ?_⟩
  · have slots : ∀ x ∈ insert m live, Mapped c k (maps' x) := (forall_mem_insert ..).mpr ⟨mapped, h.mapped⟩
    exact { slots x member with }
  · have other : g ≠ (maps' m).f := by
      rintro rfl
      omega
    obtain ⟨bound, hp, nonzero, frame, record, slot⟩ := h.owned g minus
    exact ⟨bound, hp, nonzero, frame, by simpa [setInfo, other] using record, slot⟩
  · have other : x ≠ m := fun eq => fresh (eq ▸ old)
    simpa [setInfo, other, lone x old] using h.record x old rootX
  · obtain ⟨r, liveR, found⟩ := h.rooted x old
    exact ⟨r, mem_insert_of_mem liveR, found⟩
  · have other : g ≠ (maps' m).f := by
      rintro rfl
      omega
    simpa [setInfo, other] using h.unused g zero
  · have other : g ≠ (maps' m).f := by omega
    simpa [setInfo, other] using h.beyond g past

/-- A new mapping of the frame of an old one. -/
theorem RootInv.insertChild {q : MapPtr} (same : ∀ x ∈ live, SamePage (maps x) (maps' x))
    (mapped : Mapped c k (maps' m)) (parent : q ∈ live) (frame : (maps' m).f = (maps' q).f)
    (roots : ∀ x ∈ live, root' x ↔ root x) (notRoot : ¬ root' m) : RootInv c k t (insert m live) maps' asked root' := by
  have h := h.congr same roots
  have rooted : ∀ x ∈ live, ∃ r ∈ insert m live, root' r ∧ (maps' r).f = (maps' x).f := by
    intro x old
    obtain ⟨r, liveR, found⟩ := h.rooted x old
    exact ⟨r, mem_insert_of_mem liveR, found⟩
  exact ⟨(forall_mem_insert ..).mpr ⟨by rw [frame]; exact h.counted q parent, h.counted⟩,
    (forall_mem_insert ..).mpr ⟨mapped, h.mapped⟩, h.owned,
    (forall_mem_insert ..).mpr ⟨fun isRoot => absurd isRoot notRoot, h.record⟩,
    (forall_mem_insert ..).mpr ⟨by rw [frame]; exact rooted q parent, rooted⟩, h.unused, h.beyond⟩

end

end Insert

/-! ## Destroyed mappings -/

section Destroy

variable {s s' : State PhysMem} {x : MapPtr}

theorem counts_positive (h : Counts s [] none) {y : MapPtr} (member : y ∈ s.live) :
    0 < (s.table.frames (s.maps y).f).nmaps := by
  have pos := tally_pos member (fun z => (s.maps z).f)
  rcases h.frames.refs _ (h.frames.bound y member) with eq | ⟨_, none⟩ <;> omega

theorem counts_unique (h : Counts s [] none) {y z : MapPtr} (liveY : y ∈ s.live) (liveZ : z ∈ s.live)
    (spd : (s.maps y).spdid = (s.maps z).spdid) (page : pageIdx (s.maps y).addr = pageIdx (s.maps z).addr) : y = z := by
  have foundY := (h.vectors.lookup _ _ y).mpr ⟨liveY, spd, page⟩
  have foundZ := (h.vectors.lookup _ _ z).mpr ⟨liveZ, rfl, rfl⟩
  rw [foundY] at foundZ
  exact some.inj foundZ

/-- What `__mapping_destroy` keeps, given what becomes of the records. -/
theorem RootInv.unmap (counts : Counts s [] none) (counts' : Counts s' [] none)
    (member : x ∈ s.live) (maps : s'.maps = s.maps) (live : s'.live = s.live.erase x)
    (table : s'.table = frameDeref s.table (s.maps x).f) (h : RootInv c s.kern s.table s.live s.maps asked root)
    (pgtbl : s'.kern.pgtbl = (setPte s.kern (s.maps x).spdid (s.maps x).addr .empty).pgtbl)
    (others : ∀ g, g ≠ (s.maps x).f → s'.kern.cosPages g = s.kern.cosPages g)
    (record : ∀ m ∈ s.live, m ≠ x → root m → s'.kern.cosPages (s.maps m).f = s.kern.cosPages (s.maps m).f)
    (rooted : ∀ y ∈ s.live, y ≠ x → ∃ m ∈ s.live, m ≠ x ∧ root m ∧ (s.maps m).f = (s.maps y).f)
    (unused : (s'.table.frames (s.maps x).f).nmaps = 0 → s'.kern.cosPages (s.maps x).f = noRoot) :
    RootInv c s'.kern s'.table s'.live s'.maps asked root := by
  have erased : ∀ y, y ∈ s'.live ↔ y ∈ s.live ∧ y ≠ x := by
    intro y
    rw [live, mem_erase, and_comm]
  have frames : ∀ g, g ≠ (s.maps x).f → s'.table.frames g = s.table.frames g := by
    intro g other
    rw [table, frameDeref_frames other]
  refine ⟨fun y survivor => counts_positive counts' survivor, ?_, ?_, ?_, ?_, ?_, ?_⟩
  · intro y survivor
    obtain ⟨liveY, other⟩ := (erased y).mp survivor
    have mapped := h.mapped y liveY
    rw [maps]
    refine { mapped with slot := ?_ }
    rw [pgtbl, setPte_pgtbl, if_neg]
    · exact mapped.slot
    · rintro ⟨spd, page⟩
      exact other (counts_unique counts liveY member spd page)
  · intro g minus
    have other : g ≠ (s.maps x).f := by
      rintro rfl
      have pos := counts_positive counts member
      simp only [table, frameDeref, derefCount, pos, if_true] at minus
      split at minus <;> simp [set_frames] at minus
      omega
    rw [frames g other] at minus
    obtain ⟨bound, hp, nonzero, frame, info, slot⟩ := h.owned g minus
    refine ⟨bound, hp, nonzero, (frames g other).trans frame, (others g other).trans info, ?_⟩
    rw [pgtbl, setPte_pgtbl, if_neg]
    · exact slot
    · rintro ⟨spd, _⟩
      exact (h.mapped x member).outside spd.symm
  · intro m survivor rootM
    obtain ⟨liveM, other⟩ := (erased m).mp survivor
    rw [maps, record m liveM other rootM]
    exact h.record m liveM rootM
  · intro y survivor
    obtain ⟨liveY, other⟩ := (erased y).mp survivor
    obtain ⟨m, liveM, notX, rootM, frame⟩ := rooted y liveY other
    rw [maps]
    exact ⟨m, (erased m).mpr ⟨liveM, notX⟩, rootM, frame⟩
  · intro g zero
    by_cases eq : g = (s.maps x).f
    · subst eq
      exact unused zero
    · rw [frames g eq] at zero
      rw [others g eq]
      exact h.unused g zero
  · intro g past
    have bound := counts.frames.bound x member
    rw [others g (by omega)]
    exact h.beyond g past

section

variable (counts : Counts s [] none) (member : x ∈ s.live)
  (destroyed : mappingDestroy (kernelOps c) s x = some s')
  (h : RootInv c s.kern s.table s.live s.maps asked root)
include counts member destroyed h

/-- A mapping that is not a root goes: its revocation does not match the record of its frame. -/
theorem RootInv.destroyChild (notRoot : ¬ root x) : RootInv c s'.kern s'.table s'.live s'.maps asked root := by
  obtain ⟨_, counts', maps, live, kern, table⟩ := mappingDestroy_some counts member destroyed
  obtain ⟨m, liveM, rootM, frame⟩ := h.rooted x member
  have notX : m ≠ x := by
    rintro rfl
    exact notRoot rootM
  have noMatch : s.kern.cosPages (s.maps x).f ≠ ⟨(s.maps x).spdid, (s.maps x).addr, 0⟩ := by
    intro info
    rw [← frame, (h.record m liveM rootM).2] at info
    simp only [RootInfo.mk.injEq] at info
    exact notX (counts_unique counts liveM member info.1 (congrArg pageIdx info.2.1))
  rw [revoke_clears (h.mapped x member).accepted (h.mapped x member).slot, if_neg noMatch] at kern
  have cosPages : s'.kern.cosPages = s.kern.cosPages := by rw [kern]; rfl
  have rooted : ∀ y ∈ s.live, ∃ r ∈ s.live, r ≠ x ∧ root r ∧ (s.maps r).f = (s.maps y).f := by
    intro y liveY
    obtain ⟨r, liveR, rootR, frameR⟩ := h.rooted y liveY
    exact ⟨r, liveR, fun eq => notRoot (eq ▸ rootR), rootR, frameR⟩
  refine h.unmap counts counts' member maps live table (by rw [kern]) (fun g _ => by rw [cosPages])
    (fun m _ _ _ => by rw [cosPages]) (fun y liveY _ => rooted y liveY) ?_
  intro zero
  have survivor : m ∈ s'.live := live ▸ mem_erase.mpr ⟨notX, liveM⟩
  have pos := counts_positive counts' survivor
  rw [maps, frame] at pos
  omega

/-- A root obtained without flags goes after everything else of its frame: its record goes too. -/
theorem RootInv.destroyRoot (isRoot : root x) (plain : asked x = 0)
    (lone : ∀ y ∈ s.live, (s.maps y).f = (s.maps x).f → y = x) :
    RootInv c s'.kern s'.table s'.live s'.maps asked root := by
  obtain ⟨_, counts', maps, live, kern, table⟩ := mappingDestroy_some counts member destroyed
  have info := (h.record x member isRoot).2
  rw [plain] at info
  rw [revoke_clears (h.mapped x member).accepted (h.mapped x member).slot, if_pos info] at kern
  have cleared : s'.kern.cosPages (s.maps x).f = noRoot := by simp [kern, setInfo]
  have others : ∀ g, g ≠ (s.maps x).f → s'.kern.cosPages g = s.kern.cosPages g := by
    intro g other
    simp [kern, setInfo, other, setPte]
  refine h.unmap counts counts' member maps live table ?_ others ?_ ?_ fun _ => cleared
  · rw [kern]
    rfl
  · intro m liveM notX _
    exact others _ fun frame => notX (lone m liveM frame)
  · intro y liveY notX
    obtain ⟨r, liveR, rootR, frameR⟩ := h.rooted y liveY
    refine ⟨r, liveR, ?_, rootR, frameR⟩
    rintro rfl
    exact notX (lone y liveY frameR.symm)

end

variable (h : RootInv c s.kern s.table s.live s.maps asked root)
include h

theorem RootInv.collected (collected : Collected s s') : RootInv c s'.kern s'.table s'.live s'.maps asked root := by
  rw [collected.rest]
  exact h.congr (fun x _ => collected.page x) fun _ _ => Iff.rfl

/-- Any number of mappings that are not roots go. -/
theorem RootInv.destroyed {victims : List MapPtr}
    (run : Destroyed (kernelOps c) victims s s') (children : ∀ x ∈ victims, ¬ root x) :
    RootInv c s'.kern s'.table s'.live s'.maps asked root := by
  induction run with
  | nil collected => exact h.collected collected
  | cons collected counts member destroyed _ ih =>
    apply ih
    · exact (h.collected collected).destroyChild counts member destroyed (children _ List.mem_cons_self)
    · intro x later
      exact children x (List.mem_cons_of_mem _ later)

omit h

theorem RootInv.roots {root' : MapPtr → Prop} (h : RootInv c k t live maps asked root)
    (same : ∀ x ∈ live, root' x ↔ root x) : RootInv c k t live maps asked root' :=
  h.congr (fun _ _ => ⟨rfl, rfl, rfl⟩) same

end Destroy

end SuperGlue.Guarantees.RootInvariant
