import SuperGlue.Guarantees.MappingDatabase
import SuperGlue.Guarantees.RootInvariant

/-!
# Root-page records for the recovery of the memory manager

The kernel's records agree with the root mappings of the manager as long as every page is granted
into an empty entry of another component's page table, with flags that fit the packed argument, and
no root is released that was obtained with flags: `__mapping_destroy` revokes with flags 0, and the
kernel then clears the record of a root only if the recorded flags are 0 too. Introspection by frame
number adds the frame base twice to a number that the records are kept under without it.
-/
namespace SuperGlue.Guarantees.RootRecords
open Int Option Function Lib.Transition Lib.Tally Lib.SiblingForest Source.MemMgr.Frames Source.MemMgr.Mappings Source.Kernel.Mmap
  MappingCounts MappingTree MappingDatabase RootInvariant

/-! ## The manager on its kernel -/

/-- The manager, with the flags of the request that obtained each root. -/
structure Tracked where
  mem : State PhysMem
  asked : MapPtr → Nat

def noteFlags (asked : MapPtr → Nat) (s : State PhysMem) (ret : Int) : Request → MapPtr → Nat
  | .getPage spd addr flags _ =>
    match mappingLookup s spd addr with
    | some m => if 0 < ret then update asked m flags.toNat else asked
    | none => asked
  | _ => asked

/-- The manager after `mm_init`, over any page tables and no root pages. -/
def rootSystem (c : Config) (heap : VAddr) (pgtbl : SpdId → Nat → Pte) : System Tracked Request where
  init := ⟨init heap ⟨pgtbl, fun _ => noRoot⟩, fun _ => 0⟩
  step := fun t request => (serve (kernelOps c) t.mem request).map fun (s, ret) =>
    ⟨s, noteFlags t.asked s ret request⟩

/-- The kernel refuses the target page, or its page-table entry is empty. -/
def TargetEmpty (c : Config) (k : PhysMem) (dest : SpdId) (addr : VAddr) : Prop :=
  c.owner addr ≠ some dest ∨ k.pgtbl dest (pageIdx addr) = .empty

/-- Pages go into empty entries of other components, flags fit, and only roots without flags are
released. -/
def Careful (c : Config) (t : Tracked) : Request → Prop
  | .getPage spd addr flags _ => spd < 65536 ∧ spd ≠ mmSpd ∧ 0 ≤ flags ∧ flags < 256 ∧
      (t.mem.table.freelist = .null ∨ TargetEmpty c t.mem.kern spd addr)
  | .aliasPage sSpd sAddr dSpd flags dAddr _ => dSpd < 65536 ∧ dSpd ≠ mmSpd ∧ 0 ≤ flags ∧
      flags < 256 ∧ (mappingLookup t.mem sSpd sAddr = none ∨ TargetEmpty c t.mem.kern dSpd dAddr)
  | .revokePage .. => True
  | .releasePage spd addr flags =>
    ∀ m, mappingLookup t.mem (if 0 < flags then flags.toNat % 65536 else spd) addr = some m →
      (t.mem.maps m).p = none → t.asked m = 0

instance (c : Config) (k : PhysMem) (dest : SpdId) (addr : VAddr) :
    Decidable (TargetEmpty c k dest addr) := inferInstanceAs (Decidable (_ ∨ _))

instance (c : Config) : DecidableRel (Careful c) := fun t request =>
  match request with
  | .getPage .. => inferInstanceAs (Decidable (_ ∧ _))
  | .aliasPage .. => inferInstanceAs (Decidable (_ ∧ _))
  | .revokePage .. => instDecidableTrue
  | .releasePage spd addr flags =>
    match found : mappingLookup t.mem (if 0 < flags then flags.toNat % 65536 else spd) addr with
    | none => .isTrue (by simp [Careful, found])
    | some m => decidable_of_iff ((t.mem.maps m).p = none → t.asked m = 0) (by simp [Careful, found])

variable {c : Config}

/-! ## The invariant between requests -/

def isRoot (s : State PhysMem) (m : MapPtr) : Prop := (s.maps m).p = none

structure RootsSettled (c : Config) (s : State PhysMem) (asked : MapPtr → Nat) : Prop where
  settled : Settled s
  inv : RootInv c s.kern s.table s.live s.maps asked (isRoot s)

variable {s s' : State PhysMem} {asked : MapPtr → Nat} {addr : VAddr} {t : Tracked} {request : Request} {m : MapPtr}

/-- A mapped page has a page-table entry, so that a target with an empty one is not mapped. -/
theorem targetEmpty_lookup (h : RootsSettled c s asked) {dest : SpdId}
    (target : TargetEmpty c s.kern dest addr) : mappingLookup s dest addr = none := by
  apply eq_none_iff_forall_ne_some.mpr
  intro m found
  obtain ⟨mem, spd, page⟩ := ((settled_consistent h.settled).lookup dest addr m).mp found
  obtain ⟨accepted, _, _, _, slot⟩ := h.inv.mapped m mem
  have owner := accepted.owner
  rw [owner_page page, spd] at owner
  rw [spd, page] at slot
  rcases target with other | vacant
  · exact other owner
  · rw [vacant] at slot
    contradiction

/-- The old mappings keep their pages and parents, and the new one gets what was asked for. -/
theorem created_place {s1 : State PhysMem} {p : Option MapPtr} {dest : SpdId} {f : Nat} (settled : Settled s)
    (fresh : m ∉ s.live) (child : ∀ q, p = some q → q ∈ s.live) (maps : s1.maps = (mappingInit s m dest addr p f).maps)
    : (∀ x ∈ s.live, SamePage (s.maps x) (s1.maps x) ∧ (isRoot s1 x ↔ isRoot s x)) ∧
      SamePage ⟨0, dest, addr, f, none, none⟩ (s1.maps m) ∧ (isRoot s1 m ↔ p = none) := by
  obtain ⟨F, _, database⟩ := settled
  have notSelf : p ≠ some m := fun eq => fresh (child m eq)
  have parents : ∀ x, (s1.maps x).p = if x = m then p else (s.maps x).p := by
    intro x
    rw [maps]
    cases p with
    | none =>
      have tree := treeOf_root database.forest fresh dest addr f
      have same : ((mappingInit s m dest addr none f).maps x).p = (s.maps x).p :=
        congrFun (congrArg SiblingTree.parent tree) x
      have orphan : (s.maps m).p = none := (database.forest.dead fresh).2.2.2.1
      rw [same]
      split
      next eq => rw [eq, orphan]
      · rfl
    | some q =>
      have tree := treeOf_child database.forest fresh (child q rfl) dest addr f
      have same : ((mappingInit s m dest addr (some q) f).maps x).p = update (fun y => (s.maps y).p) m (some q) x :=
        congrFun (congrArg SiblingTree.parent tree) x
      rw [same, update_apply]
  refine ⟨?_, ?_, by simp [isRoot, parents m]⟩
  · intro x mem
    have other : x ≠ m := fun eq => fresh (eq ▸ mem)
    refine ⟨?_, by simp [isRoot, parents x, other]⟩
    rw [maps]
    exact mappingInit_old s dest addr p f other
  · rw [maps]
    exact mappingInit_new s dest addr f notSelf

/-! ## The requests -/

theorem rootsSettled_unchanged (settled : Settled s') (unchanged : Unchanged s s')
    (inv : RootInv c s'.kern s'.table s.live s.maps asked (isRoot s)) : RootsSettled c s' asked := by
  obtain ⟨⟨maps, _, live, _⟩, _⟩ := unchanged
  refine ⟨settled, ?_⟩
  have roots : isRoot s' = isRoot s := by
    funext x
    simp [isRoot, maps]
  rw [maps, live, roots]
  exact inv

variable {ret : Int} {spd : SpdId} {flags : Nat} {heap : VAddr} {pgtbl : SpdId → Nat → Pte}

theorem noteFlags_failed (asked : MapPtr → Nat) (s : State PhysMem) (failed : ret ≤ 0) :
    noteFlags asked s ret request = asked := by
  cases request with
  | getPage =>
    simp only [noteFlags, not_lt.mpr failed]
    split <;> rfl
  | _ => rfl

theorem getPage_roots (env : Env) (h : RootsSettled c s asked) (fits : flags < 256) (bound : spd < 65536)
    (outside : spd ≠ mmSpd) (target : s.table.freelist = .null ∨ TargetEmpty c s.kern spd addr)
    (exit : GetExit (kernelOps c) s spd addr flags s' ret) :
    RootsSettled c s' (noteFlags asked s' ret (.getPage spd addr flags env)) := by
  obtain ⟨settled, failing⟩ := getPage_settled h.settled (target.imp_right (targetEmpty_lookup h)) exit
  obtain ⟨F, none_, database⟩ := h.settled
  have popping : ∀ {f t}, frameAlloc s.table = .ok (some f, t) →
      TargetEmpty c s.kern spd addr ∧ f < cosMaxMemory ∧ Counts { s with table := t } [f] none ∧
        RootInv c s.kern t s.live s.maps asked (isRoot s) ∧ ∀ x ∈ s.live, (s.maps x).f ≠ f := by
    intro f t popped
    obtain ⟨frames, boundF, _, zero, nmaps⟩ := frameRefs_pop database.counts.frames popped
    refine ⟨?_, boundF, ⟨database.counts.vectors, frames⟩, ?_, ?_⟩
    · rcases target with null | empty
      · simp [frameAlloc, null] at popped
      · exact empty
    · exact h.inv.recount (fun j other => frameAlloc_frames popped other) zero.ge ((nmaps f).trans zero).ge fun _ => zero
    · rintro x mem rfl
      have pos := h.inv.counted x mem
      omega
  cases exit with
  | noFrame =>
    rw [noteFlags_failed asked s (by decide)]
    exact h
  | @failed f t s1 popped exit =>
    obtain ⟨empty, _, counts, inv, _⟩ := popping popped
    rw [noteFlags_failed asked _ (by decide)]
    apply rootsSettled_unchanged settled (failing (by decide))
    have inv1 := crtFailed_roots inv fits bound exit counts
    obtain ⟨counts1, _⟩ := crtExit_failed counts (targetEmpty_lookup h empty) exit
    obtain ⟨_, zero⟩ := counts1.frames.idle f (List.mem_singleton_self f)
    refine inv1.recount (fun j other => frameDeref_frames other) zero.ge ?_ fun _ => zero
    simp [frameDeref, derefCount, zero, set_frames]
  | @got f t s1 m k popped nonzero exit rooted =>
    obtain ⟨empty, boundF, counts, inv, lone⟩ := popping popped
    have rest : ∀ g, g ∈ ([] : List Nat) ↔ g ∈ [f] ∧ g ≠ f := by simp
    obtain ⟨inv1, accepted, inside, slot⟩ := crtCreated_roots (s := { s with table := t }) inv fits bound
      outside empty boundF (by simp) (by simp) rest exit counts
    obtain ⟨_, fresh, live, maps, _, pos⟩ := crtExit_created counts boundF (by simp) (by simp) rest exit
    have maps : s1.maps = (mappingInit s m spd addr none f).maps := maps
    obtain ⟨old, new, root⟩ := created_place h.settled fresh (by simp) maps
    have mapped : Mapped c s1.kern ⟨0, spd, addr, f, none, none⟩ := ⟨accepted, nonzero.1, outside, inside, slot⟩
    have mapped := mapped.congr new
    obtain ⟨newSpd, newAddr, newF⟩ := new
    obtain ⟨_, _, rfl⟩ := setRoot_stores fits bound rooted
    have found : mappingLookup { s1 with
        table := setRoot s1.table f m
        kern := setInfo s1.kern f ⟨spd, addr, flags⟩ } spd addr = some m := by
      apply ((settled_consistent settled).lookup spd addr m).mpr
      exact ⟨live ▸ Finset.mem_insert_self .., newSpd, congrArg pageIdx newAddr⟩
    have lone : ∀ x ∈ s.live, (s1.maps x).f ≠ (s1.maps m).f := by
      intro x mem
      rw [(old x mem).1.2.2, newF]
      exact lone x mem
    have inserted := inv1.insertRoot fresh (fun x mem => (old x mem).1) mapped fits
      (newF.symm ▸ pos) lone (fun x mem => (old x mem).2) (root.mpr rfl)
    rw [newSpd, newAddr, newF, ← live] at inserted
    simp only [noteFlags, found, natCast_pos.mpr (Nat.pos_of_ne_zero nonzero.2)]
    exact ⟨settled, inserted⟩

section
variable (h : RootsSettled c s asked)
include h

theorem aliasPage_roots {sSpd dSpd : SpdId} {sAddr dAddr : VAddr} (fits : flags < 256) (bound : dSpd < 65536)
    (outside : dSpd ≠ mmSpd) (target : mappingLookup s sSpd sAddr = none ∨ TargetEmpty c s.kern dSpd dAddr)
    (exit : AliasExit (kernelOps c) s sSpd sAddr dSpd flags dAddr s' ret) : RootsSettled c s' asked := by
  obtain ⟨settled, failing⟩ := aliasPage_settled h.settled (target.imp_right (targetEmpty_lookup h)) exit
  have consistent := settled_consistent h.settled
  have counts : Counts s [] none := by
    obtain ⟨_, _, database⟩ := h.settled
    exact database.counts
  cases exit with
  | noSource => exact h
  | failed found exit =>
    exact rootsSettled_unchanged settled (failing le_rfl) (crtFailed_roots h.inv fits bound exit counts)
  | @aliased m n _ found nonzero exit =>
    obtain ⟨mem, _⟩ := (consistent.lookup sSpd sAddr m).mp found
    have boundF := counts.frames.bound m mem
    have rest : ∀ g, g ∈ ([] : List Nat) ↔ g ∈ ([] : List Nat) ∧ g ≠ (s.maps m).f := by simp
    have child : ∀ q, some m = some q → q ∈ s.live := by
      rintro q ⟨⟩
      exact mem
    obtain ⟨inv1, accepted, inside, slot⟩ := crtCreated_roots h.inv fits bound outside
      (target.resolve_left (by simp [found])) boundF (by simp) child rest exit counts
    obtain ⟨_, fresh, live, maps, _⟩ := crtExit_created counts boundF (by simp) child rest exit
    obtain ⟨old, new, root⟩ := created_place h.settled fresh child maps
    have mapped : Mapped c s'.kern ⟨0, dSpd, dAddr, (s.maps m).f, none, none⟩ :=
      ⟨accepted, nonzero.1, outside, inside, slot⟩
    refine ⟨settled, ?_⟩
    rw [live]
    exact inv1.insertChild (fun x mem => (old x mem).1) (mapped.congr new) mem
      (new.2.2.trans (old m mem).1.2.2.symm) (fun x mem => (old x mem).2) (by simp [root])

/-- The children of a mapping are gone, and what is left are the roots that were roots before. -/
theorem mappingDelChildren_roots (result : mappingDelChildren (kernelOps c) s m = some s') :
    RootsSettled c s' asked ∧ (s'.maps m).c = none ∧ (m ∈ s.live → m ∈ s'.live) ∧
      ∀ x ∈ s'.live, isRoot s' x ↔ isRoot s x := by
  obtain ⟨F, none_, database⟩ := h.settled
  rcases mappingDelChildren_database database none_ m with
    ⟨_, F', result', database', loose, ⟨⟨victims, _, below, destroyed⟩, live, kept⟩, childless⟩ | ⟨crashed, _⟩
  · cases result.symm.trans result'
    have roots : ∀ x ∈ s'.live, isRoot s' x ↔ isRoot s x := by
      intro x survivor
      simp [isRoot, kept x survivor]
    have children : ∀ x ∈ victims, ¬ isRoot s x := fun x victim => ((below x).mp victim).parent
    refine ⟨⟨⟨F', loose, database'⟩, (h.inv.destroyed destroyed children).roots roots⟩, childless, ?_, roots⟩
    exact fun mem => (live m).mpr ⟨mem, database.proper none_⟩
  · simp [crashed] at result

theorem revokePage_roots
    (served : mmanRevokePage (kernelOps c) s spd addr = some (s', ret)) : RootsSettled c s' asked := by
  unfold mmanRevokePage at served
  split at served
  · cases served
    exact h
  next m _ =>
    obtain ⟨s1, result, ⟨⟩⟩ := map_eq_some_iff.mp served
    exact (mappingDelChildren_roots h result).1

theorem mappingDel_roots (mem : m ∈ s.live)
    (plain : isRoot s m → asked m = 0) (deleted : mappingDel (kernelOps c) s m = some s') :
    RootInv c s'.kern s'.table s'.live s'.maps asked (isRoot s') := by
  obtain ⟨s1, children, destroyed⟩ := bind_eq_some_iff.mp deleted
  obtain ⟨⟨⟨F1, loose, database1⟩, inv1⟩, childless, stays, roots1⟩ := mappingDelChildren_roots h children
  have collected := mappingUnlink_collected s1 m
  have counts2 := collected_counts database1.counts collected
  have inv2 := inv1.collected collected
  have member2 := stays mem
  obtain ⟨_, _, maps, live, _⟩ := mappingDestroy_some counts2 member2 destroyed
  have inv : RootInv c s'.kern s'.table s'.live s'.maps asked (isRoot s1) := by
    by_cases root : isRoot s1 m
    · apply inv2.destroyRoot counts2 member2 destroyed root (plain ((roots1 m member2).mp root))
      -- once a root has no children left, nothing else maps its frame
      intro y liveY frame
      rw [(collected.page y).2.2, (collected.page m).2.2] at frame
      obtain ⟨r, liveR, rootR, frameR, above⟩ := database1.root_above loose liveY
      have same : r = m := by
        have info := (inv1.record r liveR rootR).2
        rw [frameR, frame, (inv1.record m (stays mem) root).2, RootInfo.mk.injEq] at info
        exact counts_unique database1.counts liveR (stays mem) info.1.symm (congrArg pageIdx info.2.1.symm)
      subst same
      rcases above with eq | hasChild
      · exact eq.symm
      · exact absurd childless hasChild
    · exact inv2.destroyChild counts2 member2 destroyed root
  apply inv.roots
  intro x survivor
  rw [live] at survivor
  simp [isRoot, maps, mappingUnlink_parent s1 (Finset.ne_of_mem_erase survivor)]

theorem releasePage_roots {flags : Int}
    (plain : ∀ m, mappingLookup s (if 0 < flags then flags.toNat % 65536 else spd) addr = some m →
      isRoot s m → asked m = 0) (served : mmanReleasePage (kernelOps c) s spd addr flags = some (s', ret)) :
    RootsSettled c s' asked := by
  have allowed : NoCollision s (.releasePage spd addr flags) := trivial
  refine ⟨(serve_settled h.settled allowed served).1, ?_⟩
  unfold mmanReleasePage at served
  simp only at served
  split at served
  · cases served
    exact h.inv
  next m found =>
    obtain ⟨s1, deleted, ⟨⟩⟩ := map_eq_some_iff.mp served
    obtain ⟨mem, _⟩ := ((settled_consistent h.settled).lookup _ addr m).mp found
    exact mappingDel_roots h mem (plain m found) deleted

end

theorem rootsSettled_step {t' : Tracked} (h : RootsSettled c t.mem t.asked) (careful : Careful c t request)
    (step : (rootSystem c heap pgtbl).step t request = some t') : RootsSettled c t'.mem t'.asked := by
  obtain ⟨⟨s', ret⟩, served, rfl⟩ := map_eq_some_iff.mp step
  cases request with
  | getPage spd addr flags env =>
    obtain ⟨bound, outside, nonneg, fits, target⟩ := careful
    obtain ⟨n, rfl⟩ := eq_ofNat_of_zero_le nonneg
    exact getPage_roots env h (by omega) bound outside target (mmanGetPage_exit served)
  | aliasPage =>
    obtain ⟨bound, outside, nonneg, fits, target⟩ := careful
    obtain ⟨n, rfl⟩ := eq_ofNat_of_zero_le nonneg
    exact aliasPage_roots h (by omega) bound outside target (mmanAliasPage_exit served)
  | revokePage => exact revokePage_roots h served
  | releasePage => exact releasePage_roots h careful served

theorem rootsSettled_reachable
    (reached : Reachable (rootSystem c heap pgtbl) (Careful c) t) : RootsSettled c t.mem t.asked := by
  apply reached.invariant (fun t => RootsSettled c t.mem t.asked)
  · refine ⟨settled_init heap _, ?_⟩
    constructor <;> simp [rootSystem, init, frameInit]
  · intro t request t' settled careful step
    exact rootsSettled_step settled careful step

/-! ## What the records say -/

/-- A record is that of a page of the manager or of a live root. -/
theorem record_cases (h : RootsSettled c s asked) (g : Nat) : s.kern.cosPages g = noRoot ∨ Owned c s.kern s.table g ∨
      ∃ m ∈ s.live, isRoot s m ∧ (s.maps m).f = g ∧
        s.kern.cosPages g = ⟨(s.maps m).spdid, (s.maps m).addr, asked m⟩ := by
  obtain ⟨F, _, database⟩ := h.settled
  by_cases bound : g < cosMaxMemory
  · rcases database.counts.frames.refs g bound with used | ⟨minus, _⟩
    · by_cases unused : tally s.live (fun m => (s.maps m).f) g = 0
      · exact .inl (h.inv.unused g (by omega))
      have some_ : ∃ x ∈ s.live, (s.maps x).f = g := by
        simpa using mt tally_eq_zero.mpr unused
      obtain ⟨x, liveX, frameX⟩ := some_
      obtain ⟨m, mem, root, frame⟩ := h.inv.rooted x liveX
      rw [frameX] at frame
      exact .inr (.inr ⟨m, mem, root, frame, frame ▸ (h.inv.record m mem root).2⟩)
    · exact .inr (.inl (h.inv.owned g minus).2)
  · exact .inl (h.inv.beyond g (Nat.le_of_not_lt bound))

/-- The records name the live roots, each with its page and flags, and the pages of the manager. -/
structure Recorded (s : State PhysMem) (asked : MapPtr → Nat) : Prop where
  exact : ∀ g, s.kern.cosPages g ≠ noRoot ↔
    (∃ m ∈ s.live, isRoot s m ∧ (s.maps m).f = g) ∨ (s.table.frames g).nmaps = -1
  root : ∀ m ∈ s.live, isRoot s m → s.kern.cosPages (s.maps m).f = ⟨(s.maps m).spdid, (s.maps m).addr, asked m⟩
  own : ∀ g, (s.table.frames g).nmaps = -1 →
    ∃ hp, s.table.frames g = ⟨-1, .addr hp⟩ ∧ s.kern.cosPages g = ⟨mmSpd, hp, 1⟩

theorem rootsSettled_recorded (h : RootsSettled c s asked) : Recorded s asked := by
  have root : ∀ m ∈ s.live, isRoot s m → s.kern.cosPages (s.maps m).f = ⟨(s.maps m).spdid, (s.maps m).addr, asked m⟩ :=
    fun m mem root => (h.inv.record m mem root).2
  have own : ∀ g, (s.table.frames g).nmaps = -1 →
      ∃ hp, s.table.frames g = ⟨-1, .addr hp⟩ ∧ s.kern.cosPages g = ⟨mmSpd, hp, 1⟩ := by
    intro g minus
    obtain ⟨_, hp, _, frame, record, _⟩ := h.inv.owned g minus
    exact ⟨hp, frame, record⟩
  refine ⟨?_, root, own⟩
  intro g
  constructor
  · intro some_
    rcases record_cases h g with none_ | owned | ⟨m, mem, isRoot, frame, _⟩
    · exact absurd none_ some_
    · obtain ⟨hp, _, frame, _⟩ := owned
      simp [frame]
    · exact .inl ⟨m, mem, isRoot, frame⟩
  · rintro (⟨m, mem, isRoot, rfl⟩ | minus)
    · simp [root m mem isRoot, noRoot, (h.inv.mapped m mem).positive]
    · obtain ⟨hp, _, record⟩ := own g minus
      simp [record, noRoot, mmSpd]

/-! ## A reboot of the manager -/

/-- The frames below `n` have been reset: the pages of the manager are unmapped and forgotten. -/
structure ResetTo (c : Config) (k k' : PhysMem) (n : Nat) : Prop where
  below : ∀ g, g < n → k'.cosPages g = if (k.cosPages g).spdid = mmSpd then noRoot else k.cosPages g
  above : ∀ g, n ≤ g → k'.cosPages g = k.cosPages g
  others : ∀ d i, d ≠ mmSpd → k'.pgtbl d i = k.pgtbl d i
  slots : ∀ g, n ≤ g → (k.cosPages g).spdid = mmSpd →
    k'.pgtbl mmSpd (pageIdx (k.cosPages g).vaddr) = .cos (g + c.pfnBase)

/-- Pages recorded for the manager are mapped in it. -/
def OwnMapped (c : Config) (k : PhysMem) : Prop :=
  ∀ g, (k.cosPages g).spdid = mmSpd → (k.cosPages g).vaddr ≠ 0 ∧
    k.pgtbl mmSpd (pageIdx (k.cosPages g).vaddr) = .cos (g + c.pfnBase)

theorem resetFrame_step {k k1 : PhysMem} {n : Nat} (own : OwnMapped c k) (h : ResetTo c k k1 n) :
    ∃ k', resetFrame k1 n = some k' ∧ ResetTo c k k' (n + 1) := by
  have same := h.above n le_rfl
  by_cases mine : (k.cosPages n).spdid = mmSpd
  · have slot := h.slots n le_rfl mine
    refine ⟨setInfo (setPte k1 mmSpd (k.cosPages n).vaddr .empty) n noRoot, ?_, ?_, ?_, ?_, ?_⟩
    · simp [resetFrame, same, mine, (own n mine).1, slot, Pte.cap]
    · intro g less
      by_cases eq : g = n
      · simp [setInfo, eq, mine]
      · simpa [setInfo, setPte, eq] using h.below g (by omega)
    · intro g le
      have other : g ≠ n := by omega
      simpa [setInfo, setPte, other] using h.above g (by omega)
    · intro d i outside
      simpa [setInfo, setPte, outside] using h.others d i outside
    · intro g le mineG
      have slotG := h.slots g (by omega) mineG
      have apart : pageIdx (k.cosPages g).vaddr ≠ pageIdx (k.cosPages n).vaddr := by
        intro page
        rw [page, slot, Pte.cos.injEq] at slotG
        omega
      simpa [setInfo, setPte_pgtbl, apart] using slotG
  · refine ⟨k1, by simp [resetFrame, same, mine], ?_, ?_, h.others, ?_⟩
    · intro g less
      by_cases eq : g = n
      · rw [eq, if_neg mine, same]
      · exact h.below g (by omega)
    · exact fun g le => h.above g (by omega)
    · exact fun g le => h.slots g (by omega)

theorem resetMmFrame_resets {k : PhysMem} (own : OwnMapped c k) (n : Nat) :
    ∃ k', resetMmFrame k n = some k' ∧ ResetTo c k k' n := by
  induction n with
  | zero => exact ⟨k, rfl, by simp, fun _ _ => rfl, fun _ _ _ => rfl, fun g _ mine => (own g mine).2⟩
  | succ n ih =>
    obtain ⟨k1, before, reset⟩ := ih
    obtain ⟨k', step, reset'⟩ := resetFrame_step own reset
    exact ⟨k', by simp [resetMmFrame, before, step], reset'⟩

theorem rootsSettled_ownMapped (h : RootsSettled c s asked) : OwnMapped c s.kern := by
  intro g mine
  rcases record_cases h g with none_ | ⟨hp, nonzero, _, record, slot⟩ | ⟨m, mem, _, _, record⟩
  · simp [none_, noRoot, mmSpd] at mine
  · rw [record]
    exact ⟨nonzero, slot⟩
  · rw [record] at mine
    exact absurd mine (h.inv.mapped m mem).outside

/-- After the reset, introspection by address finds the live roots and nothing else. -/
theorem reset_introspect {k' : PhysMem} (h : RootsSettled c s asked) (reset : ResetTo c s.kern k' cosMaxMemory)
    {d : SpdId} (addr : VAddr) (spd : c.spds d) (pos : 0 < d) (fits : flags < 256) :
    (kernelOps c).introspectRoot k' flags d addr = 1 ↔
      ∃ m ∈ s.live, isRoot s m ∧ (s.maps m).spdid = d ∧ (s.maps m).addr = addr ∧ asked m = flags := by
  have after : ∀ g, k'.cosPages g = if (s.kern.cosPages g).spdid = mmSpd then noRoot else s.kern.cosPages g := by
    intro g
    by_cases bound : g < cosMaxMemory
    · exact reset.below g bound
    · have past := Nat.le_of_not_lt bound
      rw [reset.above g past, h.inv.beyond g past]
      exact (ite_self noRoot).symm
  rw [introspectRoot_iff fits pos spd]
  constructor
  · rintro ⟨_, cap, _, _, record⟩
    rw [after] at record
    split at record
    · rw [RootInfo.mk.injEq] at record
      exact absurd record.1 pos.ne
    rename_i outside
    rcases record_cases h (cap - c.pfnBase) with
      none_ | ⟨hp, _, _, own, _⟩ | ⟨m, mem, root, _, info⟩
    · rw [none_, RootInfo.mk.injEq] at record
      exact absurd record.1 pos.ne
    · simp [own] at outside
    · rw [info, RootInfo.mk.injEq] at record
      exact ⟨m, mem, root, record⟩
  · rintro ⟨m, mem, root, rfl, rfl, rfl⟩
    obtain ⟨_, _, outside, inside, slot⟩ := h.inv.mapped m mem
    refine ⟨by omega, (s.maps m).f + c.pfnBase, ?_, by omega, ?_⟩
    · rw [reset.others _ _ outside, slot]
      rfl
    · rw [Nat.add_sub_cancel, after, (h.inv.record m mem root).2]
      exact if_neg outside

/-- In every run of careful requests, in every state reached: the records are those of the live roots
and of the manager's own pages, a reboot finds exactly the live roots by address, and where the frame
base is 0 introspection by frame number returns the record of that frame. -/
theorem root_records_follow_roots (c : Config) (heap : VAddr) (pgtbl : SpdId → Nat → Pte) (t : Tracked)
    (reached : Reachable (rootSystem c heap pgtbl) (Careful c) t) : Recorded t.mem t.asked ∧
      (∃ k', resetMmFrame t.mem.kern cosMaxMemory = some k' ∧
        ∀ (d : SpdId) (addr : VAddr) (flags : Nat), c.spds d = true → 0 < d → flags < 256 →
          ((kernelOps c).introspectRoot k' flags d addr = 1 ↔
            ∃ m ∈ t.mem.live, isRoot t.mem m ∧ (t.mem.maps m).spdid = d ∧
              (t.mem.maps m).addr = addr ∧ t.asked m = flags)) ∧ (c.pfnBase = 0 → ∀ f, f < c.pfnExtent →
        mmapIntrospect c t.mem.kern (opFlagsDspd 0 0 0) 0 f = (t.mem.kern.cosPages f).vaddr ∧
          mmapIntrospect c t.mem.kern (opFlagsDspd 2 0 0) 0 f = (t.mem.kern.cosPages f).flags) := by
  have settled := rootsSettled_reachable reached
  refine ⟨rootsSettled_recorded settled, ?_, fun zero f inside => ?_⟩
  · obtain ⟨k', result, reset⟩ := resetMmFrame_resets (rootsSettled_ownMapped settled) cosMaxMemory
    refine ⟨k', result, ?_⟩
    intro d addr flags spd pos fits
    exact reset_introspect settled reset addr spd pos fits
  -- introspection by frame number returns the record stored under it only if the base is 0
  · have addr : opOf (opFlagsDspd 0 0 0) = 0 := by decide
    have flags : opOf (opFlagsDspd 2 0 0) = 2 := by decide
    simp [mmapIntrospect, addr, flags, zero, inside]

/-- Components 1 to 3, each with one region of addresses, and sixteen frames for the manager. -/
def threeComponents : Config where
  spds := fun d => decide (0 < d ∧ d < 4)
  layout := fun i => if i < 4 then some i else none
  pfnBase := 0
  pfnExtent := 16
  spdsBound := by
    intro d inside
    simp only [decide_eq_true_eq] at inside
    exact Nat.lt_of_lt_of_le inside.2 (by decide)
  pfnBound := by decide

/-- Component 1 gets a page with flags 0, shares it with component 2 and releases it, and then
obtains another one with flags 1. -/
theorem root_records_follow_released_root :
    ∃ t, Reachable (rootSystem threeComponents 12582912 fun _ _ => .empty) (Careful threeComponents) t ∧
      t.mem.live = {2} ∧ Recorded t.mem t.asked ∧ (t.mem.kern.cosPages 0).flags = 1 := by
  exact exec_reaches
    [.getPage 1 4194304 0 (plenty 0), .aliasPage 1 4194304 2 0 8388608 (plenty 1),
      .releasePage 1 4194304 0, .getPage 1 4198400 1 (plenty 2)]
    (fun t => t.mem.live = {2} ∧ (t.mem.kern.cosPages 0).flags = 1) (by decide)
    fun t reached ⟨live, flags⟩ => ⟨live, (root_records_follow_roots _ _ _ t reached).1, flags⟩

/-- Component 1 gets a page with flags 1 and releases it: the kernel is asked to revoke it with flags
0 and keeps the record of a root that is gone. -/
theorem root_records_stay_after_release :
    ¬ ∀ t, Reachable (rootSystem threeComponents 12582912 fun _ _ => .empty) anyStep t → Recorded t.mem t.asked := by
  intro claim
  obtain ⟨t, run, live, unmapped, stays⟩ := exec_ends (rootSystem threeComponents 12582912 fun _ _ => .empty) anyStep
    [.getPage 1 4194304 1 (plenty 0), .releasePage 1 4194304 0]
    (fun t => t.mem.live = ∅ ∧ (t.mem.table.frames 0).nmaps = 0 ∧ t.mem.kern.cosPages 0 ≠ noRoot) (by decide)
  rcases ((claim t ⟨_, run⟩).exact 0).mp stays with ⟨m, mem, _⟩ | own
  · simp [live] at mem
  · omega

end SuperGlue.Guarantees.RootRecords
