import SuperGlue.Guarantees.MappingTree

/-!
# The mapping database stays consistent

Every request keeps lookup, reference counts, free list and mapping tree consistent with the live
mappings, and a failing one changes nothing, as long as no request asks for a page that is mapped
already. Such a request takes the `collision` exit of `mapping_crt`, which drops a count of the
component that it has not taken.
-/
namespace SuperGlue.Guarantees.MappingDatabase
open Lib.FiniteMap Lib.Ring Lib.Tally Lib.Transition Lib.SiblingForest Source.MemMgr.Frames
  Source.MemMgr.Mappings MappingCounts MappingTree

variable {κ : Type} {K : KernelOps κ} {s s' : State κ} {F : Shape MapPtr} {addr : VAddr}

/-! ## What the property says -/

/-- The structures of the database agree with the live mappings and with each other. -/
structure Consistent (s : State κ) : Prop where
  lookup : ∀ spd addr m, mappingLookup s spd addr = some m ↔
    m ∈ s.live ∧ (s.maps m).spdid = spd ∧ pageIdx (s.maps m).addr = pageIdx addr
  unique : ∀ m ∈ s.live, ∀ n ∈ s.live, (s.maps m).spdid = (s.maps n).spdid →
    pageIdx (s.maps m).addr = pageIdx (s.maps n).addr → m = n
  counted : ∀ spd cv, s.comps spd = some cv → cv.nmaps = tally s.live (fun m => (s.maps m).spdid) spd
  recorded : ∀ spd, 0 < tally s.live (fun m => (s.maps m).spdid) spd → s.comps spd ≠ none
  frames : ∀ f, f < cosMaxMemory →
    (s.table.frames f).nmaps = tally s.live (fun m => (s.maps m).f) f ∨
      (s.table.frames f).nmaps = -1 ∧ tally s.live (fun m => (s.maps m).f) f = 0
  free : ∃ l, FreeList s.table l ∧ ∀ f, f < cosMaxMemory → (f ∈ l ↔ (s.table.frames f).nmaps = 0)
  parent : ∀ m q, (s.maps m).p = some q → m ∈ s.live ∧ q ∈ s.live ∧ (s.maps m).f = (s.maps q).f
  children : ∀ q, ∃ ring, IsRing s.sib ring ∧ ring.head? = (s.maps q).c ∧
    ∀ m, ring.count m = if (s.maps m).p = some q then 1 else 0

/-- The records, mappings and rings are the same, and so are the counts of all frames, except that
the manager may have taken unused frames for its own pages. -/
def Unchanged (s s' : State κ) : Prop := Held s s' ∧ s'.comps = s.comps

/-- The answers that tell the caller of a failure. -/
def failed : Request → Int → Bool
  | .getPage .., ret => ret ≤ 0
  | .aliasPage .., ret => ret ≤ 0
  | .revokePage .., ret => ret < 0
  | .releasePage .., ret => ret < 0

/-- No request reaches `mapping_crt` for a page that is mapped already. -/
def NoCollision (s : State κ) : Request → Prop
  | .getPage spd addr _ _ => s.table.freelist = .null ∨ mappingLookup s spd addr = none
  | .aliasPage sSpd sAddr dSpd _ dAddr _ =>
    mappingLookup s sSpd sAddr = none ∨ mappingLookup s dSpd dAddr = none
  | _ => True

instance : DecidableRel (NoCollision : State κ → Request → Prop) := by
  intro s request
  unfold NoCollision
  split <;> infer_instance

/-! ## The invariant between requests -/

def Settled (s : State κ) : Prop := ∃ F, F.loose = [] ∧ Database s F

theorem settled_consistent (h : Settled s) : Consistent s := by
  obtain ⟨F, none_, ⟨counts, forest, frame⟩⟩ := h
  have noStale := (List.append_eq_nil_iff.mp none_).2
  have kid : ∀ m q, (s.maps m).p = some q ↔ m ∈ F.kids q := fun m q =>
    forest.kid m q (by simp [noStale])
  have lookup : ∀ spd addr m, mappingLookup s spd addr = some m ↔
      m ∈ s.live ∧ (s.maps m).spdid = spd ∧ pageIdx (s.maps m).addr = pageIdx addr :=
    fun spd addr m => counts.vectors.lookup spd (pageIdx addr) m
  refine ⟨lookup, ?_, ?_, ?_, counts.frames.refs, ?_, ?_, ?_⟩
  · intro m liveM n liveN spd page
    have foundM := (lookup (s.maps n).spdid (s.maps n).addr m).mpr ⟨liveM, spd, page⟩
    have foundN := (lookup (s.maps n).spdid (s.maps n).addr n).mpr ⟨liveN, rfl, rfl⟩
    rw [foundM] at foundN
    exact Option.some.inj foundN
  · intro spd cv found
    simpa using (counts.vectors.counted spd cv found).2
  · intro spd pos absent
    have zero := vectors_none counts.vectors absent
    omega
  · simpa [FreeFrames] using counts.frames.free
  · intro m q parent
    obtain ⟨liveM, liveQ, _⟩ := forest.family q m ((kid m q).mp parent)
    exact ⟨liveM, liveQ, frame m q parent⟩
  · intro q
    refine ⟨F.kids q, forest.kids_ring q, (forest.head q).symm, ?_⟩
    intro m
    rw [List.Nodup.count (isRing_nodup (forest.kids_ring q))]
    simp [kid]

theorem settled_init (heap : VAddr) (kern : κ) : Settled (init heap kern) := by
  refine ⟨⟨fun _ => [], fun _ => 0, [], []⟩, rfl, ⟨⟨?_, ?_⟩, forest_empty, by simp [init]⟩⟩
  · exact ⟨by simp [init, pageAt], by simp [init], by simp⟩
  · refine ⟨?_, by simp [init], by simp, freeFrames_init⟩
    intro f bound
    simp [init, frameInit, tally_empty]

theorem Unchanged.refl (s : State κ) : Unchanged s s := ⟨Held.refl s, rfl⟩

/-- What is settled depends on the tables, the mappings and the rings only. -/
theorem database_congr (h : Database s F) (counts : Counts s' [] none) (maps : s'.maps = s.maps)
    (sib : s'.sib = s.sib) (live : s'.live = s.live) : Database s' F := by
  refine ⟨counts, ?_, ?_⟩
  · rw [treeOf_congr maps sib, live]
    exact h.forest
  · rw [maps]
    exact h.frame

/-- A new mapping, counted already, takes its place in the tree. -/
theorem created_settled {p : Option MapPtr} {m : MapPtr} {f : Nat} {dest : SpdId}
    (h : Database s F) (none_ : F.loose = []) (counts : Counts s' [] none) (fresh : m ∉ s.live)
    (parent : ∀ q, p = some q → q ∈ s.live ∧ (s.maps q).f = f) (live : s'.live = insert m s.live)
    (maps : s'.maps = (mappingInit s m dest addr p f).maps)
    (sib : s'.sib = (mappingInit s m dest addr p f).sib) : Settled s' := by
  have tree := treeOf_congr maps sib
  have notSelf : p ≠ some m := fun eq => fresh (parent m eq).1
  have frame : ∀ x, x ≠ m → (s'.maps x).f = (s.maps x).f := by
    intro x other
    rw [maps]
    exact (mappingInit_old s dest addr p f other).2.2
  have frameM : (s'.maps m).f = f := by
    rw [maps]
    exact (mappingInit_new s dest addr f notSelf).2.2
  have old : ∀ x q, (s.maps x).p = some q → (s'.maps x).f = (s'.maps q).f := by
    intro x q parent'
    have kid := h.forest.kid_of_parent (List.append_eq_nil_iff.mp none_).2 parent'
    obtain ⟨liveX, liveQ, _⟩ := h.forest.family q x kid
    rw [frame x fun eq => fresh (eq ▸ liveX), frame q fun eq => fresh (eq ▸ liveQ)]
    exact h.frame x q parent'
  cases p with
  | none =>
    rw [treeOf_root h.forest fresh] at tree
    refine ⟨F, none_, counts, ?_, ?_⟩
    · rw [tree, live]
      exact forest_root h.forest m
    · intro x q parent'
      have same : (s'.maps x).p = (s.maps x).p := congrFun (congrArg SiblingTree.parent tree) x
      exact old x q (same ▸ parent')
  | some q =>
    obtain ⟨mem, frameQ⟩ := parent q rfl
    rw [treeOf_child h.forest fresh mem] at tree
    refine ⟨F.adopt q m, none_, counts, ?_, ?_⟩
    · rw [tree, live]
      exact forest_adopt h.forest fresh mem
    intro x r parent'
    have same : (s'.maps x).p = Function.update (fun x => (s.maps x).p) m (some q) x :=
      congrFun (congrArg SiblingTree.parent tree) x
    obtain ⟨rfl, rfl⟩ | ⟨-, parent'⟩ := update_known (same ▸ parent')
    · rw [frameM, frame r fun eq => fresh (eq ▸ mem), frameQ]
    · exact old x r parent'

/-! ## The requests -/

variable {ret : Int}

section
variable (h : Settled s) {flags : Int}
include h

theorem getPage_settled {spd : SpdId} (empty : s.table.freelist = .null ∨ mappingLookup s spd addr = none)
    (exit : GetExit K s spd addr flags s' ret) : Settled s' ∧ (ret ≤ 0 → Unchanged s s') := by
  obtain ⟨F, none_, database⟩ := h
  have start : ∀ {f t}, frameAlloc s.table = .ok (some f, t) →
      mappingLookup { s with table := t } spd addr = none ∧ Counts { s with table := t } [f] none ∧
        f < cosMaxMemory ∧ Held s { s with table := t } := by
    intro f t popped
    obtain ⟨frames, bound, _, _, same⟩ := frameRefs_pop database.counts.frames popped
    refine ⟨?_, ⟨database.counts.vectors, frames⟩, bound, ⟨rfl, rfl, rfl, fun g => .inl (same g)⟩⟩
    rcases empty with null | absent
    · simp [frameAlloc, null] at popped
    · exact absent
  cases exit with
  | noFrame => exact ⟨⟨F, none_, database⟩, fun _ => Unchanged.refl s⟩
  | @failed f t s1 popped exit =>
    obtain ⟨absent, counts, _, held⟩ := start popped
    obtain ⟨counts1, held1, comps⟩ := crtExit_failed counts absent exit
    obtain ⟨frames, same⟩ := frameRefs_push counts1.frames (by simp)
    have held' : Held s { s1 with table := frameDeref s1.table f } := by
      apply (held.trans held1).trans
      exact ⟨rfl, rfl, rfl, fun g => .inl (same g)⟩
    refine ⟨⟨F, none_, ?_⟩, fun _ => ⟨held', comps⟩⟩
    exact database_congr database ⟨counts1.vectors, frames⟩ held'.maps held'.sib held'.live
  | @got f t s1 m k popped nonzero exit rooted =>
    obtain ⟨_, counts, bound, _⟩ := start popped
    have rest : ∀ g, g ∈ ([] : List Nat) ↔ g ∈ [f] ∧ g ≠ f := by simp
    obtain ⟨counts1, fresh, live, maps, sib, mapped⟩ := crtExit_created counts bound (by simp) (by simp) rest exit
    have pos := Int.natCast_pos.mpr (Nat.pos_of_ne_zero nonzero.2)
    refine ⟨?_, fun failed => absurd pos (not_lt.mpr failed)⟩
    have counts' : Counts { s1 with table := setRoot s1.table f m, kern := k } [] none :=
      ⟨counts1.vectors, frameRefs_setRoot counts1.frames mapped.ne'⟩
    have maps : s1.maps = (mappingInit s m spd addr none f).maps := maps
    exact created_settled database none_ counts' fresh (by simp) live maps sib

theorem aliasPage_settled {sSpd dSpd : SpdId} {sAddr dAddr : VAddr}
    (empty : mappingLookup s sSpd sAddr = none ∨ mappingLookup s dSpd dAddr = none)
    (exit : AliasExit K s sSpd sAddr dSpd flags dAddr s' ret) : Settled s' ∧ (ret ≤ 0 → Unchanged s s') := by
  have consistent := settled_consistent h
  obtain ⟨F, none_, database⟩ := h
  cases exit with
  | noSource => exact ⟨⟨F, none_, database⟩, fun _ => Unchanged.refl s⟩
  | failed found exit =>
    obtain ⟨counts, held, comps⟩ := crtExit_failed database.counts (empty.resolve_left (by simp [found])) exit
    refine ⟨⟨F, none_, ?_⟩, fun _ => ⟨held, comps⟩⟩
    exact database_congr database counts held.maps held.sib held.live
  | @aliased m n _ found nonzero exit =>
    obtain ⟨mem, _⟩ := (consistent.lookup sSpd sAddr m).mp found
    have bound := database.counts.frames.bound m mem
    have rest : ∀ g, g ∈ ([] : List Nat) ↔ g ∈ ([] : List Nat) ∧ g ≠ (s.maps m).f := by simp
    have parent : ∀ q, some m = some q → q ∈ s.live ∧ (s.maps q).f = (s.maps m).f := by
      rintro q ⟨⟩
      exact ⟨mem, rfl⟩
    obtain ⟨counts, fresh, live, maps, sib, _⟩ := crtExit_created database.counts bound (by simp)
      (fun q eq => (parent q eq).1) rest exit
    have pos := Int.natCast_pos.mpr (Nat.pos_of_ne_zero nonzero.2)
    refine ⟨?_, fun failed => absurd pos (not_lt.mpr failed)⟩
    exact created_settled database none_ counts fresh parent live maps sib

/-- A revocation returns, unless the kernel revokes another frame than the one mapped. -/
theorem revokePage_settled (spd : SpdId) (addr : VAddr) :
    (∃ s' ret, mmanRevokePage K s spd addr = some (s', ret) ∧ Settled s' ∧ (ret < 0 → Unchanged s s') ∧
      ∀ m, mappingLookup s spd addr = some m → ret = 0 ∧ Cut K (Below s m) s s') ∨
      mmanRevokePage K s spd addr = none ∧ WrongFrame K s := by
  obtain ⟨F, none_, database⟩ := h
  cases found : mappingLookup s spd addr with
  | none =>
    refine .inl ⟨s, einval, ?_, ⟨F, none_, database⟩, fun _ => Unchanged.refl s, nofun⟩
    simp [mmanRevokePage, found]
  | some m =>
    rcases mappingDelChildren_database (K := K) database none_ m with
      ⟨s', F', result, database', loose, cut, _⟩ | ⟨crashed, wrong⟩
    · refine .inl ⟨s', 0, ?_, ⟨F', loose, database'⟩, fun failed => absurd failed (by decide), ?_⟩
      · simp [mmanRevokePage, found, result]
      · rintro _ ⟨⟩
        exact ⟨rfl, cut⟩
    · exact .inr ⟨by simp [mmanRevokePage, found, crashed], wrong⟩

theorem releasePage_settled (spd : SpdId) (addr : VAddr) (flags : Int) :
    (∃ s' ret, mmanReleasePage K s spd addr flags = some (s', ret) ∧ Settled s' ∧ (ret < 0 → Unchanged s s') ∧
      ∀ m, mappingLookup s (if 0 < flags then flags.toNat % 65536 else spd) addr = some m →
        ret = 0 ∧ Cut K (fun x => x = m ∨ Below s m x) s s') ∨
      mmanReleasePage K s spd addr flags = none ∧ WrongFrame K s := by
  have consistent := settled_consistent h
  obtain ⟨F, none_, database⟩ := h
  cases found : mappingLookup s (if 0 < flags then flags.toNat % 65536 else spd) addr with
  | none =>
    refine .inl ⟨s, -1, ?_, ⟨F, none_, database⟩, fun _ => Unchanged.refl s, nofun⟩
    simp [mmanReleasePage, found]
  | some m =>
    obtain ⟨mem, _⟩ := (consistent.lookup _ addr m).mp found
    rcases mappingDel_database (K := K) database none_ mem with
      ⟨s', F', result, database', loose, cut⟩ | ⟨crashed, wrong⟩
    · refine .inl ⟨s', 0, ?_, ⟨F', loose, database'⟩, fun failed => absurd failed (by decide), ?_⟩
      · simp [mmanReleasePage, found, result]
      · rintro _ ⟨⟩
        exact ⟨rfl, cut⟩
    · exact .inr ⟨by simp [mmanReleasePage, found, crashed], wrong⟩

/-- A request that keeps the condition keeps the database settled, and changes nothing if it fails. -/
theorem serve_settled {request : Request} (allowed : NoCollision s request)
    (served : serve K s request = some (s', ret)) : Settled s' ∧ (failed request ret → Unchanged s s') := by
  cases request with
  | getPage =>
    simpa [failed] using getPage_settled h allowed (mmanGetPage_exit served)
  | aliasPage =>
    simpa [failed] using aliasPage_settled h allowed (mmanAliasPage_exit served)
  | revokePage spd addr =>
    have served : mmanRevokePage K s spd addr = some (s', ret) := served
    rcases revokePage_settled h spd addr with ⟨_, _, result, settled, rest, _⟩ | ⟨crashed, _⟩
    · cases served.symm.trans result
      simpa [failed] using ⟨settled, rest⟩
    · simp [crashed] at served
  | releasePage spd addr flags =>
    have served : mmanReleasePage K s spd addr flags = some (s', ret) := served
    rcases releasePage_settled h spd addr flags with ⟨_, _, result, settled, rest, _⟩ | ⟨crashed, _⟩
    · cases served.symm.trans result
      simpa [failed] using ⟨settled, rest⟩
    · simp [crashed] at served

end

theorem settled_reachable {heap : VAddr} {kern : κ}
    (reached : Reachable (memSystem K heap kern) NoCollision s) : Settled s := by
  apply reached.invariant Settled (settled_init heap kern)
  intro s request s' settled allowed step
  obtain ⟨⟨_, ret⟩, served, rfl⟩ := Option.map_eq_some_iff.mp step
  exact (serve_settled settled allowed served).1

/-- In every run without a collision the database is consistent in every state reached, for every
kernel. A failing call changes nothing, and revoking and releasing calls return unless the kernel
answers one of their revocations with another frame than the one mapped. -/
theorem mapping_database_consistent (K : KernelOps κ) (heap : VAddr) (kern : κ) (s : State κ)
    (reached : Reachable (memSystem K heap kern) NoCollision s) : Consistent s ∧
      (∀ request s' ret, NoCollision s request → serve K s request = some (s', ret) →
        failed request ret = true → Unchanged s s') ∧
      (∀ spd addr, serve K s (.revokePage spd addr) = none → WrongFrame K s) ∧
      ∀ spd addr flags, serve K s (.releasePage spd addr flags) = none → WrongFrame K s := by
  have settled := settled_reachable reached
  refine ⟨settled_consistent settled, ?_, ?_, ?_⟩
  · intro request s' ret allowed served
    exact (serve_settled settled allowed served).2
  · intro spd addr crashed
    rcases revokePage_settled (K := K) settled spd addr with ⟨_, _, result, _⟩ | ⟨_, wrong⟩
    · simp [serve, result] at crashed
    · exact wrong
  · intro spd addr flags crashed
    rcases releasePage_settled (K := K) settled spd addr flags with ⟨_, _, result, _⟩ | ⟨_, wrong⟩
    · simp [serve, result] at crashed
    · exact wrong

/-- A kernel that grants everything and revokes frame 0. -/
def agreeableKernel : KernelOps Unit where
  grant := fun _ _ _ _ _ => ((), 0)
  revoke := fun _ _ _ => ((), 0)
  setRoot := fun _ _ _ _ _ => ((), 0)
  introspectRoot := fun _ _ _ _ => 0

/-- Allocators that find a component record, and the mapping record `m`. -/
def plenty (m : MapPtr) : Env := ⟨[], true, [], some m, []⟩

/-- Component 1 gets a page and shares it with component 2. -/
theorem mapping_database_shared_page :
    ∃ s, Reachable (memSystem agreeableKernel 4096 ()) NoCollision s ∧ s.live = {0, 1} ∧
      Consistent s ∧ (s.maps 1).p = some 0 := by
  exact exec_reaches
    [.getPage 1 4096 0 (plenty 0), .aliasPage 1 4096 2 0 8192 (plenty 1)]
    (fun s => s.live = {0, 1} ∧ (s.maps 1).p = some 0) (by decide)
    fun s reached ⟨live, parent⟩ => ⟨live, (mapping_database_consistent _ _ _ s reached).1, parent⟩

/-- Component 1 asks twice for the same page: the second request fails, and its `cvas_deref` frees
the record of the component although its mapping is live. -/
theorem mapping_database_collision_fails :
    ¬ ∀ s, Reachable (memSystem agreeableKernel 4096 ()) anyStep s → Consistent s := by
  intro claim
  obtain ⟨s, run, mapped, gone⟩ := exec_ends (memSystem agreeableKernel 4096 ()) anyStep
    [.getPage 1 4096 0 (plenty 0), .getPage 1 4096 0 (plenty 1)]
    (fun s => 0 < tally s.live (fun m => (s.maps m).spdid) 1 ∧ s.comps 1 = none) (by decide)
  exact (claim s ⟨_, run⟩).recorded 1 mapped gone

end SuperGlue.Guarantees.MappingDatabase
