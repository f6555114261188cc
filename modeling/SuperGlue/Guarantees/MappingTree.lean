import SuperGlue.Guarantees.MappingCounts
import SuperGlue.Lib.SiblingForest

/-!
# The mapping tree

The tree of the mapping database as a forest of sibling rings: what `mapping_init` adds to it, that
`__mapping_linearize_decendents` collects a whole subtree in one ring and returns, and that
`mapping_del_children` and `mapping_del` destroy what they have collected. They stop half way only
when the kernel revokes another frame than the one mapped.
-/
namespace SuperGlue.Guarantees.MappingTree
open Option Function List Lib.Ring Lib.SiblingForest Source.MemMgr.Frames Source.MemMgr.Mappings MappingCounts

variable {κ : Type} {K : KernelOps κ} {s s' : State κ} {F : Shape MapPtr} {m : MapPtr}

def treeOf (s : State κ) : SiblingTree MapPtr where
  parent := fun x => (s.maps x).p
  child := fun x => (s.maps x).c
  sib := s.sib

theorem treeOf_congr (maps : s'.maps = s.maps) (sib : s'.sib = s.sib) : treeOf s' = treeOf s := by
  simp [treeOf, maps, sib]

theorem parents_update (maps : MapPtr → Mapping) (a : MapPtr) (r : Mapping) :
    (fun x => (update maps a r x).p) = update (fun x => (maps x).p) a r.p :=
  comp_update Mapping.p maps a r

theorem children_update (maps : MapPtr → Mapping) (a : MapPtr) (r : Mapping) :
    (fun x => (update maps a r x).c) = update (fun x => (maps x).c) a r.c :=
  comp_update Mapping.c maps a r

/-! ## New mappings -/

section

variable (h : Forest s.live (treeOf s) F) (fresh : m ∉ s.live)
include h fresh

/-- A record that is not live is outside the tree: clearing its pointers changes nothing. -/
theorem dead_record : update (fun x => (s.maps x).p) m none = (fun x => (s.maps x).p) ∧
      update (fun x => (s.maps x).c) m none = (fun x => (s.maps x).c) ∧ s.sib.init m = s.sib := by
  obtain ⟨_, noKids, _, orphan, alone⟩ := h.dead fresh
  have childless := h.head m
  rw [noKids] at childless
  exact ⟨update_eq_self_iff.mpr orphan.symm, update_eq_self_iff.mpr childless.symm, linked_init h.linked alone⟩

theorem treeOf_root (dest : SpdId) (addr : VAddr) (f : Nat) : treeOf (mappingInit s m dest addr none f) = treeOf s := by
  obtain ⟨parent, child, init⟩ := dead_record h fresh
  simp [treeOf, mappingInit, parents_update, children_update, parent, child, init]

theorem treeOf_child {q : MapPtr} (mem : q ∈ s.live) (dest : SpdId) (addr : VAddr) (f : Nat) :
    treeOf (mappingInit s m dest addr (some q) f) = (treeOf s).adopt q m := by
  obtain ⟨_, child, init⟩ := dead_record h fresh
  have other : q ≠ m := fun eq => fresh (eq ▸ mem)
  cases first : (s.maps q).c <;>
    simp [treeOf, mappingInit, SiblingTree.adopt, init, other, first, parents_update, children_update, child]

end

/-! ## Collecting the descendants -/

/-- `x` is a proper descendant of `m`. -/
def Below (s : State κ) : MapPtr → MapPtr → Prop := Relation.TransGen fun q x => (s.maps x).p = some q

variable {x : MapPtr}

theorem Below.parent (below : Below s m x) : (s.maps x).p ≠ none := by
  obtain ⟨q, -, parent⟩ := Relation.TransGen.tail'_iff.mp below
  simp [parent]

/-- The parent of a descendant is `m` or another one. -/
theorem Below.above (below : Below s m x) {q : MapPtr} (parent : (s.maps x).p = some q) : q = m ∨ Below s m q := by
  obtain ⟨r, above, parent'⟩ := Relation.TransGen.tail'_iff.mp below
  cases parent.symm.trans parent'
  exact Relation.reflTransGen_iff_eq_or_transGen.mp above

/-- Depths grow from `m` on, so that `m` is not among its own descendants. -/
theorem Below.depth (h : Forest s.live (treeOf s) F) (none_ : F.stale = []) (below : Below s m x) :
    F.depth m < F.depth x := by
  induction below with
  | single parent => exact (h.family _ _ (h.kid_of_parent none_ parent)).2.2
  | tail _ parent ih => exact ih.trans (h.family _ _ (h.kid_of_parent none_ parent)).2.2

/-- What the collection leaves alone: everything but the pointers of the tree, and parent pointers
are only ever cleared. -/
structure Collected (s s' : State κ) : Prop where
  rest : s' = { s with maps := s'.maps, sib := s'.sib }
  page : ∀ x, (s'.maps x).spdid = (s.maps x).spdid ∧ (s'.maps x).addr = (s.maps x).addr ∧ (s'.maps x).f = (s.maps x).f
  parent : ∀ x, (s'.maps x).p = (s.maps x).p ∨ (s'.maps x).p = none

theorem Collected.refl (s : State κ) : Collected s s :=
  ⟨rfl, fun _ => ⟨rfl, rfl, rfl⟩, fun _ => .inl rfl⟩

theorem Collected.trans {s'' : State κ} (first : Collected s s') (second : Collected s' s'') : Collected s s'' := by
  refine ⟨?_, ?_, ?_⟩
  · rw [second.rest, first.rest]
  · intro x
    obtain ⟨spd, addr, frame⟩ := first.page x
    obtain ⟨spd', addr', frame'⟩ := second.page x
    exact ⟨spd'.trans spd, addr'.trans addr, frame'.trans frame⟩
  · intro x
    rcases second.parent x with same | cleared
    · rw [same]
      exact first.parent x
    · exact .inr cleared

theorem collected_update (s : State κ) (a : MapPtr) (r : Mapping) (sib : Links MapPtr)
    (page : r.spdid = (s.maps a).spdid ∧ r.addr = (s.maps a).addr ∧ r.f = (s.maps a).f)
    (parent : r.p = (s.maps a).p ∨ r.p = none) : Collected s { s with maps := update s.maps a r, sib } := by
  refine ⟨rfl, ?_, ?_⟩
  · intro x
    by_cases eq : x = a
    · subst eq
      simpa using page
    · simp [eq]
  · intro x
    by_cases eq : x = a
    · subst eq
      simpa using parent
    · simp [eq]

/-- One round of the loop: the descendant `c` is visited. -/
def visitState (s : State κ) (first c : MapPtr) : State κ :=
  { s with
    maps := update s.maps c { s.maps c with p := none, c := none }
    sib := match (s.maps c).c with
      | none => s.sib
      | some gc => s.sib.append (s.sib.prev first) gc }

theorem visitState_tree (s : State κ) (first c : MapPtr) :
    treeOf (visitState s first c) = (treeOf s).visit first c := by
  simp only [treeOf, visitState, SiblingTree.visit, parents_update, children_update]
  cases (s.maps c).c <;> rfl

theorem visitState_collected (s : State κ) (first c : MapPtr) : Collected s (visitState s first c) :=
  collected_update s c _ _ ⟨rfl, rfl, rfl⟩ (.inr rfl)

/-- The loose nodes are live and distinct, so that there are at most as many as live nodes. -/
theorem loose_le_card (h : Forest s.live (treeOf s) F) : F.loose.length ≤ s.live.card := by
  rw [← toFinset_card_of_nodup (isRing_nodup h.loose_ring)]
  apply Finset.card_le_card
  intro x mem
  exact h.loose_live x (mem_toFinset.mp mem)

theorem linearizeFrom_succ (first c : MapPtr) (fuel : Nat) (s : State κ) : linearizeFrom first (fuel + 1) c s =
      if (visitState s first c).sib.next c = first then some (visitState s first c)
      else linearizeFrom first fuel ((visitState s first c).sib.next c) (visitState s first c) := by
  cases child : (s.maps c).c <;> simp [linearizeFrom, visitState, child]

/-- The loop returns with every descendant visited. A property that children inherit from their
parents holds of everything collected. -/
theorem linearizeFrom_forest {first c : MapPtr} {others rest : List MapPtr} {fuel : Nat} {P : MapPtr → Prop}
    (h : Forest s.live (treeOf s) F) (ring : F.loose = first :: others) (stale : F.stale = c :: rest)
    (enough : s.live.card ≤ fuel + F.done.length) (loose : ∀ x ∈ F.loose, P x)
    (inherit : ∀ r, P r → ∀ x ∈ F.kids r, P x) (empty : ∀ x ∈ F.done, F.kids x = []) :
    ∃ s' F' others', linearizeFrom first fuel c s = some s' ∧ Collected s s' ∧
      Forest s'.live (treeOf s') F' ∧ F'.stale = [] ∧ F'.done = first :: others' ∧
      (∀ x ∈ F'.done, P x ∧ F'.kids x = []) ∧ (∀ r, F.kids r = [] → F'.kids r = []) ∧
      F.done ⊆ F'.done ∧ ∀ x ∉ F'.done, (s'.maps x).p = (s.maps x).p := by
  induction fuel generalizing s F c others rest with
  | zero =>
    have bound := loose_le_card h
    simp only [Shape.loose, stale, length_append, length_cons] at bound
    omega
  | succ fuel ih =>
    have visited := forest_visit h ring stale
    have next := visit_next h ring stale
    rw [← visitState_tree] at visited next
    have loose' : (F.visit c rest).loose = first :: (others ++ F.kids c) := by
      rw [visit_loose stale, ring, cons_append]
    have parentC : P c := loose c (by simp [Shape.loose, stale])
    have looseP : ∀ x ∈ (F.visit c rest).loose, P x := by
      intro x mem
      rw [visit_loose stale] at mem
      rcases mem_append.mp mem with old | kid
      · exact loose x old
      · exact inherit c parentC x kid
    have childless : ∀ r, F.kids r = [] → (F.visit c rest).kids r = [] := by
      intro r empty
      by_cases eq : r = c <;> simp [Shape.visit, eq, empty]
    have more : F.done ⊆ (F.visit c rest).done := subset_append_left ..
    have kept : ∀ x ∉ (F.visit c rest).done, ((visitState s first c).maps x).p = (s.maps x).p := by
      intro x outside
      have other : x ≠ c := by
        rintro rfl
        simp [Shape.visit] at outside
      simp [visitState, other]
    have empty' : ∀ x ∈ (F.visit c rest).done, (F.visit c rest).kids x = [] := by
      intro x mem
      rcases mem_append.mp mem with old | new
      · exact childless x (empty x old)
      · simp [Shape.visit, mem_singleton.mp new]
    rw [linearizeFrom_succ]
    have next : (visitState s first c).sib.next c = ((rest ++ F.kids c).head?).getD first := next
    cases tail : rest ++ F.kids c with
    | nil =>
      have finished : (F.visit c rest).stale = [] := tail
      have next : (visitState s first c).sib.next c = first := by rw [next, tail]; rfl
      rw [if_pos next]
      have done : (F.visit c rest).done = first :: (others ++ F.kids c) := by
        rw [← loose', Shape.loose, finished, append_nil]
      refine ⟨_, _, _, rfl, visitState_collected s first c, visited, finished, done, ?_, childless, more, kept⟩
      intro x mem
      exact ⟨looseP x (mem_append_left _ mem), empty' x mem⟩
    | cons n tail' =>
      have stale' := tail
      have ne : n ≠ first := visited.stale_ne_first loose' (by simp [Shape.visit]) stale'
      have next : (visitState s first c).sib.next c = n := by rw [next, tail]; rfl
      rw [next, if_neg ne]
      have enough' : (visitState s first c).live.card ≤ fuel + (F.visit c rest).done.length := by
        simp only [visitState, Shape.visit, length_append, length_singleton]
        omega
      have inherit' : ∀ r, P r → ∀ x ∈ (F.visit c rest).kids r, P x := by
        intro r parent x kid
        by_cases eq : r = c
        · simp [Shape.visit, eq] at kid
        · exact inherit r parent x (by simpa [Shape.visit, eq] using kid)
      obtain ⟨s', F', others', result, collected, forest, finished, done, all, childless', more',
        kept'⟩ := ih visited loose' stale' enough' looseP inherit' empty'
      exact ⟨s', F', others', result, (visitState_collected s first c).trans collected, forest,
        finished, done, all, fun r empty => childless' r (childless r empty),
        fun x old => more' (more old),
        fun x outside => (kept' x outside).trans (kept x fun inside => outside (more' inside))⟩

/-- A descendant that is not collected would still have its parent, which has no children left. -/
theorem below_done {F' : Shape MapPtr} (forest : Forest s'.live (treeOf s') F') (finished : F'.stale = [])
    (kept : ∀ x ∉ F'.done, (s'.maps x).p = (s.maps x).p) (top : F'.kids m = [])
    (empty : ∀ x ∈ F'.done, F'.kids x = []) (below : Below s m x) : x ∈ F'.done := by
  have collected : ∀ q x, F'.kids q = [] → (s.maps x).p = some q → x ∈ F'.done := by
    intro q x childless parent
    by_contra outside
    have kid := forest.kid_of_parent finished ((kept x outside).trans parent)
    rw [childless] at kid
    contradiction
  induction below with
  | single parent => exact collected m _ top parent
  | tail _ parent ih => exact collected _ _ (empty _ ih) parent

theorem linearizeDecendents_forest (h : Forest s.live (treeOf s) F) (none_ : F.loose = []) (m : MapPtr) :
    ∃ s' F', linearizeDecendents s m = some (s', F'.done.head?) ∧ Collected s s' ∧
      Forest s'.live (treeOf s') F' ∧ F'.stale = [] ∧ (s'.maps m).c = none ∧
      (∀ x, x ∈ F'.done ↔ Below s m x) ∧ (∀ x ∈ F'.done, F'.kids x = []) ∧
      ∀ x ∉ F'.done, (s'.maps x).p = (s.maps x).p := by
  let s1 : State κ := { s with maps := update s.maps m { s.maps m with c := none } }
  have tree : treeOf s1 = { treeOf s with child := update (treeOf s).child m none } := by
    simp [treeOf, s1, parents_update, children_update]
  have collected : Collected s s1 := collected_update s m _ _ ⟨rfl, rfl, rfl⟩ (.inl rfl)
  have same : ∀ x, (s1.maps x).p = (s.maps x).p := by
    intro x
    by_cases eq : x = m <;> simp [s1, eq]
  have detached := tree ▸ forest_detach h none_ m
  have head : (s.maps m).c = (F.kids m).head? := h.head m
  have noKids : (F.detach m).kids m = [] := by simp [Shape.detach]
  cases kids : F.kids m with
  | nil =>
    rw [kids] at head
    have stale := kids
    have empty : ∀ x ∈ (F.detach m).done, (F.detach m).kids x = [] := nofun
    refine ⟨s1, F.detach m, ?_, collected, detached, stale, by simp [s1], ?_, empty, fun x _ => same x⟩
    · simp only [linearizeDecendents, head]
      rfl
    · exact fun x => ⟨nofun, below_done detached stale (fun x _ => same x) noKids empty⟩
  | cons first others =>
    rw [kids] at head
    have stale := kids
    have loose : (F.detach m).loose = first :: others := kids
    have below : ∀ x ∈ F.kids m, Below s m x := fun x kid => .single (h.parent_of_kid kid)
    have inherit : ∀ r, Below s m r → ∀ x ∈ (F.detach m).kids r, Below s m x := by
      intro r above x kid
      by_cases eq : r = m
      · simp [eq, noKids] at kid
      · simp only [Shape.detach, update_of_ne eq] at kid
        exact above.tail (h.parent_of_kid kid)
    have enough : s1.live.card ≤ s.live.card + (F.detach m).done.length := Nat.le_add_right ..
    obtain ⟨s', F', others', result, collected', forest, finished, done, all, childless, _, kept⟩ :=
      linearizeFrom_forest detached loose stale enough below inherit (by simp [Shape.detach])
    have childM : (s'.maps m).c = (F'.kids m).head? := forest.head m
    have kept : ∀ x ∉ F'.done, (s'.maps x).p = (s.maps x).p := fun x outside => (kept x outside).trans (same x)
    have empty : ∀ x ∈ F'.done, F'.kids x = [] := fun x mem => (all x mem).2
    refine ⟨s', F', ?_, collected.trans collected', forest, finished, ?_, ?_, empty, kept⟩
    · simp only [linearizeDecendents, head, List.head?_cons, done, map_eq_some_iff]
      exact ⟨s', result, rfl⟩
    · rw [childM, childless m noKids]
      rfl
    · exact fun x => ⟨fun mem => (all x mem).1, below_done forest finished kept (childless m noKids) empty⟩

/-! ## Destroying mappings -/

/-- The database inside a request: `F` tells its tree, and what a request has cut loose. -/
structure Database (s : State κ) (F : Shape MapPtr) : Prop where
  counts : Counts s [] none
  forest : Forest s.live (treeOf s) F
  frame : ∀ x q, (s.maps x).p = some q → (s.maps x).f = (s.maps q).f

theorem Database.proper (h : Database s F) (none_ : F.loose = []) : ¬ Below s m m := fun below =>
  lt_irrefl _ (below.depth h.forest (append_eq_nil_iff.mp none_).2)

/-- Every live mapping has a root above it, of the same frame; a root other than itself has children. -/
theorem Database.root_above (h : Database s F) (none_ : F.loose = []) {y : MapPtr} (mem : y ∈ s.live) :
    ∃ r ∈ s.live, (s.maps r).p = none ∧ (s.maps r).f = (s.maps y).f ∧ (r = y ∨ (s.maps r).c ≠ none) := by
  -- parents have smaller depths
  induction depth : F.depth y using Nat.strong_induction_on generalizing y with
  | _ n ih =>
    cases parent : (s.maps y).p with
    | none => exact ⟨y, mem, parent, rfl, .inl rfl⟩
    | some q =>
      have kid := h.forest.kid_of_parent (append_eq_nil_iff.mp none_).2 parent
      obtain ⟨_, liveQ, less⟩ := h.forest.family q y kid
      obtain ⟨r, liveR, rootR, frame, above⟩ := ih (F.depth q) (depth ▸ less) liveQ rfl
      refine ⟨r, liveR, rootR, frame.trans (h.frame y q parent).symm, .inr ?_⟩
      rcases above with rfl | hasChild
      · have head : (s.maps r).c = (F.kids r).head? := h.forest.head r
        rw [head]
        intro empty
        simp [List.head?_eq_none_iff.mp empty] at kid
      · exact hasChild

theorem collected_counts (h : Counts s [] none) (collected : Collected s s') : Counts s' [] none := by
  have spd := funext fun x => (collected.page x).1
  have frame := funext fun x => (collected.page x).2.2
  rw [collected.rest]
  refine ⟨⟨?_, ?_, h.vectors.credited⟩, ⟨?_, ?_, h.frames.idle, h.frames.free⟩⟩
  · intro c i x
    rw [(collected.page x).1, (collected.page x).2.1]
    exact h.vectors.lookup c i x
  · simp only [spd]
    exact h.vectors.counted
  · simp only [frame]
    exact h.frames.refs
  · intro x mem
    rw [(collected.page x).2.2]
    exact h.frames.bound x mem

theorem collected_database {F' : Shape MapPtr} (h : Database s F) (collected : Collected s s')
    (forest : Forest s'.live (treeOf s') F') : Database s' F' := by
  refine ⟨collected_counts h.counts collected, forest, ?_⟩
  intro x q parent
  rcases collected.parent x with same | cleared
  · rw [(collected.page x).2.2, (collected.page q).2.2]
    exact h.frame x q (same ▸ parent)
  · rw [cleared] at parent
    contradiction

/-- The victims are destroyed one after the other; only tree pointers change between. -/
inductive Destroyed (K : KernelOps κ) : List MapPtr → State κ → State κ → Prop where
  | nil {s s' : State κ} (collected : Collected s s') : Destroyed K [] s s'
  | cons {x : MapPtr} {rest : List MapPtr} {s s₁ s₂ s' : State κ} (collected : Collected s s₁)
      (counts : Counts s₁ [] none) (member : x ∈ s₁.live)
      (destroyed : mappingDestroy K s₁ x = some s₂) (later : Destroyed K rest s₂ s') :
      Destroyed K (x :: rest) s s'

variable {victims : List MapPtr}

theorem Destroyed.collected {s1 : State κ} (collected : Collected s s1)
    (h : Destroyed K victims s1 s') : Destroyed K victims s s' := by
  cases h with
  | nil collected' => exact .nil (collected.trans collected')
  | cons collected' counts mem destroyed later =>
    exact .cons (collected.trans collected') counts mem destroyed later

theorem Destroyed.snoc {s1 s2 : State κ} (h : Destroyed K victims s s1)
    (collected : Collected s1 s2) (counts : Counts s2 [] none) (mem : m ∈ s2.live)
    (destroyed : mappingDestroy K s2 m = some s') : Destroyed K (victims ++ [m]) s s' := by
  induction h with
  | nil collected' =>
    exact .cons (collected'.trans collected) counts mem destroyed (.nil (.refl s'))
  | cons collected' counts' mem' destroyed' _ ih =>
    exact .cons collected' counts' mem' destroyed' (ih collected)

/-- The kernel after the pages of some mappings were revoked, one after the other. -/
def revoked (K : KernelOps κ) (maps : MapPtr → Mapping) (k : κ) (gone : List MapPtr) : κ :=
  gone.foldl (fun k x => (K.revoke k (maps x).spdid (maps x).addr).1) k

/-- Some live mappings are revoked, and the kernel answers the revocation of a further one with
another frame than the one that it maps. -/
def WrongFrame (K : KernelOps κ) (s : State κ) : Prop :=
  ∃ gone x, (x :: gone).Nodup ∧ (∀ y ∈ x :: gone, y ∈ s.live) ∧
    (K.revoke (revoked K s.maps s.kern gone) (s.maps x).spdid (s.maps x).addr).2 ≠ (s.maps x).f

theorem WrongFrame.destroyed (h : WrongFrame K s') (mem : m ∈ s.live) (maps : s'.maps = s.maps)
    (live : s'.live = s.live.erase m) (kern : s'.kern = (K.revoke s.kern (s.maps m).spdid (s.maps m).addr).1) :
    WrongFrame K s := by
  obtain ⟨gone, x, nodup, inside, wrong⟩ := h
  simp only [live, Finset.mem_erase] at inside
  refine ⟨m :: gone, x, ?_, ?_, ?_⟩
  · rw [nodup_cons, nodup_cons, mem_cons, not_or]
    refine ⟨⟨(inside x mem_cons_self).1, (nodup_cons.mp nodup).1⟩, ?_, (nodup_cons.mp nodup).2⟩
    exact fun again => (inside m (mem_cons_of_mem x again)).1 rfl
  · simp only [mem_cons, forall_eq_or_imp] at inside ⊢
    exact ⟨inside.1.2, mem, fun y later => (inside.2 y later).2⟩
  · rwa [maps, kern] at wrong

theorem WrongFrame.collected (h : WrongFrame K s') (collected : Collected s s') : WrongFrame K s := by
  obtain ⟨gone, x, nodup, inside, wrong⟩ := h
  have same : revoked K s'.maps s'.kern gone = revoked K s.maps s.kern gone := by
    have kern : s'.kern = s.kern := by rw [collected.rest]
    have page : ∀ y, (s'.maps y).spdid = (s.maps y).spdid ∧ (s'.maps y).addr = (s.maps y).addr :=
      fun y => ⟨(collected.page y).1, (collected.page y).2.1⟩
    simp only [revoked, kern, page]
  refine ⟨gone, x, nodup, ?_, ?_⟩
  · rw [collected.rest] at inside
    exact inside
  · obtain ⟨spd, addr, frame⟩ := collected.page x
    rwa [same, spd, addr, frame] at wrong

theorem Destroyed.wrongFrame (h : Destroyed K victims s s') (wrong : WrongFrame K s') : WrongFrame K s := by
  induction h with
  | nil collected => exact wrong.collected collected
  | cons collected counts mem destroyed _ ih =>
    obtain ⟨_, _, maps, live, kern, _⟩ := mappingDestroy_some counts mem destroyed
    exact ((ih wrong).destroyed mem maps live kern).collected collected

theorem Destroyed.page (h : Destroyed K victims s s') (x : MapPtr) :
    (s'.maps x).spdid = (s.maps x).spdid ∧ (s'.maps x).addr = (s.maps x).addr ∧ (s'.maps x).f = (s.maps x).f := by
  induction h with
  | nil collected => exact collected.page x
  | cons collected counts mem destroyed _ ih =>
    obtain ⟨_, _, maps, _⟩ := mappingDestroy_some counts mem destroyed
    obtain ⟨spd, addr, frame⟩ := collected.page x
    rwa [maps, spd, addr, frame] at ih

/-- Destroying a mapping that is outside the tree. -/
theorem mappingDestroy_database (h : Database s F) (mem : m ∈ s.live) (outside : m ∉ F.loose)
    (orphan : (s.maps m).p = none) (childless : (s.maps m).c = none) :
    (∃ s', mappingDestroy K s m = some s' ∧ Database s' F ∧ s'.maps = s.maps ∧ s'.live = s.live.erase m) ∨
      mappingDestroy K s m = none ∧ WrongFrame K s := by
  have alone := h.forest.alone m outside orphan
  have destroyed := mappingDestroy_counts (K := K) h.counts mem alone orphan childless
  split at destroyed
  · obtain ⟨s', result, counts, maps, sib, live, _⟩ := destroyed
    refine .inl ⟨s', result, ⟨counts, ?_, ?_⟩, maps, live⟩
    · rw [treeOf_congr maps sib, live]
      exact forest_erase h.forest outside orphan childless
    · rw [maps]
      exact h.frame
  next wrong => exact .inr ⟨destroyed, [], m, by simp, by simp [mem], wrong⟩

theorem destroyFrom_database {d : MapPtr} {rest : List MapPtr} {fuel : Nat} (h : Database s F) (stale : F.stale = [])
    (done : F.done = d :: rest) (empty : ∀ x ∈ F.done, F.kids x = []) (enough : F.done.length ≤ fuel) :
    (∃ s' F', destroyFrom K fuel d s = some s' ∧ Database s' F' ∧ F'.loose = [] ∧
      Destroyed K F.done s s' ∧ s'.maps = s.maps ∧ ∀ x, x ∈ s'.live ↔ x ∈ s.live ∧ x ∉ F.done) ∨
      destroyFrom K fuel d s = none ∧ WrongFrame K s := by
  induction fuel generalizing s F d rest with
  | zero => simp [done] at enough
  | succ fuel ih =>
    let s1 : State κ := { s with sib := s.sib.rem d }
    let F1 : Shape MapPtr := { F with done := rest }
    have collected : Collected s s1 := ⟨rfl, fun _ => ⟨rfl, rfl, rfl⟩, fun _ => .inl rfl⟩
    have loose : F.loose = d :: rest := by simp [Shape.loose, stale, done]
    have loose1 : F1.loose = rest := by simp [F1, Shape.loose, stale]
    have database := collected_database h collected (forest_rem_loose h.forest stale done)
    have ring : IsRing s.sib F.loose := h.forest.loose_ring
    have nodup := isRing_nodup ring
    rw [loose] at ring nodup
    have looseD : d ∈ F.loose := by simp [loose]
    have outside := loose1 ▸ (nodup_cons.mp nodup).1
    have orphan : (s1.maps d).p = none := by
      apply eq_none_iff_forall_ne_some.mpr
      intro q parent
      exact h.forest.loose_kid d looseD q (h.forest.kid_of_parent stale parent)
    have childless : (s1.maps d).c = none := by
      have head : (s1.maps d).c = (F.kids d).head? := h.forest.head d
      rw [head, empty d (by simp [done])]
      rfl
    have mem : d ∈ s1.live := h.forest.loose_live d looseD
    have unfolded : destroyFrom K (fuel + 1) d s = (mappingDestroy K s1 d).bind fun s' =>
      if s.sib.next d = d then some s' else destroyFrom K fuel (s.sib.next d) s' := rfl
    rw [unfolded]
    rcases mappingDestroy_database database mem outside orphan childless with
      ⟨s2, destroyed, database2, maps, live⟩ | ⟨crashed, wrong⟩
    · rw [destroyed, bind_some]
      cases rest with
      | nil =>
        rw [if_pos (isRing_singleton.mp ring), done]
        refine .inl ⟨s2, F1, rfl, database2, loose1, ?_, maps, ?_⟩
        · exact .cons collected database.counts mem destroyed (.nil (.refl s2))
        · intro x
          rw [live, Finset.mem_erase, mem_singleton, and_comm]
      | cons e =>
        have next := ring.2.1
        have ne : e ≠ d := fun eq =>
          (nodup_cons.mp nodup).1 (eq ▸ mem_cons_self)
        have empty1 : ∀ x ∈ F1.done, F1.kids x = [] := by
          intro x later
          exact empty x (done ▸ mem_cons_of_mem d later)
        have enough1 : F1.done.length ≤ fuel := by
          simpa [F1, done] using enough
        rw [next, if_neg ne]
        rcases ih database2 stale rfl empty1 enough1 with
          ⟨s', F', result, database', loose', later, maps', live'⟩ | ⟨crashed, wrong⟩
        · refine .inl ⟨s', F', result, database', loose', ?_, maps'.trans maps, ?_⟩
          · rw [done]
            exact .cons collected database.counts mem destroyed later
          · intro x
            have split : x ∉ F.done ↔ x ≠ d ∧ x ∉ F1.done := by simp [done, F1]
            rw [live' x, live, Finset.mem_erase, split, ← and_assoc, and_comm (a := x ∈ s.live)]
        · obtain ⟨_, _, _, _, kern, _⟩ := mappingDestroy_some database.counts mem destroyed
          exact .inr ⟨crashed, (wrong.destroyed mem maps live kern).collected collected⟩
    · exact .inr ⟨by rw [crashed]; rfl, wrong.collected collected⟩

/-- Exactly the mappings of `gone` are destroyed, each once, and the others keep their parents. -/
structure Cut (K : KernelOps κ) (gone : MapPtr → Prop) (s s' : State κ) : Prop where
  once : ∃ victims : List MapPtr, victims.Nodup ∧ (∀ x, x ∈ victims ↔ gone x) ∧ Destroyed K victims s s'
  live : ∀ x, x ∈ s'.live ↔ x ∈ s.live ∧ ¬ gone x
  parent : ∀ x ∈ s'.live, (s'.maps x).p = (s.maps x).p

/-- `mapping_del_children` destroys the descendants of `m`. -/
theorem mappingDelChildren_database (h : Database s F) (none_ : F.loose = []) (m : MapPtr) :
    (∃ s' F', mappingDelChildren K s m = some s' ∧ Database s' F' ∧ F'.loose = [] ∧
      Cut K (Below s m) s s' ∧ (s'.maps m).c = none) ∨ mappingDelChildren K s m = none ∧ WrongFrame K s := by
  obtain ⟨s1, F1, linear, collected, forest, stale, childless, below, empty, same⟩ :=
    linearizeDecendents_forest h.forest none_ m
  have database := collected_database h collected forest
  have live1 : s1.live = s.live := by rw [collected.rest]
  have loose1 : F1.loose = F1.done := by simp [Shape.loose, stale]
  have nodup := loose1 ▸ isRing_nodup forest.loose_ring
  have destroys : (∃ s' F', mappingDelChildren K s m = some s' ∧ Database s' F' ∧ F'.loose = [] ∧
      Destroyed K F1.done s1 s' ∧ s'.maps = s1.maps ∧ ∀ x, x ∈ s'.live ↔ x ∈ s1.live ∧ x ∉ F1.done) ∨
      mappingDelChildren K s m = none ∧ WrongFrame K s1 := by
    cases done : F1.done with
    | nil =>
      refine .inl ⟨s1, F1, ?_, database, loose1.trans done, .nil (.refl s1), rfl, by simp⟩
      simp [mappingDelChildren, linear, done]
    | cons d =>
      have unfolded : mappingDelChildren K s m = destroyFrom K s1.live.card d s1 := by
        simp [mappingDelChildren, linear, done]
      rw [unfolded, ← done]
      exact destroyFrom_database database stale done empty (loose1 ▸ loose_le_card forest)
  rcases destroys with ⟨s', F', result, database', loose, destroyed, maps, kept⟩ | ⟨crashed, wrong⟩
  · refine .inl ⟨s', F', result, database', loose, ⟨⟨_, nodup, below, destroyed.collected collected⟩, ?_, ?_⟩, ?_⟩
    · intro x
      rw [kept, below, live1]
    · intro x mem
      rw [maps]
      exact same x ((kept x).mp mem).2
    · rw [maps]
      exact childless
  · exact .inr ⟨crashed, wrong.collected collected⟩

theorem mappingUnlink_tree (s : State κ) (m : MapPtr) : treeOf (mappingUnlink s m) = (treeOf s).unlink m := by
  simp only [treeOf, mappingUnlink, SiblingTree.unlink]
  cases (s.maps m).p with
  | none => simp [parents_update, children_update, SiblingTree.childWithout]
  | some q =>
    simp only [SiblingTree.childWithout]
    split
    · by_cases eq : m = q <;> simp [parents_update, children_update, eq]
    · simp [parents_update, children_update]

theorem mappingUnlink_collected (s : State κ) (m : MapPtr) : Collected s (mappingUnlink s m) := by
  unfold mappingUnlink
  cases (s.maps m).p with
  | none => exact collected_update s m _ _ ⟨rfl, rfl, rfl⟩ (.inr rfl)
  | some q =>
    simp only
    split
    · apply (collected_update s q _ s.sib ?_ ?_).trans (collected_update _ m _ _ ?_ ?_)
      · exact ⟨rfl, rfl, rfl⟩
      · exact .inl rfl
      · exact ⟨rfl, rfl, rfl⟩
      · exact .inr rfl
    · exact collected_update s m _ _ ⟨rfl, rfl, rfl⟩ (.inr rfl)

theorem mappingUnlink_parent (s : State κ) (other : x ≠ m) : ((mappingUnlink s m).maps x).p = (s.maps x).p := by
  have parent : ((mappingUnlink s m).maps x).p = update (fun y => (s.maps y).p) m none x :=
    congrFun (congrArg SiblingTree.parent (mappingUnlink_tree s m)) x
  rw [parent, update_of_ne other]

/-- `mapping_del` destroys the descendants of `m`, and then `m`. -/
theorem mappingDel_database (h : Database s F) (none_ : F.loose = []) (mem : m ∈ s.live) :
    (∃ s' F', mappingDel K s m = some s' ∧ Database s' F' ∧ F'.loose = [] ∧
      Cut K (fun x => x = m ∨ Below s m x) s s') ∨ mappingDel K s m = none ∧ WrongFrame K s := by
  rcases mappingDelChildren_database (K := K) h none_ m with
    ⟨s1, F1, result, database1, loose1, ⟨⟨victims, nodup, below, destroyed⟩, live1, parent1⟩, childless⟩ |
    ⟨crashed, wrong⟩
  · have unlinked : Database (mappingUnlink s1 m) (F1.unlink m) := by
      apply collected_database database1 (mappingUnlink_collected s1 m)
      rw [mappingUnlink_tree]
      exact forest_unlink database1.forest loose1 m
    have unfolded : mappingDel K s m = mappingDestroy K (mappingUnlink s1 m) m := by
      simp [mappingDel, result]
    have member1 := (live1 m).mpr ⟨mem, h.proper none_⟩
    have orphan : ((mappingUnlink s1 m).maps m).p = none := by simp [mappingUnlink]
    have childless' : ((mappingUnlink s1 m).maps m).c = none := by
      have before : (s1.maps m).c = (F1.kids m).head? := database1.forest.head m
      have after : ((mappingUnlink s1 m).maps m).c = ((F1.kids m).erase m).head? := unlinked.forest.head m
      rw [childless, eq_comm, List.head?_eq_none_iff] at before
      rw [after, before]
      rfl
    have outside : m ∉ (F1.unlink m).loose := by
      have loose : (F1.unlink m).loose = [] := loose1
      simp [loose]
    rw [unfolded]
    rcases mappingDestroy_database unlinked member1 outside orphan childless' with
      ⟨s', result', database', maps, live⟩ | ⟨crashed, wrong⟩
    · have gone : ∀ x, x ∈ s'.live ↔ x ≠ m ∧ x ∈ s1.live := fun x => by rw [live, Finset.mem_erase]; rfl
      have run := destroyed.snoc (mappingUnlink_collected s1 m) unlinked.counts member1 result'
      refine .inl ⟨s', _, result', database', loose1, ⟨victims ++ [m], ?_, ?_, run⟩, ?_, ?_⟩
      · rw [← concat_eq_append]
        exact nodup.concat fun victim => h.proper none_ ((below m).mp victim)
      · intro x
        rw [mem_append, mem_singleton, below, or_comm]
      · intro x
        rw [gone, live1, not_or, and_left_comm]
      · intro x survivor
        obtain ⟨other, old⟩ := (gone x).mp survivor
        rw [maps, mappingUnlink_parent s1 other]
        exact parent1 x old
    · exact .inr ⟨crashed, destroyed.wrongFrame (wrong.collected (mappingUnlink_collected s1 m))⟩
  · exact .inr ⟨by simp [mappingDel, crashed], wrong⟩

end SuperGlue.Guarantees.MappingTree
