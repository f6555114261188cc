import SuperGlue.Lib.Ring

/-!
# Forests of nodes with sibling rings

Every node has a parent pointer and a pointer to its first child, and the children of one node form
an intrusive ring. A tree is taken apart by collecting its nodes in one loose ring; a node of that
ring may still carry a stale parent pointer until it is visited.
-/
namespace SuperGlue.Lib.SiblingForest
open Function List Lib.Ring

variable {α : Type}

structure SiblingTree (α : Type) where
  parent : α → Option α
  child : α → Option α
  sib : Links α

/-- The children of every node in ring order, a depth that grows towards the leaves, and the loose
ring: first the visited nodes, then those whose parent pointer is `stale`. -/
structure Shape (α : Type) where
  kids : α → List α
  depth : α → Nat
  done : List α
  stale : List α

def Shape.loose (F : Shape α) : List α := F.done ++ F.stale

structure Forest (live : Finset α) (T : SiblingTree α) (F : Shape α) : Prop where
  linked : Linked T.sib
  kids_ring : ∀ q, IsRing T.sib (F.kids q)
  loose_ring : IsRing T.sib F.loose
  head : ∀ q, T.child q = (F.kids q).head?
  kid : ∀ x q, x ∉ F.stale → (T.parent x = some q ↔ x ∈ F.kids q)
  loose_live : ∀ x ∈ F.loose, x ∈ live
  loose_kid : ∀ x ∈ F.loose, ∀ q, x ∉ F.kids q
  family : ∀ q, ∀ x ∈ F.kids q, x ∈ live ∧ q ∈ live ∧ F.depth q < F.depth x
  alone : ∀ x, x ∉ F.loose → T.parent x = none → T.sib.next x = x

variable {live : Finset α} {T : SiblingTree α} {F : Shape α} {m q r x first c : α}

theorem Forest.parent_of_kid (h : Forest live T F) (mem : x ∈ F.kids q) : T.parent x = some q :=
  (h.kid x q fun stale => h.loose_kid x (mem_append_right F.done stale) q mem).mpr mem

theorem Forest.kid_of_parent (h : Forest live T F) (finished : F.stale = []) (parent : T.parent x = some q) :
    x ∈ F.kids q :=
  (h.kid x q (by simp [finished])).mp parent

theorem Forest.kid_unique (h : Forest live T F) (first : x ∈ F.kids q) (second : x ∈ F.kids r) : q = r := by
  have one := h.parent_of_kid first
  rw [h.parent_of_kid second] at one
  exact (Option.some.inj one).symm

/-- A node that is not live has no place in the forest. -/
theorem Forest.dead (h : Forest live T F) (fresh : m ∉ live) :
    (∀ r, m ∉ F.kids r) ∧ F.kids m = [] ∧ m ∉ F.loose ∧ T.parent m = none ∧ T.sib.next m = m := by
  have nowhere : ∀ r, m ∉ F.kids r := fun r mem => fresh (h.family r m mem).1
  have outside : m ∉ F.loose := fun mem => fresh (h.loose_live m mem)
  have orphan : T.parent m = none := by
    cases parent : T.parent m with
    | none => rfl
    | some r =>
      have notStale : m ∉ F.stale := fun mem => outside (mem_append_right F.done mem)
      exact absurd ((h.kid m r notStale).mp parent) (nowhere r)
  refine ⟨nowhere, ?_, outside, orphan, h.alone m outside orphan⟩
  apply eq_nil_iff_forall_not_mem.mpr
  intro x mem
  exact fresh (h.family m x mem).2.1

theorem forest_empty : Forest (∅ : Finset α) ⟨fun _ => none, fun _ => none, ⟨id, id⟩⟩
    ⟨fun _ => [], fun _ => 0, [], []⟩ where
  linked := ⟨fun _ => rfl, fun _ => rfl⟩
  kids_ring := fun _ => trivial
  loose_ring := trivial
  head := fun _ => rfl
  kid := by simp
  loose_live := by simp [Shape.loose]
  loose_kid := by simp [Shape.loose]
  family := by simp
  alone := fun _ _ _ => rfl

/-! ## Nodes that come and go -/

/-- A forest depends on `live` only through the nodes in it. -/
theorem Forest.restrict {live' : Finset α} (h : Forest live T F)
    (loose : ∀ x ∈ F.loose, x ∈ live') (family : ∀ q, ∀ x ∈ F.kids q, x ∈ live' ∧ q ∈ live') : Forest live' T F :=
  { h with
    loose_live := loose
    family := fun q x mem =>
      ⟨(family q x mem).1, (family q x mem).2, (h.family q x mem).2.2⟩ }

/-- Where a new child goes: second in the ring of its siblings. -/
def insertKid (m : α) : List α → List α
  | [] => [m]
  | c :: rest => c :: m :: rest

theorem mem_insertKid {l : List α} : x ∈ insertKid m l ↔ x = m ∨ x ∈ l := by
  cases l with
  | nil => simp [insertKid]
  | cons =>
    simp only [insertKid, mem_cons]
    tauto

/-- Once a node has been visited, the first node of the loose ring is not stale. -/
theorem Forest.stale_ne_first {first n : α} {others tail : List α} (h : Forest live T F)
    (ring : F.loose = first :: others) (visited : F.done ≠ []) (stale : F.stale = n :: tail) : n ≠ first := by
  have nodup := isRing_nodup h.loose_ring
  cases done : F.done with
  | nil => exact absurd done visited
  | cons =>
    simp only [Shape.loose, done, stale, cons_append, List.cons.injEq] at ring nodup
    rw [← ring.1]
    rintro rfl
    simp at nodup

variable [DecidableEq α] {rest : List α}

theorem forest_root (h : Forest live T F) (m : α) : Forest (insert m live) T F := by
  apply h.restrict
  · intro x mem
    exact Finset.mem_insert_of_mem (h.loose_live x mem)
  · intro q x mem
    obtain ⟨liveX, liveQ, _⟩ := h.family q x mem
    exact ⟨Finset.mem_insert_of_mem liveX, Finset.mem_insert_of_mem liveQ⟩

theorem forest_erase (h : Forest live T F) (outside : m ∉ F.loose) (orphan : T.parent m = none)
    (childless : T.child m = none) : Forest (live.erase m) T F := by
  have noKids : F.kids m = [] := by
    rw [h.head m] at childless
    exact List.head?_eq_none_iff.mp childless
  apply h.restrict
  · intro x mem
    refine Finset.mem_erase.mpr ⟨?_, h.loose_live x mem⟩
    rintro rfl
    exact outside mem
  intro q x mem
  obtain ⟨liveX, liveQ, _⟩ := h.family q x mem
  refine ⟨Finset.mem_erase.mpr ⟨?_, liveX⟩, Finset.mem_erase.mpr ⟨?_, liveQ⟩⟩
  · rintro rfl
    rw [h.parent_of_kid mem] at orphan
    contradiction
  · rintro rfl
    simp [noKids] at mem

/-- The tree after `m` has become a child of `q`. -/
def SiblingTree.adopt (T : SiblingTree α) (q m : α) : SiblingTree α where
  parent := update T.parent m (some q)
  child := match T.child q with
    | none => update T.child q (some m)
    | some _ => T.child
  sib := match T.child q with
    | none => T.sib
    | some c => T.sib.add c m

def Shape.adopt (F : Shape α) (q m : α) : Shape α :=
  { F with
    kids := update F.kids q (insertKid m (F.kids q))
    depth := update F.depth m (F.depth q + 1) }

/-- The rings after the adoption: the new one, and all that do not touch it. -/
theorem adopt_rings (h : Forest live T F) (fresh : m ∉ live) :
    Linked (T.adopt q m).sib ∧ IsRing (T.adopt q m).sib (insertKid m (F.kids q)) ∧
      (∀ nodes, IsRing T.sib nodes → (∀ x ∈ nodes, x ≠ m ∧ x ∉ F.kids q) → IsRing (T.adopt q m).sib nodes) ∧
      ∀ x, x ≠ m → x ∉ F.kids q → (T.adopt q m).sib.next x = T.sib.next x := by
  obtain ⟨nowhere, _, _, _, alone⟩ := h.dead fresh
  have ring := h.kids_ring q
  have head := h.head q
  unfold SiblingTree.adopt
  cases kids : F.kids q with
  | nil =>
    rw [kids] at head
    simp only [head, List.head?_nil]
    exact ⟨h.linked, isRing_singleton.mpr alone, fun _ ring' _ => ring', fun _ _ _ => trivial⟩
  | cons c rest =>
    rw [kids] at head ring
    have off := kids ▸ nowhere q
    have other : m ≠ c := fun eq => off (eq ▸ mem_cons_self)
    simp only [head, List.head?_cons]
    refine ⟨add_linked h.linked alone other, isRing_add ring off, ?_, ?_⟩
    · intro nodes ring' apart
      apply isRing_add_other ring'
      · exact fun mem => (apart c mem).2 mem_cons_self
      · exact fun mem => (apart m mem).1 rfl
    · intro x notM notKid
      have notC : x ≠ c := fun eq => notKid (eq ▸ mem_cons_self)
      rw [add_next, if_neg notC, if_neg notM]

theorem forest_adopt (h : Forest live T F) (fresh : m ∉ live) (mem : q ∈ live) :
    Forest (insert m live) (T.adopt q m) (F.adopt q m) := by
  obtain ⟨nowhere, noKids, outside, orphan, alone⟩ := h.dead fresh
  obtain ⟨linked, ring, others, next⟩ := adopt_rings (q := q) h fresh
  have kids : ∀ x r, x ∈ (F.adopt q m).kids r ↔ (r = q ∧ x = m) ∨ x ∈ F.kids r := by
    intro x r
    by_cases eq : r = q
    · subst eq
      simp [Shape.adopt, mem_insertKid]
    · simp [Shape.adopt, eq]
  have parent : ∀ x, (T.adopt q m).parent x = if x = m then some q else T.parent x := fun x =>
    update_apply ..
  have outsideKids : ∀ x ∈ F.loose, x ≠ m ∧ x ∉ F.kids q := by
    intro x loose
    refine ⟨?_, h.loose_kid x loose q⟩
    rintro rfl
    exact outside loose
  refine ⟨linked, ?_, others _ h.loose_ring outsideKids, ?_, ?_, ?_, ?_, ?_, ?_⟩
  · intro r
    by_cases eq : r = q
    · subst eq
      simpa [Shape.adopt] using ring
    have apart : ∀ x ∈ F.kids r, x ≠ m ∧ x ∉ F.kids q := by
      intro x kid
      refine ⟨?_, fun kid' => eq (h.kid_unique kid kid')⟩
      rintro rfl
      exact nowhere r kid
    simpa [Shape.adopt, eq] using others _ (h.kids_ring r) apart
  · intro r
    have head := h.head q
    cases kidsQ : F.kids q with
    | nil | cons c rest =>
      rw [kidsQ] at head
      by_cases eq : r = q
      · simp [SiblingTree.adopt, Shape.adopt, head, eq, kidsQ, insertKid]
      · simp [SiblingTree.adopt, Shape.adopt, head, eq, h.head r]
  · intro x r notStale
    rw [kids, parent]
    split
    next eq =>
      subst eq
      simp [nowhere r, eq_comm]
    next other =>
      simpa [other] using h.kid x r notStale
  · intro x loose
    exact Finset.mem_insert_of_mem (h.loose_live x loose)
  · intro x loose r
    rw [kids]
    simp [(outsideKids x loose).1, h.loose_kid x loose r]
  · intro r x kid
    rcases (kids x r).mp kid with ⟨rfl, rfl⟩ | old
    · have other : r ≠ x := fun eq => fresh (eq ▸ mem)
      simp [Shape.adopt, mem, other]
    · obtain ⟨liveX, liveR, depth⟩ := h.family r x old
      have notX : x ≠ m := fun eq => fresh (eq ▸ liveX)
      have notR : r ≠ m := fun eq => fresh (eq ▸ liveR)
      simpa [Shape.adopt, liveX, liveR, notX, notR] using depth
  · intro x loose orphanX
    rw [parent] at orphanX
    split at orphanX
    · contradiction
    rename_i other
    have notKid : x ∉ F.kids q := by
      intro kid
      rw [h.parent_of_kid kid] at orphanX
      contradiction
    rw [next x other notKid]
    exact h.alone x loose orphanX

/-! ## Collecting the descendants of a node -/

/-- The children of `q` become the loose ring. -/
def Shape.detach (F : Shape α) (q : α) : Shape α :=
  { F with kids := update F.kids q [], done := [], stale := F.kids q }

theorem forest_detach (h : Forest live T F) (none_ : F.loose = []) (q : α) :
    Forest live { T with child := update T.child q none } (F.detach q) := by
  have noStale := (append_eq_nil_iff.mp none_).2
  have kids : ∀ r, (F.detach q).kids r = if r = q then [] else F.kids r := fun r =>
    update_apply ..
  refine ⟨h.linked, ?_, ?_, ?_, ?_, ?_, ?_, ?_, ?_⟩
  · intro r
    rw [kids]
    split
    · trivial
    · exact h.kids_ring r
  · exact h.kids_ring q
  · intro r
    rw [kids]
    by_cases eq : r = q
    · simp [eq]
    · simpa [eq] using h.head r
  · intro x r notKid
    rw [kids, h.kid x r (by simp [noStale])]
    split
    next eq =>
      subst eq
      exact iff_of_false notKid not_mem_nil
    · rfl
  · intro x mem
    exact (h.family q x mem).1
  · intro x mem r
    rw [kids]
    split
    · simp
    next other => exact fun kid => other (h.kid_unique kid mem)
  · intro r x mem
    rw [kids] at mem
    split at mem
    · simp at mem
    · exact h.family r x mem
  · intro x _ orphan
    exact h.alone x (by simp [none_]) orphan

/-- Visit the stale node `c`: it loses its parent pointer, and its children join the loose ring. -/
def SiblingTree.visit (T : SiblingTree α) (first c : α) : SiblingTree α where
  parent := update T.parent c none
  child := update T.child c none
  sib := match T.child c with
    | none => T.sib
    | some g => T.sib.append (T.sib.prev first) g

def Shape.visit (F : Shape α) (c : α) (rest : List α) : Shape α :=
  { F with
    kids := update F.kids c []
    done := F.done ++ [c]
    stale := rest ++ F.kids c }

theorem visit_loose {c : α} (stale : F.stale = c :: rest) : (F.visit c rest).loose = F.loose ++ F.kids c := by
  simp [Shape.loose, Shape.visit, stale]

/-- The rings after the visit: the longer loose ring, and all that touch neither part of it. -/
theorem visit_rings {others : List α} (h : Forest live T F) (ring : F.loose = first :: others) :
    Linked (T.visit first c).sib ∧ IsRing (T.visit first c).sib (F.loose ++ F.kids c) ∧
      (∀ nodes, IsRing T.sib nodes → (∀ x ∈ nodes, x ∉ F.loose ∧ x ∉ F.kids c) → IsRing (T.visit first c).sib nodes) ∧
      ∀ x, x ∉ F.loose → x ∉ F.kids c → T.sib.next x = x → (T.visit first c).sib.next x = x := by
  have head := h.head c
  have looseRing := h.loose_ring
  rw [ring] at looseRing
  unfold SiblingTree.visit
  cases kids : F.kids c with
  | nil =>
    rw [kids] at head
    simp only [head, append_nil]
    exact ⟨h.linked, h.loose_ring, fun _ ring' _ => ring', fun _ _ _ => id⟩
  | cons g rest =>
    have kidsRing := h.kids_ring c
    rw [kids] at head kidsRing
    simp only [head, List.head?_cons]
    have apart : ∀ z ∈ first :: others, z ∉ g :: rest := by
      intro z loose
      rw [← ring] at loose
      rw [← kids]
      exact h.loose_kid z loose c
    refine ⟨append_linked h.linked _ _, ?_, ?_, ?_⟩
    · rw [ring]
      exact isRing_append h.linked looseRing kidsRing apart
    · intro nodes ring' outside
      apply isRing_append_other h.linked ring'
      · rw [h.linked.next_prev]
        exact fun mem => (outside first mem).1 (ring ▸ mem_cons_self)
      · exact fun mem => (outside g mem).2 mem_cons_self
    · intro x outside notKid alone
      have notFirst : x ≠ first := fun eq => outside (ring ▸ eq ▸ mem_cons_self)
      have notG : x ≠ g := fun eq => notKid (eq ▸ mem_cons_self)
      rw [append_next h.linked, h.linked.next_prev, alone, if_neg notFirst, if_neg notG]

section
variable {others rest : List α} (h : Forest live T F) (ring : F.loose = first :: others) (stale : F.stale = c :: rest)
include h ring stale

theorem forest_visit : Forest live (T.visit first c) (F.visit c rest) := by
  obtain ⟨linked, looseRing, apart, alone⟩ := visit_rings h ring
  have loose := visit_loose stale
  have kids : ∀ r, (F.visit c rest).kids r = if r = c then [] else F.kids r := fun r =>
    update_apply ..
  have parent : ∀ x, (T.visit first c).parent x = if x = c then none else T.parent x := fun x =>
    update_apply ..
  have looseC : c ∈ F.loose := by simp [Shape.loose, stale]
  have disjoint : ∀ r, r ≠ c → ∀ x ∈ F.kids r, x ∉ F.kids c := fun r other x kid kid' =>
    other (h.kid_unique kid kid')
  refine ⟨linked, ?_, loose ▸ looseRing, ?_, ?_, ?_, ?_, ?_, ?_⟩
  · intro r
    rw [kids]
    split
    · trivial
    next other =>
      apply apart _ (h.kids_ring r)
      intro x kid
      exact ⟨fun mem => h.loose_kid x mem r kid, disjoint r other x kid⟩
  · intro r
    rw [kids]
    by_cases eq : r = c
    · simp [SiblingTree.visit, eq]
    · simpa [SiblingTree.visit, eq] using h.head r
  · intro x r notStale
    have notStale : x ∉ rest ∧ x ∉ F.kids c := by simpa [Shape.visit] using notStale
    rw [kids, parent]
    by_cases eq : x = c
    · subst eq
      refine iff_of_false (by simp) ?_
      split
      · simp
      · exact h.loose_kid x looseC r
    · rw [if_neg eq, h.kid x r (by simp [stale, eq, notStale.1])]
      split
      next here =>
        subst here
        exact iff_of_false notStale.2 not_mem_nil
      · rfl
  · intro x mem
    rw [loose] at mem
    rcases mem_append.mp mem with old | kid
    · exact h.loose_live x old
    · exact (h.family c x kid).1
  · intro x mem r
    rw [loose] at mem
    rw [kids]
    split
    · simp
    next other =>
      rcases mem_append.mp mem with old | kid
      · exact h.loose_kid x old r
      · exact fun kid' => disjoint r other x kid' kid
  · intro r x mem
    rw [kids] at mem
    split at mem
    · simp at mem
    · exact h.family r x mem
  · intro x outside orphan
    rw [loose, mem_append, not_or] at outside
    have other : x ≠ c := fun eq => outside.1 (eq ▸ looseC)
    rw [parent, if_neg other] at orphan
    exact alone x outside.1 outside.2 (h.alone x outside.1 orphan)

/-- The node after the visited one in the loose ring: the next stale one, or the first node again. -/
theorem visit_next : (T.visit first c).sib.next c = ((rest ++ F.kids c).head?).getD first := by
  have looseRing := (visit_rings (c := c) h ring).2.1
  have split : F.loose ++ F.kids c = F.done ++ c :: (rest ++ F.kids c) := by
    simp [Shape.loose, stale]
  have turned := isRing_rotate (split ▸ looseRing)
  cases tail : rest ++ F.kids c with
  | nil =>
    rw [tail] at turned split
    cases front : F.done with
    | nil =>
      rw [front] at turned split
      rw [ring] at split
      have eq : first = c := (List.cons.inj split).1
      simpa [IsRing, Lib.Ring.Path, eq] using turned
    | cons d =>
      rw [front] at turned split
      rw [ring] at split
      have eq : first = d := (List.cons.inj split).1
      simpa [eq] using turned.2.1
  | cons =>
    rw [tail] at turned
    simpa using turned.2.1

end

/-- Unlink a visited node from the loose ring. -/
theorem forest_rem_loose {d : α} (h : Forest live T F) (stale : F.stale = [])
    (done : F.done = d :: rest) : Forest live { T with sib := T.sib.rem d } { F with done := rest } := by
  have loose : F.loose = d :: rest := by simp [Shape.loose, stale, done]
  have loose' : Shape.loose { F with done := rest } = rest := by simp [Shape.loose, stale]
  have looseD : d ∈ F.loose := loose ▸ mem_cons_self
  have ring : IsRing T.sib ([] ++ d :: rest) := by simpa [loose] using h.loose_ring
  refine ⟨rem_linked h.linked d, ?_, ?_, h.head, h.kid, ?_, ?_, h.family, ?_⟩
  · intro q
    exact isRing_rem_other h.linked (h.kids_ring q) (h.loose_kid d looseD q)
  · rw [loose']
    exact isRing_rem h.linked ring
  · intro x mem
    exact h.loose_live x (loose ▸ mem_cons_of_mem d (loose' ▸ mem))
  · intro x mem
    exact h.loose_kid x (loose ▸ mem_cons_of_mem d (loose' ▸ mem))
  · intro x outside orphan
    rw [loose'] at outside
    rw [rem_next h.linked]
    split
    next eq => exact eq.symm
    next other =>
      have alone := h.alone x (by simp [loose, other, outside]) orphan
      rw [alone, if_neg other]

/-! ## Taking a node out of its family -/

/-- The first child left once `m` has gone from the ring of its siblings. -/
def SiblingTree.childWithout (T : SiblingTree α) (m : α) : Option α → α → Option α
  | none => T.child
  | some q =>
    if T.child q = some m then
      update T.child q (if T.sib.next m = m then none else some (T.sib.next m))
    else T.child

def SiblingTree.unlink (T : SiblingTree α) (m : α) : SiblingTree α where
  parent := update T.parent m none
  child := T.childWithout m (T.parent m)
  sib := T.sib.rem m

def Shape.unlink (F : Shape α) (m : α) : Shape α :=
  { F with kids := fun r => (F.kids r).erase m }

theorem childWithout_head (h : Forest live T F) (none_ : F.loose = []) (m r : α) :
    T.childWithout m (T.parent m) r = ((F.kids r).erase m).head? := by
  have noStale : m ∉ F.stale := by simp [(append_eq_nil_iff.mp none_).2]
  by_cases kid : m ∈ F.kids r
  · have ring := h.kids_ring r
    have head := h.head r
    rw [h.parent_of_kid kid]
    cases kids : F.kids r with
    | nil => simp [kids] at kid
    | cons c rest =>
      rw [kids] at ring head
      have first := head
      by_cases eq : c = m
      · subst eq
        cases rest with
        | nil =>
          have alone := isRing_singleton.mp ring
          simp [SiblingTree.childWithout, first, alone]
        | cons n =>
          have next := ring.2.1
          have other : n ≠ c := fun eq => (nodup_cons.mp ring.1).1 (eq ▸ mem_cons_self)
          simp [SiblingTree.childWithout, first, next, other]
      · simp [SiblingTree.childWithout, first, eq]
  · rw [erase_of_not_mem kid, ← h.head r]
    cases parent : T.parent m with
    | none => rfl
    | some q =>
      have other : r ≠ q := fun eq => kid (eq ▸ (h.kid m q noStale).mp parent)
      simp only [SiblingTree.childWithout]
      split
      · rw [update_of_ne other]
      · rfl

theorem forest_unlink (h : Forest live T F) (none_ : F.loose = []) (m : α) : Forest live (T.unlink m) (F.unlink m) := by
  have noStale := (append_eq_nil_iff.mp none_).2
  have kids : ∀ x r, x ∈ (F.unlink m).kids r ↔ x ≠ m ∧ x ∈ F.kids r := fun x r =>
    (isRing_nodup (h.kids_ring r)).mem_erase_iff
  have parent : ∀ x, (T.unlink m).parent x = if x = m then none else T.parent x := fun x =>
    update_apply ..
  have loose : (F.unlink m).loose = [] := none_
  refine ⟨rem_linked h.linked m, ?_, by simp [loose, IsRing], childWithout_head h none_ m, ?_,
    by simp [loose], by simp [loose], ?_, ?_⟩
  · intro r
    by_cases kid : m ∈ F.kids r
    · obtain ⟨front, back, split⟩ := append_of_mem kid
      have ring := h.kids_ring r
      rw [split] at ring
      have off : m ∉ front := by
        intro mem
        have nodup := isRing_nodup ring
        exact (nodup_append.mp nodup).2.2 m mem m mem_cons_self rfl
      have erased : (F.unlink m).kids r = front ++ back := by
        simp [Shape.unlink, split, erase_append_right _ off]
      rw [erased]
      exact isRing_rem h.linked ring
    · have same : (F.unlink m).kids r = F.kids r := erase_of_not_mem kid
      rw [same]
      exact isRing_rem_other h.linked (h.kids_ring r) kid
  · intro x r _
    rw [kids, parent]
    by_cases eq : x = m
    · simp [eq]
    · simpa [eq] using h.kid x r (by simp [noStale])
  · intro r x mem
    exact h.family r x ((kids x r).mp mem).2
  · intro x _ orphan
    change (T.sib.rem m).next x = x
    rw [rem_next h.linked]
    split
    next eq => exact eq.symm
    next other =>
      rw [parent, if_neg other] at orphan
      rw [h.alone x (by simp [none_]) orphan, if_neg other]

end SuperGlue.Lib.SiblingForest
