import SuperGlue.Lib.FiniteMap
import SuperGlue.Lib.RingFamily
import SuperGlue.Guarantees.AliasRecords

/-!
# Subtrees of aliases

An alias made from a tracked alias is linked in right after it, so a page that is no alias has all pages
below it in its ring, parents before their children. A walk around the ring from such a page is therefore a
walk over its subtree. From any other page it is not: it comes to the pages above as well. So the traversals
are right at a page that is no alias, as long as they do not call themselves for an alias in this component
from which other aliases were made.
-/
namespace SuperGlue.Guarantees.AliasTrees
open Function Option Lib.FiniteMap Lib.Transition Lib.Ring Source.MemMgr.Stub AliasTracking
open Finset (mem_insert_self mem_insert_of_mem mem_insert mem_erase mem_of_mem_erase mem_sdiff)

variable {D : Addr → Prop} {s s' : State} {me : SpdId} {p q r rd : Ptr} {a addr : Addr}

/-! ## What the traversals touch -/

/-- `updateLoop` with the records whose aliases are made again, in this order. -/
def updateVisits (me : SpdId) : Nat → State → Ptr → Ptr → List (List Answer) →
    Option (State × List (List Answer) × List Ptr)
  | 0, _, _, _, _ => none
  | fuel + 1, s, rd, aliasRd, answers =>
    if aliasRd = rd then some (s, answers, [])
    else
      match answers with
      | [] => none
      | answer :: answers =>
        let a := s.node aliasRd
        (mmanAliasPage me s a.sSpd a.sAddr a.dSpdFlags a.dAddr answer).bind fun s =>
          let below :=
            if (s.node aliasRd).dSpd ≠ me then some (s, answers, [])
            else if (s.node aliasRd).dAddr = 0 then none
            else
              match parentAt s (s.node aliasRd).dAddr with
              | none => some (s, answers, [])
              | some rd' => updateVisits me fuel s rd' (s.links.next rd') answers
          below.bind fun (s, answers, visited) =>
            (updateVisits me fuel s rd (s.links.next aliasRd) answers).map
              fun (s, answers, later) => (s, answers, aliasRd :: visited ++ later)

def rdUpdateVisits (me : SpdId) (fuel : Nat) (s : State) (addr : Addr) (answers : List (List Answer)) :
    Option (State × List (List Answer) × List Ptr) :=
  if addr = 0 then none
  else
    match parentAt s addr with
    | none => some (s, answers, [])
    | some rd => updateVisits me fuel s rd (s.links.next rd) answers

/-- `removeLoop` with the records that are freed, in this order. -/
def removeVisits (me : SpdId) : Nat → State → Ptr → Option (State × List Ptr)
  | 0, _, _ => none
  | fuel + 1, s, rd =>
    let aliasRd := s.links.next rd
    if aliasRd = rd then some (s, [])
    else
      let below :=
        if (s.node aliasRd).dSpd ≠ me then some (s, [])
        else if (s.node aliasRd).dAddr = 0 then none
        else
          match parentAt s (s.node aliasRd).dAddr with
          | none => some (s, [])
          | some rd' => removeVisits me fuel s rd'
      below.bind fun (s, visited) =>
        let s := { s with links := s.links.rem aliasRd }
        (removeVisits me fuel (rdmmDealloc s aliasRd) rd).map fun (s, later) => (s, visited ++ aliasRd :: later)

def rdRemoveVisits (me : SpdId) (fuel : Nat) (s : State) (addr : Addr) : Option (State × List Ptr) :=
  if addr = 0 then none
  else
    match parentAt s addr with
    | none => some (s, [])
    | some rd => removeVisits me fuel s rd

/-- What is written down does not change what is done. -/
theorem updateVisits_loop (me : SpdId) (fuel : Nat) (s : State) (rd aliasRd : Ptr)
    (answers : List (List Answer)) : (updateVisits me fuel s rd aliasRd answers).map (fun r => (r.1, r.2.1)) =
      updateLoop me fuel s rd aliasRd answers := by
  induction fuel generalizing s rd aliasRd answers with
  | zero => rfl
  | succ fuel ih =>
    rw [updateVisits.eq_def, updateLoop.eq_def]
    simp only [← ih]
    split
    · rfl
    cases answers with
    | nil => rfl
    | cons answer answers =>
      rw [map_bind]
      congr 1
      funext t
      dsimp only [comp_apply]
      split
      · simp [comp_def]
      split
      · rfl
      cases parentAt t (t.node aliasRd).dAddr <;> simp [bind_map, comp_def]

theorem rdUpdateVisits_state (me : SpdId) (fuel : Nat) (s : State) (addr : Addr) (answers : List (List Answer)) :
    (rdUpdateVisits me fuel s addr answers).map Prod.fst = rdUpdateSubtree me fuel s addr answers := by
  rw [rdUpdateVisits, rdUpdateSubtree]
  split
  · rfl
  cases parentAt s addr with
  | none => rfl
  | some =>
    dsimp only
    rw [← updateVisits_loop, map_map]
    rfl

theorem removeVisits_loop (me : SpdId) (fuel : Nat) (s : State) (rd : Ptr) :
    (removeVisits me fuel s rd).map Prod.fst = removeLoop me fuel s rd := by
  induction fuel generalizing s rd with
  | zero => rfl
  | succ fuel ih =>
    rw [removeVisits.eq_def, removeLoop.eq_def]
    simp only [← ih]
    split
    · rfl
    split
    · simp [comp_def]
    split
    · rfl
    cases parentAt s (s.node (s.links.next rd)).dAddr <;> simp [bind_map, comp_def]

theorem rdRemoveVisits_state (me : SpdId) (fuel : Nat) (s : State) (addr : Addr) :
    (rdRemoveVisits me fuel s addr).map Prod.fst = rdRemove me fuel s addr := by
  rw [rdRemoveVisits, rdRemove]
  split
  · rfl
  · cases parentAt s addr with
    | none => rfl
    | some rd => exact removeVisits_loop me fuel s rd

/-! ## The trees -/

/-- The record stands for its source, which is no alias. -/
def Root (s : State) (p : Ptr) : Prop := (s.node p).sAddr = s.home p

/-- The record `q` is that of an alias made from the page with the record `r`. -/
def Child (s : State) (r q : Ptr) : Prop := q ∈ s.live ∧ rdmmLookup s (s.node q).sAddr = some r ∧ r ≠ q

/-- It is below it. -/
def Descends (s : State) : Ptr → Ptr → Prop := Relation.TransGen (Child s)

/-- Records in rings, each with a root at its head. -/
structure Records (D : Addr → Prop) (R : Ptr → List Ptr) (s : State) : Prop where
  family : Family s.links R
  entry : ∀ k p, s.vect k = some p → p ∈ s.live ∧ vaddr2id (s.home p) = k
  found : ∀ p ∈ s.live, rdmmLookup s (s.home p) = some p
  domain : ∀ p ∈ s.live, D (s.home p)
  root : ∀ p ∈ s.live, Root s p → (R p).head? = some p
  member : ∀ p q, q ∈ R p → (p ∈ s.live ∧ Root s p) ∧ q ∈ s.live ∧ (Root s q → q = p)
  own : ∀ p ∈ s.live, ¬ Root s p → (s.node p).dAddr = s.home p ∧ s.home p ≠ 0

/-- The page that an alias was made from comes before it in a ring. -/
def Ordered (R : Ptr → List Ptr) (s : State) (q : Ptr) : Prop :=
  ∃ k r, [r, q].Sublist (R k) ∧ rdmmLookup s (s.node q).sAddr = some r ∧ (s.node r).isParent = true

structure Trees (D : Addr → Prop) (R : Ptr → List Ptr) (s : State) : Prop extends Records D R s where
  order : ∀ q ∈ s.live, ¬ Root s q → Ordered R s q

variable {R : Ptr → List Ptr} {gone : List Ptr} {sSpd : SpdId} {flags : Nat}

theorem init_trees (D : Addr → Prop) : Trees D (fun _ => []) init := by
  have nobody : ∀ p, p ∉ init.live := Finset.notMem_empty
  refine ⟨⟨⟨⟨fun _ => rfl, fun _ => rfl⟩, fun _ => trivial, by simp, fun _ _ => rfl⟩, ?_, ?_, ?_, ?_, by simp, ?_⟩, ?_⟩
  · intro k p entry
    contradiction
  all_goals
    intro p live
    exact absurd live (nobody p)

section

variable (h : Records D R s)
include h

theorem Records.dead (off : p ∉ s.live) : (∀ k, p ∉ R k) ∧ R p = [] := by
  constructor
  · intro k inside
    exact off (h.member k p inside).2.1
  · apply List.eq_nil_iff_forall_not_mem.mpr
    intro q inside
    exact off (h.member p q inside).1.1

theorem Records.live_of_lookup (distinct : Distinct D) (inD : D a) (lookup : rdmmLookup s a = some p) :
    p ∈ s.live ∧ s.home p = a := by
  obtain ⟨live, same⟩ := h.entry _ p lookup
  exact ⟨live, distinct _ _ (h.domain p live) inD same⟩

theorem Records.ring (live : p ∈ s.live) (root : Root s p) : R p = p :: (R p).tail := by
  obtain ⟨rest, eq⟩ := List.head?_eq_some_iff.mp (h.root p live root)
  rw [eq]
  rfl

/-- Below a root is what is in its ring. -/
theorem mem_tail_iff (live : p ∈ s.live) (root : Root s p) : q ∈ (R p).tail ↔ q ∈ R p ∧ q ≠ p := by
  have nodup := isRing_nodup (h.family.ring p)
  rw [h.ring live root] at nodup ⊢
  simp only [List.mem_cons]
  constructor
  · intro inside
    exact ⟨.inr inside, fun eq => (List.nodup_cons.mp nodup).1 (eq ▸ inside)⟩
  · rintro ⟨same | inside, other⟩
    · exact absurd same other
    · exact inside

/-- The others in the ring of a root are aliases. -/
theorem Records.alias (split : R rd = rd :: gone) (inside : q ∈ gone) : q ≠ rd ∧ q ∈ s.live ∧ ¬ Root s q := by
  have nodup := isRing_nodup (h.family.ring rd)
  rw [split] at nodup
  have other := ne_of_mem_of_not_mem inside (List.nodup_cons.mp nodup).1
  obtain ⟨-, live, only⟩ := h.member rd q (split ▸ List.mem_cons_of_mem rd inside)
  exact ⟨other, live, fun rootQ => other (only rootQ)⟩

end

theorem idxOf_lt {l : List Ptr} (nodup : l.Nodup) (before : [r, q].Sublist l) : l.idxOf r < l.idxOf q := by
  induction l with
  | nil => simp at before
  | cons c l ih =>
    obtain ⟨off, nodup⟩ := List.nodup_cons.mp nodup
    cases before with
    | cons _ before =>
      have insideR : r ∈ l := before.subset (by simp)
      have insideQ : q ∈ l := before.subset (by simp)
      have otherR : c ≠ r := fun eq => off (eq ▸ insideR)
      have otherQ : c ≠ q := fun eq => off (eq ▸ insideQ)
      rw [List.idxOf_cons_ne _ otherR, List.idxOf_cons_ne _ otherQ]
      exact Nat.succ_lt_succ (ih nodup before)
    | cons_cons _ before =>
      have insideQ : q ∈ l := before.subset (by simp)
      have otherQ : r ≠ q := fun eq => off (eq ▸ insideQ)
      rw [List.idxOf_cons_self, List.idxOf_cons_ne _ otherQ]
      exact Nat.succ_pos _

/-- The page that an alias was made from is in the same ring, before it. -/
theorem Trees.parent (h : Trees D R s) (child : Child s r q) :
    ∃ k, [r, q].Sublist (R k) ∧ ¬ Root s q ∧ (s.node r).isParent := by
  obtain ⟨live, lookup, other⟩ := child
  have notRoot : ¬ Root s q := by
    intro root
    rw [root, h.found q live] at lookup
    exact other (some.inj lookup).symm
  obtain ⟨k, r', before, lookup', isParent⟩ := h.order q live notRoot
  obtain rfl : r' = r := some.inj (lookup'.symm.trans lookup)
  exact ⟨k, before, notRoot, isParent⟩

theorem Trees.descends_iff (h : Trees D R s) (live : p ∈ s.live) (root : Root s p) :
    Descends s p q ↔ q ∈ (R p).tail := by
  rw [mem_tail_iff h.toRecords live root]
  constructor
  · have next : ∀ r q, r ∈ R p → Child s r q → q ∈ R p ∧ q ≠ p := by
      intro r q inside child
      obtain ⟨k, before, notRoot, -⟩ := h.parent child
      obtain rfl : k = p := h.family.apart k p r (before.subset (by simp)) inside
      exact ⟨before.subset (by simp), fun eq => notRoot (eq ▸ root)⟩
    intro below
    induction below with
    | single child => exact next _ _ (by rw [h.ring live root]; exact List.mem_cons_self) child
    | tail _ child ih => exact next _ _ ih.1 child
  · rintro ⟨inside, other⟩
    -- the page it was made from is nearer to the head of the ring
    induction position : (R p).idxOf q using Nat.strong_induction_on generalizing q with
    | _ n ih =>
      have notRoot : ¬ Root s q := fun rootQ => other ((h.member p q inside).2.2 rootQ)
      obtain ⟨k, r, before, lookup, -⟩ := h.order q (h.member p q inside).2.1 notRoot
      obtain rfl : k = p := h.family.apart k p q (before.subset (by simp)) inside
      have nodup := isRing_nodup (h.family.ring k)
      have ne : r ≠ q := by
        rintro rfl
        exact absurd (idxOf_lt nodup before) (lt_irrefl _)
      have child : Child s r q := ⟨(h.member k q inside).2.1, lookup, ne⟩
      by_cases eq : r = k
      · exact .single (eq ▸ child)
      · have insideR : r ∈ R k := before.subset (by simp)
        exact .tail (ih _ (position ▸ idxOf_lt nodup before) insideR eq rfl) child

/-! ## New records -/

theorem allocated_root (s : State) (rec : RecData) (a : Addr) :
    Root (allocated s a rec) (fresh s.live) ↔ rec.sAddr = a := by
  have home : (allocated s a rec).home (fresh s.live) = a := update_self ..
  rw [Root, allocated_node_self, home]

theorem allocated_root_of_live (rec : RecData) (live : q ∈ s.live) : Root (allocated s a rec) q ↔ Root s q := by
  have other := ne_of_mem_of_not_mem live (fresh_notMem s.live)
  have home : (allocated s a rec).home q = s.home q := update_of_ne other _ _
  rw [Root, Root, allocated_node_of_ne a rec other, home]

/-- A new record is alone in a ring if it is a root, and in none otherwise. -/
def seated (R : Ptr → List Ptr) (p : Ptr) (root : Bool) : Ptr → List Ptr :=
  if root then update R p [p] else R

theorem Records.alloc (h : Records D R s) (rec : RecData) (inD : D a) (free : rdmmLookup s a = none)
    (own : rec.sAddr ≠ a → rec.dAddr = a ∧ a ≠ 0) :
    Records D (seated R (fresh s.live) (decide (rec.sAddr = a))) (allocated s a rec) := by
  have off := fresh_notMem s.live
  obtain ⟨out, empty⟩ := h.dead off
  have ne : ∀ p ∈ s.live, p ≠ fresh s.live := fun p live => ne_of_mem_of_not_mem live off
  have home : ∀ p ∈ s.live, (allocated s a rec).home p = s.home p := fun p live => update_of_ne (ne p live) _ _
  have node : ∀ p ∈ s.live, (allocated s a rec).node p = s.node p :=
    fun p live => allocated_node_of_ne a rec (ne p live)
  have newHome : (allocated s a rec).home (fresh s.live) = a := update_self ..
  have otherId : ∀ p ∈ s.live, vaddr2id (s.home p) ≠ vaddr2id a := by
    intro p live same
    have found := h.found p live
    rw [rdmmLookup, same] at found
    nomatch found.symm.trans free
  refine ⟨?_, ?_, ?_, ?_, ?_, ?_, ?_⟩
  · rw [seated]
    split
    · exact h.family.single out empty
    · exact h.family
  · intro k p entry
    obtain ⟨rfl, rfl⟩ | ⟨-, entry⟩ := update_known entry
    · rw [newHome]
      exact ⟨mem_insert_self .., rfl⟩
    · obtain ⟨live, same⟩ := h.entry k p entry
      rw [home p live]
      exact ⟨mem_insert_of_mem live, same⟩
  · intro p live
    rcases mem_insert.mp live with rfl | live
    · rw [newHome]
      exact update_self ..
    · rw [home p live]
      exact (update_of_ne (otherId p live) _ _).trans (h.found p live)
  · intro p live
    rcases mem_insert.mp live with rfl | live
    · rw [newHome]
      exact inD
    · rw [home p live]
      exact h.domain p live
  · intro p live root
    rcases mem_insert.mp live with rfl | live
    · rw [seated, if_pos (decide_eq_true ((allocated_root s rec a).mp root)), update_self]
      rfl
    · have first := h.root p live ((allocated_root_of_live rec live).mp root)
      rw [seated]
      split
      · rw [update_of_ne (ne p live), first]
      · exact first
  · intro p q inside
    have old : ∀ {p q}, q ∈ R p → (p ∈ insert (fresh s.live) s.live ∧ Root (allocated s a rec) p) ∧
        q ∈ insert (fresh s.live) s.live ∧ (Root (allocated s a rec) q → q = p) := by
      intro p q inside
      obtain ⟨⟨liveP, rootP⟩, liveQ, only⟩ := h.member p q inside
      rw [allocated_root_of_live rec liveP, allocated_root_of_live rec liveQ]
      exact ⟨⟨mem_insert_of_mem liveP, rootP⟩, mem_insert_of_mem liveQ, only⟩
    rw [seated] at inside
    split at inside
    next isRoot =>
      rw [update_apply] at inside
      split at inside
      next same =>
        obtain rfl := List.mem_singleton.mp inside
        subst same
        exact ⟨⟨mem_insert_self .., (allocated_root s rec a).mpr (of_decide_eq_true isRoot)⟩,
          mem_insert_self .., fun _ => rfl⟩
      · exact old inside
    · exact old inside
  · intro p live notRoot
    rcases mem_insert.mp live with rfl | live
    · rw [allocated_node_self, newHome]
      exact own fun eq => notRoot ((allocated_root s rec a).mpr eq)
    · rw [node p live, home p live]
      exact h.own p live fun root => notRoot ((allocated_root_of_live rec live).mpr root)

theorem madeParent_node (s : State) (q p x : Ptr) :
    (madeParent s q p).node x = { s.node x with isParent := decide (x = q) || (s.node x).isParent } := by
  simp only [madeParent, State.set, update_apply]
  split
  next eq => simp [eq]
  next other => simp [other]

theorem madeParent_root (s : State) (q p x : Ptr) : Root (madeParent s q p) x ↔ Root s x := by
  rw [Root, madeParent_node]
  rfl

/-- A record that is in no ring is linked in after the one it was made from. -/
theorem Records.join {k : Ptr} {front back : List Ptr} (h : Records D R s) (live : p ∈ s.live)
    (notRoot : ¬ Root s p) (out : ∀ k, p ∉ R k) (split : R k = front ++ q :: back) :
    Records D (update R k (front ++ q :: p :: back)) (madeParent s q p) := by
  have root := madeParent_root s q p
  have mem : ∀ k' x, x ∈ update R k (front ++ q :: p :: back) k' ↔ (k' = k ∧ x = p) ∨ x ∈ R k' := by
    intro k' x
    rw [update_apply]
    split
    next same =>
      rw [same, split]
      simp only [List.mem_append, List.mem_cons]
      tauto
    next other => simp [other]
  have inside : q ∈ R k := by simp [split]
  obtain ⟨⟨liveK, rootK⟩, liveQ, -⟩ := h.member k q inside
  refine ⟨h.family.after out split, h.entry, h.found, h.domain, ?_, ?_, ?_⟩
  · intro x liveX rootX
    have first := h.root x liveX ((root x).mp rootX)
    rw [update_apply]
    split
    next same =>
      rw [same, split] at first
      rw [same]
      cases front with
      | nil | cons c front => exact first
    · exact first
  · intro k' x inside
    rw [root, root]
    rcases (mem k' x).mp inside with ⟨rfl, rfl⟩ | old
    · exact ⟨⟨liveK, rootK⟩, live, fun isRoot => absurd isRoot notRoot⟩
    · exact h.member k' x old
  · intro x liveX notRootX
    rw [madeParent_node]
    exact h.own x liveX fun isRoot => notRootX ((root x).mpr isRoot)

theorem Trees.placed (h : Trees D R s) (live : q ∈ s.live) : ∃ k, q ∈ R k := by
  by_cases root : Root s q
  · exact ⟨q, List.mem_of_head? (h.root q live root)⟩
  · obtain ⟨k, r, before, -⟩ := h.order q live root
    exact ⟨k, before.subset (by simp)⟩

/-- Records that were there before stay behind the ones they were made from. -/
theorem Ordered.kept {R' : Ptr → List Ptr} (o : Ordered R s q) (rings : ∀ k, (R k).Sublist (R' k))
    (lookup : ∀ a r, rdmmLookup s a = some r → rdmmLookup s' a = some r) (source : (s'.node q).sAddr = (s.node q).sAddr)
    (parents : ∀ a r, rdmmLookup s a = some r → (s.node r).isParent → (s'.node r).isParent) :
    Ordered R' s' q := by
  obtain ⟨k, r, before, found, isParent⟩ := o
  refine ⟨k, r, before.trans (rings k), ?_, parents _ r found isParent⟩
  rw [source]
  exact lookup _ r found

theorem seated_sublist (h : Records D R s) (root : Bool) (k : Ptr) :
    (R k).Sublist (seated R (fresh s.live) root k) := by
  rw [seated]
  split
  · rw [update_apply]
    split
    next same =>
      rw [same, (h.dead (fresh_notMem s.live)).2]
      exact List.nil_sublist _
    · exact List.Sublist.refl _
  · exact List.Sublist.refl _

theorem Records.allocated_ordered (h : Records D R s) (rec : RecData) (free : rdmmLookup s a = none) (root : Bool)
    (live : q ∈ s.live) (o : Ordered R s q) : Ordered (seated R (fresh s.live) root) (allocated s a rec) q := by
  have node : ∀ x ∈ s.live, (allocated s a rec).node x = s.node x := by
    intro x live
    exact allocated_node_of_ne a rec (ne_of_mem_of_not_mem live (fresh_notMem s.live))
  have lookup : ∀ b r, rdmmLookup s b = some r → rdmmLookup (allocated s a rec) b = some r := by
    intro b r found
    have other : vaddr2id b ≠ vaddr2id a := by
      intro same
      rw [rdmmLookup, same] at found
      nomatch found.symm.trans free
    exact (update_of_ne other _ _).trans found
  refine o.kept (seated_sublist h root) lookup (by rw [node q live]) ?_
  intro b r found isParent
  rw [node r (h.entry _ r found).1]
  exact isParent

/-- A page aliased to itself is a root. -/
theorem Trees.alloc (h : Trees D R s) (rec : RecData) (inD : D a) (free : rdmmLookup s a = none)
    (root : rec.sAddr = a) : Trees D (seated R (fresh s.live) (decide (rec.sAddr = a))) (allocated s a rec) := by
  refine ⟨h.toRecords.alloc rec inD free fun other => absurd root other, ?_⟩
  intro q live notRoot
  rcases mem_insert.mp live with rfl | live
  · exact absurd ((allocated_root s rec a).mpr root) notRoot
  · rw [allocated_root_of_live rec live] at notRoot
    exact h.allocated_ordered rec free _ live (h.order q live notRoot)

/-- The last record joins the ring of the page it was made from. -/
theorem Records.attach {k : Ptr} (h : Records D R s) (live : p ∈ s.live) (notRoot : ¬ Root s p)
    (out : ∀ k, p ∉ R k) (inside : q ∈ R k) (source : rdmmLookup s (s.node p).sAddr = some q)
    (others : ∀ x ∈ s.live, x ≠ p → ¬ Root s x → Ordered R s x) : ∃ R', Trees D R' (madeParent s q p) := by
  obtain ⟨front, back, split⟩ := List.append_of_mem inside
  refine ⟨_, h.join live notRoot out split, ?_⟩
  intro x liveX notRootX
  by_cases same : x = p
  · subst same
    refine ⟨k, q, ?_, ?_, ?_⟩
    · simp
    · rw [madeParent_node]
      exact source
    · rw [madeParent_node]
      simp
  · rw [madeParent_root] at notRootX
    refine (others x liveX same notRootX).kept ?_ (fun _ _ => id) (by rw [madeParent_node]) ?_
    · intro k'
      rw [update_apply]
      split
      next eq =>
        rw [eq, split]
        simp
      · exact List.Sublist.refl _
    · intro b r _ isParent
      rw [madeParent_node]
      simp [isParent]

/-- A parent that is no root was one before, or is the page that a new alias is made from. -/
def Parents (s s' : State) (sAddr dAddr : Addr) : Prop :=
  ∀ x ∈ s'.live, (s'.node x).isParent = true → ¬ Root s' x → x ∈ s.live ∧ ¬ Root s x ∧
    ((s.node x).isParent = true ∨ rdmmLookup s dAddr = none ∧ rdmmLookup s sAddr = some x)

theorem allocated_parent {rec : RecData} (ok : rec.isParent → rec.sAddr = a) {x : Ptr}
    (live : x ∈ (allocated s a rec).live) (isParent : ((allocated s a rec).node x).isParent)
    (notRoot : ¬ Root (allocated s a rec) x) : x ∈ s.live ∧ ¬ Root s x ∧ (s.node x).isParent := by
  rcases mem_insert.mp live with rfl | live
  · rw [allocated_node_self] at isParent
    exact absurd ((allocated_root s rec a).mpr (ok isParent)) notRoot
  · rw [allocated_root_of_live rec live] at notRoot
    rw [allocated_node_of_ne a rec (ne_of_mem_of_not_mem live (fresh_notMem s.live))] at isParent
    exact ⟨live, notRoot, isParent⟩

theorem track_trees (h : Trees D R s) (distinct : Distinct D) {sAddr dAddr : Addr}
    (inS : D sAddr) (inD : D dAddr) (nonzero : dAddr ≠ 0) (tracked : track s sSpd sAddr flags dAddr = some s') :
    (∃ R', Trees D R' s') ∧ Parents s s' sAddr dAddr := by
  cases free : rdmmLookup s dAddr with
  | some =>
    rw [track, free] at tracked
    cases tracked
    exact ⟨⟨R, h⟩, fun x live isParent notRoot => ⟨live, notRoot, .inl isParent⟩⟩
  | none =>
    have off := fresh_notMem s.live
    obtain ⟨out, -⟩ := h.dead off
    have alone := h.family.outside _ out
    rw [track_new h.family.linked alone free] at tracked
    by_cases self : sAddr = dAddr
    · subst self
      have source : rdmmLookup (allocated s sAddr ⟨sAddr, sAddr, sSpd, flags, false⟩) sAddr = some (fresh s.live) :=
        update_self ..
      rw [source] at tracked
      cases tracked
      dsimp only
      rw [madeParent_allocated, add_self h.family.linked alone]
      refine ⟨⟨_, h.alloc ⟨sAddr, sAddr, sSpd, flags, true⟩ inD free rfl⟩, fun x live isParent notRoot => ?_⟩
      obtain ⟨old, notRoot, isParent⟩ := allocated_parent (fun _ => rfl) live isParent notRoot
      exact ⟨old, notRoot, .inl isParent⟩
    · generalize fields : (⟨dAddr, sAddr, sSpd, flags, false⟩ : RecData) = rec at tracked
      have source : rec.sAddr = sAddr := fields ▸ rfl
      have leaf : rec.isParent = false := fields ▸ rfl
      have h1 := h.toRecords.alloc rec inD free fun _ => ⟨fields ▸ rfl, nonzero⟩
      rw [seated, if_neg (by simpa [source] using self)] at h1
      have live1 : fresh s.live ∈ (allocated s dAddr rec).live := mem_insert_self ..
      have node := allocated_node_self s dAddr rec
      have notRoot := (allocated_root s rec dAddr).not.mpr (by rw [source]; exact self)
      have others : ∀ x ∈ (allocated s dAddr rec).live, x ≠ fresh s.live →
          ¬ Root (allocated s dAddr rec) x → Ordered R (allocated s dAddr rec) x := by
        intro x live other notRootX
        have before := (mem_insert.mp live).resolve_left other
        rw [allocated_root_of_live rec before] at notRootX
        exact h.allocated_ordered rec free false before (h.order x before notRootX)
      cases found : rdmmLookup (allocated s dAddr rec) sAddr with
      | some q =>
        rw [found] at tracked
        cases tracked
        have otherId : vaddr2id sAddr ≠ vaddr2id dAddr := fun same => self (distinct _ _ inS inD same)
        have old := (update_of_ne otherId _ _).symm.trans found
        obtain ⟨k, inside⟩ := h.placed (h.entry _ q old).1
        refine ⟨h1.attach live1 notRoot out inside (by rw [node, source]; exact found) others, ?_⟩
        intro x live isParent notRootX
        rw [madeParent_root] at notRootX
        rw [madeParent_node, Bool.or_eq_true, decide_eq_true_eq] at isParent
        rcases isParent with rfl | isParent
        · have liveX := (h.entry _ x old).1
          exact ⟨liveX, (allocated_root_of_live rec liveX).not.mp notRootX, .inr ⟨free, old⟩⟩
        · obtain ⟨old, notRoot, isParent⟩ := allocated_parent (by simp [leaf]) live isParent notRootX
          exact ⟨old, notRoot, .inl isParent⟩
      | none =>
        -- the source gets a record of its own, with the new one as its only alias
        have off1 := fresh_notMem (allocated s dAddr rec).live
        have other := ne_of_mem_of_not_mem live1 off1
        rw [found] at tracked
        rw [newParent_eq h1.family.linked (h1.family.outside _ (h1.dead off1).1) found, fields] at tracked
        cases tracked
        have h2 := h1.alloc rec inS found fun other => absurd source other
        rw [seated, if_pos (by simpa using source)] at h2
        have node2 : (allocated (allocated s dAddr rec) sAddr rec).node (fresh s.live) = rec := by
          rw [allocated_node_of_ne _ _ other, node]
        have inside : fresh (allocated s dAddr rec).live ∈ update R
            (fresh (allocated s dAddr rec).live) [fresh (allocated s dAddr rec).live]
            (fresh (allocated s dAddr rec).live) := by
          rw [update_self]
          exact List.mem_singleton_self _
        refine ⟨h2.attach (mem_insert_of_mem live1) ?_ ?_ inside ?_ ?_, ?_⟩
        · rw [allocated_root_of_live rec live1]
          exact notRoot
        · intro k inside
          rw [update_apply] at inside
          split at inside
          · exact other (List.mem_singleton.mp inside)
          · exact out k inside
        · rw [node2, source]
          exact update_self ..
        · intro x live notN notRootX
          rcases mem_insert.mp live with rfl | live
          · exact absurd ((allocated_root _ rec sAddr).mpr source) notRootX
          · rw [allocated_root_of_live rec live] at notRootX
            exact h1.allocated_ordered rec found true live (others x live notN notRootX)
        · intro x live isParent notRootX
          rw [madeParent_root] at notRootX
          rw [madeParent_node, Bool.or_eq_true, decide_eq_true_eq] at isParent
          rcases isParent with rfl | isParent
          · exact absurd ((allocated_root _ rec sAddr).mpr source) notRootX
          · obtain ⟨live, notRootX, isParent⟩ := allocated_parent (by simp [leaf]) live isParent notRootX
            obtain ⟨old, notRoot, isParent⟩ := allocated_parent (by simp [leaf]) live isParent notRootX
            exact ⟨old, notRoot, .inl isParent⟩

/-! ## Making the aliases again -/

section

variable (h : Records D R s) (live : q ∈ s.live) (notRoot : ¬ Root s q)
include h live notRoot

/-- An alias is found at its `d_addr`. -/
theorem Records.lookup_alias : rdmmLookup s (s.node q).dAddr = some q ∧ (s.node q).dAddr ≠ 0 := by
  obtain ⟨own, nonzero⟩ := h.own q live notRoot
  rw [own]
  exact ⟨h.found q live, nonzero⟩

theorem Records.replay {sAddr : Addr} {answer : List Answer}
    (run : mmanAliasPage me s sSpd sAddr flags (s.node q).dAddr answer = some s') : s' = s := by
  rcases aliasPage_cases run with same | ⟨-, tracked⟩
  · exact same
  · rw [track, (h.lookup_alias live notRoot).1] at tracked
    exact (some.inj tracked).symm

/-- The invocations for these records, in this order, end. -/
def accepted (me : SpdId) (s : State) : List Ptr → List (List Answer) → Bool
  | [], _ => true
  | _ :: _, [] => false
  | q :: rest, answer :: answers =>
    (mmanAliasPage me s (s.node q).sSpd (s.node q).sAddr (s.node q).dSpdFlags (s.node q).dAddr answer).isSome &&
      accepted me s rest answers

/-- No alias in this component has aliases of its own. -/
def Quiet (me : SpdId) (s : State) (nodes : List Ptr) : Prop :=
  ∀ q ∈ nodes, (s.node q).isParent = true → (s.node q).dSpd ≠ me

/-- A loop does not call itself for such an alias. -/
theorem below_quiet {α : Type} (quiet : (s.node q).isParent → (s.node q).dSpd ≠ me) (nothing : α)
    (again : Ptr → Option α) :
    (if (s.node q).dSpd ≠ me then some nothing
      else if (s.node q).dAddr = 0 then none
      else match parentAt s (s.node q).dAddr with
        | none => some nothing
        | some rd' => again rd') = some nothing := by
  obtain ⟨found, nonzero⟩ := h.lookup_alias live notRoot
  by_cases away : (s.node q).dSpd ≠ me
  · rw [if_pos away]
  · have leaf : ¬ (s.node q).isParent := fun isParent => away (quiet isParent)
    rw [if_neg away, if_neg nonzero, parentAt, found, filter_some, if_neg leaf]

end

/-- The loop from any place of the ring of a root. -/
theorem updateVisits_eq (h : Records D R s) (quiet : Quiet me s (R rd).tail) (fuel : Nat) (front rest : List Ptr)
    (answers : List (List Answer)) (split : R rd = rd :: (front ++ rest)) :
    updateVisits me fuel s rd (rest.headD rd) answers = if rest.length < fuel ∧ accepted me s rest answers = true then
        some (s, answers.drop rest.length, rest) else none := by
  induction fuel generalizing front rest answers with
  | zero => rfl
  | succ fuel ih =>
    cases rest with
    | nil =>
      rw [updateVisits.eq_def]
      simp [accepted]
    | cons q rest =>
      have inside : q ∈ (R rd).tail := by simp [split]
      obtain ⟨other, live, notRoot⟩ := h.alias split (List.mem_append_right front List.mem_cons_self)
      have next : s.links.next q = rest.headD rd := by
        have ring := h.family.ring rd
        rw [split] at ring
        exact isRing_next ring
      rw [List.headD_cons, updateVisits.eq_def]
      dsimp only
      rw [if_neg other]
      cases answers with
      | nil => simp [accepted]
      | cons answer answers =>
        dsimp only
        cases run : mmanAliasPage me s (s.node q).sSpd (s.node q).sAddr (s.node q).dSpdFlags
          (s.node q).dAddr answer with
        | none => simp [accepted, run]
        | some t =>
          obtain rfl := h.replay live notRoot run
          rw [bind_some, below_quiet h live notRoot (quiet q inside), bind_some, next,
            ih (front ++ [q]) rest answers (by simp [split])]
          by_cases ok : rest.length < fuel ∧ accepted me t rest answers = true <;>
            simp [accepted, run, ok]

/-! ## Removing the records -/

def dropOne (s : State) (q : Ptr) : State := rdmmDealloc { s with links := s.links.rem q } q

theorem Records.dropOne_lookup (h : Records D R s) (live : q ∈ s.live) (notRoot : ¬ Root s q) (a : Addr) :
    rdmmLookup (dropOne s q) a = (rdmmLookup s a).filter (· ≠ q) := by
  obtain ⟨own, -⟩ := h.own q live notRoot
  have vect : (dropOne s q).vect (vaddr2id a) =
      if vaddr2id a = vaddr2id (s.home q) then none else s.vect (vaddr2id a) := by
    rw [← own]
    exact update_apply ..
  rw [rdmmLookup, vect]
  split
  next same =>
    have found : rdmmLookup s a = some q := by
      rw [rdmmLookup, same]
      exact h.found q live
    simp [found, filter_some]
  next other =>
    change rdmmLookup s a = _
    cases found : rdmmLookup s a with
    | none => rfl
    | some p =>
      have ne : p ≠ q := fun eq => other (eq ▸ (h.entry _ p found).2.symm)
      simp [ne, filter_some]

/-- The first alias in the ring of a root is unlinked and its record freed. -/
theorem Records.drop {rest : List Ptr} (h : Records D R s) (split : R rd = rd :: q :: rest) :
    Records D (update R rd (rd :: rest)) (dropOne s q) := by
  obtain ⟨other, live, notRoot⟩ := h.alias split List.mem_cons_self
  have lookup := h.dropOne_lookup live notRoot
  have erased : (fun k => (R k).erase q) = update R rd (rd :: rest) := by
    funext k
    rw [update_apply]
    split
    next same => simp [same, split, other.symm]
    next ne =>
      apply List.erase_of_not_mem
      exact fun mem => ne (h.family.apart k rd q mem (by simp [split]))
  have kept : ∀ k x, x ∈ update R rd (rd :: rest) k → x ∈ R k ∧ x ≠ q := by
    intro k x mem
    rw [← erased] at mem
    exact ⟨List.mem_of_mem_erase mem, fun eq => h.family.erased q k (eq ▸ mem)⟩
  refine ⟨erased ▸ h.family.rem q, ?_, ?_, ?_, ?_, ?_, ?_⟩
  · intro k p entry
    change update s.vect (vaddr2id (s.node q).dAddr) none k = some p at entry
    rw [(h.own q live notRoot).1] at entry
    obtain ⟨ne, entry⟩ := erase_known entry
    obtain ⟨liveP, same⟩ := h.entry k p entry
    exact ⟨mem_erase.mpr ⟨fun eq => ne (eq ▸ same.symm), liveP⟩, same⟩
  · intro p liveP
    obtain ⟨ne, liveP⟩ := mem_erase.mp liveP
    change rdmmLookup (dropOne s q) (s.home p) = some p
    rw [lookup, h.found p liveP]
    simp [ne, filter_some]
  · intro p liveP
    exact h.domain p (mem_of_mem_erase liveP)
  · intro p liveP rootP
    have first := h.root p (mem_of_mem_erase liveP) rootP
    rw [update_apply]
    split
    next same => rw [same]; rfl
    · exact first
  · intro k x mem
    obtain ⟨old, ne⟩ := kept k x mem
    obtain ⟨⟨liveK, rootK⟩, liveX, onlyX⟩ := h.member k x old
    refine ⟨⟨mem_erase.mpr ⟨?_, liveK⟩, rootK⟩, mem_erase.mpr ⟨ne, liveX⟩, onlyX⟩
    rintro rfl
    exact notRoot rootK
  · intro p liveP notRootP
    exact h.own p (mem_of_mem_erase liveP) notRootP

/-- The records `gone` have been freed, and nothing else. -/
structure Removed (s s' : State) (gone : List Ptr) : Prop where
  live : s'.live = s.live \ gone.toFinset
  lookup : ∀ a, rdmmLookup s' a = (rdmmLookup s a).filter (· ∉ gone)
  node : s'.node = s.node
  home : s'.home = s.home

theorem Removed.refl (s : State) : Removed s s [] := by
  refine ⟨by simp, fun a => ?_, rfl, rfl⟩
  cases rdmmLookup s a <;> simp [filter_some]

theorem dropAll_removed (h : Records D R s) (split : R rd = rd :: gone) :
    Records D (update R rd [rd]) (gone.foldl dropOne s) ∧ Removed s (gone.foldl dropOne s) gone := by
  induction gone generalizing R s with
  | nil =>
    rw [← split, update_eq_self]
    exact ⟨h, .refl s⟩
  | cons q rest ih =>
    obtain ⟨-, live, notRoot⟩ := h.alias split List.mem_cons_self
    obtain ⟨records, removed⟩ := ih (h.drop split) (update_self ..)
    rw [update_idem] at records
    refine ⟨records, ?_, ?_, removed.node, removed.home⟩
    · rw [List.foldl_cons, removed.live]
      change s.live.erase q \ rest.toFinset = _
      ext p
      simp only [mem_sdiff, mem_erase, List.mem_toFinset, List.mem_cons]
      tauto
    · intro a
      rw [List.foldl_cons, removed.lookup, h.dropOne_lookup live notRoot]
      cases rdmmLookup s a with
      | none => rfl
      | some p => by_cases same : p = q <;> simp [same, filter_some]

/-- The loop at a root. -/
theorem removeVisits_eq (h : Records D R s) (quiet : Quiet me s gone) (split : R rd = rd :: gone) (fuel : Nat) :
    removeVisits me fuel s rd = if gone.length < fuel then some (gone.foldl dropOne s, gone) else none := by
  induction gone generalizing R s fuel with
  | nil =>
    cases fuel with
    | zero => rfl
    | succ =>
      have ring := h.family.ring rd
      rw [split] at ring
      rw [removeVisits.eq_def]
      simp [isRing_singleton.mp ring]
  | cons q rest ih =>
    cases fuel with
    | zero => rfl
    | succ fuel =>
      have ring := h.family.ring rd
      rw [split] at ring
      have next := ring.2.1
      obtain ⟨other, live, notRoot⟩ := h.alias split List.mem_cons_self
      have quiet' : Quiet me (dropOne s q) rest := fun x mem => quiet x (List.mem_cons_of_mem q mem)
      have onward := ih (h.drop split) quiet' (update_self ..) fuel
      rw [removeVisits.eq_def]
      dsimp only
      rw [next, if_neg other, below_quiet h live notRoot (quiet q List.mem_cons_self), bind_some]
      change ((removeVisits me fuel (dropOne s q) rd).map fun (t, later) => (t, [] ++ q :: later)) = _
      rw [onward]
      by_cases enough : rest.length < fuel <;> simp [enough]

theorem Trees.removed (h : Trees D R s) (split : R rd = rd :: gone) :
    Trees D (update R rd [rd]) (gone.foldl dropOne s) := by
  obtain ⟨records, removed⟩ := dropAll_removed h.toRecords split
  refine ⟨records, ?_⟩
  intro q live notRoot
  rw [removed.live, mem_sdiff, List.mem_toFinset] at live
  rw [Root, removed.node, removed.home] at notRoot
  obtain ⟨k, r, before, found, isParent⟩ := h.order q live.1 notRoot
  have insideR : r ∈ R k := before.subset (by simp)
  have insideQ : q ∈ R k := before.subset (by simp)
  have rootRd : Root s rd := (h.member rd rd (by simp [split])).1.2
  have other : k ≠ rd := by
    rintro rfl
    rw [split] at insideQ
    rcases List.mem_cons.mp insideQ with rfl | inside
    · exact notRoot rootRd
    · exact live.2 inside
  have kept : r ∉ gone := fun inside => other (h.family.apart k rd r insideR (split ▸ List.mem_cons_of_mem rd inside))
  refine ⟨k, r, ?_, ?_, ?_⟩
  · rw [update_of_ne other]
    exact before
  · rw [removed.lookup, removed.node, found]
    simp [kept, filter_some]
  · rw [removed.node]
    exact isParent

/-! ## The subtree of a page -/

/-- The page is no alias, or no alias was made from it; and below it there is no alias in this component
from which others were made. -/
def Separate (me : SpdId) (s : State) (addr : Addr) : Prop :=
  ∀ rd, rdmmLookup s addr = some rd → (s.node rd).isParent = true →
    (s.node rd).sAddr = addr ∧ ∀ q, Descends s rd q → (s.node q).isParent = true → (s.node q).dSpd ≠ me

/-- The ring of the page is its subtree, and its loop does not call itself. -/
def Passable (me : SpdId) (R : Ptr → List Ptr) (s : State) (addr : Addr) : Prop :=
  ∀ rd, parentAt s addr = some rd → Root s rd ∧ R rd = rd :: (R rd).tail ∧ Quiet me s (R rd).tail

theorem Trees.separate (h : Trees D R s) (distinct : Distinct D) (inD : D addr) (separate : Separate me s addr) :
    Passable me R s addr := by
  intro rd found
  obtain ⟨lookup, isParent⟩ := parentAt_some found
  obtain ⟨live, home⟩ := h.live_of_lookup distinct inD lookup
  obtain ⟨source, below⟩ := separate rd lookup isParent
  have root : Root s rd := source.trans home.symm
  refine ⟨root, h.ring live root, ?_⟩
  intro q inside
  exact below q ((h.descends_iff live root).mpr inside)

/-- The records below a page, in the order of its ring. -/
def subtree (R : Ptr → List Ptr) (s : State) (addr : Addr) : List Ptr :=
  (parentAt s addr).elim [] fun rd => (R rd).tail

variable {fuel : Nat} {label : Label}

section

variable (h : Trees D R s) (pass : Passable me R s addr)
include h pass

theorem rdUpdateVisits_eq (nonzero : addr ≠ 0) (fuel : Nat)
    (answers : List (List Answer)) : rdUpdateVisits me fuel s addr answers = if parentAt s addr = none ∨
          (subtree R s addr).length < fuel ∧ accepted me s (subtree R s addr) answers = true then
        some (s, answers.drop (subtree R s addr).length, subtree R s addr) else none := by
  rw [rdUpdateVisits, if_neg nonzero]
  cases found : parentAt s addr with
  | none => simp [subtree, found]
  | some rd =>
    obtain ⟨-, ring, quiet⟩ := pass rd found
    have linked := h.family.ring rd
    rw [ring] at linked
    have first := path_first linked.2
    dsimp only
    rw [first, updateVisits_eq h.toRecords quiet fuel [] (R rd).tail answers ring]
    simp [subtree, found]

theorem rdRemoveVisits_eq (nonzero : addr ≠ 0) (fuel : Nat) :
    rdRemoveVisits me fuel s addr = if parentAt s addr = none ∨ (subtree R s addr).length < fuel then
        some ((subtree R s addr).foldl dropOne s, subtree R s addr) else none := by
  rw [rdRemoveVisits, if_neg nonzero]
  cases found : parentAt s addr with
  | none => simp [subtree, found]
  | some rd =>
    obtain ⟨-, ring, quiet⟩ := pass rd found
    dsimp only
    rw [removeVisits_eq h.toRecords quiet ring fuel]
    simp [subtree, found]

theorem Trees.removed_subtree :
    (∃ R', Trees D R' ((subtree R s addr).foldl dropOne s)) ∧
      Removed s ((subtree R s addr).foldl dropOne s) (subtree R s addr) := by
  cases found : parentAt s addr with
  | none =>
    rw [subtree, found]
    exact ⟨⟨R, h⟩, .refl s⟩
  | some rd =>
    obtain ⟨-, ring, -⟩ := pass rd found
    rw [subtree, found]
    exact ⟨⟨_, h.removed ring⟩, (dropAll_removed h.toRecords ring).2⟩

theorem Trees.mem_subtree :
    q ∈ subtree R s addr ↔ ∃ rd, rdmmLookup s addr = some rd ∧ Descends s rd q := by
  cases found : parentAt s addr with
  | none =>
    rw [subtree, found]
    refine iff_of_false List.not_mem_nil ?_
    rintro ⟨rd, lookup, below⟩
    obtain ⟨x, child, -⟩ := Relation.TransGen.head'_iff.mp below
    obtain ⟨-, -, -, isParent⟩ := h.parent child
    rw [parentAt, lookup, filter_some, if_pos isParent] at found
    contradiction
  | some rd =>
    have lookup := (parentAt_some found).1
    rw [subtree, found, Option.elim_some, ← h.descends_iff (h.entry _ rd lookup).1 (pass rd found).1, lookup]
    simp

/-- Both traversals of the pages below `addr` end, having touched the records `nodes` in this order. -/
structure Traversed (me : SpdId) (s : State) (addr : Addr) (nodes : List Ptr) : Prop where
  once : nodes.Nodup
  all : ∀ q, q ∈ nodes ↔ ∃ rd, rdmmLookup s addr = some rd ∧ Descends s rd q
  parents : ∀ r q, q ∈ nodes → Child s r q → rdmmLookup s addr = some r ∨ [r, q].Sublist nodes
  recreated : ∀ fuel answers, nodes.length < fuel → accepted me s nodes answers = true →
    rdUpdateVisits me fuel s addr answers = some (s, answers.drop nodes.length, nodes)
  removed : ∀ fuel, nodes.length < fuel → ∃ s', rdRemoveVisits me fuel s addr = some (s', nodes) ∧ Removed s s' nodes

theorem Trees.traversed (nonzero : addr ≠ 0) :
    Traversed me s addr (subtree R s addr) := by
  refine ⟨?_, fun q => h.mem_subtree pass, ?_, ?_, ?_⟩
  · cases found : parentAt s addr with
    | none => simp [subtree, found]
    | some rd =>
      have nodup := (isRing_nodup (h.family.ring rd)).tail
      simpa [subtree, found] using nodup
  · intro r q inside child
    cases found : parentAt s addr with
    | none => simp [subtree, found] at inside
    | some rd =>
      obtain ⟨-, ring, -⟩ := pass rd found
      rw [subtree, found] at inside ⊢
      obtain ⟨k, before, -⟩ := h.parent child
      obtain rfl : k = rd := h.family.apart k rd q (before.subset (by simp)) (List.mem_of_mem_tail inside)
      rw [ring] at before
      cases before with
      | cons _ before => exact .inr before
      | cons_cons => exact .inl (parentAt_some found).1
  · intro fuel answers enough ends
    rw [rdUpdateVisits_eq h pass nonzero, if_pos (.inr ⟨enough, ends⟩)]
  · intro fuel enough
    refine ⟨_, ?_, (h.removed_subtree pass).2⟩
    rw [rdRemoveVisits_eq h pass nonzero, if_pos (.inr enough)]

/-! ## Every run -/

/-- The condition on a call: the addresses are in `D`, and a page that is revoked is separate. -/
def Rooted (D : Addr → Prop) (me : SpdId) (s : State) : Label → Prop
  | .aliasPage _ sAddr _ dAddr _ => D sAddr ∧ D dAddr
  | .revokePage addr _ _ => D addr ∧ Separate me s addr

theorem rdUpdateSubtree_stays {answers : List (List Answer)}
    (run : rdUpdateSubtree me fuel s addr answers = some s') : s' = s := by
  have nonzero : addr ≠ 0 := by
    rintro rfl
    contradiction
  rw [← rdUpdateVisits_state, rdUpdateVisits_eq h pass nonzero] at run
  split at run
  · exact (some.inj run).symm
  · contradiction

theorem revoke_trees {rounds : List (List (List Answer))}
    (run : mmanRevokePage me fuel s addr rounds = some s') :
    (∃ R', Trees D R' s') ∧ Removed s s' (subtree R s addr) := by
  induction rounds with
  | nil => contradiction
  | cons answers rounds ih =>
    cases rounds with
    | nil =>
      obtain ⟨t, updated, removed⟩ := bind_eq_some_iff.mp run
      rw [rdUpdateSubtree_stays h pass updated] at removed
      have nonzero : addr ≠ 0 := by
        rintro rfl
        contradiction
      rw [← rdRemoveVisits_state, rdRemoveVisits_eq h pass nonzero] at removed
      split at removed
      · exact some.inj removed ▸ h.removed_subtree pass
      · contradiction
    | cons =>
      obtain ⟨t, updated, again⟩ := bind_eq_some_iff.mp run
      rw [rdUpdateSubtree_stays h pass updated] at again
      exact ih again

end

theorem step_trees (h : Trees D R s) (distinct : Distinct D) (rooted : Rooted D me s label)
    (taken : step me s label = some s') : ∃ R', Trees D R' s' := by
  cases label with
  | aliasPage =>
    rcases aliasPage_cases taken with rfl | ⟨nonzero, tracked⟩
    · exact ⟨R, h⟩
    · exact (track_trees h distinct rooted.1 rooted.2 nonzero tracked).1
  | revokePage => exact (revoke_trees h (h.separate distinct rooted.1 rooted.2) taken).1

/-- In every run in which the pages that are revoked are separate, the traversals of the pages below a
separate one touch exactly these, each once and parents first, and removal leaves all other records. -/
theorem subtrees_traversed (D : Addr → Prop) (distinct : Distinct D) (me : SpdId) (s : State)
    (reached : Reachable (stubSystem me) (Rooted D me) s) (addr : Addr) (inD : D addr) (nonzero : addr ≠ 0)
    (separate : Separate me s addr) : ∃ nodes, Traversed me s addr nodes := by
  have trees : ∃ R, Trees D R s := by
    refine reached.invariant (fun s => ∃ R, Trees D R s) ⟨_, init_trees D⟩ ?_
    rintro s label s' ⟨R, h⟩ rooted taken
    exact step_trees h distinct rooted taken
  obtain ⟨R, h⟩ := trees
  exact ⟨_, h.traversed (h.separate distinct inD separate) nonzero⟩

/-- A condition that can be computed, and says more. -/
def Flat (D : Addr → Prop) (me : SpdId) (s : State) : Label → Prop
  | .aliasPage _ sAddr _ dAddr _ => D sAddr ∧ D dAddr
  | .revokePage addr _ _ => D addr ∧
      (∀ rd ∈ rdmmLookup s addr, (s.node rd).isParent = true → (s.node rd).sAddr = addr) ∧
      ∀ q ∈ s.live, (s.node q).isParent = true → rdmmLookup s (s.node q).sAddr = some q ∨ (s.node q).dSpd ≠ me

instance (D : Addr → Prop) [DecidablePred D] (me : SpdId) : DecidableRel (Flat D me) := by
  intro s label
  unfold Flat
  split <;> infer_instance

theorem Flat.rooted (flat : Flat D me s label) : Rooted D me s label := by
  cases label with
  | aliasPage => exact flat
  | revokePage =>
    refine ⟨flat.1, fun rd lookup isParent => ⟨flat.2.1 rd lookup isParent, ?_⟩⟩
    intro q below parentQ
    obtain ⟨r, -, live, source, other⟩ := Relation.TransGen.tail'_iff.mp below
    refine (flat.2.2 q live parentQ).resolve_left fun self => other ?_
    exact some.inj (source.symm.trans self)

/-- Pages of component 3 in component 7: one with two aliases, from one of which a third is made, and one
that is revoked. -/
def aliasOfAlias : List Label :=
  [.aliasPage 3 0x1000 0x70000 0x2000 [.value 0x2000], .aliasPage 7 0x2000 0x70000 0x3000 [.fault, .value 0x3000],
    .aliasPage 3 0x1000 0x70000 0x4000 [.value 0x4000], .aliasPage 3 0x5000 0x30000 0x6000 [.value 0x6000],
    .revokePage 0x5000 2 [[[.value 0x6000]]]]

theorem alias_of_alias_traversed : ∃ s nodes p q, Run (stubSystem 3) (Rooted firstWindow 3) aliasOfAlias s ∧
    rdmmLookup s 0x2000 = some p ∧ rdmmLookup s 0x3000 = some q ∧ [p, q].Sublist nodes ∧
    Traversed 3 s 0x1000 nodes := by
  obtain ⟨s, run, ⟨rootFound, first, second⟩, child₁, child₃, flat⟩ := exec_ends (stubSystem 3) (Flat firstWindow 3) aliasOfAlias
    (fun s => (rdmmLookup s 0x1000 = some 2 ∧ rdmmLookup s 0x2000 = some 1 ∧ rdmmLookup s 0x3000 = some 3) ∧
      (1 ∈ s.live ∧ rdmmLookup s (s.node 1).sAddr = some 2) ∧
      (3 ∈ s.live ∧ rdmmLookup s (s.node 3).sAddr = some 1) ∧
      Flat firstWindow 3 s (.revokePage 0x1000 0 [])) (by decide +kernel)
  have run := run.weaken fun _ _ allowed => Flat.rooted allowed
  obtain ⟨nodes, traversed⟩ := subtrees_traversed firstWindow firstWindow_distinct 3 s ⟨_, run⟩ 0x1000
    (by decide) (by decide) flat.rooted.2
  have top : Child s 2 1 := ⟨child₁.1, child₁.2, by decide⟩
  have nested : Child s 1 3 := ⟨child₃.1, child₃.2, by decide⟩
  have inside : 3 ∈ nodes := (traversed.all 3).mpr ⟨2, rootFound, .tail (.single top) nested⟩
  refine ⟨s, nodes, 1, 3, run, first, second, ?_, traversed⟩
  rcases traversed.parents 1 3 inside nested with wrong | before
  · exact absurd (wrong.symm.trans rootFound) (by decide)
  · exact before

/-- Below page 0x2000 there is one alias. Both traversals come to the record of page 0x1000, which 0x2000 is an
alias of, and the second one frees it. -/
theorem traversal_strays : ∃ s s', Run (stubSystem 3) anyStep
      [.aliasPage 3 0x1000 0x70000 0x2000 [.value 0x2000], .aliasPage 3 0x2000 0x70000 0x3000 [.value 0x3000]] s ∧
    rdmmLookup s 0x1000 = some 2 ∧ rdmmLookup s 0x2000 = some 1 ∧ ¬ Descends s 1 2 ∧
    (rdUpdateVisits 3 4 s 0x2000 [[.value 0x3000], [.value 0x2000]]).map (·.2.2) = some [3, 2] ∧
    rdRemoveVisits 3 4 s 0x2000 = some (s', [3, 2]) ∧ 2 ∉ s'.live := by
  obtain ⟨s, run, rootFound, aliasFound, self, updated, ⟨s', gone⟩, removed, rfl, freed⟩ := exec_ends (stubSystem 3) anyStep
    [.aliasPage 3 0x1000 0x70000 0x2000 [.value 0x2000], .aliasPage 3 0x2000 0x70000 0x3000 [.value 0x3000]]
    (fun s => rdmmLookup s 0x1000 = some 2 ∧ rdmmLookup s 0x2000 = some 1 ∧ rdmmLookup s (s.node 2).sAddr = some 2 ∧
      (rdUpdateVisits 3 4 s 0x2000 [[.value 0x3000], [.value 0x2000]]).map (·.2.2) = some [3, 2] ∧
      ∃ r ∈ rdRemoveVisits 3 4 s 0x2000, r.2 = [3, 2] ∧ 2 ∉ r.1.live) (by decide +kernel)
  refine ⟨s, s', run, rootFound, aliasFound, ?_, updated, removed, freed⟩
  intro below
  obtain ⟨r, -, live, source, other⟩ := Relation.TransGen.tail'_iff.mp below
  exact other (some.inj (source.symm.trans self))

end SuperGlue.Guarantees.AliasTrees
