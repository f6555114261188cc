import SuperGlue.Lib.Ring

/-!
# Families of rings

Rings that share one pair of link maps: no node is in two of them, and a node in none is linked to
itself. Unlinking a node takes it from the ring it is in, whichever that is. A node in no ring can be
linked into one, after its first node or at its end, or be a new ring of its own.
-/
namespace SuperGlue.Lib.Ring
open Function List

variable {α κ : Type}

/-- The ring at `k` is `R k`. -/
structure Family (L : Links α) (R : κ → List α) : Prop where
  linked : Linked L
  ring : ∀ k, IsRing L (R k)
  apart : ∀ k k' x, x ∈ R k → x ∈ R k' → k = k'
  outside : ∀ x, (∀ k, x ∉ R k) → L.next x = x

variable {L L' : Links α} {R : κ → List α} {k : κ} {a x : α} {nodes : List α}

/-- A ring says what the links of its nodes are. -/
theorem isRing_next_eq (h : IsRing L nodes) (h' : IsRing L' nodes) (mem : x ∈ nodes) : L'.next x = L.next x := by
  obtain ⟨front, back, rfl⟩ := append_of_mem mem
  have turned := isRing_rotate h
  have turned' := isRing_rotate h'
  rw [path_first turned.2, path_first turned'.2]

variable (h : Family L R)
include h

theorem Family.alone_iff (first : (R k).head? = some a) : L.next a = a ↔ R k = [a] := by
  obtain ⟨rest, eq⟩ := List.head?_eq_some_iff.mp first
  have ring := h.ring k
  rw [eq] at ring ⊢
  constructor
  · intro alone
    cases rest with
    | nil => rfl
    | cons b =>
      have second := ring.2.1
      have nodup := nodup_cons.mp ring.1
      have same : b = a := second.symm.trans alone
      exact absurd (same ▸ mem_cons_self) nodup.1
  · intro single
    rw [single] at ring
    exact isRing_singleton.mp ring

/-- A node joins a ring, and only links of this ring change. -/
theorem Family.grow [DecidableEq κ] (out : ∀ k, x ∉ R k) (linked : Linked L')
    (ring : IsRing L' nodes) (members : ∀ y, y ∈ nodes ↔ y = x ∨ y ∈ R k)
    (same : ∀ y, y ∉ nodes → L'.next y = L.next y) : Family L' (update R k nodes) := by
  have cases : ∀ k' y, y ∈ update R k nodes k' ↔ (k' = k ∧ y = x) ∨ y ∈ R k' := by
    intro k' y
    by_cases eq : k' = k
    · subst eq
      rw [update_self, members]
      simp
    · simp [eq]
  refine ⟨linked, ?_, ?_, ?_⟩
  · intro k'
    by_cases eq : k' = k
    · rw [eq, update_self]
      exact ring
    rw [update_of_ne eq]
    apply isRing_congr (h.ring k')
    intro y inside
    apply same
    rw [members]
    rintro (rfl | member)
    · exact out k' inside
    · exact eq (h.apart k' k y inside member)
  · intro k1 k2 y inside1 inside2
    rw [cases] at inside1 inside2
    rcases inside1 with ⟨rfl, rfl⟩ | inside1
    · rcases inside2 with ⟨rfl, -⟩ | inside2
      · rfl
      · exact absurd inside2 (out k2)
    · rcases inside2 with ⟨rfl, rfl⟩ | inside2
      · exact absurd inside1 (out k1)
      · exact h.apart k1 k2 y inside1 inside2
  · intro y off
    have notHere : y ∉ nodes := by
      have here := off k
      rwa [update_self] at here
    rw [same y notHere]
    apply h.outside
    intro k' inside
    exact off k' ((cases k' y).mpr (.inr inside))

theorem Family.single [DecidableEq κ] (out : ∀ k, x ∉ R k) (empty : R k = []) :
    Family L (update R k [x]) := by
  apply h.grow out h.linked (isRing_singleton.mpr (h.outside x out))
  · intro y
    simp [empty]
  · intro y off
    rfl

variable [DecidableEq α]

omit h in
theorem isRing_erase (linked : Linked L) (h : IsRing L nodes) (x : α) : IsRing (L.rem x) (nodes.erase x) := by
  by_cases mem : x ∈ nodes
  · obtain ⟨front, back, off, rfl, erased⟩ := exists_erase_eq mem
    rw [erased]
    exact isRing_rem linked h
  · rw [erase_of_not_mem mem]
    exact isRing_rem_other linked h mem

theorem Family.rem (x : α) : Family (L.rem x) fun k => (R k).erase x := by
  refine ⟨rem_linked h.linked x, fun k => isRing_erase h.linked (h.ring k) x, ?_, ?_⟩
  · intro k k' y inside inside'
    exact h.apart k k' y (mem_of_mem_erase inside) (mem_of_mem_erase inside')
  intro y out
  rw [rem_next h.linked]
  by_cases eq : y = x
  · rw [if_pos eq, eq]
  · have alone : L.next y = y := by
      apply h.outside
      intro k inside
      exact out k ((mem_erase_of_ne eq).mpr inside)
    rw [if_neg eq, alone, if_neg eq]

/-- What is left of the rings does not hold the node that was unlinked. -/
theorem Family.erased (x : α) (k : κ) : x ∉ (R k).erase x :=
  (isRing_nodup (h.ring k)).not_mem_erase

omit h in
theorem head_erase (other : nodes.head? ≠ some x) : (nodes.erase x).head? = nodes.head? := by
  cases nodes with
  | nil => rfl
  | cons a =>
    have ne : a ≠ x := by simpa using other
    simp [ne]

variable [DecidableEq κ]

/-- `ADD_LIST` at any node of a ring. -/
theorem Family.after {front : List α} (out : ∀ k, x ∉ R k) (eq : R k = front ++ a :: nodes) :
    Family (L.add a x) (update R k (front ++ a :: x :: nodes)) := by
  have ring := h.ring k
  have off := out k
  rw [eq] at ring off
  have other : x ≠ a := by
    rintro rfl
    simp at off
  have notIn : x ∉ a :: (nodes ++ front) := by simpa [or_comm, or_assoc, or_left_comm] using off
  have added := isRing_add (isRing_rotate ring) notIn
  apply h.grow out (add_linked h.linked (h.outside x out) other) (isRing_rotate added)
  · intro y
    rw [eq]
    simp only [mem_append, mem_cons]
    tauto
  · intro y notIn
    simp only [mem_append, mem_cons, not_or] at notIn
    rw [add_next, if_neg notIn.2.1, if_neg notIn.2.2.1]

/-- `ADD_END_LIST` at the first node of a ring. -/
theorem Family.last (out : ∀ k, x ∉ R k) (eq : R k = a :: nodes) :
    Family (L.add (L.prev a) x) (update R k (a :: nodes ++ [x])) := by
  obtain ⟨front, end_⟩ := List.getLast?_eq_some_iff.mp (isRing_prev_first h.linked (eq ▸ h.ring k))
  have added := h.after out (eq.trans end_)
  rw [end_]
  simpa using added

omit h

/-! ## A ring that is entered at one node -/

/-- A pointer to the first node of the only ring. -/
structure Rooted (L : Links α) (first : Option α) (nodes : List α) : Prop where
  family : Family L fun _ : Unit => nodes
  head : first = nodes.head?

variable {first : Option α}

/-- A node is unlinked; if it was the first one, the next one is. -/
theorem Rooted.rem (h : Rooted L first nodes) (x : α) :
    Rooted (L.rem x) (if first = some x then if L.next x = x then none else some (L.next x) else first)
      (nodes.erase x) := by
  refine ⟨h.family.rem x, ?_⟩
  rw [h.head]
  split
  next here =>
    have alone := h.family.alone_iff (k := ()) here
    obtain ⟨rest, rfl⟩ := List.head?_eq_some_iff.mp here
    rw [path_first (h.family.ring ()).2] at alone ⊢
    cases rest with
    | nil => simp
    | cons b rest => simpa using fun same => absurd (alone.mp same) (by simp)
  next other => exact (head_erase other).symm

/-- A node is linked in after the first one and becomes the first. -/
theorem Rooted.push (h : Rooted L first nodes) (out : x ∉ nodes) :
    ∃ nodes', Rooted (first.elim L fun a => L.add a x) (some x) nodes' ∧ ∀ y, y ∈ nodes' ↔ y = x ∨ y ∈ nodes := by
  obtain ⟨family, rfl⟩ := h
  have off : ∀ k : Unit, x ∉ nodes := fun _ => out
  cases nodes with
  | nil => exact ⟨[x], ⟨family.single (k := ()) off rfl, rfl⟩, by simp⟩
  | cons a rest =>
    have added := family.after (k := ()) off (show a :: rest = [] ++ a :: rest from rfl)
    have turned := isRing_rotate (show IsRing _ ([a] ++ x :: rest) from added.ring ())
    refine ⟨_, ⟨⟨added.linked, fun _ => turned, fun _ _ _ _ _ => rfl, fun y outside => ?_⟩, rfl⟩, ?_⟩
    · apply added.outside
      simpa [or_comm, or_left_comm] using outside
    · simp [or_comm]

end SuperGlue.Lib.Ring
