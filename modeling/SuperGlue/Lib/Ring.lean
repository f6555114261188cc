import Mathlib

/-!
# Intrusive circular doubly linked lists

Every node carries a `next` and a `prev` link, and a node outside any list is linked to itself. The
operations are the four stores of the usual macros, in their order: link a node after another, link
a whole ring in, unlink a node. As long as the two link maps are inverse to each other, `next` alone
describes the rings.
-/
namespace SuperGlue.Lib.Ring
open Function List

variable {α : Type}

structure Links (α : Type) where
  next : α → α
  prev : α → α

/-- The two maps are inverse to each other. -/
structure Linked (L : Links α) : Prop where
  next_prev : ∀ a, L.next (L.prev a) = a
  prev_next : ∀ a, L.prev (L.next a) = a

theorem Linked.next_inj {L : Links α} (h : Linked L) {a b : α} (eq : L.next a = L.next b) : a = b := by
  rw [← h.prev_next a, eq, h.prev_next]

theorem Linked.prev_eq_iff {L : Links α} (h : Linked L) {a b : α} : L.prev a = b ↔ L.next b = a := by
  constructor
  · rintro rfl
    exact h.next_prev a
  · rintro rfl
    exact h.prev_next b

/-- From `a` the links lead through `nodes` to `b`. -/
def Path (next : α → α) : α → List α → α → Prop
  | a, [], b => next a = b
  | a, c :: nodes, b => next a = c ∧ Path next c nodes b

/-- The nodes form one ring, in this order. -/
def IsRing (L : Links α) : List α → Prop
  | [] => True
  | a :: nodes => (a :: nodes).Nodup ∧ Path L.next a nodes a

variable {next next' : α → α} {a b c : α} {nodes front back : List α}

theorem path_append : Path next a (front ++ c :: back) b ↔ Path next a front c ∧ Path next c back b := by
  induction front generalizing a with
  | nil => simp [Path]
  | cons d front ih => simp [Path, ih, and_assoc]

section
variable (h : Path next a nodes b)
include h

theorem path_congr (same : ∀ d ∈ a :: nodes, next' d = next d) : Path next' a nodes b := by
  induction nodes generalizing a with
  | nil =>
    simp only [Path] at h ⊢
    rw [same a (mem_singleton_self a), h]
  | cons d nodes ih =>
    obtain ⟨first, rest⟩ := h
    refine ⟨by rw [same a mem_cons_self, first], ih rest ?_⟩
    intro e mem
    exact same e (mem_cons_of_mem a mem)

/-- Redirecting the links that lead to `b`, none of which is inside the path. -/
theorem path_retarget [DecidableEq α] (off : b ∉ nodes)
    (same : ∀ d ∈ a :: nodes, next' d = if next d = b then c else next d) : Path next' a nodes c := by
  induction nodes generalizing a with
  | nil =>
    simp only [Path] at h ⊢
    rw [same a (mem_singleton_self a), if_pos h]
  | cons d nodes ih =>
    obtain ⟨first, rest⟩ := h
    simp only [mem_cons, not_or] at off
    refine ⟨?_, ih rest off.2 ?_⟩
    · rw [same a mem_cons_self, if_neg (by rw [first]; exact Ne.symm off.1), first]
    · intro e mem
      exact same e (mem_cons_of_mem a mem)

theorem path_first : next a = nodes.headD b := by
  cases nodes with
  | nil => exact h
  | cons => exact h.1

/-- Every node of a path is some steps away from its start. -/
theorem path_iterate (mem : c ∈ nodes) : ∃ k, next^[k] a = c := by
  induction nodes generalizing a with
  | nil => simp at mem
  | cons d nodes ih =>
    obtain ⟨rfl, rest⟩ := h
    rcases mem_cons.mp mem with rfl | later
    · exact ⟨1, rfl⟩
    · obtain ⟨k, reached⟩ := ih rest later
      exact ⟨k + 1, reached⟩

end

theorem isRing_nodup {L : Links α} (h : IsRing L nodes) : nodes.Nodup := by
  cases nodes with
  | nil => exact nodup_nil
  | cons => exact h.1

/-- A ring can be read from any of its nodes. -/
theorem isRing_rotate {L : Links α} (h : IsRing L (front ++ back)) : IsRing L (back ++ front) := by
  have nodup := (perm_append_comm.nodup_iff).mp (isRing_nodup h)
  cases front with
  | nil => simpa using h
  | cons =>
    cases back with
    | nil => simpa using h
    | cons =>
      obtain ⟨_, path⟩ := h
      obtain ⟨left, right⟩ := path_append.mp path
      exact ⟨nodup, path_append.mpr ⟨right, left⟩⟩

/-- A node that is alone in its ring is linked to itself. -/
theorem isRing_singleton {L : Links α} : IsRing L [a] ↔ L.next a = a := by
  simp [IsRing, Path]

/-- The successor of a node is the next one in the ring, which for the last one is the first. -/
theorem isRing_next {L : Links α} (h : IsRing L (a :: (front ++ c :: back))) : L.next c = back.headD a :=
  path_first (path_append.mp h.2).2

/-! ## The list macros -/

variable {L : Links α} {x : α}

theorem path_next_mem (h : Path next a nodes b) {z : α} (mem : z ∈ a :: nodes) : next z ∈ nodes ∨ next z = b := by
  induction nodes generalizing a with
  | nil =>
    rw [mem_singleton] at mem
    exact .inr (mem ▸ h)
  | cons c nodes ih =>
    obtain ⟨first, rest⟩ := h
    rcases mem_cons.mp mem with rfl | later
    · exact .inl (first ▸ mem_cons_self)
    · rcases ih rest later with inside | last
      · exact .inl (mem_cons_of_mem c inside)
      · exact .inr last

theorem isRing_next_mem (h : IsRing L nodes) {z : α} (mem : z ∈ nodes) : L.next z ∈ nodes := by
  cases nodes with
  | nil => simp at mem
  | cons a =>
    rcases path_next_mem h.2 mem with inside | first
    · exact mem_cons_of_mem a inside
    · exact first ▸ mem_cons_self

/-- A ring depends on the links of its own nodes only. -/
theorem isRing_congr {L' : Links α} (h : IsRing L nodes)
    (same : ∀ z ∈ nodes, L'.next z = L.next z) : IsRing L' nodes := by
  cases nodes with
  | nil => trivial
  | cons => exact ⟨h.1, path_congr h.2 same⟩

section Macros

variable [DecidableEq α]

/-- `INIT_LIST`. -/
def Links.init (L : Links α) (x : α) : Links α where
  next := update L.next x x
  prev := update L.prev x x

/-- `ADD_LIST(head, new)`: link `x` right after `h`. -/
def Links.add (L : Links α) (h x : α) : Links α :=
  let next := update L.next x (L.next h)
  let prev := update L.prev x h
  let next := update next h x
  { next := next, prev := update prev (next x) x }

/-- `APPEND_LIST(last, head)`: link the ring of `h` in after `last`. -/
def Links.append (L : Links α) (last h : α) : Links α :=
  let prev := update L.prev (L.next last) (L.prev h)
  let next := update L.next (prev h) (L.next last)
  let next := update next last h
  { next := next, prev := update prev h last }

/-- `REM_LIST`: unlink `x` and link it to itself. -/
def Links.rem (L : Links α) (x : α) : Links α :=
  let prev := update L.prev (L.next x) (L.prev x)
  let next := update L.next (prev x) (L.next x)
  { next := update next x x, prev := update prev x x }

section
variable (h : Linked L)
include h

theorem linked_init (alone : L.next x = x) : L.init x = L := by
  have back := h.prev_eq_iff.mpr alone
  have next : update L.next x x = L.next := update_eq_self_iff.mpr alone.symm
  have prev : update L.prev x x = L.prev := update_eq_self_iff.mpr back.symm
  simp [Links.init, next, prev]

theorem rem_next (x z : α) : (L.rem x).next z = if z = x then x else if L.next z = x then L.next x else L.next z := by
  have back : ∀ y, L.prev x = y ↔ L.next y = x := fun y => h.prev_eq_iff
  simp only [Links.rem]
  grind

theorem rem_alone (x : α) : (L.rem x).next x = x := by
  rw [rem_next h, if_pos rfl]

/-- Nodes that are unlinked or linked leave the others alone. -/
theorem rem_dead {x z : α} (other : z ≠ x) (alone : L.next z = z) : (L.rem x).next z = z := by
  rw [rem_next h, if_neg other, alone, if_neg other]

theorem rem_linked (x : α) : Linked (L.rem x) := by
  obtain ⟨np, pn⟩ := h
  constructor <;> intro z <;> simp only [Links.rem] <;> grind

end

theorem add_next (h x z : α) : (L.add h x).next z = if z = h then x else if z = x then L.next h else L.next z := by
  simp [Links.add, update_apply]

theorem add_dead {x y z : α} (other : z ≠ x) (ne : z ≠ y) (alone : L.next z = z) : (L.add y x).next z = z := by
  rw [add_next, if_neg ne, if_neg other, alone]

variable (linked : Linked L)
include linked

theorem add_linked {h x : α} (alone : L.next x = x) (other : x ≠ h) : Linked (L.add h x) := by
  obtain ⟨np, pn⟩ := linked
  constructor <;> intro z <;> simp only [Links.add] <;> grind

/-- A node that is alone, linked after itself, stays as it is. -/
theorem add_self (alone : L.next x = x) : L.add x x = L := by
  have back := linked.prev_eq_iff.mpr alone
  have next : update L.next x x = L.next := update_eq_self_iff.mpr alone.symm
  have prev : update L.prev x x = L.prev := update_eq_self_iff.mpr back.symm
  simp [Links.add, alone, next, prev]

theorem append_next (last h z : α) : (L.append last h).next z =
      if L.next z = L.next last then h else if L.next z = h then L.next last else L.next z := by
  obtain ⟨np, pn⟩ := linked
  simp only [Links.append]
  grind

theorem append_linked (last h : α) : Linked (L.append last h) := by
  obtain ⟨np, pn⟩ := linked
  constructor <;> intro z <;> simp only [Links.append] <;> grind

/-! ## What the macros do to rings -/

theorem isRing_rem_other (h : IsRing L nodes) (off : x ∉ nodes) : IsRing (L.rem x) nodes := by
  apply isRing_congr h
  intro z mem
  have outside : L.next z ≠ x := fun eq => off (eq ▸ isRing_next_mem h mem)
  have other : z ≠ x := fun eq => off (eq ▸ mem)
  rw [rem_next linked, if_neg other, if_neg outside]

/-- Unlinking a node leaves the rest of its ring as a ring. -/
theorem isRing_rem (h : IsRing L (front ++ x :: back)) : IsRing (L.rem x) (front ++ back) := by
  apply isRing_rotate
  have turned : IsRing L (x :: (back ++ front)) := by simpa using isRing_rotate h
  cases rest : back ++ front with
  | nil => trivial
  | cons =>
    rw [rest] at turned
    obtain ⟨nodup, first, path⟩ := turned
    simp only [nodup_cons, mem_cons, not_or] at nodup
    refine ⟨nodup_cons.mpr nodup.2, path_retarget path nodup.1.2 ?_⟩
    intro z mem
    have other : z ≠ x := by
      rintro rfl
      rcases mem_cons.mp mem with eq | later
      · exact nodup.1.1 eq
      · exact nodup.1.2 later
    rw [rem_next linked, if_neg other, first]

omit linked in
theorem isRing_add_other (h : IsRing L nodes) {y x : α} (offY : y ∉ nodes) (offX : x ∉ nodes) :
    IsRing (L.add y x) nodes := by
  apply isRing_congr h
  intro z mem
  have notY : z ≠ y := fun eq => offY (eq ▸ mem)
  have notX : z ≠ x := fun eq => offX (eq ▸ mem)
  rw [add_next, if_neg notY, if_neg notX]

omit linked in
/-- A new node linked after the head becomes the second one. -/
theorem isRing_add {y x : α} (h : IsRing L (y :: nodes)) (off : x ∉ y :: nodes) :
    IsRing (L.add y x) (y :: x :: nodes) := by
  obtain ⟨nodup, path⟩ := h
  simp only [mem_cons, not_or] at off
  have other : x ≠ y := off.1
  simp only [nodup_cons] at nodup
  refine ⟨?_, ?_, ?_⟩
  · simp only [nodup_cons, mem_cons, not_or]
    exact ⟨⟨Ne.symm other, nodup.1⟩, off.2, nodup.2⟩
  · rw [add_next, if_pos rfl]
  cases nodes with
  | nil =>
    simp only [Path] at path ⊢
    rw [add_next, if_neg other, if_pos rfl, path]
  | cons =>
    obtain ⟨first, rest⟩ := path
    refine ⟨by rw [add_next, if_neg other, if_pos rfl, first], path_congr rest ?_⟩
    intro z mem
    have notY : z ≠ y := fun eq => nodup.1 (eq ▸ mem)
    have notX : z ≠ x := fun eq => off.2 (eq ▸ mem)
    rw [add_next, if_neg notY, if_neg notX]

omit [DecidableEq α] in
/-- The node before the first one is the last one. -/
theorem isRing_prev_first (h : IsRing L (a :: nodes)) :
    (a :: nodes).getLast? = some (L.prev a) := by
  rcases eq_nil_or_concat nodes with rfl | ⟨front, z, rfl⟩
  · have back := linked.prev_eq_iff.mpr (isRing_singleton.mp h)
    simp [back]
  · have next : L.next z = a := by
      rw [concat_eq_append] at h
      exact (path_append.mp h.2).2
    rw [linked.prev_eq_iff.mpr next, concat_eq_append, ← cons_append, List.getLast?_concat]

/-- `ADD_END_LIST(first, x)`. -/
theorem isRing_add_end (h : IsRing L (a :: nodes)) (off : x ∉ a :: nodes) :
    IsRing (L.add (L.prev a) x) (a :: nodes ++ [x]) := by
  obtain ⟨front, eq⟩ := List.getLast?_eq_some_iff.mp (isRing_prev_first linked h)
  rw [eq] at h off ⊢
  have turned := isRing_rotate h
  have notIn : x ∉ L.prev a :: front := by simpa [or_comm] using off
  have added := isRing_add turned notIn
  have back := isRing_rotate (show IsRing _ ([L.prev a, x] ++ front) from added)
  simpa using back

theorem isRing_append_other (h : IsRing L nodes) {last g : α}
    (offLast : L.next last ∉ nodes) (offG : g ∉ nodes) : IsRing (L.append last g) nodes := by
  apply isRing_congr h
  intro z mem
  have inside := isRing_next_mem h mem
  have notLast : L.next z ≠ L.next last := fun eq => offLast (eq ▸ inside)
  have notG : L.next z ≠ g := fun eq => offG (eq ▸ inside)
  rw [append_next linked, if_neg notLast, if_neg notG]

/-- Appending a second ring after the last node of a first one joins the two in this order. -/
theorem isRing_append {first g : α} {others : List α} (h : IsRing L (first :: nodes))
    (h' : IsRing L (g :: others)) (disjoint : ∀ z ∈ first :: nodes, z ∉ g :: others) :
    IsRing (L.append (L.prev first) g) ((first :: nodes) ++ g :: others) := by
  have next := append_next linked (L.prev first) g
  rw [linked.next_prev] at next
  refine ⟨?_, path_append.mpr ⟨path_retarget h.2 ?_ ?_, path_retarget h'.2 ?_ ?_⟩⟩
  · exact nodup_append.mpr ⟨h.1, h'.1, fun x hx y hy eq => disjoint x hx (eq ▸ hy)⟩
  · exact (nodup_cons.mp h.1).1
  · intro z mem
    have inside := isRing_next_mem h mem
    have notG : L.next z ≠ g := fun eq => disjoint _ inside (eq ▸ mem_cons_self)
    rw [next, if_neg notG]
  · exact (nodup_cons.mp h'.1).1
  · intro z mem
    have inside := isRing_next_mem h' mem
    have notFirst : L.next z ≠ first := fun eq =>
      disjoint first mem_cons_self (eq ▸ inside)
    rw [next, if_neg notFirst]

omit linked

end Macros

end SuperGlue.Lib.Ring
