import Mathlib

/-!
# A queue of leaves seen through nested groups

Leaves wait in one queue. Every group keeps the order of its own children only: a child is listed
while something below it waits. The lists of all groups describe the queue if, at every group, the
queue of what is below it is the concatenation of the queues below its listed children.

A leaf that joins the queue is put at the end of the list of its group, that group at the end of the
list of its own group, and so on; a leaf that leaves is taken from the front, and so is every group
that becomes empty.
-/
namespace SuperGlue.Lib.NestedQueue
open List
open Function (update update_of_ne update_self)

variable {α : Type}

/-! ## Nodes and what is above them -/

/-- `chain x` is `x` and what is above it, the nearest first. -/
structure Ancestry (parent : α → Option α) (chain : α → List α) : Prop where
  eq : ∀ x, chain x = x :: (parent x).elim [] chain

variable {parent : α → Option α} {chain : α → List α} {x y g l : α}

/-- From `x` the parents lead through `ups` to a root. -/
inductive Climb (parent : α → Option α) : α → List α → Prop where
  | top {x : α} (top : parent x = none) : Climb parent x []
  | up {x g : α} {ups : List α} (up : parent x = some g) (rest : Climb parent g ups) : Climb parent x (g :: ups)

theorem eq_singleton {xs : List α} (nodup : xs.Nodup) (some_ : xs ≠ []) (only : ∀ y ∈ xs, y = x) : xs = [x] := by
  cases xs with
  | nil => contradiction
  | cons a rest =>
    obtain rfl : a = x := only a mem_cons_self
    cases rest with
    | nil => rfl
    | cons b =>
      have again := only b (by simp)
      simp [again] at nodup

section

variable (h : Ancestry parent chain)
include h

theorem Ancestry.root (top : parent x = none) : chain x = [x] := by
  rw [h.eq, top]
  rfl

theorem Ancestry.child (up : parent x = some g) : chain x = x :: chain g := by
  rw [h.eq, up]
  rfl

theorem Ancestry.self (x : α) : x ∈ chain x := by
  rw [h.eq]
  exact mem_cons_self

theorem Ancestry.climb (x : α) : ∃ ups, Climb parent x ups := by
  induction size : (chain x).length generalizing x with
  | zero =>
    rw [h.eq] at size
    contradiction
  | succ n ih =>
    cases up : parent x with
    | none => exact ⟨[], .top up⟩
    | some g =>
      obtain ⟨ups, climb⟩ := ih g (by simpa [h.child up] using size)
      exact ⟨g :: ups, .up up climb⟩

theorem Ancestry.suffix (above : y ∈ chain x) : chain y <:+ chain x := by
  obtain ⟨_, climb⟩ := h.climb x
  induction climb with
  | top top =>
    rw [h.root top, mem_singleton] at above
    exact above ▸ suffix_rfl
  | up up _ ih =>
    rw [h.child up, mem_cons] at above
    rcases above with rfl | above
    · exact suffix_rfl
    · exact h.child up ▸ (ih above).trans (suffix_cons ..)

theorem Ancestry.nodup (x : α) : (chain x).Nodup := by
  obtain ⟨_, climb⟩ := h.climb x
  induction climb with
  | top top => exact h.root top ▸ nodup_singleton _
  | up up _ ih =>
    rw [h.child up]
    refine nodup_cons.mpr ⟨?_, ih⟩
    intro loop
    have longer := (h.suffix loop).length_le
    rw [h.child up, length_cons] at longer
    omega

theorem Ancestry.trans (first : y ∈ chain x) (second : g ∈ chain y) : g ∈ chain x := (h.suffix first).subset second

theorem Ancestry.parent_mem (above : y ∈ chain x) (up : parent y = some g) : g ∈ chain x := by
  apply h.trans above
  rw [h.child up]
  exact mem_cons_of_mem y (h.self g)

theorem Ancestry.child_mem (above : g ∈ chain x) (other : g ≠ x) : ∃ y ∈ chain x, parent y = some g := by
  obtain ⟨_, climb⟩ := h.climb x
  induction climb with
  | top top =>
    rw [h.root top, mem_singleton] at above
    contradiction
  | @up x g' _ up _ ih =>
    rw [h.child up] at above ⊢
    have above := (mem_cons.mp above).resolve_left other
    by_cases same : g = g'
    · exact ⟨x, .head _, same ▸ up⟩
    · obtain ⟨y, inside, upY⟩ := ih above same
      exact ⟨y, mem_cons_of_mem x inside, upY⟩

/-- Only one child of a group is above any node. -/
theorem Ancestry.child_unique (aboveX : x ∈ chain l)
    (aboveY : y ∈ chain l) (upX : parent x = some g) (upY : parent y = some g) : x = y := by
  have lengths : (chain x).length = (chain y).length := by rw [h.child upX, h.child upY]; rfl
  have suffix := suffix_of_suffix_length_le (h.suffix aboveX) (h.suffix aboveY) (Nat.le_of_eq lengths)
  have same := suffix.eq_of_length lengths
  rw [h.child upX, h.child upY] at same
  exact (List.cons.inj same).1

variable {ups : List α}

variable (climb : Climb parent x ups)
include climb

theorem Climb.chain_eq : chain x = x :: ups := by
  induction climb with
  | top top => exact h.root top
  | up up _ ih => rw [h.child up, ih]

/-- The groups above are met once. -/
theorem Climb.fresh : x ∉ ups := (nodup_cons.mp (climb.chain_eq h ▸ h.nodup x)).1

theorem Climb.child_mem (above : g ∈ ups) : ∃ y ∈ chain x, parent y = some g :=
  h.child_mem (climb.chain_eq h ▸ mem_cons_of_mem x above) fun eq => climb.fresh h (eq ▸ above)

omit climb

/-- A child above `x` has its group above `x`, and `x` itself is not it. -/
theorem Climb.parent_ne (above : y ∈ chain x) (up : parent y = some g) : g ≠ x := by
  rintro rfl
  have longer := (h.suffix above).length_le
  rw [h.child up, length_cons] at longer
  omega

variable [DecidableEq α]

/-- A new node below an old one, or on its own. -/
theorem Ancestry.insert (lonely : ∀ y, parent y ≠ some x) (up : Option α) (other : up ≠ some x) :
    Ancestry (update parent x up) (update chain x (x :: up.elim [] chain)) := by
  constructor
  intro y
  by_cases eq : y = x
  · subst eq
    cases up with
    | none => simp
    | some g =>
      have ne : g ≠ y := fun eq => other (eq ▸ rfl)
      simp [ne]
  · rw [update_of_ne eq, update_of_ne eq, h.eq]
    cases above : parent y with
    | none => rfl
    | some g =>
      have ne : g ≠ x := fun eq => lonely y (eq ▸ above)
      simp [ne]

end

/-! ## The queue below a node -/

variable [DecidableEq α]

def below (chain : α → List α) (P : List α) (x : α) : List α := P.filter fun l => decide (x ∈ chain l)

theorem mem_below {P : List α} : l ∈ below chain P x ↔ l ∈ P ∧ x ∈ chain l := by
  simp [below]

/-- The lists `T` of the groups describe the queue `P`. -/
structure Nested (parent : α → Option α) (chain : α → List α) (leaf : α → Prop) (P : List α)
    (T : α → List α) : Prop where
  ancestry : Ancestry parent chain
  group : ∀ x g, parent x = some g → ¬ leaf g
  queue : P.Nodup
  leaves : ∀ l ∈ P, leaf l
  order : ∀ g, ¬ leaf g → below chain P g = (T g).flatMap (below chain P)
  child : ∀ g x, x ∈ T g → parent x = some g
  used : ∀ g x, x ∈ T g → below chain P x ≠ []
  distinct : ∀ g, (T g).Nodup

variable {leaf : α → Prop} {P : List α} {T T' : α → List α} {e : α}

section

variable (h : Nested parent chain leaf P T)
include h

/-- Below a leaf is at most the leaf itself. -/
theorem Nested.below_leaf (isLeaf : leaf x) (mem : l ∈ below chain P x) : l = x := by
  obtain ⟨_, above⟩ := mem_below.mp mem
  by_contra other
  obtain ⟨y, _, up⟩ := h.ancestry.child_mem above (Ne.symm other)
  exact h.group y x up isLeaf

theorem Nested.below_waiting (waiting : l ∈ P) : below chain P l = [l] := by
  have only : ∀ y ∈ below chain P l, y = l := fun y mem => h.below_leaf (h.leaves l waiting) mem
  have mem := mem_below.mpr ⟨waiting, h.ancestry.self l⟩
  have nodup : (below chain P l).Nodup := h.queue.filter _
  exact eq_singleton nodup (ne_nil_of_mem mem) only

/-- A child with something below it is listed. -/
theorem Nested.listed (up : parent x = some g) (some_ : below chain P x ≠ []) : x ∈ T g := by
  obtain ⟨l, mem⟩ := exists_mem_of_ne_nil _ some_
  obtain ⟨waiting, above⟩ := mem_below.mp mem
  have memberG := mem_below.mpr ⟨waiting, h.ancestry.parent_mem above up⟩
  rw [h.order g (h.group x g up), mem_flatMap] at memberG
  obtain ⟨y, inside, memberY⟩ := memberG
  obtain ⟨_, aboveY⟩ := mem_below.mp memberY
  rw [h.ancestry.child_unique above aboveY up (h.child g y inside)]
  exact inside

/-- What comes first below a group is what comes first below its first child. -/
theorem Nested.first {rest : List α} (list : T g = x :: rest) : (below chain P g).head? = (below chain P x).head? := by
  have inside : x ∈ T g := list ▸ mem_cons_self
  have isGroup := h.group x g (h.child g x inside)
  rw [h.order g isGroup, list, flatMap_cons, List.head?_append_of_ne_nil _ (h.used g x inside)]

/-- A node that lists nothing, with something below it, is a leaf that waits. -/
theorem Nested.bottom (some_ : below chain P x ≠ []) (empty : T x = []) : x ∈ P := by
  have isLeaf : leaf x := by
    by_contra isGroup
    rw [h.order x isGroup, empty] at some_
    exact some_ rfl
  obtain ⟨l, mem⟩ := exists_mem_of_ne_nil _ some_
  have same := h.below_leaf isLeaf mem
  exact same ▸ (mem_below.mp mem).1

end

/-- What is above a node that does not wait says nothing about the queue. -/
theorem below_insert (fresh : x ∉ P) (ups : List α) : below (update chain x ups) P = below chain P := by
  funext y
  apply filter_congr
  intro l mem
  have ne : l ≠ x := fun eq => fresh (eq ▸ mem)
  rw [update_of_ne ne]

/-- A new node, below a group or on its own, with nothing below it. -/
theorem Nested.insert {leaf' : α → Prop} (h : Nested parent chain leaf P T) (fresh : x ∉ P)
    (lonely : ∀ y, parent y ≠ some x) (single : parent x = none) (up : Option α)
    (other : up ≠ some x) (isGroup : ∀ g, up = some g → ¬ leaf g) (same : ∀ y, y ≠ x → (leaf' y ↔ leaf y)) :
    Nested (update parent x up) (update chain x (x :: up.elim [] chain)) leaf' P T := by
  have belowSame : below (update chain x (x :: up.elim [] chain)) P = below chain P := below_insert fresh _
  have unlisted : ∀ g, x ∉ T g := by
    intro g inside
    have listed := h.child g x inside
    rw [single] at listed
    contradiction
  have empty : T x = [] := by
    apply eq_nil_iff_forall_not_mem.mpr
    intro y inside
    exact lonely y (h.child x y inside)
  refine ⟨h.ancestry.insert lonely up other, ?_, h.queue, ?_, ?_, ?_, ?_, h.distinct⟩
  · intro y g upY
    by_cases eq : y = x
    · rw [eq, update_self] at upY
      have ne : g ≠ x := fun eq => other (eq ▸ upY)
      rw [same g ne]
      exact isGroup g upY
    · rw [update_of_ne eq] at upY
      have ne : g ≠ x := fun eq => lonely y (eq ▸ upY)
      rw [same g ne]
      exact h.group y g upY
  · intro l mem
    have ne : l ≠ x := fun eq => fresh (eq ▸ mem)
    exact (same l ne).mpr (h.leaves l mem)
  · intro g notLeaf
    rw [belowSame]
    by_cases eq : g = x
    · subst eq
      rw [empty]
      apply eq_nil_iff_forall_not_mem.mpr
      intro l mem
      obtain ⟨waiting, above⟩ := mem_below.mp mem
      have ne : g ≠ l := fun eq => fresh (eq ▸ waiting)
      obtain ⟨y, _, upY⟩ := h.ancestry.child_mem above ne
      exact lonely y upY
    · exact h.order g fun isLeaf => notLeaf ((same g eq).mpr isLeaf)
  · intro g y inside
    have ne : y ≠ x := fun eq => unlisted g (eq ▸ inside)
    rw [update_of_ne ne]
    exact h.child g y inside
  · intro g y inside
    rw [belowSame]
    exact h.used g y inside

/-! ## Joining the queue -/

/-- `x` at the end, unless it is listed already. -/
def addLast (x : α) (xs : List α) : List α := if x ∈ xs then xs else xs ++ [x]

theorem mem_addLast {xs : List α} : y ∈ addLast x xs ↔ y ∈ xs ∨ y = x := by
  rw [addLast]
  split <;> simp +contextual [*]

/-- `x` is listed by the first of the groups above it, that group by the next one, and so on. -/
def pushAlong : α → List α → (α → List α) → α → List α
  | _, [], T => T
  | x, g :: up, T => pushAlong g up (update T g (addLast x (T g)))

/-- What is listed already is listed last, so that nothing is moved. -/
def PushOk : α → List α → (α → List α) → Prop
  | _, [], _ => True
  | x, g :: up, T => (x ∈ T g → (T g).getLast? = some x) ∧ PushOk g up T

theorem pushAlong_off (off : g ∉ ups) : pushAlong x ups T g = T g := by
  induction ups generalizing x T with
  | nil => rfl
  | cons u ups ih =>
    simp only [mem_cons, not_or] at off
    rw [pushAlong, ih off.2, update_of_ne off.1]

theorem pushAlong_on (h : Ancestry parent chain) (climb : Climb parent x ups)
    (above : y ∈ chain x) (up : parent y = some g) : pushAlong x ups T g = addLast y (T g) := by
  induction climb generalizing T with
  | top top =>
    rw [h.root top, mem_singleton] at above
    rw [above, top] at up
    contradiction
  | @up x u ups upX climb ih =>
    rw [h.child upX, mem_cons] at above
    rcases above with rfl | above
    · rw [up] at upX
      cases upX
      rw [pushAlong, pushAlong_off (climb.fresh h), update_self]
    · rw [pushAlong, ih above, update_of_ne (Climb.parent_ne h above up)]

omit [DecidableEq α] in
theorem pushOk_last (h : Ancestry parent chain) (climb : Climb parent x ups) (ok : PushOk x ups T) (above : y ∈ chain x)
    (up : parent y = some g) (listed : y ∈ T g) : (T g).getLast? = some y := by
  induction climb with
  | top top =>
    rw [h.root top, mem_singleton] at above
    rw [above, top] at up
    contradiction
  | @up x u ups upX climb ih =>
    rw [h.child upX, mem_cons] at above
    rcases above with rfl | above
    · rw [up] at upX
      cases upX
      exact ok.1 listed
    · exact ih ok.2 above

omit [DecidableEq α] in
theorem pushOk_congr (ok : PushOk x ups T) (same : ∀ g ∈ ups, T' g = T g) : PushOk x ups T' := by
  induction ups generalizing x with
  | nil => trivial
  | cons u ups ih =>
    refine ⟨?_, ih ok.2 fun g mem => same g (mem_cons_of_mem u mem)⟩
    rw [same u mem_cons_self]
    exact ok.1

theorem below_push (e : α) : below chain (P ++ [e]) x = below chain P x ++ if x ∈ chain e then [e] else [] := by
  by_cases above : x ∈ chain e <;> simp [below, above]

/-- A leaf that waits already changes nothing. -/
theorem Nested.push_again (h : Nested parent chain leaf P T)
    (climb : Climb parent e ups) (waiting : e ∈ P) : pushAlong e ups T = T := by
  funext g
  by_cases above : g ∈ ups
  · obtain ⟨y, aboveY, up⟩ := climb.child_mem h.ancestry above
    have mem := mem_below.mpr ⟨waiting, aboveY⟩
    rw [pushAlong_on h.ancestry climb aboveY up, addLast, if_pos]
    exact h.listed up (ne_nil_of_mem mem)
  · exact pushAlong_off above

/-- At a group above the leaf, the child that leads to it ends up last and nothing else moves. -/
theorem Nested.push_level (h : Nested parent chain leaf P T)
    (climb : Climb parent e ups) (ok : PushOk e ups T) (above : y ∈ chain e) (up : parent y = some g) :
    ∃ init, pushAlong e ups T g = init ++ [y] ∧ y ∉ init ∧ (∀ z ∈ init, z ∈ T g) ∧ init.Nodup ∧
      below chain P g = init.flatMap (below chain P) ++ below chain P y := by
  have order := h.order g (h.group y g up)
  have nodup := h.distinct g
  rw [pushAlong_on h.ancestry climb above up, addLast]
  by_cases listed : y ∈ T g
  · obtain ⟨init, eq⟩ := List.getLast?_eq_some_iff.mp (pushOk_last h.ancestry climb ok above up listed)
    rw [eq] at order nodup
    rw [if_pos listed]
    refine ⟨init, eq, ?_, ?_, ?_, by simpa using order⟩
    · intro again
      exact (nodup_append.mp nodup).2.2 y again y (mem_singleton_self y) rfl
    · intro z inside
      rw [eq]
      exact mem_append_left [y] inside
    · exact (nodup_append.mp nodup).1
  · have empty : below chain P y = [] := by
      by_contra some_
      exact listed (h.listed up some_)
    rw [if_neg listed]
    exact ⟨T g, rfl, listed, fun z inside => inside, nodup, by simpa [empty] using order⟩

/-- A leaf joins at the end of the queue. -/
theorem Nested.push (h : Nested parent chain leaf P T) (climb : Climb parent e ups) (ok : PushOk e ups T)
    (isLeaf : leaf e) (fresh : e ∉ P) : Nested parent chain leaf (P ++ [e]) (pushAlong e ups T) := by
  have off : ∀ z, z ∉ chain e → below chain (P ++ [e]) z = below chain P z := by
    intro z outside
    rw [below_push, if_neg outside, append_nil]
  have on : ∀ z, z ∈ chain e → below chain (P ++ [e]) z = below chain P z ++ [e] := by
    intro z inside
    rw [below_push, if_pos inside]
  -- a group is above the leaf and gets the child that leads there, or nothing changes below it
  have levels : ∀ g, (∃ y ∈ chain e, parent y = some g) ∨
      (∀ x, parent x = some g → x ∉ chain e) ∧ (leaf g ∨ g ∉ chain e) ∧ pushAlong e ups T g = T g := by
    intro g
    by_cases above : ∃ y ∈ chain e, parent y = some g
    · exact .inl above
    right
    simp only [not_exists, not_and] at above
    refine ⟨fun x up inside => above x inside up, ?_, pushAlong_off ?_⟩
    · by_cases same : g = e
      · exact .inl (same ▸ isLeaf)
      · right
        intro inside
        obtain ⟨y, aboveY, up⟩ := h.ancestry.child_mem inside same
        exact above y aboveY up
    · intro inside
      obtain ⟨y, aboveY, up⟩ := climb.child_mem h.ancestry inside
      exact above y aboveY up
  have joins : ∀ g x, x ∈ pushAlong e ups T g → x ∈ T g ∨ x ∈ chain e ∧ parent x = some g := by
    intro g x inside
    rcases levels g with ⟨y, above, up⟩ | ⟨_, _, same⟩
    · obtain ⟨init, eq, _, listed, _⟩ := h.push_level climb ok above up
      rw [eq, mem_append, mem_singleton] at inside
      rcases inside with inside | rfl
      · exact .inl (listed x inside)
      · exact .inr ⟨above, up⟩
    · exact .inl (same ▸ inside)
  refine ⟨h.ancestry, h.group, ?_, ?_, ?_, ?_, ?_, ?_⟩
  · exact nodup_append.mpr ⟨h.queue, nodup_singleton e, by
      rintro a inside b again rfl
      exact fresh (mem_singleton.mp again ▸ inside)⟩
  · intro l member
    rcases mem_append.mp member with member | member
    · exact h.leaves l member
    · exact mem_singleton.mp member ▸ isLeaf
  · intro g isGroup
    rcases levels g with ⟨y, above, up⟩ | ⟨none_, outside, same⟩
    · obtain ⟨init, eq, notY, listed, _, order⟩ := h.push_level climb ok above up
      have others : init.flatMap (below chain (P ++ [e])) = init.flatMap (below chain P) := by
        apply flatMap_congr
        intro z inside
        apply off
        intro aboveZ
        have eqY := h.ancestry.child_unique aboveZ above (h.child g z (listed z inside)) up
        exact notY (eqY ▸ inside)
      rw [on g (h.ancestry.parent_mem above up), eq, flatMap_append, others, order]
      simp [on y above]
    · rw [same, off g (outside.resolve_left isGroup), h.order g isGroup]
      apply flatMap_congr
      intro z inside
      exact (off z (none_ z (h.child g z inside))).symm
  · intro g x inside
    rcases joins g x inside with inside | ⟨_, up⟩
    · exact h.child g x inside
    · exact up
  · intro g x inside
    rw [below_push]
    rcases joins g x inside with inside | ⟨above, _⟩
    · simp [h.used g x inside]
    · simp [above]
  · intro g
    rcases levels g with ⟨y, above, up⟩ | ⟨_, _, same⟩
    · obtain ⟨init, eq, notY, _, nodup, _⟩ := h.push_level climb ok above up
      rw [eq]
      exact nodup_append.mpr ⟨nodup, nodup_singleton y, by
        rintro a inside b again rfl
        exact notY (mem_singleton.mp again ▸ inside)⟩
    · exact same ▸ h.distinct g

/-! ## Leaving the queue -/

/-- The first of the groups loses what it lists first; if it then lists nothing, so does the next. -/
def popAlong : List α → (α → List α) → α → List α
  | [], T => T
  | g :: up, T =>
    if (T g).tail = [] then popAlong up (update T g []) else update T g (T g).tail

/-- What leaves is what is listed first, at every group that changes. -/
def PopOk : α → List α → (α → List α) → Prop
  | _, [], _ => True
  | x, g :: up, T => (T g).head? = some x ∧ ((T g).tail = [] → PopOk g up T)

omit [DecidableEq α] in
theorem popOk_congr (ok : PopOk x ups T) (same : ∀ g ∈ ups, T' g = T g) : PopOk x ups T' := by
  induction ups generalizing x with
  | nil => trivial
  | cons u ups ih =>
    have here := same u mem_cons_self
    refine ⟨here ▸ ok.1, ?_⟩
    intro last
    exact ih (ok.2 (here ▸ last)) fun g mem => same g (mem_cons_of_mem u mem)

theorem popAlong_off (off : g ∉ ups) : popAlong ups T g = T g := by
  induction ups generalizing T with
  | nil => rfl
  | cons u ups ih =>
    simp only [mem_cons, not_or] at off
    unfold popAlong
    split
    · rw [ih off.2, update_of_ne off.1]
    · rw [update_of_ne off.1]

/-- A group loses the child below which only `t` was waiting, and no other group changes. -/
theorem Nested.pop_level (h : Nested parent chain leaf P T) {t : α} (climb : Climb parent x ups) (above : x ∈ chain t)
    (only : below chain P x = [t]) (ok : PopOk x ups T') (same : ∀ g ∈ ups, T' g = T g) (g : α) :
    (popAlong ups T' g = T' g ∧ ∀ y ∈ chain x, parent y = some g → below chain P y ≠ [t]) ∨
      ∃ y ∈ chain x, parent y = some g ∧ below chain P y = [t] ∧ T' g = y :: popAlong ups T' g := by
  induction climb generalizing T' with
  | top top =>
    left
    refine ⟨rfl, ?_⟩
    intro y aboveY up
    rw [h.ancestry.root top, mem_singleton] at aboveY
    rw [aboveY, top] at up
    contradiction
  | @up x u ups up climb ih =>
    have here := same u mem_cons_self
    have chainX := h.ancestry.child up
    obtain ⟨rest, list⟩ : ∃ rest, T' u = x :: rest := List.head?_eq_some_iff.mp ok.1
    have listed := here ▸ list
    have order := h.order u (h.group x u up)
    rw [listed, flatMap_cons, only] at order
    unfold popAlong
    split
    next last =>
      obtain rfl : rest = [] := by simpa [list] using last
      have onlyU : below chain P u = [t] := by simpa using order
      have later : ∀ g ∈ ups, update T' u [] g = T' g := by
        intro g mem
        have other : g ≠ u := fun eq => climb.fresh h.ancestry (eq ▸ mem)
        exact update_of_ne other ..
      by_cases eq : g = u
      · subst eq
        right
        refine ⟨x, h.ancestry.self x, up, only, ?_⟩
        rw [popAlong_off (climb.fresh h.ancestry), update_self, list]
      rcases ih (h.ancestry.parent_mem above up) onlyU (popOk_congr (ok.2 last) later)
          (fun g mem => (later g mem).trans (same g (mem_cons_of_mem u mem))) with
        ⟨unchanged, others⟩ | ⟨y, aboveY, upY, onlyY, listY⟩
      · left
        refine ⟨by rw [unchanged, update_of_ne eq], ?_⟩
        intro y aboveY upY
        rw [chainX, mem_cons] at aboveY
        rcases aboveY with rfl | aboveY
        · rw [up] at upY
          exact absurd (Option.some.inj upY).symm eq
        · exact others y aboveY upY
      · right
        rw [update_of_ne eq] at listY
        exact ⟨y, chainX ▸ mem_cons_of_mem x aboveY, upY, onlyY, listY⟩
    next more =>
      by_cases eq : g = u
      · subst eq
        right
        refine ⟨x, h.ancestry.self x, up, only, ?_⟩
        rw [update_self, list, tail_cons]
      left
      refine ⟨update_of_ne eq .., ?_⟩
      intro y aboveY upY onlyY
      rw [chainX, mem_cons] at aboveY
      rcases aboveY with rfl | aboveY
      · rw [up] at upY
        exact eq (Option.some.inj upY).symm
      -- another child is listed, and what is below it is below `y` too
      cases rest with
      | nil => simp [list] at more
      | cons z =>
        have listedZ : z ∈ T u := by simp [listed]
        obtain ⟨l, memberZ⟩ := exists_mem_of_ne_nil _ (h.used u z listedZ)
        obtain ⟨waiting, aboveZ⟩ := mem_below.mp memberZ
        have aboveU := h.ancestry.parent_mem aboveZ (h.child u z listedZ)
        have memberY := mem_below.mpr ⟨waiting, h.ancestry.trans aboveU aboveY⟩
        rw [onlyY, mem_singleton] at memberY
        subst memberY
        have same := h.ancestry.child_unique aboveZ above (h.child u z listedZ) up
        have nodup := h.distinct u
        rw [listed, same] at nodup
        simp at nodup

theorem below_erase (queue : P.Nodup) (t : α) :
    below chain (P.erase t) x = (below chain P x).filter fun l => decide (l ≠ t) := by
  rw [below, below, queue.erase_eq_filter, filter_filter, filter_filter]
  congr 1
  funext l
  by_cases eq : l = t <;> simp [eq]

/-- A leaf leaves the queue from the front of every list that changes. -/
theorem Nested.pop (h : Nested parent chain leaf P T) {t : α} (climb : Climb parent t ups) (waiting : t ∈ P)
    (ok : PopOk t ups T) : Nested parent chain leaf (P.erase t) (popAlong ups T) := by
  have levels := h.pop_level climb (h.ancestry.self t) (h.below_waiting waiting) ok fun _ _ => rfl
  have kept : ∀ g x, x ∈ popAlong ups T g → x ∈ T g := by
    intro g x inside
    rcases levels g with ⟨same, _⟩ | ⟨y, _, _, _, list⟩
    · exact same ▸ inside
    · exact list ▸ mem_cons_of_mem y inside
  refine ⟨h.ancestry, h.group, h.queue.erase t, ?_, ?_, ?_, ?_, ?_⟩
  · intro l mem
    exact h.leaves l (mem_of_mem_erase mem)
  · intro g isGroup
    have filtered : below chain (P.erase t) g = (T g).flatMap (below chain (P.erase t)) := by
      rw [below_erase h.queue, h.order g isGroup, filter_flatMap]
      apply flatMap_congr
      intro z _
      exact (below_erase h.queue t).symm
    rcases levels g with ⟨same, _⟩ | ⟨y, _, _, only, list⟩
    · rw [same]
      exact filtered
    · have gone : below chain (P.erase t) y = [] := by simp [below_erase h.queue, only]
      rw [list, flatMap_cons, gone, nil_append] at filtered
      exact filtered
  · exact fun g x inside => h.child g x (kept g x inside)
  · intro g x inside gone
    have only : below chain P x = [t] := by
      apply eq_singleton (h.queue.filter _) (h.used g x (kept g x inside))
      intro l mem
      have mem : l ∈ below chain P x := mem
      by_contra other
      have stays : l ∈ below chain (P.erase t) x := by
        rw [below_erase h.queue]
        simp [mem, other]
      rw [gone] at stays
      simp at stays
    have mem : t ∈ below chain P x := by simp [only]
    have above := (mem_below.mp mem).2
    have up := h.child g x (kept g x inside)
    rcases levels g with ⟨_, others⟩ | ⟨y, aboveY, upY, _, list⟩
    · exact others x above up only
    · have same := h.ancestry.child_unique above aboveY up upY
      have nodup := h.distinct g
      rw [list, ← same, nodup_cons] at nodup
      exact nodup.1 inside
  · intro g
    rcases levels g with ⟨same, _⟩ | ⟨y, _, _, _, list⟩
    · exact same ▸ h.distinct g
    · exact (nodup_cons.mp (list ▸ h.distinct g)).2

end SuperGlue.Lib.NestedQueue
