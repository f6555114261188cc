import Mathlib

/-!
# Circular arrays

An array with the index of the next free slot and that of the oldest entry, both taken modulo its size.
There is no room for as many entries as there are slots: equal indices mean that it is empty. Writing to a
full array is not refused and makes it look empty.
-/
namespace SuperGlue.Lib.Circular
open Nat Function List

structure Buffer (size : Nat) (ν : Type) where
  slot : Nat → ν
  head : Nat
  tail : Nat
  head_lt : head < size
  tail_lt : tail < size

variable {size : Nat} {ν : Type}

section
variable (c : Buffer size ν)

def Buffer.push (v : ν) : Buffer size ν :=
  ⟨update c.slot c.head v, (c.head + 1) % size, c.tail, mod_lt _ (zero_lt_of_lt c.head_lt), c.tail_lt⟩

/-- The oldest entry is overwritten and left. -/
def Buffer.pop (blank : ν) : Buffer size ν :=
  ⟨update c.slot c.tail blank, c.head, (c.tail + 1) % size, c.head_lt, mod_lt _ (zero_lt_of_lt c.head_lt)⟩

def Buffer.length : Nat :=
  if c.tail ≤ c.head then c.head - c.tail else c.head + size - c.tail

/-- The slot of the entry at a position. -/
def Buffer.index (i : Nat) : Nat :=
  if c.tail + i < size then c.tail + i else c.tail + i - size

def Buffer.contents : List ν := (List.range c.length).map fun i => c.slot (c.index i)

end

variable {c : Buffer size ν} {v : ν}

theorem succ_mod {n : Nat} (lt : n < size) : (n + 1) % size = if n + 1 < size then n + 1 else 0 := by
  split
  next inside => exact mod_eq_of_lt inside
  next outside =>
    have last : n + 1 = size := by omega
    rw [last, mod_self]

@[simp]
theorem length_contents (c : Buffer size ν) : c.contents.length = c.length := by
  rw [Buffer.contents, length_map, length_range]

theorem length_lt (c : Buffer size ν) : c.length < size := by
  have head := c.head_lt
  unfold Buffer.length
  split <;> omega

theorem index_length (c : Buffer size ν) : c.index c.length = c.head := by
  have head := c.head_lt
  have tail := c.tail_lt
  unfold Buffer.index Buffer.length
  split <;> split <;> omega

variable {i : Nat}

theorem index_ne_head (lt : i < c.length) : c.index i ≠ c.head := by
  unfold Buffer.length at lt
  unfold Buffer.index
  split <;> split at lt <;> omega

theorem index_succ_ne_tail (lt : i + 1 < size) : c.index (i + 1) ≠ c.tail := by
  unfold Buffer.index
  split <;> omega

theorem length_push (room : c.length + 1 < size) : (c.push v).length = c.length + 1 := by
  have head := c.head_lt
  have tail := c.tail_lt
  have next : (c.push v).head = if c.head + 1 < size then c.head + 1 else 0 := succ_mod head
  change (if c.tail ≤ (c.push v).head then (c.push v).head - c.tail else (c.push v).head + size - c.tail) = _
  unfold Buffer.length at room ⊢
  rw [next]
  split at room <;> split <;> split <;> omega

/-- A new entry is the last one, if there is room. -/
theorem contents_push (room : c.length + 1 < size) : (c.push v).contents = c.contents ++ [v] := by
  rw [Buffer.contents, length_push room, range_succ, map_append]
  congr 1
  · refine map_congr_left fun i mem => ?_
    have other := index_ne_head (mem_range.mp mem)
    exact update_of_ne other v c.slot
  · have last : (c.push v).index c.length = c.head := index_length c
    have written : (c.push v).slot c.head = v := update_self ..
    rw [map_singleton, last, written]

theorem length_pop (blank : ν) (some : 0 < c.length) : (c.pop blank).length + 1 = c.length := by
  have head := c.head_lt
  have tail := c.tail_lt
  have next : (c.pop blank).tail = if c.tail + 1 < size then c.tail + 1 else 0 := succ_mod tail
  change (if (c.pop blank).tail ≤ c.head then c.head - (c.pop blank).tail
    else c.head + size - (c.pop blank).tail) + 1 = _
  unfold Buffer.length at some ⊢
  rw [next]
  split at some <;> split <;> split <;> omega

theorem index_pop (blank : ν) (lt : i + 1 < size) : (c.pop blank).index i = c.index (i + 1) := by
  have tail := c.tail_lt
  have next : (c.pop blank).tail = if c.tail + 1 < size then c.tail + 1 else 0 := succ_mod tail
  unfold Buffer.index
  rw [next]
  split <;> split <;> split <;> omega

/-- The oldest entry is the first one. -/
theorem contents_cons (blank : ν) (some : 0 < c.length) : c.contents = c.slot c.tail :: (c.pop blank).contents := by
  have tail := c.tail_lt
  have first : c.index 0 = c.tail := if_pos tail
  rw [Buffer.contents, ← length_pop blank some, range_succ_eq_map, map_cons, first, map_map]
  congr 1
  refine map_congr_left fun i mem => ?_
  have bound := length_lt c
  have same := length_pop blank some
  have lt : i + 1 < size := by
    have := mem_range.mp mem
    omega
  change c.slot (c.index (i + 1)) = update c.slot c.tail blank ((c.pop blank).index i)
  rw [index_pop blank lt, update_of_ne (index_succ_ne_tail lt)]

theorem contents_pop (blank : ν) {rest : List ν} (h : c.contents = v :: rest) : (c.pop blank).contents = rest := by
  have some : 0 < c.length := by
    rw [← length_contents, h]
    exact succ_pos _
  rw [contents_cons blank some] at h
  exact (List.cons.inj h).2

/-- A single entry lies between the two indices, unless they are at the two ends of the array. -/
theorem contents_singleton (h : c.contents = [v]) (inside : c.tail + 1 < size) :
    c.head = c.tail + 1 ∧ c.slot c.tail = v := by
  have one : c.length = 1 := by
    rw [← length_contents, h]
    rfl
  have some : 0 < c.length := by omega
  have slot := contents_cons v some
  rw [h] at slot
  refine ⟨?_, (List.cons.inj slot).1.symm⟩
  unfold Buffer.length at one
  split at one <;> omega

end SuperGlue.Lib.Circular
