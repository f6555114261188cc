import Mathlib

/-!
# Maps that choose their keys

A map from numbers to values which hands out the key of a new entry itself: the key that was freed
last, or else the first one never used. Keys below `base` are never handed out or freed. The proofs it
carries say that a key on offer has no entry.
-/
namespace SuperGlue.Lib.Slots
open Option List Function

structure SlotMap (base : Nat) (ν : Type) where
  get : Nat → Option ν
  /-- The keys that were freed, the latest first. -/
  freed : List Nat
  /-- The first key never used. -/
  next : Nat
  low : base ≤ next
  below : ∀ i v, get i = some v → i < next
  unused : ∀ i ∈ freed, base ≤ i ∧ i < next ∧ get i = none
  nodup : freed.Nodup

variable {base : Nat} {ν : Type}

/-- The key of the next entry. -/
def SlotMap.slot (m : SlotMap base ν) : Nat := m.freed.headD m.next

theorem modify_some {m : SlotMap base ν} {f : ν → ν} {w : ν}
    (found : update m.get k ((m.get k).map f) i = some w) : ∃ v, m.get i = some v := by
  by_cases same : i = k
  · rw [same, update_self, map_eq_some_iff] at found
    obtain ⟨v, found, -⟩ := found
    exact ⟨v, same ▸ found⟩
  · rw [update_of_ne same] at found
    exact ⟨w, found⟩

def SlotMap.All (m : SlotMap base ν) (P : Nat → ν → Prop) : Prop := ∀ i v, m.get i = some v → P i v

section

variable (m : SlotMap base ν)
include m

theorem SlotMap.get_slot : m.get m.slot = none := by
  have unused := m.unused
  have below := m.below
  unfold slot
  cases freed : m.freed with
  | nil =>
    rw [eq_none_iff_forall_ne_some]
    intro v found
    exact absurd (below _ v found) (Nat.lt_irrefl _)
  | cons i => exact (unused i (freed ▸ mem_cons_self)).2.2

theorem SlotMap.base_le_slot : base ≤ m.slot := by
  have unused := m.unused
  unfold slot
  cases freed : m.freed with
  | nil => exact m.low
  | cons i => exact (unused i (freed ▸ mem_cons_self)).1

variable {i : Nat}

omit m in
theorem SlotMap.slot_ne {m : SlotMap base ν} {v : ν} (found : m.get i = some v) : i ≠ m.slot := by
  intro same
  rw [same, m.get_slot] at found
  nomatch found

theorem add_below (v : ν) (i : Nat) (w : ν)
    (found : update m.get m.slot (some v) i = some w) : i < max m.next (m.slot + 1) := by
  by_cases same : i = m.slot
  · omega
  · rw [update_of_ne same] at found
    have := m.below i w found
    omega

theorem add_unused (v : ν) (i : Nat) (mem : i ∈ m.freed.tail) :
    base ≤ i ∧ i < max m.next (m.slot + 1) ∧ update m.get m.slot (some v) i = none := by
  have nodup := m.nodup
  obtain ⟨low, lt, none_⟩ := m.unused i (mem_of_mem_tail mem)
  have ne : i ≠ m.slot := by
    unfold SlotMap.slot
    cases freed : m.freed with
    | nil => rw [freed] at mem; exact absurd mem not_mem_nil
    | cons j =>
      rw [freed] at mem nodup
      intro same
      have same : i = j := same
      exact (nodup_cons.mp nodup).1 (same ▸ mem)
  exact ⟨low, by omega, by rw [update_of_ne ne, none_]⟩

omit m in
variable (m : SlotMap base ν)

def SlotMap.add (v : ν) : SlotMap base ν where
  get := update m.get m.slot (some v)
  freed := m.freed.tail
  next := max m.next (m.slot + 1)
  low := Nat.le_trans m.low (Nat.le_max_left _ _)
  below := add_below m v
  unused := add_unused m v
  nodup := m.nodup.tail

variable {k : Nat}

theorem modify_unused (k : Nat) (f : ν → ν) (i : Nat) (mem : i ∈ m.freed) :
    base ≤ i ∧ i < m.next ∧ update m.get k ((m.get k).map f) i = none := by
  obtain ⟨low, lt, none_⟩ := m.unused i mem
  refine ⟨low, lt, eq_none_iff_forall_ne_some.mpr ?_⟩
  intro w found
  obtain ⟨v, found⟩ := modify_some found
  rw [none_] at found
  nomatch found

omit m in
/-- Change the entry of a key, if it has one. -/
def SlotMap.modify (k : Nat) (f : ν → ν) : SlotMap base ν where
  get := update m.get k ((m.get k).map f)
  freed := m.freed
  next := m.next
  low := m.low
  below := fun i _ found => (modify_some found).elim fun v found => m.below i v found
  unused := modify_unused m k f
  nodup := m.nodup

theorem del_below (k i : Nat) (w : ν) (found : update m.get k none i = some w) : i < m.next := by
  by_cases same : i = k
  · rw [same, update_self] at found
    nomatch found
  · rw [update_of_ne same] at found
    exact m.below i w found

theorem del_unused {v : ν} (present : m.get k = some v) (high : base ≤ k) (i : Nat) (member : i ∈ k :: m.freed) :
    base ≤ i ∧ i < m.next ∧ update m.get k none i = none := by
  rcases mem_cons.mp member with rfl | member
  · exact ⟨high, m.below i v present, update_self i none m.get⟩
  obtain ⟨low, lt, none_⟩ := m.unused i member
  refine ⟨low, lt, ?_⟩
  rw [update_apply]
  split
  · rfl
  · exact none_

theorem del_nodup {v : ν} (present : m.get k = some v) : (k :: m.freed).Nodup := by
  refine nodup_cons.mpr ⟨?_, m.nodup⟩
  intro mem
  rw [(m.unused k mem).2.2] at present
  nomatch present

omit m in
/-- Free a key, if it has an entry and is not a reserved one. -/
def SlotMap.del (k : Nat) : SlotMap base ν :=
  if high : base ≤ k then
    match present : m.get k with
    | none => m
    | some _ =>
      { get := update m.get k none
        freed := k :: m.freed
        next := m.next
        low := m.low
        below := del_below m k
        unused := del_unused m present high
        nodup := del_nodup m present }
  else m

theorem SlotMap.get_add (v : ν) (i : Nat) : (m.add v).get i = if i = m.slot then some v else m.get i :=
  update_apply m.get m.slot (some v) i

theorem SlotMap.get_modify (k : Nat) (f : ν → ν) (i : Nat) :
    (m.modify k f).get i = if i = k then (m.get k).map f else m.get i :=
  update_apply m.get k ((m.get k).map f) i

theorem SlotMap.get_del (high : base ≤ k) (i : Nat) : (m.del k).get i = if i = k then none else m.get i := by
  rw [del, dif_pos high]
  split
  next absent =>
    split
    next same => rw [same, absent]
    · rfl
  · exact update_apply m.get k none i

/-- Other entries survive a deletion. -/
theorem SlotMap.get_del_of_ne (ne : i ≠ k) : (m.del k).get i = m.get i := by
  by_cases high : base ≤ k
  · rw [m.get_del high, if_neg ne]
  · rw [del, dif_neg high]

theorem SlotMap.get_del_reserved (k : Nat) (reserved : i < base) : (m.del k).get i = m.get i := by
  by_cases high : base ≤ k
  · exact m.get_del_of_ne (by omega)
  · rw [del, dif_neg high]

omit m in
/-- An entry survives the addition of another. -/
theorem SlotMap.get_add_of_some {m : SlotMap base ν} {w : ν} (found : m.get i = some w) (v : ν) :
    (m.add v).get i = some w := by
  rw [get_add, if_neg (slot_ne found), found]

/-! ## Properties of all entries -/

theorem SlotMap.all_iff (P : Nat → ν → Prop) : (∀ i < m.next, ∀ v ∈ m.get i, P i v) ↔ m.All P := by
  constructor
  · intro h i v found
    exact h i (m.below i v found) v found
  · intro h i _ v found
    exact h i v found

end

instance (m : SlotMap base ν) (P : Nat → ν → Prop) [∀ i v, Decidable (P i v)] : Decidable (m.All P) :=
  decidable_of_iff (∀ i < m.next, ∀ v ∈ m.get i, P i v) (m.all_iff P)

end SuperGlue.Lib.Slots
