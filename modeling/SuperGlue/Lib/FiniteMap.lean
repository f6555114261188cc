import Mathlib

/-!
# Finite tables

A partial map with a list that contains every key in use, so that a property of all entries can be
decided. Two tables with the same entries may list different keys; nothing but decidability depends
on the list.
-/
namespace SuperGlue.Lib.FiniteMap
open Finset Option Function

structure Table (κ ν : Type) where
  get : κ → Option ν
  keys : List κ
  covers : ∀ k v, get k = some v → k ∈ keys

variable {κ ν : Type}

def Table.empty : Table κ ν := ⟨fun _ => none, [], nofun⟩

def Table.All (t : Table κ ν) (P : κ → ν → Prop) : Prop := ∀ k v, t.get k = some v → P k v

theorem Table.all_iff (t : Table κ ν) (P : κ → ν → Prop) : (∀ k ∈ t.keys, ∀ v ∈ t.get k, P k v) ↔ t.All P := by
  constructor
  · intro h k v found
    exact h k (t.covers k v found) v found
  · intro h k _ v found
    exact h k v found

instance (t : Table κ ν) (P : κ → ν → Prop) [∀ k v, Decidable (P k v)] : Decidable (t.All P) :=
  decidable_of_iff (∀ k ∈ t.keys, ∀ v ∈ t.get k, P k v) (t.all_iff P)

variable [DecidableEq κ] {t : Table κ ν} {P : κ → ν → Bool} {k k' : κ} {β : Type} {f : κ → Option β} {v : ν}

/-- What an updated map has at a key. -/
theorem update_known {v w : β} (found : Function.update f k (some v) k' = some w) :
    k' = k ∧ w = v ∨ k' ≠ k ∧ f k' = some w := by
  by_cases same : k' = k
  · subst same
    rw [update_self] at found
    exact .inl ⟨rfl, (some.inj found).symm⟩
  · rw [update_of_ne same] at found
    exact .inr ⟨same, found⟩

/-- What is left of a map without a key. -/
theorem erase_known {w : β} (found : Function.update f k none k' = some w) : k' ≠ k ∧ f k' = some w := by
  rw [update_apply] at found
  split at found
  · contradiction
  next other => exact ⟨other, found⟩

theorem update_present {v : β} (present : f k' ≠ none) : Function.update f k (some v) k' ≠ none := by
  by_cases same : k' = k
  · simp [same]
  · rwa [update_of_ne same]

/-- No value is taken at two keys. -/
def Separate (f : κ → Option β) : Prop := ∀ a b v, f a = some v → f b = some v → a = b

theorem Separate.update (h : Separate f) {v : β}
    (new : ∀ a, f a = some v → a = k) : Separate (Function.update f k (some v)) := by
  intro a b w foundA foundB
  rw [update_apply] at foundA foundB
  split at foundA <;> split at foundB
  next sameA sameB => rw [sameA, sameB]
  next sameA _ =>
    cases foundA
    rw [sameA, new b foundB]
  next _ sameB =>
    cases foundB
    rw [sameB, new a foundA]
  · exact h a b w foundA foundB

section
variable (t : Table κ ν)

theorem set_covers (k : κ) (v : ν) (k' : κ) (v' : ν)
    (h : Function.update t.get k (some v) k' = some v') : k' ∈ k :: t.keys := by
  obtain ⟨rfl, -⟩ | ⟨-, old⟩ := update_known h
  · exact List.mem_cons_self
  · exact List.mem_cons_of_mem k (t.covers k' v' old)

def Table.set (k : κ) (v : ν) : Table κ ν :=
  ⟨Function.update t.get k (some v), k :: t.keys, set_covers t k v⟩

theorem erase_covers (k : κ) (k' : κ) (v' : ν) (h : Function.update t.get k none k' = some v') : k' ∈ t.keys :=
  t.covers k' v' (erase_known h).2

def Table.erase (k : κ) : Table κ ν :=
  ⟨Function.update t.get k none, t.keys, erase_covers t k⟩

theorem Table.get_set (k k' : κ) (v : ν) : (t.set k v).get k' = if k' = k then some v else t.get k' :=
  update_apply t.get k (some v) k'

theorem Table.get_erase (k k' : κ) : (t.erase k).get k' = if k' = k then none else t.get k' :=
  update_apply t.get k none k'

@[simp]
theorem Table.get_set_self (k : κ) (v : ν) : (t.set k v).get k = some v := by
  rw [get_set, if_pos rfl]

@[simp]
theorem Table.get_erase_self (k : κ) : (t.erase k).get k = none := by
  rw [get_erase, if_pos rfl]

theorem Table.get_set_of_ne (ne : k' ≠ k) (v : ν) : (t.set k v).get k' = t.get k' := by
  rw [get_set, if_neg ne]

end

theorem Table.All.set {P : κ → ν → Prop} (h : t.All P) (new : P k v) : (t.set k v).All P := by
  intro k' v' found
  obtain ⟨rfl, rfl⟩ | ⟨-, old⟩ := update_known found
  · exact new
  · exact h k' v' old

/-! ## Counting entries -/

/-- The keys of the entries with a property. -/
def Table.support (t : Table κ ν) (P : κ → ν → Bool) : Finset κ :=
  t.keys.toFinset.filter fun k => (t.get k).any (P k) = true

@[simp]
theorem Table.mem_support : k ∈ t.support P ↔ ∃ v, t.get k = some v ∧ P k v := by
  simp only [support, mem_filter, List.mem_toFinset, any_eq_true, and_iff_right_iff_imp]
  rintro ⟨v, found, -⟩
  exact t.covers k v found

/-- How many entries have a property. -/
def Table.count (t : Table κ ν) (P : κ → ν → Bool) : Nat := (t.support P).card

theorem Table.count_pos (found : t.get k = some v) (holds : P k v) : 0 < t.count P :=
  card_pos.mpr ⟨k, mem_support.mpr ⟨v, found, holds⟩⟩

theorem Table.count_eq_zero (none_ : ∀ k v, t.get k = some v → P k v = false) : t.count P = 0 := by
  rw [count, card_eq_zero, eq_empty_iff_forall_notMem]
  intro k mem
  obtain ⟨v, found, holds⟩ := mem_support.mp mem
  rw [none_ k v found] at holds
  contradiction

theorem Table.count_set (fresh : t.get k = none) (v : ν) (P : κ → ν → Bool) :
    (t.set k v).count P = t.count P + if P k v then 1 else 0 := by
  have outside : k ∉ t.support P := by simp [fresh]
  unfold count
  split
  next holds =>
    rw [← Finset.card_insert_of_notMem outside]
    congr 1
    ext k'
    by_cases same : k' = k
    · simp [same, holds]
    · simp [same, get_set]
  next fails =>
    rw [Nat.add_zero]
    congr 1
    ext k'
    by_cases same : k' = k
    · simp [same, fails, fresh]
    · simp [same, get_set]

/-- An entry is replaced by one that counts as much. -/
theorem Table.count_set_same {v v' : ν} (found : t.get k = some v)
    (same : P k v' = P k v) : (t.set k v').count P = t.count P := by
  unfold count
  congr 1
  ext k'
  by_cases here : k' = k
  · simp [here, found, same]
  · simp [here, get_set]

theorem Table.count_erase (found : t.get k = some v) (P : κ → ν → Bool) :
    t.count P = (t.erase k).count P + if P k v then 1 else 0 := by
  have rest : (t.erase k).support P = (t.support P).erase k := by
    ext k'
    by_cases same : k' = k
    · simp [same]
    · simp [same, get_erase]
  unfold count
  rw [rest]
  split
  next holds => exact (card_erase_add_one (mem_support.mpr ⟨v, found, holds⟩)).symm
  next fails =>
    have outside : k ∉ t.support P := by simp [found, fails]
    rw [erase_eq_of_notMem outside, Nat.add_zero]

end SuperGlue.Lib.FiniteMap
