import Mathlib

/-!
# Counting the members of a finite set by key

Reference counts: how many members of a set have a given key, as members come and go.
-/
namespace SuperGlue.Lib.Tally
open Finset Function

variable {α β : Type} [DecidableEq β] {s : Finset α} {a : α}

/-- The number of members of `s` whose key is `b`. -/
def tally (s : Finset α) (key : α → β) (b : β) : Nat :=
  (s.filter fun a => key a = b).card

theorem tally_empty (key : α → β) (b : β) : tally ∅ key b = 0 := by
  simp [tally]

/-- Only the keys of members count. -/
theorem tally_congr {key key' : α → β} (same : ∀ a ∈ s, key' a = key a) (b : β) : tally s key' b = tally s key b := by
  unfold tally
  congr 1
  apply filter_congr
  intro a mem
  rw [same a mem]

theorem tally_pos (mem : a ∈ s) (key : α → β) : 0 < tally s key (key a) := by
  apply card_pos.mpr
  exact ⟨a, mem_filter.mpr ⟨mem, rfl⟩⟩

theorem tally_eq_zero {key : α → β} {b : β} : tally s key b = 0 ↔ ∀ a ∈ s, key a ≠ b := by
  simp [tally, filter_eq_empty_iff]

variable [DecidableEq α]

theorem tally_insert (fresh : a ∉ s) (key : α → β) (b : β) :
    tally (insert a s) key b = tally s key b + if key a = b then 1 else 0 := by
  unfold tally
  rw [filter_insert]
  split
  · simp [fresh]
  · rfl

theorem tally_erase (mem : a ∈ s) (key : α → β) (b : β) :
    tally s key b = tally (s.erase a) key b + if key a = b then 1 else 0 := by
  have fresh := notMem_erase a s
  rw [← tally_insert fresh, insert_erase mem]

/-- One member gets another key. -/
theorem tally_update (mem : a ∈ s) (key : α → β) (c b : β) :
    (tally s (update key a c) b + if key a = b then 1 else 0) = tally s key b + if c = b then 1 else 0 := by
  have others : tally (s.erase a) (update key a c) b = tally (s.erase a) key b := by
    apply tally_congr
    intro x inside
    exact update_of_ne (ne_of_mem_erase inside) c key
  rw [tally_erase mem (update key a c), tally_erase mem key, update_self]
  omega

end SuperGlue.Lib.Tally
