import Mathlib

/-!
# A pool of cells

Some cells are free and some regions are held. Regions that are held do not overlap and have no free cell.
A region is taken from the free cells and given back to them, and a pool can grow by cells that nobody holds.
-/
namespace SuperGlue.Lib.Pool

variable {α ρ : Type} {cells : ρ → Set α} {free : Set α} {held : List ρ} {r : ρ}

structure Separated (cells : ρ → Set α) (free : Set α) (held : List ρ) : Prop where
  apart : held.Pairwise fun r r' => Disjoint (cells r) (cells r')
  taken : ∀ r ∈ held, Disjoint (cells r) free

theorem Separated.empty (cells : ρ → Set α) (free : Set α) : Separated cells free [] := ⟨List.Pairwise.nil, by simp⟩

section
variable (h : Separated cells free held)
include h

theorem Separated.take (inside : cells r ⊆ free) : Separated cells (free \ cells r) (r :: held) := by
  constructor
  · rw [List.pairwise_cons]
    refine ⟨fun r' member => ?_, h.apart⟩
    exact (h.taken r' member).symm.mono_left inside
  · intro r' member
    rcases List.mem_cons.mp member with rfl | member
    · exact Set.disjoint_sdiff_right
    · exact (h.taken r' member).mono_right Set.sdiff_subset

theorem Separated.grow (new : Set α) (unheld : ∀ r ∈ held, Disjoint (cells r) new) :
    Separated cells (free ∪ new) held := by
  refine ⟨h.apart, ?_⟩
  intro r mem
  exact Set.disjoint_union_right.mpr ⟨h.taken r mem, unheld r mem⟩

theorem Separated.give [DecidableEq ρ] (mem : r ∈ held) : Separated cells (free ∪ cells r) (held.erase r) := by
  have order := List.perm_cons_erase mem
  have apart := (order.pairwise_iff fun disjoint => disjoint.symm).mp h.apart
  rw [List.pairwise_cons] at apart
  refine ⟨apart.2, ?_⟩
  intro r' other
  exact Set.disjoint_union_right.mpr ⟨h.taken r' (List.mem_of_mem_erase other), (apart.1 r' other).symm⟩

end

theorem Separated.drop (h : Separated cells free (r :: held)) : Separated cells free held :=
  ⟨(List.pairwise_cons.mp h.apart).2, fun r' mem => h.taken r' (List.mem_cons_of_mem r mem)⟩

end SuperGlue.Lib.Pool
