import Mathlib

/-!
# Paths as strings

A path is a list of names, and is written with a separator behind every name but the last. Behind the last one it
stands for a directory. A name is not empty and has no separator in it, so that a path can be read back.
-/
namespace SuperGlue.Lib.Paths
open List

variable {α : Type} {sep : α}

/-- The path as a string. -/
def spell (sep : α) : List (List α) → Bool → List α
  | [], _ => []
  | [name], dir => name ++ if dir then [sep] else []
  | name :: next :: rest, dir => name ++ sep :: spell sep (next :: rest) dir

def IsName (sep : α) (name : List α) : Prop := name ≠ [] ∧ sep ∉ name

theorem spell_cons (name : List α) (rest : List (List α)) (dir : Bool) :
    spell sep (name :: rest) dir = name ++ if rest = [] ∧ dir = false then [] else sep :: spell sep rest dir := by
  cases rest with
  | nil => cases dir <;> simp [spell]
  | cons => simp [spell]

/-- The path of an object below a directory. -/
theorem spell_append (names : List (List α)) (name : List α) (dir : Bool) :
    spell sep (names ++ [name]) dir = spell sep names true ++ name ++ if dir then [sep] else [] := by
  induction names with
  | nil => simp [spell]
  | cons first rest ih =>
    rw [cons_append, spell_cons, spell_cons, ih]
    simp

/-- The path of a directory. -/
theorem spell_dir (names : List (List α)) : spell sep names true = names.flatMap (· ++ [sep]) := by
  induction names with
  | nil => rfl
  | cons name rest ih =>
    rw [spell_cons, ih]
    simp

theorem spell_ne_nil {names : List (List α)} (valid : ∀ name ∈ names, IsName sep name) (some_ : names ≠ [])
    (dir : Bool) : spell sep names dir ≠ [] := by
  cases names with
  | nil => contradiction
  | cons name =>
    rw [spell_cons]
    simp [(valid name mem_cons_self).1]

/-- What stands in front of the first separator. -/
theorem split_unique {x y a b : List α} (first : sep ∉ x) (second : sep ∉ y) (same : x ++ sep :: a = y ++ sep :: b) :
    x = y ∧ a = b := by
  induction x generalizing y with
  | nil =>
    cases y with
    | nil => simpa using same
    | cons =>
      simp only [nil_append, cons_append, List.cons.injEq] at same
      simp [same.1] at second
  | cons c x ih =>
    cases y with
    | nil =>
      simp only [nil_append, cons_append, List.cons.injEq] at same
      simp [same.1] at first
    | cons =>
      simp only [cons_append, List.cons.injEq] at same
      simp only [mem_cons, not_or] at first second
      obtain ⟨rfl, rfl⟩ := ih first.2 second.2 same.2
      exact ⟨by rw [same.1], rfl⟩

/-- Different paths are different strings. -/
theorem spell_injective {names names' : List (List α)} {dir dir' : Bool} (valid : ∀ name ∈ names, IsName sep name)
    (valid' : ∀ name ∈ names', IsName sep name) (some_ : names ≠ []) (some' : names' ≠ [])
    (same : spell sep names dir = spell sep names' dir') : names = names' ∧ dir = dir' := by
  induction names generalizing names' with
  | nil => contradiction
  | cons x rest ih =>
    cases names' with
    | nil => contradiction
    | cons y rest' =>
      have validX := valid x mem_cons_self
      have validY := valid' y mem_cons_self
      have validRest : ∀ name ∈ rest, IsName sep name := fun name mem =>
        valid name (mem_cons_of_mem x mem)
      have validRest' : ∀ name ∈ rest', IsName sep name := fun name mem =>
        valid' name (mem_cons_of_mem y mem)
      rw [spell_cons, spell_cons] at same
      split at same <;> split at same
      next ends ends' =>
        obtain ⟨rfl, rfl⟩ := ends
        obtain ⟨rfl, rfl⟩ := ends'
        simpa using same
      · rw [append_nil] at same
        exact absurd (same ▸ validX.2) (by simp)
      · rw [append_nil] at same
        exact absurd (same ▸ validY.2) (by simp)
      next open_ open' =>
        obtain ⟨rfl, below⟩ := split_unique validX.2 validY.2 same
        cases rest with
        | nil =>
          cases rest' with
          | nil =>
            simp only [true_and, Bool.not_eq_false] at open_ open'
            exact ⟨rfl, open_.trans open'.symm⟩
          | cons => exact absurd below.symm (spell_ne_nil validRest' (by simp) dir')
        | cons =>
          cases rest' with
          | nil => exact absurd below (spell_ne_nil validRest (by simp) dir)
          | cons =>
            obtain ⟨names, kind⟩ := ih validRest validRest' (by simp) (by simp) below
            exact ⟨by rw [names], kind⟩

end SuperGlue.Lib.Paths
