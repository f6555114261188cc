import Mathlib

/-!
# Singly linked chains through an array of words

The cells of an array each hold one word. Some words are pointers to cells, one word ends a list,
and any other word is something else that the cell is used for. A chain is a list of cells threaded
through their words from a head word to the end.
-/
namespace SuperGlue.Lib.LinkedWords
open Function List

variable {α ω : Type}

/-- How cell pointers and the end of a list are written as words. -/
structure Encoding (α ω : Type) where
  ptr : α → ω
  nil : ω
  ptr_inj : ∀ a b, ptr a = ptr b → a = b
  ptr_ne_nil : ∀ a, ptr a ≠ nil

/-- Following the words from `head` visits exactly the cells `cells`, then ends. -/
def Chain (E : Encoding α ω) (word : α → ω) : ω → List α → Prop
  | head, [] => head = E.nil
  | head, a :: cells => head = E.ptr a ∧ Chain E word (word a) cells

variable {E : Encoding α ω} {word word' : α → ω} {head : ω} {cells front back : List α} {a : α}

theorem chain_nil_head (h : Chain E word E.nil cells) : cells = [] := by
  cases cells with
  | nil => rfl
  | cons a => exact absurd h.1.symm (E.ptr_ne_nil a)

theorem chain_ptr_head (h : Chain E word (E.ptr a) cells) : ∃ rest, cells = a :: rest ∧ Chain E word (word a) rest := by
  cases cells with
  | nil => exact absurd h (E.ptr_ne_nil a)
  | cons b cells =>
    obtain ⟨same, rest⟩ := h
    have eq := E.ptr_inj a b same
    subst eq
    exact ⟨cells, rfl, rest⟩

variable (h : Chain E word head cells)
include h

/-- The head word and the cells' words determine the chain. -/
theorem chain_unique {others : List α}
    (h' : Chain E word head others) : cells = others := by
  induction cells generalizing head others with
  | nil =>
    rw [show head = E.nil from h] at h'
    exact (chain_nil_head h').symm
  | cons a cells ih =>
    rw [h.1] at h'
    obtain ⟨rest, eq, tail⟩ := chain_ptr_head h'
    rw [eq, ih h.2 tail]

omit h in
theorem chain_append (h : Chain E word head (front ++ back)) : ∃ middle, Chain E word middle back := by
  induction front generalizing head with
  | nil => exact ⟨head, h⟩
  | cons a front ih => exact ih h.2

/-- A chain that ends cannot visit a cell twice. -/
theorem chain_nodup : cells.Nodup := by
  induction cells generalizing head with
  | nil => exact nodup_nil
  | cons a cells ih =>
    refine nodup_cons.mpr ⟨?_, ih h.2⟩
    intro again
    obtain ⟨front, back, eq⟩ := append_of_mem again
    subst eq
    obtain ⟨middle, suffix⟩ := chain_append h.2
    have whole : Chain E word (E.ptr a) (a :: (front ++ a :: back)) := ⟨rfl, h.2⟩
    have part : Chain E word (E.ptr a) (a :: back) := ⟨rfl, suffix.2⟩
    have same := chain_unique whole part
    have length := congrArg List.length same
    simp only [length_cons, length_append] at length
    omega

/-- Words of cells off the chain do not matter. -/
theorem chain_congr (same : ∀ a ∈ cells, word' a = word a) :
    Chain E word' head cells := by
  induction cells generalizing head with
  | nil => exact h
  | cons a cells ih =>
    refine ⟨h.1, ?_⟩
    rw [same a mem_cons_self]
    exact ih h.2 fun b mem => same b (mem_cons_of_mem a mem)

omit h

/-- The cell taken out of a list without repetition is not on what is left. -/
theorem nodup_spliced {a b : α} (h : (front ++ a :: b :: back).Nodup) : b ∉ front ++ a :: back := by
  have split : front ++ a :: b :: back = (front ++ [a]) ++ b :: back := by simp
  rw [split, nodup_middle, nodup_cons] at h
  simpa using h.1

section Update

variable [DecidableEq α]

theorem chain_update_off (h : Chain E word head cells) (off : a ∉ cells) (w : ω) :
    Chain E (update word a w) head cells := by
  apply chain_congr h
  intro b mem
  exact update_of_ne (ne_of_mem_of_not_mem mem off) w word

/-- Linking a new cell in front of the chain. -/
theorem chain_push (h : Chain E word head cells) (off : a ∉ cells) :
    Chain E (update word a head) (E.ptr a) (a :: cells) := by
  refine ⟨rfl, ?_⟩
  rw [update_self]
  exact chain_update_off h off head

/-- Unlinking a cell by copying its word into the cell before it. -/
theorem chain_splice {a b : α} (h : Chain E word head (front ++ a :: b :: back)) :
    Chain E (update word a (word b)) head (front ++ a :: back) := by
  have nodup := chain_nodup h
  induction front generalizing head with
  | nil =>
    obtain ⟨first, second, rest⟩ := h
    refine ⟨first, ?_⟩
    rw [update_self]
    apply chain_update_off rest
    simp only [nil_append, nodup_cons, mem_cons, not_or] at nodup
    exact nodup.1.2
  | cons c front ih =>
    obtain ⟨first, rest⟩ := h
    simp only [cons_append, nodup_cons] at nodup
    refine ⟨first, ?_⟩
    have other : c ≠ a := by
      rintro rfl
      simp at nodup
    rw [update_of_ne other]
    exact ih rest nodup.2

end Update

end SuperGlue.Lib.LinkedWords
