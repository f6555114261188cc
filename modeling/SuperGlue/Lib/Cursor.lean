import Mathlib

/-!
# Loops over a table with a cursor

A table is walked by asking again and again for the first entry behind the last one. The entries are
numbered from one, and the answer zero ends the walk. Such a walk visits what a filter of the table lists.
-/
namespace SuperGlue.Lib.Cursor
open List

variable {σ : Type*}

/-- The first entry after `i`, up to `i + n`, or zero. -/
def firstAfter (present : Nat → Bool) (n i : Nat) : Nat := ((List.range' (i + 1) n).find? present).getD 0

/-- `while (i) { body; i = next(i); }`. -/
def walk (next : Nat → Nat) (body : σ → Nat → Option σ) : Nat → Nat → σ → Option σ
  | _, 0, s => some s
  | 0, _ + 1, _ => none
  | fuel + 1, i + 1, s => (body s (i + 1)).bind (walk next body fuel (next (i + 1)))

/-- The entries of a table of `size` that are present. -/
def entries (present : Nat → Bool) (size : Nat) : List Nat := (List.range' 1 size).filter present

variable {present : Nat → Bool} {body : σ → Nat → Option σ} {n i : Nat}

theorem firstAfter_here (here : present (i + 1)) : firstAfter present (n + 1) i = i + 1 := by
  rw [firstAfter, List.range'_succ, List.find?_cons_of_pos here]
  rfl

theorem firstAfter_skip (absent : present (i + 1) = false) :
    firstAfter present (n + 1) i = firstAfter present n (i + 1) := by
  rw [firstAfter, List.range'_succ, List.find?_cons_of_neg (by rw [absent]; exact Bool.false_ne_true)]
  rfl

/-- From any place the walk goes on with the entries behind it. -/
theorem walk_after (size : Nat) {fuel : Nat} (split : i + n = size) (enough : n ≤ fuel) (s : σ) :
    walk (fun j => firstAfter present (size - j) j) body fuel (firstAfter present n i) s =
      ((List.range' (i + 1) n).filter present).foldlM body s := by
  induction n generalizing i fuel s with
  | zero =>
    rw [walk.eq_def]
    rfl
  | succ n ih =>
    have split' : (i + 1) + n = size := by omega
    rw [List.range'_succ]
    cases here : present (i + 1) with
    | false =>
      rw [firstAfter_skip here, filter_cons_of_neg (by rw [here]; exact Bool.false_ne_true)]
      exact ih split' (by omega) s
    | true =>
      rw [firstAfter_here here, filter_cons_of_pos here]
      cases fuel with
      | zero => exact absurd enough (Nat.not_succ_le_zero n)
      | succ =>
        have rest : size - (i + 1) = n := by omega
        rw [walk, rest]
        exact congrArg (Option.bind (body s (i + 1))) (funext (ih split' (Nat.le_of_succ_le_succ enough)))

theorem mem_entries {size : Nat} : i ∈ entries present size ↔ 0 < i ∧ i ≤ size ∧ present i := by
  rw [entries, mem_filter, mem_range'_1, ← and_assoc]
  refine and_congr_left fun _ => ?_
  omega

theorem entries_nodup (size : Nat) : (entries present size).Nodup :=
  List.Pairwise.filter present nodup_range'

/-- A loop whose body keeps an invariant of what was visited, for entries that were not visited before. -/
theorem foldlM_spec {l : List Nat} (Inv : List Nat → σ → Prop) {s : σ} (start : Inv [] s)
    (keeps : ∀ done i s, i ∈ l → i ∉ done → Inv done s → ∃ t, body s i = some t ∧ Inv (done ++ [i]) t)
    (nodup : l.Nodup) : ∃ t, l.foldlM body s = some t ∧ Inv l t := by
  -- what is left and what was visited, together, are the list
  have go : ∀ (rest done : List Nat) (s : σ), done ++ rest = l → Inv done s →
      ∃ t, rest.foldlM body s = some t ∧ Inv l t := by
    intro rest
    induction rest with
    | nil =>
      intro done s split inv
      rw [append_nil] at split
      subst split
      exact ⟨s, rfl, inv⟩
    | cons i rest ih =>
      intro done s split inv
      have mem : i ∈ l := by
        rw [← split]
        exact mem_append_right _ mem_cons_self
      have new : i ∉ done := by
        rw [← split] at nodup
        exact fun old => (nodup_append.mp nodup).2.2 i old i mem_cons_self rfl
      obtain ⟨t, here, inv'⟩ := keeps done i s mem new inv
      rw [foldlM_cons, here]
      exact ih (done ++ [i]) t (by rw [append_assoc]; exact split) inv'
  exact go l [] s rfl start

end SuperGlue.Lib.Cursor
