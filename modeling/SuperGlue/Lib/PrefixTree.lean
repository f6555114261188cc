import Mathlib

/-!
# Prefix trees

A map from lists to numbers as a tree of nodes, one edge per element. Nodes are numbered in the order in which
they were made, the root is 0, and a node with the value 0 stands for no entry. Inserting a key changes the
entry of that key and of no other.
-/
namespace SuperGlue.Lib.PrefixTree
open List Function Option

variable {α : Type}

structure Trie (α : Type) where
  child : Nat → α → Option Nat
  value : Nat → Nat
  /-- The number of nodes. -/
  size : Nat

namespace Trie

def empty : Trie α := ⟨fun _ _ => none, fun _ => 0, 1⟩

/-- The node that a key leads to. -/
def follow (t : Trie α) : Nat → List α → Option Nat
  | n, [] => some n
  | n, a :: key => (t.child n a).bind fun m => t.follow m key

def search (t : Trie α) (key : List α) : Nat :=
  match t.follow 0 key with
  | some n => t.value n
  | none => 0

/-- Children are younger than their parent, a node has one parent and one edge to it, and nodes that were not made
have no value. -/
structure WellFormed (t : Trie α) : Prop where
  younger : ∀ n a m, t.child n a = some m → n < m ∧ m < t.size
  apart : ∀ n a n' a' m, t.child n a = some m → t.child n' a' = some m → n = n' ∧ a = a'
  blank : ∀ n, t.size ≤ n → t.value n = 0
  root : 0 < t.size

theorem empty_wellFormed : (empty : Trie α).WellFormed :=
  ⟨by simp [empty], by simp [empty], by simp [empty], Nat.one_pos⟩

variable {t t' : Trie α} {n m : Nat} {key key' : List α}

theorem follow_append (key rest : List α) (n : Nat) :
    t.follow n (key ++ rest) = (t.follow n key).bind fun m => t.follow m rest := by
  induction key generalizing n with
  | nil => rfl
  | cons a key ih =>
    simp only [cons_append, follow]
    cases t.child n a with
    | none => rfl
    | some m => exact ih m

theorem follow_inside (wf : t.WellFormed) (inside : n < t.size)
    (path : t.follow n key = some m) : n ≤ m ∧ m < t.size := by
  induction key generalizing n with
  | nil =>
    simp only [follow, some.injEq] at path
    omega
  | cons a key ih =>
    simp only [follow, bind_eq_some_iff] at path
    obtain ⟨k, edge, path⟩ := path
    obtain ⟨below, bound⟩ := wf.younger n a k edge
    have := ih bound path
    omega

/-- Different keys lead to different nodes. -/
theorem follow_inj (wf : t.WellFormed) (path : t.follow 0 key = some m)
    (path' : t.follow 0 key' = some m) : key = key' := by
  -- along the last edges, which are the same as a node has only one
  induction key using reverseRecOn generalizing key' m with
  | nil =>
    simp only [follow, some.injEq] at path
    subst path
    cases key' using reverseRecOn with
    | nil => rfl
    | append_singleton key' b =>
      simp only [follow_append, follow, bind_eq_some_iff] at path'
      obtain ⟨n, -, m, edge, same⟩ := path'
      cases same
      have := (wf.younger n b 0 edge).1
      omega
  | append_singleton key a ih =>
    simp only [follow_append, follow, bind_eq_some_iff] at path
    obtain ⟨n, path, k, edge, same⟩ := path
    cases same
    cases key' using reverseRecOn with
    | nil =>
      simp only [follow, some.injEq] at path'
      subst path'
      have := (wf.younger n a 0 edge).1
      omega
    | append_singleton key' b =>
      simp only [follow_append, follow, bind_eq_some_iff] at path'
      obtain ⟨n', path', k, edge', same⟩ := path'
      cases same
      obtain ⟨rfl, rfl⟩ := wf.apart n a n' b m edge edge'
      rw [ih path path']

/-- The second tree has the nodes of the first one, and maybe more. -/
structure Extends (t t' : Trie α) : Prop where
  larger : t.size ≤ t'.size
  edges : ∀ n a m, t.child n a = some m → t'.child n a = some m
  old : ∀ n a m, m < t.size → t'.child n a = some m → t.child n a = some m
  values : t'.value = t.value

theorem Extends.refl (t : Trie α) : Extends t t :=
  ⟨Nat.le_refl _, fun _ _ _ => id, fun _ _ _ _ => id, rfl⟩

theorem Extends.trans {t t' t'' : Trie α} (first : Extends t t') (second : Extends t' t'') : Extends t t'' := by
  constructor
  · exact Nat.le_trans first.larger second.larger
  · intro n a m edge
    exact second.edges n a m (first.edges n a m edge)
  · intro n a m small edge
    have bound := first.larger
    exact first.old n a m small (second.old n a m (by omega) edge)
  · exact second.values.trans first.values

theorem Extends.follow (ext : Extends t t') (path : t.follow n key = some m) : t'.follow n key = some m := by
  induction key generalizing n with
  | nil => exact path
  | cons a key ih =>
    simp only [Trie.follow, bind_eq_some_iff] at path ⊢
    obtain ⟨k, edge, path⟩ := path
    exact ⟨k, ext.edges n a k edge, ih path⟩

/-- A path to an old node is an old path. -/
theorem Extends.follow_old (ext : Extends t t') (wf : t'.WellFormed)
    (inside : n < t'.size) (small : m < t.size) (path : t'.follow n key = some m) : t.follow n key = some m := by
  induction key generalizing n with
  | nil => exact path
  | cons a key ih =>
    simp only [Trie.follow, bind_eq_some_iff] at path ⊢
    obtain ⟨k, edge, path⟩ := path
    have bound := (wf.younger n a k edge).2
    have order := (follow_inside wf bound path).1
    exact ⟨k, ext.old n a k (by omega) edge, ih bound path⟩

theorem search_value {t : Trie α} (path : t.follow 0 key = some n) : t.search key = t.value n := by
  simp [search, path]

theorem follow_congr (same : t'.child = t.child) (n : Nat) (key : List α) : t'.follow n key = t.follow n key := by
  induction key generalizing n with
  | nil => rfl
  | cons a key ih =>
    simp only [follow, same]
    exact congrArg _ (funext fun m => ih m)

variable [DecidableEq α]

/-- The node below another one, which is made if it is missing. -/
def descend (t : Trie α) (n : Nat) (a : α) : Trie α × Nat :=
  match t.child n a with
  | some m => (t, m)
  | none =>
    ({ t with child := update t.child n (update (t.child n) a (some t.size)), size := t.size + 1 }, t.size)

/-- The node that a key leads to, with the missing ones made. -/
def descendAll : Trie α → Nat → List α → Trie α × Nat
  | t, n, [] => (t, n)
  | t, n, a :: key => descendAll (t.descend n a).1 (t.descend n a).2 key

def insert (t : Trie α) (key : List α) (v : Nat) : Trie α :=
  let (t, n) := t.descendAll 0 key
  { t with value := update t.value n v }

/-! ## Descending -/

variable (t)

variable (wf : t.WellFormed)
include wf

/-- The tree after one step down. -/
theorem descend_spec (inside : n < t.size) (a : α) :
    Extends t (t.descend n a).1 ∧ (t.descend n a).1.WellFormed ∧
      (t.descend n a).1.child n a = some (t.descend n a).2 ∧ (t.descend n a).2 < (t.descend n a).1.size := by
  unfold descend
  cases edge : t.child n a with
  | some m => exact ⟨.refl t, wf, edge, (wf.younger n a m edge).2⟩
  | none =>
    -- the edges of the new tree are the old ones and the new one
    have edges : ∀ n' a' m,
        update t.child n (update (t.child n) a (some t.size)) n' a' = some m ↔
          (n' = n ∧ a' = a ∧ m = t.size) ∨ t.child n' a' = some m := by
      intro n' a' m
      by_cases same : n' = n
      · subst same
        by_cases same' : a' = a
        · subst same'
          simp [edge, eq_comm]
        · simp [same']
      · simp [same]
    refine ⟨⟨?_, ?_, ?_, rfl⟩, ⟨?_, ?_, ?_, ?_⟩, ?_, ?_⟩
    · exact Nat.le_succ _
    · intro n' a' m old
      exact (edges n' a' m).mpr (.inr old)
    · intro n' a' m small found
      rcases (edges n' a' m).mp found with ⟨-, -, rfl⟩ | old
      · omega
      · exact old
    · intro n' a' m found
      dsimp only
      rcases (edges n' a' m).mp found with ⟨rfl, -, rfl⟩ | old
      · omega
      · have := wf.younger n' a' m old
        omega
    · intro n1 a1 n2 a2 m found1 found2
      rcases (edges n1 a1 m).mp found1 with ⟨rfl, rfl, rfl⟩ | old1
      · rcases (edges n2 a2 t.size).mp found2 with ⟨rfl, rfl, -⟩ | old2
        · exact ⟨rfl, rfl⟩
        · have := (wf.younger n2 a2 t.size old2).2
          omega
      · rcases (edges n2 a2 m).mp found2 with ⟨rfl, rfl, rfl⟩ | old2
        · have := (wf.younger n1 a1 t.size old1).2
          omega
        · exact wf.apart n1 a1 n2 a2 m old1 old2
    · intro m large
      exact wf.blank m (by dsimp only at large; omega)
    · exact Nat.succ_pos _
    · exact (edges n a t.size).mpr (.inl ⟨rfl, rfl, rfl⟩)
    · exact Nat.lt_succ_self _

theorem descendAll_spec (inside : n < t.size) (key : List α) :
    Extends t (t.descendAll n key).1 ∧ (t.descendAll n key).1.WellFormed ∧
      (t.descendAll n key).1.follow n key = some (t.descendAll n key).2 := by
  induction key generalizing t n with
  | nil => exact ⟨.refl t, wf, rfl⟩
  | cons a key ih =>
    obtain ⟨ext, wf', edge, inside'⟩ := descend_spec t wf inside a
    obtain ⟨ext', wf'', path⟩ := ih _ wf' inside'
    refine ⟨ext.trans ext', wf'', ?_⟩
    simp only [descendAll, follow]
    rw [ext'.edges n a _ edge]
    exact path

/-! ## Entries -/

theorem insert_wellFormed (key : List α) (v : Nat) : (t.insert key v).WellFormed := by
  obtain ⟨-, wf', path⟩ := descendAll_spec t wf wf.root key
  have inside := (follow_inside wf' wf'.root path).2
  refine ⟨wf'.younger, wf'.apart, ?_, wf'.root⟩
  intro n large
  dsimp only [insert] at large ⊢
  rw [update_of_ne (by omega)]
  exact wf'.blank n large

omit wf in
/-- Writing a value changes no path. -/
theorem insert_follow (key : List α) (v : Nat) (key' : List α) :
    (t.insert key v).follow 0 key' = (t.descendAll 0 key).1.follow 0 key' := by
  have same : (t.insert key v).child = (t.descendAll 0 key).1.child := rfl
  exact follow_congr same 0 key'

theorem search_insert_self (key : List α) (v : Nat) : (t.insert key v).search key = v := by
  obtain ⟨-, -, path⟩ := descendAll_spec t wf wf.root key
  have path' := (insert_follow t key v key).trans path
  rw [search_value path']
  exact update_self ..

/-- The other keys keep their entries. -/
theorem search_insert_other (ne : key' ≠ key) (v : Nat) :
    (t.insert key v).search key' = t.search key' := by
  obtain ⟨ext, wf', path⟩ := descendAll_spec t wf wf.root key
  have same := insert_follow t key v key'
  cases found : (t.descendAll 0 key).1.follow 0 key' with
  | none =>
    have absent : t.follow 0 key' = none := by
      by_contra present
      obtain ⟨m, present⟩ := ne_none_iff_exists'.mp present
      rw [ext.follow present] at found
      contradiction
    simp [search, same, found, absent]
  | some m =>
    have apart : m ≠ (t.descendAll 0 key).2 := by
      rintro rfl
      exact ne (follow_inj wf' found path)
    have kept : (t.insert key v).search key' = t.value m := by
      rw [search_value (same.trans found), ← ext.values]
      exact update_of_ne apart ..
    rw [kept]
    by_cases small : m < t.size
    · rw [search_value (ext.follow_old wf' wf'.root small found)]
    -- a new node has no value, and the key was not there before
    have absent : t.follow 0 key' = none := by
      by_contra present
      obtain ⟨k, present⟩ := ne_none_iff_exists'.mp present
      have bound := (follow_inside wf wf.root present).2
      rw [ext.follow present] at found
      cases found
      exact small bound
    rw [wf.blank m (by omega)]
    simp [search, absent]

end Trie

end SuperGlue.Lib.PrefixTree
