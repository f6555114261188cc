import Mathlib

/-!
# Contiguous cells of a memory

Copies into and out of a memory whose cells have integer addresses.
-/
namespace SuperGlue.Lib.Memory
open List Function

variable {ν : Type}

def store (m : Int → ν) (addr : Int) : List ν → Int → ν
  | [] => m
  | v :: rest => store (update m addr v) (addr + 1) rest

def load (m : Int → ν) (addr : Int) : Nat → List ν
  | 0 => []
  | n + 1 => m addr :: load m (addr + 1) n

variable (m : Int → ν)
include m

@[simp]
theorem length_load (addr : Int) (n : Nat) : (load m addr n).length = n := by
  induction n generalizing addr with
  | zero => rfl
  | succ n ih => rw [load, length_cons, ih]

theorem load_add (addr : Int) (n k : Nat) :
    load m addr (n + k) = load m addr n ++ load m (addr + n) k := by
  induction n generalizing addr with
  | zero => simp [load]
  | succ n ih =>
    have shift : addr + 1 + (n : Int) = addr + (n + 1 : Nat) := by omega
    rw [Nat.add_right_comm, load, load, ih, shift, cons_append]

variable {addr : Int}

omit m in
theorem load_congr {m m' : Int → ν} {n : Nat}
    (same : ∀ i, addr ≤ i → i < addr + n → m' i = m i) : load m' addr n = load m addr n := by
  induction n generalizing addr with
  | zero => rfl
  | succ n ih =>
    rw [load, load, same addr (by omega) (by omega), ih fun i low high => same i (by omega) (by omega)]

theorem store_outside {i : Int} (values : List ν)
    (outside : i < addr ∨ addr + values.length ≤ i) : store m addr values i = m i := by
  induction values generalizing m addr with
  | nil => rfl
  | cons v rest ih =>
    rw [length_cons] at outside
    rw [store, ih _ (by omega), update_of_ne (by omega)]

theorem load_store (addr : Int) (values : List ν) :
    load (store m addr values) addr values.length = values := by
  induction values generalizing m addr with
  | nil => rfl
  | cons v rest ih =>
    rw [length_cons, load, store, ih, store_outside _ rest (by omega), update_self]

theorem store_replicate (addr : Int) (n : Nat) (v : ν) (i : Int) :
    store m addr (replicate n v) i = if addr ≤ i ∧ i < addr + n then v else m i := by
  induction n generalizing m addr with
  | zero =>
    rw [if_neg (by omega)]
    rfl
  | succ n ih =>
    rw [replicate_succ, store, ih]
    by_cases first : i = addr
    · rw [first, if_neg (by omega), if_pos (by omega), update_self]
    · rw [update_of_ne first]
      have range : addr + 1 ≤ i ∧ i < addr + 1 + n ↔ addr ≤ i ∧ i < addr + (n + 1 : Nat) := by omega
      simp only [range]

omit m

theorem load_eq_replicate {m : Int → ν} {n : Nat} {v : ν}
    (all : ∀ i, addr ≤ i → i < addr + n → m i = v) : load m addr n = replicate n v := by
  induction n generalizing addr with
  | zero => rfl
  | succ n ih =>
    rw [load, replicate_succ, all addr (by omega) (by omega), ih fun i low high => all i (by omega) (by omega)]

end SuperGlue.Lib.Memory
