import Mathlib

/-!
# Guarded runs of a transition system

A system has one initial state and a partial step function on labels. A label carries everything
that is not determined by the state: the operation, its arguments, the answers of other components
and, where a result is observable, the result. `none` means that the step is not enabled or that it
aborts, so a run only contains steps that complete.

A run is guarded when each of its steps met a condition on the state before it. The unguarded runs
are those of `anyStep`.
-/
namespace SuperGlue.Lib.Transition

/-- A deterministic labelled transition system. -/
structure System (σ ι : Type) where
  init : σ
  step : σ → ι → Option σ

variable {σ ι : Type}

/-- The guard that admits every step. -/
def anyStep : σ → ι → Prop := fun _ _ => True

instance : DecidableRel (anyStep : σ → ι → Prop) := fun _ _ => instDecidableTrue

/-- Finite runs from the initial state, with the labels in the order in which they were taken. -/
inductive Run (M : System σ ι) (guard : σ → ι → Prop) : List ι → σ → Prop where
  | start : Run M guard [] M.init
  | next {labels : List ι} {s : σ} {label : ι} {t : σ} (before : Run M guard labels s)
      (allowed : guard s label) (step : M.step s label = some t) :
      Run M guard (labels ++ [label]) t

/-- The state is reached by some run whose steps all meet the guard. -/
def Reachable (M : System σ ι) (guard : σ → ι → Prop) (s : σ) : Prop :=
  ∃ labels, Run M guard labels s

variable {M : System σ ι} {guard : σ → ι → Prop} {labels : List ι} {s : σ} {Q : σ → Prop}

section
variable (Inv : σ → Prop) (start : Inv M.init) (keeps : ∀ s label t, Inv s → guard s label → M.step s label = some t → Inv t)
include Inv start keeps

/-- A state predicate that holds initially and is kept by every guarded step. -/
theorem Run.invariant (run : Run M guard labels s) : Inv s := by
  induction run with
  | start => exact start
  | next _ allowed step ih => exact keeps _ _ _ ih allowed step

theorem Reachable.invariant (reached : Reachable M guard s) : Inv s := by
  obtain ⟨labels, run⟩ := reached
  exact run.invariant Inv start keeps

end

/-- A run under a strong guard is a run under every weaker one. -/
theorem Run.weaken {weaker : σ → ι → Prop} (imp : ∀ s label, guard s label → weaker s label)
    (run : Run M guard labels s) : Run M weaker labels s := by
  induction run with
  | start => exact .start
  | next _ allowed step ih => exact .next ih (imp _ _ allowed) step

/-! Guarded execution of a given label sequence, to exhibit concrete runs. -/

def exec (M : System σ ι) (guard : σ → ι → Prop) [DecidableRel guard] : σ → List ι → Option σ
  | s, [] => some s
  | s, label :: rest =>
    if guard s label then
      match M.step s label with
      | some t => exec M guard t rest
      | none => none
    else none

theorem exec_extends [DecidableRel guard] (run : Run M guard labels s)
    (rest : List ι) {t : σ} (h : exec M guard s rest = some t) : Run M guard (labels ++ rest) t := by
  induction rest generalizing labels s with
  | nil =>
    simp only [exec, Option.some.injEq] at h
    subst h
    simpa using run
  | cons label rest ih =>
    simp only [exec] at h
    split at h
    next allowed =>
      split at h
      next u step => simpa using ih (.next run allowed step) h
      · contradiction
    · contradiction

theorem exec_run [DecidableRel guard] {t : σ} (h : exec M guard M.init labels = some t) : Run M guard labels t := by
  simpa using exec_extends .start labels h

/-- A property checked on the final state of an execution holds at the end of a run. -/
theorem exec_ends (M : System σ ι) (guard : σ → ι → Prop) [DecidableRel guard] (labels : List ι)
    (P : σ → Prop) [DecidablePred P] (h : (exec M guard M.init labels).any (fun s => decide (P s))) :
    ∃ s, Run M guard labels s ∧ P s := by
  rw [Option.any_eq_true] at h
  obtain ⟨s, reached, holds⟩ := h
  exact ⟨s, exec_run reached, of_decide_eq_true holds⟩

/-- So does what follows from it. -/
theorem exec_shows [DecidableRel guard] (P : σ → Prop) [DecidablePred P]
    (h : (exec M guard M.init labels).any (fun s => decide (P s)))
    (follows : ∀ s, Run M guard labels s → P s → Q s) : ∃ s, Run M guard labels s ∧ Q s := by
  obtain ⟨s, run, holds⟩ := exec_ends M guard labels P h
  exact ⟨s, run, follows s run holds⟩

theorem exec_reaches [DecidableRel guard] (labels : List ι) (P : σ → Prop) [DecidablePred P]
    (h : (exec M guard M.init labels).any (fun s => decide (P s)))
    (follows : ∀ s, Reachable M guard s → P s → Q s) : ∃ s, Reachable M guard s ∧ Q s := by
  obtain ⟨s, run, holds⟩ := exec_ends M guard labels P h
  exact ⟨s, ⟨_, run⟩, follows s ⟨_, run⟩ holds⟩

/-! ## Infinite runs -/

/-- An infinite guarded run. -/
structure Trace (M : System σ ι) (guard : σ → ι → Prop) where
  state : Nat → σ
  label : Nat → ι
  start : state 0 = M.init
  allowed : ∀ n, guard (state n) (label n)
  next : ∀ n, M.step (state n) (label n) = some (state (n + 1))

theorem Trace.reachable (run : Trace M guard) (n : Nat) : Reachable M guard (run.state n) := by
  induction n with
  | zero => exact ⟨[], run.start ▸ .start⟩
  | succ n ih =>
    obtain ⟨labels, before⟩ := ih
    exact ⟨_, .next before (run.allowed n) (run.next n)⟩

section Laps

variable (M : System σ ι) (first : ι) (tail : List ι)

/-- The state with the labels still to take; when they run out, `first :: tail` is taken again. -/
def lap : σ × ι × List ι → σ × ι × List ι
  | (s, label, []) => ((M.step s label).getD s, first, tail)
  | (s, label, next :: rest) => ((M.step s label).getD s, next, rest)

variable {M first tail} [DecidableRel guard] (back : exec M guard s (first :: tail) = some s)
include back

theorem lap_spec {p : σ × ι × List ι} (ahead : exec M guard p.1 (p.2.1 :: p.2.2) = some s) :
    guard p.1 p.2.1 ∧ M.step p.1 p.2.1 = some (lap M first tail p).1 ∧
      exec M guard (lap M first tail p).1 ((lap M first tail p).2.1 :: (lap M first tail p).2.2) = some s ∧
      (p.2.2 = [] → (lap M first tail p).1 = s) := by
  obtain ⟨x, label, rest⟩ := p
  simp only [exec] at ahead
  split at ahead
  next allowed =>
    split at ahead
    next y step =>
      cases rest with
      | nil =>
        obtain rfl := Option.some.inj ahead
        simpa [lap, step, allowed] using back
      | cons next rest => simpa [lap, step, allowed, exec] using ahead
    · contradiction
  · contradiction

/-- A run whose last labels lead back to where they began goes on for ever, through that state again and again. -/
theorem Trace.exists_laps {label : ι} {rest : List ι} (ahead : exec M guard M.init (label :: rest) = some s) :
    ∃ run : Trace M guard, (∀ n, run.state n = ((lap M first tail)^[n] (M.init, label, rest)).1) ∧
      ∀ n, ∃ m, n ≤ m ∧ run.state m = s := by
  let at_ (n : Nat) := (lap M first tail)^[n] (M.init, label, rest)
  have succ : ∀ n, at_ (n + 1) = lap M first tail (at_ n) := fun n => Function.iterate_succ_apply' ..
  have inv : ∀ n, exec M guard (at_ n).1 ((at_ n).2.1 :: (at_ n).2.2) = some s := by
    intro n
    induction n with
    | zero => exact ahead
    | succ n ih => exact succ n ▸ (lap_spec back ih).2.2.1
  refine ⟨⟨fun n => (at_ n).1, fun n => (at_ n).2.1, rfl, fun n => (lap_spec back (inv n)).1, fun n => ?_⟩, fun _ => rfl, ?_⟩
  · exact succ n ▸ (lap_spec back (inv n)).2.1
  -- along the labels that are left, the next lap begins in `s`
  have returns : ∀ k n, (at_ n).2.2.length = k → ∃ m, n ≤ m ∧ (at_ m).1 = s := by
    intro k
    induction k with
    | zero =>
      intro n left
      exact ⟨n + 1, Nat.le_succ n, succ n ▸ (lap_spec back (inv n)).2.2.2 (List.length_eq_zero_iff.mp left)⟩
    | succ k ih =>
      intro n left
      obtain ⟨m, later, here⟩ := ih (n + 1) (by
        rw [succ]
        generalize at_ n = p at left
        obtain ⟨x, label, _ | ⟨next, rest⟩⟩ := p
        · simp at left
        · simpa [lap] using left)
      exact ⟨m, by omega, here⟩
  exact fun n => returns _ n rfl

end Laps

/-- Between a position where `P` holds and a later one where it does not, some step falsifies it. -/
theorem exists_last_before {P : Nat → Prop} {n m : Nat} (le : n ≤ m) (holds : P n)
    (fails : ¬ P m) : ∃ k, n ≤ k ∧ k < m ∧ P k ∧ ¬ P (k + 1) := by
  induction le with
  | refl => exact absurd holds fails
  | @step m le ih =>
    by_cases h : P m
    · exact ⟨m, le, Nat.lt_succ_self m, h, fails⟩
    · obtain ⟨k, hn, hm, hk, hk'⟩ := ih h
      exact ⟨k, hn, Nat.lt_succ_of_lt hm, hk, hk'⟩

end SuperGlue.Lib.Transition
