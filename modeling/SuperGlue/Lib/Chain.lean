import Mathlib

/-!
# Following a partial function

Elements that have at most one successor. Following the successors from an element either ends or runs into a
cycle. Which changes of the successors keep every chain finite: taking a successor away, pointing to an element
that has none, and pointing to an element that does not lead back.
-/
namespace SuperGlue.Lib.Chain

variable {α : Type} {next next' : α → Option α} {a b c t d : α}

/-- Following the successors comes to an element without one. -/
inductive Ends (next : α → Option α) : α → Prop where
  | stop {a : α} (last : next a = none) : Ends next a
  | step {a b : α} (hop : next a = some b) (rest : Ends next b) : Ends next a

/-- Following the successors from the first element comes to the second. -/
inductive Leads (next : α → Option α) : α → α → Prop where
  | here (a : α) : Leads next a a
  | step {a b c : α} (hop : next a = some b) (rest : Leads next b c) : Leads next a c

theorem Leads.snoc (path : Leads next a b) (hop : next b = some c) : Leads next a c := by
  induction path with
  | here => exact .step hop (.here c)
  | step first _ ih => exact .step first (ih hop)

theorem leads_last (last : next a = none) (path : Leads next a b) : a = b := by
  cases path with
  | here => rfl
  | step hop =>
    rw [last] at hop
    contradiction

/-- An element from which the chain ends is on no cycle. -/
theorem Ends.acyclic (ends : Ends next a) : ∀ b, next a = some b → ¬ Leads next b a := by
  induction ends with
  | stop last =>
    intro b hop
    rw [last] at hop
    contradiction
  | @step a b hop _ ih =>
    intro c hop' path
    rw [hop] at hop'
    cases hop'
    cases path with
    | here => exact ih _ hop (.here _)
    | step first path => exact ih _ first (path.snoc hop)

/-- Changed successors are gone or have no successor themselves. -/
theorem Ends.redirect (ends : Ends next a)
    (change : ∀ a, next' a = next a ∨ next' a = none ∨ ∃ u, next' a = some u ∧ next' u = none) : Ends next' a := by
  have changed : ∀ a, (next' a = none ∨ ∃ u, next' a = some u ∧ next' u = none) → Ends next' a := by
    rintro a (gone | ⟨u, hop, last⟩)
    · exact .stop gone
    · exact .step hop (.stop last)
  induction ends with
  | @stop a last =>
    rcases change a with same | moved
    · exact .stop (same.trans last)
    · exact changed a moved
  | @step a b hop _ ih =>
    rcases change a with same | moved
    · exact .step (same.trans hop) ih
    · exact changed a moved

/-- One element gets a new successor, which does not lead back to it. -/
theorem Ends.link (ends : ∀ a, Ends next a) (others : ∀ a, a ≠ t → next' a = next a) (linked : next' t = some d)
    (apart : ¬ Leads next d t) (a : α) : Ends next' a := by
  -- chains that do not pass the changed element are as before
  have before : ∀ a, Ends next a → ¬ Leads next a t → Ends next' a := by
    intro a ends
    induction ends with
    | @stop a last =>
      intro away
      have ne : a ≠ t := fun same => away (same ▸ .here a)
      exact .stop ((others a ne).trans last)
    | @step a b hop _ ih =>
      intro away
      have ne : a ≠ t := fun same => away (same ▸ .here a)
      exact .step ((others a ne).trans hop) (ih fun path => away (.step hop path))
  have changed : Ends next' t := .step linked (before d (ends d) apart)
  induction ends a with
  | @stop a last =>
    by_cases same : a = t
    · exact same ▸ changed
    · exact .stop ((others a same).trans last)
  | @step a b hop _ ih =>
    by_cases same : a = t
    · exact same ▸ changed
    · exact .step ((others a same).trans hop) ih

end SuperGlue.Lib.Chain
