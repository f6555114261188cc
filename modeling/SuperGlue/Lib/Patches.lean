import Mathlib

/-!
# Ranges written over a sequence of cells

A patch overwrites a range of cells; of several patches applied in order, the last one that covers a
cell decides its value.
-/
namespace SuperGlue.Lib.Patches

variable {β : Type}

/-- `len` cells from `start` on. -/
structure Patch (β : Type) where
  start : Nat
  len : Nat
  value : Nat → β

def Patch.Covers (w : Patch β) (i : Nat) : Prop := w.start ≤ i ∧ i < w.start + w.len

instance (w : Patch β) (i : Nat) : Decidable (w.Covers i) := inferInstanceAs (Decidable (_ ∧ _))

def Patch.apply (w : Patch β) (f : Nat → β) (i : Nat) : β :=
  if w.Covers i then w.value (i - w.start) else f i

/-- The patches in order. -/
def applyAll (ws : List (Patch β)) (f : Nat → β) : Nat → β :=
  ws.foldl (fun f w => w.apply f) f

variable {w : Patch β} {ws : List (Patch β)} {f g : Nat → β} {i : Nat}

theorem apply_covered (covered : w.Covers i) : w.apply f i = w.value (i - w.start) :=
  if_pos covered

/-- A cell depends on no other cell. -/
theorem apply_congr (same : f i = g i) : w.apply f i = w.apply g i := by
  unfold Patch.apply
  rw [same]

theorem applyAll_congr (same : f i = g i) : applyAll ws f i = applyAll ws g i := by
  induction ws generalizing f g with
  | nil => exact same
  | cons w ws ih => exact ih (apply_congr same)

theorem applyAll_cons : applyAll (w :: ws) f = applyAll ws (w.apply f) := rfl

theorem applyAll_snoc : applyAll (ws ++ [w]) f = w.apply (applyAll ws f) := by
  simp [applyAll]

end SuperGlue.Lib.Patches
