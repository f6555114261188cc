import SuperGlue.Source.Kernel.Frames

/-!
# The frame above a removed one

The frame of a component holds where to return to in the component below, so the frame above the removed one takes
over its return address and keeps the rest. The source copies the component and the composite, and leaves the
fault count of the removed frame behind.
-/
namespace SuperGlue.Guarantees.FrameRemoval
open Function Source.Kernel.Frames

/-! ## What it should do -/

variable (thd : Thread) (frames : Nat → Frame)

/-- The frames without the one at `idx`: the one above it returns to where it would have returned. -/
def without (idx i : Nat) : Frame :=
  if i < idx then frames i
  else if i = idx then { frames (i + 1) with sp := (frames i).sp, ip := (frames i).ip }
  else frames (i + 1)

/-- The position is rejected and nothing changes, or exactly its frame is removed and its composite released. -/
def Exact (nth : Int) : Prop :=
  thdInvstkRemNth thd nth = some (thd, [], -1) ∨
    ∃ (idx : Nat) (frames : Nat → Frame), idx = thd.stackPtr - nth ∧
      thdInvstkRemNth thd nth = some (⟨thd.stackPtr - 1, frames⟩, [(thd.stackBase idx).currentCompositeSpd], 0) ∧
      ∀ i : Nat, i < thd.stackPtr → frames i = without thd.stackBase idx i

/-- Unless the removed frame is the top one, the frame above has the same fault count. -/
def Counted (nth : Int) : Prop :=
  0 < nth → ∀ idx : Nat, idx = thd.stackPtr - nth → 0 < idx →
    (thd.stackBase idx).fault = (thd.stackBase (idx + 1)).fault

/-! ## The loop -/

/-- The frames after the loop. -/
def shifted (i n : Nat) (first : Bool) (j : Nat) : Frame :=
  if j < i ∨ i + n ≤ j then frames j
  else if first ∧ j = i then
    { frames j with spd := (frames (j + 1)).spd, currentCompositeSpd := (frames (j + 1)).currentCompositeSpd }
  else frames (j + 1)

theorem shift_spec (n i : Nat) (first : Bool) (thd : Thread) (inner : i ≠ 0) (fits : (i + n : Nat) ≤ thd.stackPtr) :
    shift n i first thd = some { thd with stackBase := shifted thd.stackBase i n first } := by
  induction n generalizing i first thd with
  | zero =>
    have same : shifted thd.stackBase i 0 first = thd.stackBase := funext fun j => if_pos (by omega)
    rw [same]
    rfl
  | succ n ih =>
    rw [shift, thdInvstkMoveNth, if_pos ⟨inner, by omega⟩, Option.bind_some, ih _ _ _ (by omega) (by dsimp only; omega)]
    congr 2
    funext j
    by_cases eq : j = i
    · have inside : ¬ i + (n + 1) ≤ i := by omega
      cases first <;> simp [shifted, eq, inside]
    · have same : (j < i + 1 ∨ i + 1 + n ≤ j) ↔ (j < i ∨ i + (n + 1) ≤ j) := by omega
      simp only [shifted, update_of_ne eq, eq, and_false, false_and, Bool.false_eq_true, same]
      split
      · rfl
      · rw [update_of_ne (by omega)]

/-- The frame above a removed one keeps everything but its fault count. -/
theorem shifted_eq {idx n i : Nat} (inside : i < idx + n) :
    shifted frames idx n true i = without frames idx i ↔ (i = idx → (frames idx).fault = (frames (idx + 1)).fault) := by
  have fits : ¬ idx + n ≤ i := by omega
  rcases Nat.lt_trichotomy i idx with below | rfl | above
  · simp [shifted, without, below, Nat.ne_of_lt below]
  · simp [shifted, without, fits]
  · simp [shifted, without, fits, Nat.lt_asymm above, Nat.ne_of_gt above]

theorem frame_removed_iff (thd : Thread) (nth : Int) : Exact thd nth ↔ Counted thd nth := by
  unfold Exact Counted
  by_cases rejected : nth < 0 ∨ nth ≥ thd.stackPtr
  · refine iff_of_true (.inl (if_pos rejected)) fun pos idx place inner => ?_
    omega
  obtain ⟨idx, place⟩ := Int.eq_ofNat_of_zero_le (a := thd.stackPtr - nth) (by omega)
  obtain ⟨n, rfl⟩ := Int.eq_ofNat_of_zero_le (a := nth) (by omega)
  have run : thdInvstkRemNth thd n =
      some (⟨thd.stackPtr - 1, shifted thd.stackBase idx n true⟩, [(thd.stackBase idx).currentCompositeSpd], 0) := by
    rw [thdInvstkRemNth, if_neg rejected, place, Int.toNat_natCast, Int.toNat_natCast,
      shift_spec n idx true thd (by omega) (by omega)]
    rfl
  rw [run]
  constructor
  · rintro (refused | ⟨idx', frames, place', same, exact_⟩) pos idx'' place'' -
    · simp at refused
    obtain rfl : idx' = idx := by omega
    cases same
    obtain rfl : idx'' = idx' := by omega
    exact (shifted_eq thd.stackBase (by omega)).mp (exact_ _ (by omega)) rfl
  · intro counted
    refine .inr ⟨idx, _, place.symm, rfl, fun i inside => (shifted_eq thd.stackBase (by omega)).mpr ?_⟩
    rintro rfl
    exact counted (by omega) _ place.symm (by omega)

/-- Component 2 calls component 3, which has had 7 faults. Without the frame of component 2, the one of component 3 has
the count of component 2. -/
theorem fault_count_left_behind : ∃ thd, ¬ Exact thd 1 ∧ ∃ after, thdInvstkRemNth thd 1 = some (after, [20], 0) ∧
    thd.stackBase 2 = ⟨30, 3, 8, 9, 7⟩ ∧ after.stackBase 1 = ⟨30, 3, 5, 6, 0⟩ := by
  refine ⟨⟨2, fun i => if i = 2 then ⟨30, 3, 8, 9, 7⟩ else ⟨20, 2, 5, 6, 0⟩⟩, ?_, _, rfl, rfl, rfl⟩
  rintro (refused | ⟨idx, frames, place, run, exact_⟩)
  · exact absurd (congrArg (·.map (·.2.2)) refused) (by decide)
  · obtain rfl : idx = 1 := Int.ofNat.inj place
    have frames_ : some (frames 1) = _ := congrArg (·.map (·.1.stackBase 1)) run.symm
    rw [exact_ 1 (by decide)] at frames_
    exact absurd frames_ (by decide)

end SuperGlue.Guarantees.FrameRemoval
