import SuperGlue.Source.Sched.Timestamp

/-!
# Time as seen by a client

A timestamp should not be smaller than one that was returned before the call started. The stub ensures
this by keeping the largest timestamp in `last_ticks`: it compares, then stores. That works as long as no
other thread stores in between. Likewise `sched_restore_ticks` only moves the scheduler's clock forward as
long as the clock is not set between its comparison and its write.
-/
namespace SuperGlue.Guarantees.Timestamps
open List Function Option Lib.Transition Source.Stub.Cstub Source.Sched.Timestamp

/-- A finished call of `sched_timestamp`. -/
structure Stamp where
  /-- The largest value that any call had returned when this one started. -/
  floor : Nat
  value : Nat
  deriving DecidableEq, Repr

inductive Var where
  | lastTicks
  | ticks
  deriving DecidableEq, Repr

/-- The variable that a step of a thread or of the timer sets. -/
def sets (s : State) : Label → Option Var
  | .run t =>
    match s.pc t with
    | .store _ => some .lastTicks
    | .restoreWrite _ _ entered => if entered = s.link.faultCnt then some .ticks else none
    | _ => none
  | .tick => some .ticks
  | _ => none

structure Observed where
  st : State
  /-- The largest value returned so far. -/
  best : Nat
  /-- The value of `best` when a thread started its call. -/
  floor : Tid → Nat
  stamps : List Stamp
  /-- The variables that have been set since the last step of a thread. -/
  since : Tid → List Var

def observe (o : Observed) (label : Label) : Option Observed :=
  (step o.st label).map fun st =>
    let since := fun t => if label = .run t then [] else (sets o.st label).toList ++ o.since t
    match label with
    | .call t _ => { o with st := st, floor := update o.floor t o.best, since := since }
    | .run t =>
      match result o.st t with
      | some v => ⟨st, max o.best v, o.floor, ⟨o.floor t, v⟩ :: o.stamps, since⟩
      | none => { o with st := st, since := since }
    | _ => { o with st := st, since := since }

def clockSystem : System Observed Label := ⟨⟨init, 0, fun _ => 0, [], fun _ => []⟩, observe⟩

/-- No step sets `last_ticks` between the comparison of a thread and its store, or the tick count between
those of `sched_restore_ticks`, and the tick count does not overflow. -/
def Careful (o : Observed) : Label → Prop
  | .run t =>
    match o.st.pc t with
    | .store _ => .lastTicks ∉ o.since t
    | .restoreWrite _ _ entered => entered = o.st.link.faultCnt → .ticks ∉ o.since t
    | _ => True
  | .tick => o.st.ticks + 2 < tickModulus
  | _ => True

instance : DecidableRel Careful := by
  intro o label
  unfold Careful
  split
  · split <;> infer_instance
  · infer_instance
  · infer_instance

/-! ## What a step can do -/

variable {s s' : State} {t : Tid}

/-- What the thread is about to set will not fall. -/
def Rises (s : State) (t : Tid) (since : List Var) : Prop :=
  (∀ ret, s.pc t = .store ret → .lastTicks ∉ since → s.lastTicks ≤ ret) ∧
    ∀ arg call entered, s.pc t = .restoreWrite arg call entered → .ticks ∉ since → s.ticks ≤ arg

/-- A thread sets `last_ticks` or the tick count, or compares the one or the other, or does neither. -/
inductive Ran (s : State) (t : Tid) (s' : State) : Prop where
  | stores (ret : Nat) (was : s.pc t = .store ret) (last : s'.lastTicks = ret) (ticks : s'.ticks = s.ticks)
  | restores (arg : Nat) (call : Call) (was : s.pc t = .restoreWrite arg call s.link.faultCnt)
      (last : s'.lastTicks = s.lastTicks) (ticks : s'.ticks = arg)
  | other (was : ∀ ret, s.pc t ≠ .store ret) (last : s'.lastTicks = s.lastTicks) (ticks : s'.ticks = s.ticks)

/-- A step of a thread that is not about to set anything then, or has just compared. -/
theorem Rises.goto {pc : Pc} (pcs : s'.pc = update s.pc t pc) (store : ∀ ret, pc = .store ret → s'.lastTicks ≤ ret)
    (restore : ∀ arg call entered, pc = .restoreWrite arg call entered → s'.ticks ≤ arg) :
    Rises s' t [] ∧ ∀ t', t' ≠ t → s'.pc t' = s.pc t' := by
  rw [Rises, pcs, update_self]
  exact ⟨⟨fun ret at_ _ => store ret at_, fun arg call entered at_ _ => restore arg call entered at_⟩,
    fun t' other => update_of_ne other pc s.pc⟩

theorem run_effect (h : run s t = some s') : Ran s t s' ∧ Rises s' t [] ∧ ∀ t', t' ≠ t → s'.pc t' = s.pc t' := by
  rw [run] at h
  generalize at_ : s.pc t = pc at h
  cases pc with
  | idle => contradiction
  | store ret =>
    cases h
    exact ⟨.stores ret at_ rfl rfl, Rises.goto rfl (by simp) (by simp)⟩
  | restoreWrite arg call entered =>
    cases h
    by_cases current : entered = s.link.faultCnt
    · rw [if_pos current]
      exact ⟨.restores arg call (current ▸ at_) rfl rfl, Rises.goto rfl (by simp) (by simp)⟩
    · rw [if_neg current]
      exact ⟨.other (by simp [at_]) rfl rfl, Rises.goto rfl (by simp) (by simp)⟩
  | compare ret =>
    cases h
    refine ⟨.other (by simp [at_]) rfl rfl, Rises.goto rfl ?_ ?_⟩
    · intro ret' next
      split at next
      · contradiction
      next le =>
        cases next
        exact Nat.le_of_not_gt le
    · intro arg call entered next
      split at next <;> contradiction
  | restoreInside arg call entered =>
    cases h
    refine ⟨.other (by simp [at_]) rfl rfl, Rises.goto rfl ?_ ?_⟩
    · intro ret next
      split at next <;> contradiction
    · intro arg' call' entered' next
      split at next
      next above =>
        cases next
        exact Nat.le_of_not_le above.2
      · contradiction
  | redo call | inside call entered | replied call ret entered =>
    dsimp only at h
    split at h
    · cases h
      refine ⟨.other (by simp [at_]) rfl rfl, Rises.goto rfl ?_ ?_⟩ <;> cases call <;> simp [returned]
    · obtain ⟨link, -, rfl⟩ := map_eq_some_iff.mp h
      refine ⟨.other (by simp [at_]) rfl rfl, Rises.goto rfl ?_ ?_⟩ <;> cases call <;> simp
  | restoreCall arg call =>
    cases h
    refine ⟨.other (by simp [at_]) rfl rfl, Rises.goto rfl ?_ ?_⟩ <;> split <;> simp
  | restored call =>
    cases h
    refine ⟨.other (by simp [at_]) rfl rfl, Rises.goto rfl ?_ ?_⟩ <;> cases call <;> simp [continued]
  | restore call | last =>
    cases h
    exact ⟨.other (by simp [at_]) rfl rfl, Rises.goto rfl (by simp) (by simp)⟩

theorem result_last {v : Nat} (found : result s t = some v) (other : ∀ ret, s.pc t ≠ .store ret) : v = s.lastTicks := by
  unfold result at found
  split at found
  next ret at_ => exact absurd at_ (other ret)
  · exact (some.inj found).symm
  · contradiction

/-! ## The invariant -/

/-- No value that was returned is larger than `last_ticks`, and no thread that has compared will lower a
variable that was not set since. -/
structure Ordered (o : Observed) : Prop where
  seen : o.best ≤ o.st.lastTicks
  floor : ∀ t, o.floor t ≤ o.best
  stamps : ∀ c ∈ o.stamps, c.floor ≤ c.value
  rises : ∀ t, Rises o.st t (o.since t)

variable {o o' : Observed} {label : Label}

/-- A thread that does not run still rises. -/
theorem Rises.still (h : Rises s t (o.since t)) (pcs : s'.pc t = s.pc t)
    (last : .lastTicks ∉ sets s label → s'.lastTicks = s.lastTicks) (ticks : .ticks ∉ sets s label → s'.ticks ≤ s.ticks) :
    Rises s' t ((sets s label).toList ++ o.since t) := by
  simp only [Rises, pcs, mem_append, mem_toList, not_or]
  refine ⟨fun ret at_ ⟨now, before⟩ => ?_, fun arg call entered at_ ⟨now, before⟩ => ?_⟩
  · rw [last now]
    exact h.1 ret at_ before
  · exact Nat.le_trans (ticks now) (h.2 arg call entered at_ before)

theorem run_rises (h : Ordered o) (taken : run o.st t = some s') (t' : Tid) :
    Rises s' t' (if Label.run t = .run t' then [] else (sets o.st (.run t)).toList ++ o.since t') := by
  obtain ⟨ran, mine, others⟩ := run_effect taken
  split
  next same =>
    cases same
    exact mine
  next ne =>
    refine (h.rises t').still (others t' fun same => ne (same ▸ rfl)) ?_ ?_
    all_goals
      cases ran with
      | stores ret was last ticks | restores arg call was last ticks => simp [sets, was, last, ticks]
      | other was last ticks => simp [last, ticks]

theorem run_ordered (h : Ordered o) (careful : Careful o (.run t)) (step : observe o (.run t) = some o') :
    Ordered o' := by
  obtain ⟨st, taken, rfl⟩ := map_eq_some_iff.mp step
  have floor := h.floor t
  have seen := h.seen
  have rises := run_rises h taken
  have stamped : ∀ v, o.floor t ≤ v → ∀ c ∈ (⟨o.floor t, v⟩ : Stamp) :: o.stamps, c.floor ≤ c.value := by
    intro v le c member
    rcases mem_cons.mp member with rfl | member
    · exact le
    · exact h.stamps c member
  have floors : ∀ v t', o.floor t' ≤ max o.best v := fun v t' => Nat.le_trans (h.floor t') (Nat.le_max_left _ _)
  cases (run_effect taken).1 with
  | stores ret at_ last =>
    simp only [Careful, at_] at careful
    have above := (h.rises t).1 ret at_ careful
    simp only [result, at_]
    exact ⟨by rw [last]; exact Nat.max_le.mpr ⟨Nat.le_trans seen above, Nat.le_refl ret⟩, floors ret,
      stamped ret (by omega), rises⟩
  | restores arg call at_ last =>
    simp only [result, at_]
    exact ⟨last ▸ seen, h.floor, h.stamps, rises⟩
  | other other last =>
    dsimp only
    cases found : result o.st t with
    | none => exact ⟨last ▸ seen, h.floor, h.stamps, rises⟩
    | some =>
      obtain rfl := result_last found other
      exact ⟨by rw [last]; exact Nat.max_le.mpr ⟨seen, Nat.le_refl _⟩, floors _, stamped _ (by omega), rises⟩

theorem step_ordered (h : Ordered o) (careful : Careful o label) (run : observe o label = some o') : Ordered o' := by
  obtain ⟨st, taken, rfl⟩ := map_eq_some_iff.mp run
  cases label with
  | run => exact run_ordered h careful run
  | call t =>
    simp only [step, ite_none_right_eq_some] at taken
    obtain ⟨was, same⟩ := taken
    cases same
    refine ⟨h.seen, fun t' => ?_, h.stamps, fun t' => ?_⟩
    · by_cases same : t' = t
      · rw [same]
        exact Nat.le_of_eq (update_self t o.best o.floor)
      · exact Nat.le_trans (Nat.le_of_eq (update_of_ne same o.best o.floor)) (h.floor t')
    · by_cases same : t' = t
      · simp [Rises, State.goto, same]
      · exact (h.rises t').still (update_of_ne same _ _) (fun _ => rfl) fun _ => Nat.le_refl _
  | tick =>
    cases taken
    exact { h with rises := fun t => (h.rises t).still rfl (fun _ => rfl) (by simp [sets]) }
  | reboot =>
    simp only [step, ite_none_right_eq_some] at taken
    obtain ⟨lower, same⟩ := taken
    cases same
    exact { h with rises := fun t => (h.rises t).still rfl (fun _ => rfl) fun _ => lower }

/-- Only a reboot moves the tick count back. -/
theorem step_ticks (h : Ordered o) (careful : Careful o label) (run : observe o label = some o')
    (running : ∀ ticks, label ≠ .reboot ticks) : o.st.ticks ≤ o'.st.ticks := by
  obtain ⟨st, taken, same⟩ := map_eq_some_iff.mp run
  have same : o'.st = st := by
    rw [← same]
    cases label with
    | run =>
      dsimp only
      split <;> rfl
    | _ => rfl
  rw [same]
  cases label with
  | reboot ticks => exact absurd rfl (running ticks)
  | call =>
    simp only [step, ite_none_right_eq_some] at taken
    obtain ⟨-, same⟩ := taken
    cases same
    exact Nat.le_refl _
  | tick =>
    cases taken
    change o.st.ticks ≤ (o.st.ticks + 2) % tickModulus
    rw [Nat.mod_eq_of_lt careful]
    omega
  | run t =>
    cases (run_effect taken).1 with
    | stores _ _ _ ticks | other _ _ ticks => exact Nat.le_of_eq ticks.symm
    | restores arg call at_ last ticks =>
      simp only [Careful, at_] at careful
      rw [ticks]
      exact (h.rises t).2 arg call _ at_ (careful trivial)

/-- In every careful run, a timestamp is at least as large as every value returned before its call
started, and the scheduler's clock goes back at a reboot only. -/
theorem timestamps_monotone (o : Observed) (reached : Reachable clockSystem Careful o) :
    (∀ c ∈ o.stamps, c.floor ≤ c.value) ∧
      ∀ label o', Careful o label → observe o label = some o' → (∀ ticks, label ≠ .reboot ticks) →
        o.st.ticks ≤ o'.st.ticks := by
  have ordered : Ordered o := by
    apply reached.invariant
    · exact ⟨Nat.le_refl 0, fun _ => Nat.le_refl 0, by simp [clockSystem], by simp [Rises, clockSystem, init]⟩
    · intro o label o' h careful run
      exact step_ordered h careful run
  exact ⟨ordered.stamps, fun label o' careful run running => step_ticks ordered careful run running⟩

/-- A call from its start to the comparison with `last_ticks`. -/
def reading (t : Tid) : List Label := [.call t .timestamp, .run t, .run t, .run t]

/-- The clock falls from 4 to 1, and the next call restores it. -/
theorem timestamps_restored : ∃ o, Reachable clockSystem Careful o ∧ o.stamps = [⟨4, 4⟩, ⟨0, 4⟩] ∧ o.st.ticks = 4 ∧
      ∀ c ∈ o.stamps, c.floor ≤ c.value := by
  exact exec_reaches
    (flatten [[.tick, .tick], reading 1, [.run 1, .run 1, .reboot 1, .call 2 .timestamp], replicate 11 (.run 2)])
    (fun o => o.stamps = [⟨4, 4⟩, ⟨0, 4⟩] ∧ o.st.ticks = 4) (by decide +kernel)
    fun o reached ⟨stamps, ticks⟩ => ⟨stamps, ticks, (timestamps_monotone o reached).1⟩

/-- Thread 1 has read 2 and compared it when thread 2 returns 4. Then it overwrites the larger timestamp,
and after a reboot thread 2 gets 3. And a tick between the comparison and the write of
`sched_restore_ticks` is taken back. -/
theorem timestamps_fall : (∃ o, Reachable clockSystem anyStep o ∧ o.stamps = [⟨4, 3⟩, ⟨0, 2⟩, ⟨0, 4⟩]) ∧
    ∃ o o', Reachable clockSystem anyStep o ∧ observe o (.run 2) = some o' ∧ o.st.ticks = 5 ∧ o'.st.ticks = 4 := by
  constructor
  · exact exec_reaches
      (flatten [[.tick], reading 1, [.run 1, .tick], reading 2,
        [.run 2, .run 2, .run 1, .reboot 3, .call 2 .timestamp], replicate 6 (.run 2)])
      _ (by decide +kernel) fun _ _ => id
  · obtain ⟨o, run, before, o', step, after⟩ := exec_ends clockSystem anyStep
      (flatten [[.tick, .tick], reading 1, [.run 1, .run 1, .reboot 3, .call 2 .timestamp],
        replicate 8 (.run 2), [.tick]])
      (fun o => o.st.ticks = 5 ∧ ∃ o' ∈ observe o (.run 2), o'.st.ticks = 4) (by decide +kernel)
    exact ⟨o, o', ⟨_, run⟩, step, before, after⟩

end SuperGlue.Guarantees.Timestamps
