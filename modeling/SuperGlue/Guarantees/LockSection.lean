import SuperGlue.Source.Lock.Component

/-!
# Bracketing of the lock component's section

Being between a take and the matching release is the same as being the section's holder, in every
run. The exception to the bracketing is `lock_component_release` itself: it releases before the last
wakeup and once more at `done`. The second release is harmless while nobody holds the section; it
fails the holder assertion when another thread took the section in between.
-/
namespace SuperGlue.Guarantees.LockSection
open Lib.Transition Source.Lock.Component

variable {T : Type} {s s' : State T} {t : T}

/-- The threads inside the section are exactly its holder. -/
def HolderInside (s : State T) : Prop :=
  ∀ t, (s.pc t).Inside ↔ s.holdingThd = some t

theorem between_undisturbed {t u : T} (others : Undisturbed s s' t)
    (moved : u ≠ t) (between : (s'.pc u).Between) : (s.pc u).Between := by
  rcases others u moved with same | ⟨_, idle⟩
  · rwa [same] at between
  · simp [idle, Pc.Between] at between

theorem releases_inside {pc : Pc T} (releases : pc.Releases) : pc.Inside ∨ pc = .leaveAgain := by
  cases pc <;> simp_all [Pc.Releases, Pc.Inside]

theorem inside_not_between {pc : Pc T} (inside : pc.Inside) : ¬ pc.Between ∧ pc ≠ .sectionAssert := by
  cases pc <;> simp_all [Pc.Inside, Pc.Between]

theorem holderInside_init : HolderInside (init : State T) := by
  intro t
  simp [init, Pc.Inside]

variable [DecidableEq T]

theorem holderInside_move (inv : HolderInside s) (move : Move s t s')
    (others : Undisturbed s s' t) : HolderInside s' := by
  intro u
  have before := inv u
  by_cases moved : u = t
  · subst moved
    cases move with
    | take at_ free held inside => simp [held, inside]
    | inside was now same => simp [now, same, before.mp was]
    | outside was now _ _ same => simp [now, same, ← before, was]
    | release at_ holder now _ freed => simp [now, freed]
    | refused at_ v other holder same =>
      subst same
      simp [Pc.Inside, holder, other]
  · have place : (s'.pc u).Inside ↔ (s.pc u).Inside := by
      rcases others u moved with same | ⟨asleep, idle⟩
      · rw [same]
      · simp [asleep, idle, Pc.Inside]
    rw [place, before]
    cases move with
    | take at_ free held =>
      rw [held]
      rcases free with free | free <;> simp [free, Ne.symm moved]
    | inside _ _ same | outside _ _ _ _ same => rw [same]
    | release at_ holder _ _ freed =>
      rw [freed]
      rcases holder with holder | holder <;> simp [holder, Ne.symm moved]
    | refused _ _ _ _ same => rw [same]; rfl

theorem holderInside_reachable {guard : State T → Label T → Prop}
    (reached : Reachable (componentSystem T) guard s) : HolderInside s := by
  refine reached.invariant HolderInside holderInside_init ?_
  intro s label s' inv _ h
  obtain ⟨move, others⟩ := step_move h
  exact holderInside_move inv move others

/-! ## The condition -/

/-- The guard: nobody enters the section while another thread is between the early release of its
`lock_component_release` and the release at `done`. -/
def EntersClear (s : State T) : Label T → Prop
  | .run t _ => (s.pc t).Enters → ∀ u, ¬ (s.pc u).Between
  | _ => True

/-- Under the guard nobody holds the section while such a thread exists, so no release finds another
holder and no assertion has failed. -/
structure SectionInv (s : State T) : Prop where
  between_free : ∀ t, (s.pc t).Between → s.holdingThd = none
  no_assert : ∀ t, s.pc t ≠ .sectionAssert

omit [DecidableEq T] in
theorem sectionInv_release (inv : HolderInside s) (sec : SectionInv s)
    (releases : (s.pc t).Releases) : s.holdingThd = none ∨ s.holdingThd = some t := by
  rcases releases_inside releases with inside | again
  · exact .inr ((inv t).mp inside)
  · exact .inl (sec.between_free t (by simp [again, Pc.Between]))

theorem between_free_move (inv : HolderInside s) (sec : SectionInv s)
    (clear : (s.pc t).Enters → ∀ u, ¬ (s.pc u).Between) (move : Move s t s')
    (others : Undisturbed s s' t) (u : T) (between : (s'.pc u).Between) : s'.holdingThd = none := by
  have was : u ≠ t → s.holdingThd = none := fun moved =>
    sec.between_free u (between_undisturbed others moved between)
  cases move with
  | take at_ free held inside =>
    have moved : u ≠ t := by
      rintro rfl
      exact (inside_not_between inside).1 between
    rcases at_ with enter | already
    · exact absurd (between_undisturbed others moved between) (clear enter u)
    · simp [(inv t).mp already] at was
      exact absurd was moved
  | inside _ now same =>
    have moved : u ≠ t := by
      rintro rfl
      exact (inside_not_between now).1 between
    rw [same, was moved]
  | outside _ _ _ earlier same =>
    rw [same]
    by_cases moved : u = t
    · subst moved
      exact sec.between_free u (earlier between)
    · exact was moved
  | release _ _ _ _ freed => exact freed
  | refused _ v _ holder same =>
    subst same
    have moved : u ≠ t := by
      rintro rfl
      simp [Pc.Between] at between
    exact was moved

theorem no_assert_move (inv : HolderInside s) (sec : SectionInv s)
    (move : Move s t s') (others : Undisturbed s s' t) (u : T) : s'.pc u ≠ .sectionAssert := by
  by_cases moved : u = t
  · subst moved
    cases move with
    | take _ _ _ inside => exact (inside_not_between inside).2
    | inside _ now => exact (inside_not_between now).2
    | outside _ _ fine _ _ | release _ _ _ fine _ => exact fine
    | refused at_ v other holder =>
      rcases sectionInv_release inv sec at_ with free | own
      · simp [free] at holder
      · simp [own, Ne.symm other] at holder
  · rcases others u moved with same | ⟨_, idle⟩
    · rw [same]
      exact sec.no_assert u
    · simp [idle]

theorem sectionInv_reachable (reached : Reachable (componentSystem T) EntersClear s) :
    HolderInside s ∧ SectionInv s := by
  refine reached.invariant (fun s => HolderInside s ∧ SectionInv s) ⟨holderInside_init, ?_⟩ ?_
  · constructor <;> simp [componentSystem, init, Pc.Between]
  intro s label s' inv guard h
  obtain ⟨move, others⟩ := step_move h
  have clear : (s.pc label.thread).Enters → ∀ u, ¬ (s.pc u).Between := by
    cases label with
    | run => exact guard
    | call t =>
      have idle : s.pc t = .idle := by
        simp only [step, componentSystem, Option.ite_none_right_eq_some] at h
        exact h.1
      simp [Label.thread, idle, Pc.Enters]
  exact ⟨holderInside_move inv.1 move others,
    between_free_move inv.1 inv.2 clear move others, no_assert_move inv.1 inv.2 move others⟩

/-- Every operation returns without the section, in every run. In the runs that enter the section
only when nobody is between an early release and `done`, no `sched_component_release` is called
while another thread holds the section, and the holder assertion never fails. -/
theorem section_bracketed (T : Type) [DecidableEq T] :
    (∀ s, Reachable (componentSystem T) anyStep s → ∀ t, s.pc t = .idle → s.holdingThd ≠ some t) ∧
    ∀ s, Reachable (componentSystem T) EntersClear s → ∀ t,
      (∀ u, (s.pc t).Releases → s.holdingThd = some u → u = t) ∧ s.pc t ≠ .sectionAssert := by
  constructor
  · intro s reached t idle holds
    have inside := (holderInside_reachable reached t).mpr holds
    simp [idle, Pc.Inside] at inside
  intro s reached t
  obtain ⟨inv, sec⟩ := sectionInv_reachable reached
  refine ⟨?_, sec.no_assert t⟩
  intro u releases holder
  rcases sectionInv_release inv sec releases with free | own
  · simp [free] at holder
  · simpa [own, eq_comm] using holder

instance [Fintype T] : DecidableRel (EntersClear : State T → Label T → Prop) := fun s label => by
  cases label <;> simp only [EntersClear] <;> infer_instance

/-- Thread 0 allocates lock 1; thread 1 sleeps on it; thread 0 releases it up to the wakeup of
thread 1, with the section already given up. -/
def releaseEarly : List (Label (Fin 3)) :=
  [.call 0 (.alloc 5), .run 0 true, .run 0 true, .run 0 true,
   .call 1 (.pretake 5 1), .run 1 true, .run 1 true, .run 1 true,
   .call 1 (.take 5 1), .run 1 true, .run 1 true, .run 1 true, .run 1 true, .run 1 true,
   .call 0 (.release 5 1), .run 0 true, .run 0 true, .run 0 true, .run 0 true]

/-- The second release of thread 0 comes when nobody has entered: it is tolerated. -/
theorem section_bracketed_release_twice :
    ∃ s, Reachable (componentSystem (Fin 3)) EntersClear s ∧ s.pc 0 = .leaveAgain ∧
      (∀ u, (s.pc 0).Releases → s.holdingThd = some u → u = 0) ∧ s.pc 0 ≠ .sectionAssert := by
  exact exec_reaches (releaseEarly ++ [.run 0 true]) (fun s => s.pc 0 = .leaveAgain) (by decide +kernel)
    fun s reached final => ⟨final, (section_bracketed (Fin 3)).2 s reached 0⟩

/-- Thread 2 enters the section between the two releases of thread 0, which then fails the holder
assertion. -/
theorem section_bracketing_fails : ¬ ∀ s, Reachable (componentSystem (Fin 3)) anyStep s → ∀ t,
      (∀ u, (s.pc t).Releases → s.holdingThd = some u → u = t) ∧ s.pc t ≠ .sectionAssert := by
  intro claim
  obtain ⟨s, run, final⟩ := exec_ends (componentSystem (Fin 3)) anyStep
    (releaseEarly ++ [.call 2 (.alloc 5), .run 2 true, .run 0 true, .run 0 true])
    (fun s => s.pc 0 = .sectionAssert) (by decide +kernel)
  exact (claim s ⟨_, run⟩ 0).2 final

end SuperGlue.Guarantees.LockSection
