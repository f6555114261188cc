import SuperGlue.Lib.Tally
import SuperGlue.Guarantees.SchedulerThreads

/-!
# The assertions of the scheduler

A run in which no wakeup is for a thread that waits for a critical section, no two threads are made to depend
on each other and only the holder releases a critical section fails no assertion. The records are sound, and
`ncs_held` counts the critical sections of a thread, so that a holder is never blocked.
-/
namespace SuperGlue.Guarantees.SchedulerAssertions
open Finset Option Lib.FiniteMap Lib.Transition Lib.Tally Source.Sched.Blocking SchedulerThreads

/-! ## Holders -/

/-- `ncs_held` is the number of critical sections whose holder is the thread. -/
structure Counted (s : State) : Prop where
  count : ∀ id t, s.thd id = some t → t.ncsHeld = tally univ s.holder (some id)
  rests : ∀ id t, s.thd id = some t → t.blocked = true → t.ncsHeld = 0

variable {s s' : State} {curr : Nat} {t u : Thd} {spd : Spd} {label : Label}

/-! ## The condition on calls -/

/-- The thread waits for a critical section. -/
def Contends (t : Thd) : Prop := t.dependent = true ∧ t.dependencyThd = none

/-- Nobody wakes a thread that waits for a critical section, depends on a thread that depends on it, releases
what another thread holds, or, as the timeout thread, waits for a timeout with a critical section. -/
def proper (s : State) : Label → Prop
  | .wakeup target => ∀ t, s.thd target = some t → ¬ Contends t
  | .block _ d _ => ∀ curr, s.current = some curr → ∀ dep, s.thd d = some dep → dep.dependencyThd ≠ some curr
  | .release spd => ∀ h, s.holder spd = some h → s.current = some h
  | .timeout _ amnt => amnt ≠ 0 → ∀ curr, s.current = some curr → s.wakeupThd = some curr →
      ∀ t, s.thd curr = some t → t.ncsHeld = 0
  | _ => True

/-- Records change, but no critical section is taken or given back. -/
theorem Counted.records (present : Present s) (counted : Counted s) (allowed : proper s label)
    (map : ∀ id, s'.thd id = s.thd id ∨ ∃ v, s'.thd id = some v ∧ Held s label id v)
    (holders : s'.holder = s.holder) : Counted s' := by
  constructor
  · intro id t found
    rw [holders]
    rcases map id with same | ⟨v, same, held⟩
    · exact counted.count id t (same ▸ found)
    · cases same.symm.trans found
      rw [held.held]
      cases known : s.thd id with
      | none => exact (tally_eq_zero.mpr fun spd _ holds => present.holder spd id holds known).symm
      | some u => exact counted.count id u known
  · intro id t found asleep
    rcases map id with same | ⟨v, same, held⟩
    · exact counted.rests id t (same ▸ found) asleep
    cases same.symm.trans found
    rcases held.rests asleep with zero | ⟨self, amnt, rfl, on, chosen, nonzero⟩
    · exact zero
    · rw [held.held]
      cases known : s.thd id with
      | none => rfl
      | some u => exact allowed nonzero id on chosen u known

theorem Change.counted (present : Present s) (counted : Counted s) (allowed : proper s label)
    (change : Change s label s') : Counted s' := by
  cases change with
  | records map holders =>
    refine counted.records present allowed (fun id => ?_) holders
    exact (map id).imp_right fun ⟨v, found, plain⟩ => ⟨v, found, plain.toHeld⟩
  | waits id v map holders held => exact counted.records present allowed (written map held) holders
  | hands i t v spd h map holders known awake quiet _ count =>
    constructor
    · intro id u found
      have own := counted.count i t known
      have moved := tally_update (mem_univ spd) s.holder h (some id)
      rw [map] at found
      rw [holders]
      obtain ⟨rfl, rfl⟩ | ⟨other, found⟩ := update_known found
      · rcases count with ⟨before, rfl, after⟩ | ⟨before, rfl, after⟩ <;>
          simp only [before, reduceCtorEq, if_true, if_false] at moved <;> omega
      · have same := counted.count id u found
        rcases count with ⟨before, rfl, -⟩ | ⟨before, rfl, -⟩ <;>
          simp only [before, reduceCtorEq, some.injEq, other.symm] at moved <;> omega
    · intro id u found asleep
      rw [map] at found
      obtain ⟨-, rfl⟩ | ⟨-, found⟩ := update_known found
      · simp [awake] at asleep
      · exact counted.rests id u found asleep

/-! ## No assertion fails -/

theorem blockDone_ok {ret : Int} (live : 0 < t.wakeCnt) (atMost : t.wakeCnt ≤ 2)
    (free : t.dependent = false) : blockDone s curr t ret ≠ none := by
  unfold blockDone
  by_cases two : t.wakeCnt = 2
  · simp [two, free]
  · have one : t.wakeCnt = 1 := by omega
    simp [one, free]

theorem unblock_ok (atMost : t.wakeCnt ≤ 2) (free : t.dependent = false) : unblock s curr t ≠ none := by
  unfold unblock
  rw [fpPreWakeup_ok atMost]
  have bounds := bump_bounds t.wakeCnt
  exact blockDone_ok bounds.1 bounds.2 free

theorem blockWoken_ok (live : 0 < t.wakeCnt) (atMost : t.wakeCnt ≤ 2)
    (free : t.dependent = false) : blockWoken s curr t ≠ none := by
  unfold blockWoken
  by_cases two : t.wakeCnt = 2
  · simp only [two]
    exact blockDone_ok Nat.one_pos (Nat.le_succ 1) free
  · simp only [two]
    rw [if_neg (by simp; omega)]
    exact blockDone_ok live atMost free

theorem schedBlock_ok {d : Nat} {onCore : Bool} (sound : Sound t) (calm : Calm t)
    (apart : ∀ dep, s.thd d = some dep → dep.dependencyThd ≠ some curr) : schedBlock s curr t spd d onCore ≠ none := by
  have live := calm.live
  have atMost := sound.atMost
  unfold schedBlock
  split
  · simp
  split
  · exact blockDone_ok live atMost calm.free
  rw [if_neg (by simp [sound.component calm.awake]), if_neg (by simp [calm.awake])]
  rw [fpPreBlock, if_neg (by omega), bind_some]
  dsimp only
  split
  · rw [if_pos (by omega)]
    simp
  split
  · unfold blockOn
    split
    · exact unblock_ok (by dsimp only; omega) calm.free
    next dep known =>
      rw [if_neg (apart dep known)]
      split
      · exact unblock_ok (by dsimp only; omega) calm.free
      · simp
  next zero _ =>
    simp [fpBlock, zero, calm.awake]

theorem wake_ok {isCurr : Bool} (sound : Sound u) (free : ¬ Contends u) : wake u isCurr ≠ none := by
  unfold wake
  rw [fpPreWakeup_ok sound.atMost, bind_some]
  dsimp only
  split
  next d waits =>
    obtain ⟨_, -, dependent, -, without⟩ := sound.waits (by simp [waits])
    simp [dependent, without]
  rename_i alone
  have free : u.dependent = false := by simpa [Contends, alone] using free
  rw [if_neg (by simp [free])]
  split
  · simp
  next asleep =>
    have asleep : u.blocked := by simpa using asleep
    simp [fpWakeup, bump, sound.sleeps asleep, asleep]

theorem componentTake_ok (present : Present s) (counted : Counted s)
    (awake : t.blocked = false) (alone : t.dependencyThd = none) : componentTake s curr t spd ≠ none := by
  unfold componentTake
  rw [if_neg (by simp [awake])]
  split
  · simp
  rename_i h holds
  split
  · simp
  obtain ⟨u, known⟩ := ne_none_iff_exists'.mp (present.holder spd h holds)
  -- a holder is not blocked
  have awake : u.blocked = false := by
    by_contra asleep
    have zero := counted.rests h u known (by simpa using asleep)
    have pos := tally_pos (mem_univ spd) s.holder
    rw [holds, ← counted.count h u known] at pos
    omega
  simp [known, awake, alone]

theorem schedTimeout_ok {amnt : Nat} {self : Spd} (sound : Sound t) (calm : Calm t) :
    schedTimeout s curr t self amnt ≠ none := by
  have live := calm.live
  have atMost := sound.atMost
  unfold schedTimeout
  split
  · simp
  obtain ⟨time, named⟩ := timeout_named s amnt
  dsimp only
  rw [named]
  split
  · simp
  rw [fpPreBlock, if_neg (by omega), bind_some]
  dsimp only
  split
  · rw [if_pos (by omega)]
    simp
  next zero =>
    simp [fpBlock, zero, calm.awake]

theorem call_ok (regular : Regular s) (present : Present s) (counted : Counted s) (on : s.current = some curr)
    (known : s.thd curr = some t) (place : t.pc = .user) (allowed : proper s label) : call s curr t label ≠ none := by
  have sound := regular.sound curr t known
  have calm := sound.calm (.inl place)
  unfold call
  cases label with
  | block => exact schedBlock_ok sound calm fun dep found => allowed curr on dep found
  | wakeup target =>
    dsimp only
    unfold schedWakeup
    split
    · simp
    next u found =>
      rw [ne_eq, map_eq_none_iff]
      exact wake_ok (regular.sound target u found) (allowed u found)
  | take => exact componentTake_ok present counted calm.awake calm.alone
  | release =>
    dsimp only
    unfold componentRelease
    split
    · simp
    next h holds =>
      have same := allowed h holds
      rw [on] at same
      cases same
      simp [calm.awake, calm.uncontended]
  | timeout => exact schedTimeout_ok sound calm
  | timeoutThd => simp
  | _ => simp

theorem resume_ok (present : Present s) (counted : Counted s) (sound : Sound t)
    (awake : t.blocked = false) : resume s curr t ≠ none := by
  have placed := sound.placed
  have atMost := sound.atMost
  unfold Placed at placed
  unfold resume
  split
  · simp
  next dependency place =>
    rw [place] at placed
    unfold blockResumed
    cases dependency with
    | none =>
      dsimp only at placed ⊢
      split
      · exact blockWoken_ok (by omega) atMost placed.1.free
      · simp
    | some =>
      dsimp only at placed ⊢
      split
      · exact unblock_ok atMost rfl
      next free =>
        have free : t.dependent = false := by simpa using free
        have live := placed.1.live free
        rw [if_pos (by omega)]
        exact blockWoken_ok live atMost free
  next spd place =>
    rw [place] at placed
    exact componentTake_ok present counted awake placed.alone
  next place =>
    rw [place] at placed
    rw [if_neg (by simp [placed.free])]
    simp
  · simp

theorem schedTimerTick_ok (regular : Regular s) : schedTimerTick s ≠ none := by
  unfold schedTimerTick schedProcessWakeups
  split
  · simp
  rename_i id chosen
  split
  · simp
  rename_i u known
  have sound := regular.sound id u known
  have atMost := sound.atMost
  split
  · simp
  split
  next two =>
    rw [if_neg]
    · simp
    · intro asleep
      have zero := sound.sleeps asleep
      omega
  · rw [fpPreWakeup_ok atMost, bind_some]
    dsimp only
    split
    next asleep => simp [fpWakeup, bump, sound.sleeps asleep, asleep]
    · simp

theorem step_going (regular : Regular s) (present : Present s) (counted : Counted s)
    (allowed : proper s label) (taken : step s label = some s') : s.failed = false ∧ Effect s label s' := by
  obtain ⟨going, effect | ⟨-, fails⟩⟩ := step_effect regular taken
  · exact ⟨going, effect⟩
  cases fails with
  | tick failed => exact absurd failed (schedTimerTick_ok regular)
  | resume curr t on known failed =>
    exact absurd failed (resume_ok present counted (regular.sound curr t known) (regular.awake on known))
  | call curr t label on known place failed =>
    exact absurd failed (call_ok regular present counted on known place allowed)

/-- In a run of proper calls no assertion fails. -/
theorem assertions_hold {s : State} (reached : Reachable scheduler proper s) : s.failed = false := by
  have all : (Regular s ∧ Present s) ∧ Counted s ∧ s.failed = false := by
    refine reached.invariant (fun s => (Regular s ∧ Present s) ∧ Counted s ∧ s.failed = false) ?_ ?_
    · have start : Reachable scheduler proper scheduler.init := ⟨[], .start⟩
      refine ⟨⟨reachable_regular start, reachable_present start⟩, ?_, rfl⟩
      constructor <;> simp [scheduler, State.init]
    rintro s label s' ⟨⟨regular, present⟩, counted, -⟩ allowed taken
    obtain ⟨going, effect⟩ := step_going regular present counted allowed taken
    have change := effect.change regular
    exact ⟨⟨effect.regular regular, change.present present⟩, Change.counted present counted allowed change,
      effect.going.trans going⟩
  exact all.2.2

def spd7 : Spd := ⟨⟨7, by decide⟩, by decide⟩

/-- Thread 2 waits for the critical section of thread 1, which wakes it. -/
theorem waiter_woken : ∃ s, Reachable scheduler anyStep s ∧ s.failed = true := by
  exact exec_reaches
    [.create 1, .create 2, .dispatch 1 1, .take spd7, .dispatch 2 1, .take spd7, .dispatch 2 2, .wakeup 2]
    _ (by decide +kernel) fun _ _ => id

instance (s : State) (label : Label) : Decidable (proper s label) :=
  match label with
  | .wakeup target => inferInstanceAs (Decidable (∀ t ∈ s.thd target, ¬ (_ ∧ _)))
  | .block _ d _ => inferInstanceAs (Decidable (∀ curr ∈ s.current, ∀ dep ∈ s.thd d, _ ≠ _))
  | .release spd => inferInstanceAs (Decidable (∀ h ∈ s.holder spd, _ = _))
  | .timeout .. => inferInstanceAs (Decidable (_ → ∀ curr ∈ s.current, _ → ∀ t ∈ s.thd curr, _ = _))
  | .create _ | .dispatch _ _ | .take _ | .timeoutThd | .resume | .tick => instDecidableTrue

/-- A critical section is handed over, then its waiter is woken. -/
theorem handed_over : ∃ s, Reachable scheduler proper s ∧ s.holder spd7 = some 2 ∧ s.failed = false := by
  exact exec_reaches
    [.create 1, .create 2, .dispatch 1 1, .take spd7, .dispatch 2 1, .take spd7, .dispatch 2 2, .release spd7,
      .dispatch 2 1, .resume, .dispatch 1 1, .resume, .wakeup 2]
    (fun s => s.holder spd7 = some 2) (by decide +kernel) fun s reached holds => ⟨holds, assertions_hold reached⟩

/-- In such a run `ncs_held` is exact, and nobody sleeps in a critical section. -/
theorem holder_awake {id : Nat} (reached : Reachable scheduler proper s) (holds : s.holder spd = some id) :
    ∃ t, s.thd id = some t ∧ t.blocked = false ∧ t.ncsHeld = tally univ s.holder (some id) := by
  obtain ⟨present, counted⟩ : Present s ∧ Counted s := by
    refine @reachable_kept s _ (fun s => Present s ∧ Counted s) ?_ ?_ ?_ reached
    · constructor <;> constructor <;> simp [State.init]
    · exact fun s h => ⟨⟨h.1.1, h.1.2⟩, h.2.1, h.2.2⟩
    · exact fun s label s' h allowed change => ⟨change.present h.1, Change.counted h.1 h.2 allowed change⟩
  obtain ⟨t, known⟩ := ne_none_iff_exists'.mp (present.holder spd id holds)
  have count := counted.count id t known
  refine ⟨t, known, Bool.eq_false_iff.mpr fun asleep => ?_, count⟩
  rw [counted.rests id t known asleep, eq_comm, tally_eq_zero] at count
  exact count spd (mem_univ spd) holds

def spd8 : Spd := ⟨⟨8, by decide⟩, by decide⟩

/-- Thread 1 holds two critical sections and sets a timeout, and the timeout thread waits. -/
theorem timeout_holder_awake : ∃ s, Reachable scheduler proper s ∧ (s.holder spd7 = some 1 ∧ s.holder spd8 = some 1) ∧
    (∃ t ∈ s.thd 2, t.blocked = true) ∧
    ∃ t, s.thd 1 = some t ∧ t.blocked = false ∧ t.ncsHeld = tally univ s.holder (some 1) :=
  exec_reaches
    [.create 1, .create 2, .dispatch 2 1, .timeoutThd, .timeout spd7 5, .dispatch 1 1, .take spd7, .take spd8,
      .timeout spd7 3]
    (fun s => (s.holder spd7 = some 1 ∧ s.holder spd8 = some 1) ∧ ∃ t ∈ s.thd 2, t.blocked = true) (by decide +kernel)
    fun _ reached shown => ⟨shown.1, shown.2, holder_awake reached shown.1.1⟩

end SuperGlue.Guarantees.SchedulerAssertions
