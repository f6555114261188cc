import SuperGlue.Lib.FiniteMap
import SuperGlue.Lib.Transition
import SuperGlue.Source.Sched.Blocking

/-!
# The thread records of the scheduler

What holds of a thread's record at each place of the scheduler's code, and what each step does to the
records. Everything else about blocking and waking is derived from these effects.
-/
namespace SuperGlue.Guarantees.SchedulerThreads
open Function (update update_of_ne update_self)
open Lib.FiniteMap Lib.Transition Source.Sched.Blocking
open Option (bind_eq_some_iff map_eq_some_iff some.injEq ite_none_left_eq_some map_some any_eq_true bind_some)

def scheduler : System State Label := ⟨State.init, step⟩

/-! ## Records -/

/-- The thread neither waits for anything nor sleeps. -/
structure Calm (t : Thd) : Prop where
  awake : t.blocked = false
  free : t.dependent = false
  alone : t.dependencyThd = none
  uncontended : t.contendedComponent = none
  live : 0 < t.wakeCnt

/-- The thread sleeps or has been woken, and does not depend on another one. -/
structure Resting (t : Thd) : Prop where
  free : t.dependent = false
  alone : t.dependencyThd = none
  uncontended : t.contendedComponent = none
  asleep : t.blocked = true ↔ t.wakeCnt = 0

/-- The thread waits for a critical section, or a walk has found that it is free. -/
structure Contending (t : Thd) (spd : Spd) : Prop where
  awake : t.blocked = false
  alone : t.dependencyThd = none
  contended : t.contendedComponent = if t.dependent then some spd else none
  live : 0 < t.wakeCnt

/-- The thread waits for a thread, or was woken while it did. -/
structure Depending (t : Thd) (d : Nat) : Prop where
  awake : t.blocked = false
  on : t.dependencyThd = if t.dependent then some d else none
  uncontended : t.contendedComponent = none
  live : t.dependent = false → 0 < t.wakeCnt

/-- The record of a thread at its place in the code. -/
def Placed (t : Thd) : Prop :=
  match t.pc with
  | .user => Calm t
  | .releasing => Calm t
  | .switching => Resting t
  | .blocking none => Resting t ∧ t.ncsHeld = 0
  | .blocking (some d) => Depending t d ∧ t.ncsHeld = 0
  | .taking spd => Contending t spd

/-- The invariant of a record. -/
structure Sound (t : Thd) : Prop where
  atMost : t.wakeCnt ≤ 2
  placed : Placed t
  component : t.blocked = false → t.blockingComponent = none

/-- The invariant of the scheduler. -/
structure Regular (s : State) : Prop where
  sound : ∀ id t, s.thd id = some t → Sound t
  running : ∀ id, s.current = some id → ∃ t, s.thd id = some t ∧ t.blocked = false
  /-- A thread does not wait for what it holds. -/
  apart : ∀ id t spd, s.thd id = some t → t.pc = .taking spd → s.holder spd ≠ some id

theorem Regular.awake {s : State} {id : Nat} {t : Thd} (regular : Regular s) (on : s.current = some id)
    (known : s.thd id = some t) : t.blocked = false := by
  obtain ⟨u, same, awake⟩ := regular.running id on
  rw [known] at same
  cases same
  exact awake

/-! ## Effects -/

/-- The wake count after one more wakeup. -/
def bump (n : Nat) : Nat := min 2 (n + 1)

/-- What `sched_wakeup` does to the record of the thread it is called for. -/
inductive WakeEffect (u : Thd) : Bool → Thd → Prop where
  /-- It is not blocked, so the wakeup is kept for later. -/
  | later (awake : u.blocked = false) (free : u.dependent = false) (alone : u.dependencyThd = none) :
      WakeEffect u false { u with wakeCnt := bump u.wakeCnt }
  | released (waits : u.dependencyThd ≠ none) :
      WakeEffect u true { u with wakeCnt := bump u.wakeCnt, dependent := false, dependencyThd := none }
  | woken (asleep : u.blocked = true) :
      WakeEffect u true { u with wakeCnt := 1, blocked := false, blockingComponent := none }

/-- What one round of the loop of `sched_component_take` does. -/
inductive TakeEffect (s : State) (curr : Nat) (t : Thd) (spd : Spd) : State → Prop where
  | taken (free : s.holder spd = none) :
      TakeEffect s curr t spd ({ s with holder := update s.holder spd (some curr) }.returns curr
        { t with ncsHeld := t.ncsHeld + 1, contendedComponent := none, dependent := false } 0)
  | held (own : s.holder spd = some curr) : TakeEffect s curr t spd (s.returns curr { t with dependent := false } 0)
  | contended (h : Nat) (u : Thd) (holds : s.holder spd = some h) (other : h ≠ curr) (known : s.thd h = some u)
      (awake : u.blocked = false) :
      TakeEffect s curr t spd
        (s.switch curr { t with contendedComponent := some spd, dependent := true } (.taking spd))

/-- What a call of a thread does. -/
inductive CallEffect (s : State) (curr : Nat) (t : Thd) : Label → State → Prop where
  | blockSelf (spd : Spd) (onCore : Bool) :
      CallEffect s curr t (.block spd curr onCore) (s.returns curr t einval)
  | blockHolding (spd : Spd) (d : Nat) (onCore : Bool) (holding : t.ncsHeld ≠ 0) :
      CallEffect s curr t (.block spd d onCore) (s.returns curr { t with wakeCnt := 1 } (-1))
  | blockEarly (spd : Spd) (d : Nat) (onCore : Bool) (pending : t.wakeCnt = 2) :
      CallEffect s curr t (.block spd d onCore) (s.returns curr { t with wakeCnt := 1, blockTime := s.ticks } 0)
  | blockRefused (spd : Spd) (d : Nat) (onCore : Bool) (nothing : t.wakeCnt = 1) :
      CallEffect s curr t (.block spd d onCore) (s.returns curr { t with wakeCnt := 1, blockTime := s.ticks } (-1))
  | blockOn (spd : Spd) (d : Nat) (dep : Thd) (nothing : t.wakeCnt = 1) (without : t.ncsHeld = 0)
      (other : d ≠ curr) (known : s.thd d = some dep) (awake : dep.blocked = false)
      (apart : dep.dependencyThd ≠ some curr) :
      CallEffect s curr t (.block spd d true)
        (s.switch curr
          { t with wakeCnt := 0, blockTime := s.ticks, dependencyThd := some d, dependent := true }
          (.blocking (some d)))
  | blockAsleep (spd : Spd) (d : Nat) (onCore : Bool) (nothing : t.wakeCnt = 1) (without : t.ncsHeld = 0) :
      CallEffect s curr t (.block spd d onCore)
        (s.switch curr
          { t with wakeCnt := 0, blockTime := s.ticks, blockingComponent := some spd, blocked := true }
          (.blocking none))
  | wakeMissing (target : Nat) (missing : s.thd target = none) :
      CallEffect s curr t (.wakeup target) (s.returns curr t (-1))
  | wakeSelf : CallEffect s curr t (.wakeup curr) (s.returns curr { t with wakeCnt := bump t.wakeCnt } 0)
  | wakeLater (target : Nat) (u v : Thd) (other : target ≠ curr) (known : s.thd target = some u)
      (effect : WakeEffect u false v) :
      CallEffect s curr t (.wakeup target) ((s.set target v).returns curr t 0)
  | wakeNow (target : Nat) (u v : Thd) (other : target ≠ curr) (known : s.thd target = some u)
      (effect : WakeEffect u true v) :
      CallEffect s curr t (.wakeup target) ((s.set target v).switch curr { t with ret := 0 } .switching)
  | take (spd : Spd) (s' : State) (effect : TakeEffect s curr t spd s') : CallEffect s curr t (.take spd) s'
  | releaseNothing (spd : Spd) : CallEffect s curr t (.release spd) (s.switch curr t .releasing)
  | release (spd : Spd) (own : s.holder spd = some curr) :
      CallEffect s curr t (.release spd)
        ({ s with holder := update s.holder spd none }.switch curr { t with ncsHeld := t.ncsHeld - 1 } .releasing)
  | timeoutSet (self : Spd) (amnt time : Nat) :
      CallEffect s curr t (.timeout self amnt) { s with wakeupTime := time }
  | timeoutEarly (self : Spd) (amnt time : Nat) (chosen : s.wakeupThd = some curr ∧ amnt ≠ 0)
      (pending : t.wakeCnt = 2) :
      CallEffect s curr t (.timeout self amnt)
        ({ s with wakeupTime := time }.set curr { t with wakeCnt := 1, blockTime := s.ticks })
  | timeoutAsleep (self : Spd) (amnt time : Nat) (chosen : s.wakeupThd = some curr ∧ amnt ≠ 0)
      (nothing : t.wakeCnt = 1) :
      CallEffect s curr t (.timeout self amnt)
        ({ s with wakeupTime := time }.switch curr
          { t with wakeCnt := 0, blockTime := s.ticks, blockingComponent := some self, blocked := true }
          .switching)
  | timeoutThd : CallEffect s curr t .timeoutThd ({ s with wakeupThd := some curr }.returns curr t 0)

/-- What a thread does that goes on from its switch. -/
inductive ResumeEffect (s : State) (curr : Nat) (t : Thd) : State → Prop where
  | refused (d : Nat) (place : t.pc = .blocking (some d)) (waits : t.dependent = true) :
      ResumeEffect s curr t (s.returns curr { t with wakeCnt := 1, dependent := false, dependencyThd := none } (-1))
  | woken (dependency : Option Nat) (place : t.pc = .blocking dependency) (free : t.dependent = false)
      (alone : t.dependencyThd = none) (ret : Int) (positive : 0 ≤ ret) :
      ResumeEffect s curr t (s.returns curr { t with wakeCnt := 1 } ret)
  | take (spd : Spd) (place : t.pc = .taking spd) (s' : State) (effect : TakeEffect s curr t spd s') :
      ResumeEffect s curr t s'
  | back (place : t.pc = .releasing ∨ t.pc = .switching) (ret : Int) : ResumeEffect s curr t (s.returns curr t ret)

/-- What a step does in which no assertion fails. -/
inductive Effect (s : State) : Label → State → Prop where
  | create (id : Nat) (fresh : s.thd id = none) : Effect s (.create id) (s.set id .init)
  | dispatch (id fuel p : Nat) (t : Thd) (known : s.thd p = some t) (last : s.next p = none) (run : Nat)
      (ready : ∃ u, s.thd run = some u ∧ u.blocked = false) :
      Effect s (.dispatch id fuel) { s.set p t.undepend with current := some run }
  | tick : Effect s .tick { s with ticks := s.ticks + 2, current := none }
  | timeout (id : Nat) (u : Thd) (chosen : s.wakeupThd = some id) (known : s.thd id = some u)
      (due : s.wakeupTime ≠ 0 ∧ s.wakeupTime ≤ s.ticks + 2) :
      Effect s .tick
        { s.set id { u with wakeCnt := bump u.wakeCnt, blocked := false, blockingComponent := none } with
          ticks := s.ticks + 2, wakeupTime := 0, current := none }
  | call (curr : Nat) (t : Thd) (label : Label) (s' : State) (on : s.current = some curr)
      (known : s.thd curr = some t) (place : t.pc = .user) (effect : CallEffect s curr t label s') :
      Effect s label s'
  | resume (curr : Nat) (t : Thd) (s' : State) (on : s.current = some curr) (known : s.thd curr = some t)
      (effect : ResumeEffect s curr t s') :
      Effect s .resume s'

/-! ## Every step has its effect -/

variable {u v : Thd}

theorem fpPreWakeup_ok (atMost : u.wakeCnt ≤ 2) : fpPreWakeup u = some { u with wakeCnt := bump u.wakeCnt } := by
  rw [fpPreWakeup, if_neg (by omega)]
  split
  next two =>
    have same : bump u.wakeCnt = u.wakeCnt := by unfold bump; omega
    rw [same]
  · have same : bump u.wakeCnt = u.wakeCnt + 1 := by unfold bump; omega
    rw [same]

theorem fpPreWakeup_eq (ok : fpPreWakeup u = some v) : v = { u with wakeCnt := bump u.wakeCnt } := by
  by_cases atMost : u.wakeCnt ≤ 2
  · cases ok.symm.trans (fpPreWakeup_ok atMost)
    rfl
  · rw [fpPreWakeup, if_pos (by omega)] at ok
    contradiction

/-- A thread that sleeps is at the switch of `sched_block` or `sched_timeout`. -/
theorem Sound.resting (sound : Sound u) (asleep : u.blocked) :
    Resting u ∧ (u.pc = .switching ∨ u.pc = .blocking none ∧ u.ncsHeld = 0) := by
  have placed := sound.placed
  unfold Placed at placed
  split at placed
  · exact absurd placed.awake (by simp [asleep])
  · exact absurd placed.awake (by simp [asleep])
  next place => exact ⟨placed, .inl place⟩
  next place => exact ⟨placed.1, .inr ⟨place, placed.2⟩⟩
  · exact absurd placed.1.awake (by simp [asleep])
  · exact absurd placed.awake (by simp [asleep])

theorem Resting.live (resting : Resting u) (awake : u.blocked = false) : 0 < u.wakeCnt := by
  have asleep := resting.asleep
  simp only [awake, Bool.false_eq_true, false_iff] at asleep
  omega

theorem Sound.calm (sound : Sound u) (place : u.pc = .user ∨ u.pc = .releasing) : Calm u := by
  have placed := sound.placed
  unfold Placed at placed
  rcases place with place | place <;> rwa [place] at placed

theorem Sound.sleeps (sound : Sound u) (asleep : u.blocked) : u.wakeCnt = 0 :=
  (sound.resting asleep).1.asleep.mp asleep

/-- A thread that waits for another one is inside of `sched_block` and holds no critical section. -/
theorem Sound.waits (sound : Sound u) (waits : u.dependencyThd ≠ none) :
    ∃ d, u.pc = .blocking (some d) ∧ u.dependent ∧ u.dependencyThd = some d ∧ u.ncsHeld = 0 := by
  have placed := sound.placed
  unfold Placed at placed
  split at placed
  · exact absurd placed.alone waits
  · exact absurd placed.alone waits
  · exact absurd placed.alone waits
  · exact absurd placed.1.alone waits
  next d place =>
    have on := placed.1.on
    cases dependent : u.dependent with
    | true => exact ⟨d, place, rfl, by simpa [dependent] using on, placed.2⟩
    | false => simp [on, dependent] at waits
  · exact absurd placed.alone waits

variable {switches : Bool}

theorem wake_effect {isCurr : Bool} (sound : Sound u)
    (ok : wake u isCurr = some (v, switches)) : WakeEffect u switches v := by
  unfold wake at ok
  rw [bind_eq_some_iff] at ok
  obtain ⟨w, bumped, ok⟩ := ok
  obtain rfl := fpPreWakeup_eq bumped
  dsimp only at ok
  split at ok
  next d waits =>
    split at ok
    · cases ok
      exact .released (by simp [waits])
    · contradiction
  next alone =>
    split at ok
    · contradiction
    rename_i free
    split at ok
    next awake =>
      cases ok
      exact .later awake (by simpa using free) alone
    rename_i asleep
    have asleep : u.blocked := by simpa using asleep
    have zero := sound.sleeps asleep
    simp only [zero, asleep] at ok
    cases ok
    exact .woken asleep

variable {s s' : State} {curr : Nat} {t : Thd} {spd : Spd}

theorem componentTake_effect (ok : componentTake s curr t spd = some s') : TakeEffect s curr t spd s' := by
  unfold componentTake at ok
  split at ok
  · contradiction
  split at ok
  next free =>
    cases ok
    exact .taken free
  rename_i h holds
  split at ok
  next own =>
    cases ok
    exact .held (own ▸ holds)
  rename_i other
  split at ok
  next checks =>
    cases ok
    rw [Bool.and_eq_true, any_eq_true] at checks
    obtain ⟨⟨u, known, awake⟩, -⟩ := checks
    exact .contended h u holds other known (by simpa using awake)
  · contradiction

/-- At the label `done` the wake count is one. -/
theorem blockDone_eq {ret : Int} (ok : blockDone s curr t ret = some s') :
    s' = s.returns curr { t with wakeCnt := 1 } ret ∧ t.dependent = false := by
  unfold blockDone at ok
  by_cases two : t.wakeCnt = 2
  · simp only [two, if_true] at ok
    split at ok
    · contradiction
    next free =>
      cases ok
      exact ⟨rfl, by simpa using free⟩
  · simp only [two, if_false] at ok
    split at ok
    · contradiction
    rename_i checks
    cases ok
    push Not at checks
    obtain ⟨one, free⟩ := checks
    refine ⟨?_, by simpa using free⟩
    rw [← one]

theorem unblock_eq (ok : unblock s curr t = some s') : s' = s.returns curr { t with wakeCnt := 1 } (-1) := by
  unfold unblock at ok
  rw [bind_eq_some_iff] at ok
  obtain ⟨w, bumped, ok⟩ := ok
  obtain rfl := fpPreWakeup_eq bumped
  exact (blockDone_eq ok).1

theorem schedBlock_effect {d : Nat} {onCore : Bool} (sound : Sound t) (calm : Calm t)
    (ok : schedBlock s curr t spd d onCore = some s') : CallEffect s curr t (.block spd d onCore) s' := by
  unfold schedBlock at ok
  split at ok
  next self =>
    cases ok
    subst self
    exact .blockSelf spd onCore
  rename_i other
  split at ok
  next holding =>
    obtain ⟨rfl, -⟩ := blockDone_eq ok
    exact .blockHolding spd d onCore holding
  rename_i without
  have without : t.ncsHeld = 0 := by simpa using without
  -- a thread that runs has no blocking component
  rw [if_neg (by simp [sound.component calm.awake]), if_neg (by simp [calm.awake]), bind_eq_some_iff] at ok
  obtain ⟨w, lowered, ok⟩ := ok
  simp only [fpPreBlock, ite_none_left_eq_some, some.injEq] at lowered
  obtain ⟨range, rfl⟩ := lowered
  dsimp only at ok
  split at ok
  next pending =>
    split at ok
    next one =>
      cases ok
      have two : t.wakeCnt = 2 := by omega
      rw [one]
      exact .blockEarly spd d onCore two
    · contradiction
  next none =>
    have one : t.wakeCnt = 1 := by have := calm.live; omega
    have zero : t.wakeCnt - 1 = 0 := by omega
    rw [zero] at ok
    split at ok
    next dependency =>
      obtain ⟨-, onCore⟩ := dependency
      subst onCore
      unfold blockOn at ok
      split at ok
      · rw [unblock_eq ok]
        exact .blockRefused spd d true one
      rename_i dep known
      split at ok
      · contradiction
      rename_i apart
      split at ok
      · rw [unblock_eq ok]
        exact .blockRefused spd d true one
      next awake =>
        cases ok
        exact .blockOn spd d dep one without other known (by simpa using awake) apart
    · simp only [calm.awake] at ok
      cases ok
      exact .blockAsleep spd d onCore one without

theorem blockWoken_eq (ok : blockWoken s curr t = some s') :
    ∃ ret, 0 ≤ ret ∧ s' = s.returns curr { t with wakeCnt := 1 } ret := by
  unfold blockWoken at ok
  by_cases two : t.wakeCnt = 2
  · simp only [two] at ok
    exact ⟨_, le_max_left _ _, (blockDone_eq ok).1⟩
  · simp only [two, if_false] at ok
    split at ok
    · contradiction
    · exact ⟨_, le_max_left _ _, (blockDone_eq ok).1⟩

theorem blockResumed_effect {dependency : Option Nat} (sound : Sound t)
    (awake : t.blocked = false) (place : t.pc = .blocking dependency)
    (ok : blockResumed s curr t dependency = some s') : ResumeEffect s curr t s' := by
  have placed := sound.placed
  unfold Placed at placed
  rw [place] at placed
  unfold blockResumed at ok
  cases dependency with
  | none =>
    rw [if_pos (placed.1.live awake).ne'] at ok
    obtain ⟨ret, pos, rfl⟩ := blockWoken_eq ok
    exact .woken none place placed.1.free placed.1.alone ret pos
  | some d =>
    dsimp only at placed ok
    split at ok
    next waits =>
      rw [unblock_eq ok]
      exact .refused d place waits
    rename_i free
    have free : t.dependent = false := by simpa using free
    have woken := placed.1.live free
    have alone := placed.1.on
    simp only [free] at alone
    rw [if_pos (by omega)] at ok
    obtain ⟨ret, pos, rfl⟩ := blockWoken_eq ok
    exact .woken (some d) place free alone ret pos

theorem State.set_set (s : State) (id : Nat) (t u : Thd) : (s.set id t).set id u = s.set id u := by
  simp [State.set]

theorem schedWakeup_effect {target : Nat} (regular : Regular s) (known : s.thd curr = some t) (calm : Calm t)
    (ok : schedWakeup s curr target t = some s') : CallEffect s curr t (.wakeup target) s' := by
  unfold schedWakeup at ok
  split at ok
  next missing =>
    cases ok
    exact .wakeMissing target missing
  rename_i u found
  rw [map_eq_some_iff] at ok
  obtain ⟨⟨v, switches⟩, waken, ok⟩ := ok
  have effect := wake_effect (regular.sound target u found) waken
  dsimp only at ok
  by_cases self : target = curr
  · subst self
    rw [known] at found
    cases found
    cases effect with
    | later =>
      simp only [State.returns, State.set_set] at ok
      subst ok
      exact .wakeSelf
    | released waits => exact absurd calm.alone waits
    | woken asleep => simp [calm.awake] at asleep
  · rw [if_neg self] at ok
    cases switches with
    | false =>
      cases ok
      exact .wakeLater target u v self found effect
    | true =>
      cases ok
      exact .wakeNow target u v self found effect

/-- `sched_timeout` only changes the wakeup time before it blocks. -/
theorem timeout_named (s : State) (amnt : Nat) : ∃ time, (if s.wakeupTime = 0 ∨ s.ticks + amnt < s.wakeupTime then
      { s with wakeupTime := s.ticks + amnt } else s) = { s with wakeupTime := time } := by
  split
  · exact ⟨_, rfl⟩
  · exact ⟨s.wakeupTime, rfl⟩

theorem schedTimeout_effect {amnt : Nat} {self : Spd} (calm : Calm t)
    (ok : schedTimeout s curr t self amnt = some s') : CallEffect s curr t (.timeout self amnt) s' := by
  unfold schedTimeout at ok
  split at ok
  · cases ok
    exact .timeoutSet self amnt s.wakeupTime
  rename_i later
  obtain ⟨time, named⟩ := timeout_named s amnt
  dsimp only at ok
  rw [named] at ok
  split at ok
  · cases ok
    exact .timeoutSet self amnt time
  rename_i chosen
  have chosen : s.wakeupThd = some curr := by simpa using chosen
  rw [bind_eq_some_iff] at ok
  obtain ⟨w, lowered, ok⟩ := ok
  simp only [fpPreBlock, ite_none_left_eq_some, some.injEq] at lowered
  obtain ⟨range, rfl⟩ := lowered
  dsimp only at ok
  split at ok
  next pending =>
    split at ok
    next one =>
      cases ok
      rw [one]
      exact .timeoutEarly self amnt time ⟨chosen, later⟩ (by omega)
    · contradiction
  · have zero : t.wakeCnt - 1 = 0 := by omega
    simp only [zero, calm.awake] at ok
    cases ok
    exact .timeoutAsleep self amnt time ⟨chosen, later⟩ (by omega)

theorem componentRelease_effect
    (ok : componentRelease s curr t spd = some s') : CallEffect s curr t (.release spd) s' := by
  unfold componentRelease at ok
  split at ok
  · cases ok
    exact .releaseNothing spd
  rename_i h holds
  split at ok
  · contradiction
  next checks =>
    cases ok
    push Not at checks
    exact .release spd (checks.2.1 ▸ holds)

/-- The labels of a thread's calls. -/
def isCall : Label → Bool
  | .create _ => false
  | .dispatch _ _ => false
  | .resume => false
  | .tick => false
  | _ => true

variable {label : Label}

theorem call_effect (regular : Regular s) (known : s.thd curr = some t) (place : t.pc = .user)
    (calls : isCall label) (ok : call s curr t label = some s') : CallEffect s curr t label s' := by
  have sound := regular.sound curr t known
  have calm := sound.calm (.inl place)
  cases label with
  | block => exact schedBlock_effect sound calm ok
  | wakeup => exact schedWakeup_effect regular known calm ok
  | take spd => exact .take spd s' (componentTake_effect ok)
  | release => exact componentRelease_effect ok
  | timeout => exact schedTimeout_effect calm ok
  | timeoutThd =>
    cases ok
    exact .timeoutThd
  | create id | dispatch id fuel | resume | tick => contradiction

theorem resume_effect (sound : Sound t) (awake : t.blocked = false)
    (inside : t.pc ≠ .user) (ok : resume s curr t = some s') : ResumeEffect s curr t s' := by
  unfold resume at ok
  split at ok
  next place => exact absurd place inside
  next dependency place => exact blockResumed_effect sound awake place ok
  next spd place => exact .take spd place s' (componentTake_effect ok)
  next place =>
    split at ok
    · contradiction
    · cases ok
      exact .back (.inl place) 0
  next place =>
    cases ok
    exact .back (.inr place) t.ret

/-- The walk ends at a thread without a dependency. -/
theorem dependencyLoop_eq {fuel p : Nat} {dep : Option Nat} (ok : dependencyLoop s curr fuel p = some (s', dep)) :
    ∃ q t, s.thd q = some t ∧ s.next q = none ∧ s' = s.set q t.undepend ∧
      dep = if t.blocked = false ∧ q ≠ curr then some q else none := by
  induction fuel generalizing p with
  | zero => contradiction
  | succ fuel ih =>
    unfold dependencyLoop at ok
    split at ok
    next d _ => exact ih ok
    next last =>
      rw [map_eq_some_iff] at ok
      obtain ⟨t, known, same⟩ := ok
      cases same
      exact ⟨p, t, known, last, rfl, rfl⟩

variable {id : Nat}

theorem dispatch_effect {fuel : Nat} (ok : dispatch s id fuel = some s') : Effect s (.dispatch id fuel) s' := by
  unfold dispatch at ok
  split at ok
  · contradiction
  rename_i u picked
  split at ok
  · contradiction
  rename_i awake
  rw [map_eq_some_iff] at ok
  obtain ⟨⟨s1, dep⟩, walked, rfl⟩ := ok
  obtain ⟨q, t, known, last, rfl, rfl⟩ := dependencyLoop_eq walked
  refine .dispatch id fuel q t known last _ ?_
  split
  next ready => exact ⟨t, by simpa using known, ready.1⟩
  · exact ⟨u, by simpa using picked, by simpa using awake⟩

theorem schedTimerTick_effect (regular : Regular s) (ok : schedTimerTick s = some s') : Effect s .tick s' := by
  unfold schedTimerTick schedProcessWakeups at ok
  rw [map_eq_some_iff] at ok
  obtain ⟨s1, processed, rfl⟩ := ok
  split at processed
  · cases processed
    exact .tick
  rename_i id chosen
  split at processed
  · cases processed
    exact .tick
  rename_i u known
  split at processed
  · cases processed
    exact .tick
  rename_i due
  split at processed
  · split at processed
    · contradiction
    · cases processed
      exact .tick
  next few =>
    have sound := regular.sound id u known
    rw [fpPreWakeup_ok (by omega), bind_some, map_eq_some_iff] at processed
    obtain ⟨v, woken, rfl⟩ := processed
    have record : v = { u with wakeCnt := bump u.wakeCnt, blocked := false, blockingComponent := none } := by
      cases asleep : u.blocked with
      | true =>
        have zero := sound.sleeps asleep
        simp only [asleep, zero, bump] at woken
        cases woken
        rw [zero]
        rfl
      | false =>
        simp only [asleep, Bool.false_eq_true, if_false, some.injEq] at woken
        rw [← woken, ← sound.component asleep]
    subst record
    exact .timeout id u chosen known (by push Not at due; exact due)

/-- The function of a step fails an assertion. -/
inductive Fails (s : State) : Label → Prop where
  | tick (failed : schedTimerTick s = none) : Fails s .tick
  | resume (curr : Nat) (t : Thd) (on : s.current = some curr) (known : s.thd curr = some t)
      (failed : Source.Sched.Blocking.resume s curr t = none) : Fails s .resume
  | call (curr : Nat) (t : Thd) (label : Label) (on : s.current = some curr) (known : s.thd curr = some t)
      (place : t.pc = .user) (failed : Source.Sched.Blocking.call s curr t label = none) : Fails s label

/-- A step either has the effect of its function or fails an assertion. -/
theorem after_effect {result : Option State} (effect : ∀ s', result = some s' → Effect s label s')
    (fails : result = none → Fails s label) :
    Effect s label (s.after result) ∨ s.after result = { s with failed := true } ∧ Fails s label := by
  cases result with
  | none => exact .inr ⟨rfl, fails rfl⟩
  | some s' => exact .inl (effect s' rfl)

/-- A call is made by the thread on the core, outside of the scheduler. -/
theorem step_call (calls : isCall label) (taken : step s label = some s') :
    s.failed = false ∧ ∃ curr t, s.current = some curr ∧ s.thd curr = some t ∧ t.pc = .user ∧
      s' = s.after (call s curr t label) := by
  unfold step at taken
  split at taken
  · contradiction
  rename_i going
  refine ⟨by simpa using going, ?_⟩
  cases on : s.current with
  | none => cases label <;> simp only [on] at taken <;> contradiction
  | some curr =>
    have common : ((s.thd curr).bind fun t =>
        if t.pc = .user then some (s.after (call s curr t label)) else none) = some s' := by
      cases label <;> first | contradiction | simpa only [on] using taken
    rw [bind_eq_some_iff] at common
    obtain ⟨t, known, common⟩ := common
    split at common
    next place =>
      cases common
      exact ⟨curr, t, rfl, known, place, rfl⟩
    · contradiction

/-- What a step does is one of the effects, if no assertion fails. -/
theorem step_effect (regular : Regular s) (taken : step s label = some s') :
    s.failed = false ∧ (Effect s label s' ∨ s' = { s with failed := true } ∧ Fails s label) := by
  cases calls : isCall label with
  | true =>
    obtain ⟨going, curr, t, on, known, place, rfl⟩ := step_call calls taken
    refine ⟨going, after_effect (fun s' ok => ?_) (.call curr t label on known place)⟩
    exact .call curr t label s' on known place (call_effect regular known place calls ok)
  | false =>
    unfold step at taken
    split at taken
    · contradiction
    rename_i going
    refine ⟨by simpa using going, ?_⟩
    cases label with
    | create id =>
      dsimp only at taken
      split at taken
      · contradiction
      next checks =>
        cases taken
        push Not at checks
        exact .inl (.create id checks.2.2)
    | dispatch => exact .inl (dispatch_effect taken)
    | tick =>
      cases taken
      exact after_effect (fun s' ok => schedTimerTick_effect regular ok) .tick
    | resume =>
      dsimp only at taken
      split at taken
      · contradiction
      rename_i curr on
      rw [bind_eq_some_iff] at taken
      obtain ⟨t, known, taken⟩ := taken
      split at taken
      · contradiction
      rename_i inside
      cases taken
      refine after_effect (fun s' ok => ?_) (.resume curr t on known)
      exact .resume curr t s' on known
        (resume_effect (regular.sound curr t known) (regular.awake on known) inside ok)
    | _ => contradiction

theorem TakeEffect.going (effect : TakeEffect s curr t spd s') : s'.failed = s.failed := by
  cases effect <;> rfl

theorem CallEffect.going (effect : CallEffect s curr t label s') : s'.failed = s.failed := by
  cases effect with
  | take spd s' effect => exact effect.going
  | _ => rfl

theorem ResumeEffect.going (effect : ResumeEffect s curr t s') : s'.failed = s.failed := by
  cases effect with
  | take spd place s' effect => exact effect.going
  | _ => rfl

theorem Effect.going (effect : Effect s label s') : s'.failed = s.failed := by
  cases effect with
  | call _ _ _ _ _ _ _ effect | resume _ _ _ _ _ effect => exact effect.going
  | _ => rfl

/-! ## The invariant of the records -/

theorem Calm.placed (calm : Calm t) (place : t.pc = .user) : Placed t := by
  unfold Placed
  rw [place]
  exact calm

theorem bump_two {n : Nat} (two : n = 2) : bump n = 2 := by
  subst two
  rfl

theorem bump_bounds (n : Nat) : 0 < bump n ∧ bump n ≤ 2 := by
  unfold bump
  omega

/-- The record of the timeout thread stays sound when its time comes. -/
theorem Sound.timeout (sound : Sound u) :
    Sound { u with wakeCnt := bump u.wakeCnt, blocked := false, blockingComponent := none } := by
  have placed := sound.placed
  have bounds := bump_bounds u.wakeCnt
  refine ⟨bounds.2, ?_, fun _ => rfl⟩
  have rested : Resting u →
      Resting { u with wakeCnt := bump u.wakeCnt, blocked := false, blockingComponent := none } := fun resting =>
    ⟨resting.free, resting.alone, resting.uncontended, by simp only [Bool.false_eq_true, false_iff]; omega⟩
  unfold Placed at placed ⊢
  dsimp only
  split at placed
  · exact ⟨rfl, placed.free, placed.alone, placed.uncontended, bounds.1⟩
  · exact ⟨rfl, placed.free, placed.alone, placed.uncontended, bounds.1⟩
  · exact rested placed
  · exact ⟨rested placed.1, placed.2⟩
  · exact ⟨⟨rfl, placed.1.on, placed.1.uncontended, fun _ => bounds.1⟩, placed.2⟩
  · exact ⟨rfl, placed.alone, placed.contended, bounds.1⟩

/-- A woken record stays sound. -/
theorem WakeEffect.sound (sound : Sound u) (effect : WakeEffect u switches v) : Sound v := by
  have woken := sound.timeout
  cases effect with
  | later awake =>
    rwa [← awake, ← sound.component awake] at woken
  | released waits =>
    obtain ⟨d, place, -⟩ := sound.waits waits
    have placed := sound.placed
    have bounds := bump_bounds u.wakeCnt
    refine ⟨bounds.2, ?_, sound.component⟩
    unfold Placed at placed ⊢
    rw [place] at placed ⊢
    exact ⟨⟨placed.1.awake, rfl, placed.1.uncontended, fun _ => bounds.1⟩, placed.2⟩
  | woken asleep =>
    rwa [sound.sleeps asleep] at woken

theorem undepend_pc (t : Thd) : t.undepend.pc = t.pc := by
  unfold Thd.undepend
  split <;> rfl

theorem undepend_blocked (t : Thd) : t.undepend.blocked = t.blocked := by
  unfold Thd.undepend
  split <;> rfl

/-- A thread that outlives its dependency stays sound. -/
theorem Sound.undepend (sound : Sound u) (last : dependsOn s u = none) : Sound u.undepend := by
  unfold Thd.undepend
  split
  next dependent =>
    refine ⟨sound.atMost, ?_, sound.component⟩
    have placed := sound.placed
    unfold Placed at placed ⊢
    dsimp only
    split at placed
    · exact absurd placed.free (by simp [dependent])
    · exact absurd placed.free (by simp [dependent])
    · exact absurd placed.free (by simp [dependent])
    · exact absurd placed.1.free (by simp [dependent])
    · have on := placed.1.on
      simp [dependsOn, dependent, on] at last
    · exact ⟨placed.awake, placed.alone, rfl, placed.live⟩
  · exact sound

variable {i : Nat} {guard : State → Label → Prop}

variable (inv : Regular s)
include inv

theorem Regular.set (sound : Sound v) (awake : s.current = some id → v.blocked = false)
    (apart : ∀ spd, v.pc = .taking spd → s.holder spd ≠ some id) : Regular (s.set id v) := by
  constructor
  · intro i t known
    obtain ⟨rfl, rfl⟩ | ⟨-, known⟩ := update_known known
    · exact sound
    · exact inv.sound i t known
  · intro i on
    by_cases same : i = id
    · subst same
      exact ⟨v, by simp [State.set], awake on⟩
    · obtain ⟨t, known, awake⟩ := inv.running i on
      exact ⟨t, by simpa [State.set, update_of_ne same] using known, awake⟩
  · intro i t spd known place
    obtain ⟨rfl, rfl⟩ | ⟨-, known⟩ := update_known known
    · exact apart spd place
    · exact inv.apart i t spd known place

/-- A record is changed where it is. -/
theorem Regular.change (known : s.thd id = some u) (sound : Sound v) (place : v.pc = u.pc)
    (awake : u.blocked = false → v.blocked = false) : Regular (s.set id v) := by
  refine inv.set sound ?_ ?_
  · intro on
    exact awake (inv.awake on known)
  · intro spd taking
    exact inv.apart id u spd known (place ▸ taking)

/-- Only the map of threads, the holders and the thread on the core are read by the invariant. -/
theorem Regular.congr (map : s'.thd = s.thd) (core : s'.current = s.current ∨ s'.current = none)
    (holders : ∀ spd id, s'.holder spd = some id → s.holder spd = some id) : Regular s' := by
  constructor
  · intro id t known
    exact inv.sound id t (map ▸ known)
  · intro id on
    rcases core with core | core
    · obtain ⟨t, known, awake⟩ := inv.running id (core ▸ on)
      exact ⟨t, map ▸ known, awake⟩
    · rw [core] at on
      contradiction
  · intro id t spd known place holds
    exact inv.apart id t spd (map ▸ known) place (holders spd id holds)

theorem Regular.returns (calm : Calm t) (atMost : t.wakeCnt ≤ 2)
    (component : t.blockingComponent = none) (ret : Int) : Regular (s.returns curr t ret) := by
  have sound : Sound { t with pc := .user, ret } := ⟨atMost, { calm with }, fun _ => component⟩
  exact inv.set sound (fun _ => calm.awake) (by simp)

theorem Regular.switch {pc : Pc}
    (sound : Sound { t with pc }) (apart : ∀ spd, pc = .taking spd → s.holder spd ≠ some curr) :
    Regular (s.switch curr t pc) := by
  have paused : Regular { s with current := none } := inv.congr rfl (.inr rfl) (fun _ _ => id)
  exact paused.set sound (by simp) apart

/-- The thread that takes a free critical section does not wait for it any more. -/
theorem Regular.taken (sound : Sound t) (awake : t.blocked = false) (place : t.pc = .user) :
    Regular { s.set curr t with holder := update s.holder spd (some curr) } := by
  have placed : Regular (s.set curr t) := inv.set sound (fun _ => awake) (by simp [place])
  constructor
  · exact placed.sound
  · exact placed.running
  intro i u other known taking holds
  obtain ⟨rfl, rfl⟩ | ⟨-, holds⟩ := update_known holds
  · obtain ⟨-, rfl⟩ | ⟨apart, -⟩ := update_known known
    · simp [place] at taking
    · exact apart rfl
  · exact placed.apart i u other known taking holds

theorem TakeEffect.regular (known : s.thd curr = some t)
    (place : t.pc = .user ∨ t.pc = .taking spd) (effect : TakeEffect s curr t spd s') : Regular s' := by
  have sound := inv.sound curr t known
  have quiet : t.blocked = false ∧ t.dependencyThd = none ∧ 0 < t.wakeCnt := by
    rcases place with place | place
    · have calm := sound.calm (.inl place)
      exact ⟨calm.awake, calm.alone, calm.live⟩
    · have placed := sound.placed
      unfold Placed at placed
      rw [place] at placed
      exact ⟨placed.awake, placed.alone, placed.live⟩
  obtain ⟨awake, alone, live⟩ := quiet
  have component := sound.component awake
  cases effect with
  | taken =>
    refine Regular.taken inv ⟨sound.atMost, ?_, fun _ => component⟩ awake rfl
    exact ⟨awake, rfl, alone, rfl, live⟩
  | held own =>
    have place := place.resolve_right fun taking => inv.apart curr t spd known taking own
    have calm := sound.calm (.inl place)
    refine Regular.returns inv ?_ ?_ ?_ 0
    · exact ⟨awake, rfl, alone, calm.uncontended, live⟩
    · exact sound.atMost
    · exact component
  | contended h u holds other =>
    refine inv.switch ⟨sound.atMost, ⟨awake, alone, rfl, live⟩, fun _ => component⟩ ?_
    intro wanted same
    cases same
    rw [holds]
    simpa using other

theorem CallEffect.regular
    (known : s.thd curr = some t) (place : t.pc = .user) (effect : CallEffect s curr t label s') : Regular s' := by
  have sound := inv.sound curr t known
  have calm := sound.calm (.inl place)
  have component := sound.component calm.awake
  -- a calm record stays calm when only counters are written
  have counted : ∀ count time, 0 < count → Calm { t with wakeCnt := count, blockTime := time } :=
    fun count time pos => ⟨calm.awake, calm.free, calm.alone, calm.uncontended, pos⟩
  cases effect with
  | blockSelf => exact inv.returns calm sound.atMost component _
  | blockHolding =>
    exact Regular.returns inv (counted 1 t.blockTime (by decide)) (by simp) component _
  | blockEarly spd d onCore pending | blockRefused spd d onCore nothing =>
    exact Regular.returns inv (counted 1 s.ticks (by decide)) (by simp) component _
  | blockOn spd d dep nothing without =>
    refine Regular.switch inv ⟨by simp, ⟨⟨calm.awake, rfl, calm.uncontended, ?_⟩, without⟩,
      fun _ => component⟩ (by simp)
    simp
  | blockAsleep spd d onCore nothing without =>
    refine Regular.switch inv ⟨by simp, ⟨⟨calm.free, calm.alone, calm.uncontended, ?_⟩, without⟩,
      by simp⟩ (by simp)
    simp
  | wakeMissing => exact inv.returns calm sound.atMost component _
  | wakeSelf =>
    have bounds := bump_bounds t.wakeCnt
    exact Regular.returns inv (counted _ t.blockTime bounds.1) bounds.2 component _
  | wakeLater target u v other found woken =>
    have changed : Regular (s.set target v) := by
      cases woken with
      | later awake free alone =>
        exact inv.change found (WakeEffect.sound (inv.sound target u found) (.later awake free alone)) rfl id
    exact changed.returns calm sound.atMost component _
  | wakeNow target u v other found woken =>
    have sound' := woken.sound (inv.sound target u found)
    have changed : Regular (s.set target v) := by
      cases woken with
      | released => exact inv.change found sound' rfl id
      | woken => exact inv.change found sound' rfl fun _ => rfl
    refine Regular.switch changed ⟨sound.atMost, ⟨calm.free, calm.alone, calm.uncontended, ?_⟩,
      fun _ => component⟩ (by simp)
    have live := calm.live
    simp only [calm.awake, Bool.false_eq_true, false_iff]
    omega
  | take spd s' effect => exact effect.regular inv known (.inl place)
  | releaseNothing =>
    exact Regular.switch inv ⟨sound.atMost, { calm with }, fun _ => component⟩ (by simp)
  | release spd =>
    have freed : Regular { s with holder := update s.holder spd none } :=
      inv.congr rfl (.inl rfl) fun other id holds => (erase_known holds).2
    exact Regular.switch freed ⟨sound.atMost, { calm with }, fun _ => component⟩ (by simp)
  | timeoutSet => exact inv.congr rfl (.inl rfl) fun _ _ => id
  | timeoutEarly self amnt time =>
    have timed : Regular { s with wakeupTime := time } := inv.congr rfl (.inl rfl) fun _ _ => id
    refine timed.change known ⟨by simp, ?_, fun _ => component⟩ rfl (id)
    exact (counted 1 s.ticks (by decide)).placed place
  | timeoutAsleep self amnt time =>
    have timed : Regular { s with wakeupTime := time } := inv.congr rfl (.inl rfl) fun _ _ => id
    refine Regular.switch timed ⟨by simp, ⟨calm.free, calm.alone, calm.uncontended, ?_⟩, by simp⟩ (by simp)
    simp
  | timeoutThd =>
    have named : Regular { s with wakeupThd := some curr } := inv.congr rfl (.inl rfl) fun _ _ => id
    exact named.returns calm sound.atMost component _

theorem ResumeEffect.regular
    (known : s.thd curr = some t) (awake : t.blocked = false) (effect : ResumeEffect s curr t s') : Regular s' := by
  have sound := inv.sound curr t known
  have placed := sound.placed
  have component := sound.component awake
  unfold Placed at placed
  cases effect with
  | refused d place =>
    rw [place] at placed
    refine Regular.returns inv ?_ ?_ ?_ _
    · exact ⟨awake, rfl, rfl, placed.1.uncontended, Nat.one_pos⟩
    · exact Nat.le_succ 1
    · exact component
  | woken dependency place free alone =>
    have uncontended : t.contendedComponent = none := by
      rw [place] at placed
      cases dependency with
      | none | some d => exact placed.1.uncontended
    refine Regular.returns inv ?_ ?_ ?_ _
    · exact ⟨awake, free, alone, uncontended, Nat.one_pos⟩
    · exact Nat.le_succ 1
    · exact component
  | take spd place s' effect => exact effect.regular inv known (.inr place)
  | back place =>
    have calm : Calm t := by
      rcases place with place | place <;> rw [place] at placed
      · exact placed
      · exact ⟨awake, placed.free, placed.alone, placed.uncontended, placed.live awake⟩
    exact inv.returns calm sound.atMost component _

theorem Effect.regular (effect : Effect s label s') : Regular s' := by
  cases effect with
  | create =>
    refine inv.set ⟨by decide, ⟨rfl, rfl, rfl, rfl, Nat.one_pos⟩, fun _ => rfl⟩ (fun _ => rfl) ?_
    simp [Thd.init]
  | dispatch id fuel p t known last run ready =>
    have last : dependsOn s t = none := by simpa [State.next, known] using last
    have left :=
      inv.change known ((inv.sound p t known).undepend last) (undepend_pc t) (by simp [undepend_blocked])
    refine ⟨left.sound, ?_, left.apart⟩
    intro i on
    cases on
    obtain ⟨u, found, awake⟩ := ready
    by_cases same : run = p
    · subst same
      rw [known] at found
      cases found
      exact ⟨t.undepend, by simp [State.set], by simpa [undepend_blocked] using awake⟩
    · exact ⟨u, by simpa [State.set, update_of_ne same] using found, awake⟩
  | tick => exact inv.congr rfl (.inr rfl) fun _ _ => id
  | timeout id u chosen known =>
    have woken := inv.change known (inv.sound id u known).timeout rfl fun _ => rfl
    exact woken.congr rfl (.inr rfl) fun _ _ holds => holds
  | call curr t label s' on known place effect => exact effect.regular inv known place
  | resume curr t s' on known effect => exact effect.regular inv known (inv.awake on known)

theorem step_regular (taken : step s label = some s') : Regular s' := by
  rcases (step_effect inv taken).2 with effect | ⟨rfl, -⟩
  · exact effect.regular inv
  · exact inv.congr rfl (.inl rfl) fun _ _ => id

omit inv

theorem reachable_regular (reached : Reachable scheduler guard s) : Regular s := by
  refine reached.invariant Regular ?_ ?_
  · exact ⟨by simp [scheduler, State.init], by simp [scheduler, State.init], by simp [scheduler, State.init]⟩
  · intro s label s' regular _ taken
    exact step_regular regular taken

/-! ## What a step changes -/

/-- A second wakeup stays pending outside of `sched_block`, unless the thread makes a blocking call. -/
def Pends (s : State) (label : Label) (id : Nat) (v : Thd) : Prop :=
  ∀ u, s.thd id = some u → u.wakeCnt = 2 → (∀ d, u.pc ≠ .blocking d) →
    (v.wakeCnt = 2 ∧ ∀ d, v.pc ≠ .blocking d) ∨ s.current = some id ∧ ((∃ spd d onCore, label = .block spd d onCore) ∨
      ∃ self amnt, label = .timeout self amnt ∧ s.wakeupThd = some id ∧ amnt ≠ 0)

/-- A record counts the critical sections that the thread's record counted, and none if it sleeps. -/
structure Held (s : State) (label : Label) (id : Nat) (v : Thd) : Prop where
  held : v.ncsHeld = (s.thd id).elim 0 Thd.ncsHeld
  rests : v.blocked = true → v.ncsHeld = 0 ∨ ∃ self amnt, label = .timeout self amnt ∧ s.current = some id ∧
    s.wakeupThd = some id ∧ amnt ≠ 0
  pends : Pends s label id v

/-- A record that depends on nothing. -/
structure Plain (s : State) (label : Label) (id : Nat) (v : Thd) : Prop extends Held s label id v where
  free : v.dependent = false
  alone : v.dependencyThd = none

/-- What a record depends on. -/
inductive Waits (s : State) (label : Label) (id : Nat) (v : Thd) : Prop where
  | thread (spd : Spd) (d : Nat) (calls : label = .block spd d true) (on : s.current = some id) (other : d ≠ id)
      (known : s.thd d ≠ none) (depends : v.dependent = true ∧ v.dependencyThd = some d) (idle : v.wakeCnt = 0)
  | critical (t : Thd) (spd : Spd) (h : Nat) (calls : label = .take spd ∨ label = .resume ∧ t.pc = .taking spd)
      (on : s.current = some id) (known : s.thd id = some t) (holds : s.holder spd = some h) (other : h ≠ id)
      (depends : v.dependent = true ∧ v.dependencyThd = none ∧ v.contendedComponent = some spd)
  | timeout (u : Thd) (calls : label = .tick) (chosen : s.wakeupThd = some id) (known : s.thd id = some u)
      (due : s.wakeupTime ≠ 0 ∧ s.wakeupTime ≤ s.ticks + 2)
      (same : v.dependent = u.dependent ∧ v.dependencyThd = u.dependencyThd ∧
        v.contendedComponent = u.contendedComponent)

/-- What a step does to dependencies and critical sections. -/
inductive Change (s : State) (label : Label) (s' : State) : Prop where
  | records (map : ∀ id, s'.thd id = s.thd id ∨ ∃ v, s'.thd id = some v ∧ Plain s label id v)
      (holders : s'.holder = s.holder)
  | waits (id : Nat) (v : Thd) (map : s'.thd = update s.thd id (some v)) (holders : s'.holder = s.holder)
      (held : Held s label id v) (depends : Waits s label id v)
  /-- A critical section is taken or given back. -/
  | hands (id : Nat) (t v : Thd) (spd : Spd) (h : Option Nat) (map : s'.thd = update s.thd id (some v))
      (holders : s'.holder = update s.holder spd h) (known : s.thd id = some t) (awake : v.blocked = false)
      (quiet : v.dependent = false ∧ v.dependencyThd = none) (pends : Pends s label id v)
      (count : s.holder spd = none ∧ h = some id ∧ v.ncsHeld = t.ncsHeld + 1 ∨
        s.holder spd = some id ∧ h = none ∧ v.ncsHeld = t.ncsHeld - 1)

theorem written {P : Nat → Thd → Prop} (map : s'.thd = update s.thd id (some v)) (holds : P id v) (i : Nat) :
    s'.thd i = s.thd i ∨ ∃ v, s'.thd i = some v ∧ P i v := by
  rw [map]
  by_cases same : i = id
  · subst same
    exact .inr ⟨v, update_self .., holds⟩
  · exact .inl (update_of_ne same ..)

theorem Change.one (map : s'.thd = update s.thd id (some v)) (holders : s'.holder = s.holder)
    (plain : Plain s label id v) : Change s label s' :=
  .records (written map plain) holders

theorem pends_of (known : s.thd id = some u) (count : u.wakeCnt = 2 → v.wakeCnt = 2)
    (place : (∀ d, u.pc ≠ .blocking d) → ∀ d, v.pc ≠ .blocking d) : Pends s label id v := by
  intro w same two outside
  cases known.symm.trans same
  exact .inl ⟨count two, place outside⟩

theorem pends_inside {dependency : Option Nat} (known : s.thd id = some u) (place : u.pc = .blocking dependency) :
    Pends s label id v := by
  intro w same _ outside
  cases known.symm.trans same
  exact absurd place (outside dependency)

theorem plain_of (known : s.thd id = some t) (pends : Pends s label id v) (free : v.dependent = false)
    (alone : v.dependencyThd = none) (held : v.ncsHeld = t.ncsHeld) (awake : v.blocked = false) : Plain s label id v :=
  ⟨⟨by simp [known, held], by simp [awake], pends⟩, free, alone⟩

theorem WakeEffect.plain (sound : Sound u) (known : s.thd id = some u) (effect : WakeEffect u switches v) :
    Plain s label id v := by
  cases effect with
  | later awake free alone => exact plain_of known (pends_of known bump_two fun outside => outside) free alone rfl awake
  | released waits =>
    have awake : u.blocked = false := by
      by_contra asleep
      exact waits (sound.resting (by simpa using asleep)).1.alone
    exact plain_of known (pends_of known bump_two fun outside => outside) rfl rfl rfl awake
  | woken asleep =>
    obtain ⟨resting, -⟩ := sound.resting asleep
    have zero := sound.sleeps asleep
    exact plain_of known (pends_of known (by omega) fun outside => outside) resting.free resting.alone rfl rfl

theorem TakeEffect.change (on : s.current = some curr) (known : s.thd curr = some t) (awake : t.blocked = false)
    (alone : t.dependencyThd = none) (calls : label = .take spd ∨ label = .resume ∧ t.pc = .taking spd)
    (effect : TakeEffect s curr t spd s') : Change s label s' := by
  cases effect with
  | taken free =>
    exact .hands curr t _ spd (some curr) rfl rfl known awake ⟨rfl, alone⟩ (pends_of known id nofun)
      (.inl ⟨free, rfl, rfl⟩)
  | held => exact .one rfl rfl (plain_of known (pends_of known id nofun) rfl alone rfl awake)
  | contended h u holds other =>
    exact .waits curr _ rfl rfl ⟨by simp [known], by simp [awake], pends_of known id nofun⟩
      (.critical t spd h calls on known holds other ⟨rfl, alone, rfl⟩)

theorem CallEffect.change (regular : Regular s) (on : s.current = some curr) (known : s.thd curr = some t)
    (calm : Calm t) (effect : CallEffect s curr t label s') : Change s label s' := by
  have plain : ∀ {v : Thd}, Pends s label curr v → v.dependent = t.dependent → v.dependencyThd = t.dependencyThd →
      v.ncsHeld = t.ncsHeld → v.blocked = t.blocked → Plain s label curr v :=
    fun pends free alone held awake => plain_of known pends (free.trans calm.free) (alone.trans calm.alone) held
      (awake.trans calm.awake)
  have blocks : ∀ {spd d onCore v}, label = .block spd d onCore → Pends s label curr v :=
    fun same _ _ _ _ => .inr ⟨on, .inl ⟨_, _, _, same⟩⟩
  cases effect with
  | blockSelf spd onCore | blockHolding spd d onCore holding | blockEarly spd d onCore two
  | blockRefused => exact .one rfl rfl (plain (blocks rfl) rfl rfl rfl rfl)
  | blockOn spd d dep nothing without other found =>
    exact .waits curr _ rfl rfl ⟨by simp [known], by simp [calm.awake], blocks rfl⟩
      (.thread spd d rfl on other (by simp [found]) ⟨rfl, rfl⟩ rfl)
  | blockAsleep spd d onCore nothing without =>
    exact .one rfl rfl ⟨⟨by simp [known], fun _ => .inl without, blocks rfl⟩, calm.free, calm.alone⟩
  | wakeMissing target missing | releaseNothing spd | timeoutThd =>
    exact .one rfl rfl (plain (pends_of known id nofun) rfl rfl rfl rfl)
  | wakeSelf => exact .one rfl rfl (plain (pends_of known bump_two nofun) rfl rfl rfl rfl)
  | wakeLater target u v other found woken | wakeNow target u v other found woken =>
    have record : Plain s (.wakeup target) target v := woken.plain (regular.sound target u found) found
    refine .records (fun i => ?_) rfl
    by_cases own : i = curr
    · subst own
      exact .inr ⟨_, update_self .., plain (pends_of known id nofun) rfl rfl rfl rfl⟩
    · simp only [State.returns, State.switch, State.set, update_of_ne own]
      have map : (s.set target v).thd = update s.thd target (some v) := rfl
      exact written map record i
  | take spd s' effect => exact effect.change on known calm.awake calm.alone (.inl rfl)
  | release spd own =>
    exact .hands curr t _ spd none rfl rfl known calm.awake ⟨calm.free, calm.alone⟩ (pends_of known id nofun)
      (.inr ⟨own, rfl, rfl⟩)
  | timeoutSet => exact .records (fun _ => .inl rfl) rfl
  | timeoutEarly self amnt time chosen =>
    exact .one rfl rfl (plain (fun _ _ _ _ => .inr ⟨on, .inr ⟨self, amnt, rfl, chosen⟩⟩) rfl rfl rfl rfl)
  | timeoutAsleep self amnt time chosen =>
    exact .one rfl rfl ⟨⟨by simp [known], fun _ => .inr ⟨self, amnt, rfl, on, chosen⟩,
      fun _ _ _ _ => .inr ⟨on, .inr ⟨self, amnt, rfl, chosen⟩⟩⟩, calm.free, calm.alone⟩

theorem ResumeEffect.change (sound : Sound t) (on : s.current = some curr) (known : s.thd curr = some t)
    (awake : t.blocked = false) (effect : ResumeEffect s curr t s') : Change s .resume s' := by
  have placed := sound.placed
  unfold Placed at placed
  cases effect with
  | refused d place => exact .one rfl rfl (plain_of known (pends_inside known place) rfl rfl rfl awake)
  | woken dependency place free alone =>
    exact .one rfl rfl (plain_of known (pends_inside known place) free alone rfl awake)
  | take spd place s' effect =>
    rw [place] at placed
    exact effect.change on known awake placed.alone (.inr ⟨rfl, place⟩)
  | back place =>
    have quiet : t.dependent = false ∧ t.dependencyThd = none := by
      rcases place with place | place <;> rw [place] at placed <;> exact ⟨placed.free, placed.alone⟩
    exact .one rfl rfl (plain_of known (pends_of known id nofun) quiet.1 quiet.2 rfl awake)

theorem Effect.change (regular : Regular s) (effect : Effect s label s') : Change s label s' := by
  cases effect with
  | create id fresh => exact .one rfl rfl ⟨⟨by simp [fresh, Thd.init], by simp [Thd.init], by simp [Pends, fresh]⟩, rfl, rfl⟩
  | dispatch id fuel p t known last =>
    have sound := regular.sound p t known
    cases dependent : t.dependent with
    | false =>
      refine .records (fun i => .inl ?_) rfl
      simp [State.set, Thd.undepend, dependent, ← known]
    | true =>
      have alone : t.dependencyThd = none := by
        by_contra waits
        obtain ⟨d, -, -, on, -⟩ := sound.waits waits
        simp [State.next, known, dependsOn, dependent, on] at last
      have awake : t.blocked = false := by
        by_contra asleep
        simp [(sound.resting (by simpa using asleep)).1.free] at dependent
      refine .one rfl rfl (plain_of known (pends_of known ?_ ?_) ?_ ?_ ?_ ?_) <;>
        simp [Thd.undepend, dependent, alone, awake]
  | tick => exact .records (fun _ => .inl rfl) rfl
  | timeout id u chosen known due =>
    exact .waits id _ rfl rfl ⟨by simp [known], by simp, pends_of known bump_two fun outside => outside⟩
      (.timeout u rfl chosen known due ⟨rfl, rfl, rfl⟩)
  | call curr t label s' on known place effect =>
    exact effect.change regular on known ((regular.sound curr t known).calm (.inl place))
  | resume curr t s' on known effect =>
    exact effect.change (regular.sound curr t known) on known (regular.awake on known)

/-- What holds at the start and is kept by every change holds in every state that is reached. -/
theorem reachable_kept {Inv : State → Prop} (start : Inv State.init)
    (failed : ∀ s, Inv s → Inv { s with failed := true })
    (kept : ∀ s label s', Inv s → guard s label → Change s label s' → Inv s')
    (reached : Reachable scheduler guard s) : Inv s := by
  have begins : Reachable scheduler guard scheduler.init := ⟨[], .start⟩
  have both : Regular s ∧ Inv s := by
    refine reached.invariant (fun s => Regular s ∧ Inv s) ⟨reachable_regular begins, start⟩ ?_
    rintro s label s' ⟨regular, inv⟩ allowed taken
    refine ⟨step_regular regular taken, ?_⟩
    rcases (step_effect regular taken).2 with effect | ⟨rfl, -⟩
    · exact kept s label s' inv allowed (effect.change regular)
    · exact failed s inv
  exact both.2

/-! ## Threads that are referred to -/

/-- Dependencies and holders are threads in the map. -/
structure Present (s : State) : Prop where
  dependency : ∀ id t d, s.thd id = some t → t.dependencyThd = some d → s.thd d ≠ none
  holder : ∀ spd id, s.holder spd = some id → s.thd id ≠ none

theorem Change.known (change : Change s label s') (known : s.thd id ≠ none) : s'.thd id ≠ none := by
  cases change with
  | records map =>
    rcases map id with same | ⟨v, same, -⟩
    · rwa [same]
    · simp [same]
  | waits i v map | hands i t v spd h map =>
    exact map ▸ update_present known

/-- A record that depends on a thread did before, or comes to. -/
theorem Change.dependency (change : Change s label s') (found : s'.thd id = some v) (depends : v.dependencyThd ≠ none) :
    s.thd id = some v ∨ Waits s label id v := by
  cases change with
  | records map =>
    rcases map id with same | ⟨w, same, plain⟩
    · exact .inl (same ▸ found)
    · cases same.symm.trans found
      exact absurd plain.alone depends
  | waits i w map _ _ waits =>
    rw [map] at found
    obtain ⟨rfl, rfl⟩ | ⟨-, found⟩ := update_known found
    · exact .inr waits
    · exact .inl found
  | hands i t w spd h map _ _ _ quiet =>
    rw [map] at found
    obtain ⟨-, rfl⟩ | ⟨-, found⟩ := update_known found
    · exact absurd quiet.2 depends
    · exact .inl found

theorem Change.present (present : Present s) (change : Change s label s') : Present s' := by
  have kept : ∀ {i}, s.thd i ≠ none → s'.thd i ≠ none := change.known
  constructor
  · intro id t d found depends
    apply kept
    rcases change.dependency found (by simp [depends]) with before | waits
    · exact present.dependency id t d before depends
    cases waits with
    | thread spd e calls on other known depends' =>
      cases depends'.2.symm.trans depends
      exact known
    | critical t spd h calls on known holds other depends' => nomatch depends'.2.1.symm.trans depends
    | timeout u calls chosen known due same => exact present.dependency id u d known (same.2.1 ▸ depends)
  · intro spd id holds
    cases change with
    | records map holders | waits i v map holders => exact kept (present.holder spd id (holders ▸ holds))
    | hands i t v wanted h map holders known awake quiet _ count =>
      rw [holders] at holds
      by_cases same : spd = wanted
      · subst same
        rw [update_self] at holds
        rcases count with ⟨-, rfl, -⟩ | ⟨-, rfl, -⟩ <;> cases holds
        exact kept (by simp [known])
      · rw [update_of_ne same] at holds
        exact kept (present.holder spd id holds)

theorem reachable_present (reached : Reachable scheduler guard s) : Present s := by
  refine reachable_kept ?_ ?_ ?_ reached
  · exact ⟨by simp [State.init], by simp [State.init]⟩
  · exact fun s present => ⟨present.dependency, present.holder⟩
  · exact fun s label s' present _ change => change.present present

end SuperGlue.Guarantees.SchedulerThreads
