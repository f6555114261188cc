import SuperGlue.Guarantees.SchedulerThreads

/-!
# Wakeups are not lost

The wake count of a thread is 0 while it is blocked, 1 while it runs and 2 when a wakeup came for a block that
has not happened yet. A wakeup that finds its thread outside of `sched_block` stays pending until the thread's
next blocking call, which then returns at once.

A thread that was woken but has not returned from its `sched_block` yet is the exception: a second wakeup is
dropped there, so that the wakeups of a reflection do not add to those that came before the fault.
-/
namespace SuperGlue.Guarantees.SchedulerWakeups
open Function (update update_of_ne update_self)
open Lib.Transition Source.Sched.Blocking SchedulerThreads

/-- The thread waits for another one inside of `sched_block`. -/
def Waiting (t : Thd) : Prop := t.dependencyThd ≠ none

/-- The thread has called `sched_block` and not returned from it. -/
def InBlock (t : Thd) : Prop := ∃ dependency, t.pc = .blocking dependency

variable {t : Thd}

theorem Sound.live (sound : Sound t) (awake : t.blocked = false) (alone : t.dependencyThd = none) : 0 < t.wakeCnt := by
  have placed := sound.placed
  unfold Placed at placed
  split at placed
  · exact placed.live
  · exact placed.live
  · exact placed.live awake
  · exact placed.1.live awake
  · refine placed.1.live ?_
    have on := placed.1.on
    cases dependent : t.dependent with
    | false => rfl
    | true => simp [alone, dependent] at on
  · exact placed.live

/-! ## A pending wakeup -/

/-- A wakeup waits for the thread's next blocking call. -/
def Pending (s : State) (id : Nat) : Prop := ∃ t, s.thd id = some t ∧ t.wakeCnt = 2 ∧ ¬ InBlock t

/-- The thread calls `sched_block`. -/
def blockCall (s : State) (id : Nat) : Label → Prop
  | .block _ _ _ => s.current = some id
  | _ => False

/-- The thread calls `sched_block`, or `sched_timeout` as the timeout thread. -/
def blockingCall (s : State) (id : Nat) : Label → Prop
  | .block _ _ _ => s.current = some id
  | .timeout _ amnt => s.current = some id ∧ s.wakeupThd = some id ∧ amnt ≠ 0
  | _ => False

variable {s s' : State} {id curr : Nat} {u : Thd} {spd : Spd} {label : Label} {onCore : Bool}

theorem outside_user (place : t.pc = .user) : ¬ InBlock t := by
  rintro ⟨dependency, inside⟩
  rw [place] at inside
  contradiction

theorem outside_of (place : u.pc = t.pc) (outside : ¬ InBlock t) : ¬ InBlock u := by
  rintro ⟨dependency, inside⟩
  exact outside ⟨dependency, place ▸ inside⟩

/-- Up to its next blocking call, a thread keeps a pending wakeup. -/
theorem Change.pending (pending : Pending s id) (quiet : ¬ blockingCall s id label) (change : Change s label s') :
    Pending s' id := by
  obtain ⟨t, known, two, outside⟩ := pending
  have kept : s'.thd id = s.thd id ∨ (∃ v, s'.thd id = some v ∧ Pends s label id v) → Pending s' id := by
    rintro (same | ⟨v, found, pends⟩)
    · exact ⟨t, same.trans known, two, outside⟩
    rcases pends t known two fun d inside => outside ⟨d, inside⟩ with ⟨count, place⟩ | ⟨on, blocks⟩
    · exact ⟨v, found, count, fun ⟨d, inside⟩ => place d inside⟩
    · refine absurd ?_ quiet
      rcases blocks with ⟨spd, d, onCore, rfl⟩ | ⟨self, amnt, rfl, chosen⟩
      · exact on
      · exact ⟨on, chosen⟩
  cases change with
  | records map => exact kept ((map id).imp_right fun ⟨v, found, plain⟩ => ⟨v, found, plain.pends⟩)
  | waits i v map holders held => exact kept (written map held.pends id)
  | hands i t v spd h map holders known awake quiet pends => exact kept (written map pends id)

/-! ## The blocking call after it -/

/-- The thread is outside of the scheduler and no assertion has failed. -/
def Returned (s : State) (id : Nat) : Prop :=
  s.failed = false ∧ ∃ t, s.thd id = some t ∧ t.pc = .user ∧ t.blocked = false ∧ ¬ Waiting t

theorem Returned.returns {ret : Int} (going : s.failed = false)
    (calm : Calm t) : Returned (s.returns curr t ret) curr := by
  refine ⟨going, { t with pc := .user, ret }, ?_, rfl, calm.awake, ?_⟩
  · simp [State.returns, State.set]
  · simp [Waiting, calm.alone]

/-- With a pending wakeup `sched_block` returns at once. -/
theorem schedBlock_pending {d : Nat} (sound : Sound t) (calm : Calm t) (two : t.wakeCnt = 2) (going : s.failed = false)
    : ∃ s', schedBlock s curr t spd d onCore = some s' ∧ Returned s' curr := by
  have lowered : ∀ time, Calm { t with wakeCnt := 1, blockTime := time } := fun time =>
    ⟨calm.awake, calm.free, calm.alone, calm.uncontended, Nat.one_pos⟩
  unfold schedBlock
  split
  · exact ⟨_, rfl, .returns going calm⟩
  split
  · refine ⟨s.returns curr { t with wakeCnt := 1 } (-1), ?_, .returns going (lowered t.blockTime)⟩
    simp [blockDone, two, calm.free]
  · rw [if_neg (by simp [sound.component calm.awake]), if_neg (by simp [calm.awake])]
    refine ⟨s.returns curr { t with wakeCnt := 1, blockTime := s.ticks } 0, ?_, .returns going (lowered s.ticks)⟩
    simp [fpPreBlock, two]

/-- With a pending wakeup `sched_timeout` returns at once. -/
theorem schedTimeout_pending {amnt : Nat} {self : Spd} (known : s.thd curr = some t)
    (place : t.pc = .user) (calm : Calm t) (two : t.wakeCnt = 2) (going : s.failed = false) :
    ∃ s', schedTimeout s curr t self amnt = some s' ∧ Returned s' curr := by
  have stays : ∀ time, Returned { s with wakeupTime := time } curr := fun time =>
    ⟨going, t, known, place, calm.awake, by simp [Waiting, calm.alone]⟩
  unfold schedTimeout
  split
  · exact ⟨s, rfl, stays s.wakeupTime⟩
  obtain ⟨time, named⟩ := timeout_named s amnt
  dsimp only
  rw [named]
  split
  · exact ⟨_, rfl, stays time⟩
  refine ⟨{ s with wakeupTime := time }.set curr { t with wakeCnt := 1, blockTime := s.ticks }, ?_, ?_⟩
  · simp [fpPreBlock, two]
  · refine ⟨going, { t with wakeCnt := 1, blockTime := s.ticks }, ?_, place, calm.awake, ?_⟩
    · simp [State.set]
    · simp [Waiting, calm.alone]

/-- A wakeup for a thread with such a record makes its next such call return. -/
def WakeupKept (receives : Thd → Prop) (next : State → Nat → Label → Prop) : Prop :=
  ∀ s id t s₁ s₂ label s₃, Reachable scheduler anyStep s → s.thd id = some t → receives t →
    step s (.wakeup id) = some s₁ →
    Reachable ⟨s₁, step⟩ (fun s label => ¬ next s id label) s₂ → next s₂ id label → step s₂ label = some s₃ →
    Returned s₃ id

/-- A wakeup for a thread outside of `sched_block` is pending afterwards. -/
theorem wakeup_pends {s1 : State} (regular : Regular s) (known : s.thd id = some t) (awake : t.blocked = false)
    (outside : ¬ InBlock t) (taken : step s (.wakeup id) = some s1) : s1.failed ∨ Pending s1 id := by
  have sound := regular.sound id t known
  have alone : t.dependencyThd = none := by
    by_contra waits
    obtain ⟨d, place, -⟩ := sound.waits waits
    exact outside ⟨some d, place⟩
  have live := Sound.live sound awake alone
  have two : bump t.wakeCnt = 2 := by unfold bump; omega
  rcases (step_effect regular taken).2 with effect | ⟨rfl, -⟩
  swap
  · exact .inl rfl
  cases effect with
  | call curr u _ _ on found place effect =>
    right
    cases effect with
    | wakeMissing _ missing =>
      rw [known] at missing
      contradiction
    | wakeSelf =>
      rw [known] at found
      cases found
      exact ⟨{ t with wakeCnt := bump t.wakeCnt, pc := .user, ret := 0 }, update_self .., two, outside_user rfl⟩
    | wakeLater _ u v other found' woken =>
      rw [known] at found'
      cases found'
      cases woken with
      | later =>
        refine ⟨{ t with wakeCnt := bump t.wakeCnt }, ?_, two, outside_of rfl outside⟩
        simp [State.returns, State.set, update_of_ne other]
    | wakeNow _ u v other found' woken =>
      rw [known] at found'
      cases found'
      cases woken with
      | released waits => exact absurd alone waits
      | woken asleep => simp [awake] at asleep

theorem wakeup_kept : WakeupKept (fun t => t.blocked = false ∧ ¬ InBlock t) blockingCall := by
  intro s id t s1 s2 label s3 reached known receives woken later calls taken
  have regular := reachable_regular reached
  have kept : Regular s2 ∧ (s2.failed ∨ Pending s2 id) := by
    refine later.invariant (fun s => Regular s ∧ (s.failed ∨ Pending s id)) ?_ ?_
    · exact ⟨step_regular regular woken, wakeup_pends regular known receives.1 receives.2 woken⟩
    rintro s label s' ⟨regular, pending⟩ quiet taken
    refine ⟨step_regular regular taken, ?_⟩
    obtain ⟨going, effect | ⟨rfl, -⟩⟩ := step_effect regular taken
    · have pending := pending.resolve_left (by simp [going])
      exact .inr (Change.pending pending quiet (effect.change regular))
    · exact .inl rfl
  obtain ⟨regular, pending⟩ := kept
  have result : isCall label ∧ s2.current = some id := by
    cases label <;> first | exact ⟨rfl, calls⟩ | exact ⟨rfl, calls.1⟩ | exact calls.elim
  obtain ⟨going, curr, u, on, found, place, rfl⟩ := step_call result.1 taken
  rw [result.2] at on
  cases on
  obtain ⟨v, same, two, -⟩ := pending.resolve_left (by simp [going])
  rw [found] at same
  cases same
  have sound := regular.sound id u found
  have calm := sound.calm (.inl place)
  have returned : ∃ s', call s2 id u label = some s' ∧ Returned s' id := by
    cases label with
    | block => exact schedBlock_pending sound calm two going
    | timeout => exact schedTimeout_pending found place calm two going
    | _ => exact calls.elim
  obtain ⟨s', ok, returned⟩ := returned
  rw [ok]
  exact returned

/-! ## Waiting for a thread -/

/-- No timeout comes up for a thread that waits for another one. -/
def timely (s : State) : Label → Prop
  | .tick => ∀ id t, s.wakeupThd = some id → s.thd id = some t → s.wakeupTime ≠ 0 →
      s.wakeupTime ≤ s.ticks + 2 → t.dependencyThd = none
  | _ => True

/-- A thread that waits for another one has no wakeup. -/
def Idle (s : State) : Prop := ∀ id t, s.thd id = some t → Waiting t → t.wakeCnt = 0

theorem Change.idle (idle : Idle s) (allowed : timely s label) (change : Change s label s') : Idle s' := by
  intro id t found waits
  rcases change.dependency found waits with before | depends
  · exact idle id t before waits
  cases depends with
  | thread spd d calls on other known depends zero => exact zero
  | critical t spd h calls on known holds other depends => exact absurd depends.2.1 waits
  | timeout u calls chosen known due same =>
    subst calls
    exact absurd (same.2.1.trans (allowed id u chosen known due.1 due.2)) waits

theorem reachable_idle (reached : Reachable scheduler timely s) : Idle s := by
  refine reachable_kept (by simp [Idle, State.init]) (fun s idle => idle) ?_ reached
  exact fun s label s' idle allowed change => Change.idle idle allowed change

/-! ## Results -/

/-- A call of `sched_block` that fails at once leaves the count as it was. -/
theorem refused_keeps {d : Nat} {t' : Thd} (regular : Regular s) (on : s.current = some id) (known : s.thd id = some t)
    (without : t.ncsHeld = 0) (taken : step s (.block spd d onCore) = some s') (found : s'.thd id = some t')
    (back : t'.pc = .user) (refused : t'.ret = -1) : t'.wakeCnt = t.wakeCnt := by
  rcases (step_effect regular taken).2 with effect | ⟨rfl, -⟩
  swap
  · rw [known] at found
    cases found
    rfl
  cases effect with
  | call curr u _ _ on' known' place effect =>
    rw [on] at on'
    cases on'
    rw [known] at known'
    cases known'
    cases effect with
    | blockSelf =>
      cases (update_self id _ s.thd).symm.trans found
      rfl
    | blockHolding _ _ _ holding => exact absurd without holding
    | blockEarly =>
      cases (update_self id _ s.thd).symm.trans found
      contradiction
    | blockRefused _ _ _ nothing =>
      cases (update_self id _ s.thd).symm.trans found
      exact nothing.symm
    | blockOn _ _ dep nothing without other known'' awake apart | blockAsleep _ _ _ nothing without =>
      cases (update_self id _ s.thd).symm.trans found
      contradiction

/-- Wake counts and pending wakeups in every run. -/
theorem wakeups_not_lost : (∀ s, Reachable scheduler anyStep s → ∀ id t, s.thd id = some t →
      t.wakeCnt ≤ 2 ∧ (t.blocked = true → t.wakeCnt = 0) ∧ (t.wakeCnt = 0 → t.blocked = true ∨ Waiting t)) ∧
    (∀ s, Reachable scheduler timely s → ∀ id t, s.thd id = some t → Waiting t → t.wakeCnt = 0) ∧
    WakeupKept (fun t => t.blocked = false ∧ ¬ InBlock t) blockingCall ∧
    (∀ s id t spd d onCore s' t', Reachable scheduler anyStep s → s.current = some id → s.thd id = some t →
      t.ncsHeld = 0 → step s (.block spd d onCore) = some s' → s'.thd id = some t' → t'.pc = .user →
      t'.ret = -1 → t'.wakeCnt = t.wakeCnt) := by
  refine ⟨?_, ?_, wakeup_kept, ?_⟩
  · intro s reached id t known
    have sound := (reachable_regular reached).sound id t known
    refine ⟨sound.atMost, sound.sleeps, ?_⟩
    intro zero
    by_contra neither
    push Not at neither
    have live := Sound.live sound (by simpa using neither.1) (by simpa [Waiting] using neither.2)
    omega
  · intro s reached id t known waits
    exact reachable_idle reached id t known waits
  · intro s id t spd d onCore s' t' reached on known without taken found back refused
    exact refused_keeps (reachable_regular reached) on known without taken found back refused

instance (s : State) (id : Nat) : DecidablePred (blockCall s id)
  | .block .. => inferInstanceAs (Decidable (_ = _))
  | .create _ | .dispatch .. | .wakeup _ | .take _ | .release _ | .timeout .. | .timeoutThd | .resume | .tick =>
    instDecidableFalse

def spd5 : Spd := ⟨⟨5, by decide⟩, by decide⟩

/-- Thread 2 sleeps, thread 1 wakes it and runs on. -/
def wokenOnce : List Label :=
  [.create 1, .create 2, .dispatch 2 1, .block spd5 0 true, .dispatch 1 1, .wakeup 2, .dispatch 1 1, .resume]

/-- The second of two wakeups is dropped when the thread returns from `sched_block`, so its next one sleeps. -/
theorem second_wakeup_dropped : ¬ WakeupKept (fun t => t.blocked = false) blockCall := by
  intro kept
  obtain ⟨s, run, ⟨t, known, awake⟩, s₁, woken, s₂, later, calls, s₃, taken, u, found, asleep⟩ :=
    exec_ends scheduler anyStep wokenOnce
      (fun s => (∃ t ∈ s.thd 2, t.blocked = false) ∧ ∃ s₁ ∈ step s (.wakeup 2),
        ∃ s₂ ∈ exec ⟨s₁, step⟩ (fun s label => ¬ blockCall s 2 label) s₁ [.dispatch 2 1, .resume],
          blockCall s₂ 2 (.block spd5 0 true) ∧ ∃ s₃ ∈ step s₂ (.block spd5 0 true), ∃ t ∈ s₃.thd 2, t.blocked = true)
      (by decide +kernel)
  have run₂ := exec_run later
  obtain ⟨-, v, same, -, awake', -⟩ :=
    kept s 2 t s₁ s₂ (.block spd5 0 true) s₃ ⟨_, run⟩ known awake woken ⟨_, run₂⟩ calls taken
  rw [found] at same
  cases same
  simp [asleep] at awake'

/-- A wakeup for a thread that has not blocked yet makes its next `sched_block` return. -/
theorem early_wakeup_kept : ∃ s s₁ s₂ s₃, Reachable scheduler anyStep s ∧ step s (.wakeup 2) = some s₁ ∧
    step s₁ (.dispatch 2 1) = some s₂ ∧ step s₂ (.block spd5 0 true) = some s₃ ∧ Returned s₃ 2 := by
  obtain ⟨s, run, ⟨t, known, awake, place⟩, s₁, woken, s₂, dispatched, on, s₃, taken, -⟩ :=
    exec_ends scheduler anyStep [.create 1, .create 2, .dispatch 1 1]
      (fun s => (∃ t ∈ s.thd 2, t.blocked = false ∧ t.pc = .user) ∧ ∃ s₁ ∈ step s (.wakeup 2),
        ∃ s₂ ∈ step s₁ (.dispatch 2 1), s₂.current = some 2 ∧ ∃ s₃ ∈ step s₂ (.block spd5 0 true), True)
      (by decide +kernel)
  refine ⟨s, s₁, s₂, s₃, ⟨_, run⟩, woken, dispatched, taken, ?_⟩
  have later : Run ⟨s₁, step⟩ (fun s label => ¬ blockingCall s 2 label) ([] ++ [.dispatch 2 1]) s₂ :=
    .next .start (id) dispatched
  exact wakeups_not_lost.2.2.1 s 2 t s₁ s₂ (.block spd5 0 true) s₃ ⟨_, run⟩ known ⟨awake, outside_user place⟩ woken
    ⟨_, later⟩ on taken

end SuperGlue.Guarantees.SchedulerWakeups
