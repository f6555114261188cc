import SuperGlue.Lib.Transition

/-!
# The lock component and its critical section

The operations of `components/implementation/lock/two_phase/__lock_rec`, cut at every call they
make into the scheduler: `sched_component_take`, `sched_component_release`, `sched_block` and
`sched_wakeup`. What the code does between two such calls is one step. The section itself follows
`sched_take_crit_sect` and `sched_release_crit_sect` of `sched/cos_scheduler.h`: a take waits while
another thread holds it and succeeds for its holder; a release is tolerated when nobody holds it.

Threads are of an arbitrary type. A release of a section that another thread holds fails the
assertion `cs->holding_thd == curr`; the thread then stays at `sectionAssert`. `lock_free` of a
record that another `lock_component_free` has freed already is undefined and has no step. Faults of
the scheduler, after which `sched_component_take` may answer -1, are not part of the model.
-/
namespace SuperGlue.Source.Lock.Component
open Function Option Lib.Transition

abbrev SpdId := Nat
abbrev LockId := Nat

/-- `-EINVAL`. -/
def einval : Int := -22

/-- `struct meta_lock`, with the blocked list read from `FIRST_LIST`. -/
structure MetaLock (T : Type) where
  lockId : LockId
  spd : SpdId
  genNum : Nat
  bThds : List T

inductive Call where
  | pretake (spd : SpdId) (lock : LockId)
  | take (spd : SpdId) (lock : LockId)
  | release (spd : SpdId) (lock : LockId)
  | alloc (spd : SpdId)
  | free (spd : SpdId) (lock : LockId)
  deriving DecidableEq, Repr

inductive Pc (T : Type) where
  | idle
  /-- The first `sched_component_take` of an operation. -/
  | enter (call : Call)
  /-- `lock_component_take` takes the section a second time. -/
  | reenter (spd : SpdId) (lock : LockId)
  /-- The code up to the next scheduler call. -/
  | body (call : Call)
  /-- `RELEASE`, then return. -/
  | leave (ret : Int)
  /-- `RELEASE` of `lock_component_take` before it blocks, and the block. -/
  | leaveToBlock
  | block
  | asleep
  /-- The wakeup loop of `lock_component_release`, with the threads not yet woken. -/
  | wake (rest : List T)
  /-- `RELEASE` before the last wakeup, that wakeup, and the `RELEASE` at `done`. -/
  | leaveEarly (last : T)
  | wakeLast (last : T)
  | leaveAgain
  /-- `lock_component_free`: release, then free the lock that was found. -/
  | leaveToFree (found : Option LockId)
  | freeLock (lock : LockId)
  /-- Failed assertions: the section's holder, and a caller that is blocked already. -/
  | sectionAssert
  | blockedAssert
  deriving DecidableEq

structure State (T : Type) where
  /-- `cs->holding_thd` of the lock component. -/
  holdingThd : Option T
  pc : T → Pc T
  result : T → Int
  locks : List (MetaLock T)
  lockId : LockId
  generation : Nat
  /-- A wakeup that came before the thread blocked. -/
  wakeups : T → Bool

variable {T : Type} [DecidableEq T] {s s' : State T} {t : T} {pc : Pc T}

section
variable (s : State T)

def State.goto (t : T) (pc : Pc T) : State T :=
  { s with pc := update s.pc t pc }

def State.returns (t : T) (ret : Int) : State T :=
  { s with result := update s.result t ret, pc := update s.pc t .idle }

/-! ## The scheduler's part -/

/-- `sched_component_take`: `none` while another thread holds the section. -/
def schedComponentTake (t : T) : Option (State T) :=
  match s.holdingThd with
  | none => some { s with holdingThd := some t }
  | some holder => if holder = t then some s else none

/-- `sched_component_release` and what follows it, unless the holder assertion fails. -/
def schedComponentRelease (t : T) (next : State T → State T) : State T :=
  match s.holdingThd with
  | none => next s
  | some holder =>
    if holder = t then next { s with holdingThd := none } else s.goto t .sectionAssert

def schedBlock (t : T) : State T :=
  if s.wakeups t then { s with wakeups := update s.wakeups t false }.returns t 0
  else s.goto t .asleep

def schedWakeup (u : T) : State T :=
  if s.pc u = .asleep then s.returns u 0
  else { s with wakeups := update s.wakeups u true }

/-! ## The component's data -/

def lockFind (spd : SpdId) (lock : LockId) : Option (MetaLock T) :=
  s.locks.find? fun ml => ml.lockId == lock && ml.spd == spd

/-- Replace the record that `lockFind` returned. -/
def setLock (ml : MetaLock T) : State T :=
  { s with locks := s.locks.map fun other => if other.lockId = ml.lockId then ml else other }

def pretakeBody (t : T) (spd : SpdId) (lock : LockId) : State T :=
  match lockFind s spd lock with
  | none => s.goto t (.leave einval)
  | some ml => (setLock s { ml with genNum := s.generation }).goto t (.leave 0)

def takeBody (t : T) (spd : SpdId) (lock : LockId) : State T :=
  match lockFind s spd lock with
  | none => s.goto t (.leave einval)
  | some ml =>
    if t ∈ ml.bThds then s.goto t .blockedAssert
    else if ml.genNum ≠ s.generation then
      (setLock s { ml with genNum := s.generation }).goto t (.leave 1)
    else
      (setLock { s with generation := s.generation + 1 } { ml with bThds := t :: ml.bThds }).goto t .leaveToBlock

def releaseBody (t : T) (spd : SpdId) (lock : LockId) : State T :=
  let s := { s with generation := s.generation + 1 }
  match lockFind s spd lock with
  | none => s.goto t (.leave einval)
  | some ml =>
    if ml.bThds = [] then s.goto t (.leave 0)
    else (setLock s { ml with bThds := [] }).goto t (.wake ml.bThds)

/-- `lock_alloc`; `memory` is whether `malloc` finds room. -/
def allocBody (t : T) (spd : SpdId) (memory : Bool) : State T :=
  if memory then
    { s with lockId := s.lockId + 1, locks := ⟨s.lockId, spd, 0, []⟩ :: s.locks }.goto t (.leave s.lockId)
  else s.goto t (.leave 0)

end

/-! ## Steps -/

inductive Label (T : Type) where
  | call (t : T) (call : Call)
  | run (t : T) (memory : Bool)
  deriving DecidableEq

def bodyStep (s : State T) (t : T) (memory : Bool) : Call → State T
  | .pretake spd lock => pretakeBody s t spd lock
  | .take spd lock => takeBody s t spd lock
  | .release spd lock => releaseBody s t spd lock
  | .alloc spd => allocBody s t spd memory
  | .free spd lock => s.goto t (.leaveToFree ((lockFind s spd lock).map MetaLock.lockId))

def threadStep (s : State T) (t : T) (memory : Bool) : Option (State T) :=
  match s.pc t with
  | .idle | .asleep | .sectionAssert | .blockedAssert => none
  | .enter (.take spd lock) =>
    (schedComponentTake s t).map fun s => s.goto t (.reenter spd lock)
  | .enter call => (schedComponentTake s t).map fun s => s.goto t (.body call)
  | .reenter spd lock => (schedComponentTake s t).map fun s => s.goto t (.body (.take spd lock))
  | .body call => some (bodyStep s t memory call)
  | .leave ret => some (schedComponentRelease s t fun s => s.returns t ret)
  | .leaveToBlock => some (schedComponentRelease s t fun s => s.goto t .block)
  | .block => some (schedBlock s t)
  | .wake [] => none
  | .wake [last] => some (s.goto t (.leaveEarly last))
  | .wake (u :: rest) => some ((schedWakeup s u).goto t (.wake rest))
  | .leaveEarly last => some (schedComponentRelease s t fun s => s.goto t (.wakeLast last))
  | .wakeLast last => some ((schedWakeup s last).goto t .leaveAgain)
  | .leaveAgain => some (schedComponentRelease s t fun s => s.returns t 0)
  | .leaveToFree (some lock) => some (schedComponentRelease s t fun s => s.goto t (.freeLock lock))
  | .leaveToFree none => some (schedComponentRelease s t fun s => s.returns t 0)
  | .freeLock lock =>
    if s.locks.any fun ml => ml.lockId == lock then
      some ({ s with locks := s.locks.filter fun ml => ml.lockId != lock }.returns t 0)
    else none

def step (s : State T) : Label T → Option (State T)
  | .call t call => if s.pc t = .idle then some (s.goto t (.enter call)) else none
  | .run t memory => threadStep s t memory

/-- The component after boot: no lock, no thread inside, ids from 1. -/
def init : State T where
  holdingThd := none
  pc := fun _ => .idle
  result := fun _ => 0
  locks := []
  lockId := 1
  generation := 0
  wakeups := fun _ => false

def componentSystem (T : Type) [DecidableEq T] : System (State T) (Label T) := ⟨init, step⟩

/-! ## What one step does to the section -/

/-- The control points between a successful take of the section and its release. -/
def Pc.Inside : Pc T → Prop
  | .reenter _ _ | .body _ | .leave _ | .leaveToBlock | .wake _ | .leaveEarly _ | .leaveToFree _
  | .blockedAssert => True
  | _ => False

/-- The control points at which an operation first takes the section. -/
def Pc.Enters : Pc T → Prop
  | .enter _ => True
  | _ => False

/-- The control points whose next call is `sched_component_release`. -/
def Pc.Releases : Pc T → Prop
  | .leave _ | .leaveToBlock | .leaveEarly _ | .leaveToFree _ | .leaveAgain => True
  | _ => False

/-- `lock_component_release` has given up the section early and has not yet reached the `RELEASE`
at `done`. -/
def Pc.Between : Pc T → Prop
  | .wakeLast _ | .leaveAgain => True
  | _ => False

instance (pc : Pc T) : Decidable pc.Enters := by
  cases pc <;> simp only [Pc.Enters] <;> infer_instance

instance (pc : Pc T) : Decidable pc.Between := by
  cases pc <;> simp only [Pc.Between] <;> infer_instance

/-- The effects of a step of thread `t` on the section, by the control points it joins. -/
inductive Move (s : State T) (t : T) (s' : State T) : Prop where
  | take (at_ : (s.pc t).Enters ∨ (s.pc t).Inside)
      (free : s.holdingThd = none ∨ s.holdingThd = some t) (held : s'.holdingThd = some t)
      (inside : (s'.pc t).Inside)
  | inside (before : (s.pc t).Inside) (after : (s'.pc t).Inside) (same : s'.holdingThd = s.holdingThd)
  | outside (before : ¬ (s.pc t).Inside) (after : ¬ (s'.pc t).Inside)
      (fine : s'.pc t ≠ .sectionAssert) (between : (s'.pc t).Between → (s.pc t).Between)
      (same : s'.holdingThd = s.holdingThd)
  | release (at_ : (s.pc t).Releases) (holder : s.holdingThd = none ∨ s.holdingThd = some t)
      (after : ¬ (s'.pc t).Inside) (fine : s'.pc t ≠ .sectionAssert)
      (freed : s'.holdingThd = none)
  | refused (at_ : (s.pc t).Releases) (u : T) (other : u ≠ t) (holder : s.holdingThd = some u)
      (same : s' = s.goto t .sectionAssert)

@[simp] theorem goto_pc (s : State T) (t u : T) (pc : Pc T) : (s.goto t pc).pc u = if u = t then pc else s.pc u := by
  simp [State.goto, update_apply]

@[simp] theorem goto_holdingThd (s : State T) (t : T) (pc : Pc T) : (s.goto t pc).holdingThd = s.holdingThd := rfl

@[simp] theorem returns_pc (s : State T) (t u : T) (ret : Int) :
    (s.returns t ret).pc u = if u = t then .idle else s.pc u := by
  simp [State.returns, update_apply]

omit [DecidableEq T] in
@[simp] theorem setLock_holdingThd (s : State T) (ml : MetaLock T) : (setLock s ml).holdingThd = s.holdingThd := rfl

@[simp] theorem schedWakeup_holdingThd (s : State T) (u : T) : (schedWakeup s u).holdingThd = s.holdingThd := by
  unfold schedWakeup
  split <;> rfl

/-- Other threads are left where they are, except that a sleeper may be woken. -/
def Undisturbed (s s' : State T) (t : T) : Prop :=
  ∀ u, u ≠ t → s'.pc u = s.pc u ∨ s.pc u = .asleep ∧ s'.pc u = .idle

theorem undisturbed (moves : ∀ u, s'.pc u = if u = t then pc else s.pc u) : Undisturbed s s' t :=
  fun u moved => .inl (by simp [moves, moved])

theorem take_move (h : (schedComponentTake s t).map (fun s => s.goto t pc) = some s')
    (at_ : (s.pc t).Enters ∨ (s.pc t).Inside) (inside : pc.Inside) : Move s t s' ∧ Undisturbed s s' t := by
  obtain ⟨s1, took, rfl⟩ := map_eq_some_iff.mp h
  obtain ⟨free, held, same⟩ : (s.holdingThd = none ∨ s.holdingThd = some t) ∧ s1.holdingThd = some t ∧ s1.pc = s.pc := by
    unfold schedComponentTake at took
    split at took
    next free => cases took; exact ⟨.inl free, rfl, rfl⟩
    next holder held =>
      split at took
      next same => cases took; exact ⟨.inr (by rw [held, same]), by rw [held, same], rfl⟩
      · contradiction
  exact ⟨.take at_ free (by simpa using held) (by simpa using inside), undisturbed fun u => same ▸ goto_pc ..⟩

/-- A release followed by `next`, which puts the thread at `pc` and leaves the section alone. -/
theorem release_move {next : State T → State T} (pc : Pc T)
    (h : some (schedComponentRelease s t next) = some s') (at_ : (s.pc t).Releases)
    (after : ¬ pc.Inside) (fine : pc ≠ .sectionAssert) (holding : ∀ s, (next s).holdingThd = s.holdingThd)
    (moves : ∀ s u, (next s).pc u = if u = t then pc else s.pc u) : Move s t s' ∧ Undisturbed s s' t := by
  cases h
  unfold schedComponentRelease
  split
  next free =>
    exact ⟨.release at_ (.inl free) (by simpa [moves] using after) (by simpa [moves] using fine) (by rw [holding, free]),
      undisturbed (moves s)⟩
  rename_i holder held
  split
  next same =>
    exact ⟨.release at_ (.inr (by rw [held, same])) (by simpa [moves] using after) (by simpa [moves] using fine)
      (by rw [holding]), undisturbed (moves _)⟩
  next other => exact ⟨.refused at_ holder other held rfl, undisturbed fun u => goto_pc ..⟩

theorem bodyStep_move {call : Call} (memory : Bool) (at_ : s.pc t = .body call) :
    Move s t (bodyStep s t memory call) ∧ Undisturbed s (bodyStep s t memory call) t := by
  have goes : ∀ (s1 : State T) (pc : Pc T), pc.Inside → s1.holdingThd = s.holdingThd →
      s1.pc = s.pc → Move s t (s1.goto t pc) ∧ Undisturbed s (s1.goto t pc) t := by
    intro s1 pc inside holding same
    exact ⟨.inside (by simp [at_, Pc.Inside]) (by simpa using inside) (by simpa using holding),
      undisturbed fun u => same ▸ goto_pc ..⟩
  cases call with
  | pretake =>
    simp only [bodyStep, pretakeBody]
    split <;> exact goes _ _ trivial rfl rfl
  | take =>
    simp only [bodyStep, takeBody]
    split
    · exact goes _ _ trivial rfl rfl
    · split
      · exact goes _ _ trivial rfl rfl
      · split <;> exact goes _ _ trivial rfl rfl
  | release =>
    simp only [bodyStep, releaseBody]
    split
    · exact goes _ _ trivial rfl rfl
    · split <;> exact goes _ _ trivial rfl rfl
  | alloc =>
    simp only [bodyStep, allocBody]
    split <;> exact goes _ _ trivial rfl rfl
  | free => exact goes _ _ trivial rfl rfl

theorem wakeup_move {t u : T}
    (section_ : (s.pc t).Inside ∧ pc.Inside ∨ ¬ (s.pc t).Inside ∧ ¬ pc.Inside ∧ pc ≠ .sectionAssert ∧ (s.pc t).Between)
    : Move s t ((schedWakeup s u).goto t pc) ∧ Undisturbed s ((schedWakeup s u).goto t pc) t := by
  constructor
  · rcases section_ with ⟨before, after⟩ | ⟨before, after, fine, between⟩
    · exact .inside before (by simpa using after) (by simp)
    · exact .outside before (by simpa using after) (by simpa using fine) (fun _ => between) (by simp)
  intro v moved
  -- a wakeup moves a sleeper out of the operation and nobody else
  rw [goto_pc, if_neg moved, schedWakeup]
  split
  next asleep =>
    by_cases same : v = u
    · exact .inr ⟨by rw [same, asleep], by simp [same]⟩
    · exact .inl (by simp [same])
  · exact .inl rfl

/-- A step outside the section, to another point outside. -/
theorem outside_move (before : ¬ (s.pc t).Inside) (after : ¬ pc.Inside ∧ pc ≠ .sectionAssert ∧ ¬ pc.Between)
    (same : s'.holdingThd = s.holdingThd) (moves : ∀ u, s'.pc u = if u = t then pc else s.pc u) :
    Move s t s' ∧ Undisturbed s s' t := by
  have arrived : s'.pc t = pc := by simp [moves]
  refine ⟨.outside before ?_ ?_ ?_ same, undisturbed moves⟩ <;> rw [arrived]
  · exact after.1
  · exact after.2.1
  · exact fun between => absurd between after.2.2

/-- The effects of a thread's step, once for all invariants. -/
theorem threadStep_move {memory : Bool} (h : threadStep s t memory = some s') : Move s t s' ∧ Undisturbed s s' t := by
  rw [threadStep] at h
  generalize at_ : s.pc t = pc at h
  cases pc with
  | idle | asleep | sectionAssert | blockedAssert => nomatch h
  | enter call =>
    have enters : (s.pc t).Enters := by simp [at_, Pc.Enters]
    cases call <;> exact take_move h (.inl enters) trivial
  | reenter =>
    exact take_move h (.inr (by simp [at_, Pc.Inside])) trivial
  | body =>
    cases h
    exact bodyStep_move memory at_
  | leave =>
    exact release_move .idle h (by simp [at_, Pc.Releases]) id (by simp) (fun _ => rfl) (by simp)
  | leaveToBlock =>
    exact release_move .block h (by simp [at_, Pc.Releases]) id (by simp) (fun _ => rfl) (by simp)
  | block =>
    cases h
    unfold schedBlock
    split
    · exact outside_move (by simp [at_, Pc.Inside]) (by simp [Pc.Inside, Pc.Between]) rfl fun u => returns_pc ..
    · exact outside_move (by simp [at_, Pc.Inside]) (by simp [Pc.Inside, Pc.Between]) rfl fun u => goto_pc ..
  | wake rest =>
    match rest, at_ with
    | [], at_ => nomatch h
    | [last], at_ =>
      cases h
      exact ⟨.inside (by simp [at_, Pc.Inside]) (by simp [Pc.Inside]) rfl, undisturbed fun u => goto_pc ..⟩
    | u :: v :: rest, at_ =>
      cases h
      exact wakeup_move (.inl ⟨by simp [at_, Pc.Inside], trivial⟩)
  | leaveEarly last =>
    exact release_move (.wakeLast last) h (by simp [at_, Pc.Releases]) id (by simp) (fun _ => rfl) (by simp)
  | wakeLast =>
    cases h
    exact wakeup_move (.inr ⟨by simp [at_, Pc.Inside], id, by simp, by simp [at_, Pc.Between]⟩)
  | leaveAgain =>
    exact release_move .idle h (by simp [at_, Pc.Releases]) id (by simp) (fun _ => rfl) (by simp)
  | leaveToFree found =>
    cases found with
    | none =>
      exact release_move .idle h (by simp [at_, Pc.Releases]) id (by simp) (fun _ => rfl) (by simp)
    | some lock =>
      exact release_move (.freeLock lock) h (by simp [at_, Pc.Releases]) id (by simp) (fun _ => rfl) (by simp)
  | freeLock =>
    simp only [ite_none_right_eq_some, some.injEq] at h
    obtain ⟨_, rfl⟩ := h
    exact outside_move (by simp [at_, Pc.Inside]) (by simp [Pc.Inside, Pc.Between]) rfl fun u => returns_pc ..

def Label.thread : Label T → T
  | .call t _ | .run t _ => t

theorem step_move {label : Label T} (h : step s label = some s') :
    Move s label.thread s' ∧ Undisturbed s s' label.thread := by
  cases label with
  | call =>
    simp only [step, ite_none_right_eq_some, some.injEq] at h
    obtain ⟨idle, rfl⟩ := h
    exact outside_move (by simp [idle, Label.thread, Pc.Inside]) (by simp [Pc.Inside, Pc.Between]) rfl
      fun u => goto_pc ..
  | run => exact threadStep_move h

end SuperGlue.Source.Lock.Component
