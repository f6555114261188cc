import SuperGlue.Lib.Transition

/-!
# The two-phase lock, one atomic step at a time

`lock_take` and `lock_release` of `components/include/cos_synchronization.h`, their contention
paths in `components/interface/lock/cos_synchronization.c`, and the calls they make into
`components/implementation/lock/two_phase/__lock_rec`. Every read of the lock word, every
compare-and-swap of it and every call of the lock component is one step of the calling thread.

Locks are named by their `lock_id`; the client component is fixed, so `lock_find` is a test of
`known`. The blocked list of a lock is read from `FIRST_LIST`, so `ADD_LIST` puts a thread at the
front. Thread id 0 is no thread: an owner field of 0 means a free lock. `sched_block` is taken to
put the caller to sleep until `sched_wakeup`; its refusal of a cyclic dependency is not modelled.
`generation` and `gen_num` are `unsigned long long`; the model leaves out their wrap after 2^64 calls.
-/
namespace SuperGlue.Source.Lock.TwoPhase
open Option Function Lib.Transition

abbrev Tid := Nat
abbrev LockId := Nat

/-- `union cos_lock_atomic_struct`; equality of records is equality of the 32-bit `v`. -/
structure LockWord where
  owner : Tid
  contested : Bool
  deriving DecidableEq, Repr

def LockWord.free : LockWord := ⟨0, false⟩

/-- The next atomic step of a thread, with the local copy `prev_val` it still uses. -/
inductive Pc where
  | idle
  -- __lock_take
  | takeRead (l : LockId)
  | takeCas (l : LockId) (prev : LockWord)
  | takeCheck (l : LockId)
  -- lock_take_contention
  | pretake (l : LockId) (prev : LockWord)
  | ownerRead (l : LockId) (prev : LockWord)
  | contestedRead (l : LockId) (prev : LockWord)
  | contestedCas (l : LockId) (prev : LockWord)
  | contestedCheck (l : LockId)
  | componentTake (l : LockId)
  | asleep (l : LockId)
  -- __lock_release
  | releaseRead (l : LockId)
  | releaseCas (l : LockId) (prev : LockWord)
  | releaseCheck (l : LockId)
  -- lock_release_contention
  | contendedCas (l : LockId) (prev : LockWord)
  | componentRelease (l : LockId)
  -- a failed assertion, the BUG of __lock_release, the BUG of lock_release_contention
  | assertFailed
  | releaseBug
  | contentionBug
  deriving DecidableEq, Repr

structure State where
  word : LockId → LockWord
  pc : Tid → Pc
  /-- The thread is between a successful return of `lock_take` and the swap that releases. -/
  held : Tid → LockId → Bool
  known : LockId → Bool
  generation : Nat
  genNum : LockId → Nat
  bThds : LockId → List Tid
  /-- Generation at the thread's own last `lock_component_pretake`; no code reads it. -/
  pretakeGen : Tid → Nat

variable (s : State) (t : Tid)

def State.goto (pc : Pc) : State :=
  { s with pc := update s.pc t pc }

def State.store (l : LockId) (w : LockWord) : State :=
  { s with word := update s.word l w }

def State.setHeld (l : LockId) (b : Bool) : State :=
  { s with held := update s.held t (update (s.held t) l b) }

section Fields

variable (s : State) (t u : Tid) (l k : LockId) (pc : Pc) (w : LockWord) (b : Bool)

@[simp] theorem goto_pc : (s.goto t pc).pc u = if u = t then pc else s.pc u := by
  simp [State.goto, update_apply]

@[simp] theorem goto_word : (s.goto t pc).word = s.word := rfl
@[simp] theorem goto_held : (s.goto t pc).held = s.held := rfl
@[simp] theorem goto_known : (s.goto t pc).known = s.known := rfl
@[simp] theorem goto_bThds : (s.goto t pc).bThds = s.bThds := rfl
@[simp] theorem goto_pretakeGen : (s.goto t pc).pretakeGen = s.pretakeGen := rfl

@[simp] theorem store_word : (s.store l w).word k = if k = l then w else s.word k := by
  simp [State.store, update_apply]

@[simp] theorem store_pc : (s.store l w).pc = s.pc := rfl
@[simp] theorem store_held : (s.store l w).held = s.held := rfl
@[simp] theorem store_bThds : (s.store l w).bThds = s.bThds := rfl
@[simp] theorem store_pretakeGen : (s.store l w).pretakeGen = s.pretakeGen := rfl

@[simp] theorem setHeld_held : (s.setHeld t l b).held u k = if u = t ∧ k = l then b else s.held u k := by
  by_cases hu : u = t
  · subst hu
    simp [State.setHeld, update_apply]
  · simp [State.setHeld, hu]

@[simp] theorem setHeld_pc : (s.setHeld t l b).pc = s.pc := rfl
@[simp] theorem setHeld_word : (s.setHeld t l b).word = s.word := rfl
@[simp] theorem setHeld_bThds : (s.setHeld t l b).bThds = s.bThds := rfl
@[simp] theorem setHeld_pretakeGen : (s.setHeld t l b).pretakeGen = s.pretakeGen := rfl

end Fields

/-! ## The lock component -/

/-- `lock_component_pretake`; an unknown lock makes `lock_take` return -1. -/
def lockComponentPretake (l : LockId) (prev : LockWord) : State :=
  if s.known l then
    { s with genNum := update s.genNum l s.generation
             pretakeGen := update s.pretakeGen t s.generation }.goto t (.ownerRead l prev)
  else s.goto t .idle

/-- `lock_component_take`: give up on an unknown lock, send the caller back to the lock word on a
generation mismatch, block it otherwise. -/
def lockComponentTake (l : LockId) : State :=
  if ¬ s.known l then s.goto t .idle
  else if t ∈ s.bThds l then s.goto t .assertFailed
  else if s.genNum l ≠ s.generation then
    { s with genNum := update s.genNum l s.generation }.goto t (.takeRead l)
  else
    { s with generation := s.generation + 1, bThds := update s.bThds l (t :: s.bThds l) }.goto t (.asleep l)

/-- `lock_component_release`: wake every thread of the lock's blocked list. A woken thread returns
from `lock_component_take` with 0 and reads the lock word again. -/
def lockComponentRelease (l : LockId) : State :=
  if s.known l then
    { s with generation := s.generation + 1
             bThds := update s.bThds l []
             pc := fun u => if u ∈ s.bThds l then .takeRead l else s.pc u }.goto t .idle
  else { s with generation := s.generation + 1 }.goto t .idle

/-! ## The client's code -/

/-- The next step of thread `t` inside `lock_take` or `lock_release`. -/
def threadStep : Option State :=
  match s.pc t with
  | .idle => none
  | .takeRead l =>
    if (s.word l).owner = t then some (s.goto t .assertFailed)
    else if (s.word l).owner ≠ 0 then some (s.goto t (.pretake l (s.word l)))
    else some (s.goto t (.takeCas l (s.word l)))
  | .takeCas l prev =>
    if s.word l = prev then some ((s.store l ⟨t, false⟩).goto t (.takeCheck l))
    else some (s.goto t (.takeRead l))
  | .takeCheck l =>
    if (s.word l).owner = t then some ((s.setHeld t l true).goto t .idle)
    else some (s.goto t .assertFailed)
  | .pretake l prev => some (lockComponentPretake s t l prev)
  | .ownerRead l prev =>
    if prev.owner ≠ (s.word l).owner then some (s.goto t (.takeRead l))
    else some (s.goto t (.contestedRead l prev))
  | .contestedRead l prev =>
    if (s.word l).contested then some (s.goto t (.componentTake l))
    else some (s.goto t (.contestedCas l prev))
  | .contestedCas l prev =>
    if s.word l = prev then
      some ((s.store l ⟨prev.owner, true⟩).goto t (.contestedCheck l))
    else some (s.goto t (.takeRead l))
  | .contestedCheck l =>
    if (s.word l).contested then some (s.goto t (.componentTake l))
    else some (s.goto t .assertFailed)
  | .componentTake l => some (lockComponentTake s t l)
  | .asleep _ => none
  | .releaseRead l =>
    if (s.word l).owner ≠ t then some (s.goto t .releaseBug)
    else if (s.word l).contested then some (s.goto t (.contendedCas l (s.word l)))
    else some (s.goto t (.releaseCas l (s.word l)))
  | .releaseCas l prev =>
    if s.word l = prev then
      some (((s.store l .free).setHeld t l false).goto t (.releaseCheck l))
    else some (s.goto t (.releaseRead l))
  | .releaseCheck l =>
    if (s.word l).owner ≠ t then some (s.goto t .idle)
    else some (s.goto t .assertFailed)
  | .contendedCas l prev =>
    if s.word l = prev then
      some (((s.store l .free).setHeld t l false).goto t (.componentRelease l))
    else some (s.goto t .contentionBug)
  | .componentRelease l => some (lockComponentRelease s t l)
  | .assertFailed | .releaseBug | .contentionBug => none

inductive Label where
  | callTake (t : Tid) (l : LockId)
  | callRelease (t : Tid) (l : LockId)
  | run (t : Tid)
  deriving DecidableEq, Repr

def Label.thread : Label → Tid
  | .callTake t _ | .callRelease t _ | .run t => t

/-- A thread outside the lock code may call it on any lock; a thread inside takes its next step. -/
def step : Label → Option State
  | .callTake t l => if t ≠ 0 ∧ s.pc t = .idle then some (s.goto t (.takeRead l)) else none
  | .callRelease t l => if t ≠ 0 ∧ s.pc t = .idle then some (s.goto t (.releaseRead l)) else none
  | .run t => threadStep s t

/-- Before any call: every lock free, nobody blocked, and the component knows the locks `known`. -/
def init (known : LockId → Bool) : State where
  word := fun _ => .free
  pc := fun _ => .idle
  held := fun _ _ => false
  known := known
  generation := 0
  genNum := fun _ => 0
  bThds := fun _ => []
  pretakeGen := fun _ => 0

def lockSystem (known : LockId → Bool) : System State Label := ⟨init known, step⟩

/-! ## What one step can do -/

/-- Where a thread may arrive by a step that changes nothing but its own control point, and what
it has just read from the lock word. -/
def Arrives : Pc → Prop
  | .idle | .assertFailed | .takeRead _ => True
  | .takeCas _ prev => prev.owner = 0
  | .pretake _ prev => prev.owner ≠ 0
  | .contestedRead l prev => s.pc t = .ownerRead l prev
  | .contestedCas l prev => s.pc t = .contestedRead l prev
  | .componentTake l => (s.word l).contested = true
  | .releaseRead l => s.pc t = .idle ∨ ∃ prev, s.pc t = .releaseCas l prev
  | .releaseCas l prev => s.pc t = .releaseRead l ∧ prev = s.word l ∧ prev = ⟨t, false⟩
  | .contendedCas l prev => s.pc t = .releaseRead l ∧ prev = s.word l ∧ prev = ⟨t, true⟩
  | .releaseBug => ∃ l, s.pc t = .releaseRead l ∧ (s.word l).owner ≠ t
  | .contentionBug => ∃ l prev, s.pc t = .contendedCas l prev ∧ s.word l ≠ prev
  | .takeCheck _ | .ownerRead _ _ | .contestedCheck _ | .asleep _ | .releaseCheck _
  | .componentRelease _ => False

/-- The control points such a step never leaves; from `takeCheck` it leaves only on a failed
assertion. -/
def Leaves : Prop :=
  match s.pc t with
  | .takeCheck l => (s.word l).owner ≠ t
  | .asleep _ | .componentRelease _ => False
  | _ => True

/-- The effects of a step of thread `t`. -/
inductive Move (s : State) (t : Tid) : State → Prop where
  | advance (pc : Pc) (leaves : Leaves s t) (arrives : Arrives s t pc) : Move s t (s.goto t pc)
  | pretake (l : LockId) (prev : LockWord) (at_ : s.pc t = .pretake l prev) :
      Move s t ({ s with genNum := update s.genNum l s.generation
                         pretakeGen := update s.pretakeGen t s.generation }.goto t
        (.ownerRead l prev))
  | contest (l : LockId) (prev : LockWord) (at_ : s.pc t = .contestedCas l prev)
      (same : s.word l = prev) :
      Move s t ((s.store l ⟨prev.owner, true⟩).goto t (.contestedCheck l))
  | acquire (l : LockId) (prev : LockWord) (at_ : s.pc t = .takeCas l prev)
      (same : s.word l = prev) : Move s t ((s.store l ⟨t, false⟩).goto t (.takeCheck l))
  | hold (l : LockId) (at_ : s.pc t = .takeCheck l) (owner : (s.word l).owner = t) :
      Move s t ((s.setHeld t l true).goto t .idle)
  | release (l : LockId) (prev : LockWord) (at_ : s.pc t = .releaseCas l prev)
      (same : s.word l = prev) :
      Move s t (((s.store l .free).setHeld t l false).goto t (.releaseCheck l))
  | releaseContended (l : LockId) (prev : LockWord) (at_ : s.pc t = .contendedCas l prev)
      (same : s.word l = prev) :
      Move s t (((s.store l .free).setHeld t l false).goto t (.componentRelease l))
  | mismatch (l : LockId) (at_ : s.pc t = .componentTake l) (known : s.known l = true)
      (differs : s.genNum l ≠ s.generation) :
      Move s t ({ s with genNum := update s.genNum l s.generation }.goto t (.takeRead l))
  | block (l : LockId) (at_ : s.pc t = .componentTake l) (known : s.known l = true)
      (equal : s.genNum l = s.generation) :
      Move s t ({ s with generation := s.generation + 1
                         bThds := update s.bThds l (t :: s.bThds l) }.goto t (.asleep l))
  | wake (l : LockId) (at_ : s.pc t = .componentRelease l) (known : s.known l = true) :
      Move s t ({ s with generation := s.generation + 1
                         bThds := update s.bThds l []
                         pc := fun u => if u ∈ s.bThds l then .takeRead l else s.pc u }.goto t .idle)
  | releaseUnknown (l : LockId) (at_ : s.pc t = .componentRelease l) (unknown : s.known l = false) :
      Move s t ({ s with generation := s.generation + 1 }.goto t .idle)

variable {s : State} {s' : State} {label : Label}

theorem lockComponentTake_move {t : Tid} {l : LockId}
    (at_ : s.pc t = .componentTake l) : Move s t (lockComponentTake s t l) := by
  have leaves : Leaves s t := by simp [Leaves, at_]
  unfold lockComponentTake
  split
  · exact .advance _ leaves trivial
  rename_i known
  have known : s.known l := by simpa using known
  split
  · exact .advance _ leaves trivial
  · split
    next differs => exact .mismatch l at_ known differs
    next equal => exact .block l at_ known (by simpa using equal)

/-- The effects of a thread's step, once for all invariants. -/
theorem threadStep_move {t : Tid} (h : threadStep s t = some s') : Move s t s' := by
  have leaves : (∀ l, s.pc t ≠ .takeCheck l) → (∀ l, s.pc t ≠ .asleep l) →
      (∀ l, s.pc t ≠ .componentRelease l) → Leaves s t := by
    intro check asleep release
    unfold Leaves
    split <;> simp_all
  unfold threadStep at h
  cases at_ : s.pc t <;> simp only [at_, reduceCtorEq, not_false_eq_true, ne_eq, forall_const] at h leaves
  case takeRead l =>
    split at h
    · cases h; exact .advance _ leaves trivial
    · split at h
      next owned => cases h; exact .advance _ leaves owned
      next unowned => cases h; exact .advance _ leaves (by simpa [Arrives] using unowned)
  case takeCas l prev =>
    split at h
    next same => cases h; exact .acquire l prev at_ same
    · cases h; exact .advance _ leaves trivial
  case takeCheck l =>
    split at h
    next owner => cases h; exact .hold l at_ owner
    next other => cases h; exact .advance _ (by simpa [Leaves, at_] using other) trivial
  case pretake l prev =>
    cases h
    unfold lockComponentPretake
    split
    · exact .pretake l prev at_
    · exact .advance _ leaves trivial
  case ownerRead l prev =>
    split at h
    · cases h; exact .advance _ leaves trivial
    · cases h; exact .advance _ leaves at_
  case contestedRead l prev =>
    split at h
    next contested => cases h; exact .advance _ leaves contested
    · cases h; exact .advance _ leaves at_
  case contestedCas l prev =>
    split at h
    next same => cases h; exact .contest l prev at_ same
    · cases h; exact .advance _ leaves trivial
  case contestedCheck l =>
    split at h
    next contested => cases h; exact .advance _ leaves contested
    · cases h; exact .advance _ leaves trivial
  case componentTake l =>
    cases h
    exact lockComponentTake_move at_
  case releaseRead l =>
    split at h
    next other => cases h; exact .advance _ leaves ⟨l, at_, other⟩
    rename_i owner
    have owner : (s.word l).owner = t := by simpa using owner
    split at h
    next contested => cases h; exact .advance _ leaves ⟨at_, rfl, by rw [← owner, ← contested]⟩
    next quiet =>
      have quiet : (s.word l).contested = false := by simpa using quiet
      cases h; exact .advance _ leaves ⟨at_, rfl, by rw [← owner, ← quiet]⟩
  case releaseCas l prev =>
    split at h
    next same => cases h; exact .release l prev at_ same
    · cases h; exact .advance _ leaves (.inr ⟨prev, at_⟩)
  case releaseCheck l =>
    split at h
    all_goals cases h; exact .advance _ leaves trivial
  case contendedCas l prev =>
    split at h
    next same => cases h; exact .releaseContended l prev at_ same
    next differs => cases h; exact .advance _ leaves ⟨l, prev, at_, differs⟩
  case componentRelease l =>
    cases h
    unfold lockComponentRelease
    split
    next known => exact .wake l at_ known
    next unknown => exact .releaseUnknown l at_ (by simpa using unknown)

/-- Every step is a move of the thread it names, and thread 0 does not call. -/
theorem step_move (h : step s label = some s') : Move s label.thread s' ∧ (label.thread = 0 → s.pc 0 ≠ .idle) := by
  cases label with
  | callTake =>
    simp only [step, ite_none_right_eq_some, some.injEq] at h
    obtain ⟨⟨nonzero, idle⟩, rfl⟩ := h
    exact ⟨.advance _ (by simp [Leaves, Label.thread, idle]) trivial, fun zero => absurd zero nonzero⟩
  | callRelease =>
    simp only [step, ite_none_right_eq_some, some.injEq] at h
    obtain ⟨⟨nonzero, idle⟩, rfl⟩ := h
    exact ⟨.advance _ (by simp [Leaves, Label.thread, idle]) (.inl idle), fun zero => absurd zero nonzero⟩
  | run =>
    refine ⟨threadStep_move h, ?_⟩
    rintro rfl idle
    simp [step, threadStep, idle] at h

/-- A thread inside the lock code moves by running. -/
theorem step_run (h : step s label = some s') (inside : s.pc label.thread ≠ .idle) : label = .run label.thread := by
  cases label with
  | run t => rfl
  | _ => simp_all [step, Label.thread]

/-- The other threads stay where they are, but for those woken to read the lock word again. -/
theorem Move.others {t u : Tid} (move : Move s t s') (other : u ≠ t) :
    s'.pc u = s.pc u ∨ ∃ l, u ∈ s.bThds l ∧ s'.pc u = .takeRead l := by
  cases move with
  | wake l =>
    by_cases woken : u ∈ s.bThds l
    · exact .inr ⟨l, woken, by simp [other, woken]⟩
    · exact .inl (by simp [other, woken])
  | _ => exact .inl (by simp [other])

end SuperGlue.Source.Lock.TwoPhase
