import SuperGlue.Source.Lock.TwoPhase

/-!
# Mutual exclusion of the user-level lock

The owner field of the lock word names the thread that holds the lock, whatever the interleaving of
the steps of `lock_take` and `lock_release`. A thread's stale copy of the word matters only at its
compare-and-swap, so the invariant speaks about the copies that a swap can still use.
-/
namespace SuperGlue.Guarantees.LockMutex
open Lib.Transition Source.Lock.TwoPhase

/-- A thread linked on a blocked list sleeps in `lock_component_take` for that lock. -/
def Asleep (s : State) : Prop :=
  ∀ u l, u ∈ s.bThds l → s.pc u = .asleep l

variable {s s' : State} {t : Tid}

theorem asleep_move (asleep : Asleep s) (move : Move s t s') : Asleep s' := by
  intro u k mem
  cases move with
  | advance pc leaves =>
    have sleeping := asleep u k mem
    by_cases moved : u = t
    · subst moved
      simp [Leaves, sleeping] at leaves
    · simpa [moved] using sleeping
  | block =>
    have sleeping := asleep u k
    simp only [goto_bThds, goto_pc] at mem ⊢
    grind
  | wake =>
    have sleeping := asleep u
    simp only [goto_bThds, goto_pc] at mem ⊢
    grind
  | _ =>
    have sleeping := asleep u k (by simpa using mem)
    by_cases moved : u = t
    · simp_all
    · simpa [moved] using sleeping

/-- What a thread's local copy of the lock word is good for, by control point. -/
def CopyFacts (s : State) (t : Tid) : Prop :=
  match s.pc t with
  | .takeCas _ prev => prev.owner = 0
  | .pretake _ prev | .ownerRead _ prev | .contestedRead _ prev | .contestedCas _ prev =>
    prev.owner ≠ 0
  | .releaseCas _ prev => prev = ⟨t, false⟩
  | .contendedCas l prev => s.word l = prev ∧ prev = ⟨t, true⟩
  | _ => True

/-- The thread owns the lock: it has returned from `lock_take`, or is about to. -/
def Owns (s : State) (t : Tid) (l : LockId) : Prop :=
  s.held t l = true ∨ s.pc t = .takeCheck l

structure WordInv (s : State) : Prop where
  owner_iff : ∀ t l, t ≠ 0 → ((s.word l).owner = t ↔ Owns s t l)
  free_uncontested : ∀ l, (s.word l).owner = 0 → (s.word l).contested = false
  no_thread : s.pc 0 = .idle ∧ ∀ l, s.held 0 l = false
  copies : ∀ t, CopyFacts s t

theorem wordInv_init (known : LockId → Bool) : WordInv (init known) := by
  refine ⟨?_, ?_, ⟨rfl, fun _ => rfl⟩, ?_⟩
  · intro t l nonzero
    simpa [init, LockWord.free, Owns] using nonzero.symm
  · intro l _
    rfl
  · intro t
    simp [CopyFacts, init]

variable {pc : Pc} {label : Label} {known : LockId → Bool}

theorem copyFacts_arrives (facts : CopyFacts s t) (arrives : Arrives s t pc) : CopyFacts (s.goto t pc) t := by
  cases pc with
  | releaseCas =>
    obtain ⟨_, _, copy⟩ := arrives
    simpa [CopyFacts] using copy
  | contendedCas =>
    obtain ⟨_, read, copy⟩ := arrives
    simpa [CopyFacts, ← read] using copy
  | _ => simp_all [CopyFacts, Arrives]

section

variable (inv : WordInv s)
include inv

theorem owner_move (asleep : Asleep s) (move : Move s t s') {u : Tid} {k : LockId} (thread : u ≠ 0) :
    (s'.word k).owner = u ↔ Owns s' u k := by
  have owner := inv.owner_iff u k thread
  have facts := inv.copies t
  cases move with
  | advance pc leaves arrives =>
    -- The thread was not at `takeCheck` as an owner, and does not arrive there.
    have after : pc ≠ .takeCheck k := by
      rintro rfl
      exact arrives
    have before : s.pc t = .takeCheck k → (s.word k).owner ≠ t := by
      intro check
      simpa [Leaves, check] using leaves
    simp only [Owns, goto_word, goto_held, goto_pc] at owner ⊢
    grind
  | wake l at_ =>
    have sleeping := asleep u l
    simp only [Owns, goto_word, goto_held, goto_pc] at owner ⊢
    grind
  | _ =>
    simp only [CopyFacts] at facts
    simp only [Owns, goto_word, setHeld_word, store_word, goto_held, setHeld_held, store_held, goto_pc, setHeld_pc,
      store_pc] at owner ⊢
    grind [LockWord.free]

theorem free_move (move : Move s t s') {k : LockId} (free : (s'.word k).owner = 0) : (s'.word k).contested = false := by
  have before := inv.free_uncontested k
  have facts := inv.copies t
  cases move with
  | contest | acquire | release | releaseContended =>
    simp only [CopyFacts] at facts
    simp only [goto_word, setHeld_word, store_word] at free ⊢
    grind [LockWord.free]
  | _ => exact before free

/-- Nobody else writes the word that a contended release is about to swap. -/
theorem contendedCas_kept (move : Move s t s') {u : Tid} {l : LockId} {prev : LockWord} (other : u ≠ t)
    (at_ : s.pc u = .contendedCas l prev) : s'.word l = s.word l := by
  -- only the owner of a lock can be at this swap
  have owner := inv.copies u
  simp only [CopyFacts] at owner
  have facts := inv.copies t
  have thread : u ≠ 0 := by
    rintro rfl
    simp [inv.no_thread.1] at at_
  cases move with
  | contest | acquire | release | releaseContended =>
    simp only [CopyFacts] at facts
    simp only [goto_word, setHeld_word, store_word]
    grind
  | _ => rfl

theorem copies_move (move : Move s t s') (u : Tid) : CopyFacts s' u := by
  have facts := inv.copies t
  by_cases moved : u = t
  · subst moved
    cases move with
    | advance pc leaves arrives => exact copyFacts_arrives facts arrives
    | pretake l prev at_ => simpa [CopyFacts, at_] using facts
    | _ => simp [CopyFacts]
  · rcases move.others moved with same | ⟨l, -, woken⟩
    · -- the facts depend on the control point, and on the word that a contended release is about to swap
      have facts := inv.copies u
      unfold CopyFacts at facts ⊢
      rw [same]
      cases at_ : s.pc u <;> simp only [at_] at facts ⊢
      case contendedCas => rwa [contendedCas_kept inv move moved at_]
      all_goals exact facts
    · simp [CopyFacts, woken]

theorem wordInv_move (asleep : Asleep s) (nonzero : t ≠ 0) (move : Move s t s') : WordInv s' := by
  refine ⟨fun u l thread => owner_move inv asleep move thread, fun l free => free_move inv move free, ⟨?_, fun l => ?_⟩,
    copies_move inv move⟩
  · rcases move.others (Ne.symm nonzero) with same | ⟨l, sleeper, -⟩
    · exact same.trans inv.no_thread.1
    · simpa [inv.no_thread.1] using asleep 0 l sleeper
  · have held := inv.no_thread.2 l
    cases move <;> simpa [Ne.symm nonzero] using held

end

/-- The invariant of every run, disciplined or not. -/
structure LockInv (s : State) : Prop where
  asleep : Asleep s
  words : WordInv s

theorem lockInv_step (inv : LockInv s) (h : step s label = some s') : LockInv s' := by
  obtain ⟨move, thread⟩ := step_move h
  have nonzero : label.thread ≠ 0 := fun zero => thread zero inv.words.no_thread.1
  exact ⟨asleep_move inv.asleep move, wordInv_move inv.words inv.asleep nonzero move⟩

theorem lockInv_init (known : LockId → Bool) : LockInv (init known) :=
  ⟨fun _ _ mem => by simp [init] at mem, wordInv_init known⟩

theorem lockInv_reachable {guard : State → Label → Prop} (reached : Reachable (lockSystem known) guard s) : LockInv s :=
  reached.invariant LockInv (lockInv_init known) fun _ _ _ inv _ h => lockInv_step inv h

/-! ## Callers that release only what they hold -/

/-- The guard on callers: `lock_release` is called by a thread that holds the lock. -/
def ReleasesOwn (s : State) : Label → Prop
  | .callRelease t l => s.held t l = true
  | _ => True

instance : DecidableRel ReleasesOwn := fun s label => by
  cases label <;> simp only [ReleasesOwn] <;> infer_instance

/-- The thread is in `__lock_release`, before the swap that frees the lock. -/
def Releasing (s : State) (t : Tid) (l : LockId) : Prop :=
  s.pc t = .releaseRead l ∨ ∃ prev, s.pc t = .releaseCas l prev

/-- Neither BUG has been hit, and a thread that is releasing holds the lock. -/
structure NoBug (s : State) : Prop where
  release : ∀ t, s.pc t ≠ .releaseBug
  contention : ∀ t, s.pc t ≠ .contentionBug
  releasing : ∀ t l, Releasing s t l → s.held t l = true

/-- A thread that holds the lock does not reach the BUG of `__lock_release`, and the copy that a
contended release swaps is never stale. -/
theorem noBug_arrives (inv : WordInv s) (bug : NoBug s) (nonzero : t ≠ 0) (arrives : Arrives s t pc)
    (caller : ∀ l, pc = .releaseRead l → s.pc t = .idle → s.held t l) :
    pc ≠ .releaseBug ∧ pc ≠ .contentionBug ∧ ∀ l, Releasing (s.goto t pc) t l → s.held t l := by
  refine ⟨?_, ?_, ?_⟩
  · rintro rfl
    obtain ⟨l, at_, other⟩ := arrives
    exact other ((inv.owner_iff t l nonzero).2 (.inl (bug.releasing t l (.inl at_))))
  · rintro rfl
    obtain ⟨l, prev, at_, differs⟩ := arrives
    have facts := inv.copies t
    simp only [CopyFacts, at_] at facts
    exact differs facts.1
  · intro l releasing
    simp only [Releasing, goto_pc, if_true] at releasing
    rcases releasing with rfl | ⟨prev, rfl⟩
    · rcases arrives with idle | retry
      · exact caller l rfl idle
      · exact bug.releasing t l (.inr retry)
    · exact bug.releasing t l (.inl arrives.1)

/-- `held` is lost only by the thread's own releasing swap, which ends its releasing. -/
theorem noBug_move (inv : LockInv s) (bug : NoBug s) (nonzero : t ≠ 0) (move : Move s t s')
    (caller : ∀ l, s'.pc t = .releaseRead l → s.pc t = .idle → s.held t l) : NoBug s' := by
  have all : ∀ u, s'.pc u ≠ .releaseBug ∧ s'.pc u ≠ .contentionBug ∧ ∀ l, Releasing s' u l → s'.held u l := by
    intro u
    by_cases moved : u = t
    · subst moved
      cases move with
      | advance pc leaves arrives =>
        simpa using noBug_arrives inv.words bug nonzero arrives (by simpa using caller)
      | _ => simp [Releasing]
    have held : s'.held u = s.held u := by
      funext k
      cases move <;> simp [moved]
    rcases move.others moved with same | ⟨k, -, woken⟩
    · simp only [Releasing, same, held]
      exact ⟨bug.release u, bug.contention u, bug.releasing u⟩
    · simp [Releasing, woken]
  exact ⟨fun u => (all u).1, fun u => (all u).2.1, fun u => (all u).2.2⟩

theorem noBug_step (inv : LockInv s) (bug : NoBug s)
    (own : ReleasesOwn s label) (h : step s label = some s') : NoBug s' := by
  obtain ⟨move, thread⟩ := step_move h
  refine noBug_move inv bug (fun zero => thread zero inv.words.no_thread.1) move fun l arrived idle => ?_
  cases label with
  | callTake | callRelease =>
    simp only [step, Option.ite_none_right_eq_some, Option.some.injEq] at h
    obtain ⟨-, rfl⟩ := h
    simp_all [Label.thread, ReleasesOwn]
  | run t => simp_all [step, threadStep, Label.thread]

theorem noBug_reachable (reached : Reachable (lockSystem known) ReleasesOwn s) : NoBug s := by
  have both : LockInv s ∧ NoBug s := by
    refine reached.invariant (fun s => LockInv s ∧ NoBug s) ⟨lockInv_init known, ?_⟩ ?_
    · constructor <;> simp [lockSystem, init, Releasing]
    · intro s label s' inv own h
      exact ⟨lockInv_step inv.1 h, noBug_step inv.1 inv.2 own h⟩
  exact both.2

/-- Mutual exclusion over every interleaving of any number of threads. The first three parts need
nothing of the callers; the two BUGs are out of reach when each release is by a holder. -/
theorem lock_mutual_exclusion (known : LockId → Bool) : (∀ s, Reachable (lockSystem known) anyStep s →
      (∀ t u l, s.held t l = true → s.held u l = true → t = u) ∧ (∀ t l, s.held t l = true → (s.word l).owner = t) ∧
      (∀ l, (s.word l).contested = true → (s.word l).owner ≠ 0)) ∧
    ∀ s, Reachable (lockSystem known) ReleasesOwn s → ∀ t, s.pc t ≠ .releaseBug ∧ s.pc t ≠ .contentionBug := by
  constructor
  · intro s reached
    have words := (lockInv_reachable reached).words
    have owner : ∀ t l, s.held t l = true → (s.word l).owner = t := by
      intro t l held
      have nonzero : t ≠ 0 := by
        rintro rfl
        simp [words.no_thread.2 l] at held
      exact (words.owner_iff t l nonzero).2 (.inl held)
    refine ⟨?_, owner, ?_⟩
    · intro t u l ht hu
      rw [← owner t l ht, ← owner u l hu]
    · intro l contested free
      simp [words.free_uncontested l free] at contested
  · intro s reached t
    have bug := noBug_reachable reached
    exact ⟨bug.release t, bug.contention t⟩

/-- Thread 1 holds lock 0 while thread 2 sleeps on it: the hypotheses are met by a real run. -/
theorem lock_mutual_exclusion_contended : ∃ s, Reachable (lockSystem fun _ => true) anyStep s ∧ s.held 1 0 = true ∧
      s.pc 2 = .asleep 0 ∧ ∀ u, s.held u 0 = true → u = 1 := by
  refine exec_reaches
    [.callTake 1 0, .run 1, .run 1, .run 1, .callTake 2 0, .run 2, .run 2, .run 2, .run 2, .run 2,
      .run 2, .run 2] (fun s => s.held 1 0 = true ∧ s.pc 2 = .asleep 0) (by decide)
    fun s reached ⟨held, asleep⟩ => ⟨held, asleep, ?_⟩
  intro u hu
  exact ((lock_mutual_exclusion fun _ => true).1 s reached).1 u 1 0 hu held

end SuperGlue.Guarantees.LockMutex
