import SuperGlue.Guarantees.LockMutex

/-!
# Lost wakeups in the two-phase lock

`lock_component_take` blocks its caller when the lock's `gen_num` equals the global generation. The
comment on `lock_component_pretake` says what that equality is for: no release happened since the
caller's own pretake. But `gen_num` is one field per lock, and every pretake and every mismatching
take of any other thread refreshes it, so equality says nothing about the caller. The guard below
asks for what the comment promises, and is enough for every wakeup to be delivered.
-/
namespace SuperGlue.Guarantees.LockWakeup
open Function (update update_eq_self_iff)
open Lib.Transition Source.Lock.TwoPhase LockMutex

variable (s : State)

/-- The lock word has an owner and is marked contested. -/
def OwnedContested (l : LockId) : Prop :=
  (s.word l).owner ≠ 0 ∧ (s.word l).contested = true

/-- Some thread has cleared the contested word and has yet to run `lock_component_release`. -/
def WakeupPending (l : LockId) : Prop :=
  ∃ u, s.pc u = .componentRelease l

/-- Whoever is linked on a blocked list will be found by a release. -/
def NoLostWakeup : Prop :=
  ∀ l, s.bThds l ≠ [] → OwnedContested s l ∨ WakeupPending s l

/-- The guard: when a `lock_component_take` finds `gen_num` equal to the generation, the generation
has not moved since the calling thread's own `lock_component_pretake`. -/
def TakesCurrent : Label → Prop
  | .run t =>
    match s.pc t with
    | .componentTake l => s.genNum l = s.generation → s.pretakeGen t = s.generation
    | _ => True
  | _ => True

instance : DecidableRel TakesCurrent
  | _, .run _ => by
    dsimp only [TakesCurrent]
    split <;> infer_instance
  | _, .callTake .. | _, .callRelease .. => instDecidableTrue

/-- A lock on which a sleeper will be found: contested, or being released. -/
def Covered (l : LockId) : Prop :=
  OwnedContested s l ∨ WakeupPending s l

variable {s s' : State} {t : Tid} {l : LockId}

/-- A thread about to run `lock_component_release` stays there until it runs. -/
theorem componentRelease_stays (asleep : Asleep s) (move : Move s t s') {u : Tid} (other : u ≠ t)
    (at_ : s.pc u = .componentRelease l) : s'.pc u = .componentRelease l := by
  rcases move.others other with same | ⟨k, sleeper, -⟩
  · exact same.trans at_
  · simp [asleep u k sleeper] at at_

/-- Only `lock_component_release` for the lock itself can leave it uncovered. -/
theorem covered_move (inv : LockInv s)
    (move : Move s t s') (other : s.pc t ≠ .componentRelease l) (covered : Covered s l) : Covered s' l := by
  rcases covered with owned | pending
  · cases move with
    | contest k prev at_ =>
      have foreign : prev.owner ≠ 0 := by simpa [CopyFacts, at_] using inv.words.copies t
      refine .inl ?_
      by_cases eq : l = k
      · simpa [OwnedContested, eq] using foreign
      · simpa [OwnedContested, eq] using owned
    | acquire k prev at_ same =>
      have free : prev.owner = 0 := by simpa [CopyFacts, at_] using inv.words.copies t
      have eq : l ≠ k := by
        rintro rfl
        exact owned.1 (by rw [same, free])
      exact .inl (by simpa [OwnedContested, eq] using owned)
    | release k prev at_ same =>
      have copy : prev = ⟨t, false⟩ := by simpa [CopyFacts, at_] using inv.words.copies t
      have eq : l ≠ k := by
        rintro rfl
        simpa [same, copy] using owned.2
      exact .inl (by simpa [OwnedContested, eq] using owned)
    | releaseContended k =>
      by_cases eq : l = k
      · exact .inr ⟨t, by simp [eq]⟩
      · exact .inl (by simpa [OwnedContested, eq] using owned)
    | _ => exact .inl (by simpa [OwnedContested] using owned)
  · obtain ⟨u, at_⟩ := pending
    refine .inr ⟨u, componentRelease_stays inv.asleep move ?_ at_⟩
    rintro rfl
    exact other at_

/-- What keeps sleepers covered: a thread about to call `lock_component_take` with a current
generation has a covered lock. -/
structure WakeupInv (s : State) : Prop where
  pretakeGen_le : ∀ t, s.pretakeGen t ≤ s.generation
  blocked_known : ∀ l, s.bThds l ≠ [] → s.known l = true
  taking : ∀ t l, s.pc t = .componentTake l → s.pretakeGen t = s.generation → Covered s l
  blocked : NoLostWakeup s

/-- Steps that leave the generation and the blocked lists alone. -/
theorem wakeupInv_quiet (inv : LockInv s) (wakeup : WakeupInv s) (move : Move s t s')
    (other : ∀ l, s.pc t ≠ .componentRelease l) (generation : s'.generation = s.generation) (bThds : s'.bThds = s.bThds)
    (known : s'.known = s.known) (pretake : ∀ u, s'.pretakeGen u = s.pretakeGen u ∨ s'.pretakeGen u = s.generation)
    (taking : ∀ u l, s'.pc u = .componentTake l →
      Covered s' l ∨ s.pc u = .componentTake l ∧ s'.pretakeGen u = s.pretakeGen u) : WakeupInv s' := by
  refine ⟨?_, ?_, ?_, ?_⟩
  · intro u
    have le := wakeup.pretakeGen_le u
    rcases pretake u with h | h <;> omega
  · rw [bThds, known]
    exact wakeup.blocked_known
  · intro u l at_ current
    rcases taking u l at_ with covered | ⟨before, same⟩
    · exact covered
    · exact covered_move inv move (other l) (wakeup.taking u l before (by omega))
  · intro l blocked
    rw [bThds] at blocked
    exact covered_move inv move (other l) (wakeup.blocked l blocked)

/-- Steps of the lock component that move the generation on. Nobody's pretake is current after
them, and a lock that keeps its sleepers stays covered. -/
theorem wakeupInv_bump (wakeup : WakeupInv s)
    (generation : s'.generation = s.generation + 1) (pretake : s'.pretakeGen = s.pretakeGen)
    (known : ∀ l, s'.bThds l ≠ [] → s'.known l) (blocked : NoLostWakeup s') : WakeupInv s' := by
  refine ⟨?_, known, ?_, blocked⟩
  · intro u
    have le := wakeup.pretakeGen_le u
    rw [pretake]
    omega
  · intro u l _ current
    have le := wakeup.pretakeGen_le u
    rw [pretake] at current
    omega

theorem wakeupInv_move (inv : LockInv s) (wakeup : WakeupInv s) (move : Move s t s')
    (current : ∀ l, s.pc t = .componentTake l → s.genNum l = s.generation → s.pretakeGen t = s.generation) :
    WakeupInv s' := by
  cases move with
  | advance pc leaves arrives =>
    have other : ∀ l, s.pc t ≠ .componentRelease l := by
      intro l at_
      simp [Leaves, at_] at leaves
    refine wakeupInv_quiet inv wakeup (.advance pc leaves arrives) other rfl rfl rfl (fun _ => .inl rfl) ?_
    intro u l at_
    by_cases moved : u = t
    · -- Arriving at the call means the contested bit has just been read as set.
      have here : pc = .componentTake l := by simpa [moved] using at_
      subst here
      have contested : (s.word l).contested := arrives
      refine .inl (.inl ⟨fun free => ?_, by simpa using contested⟩)
      simp [inv.words.free_uncontested l (by simpa using free)] at contested
    · exact .inr ⟨by simpa [moved] using at_, rfl⟩
  | block l at_ known equal =>
    have here := wakeup.taking t l at_ (current l at_ equal)
    have stays := fun k => covered_move inv (.block l at_ known equal) (l := k) (by simp [at_])
    refine wakeupInv_bump wakeup rfl rfl ?_ ?_
    · intro k blocked
      by_cases eq : k = l
      · simpa [eq] using known
      · exact wakeup.blocked_known k (by simpa [eq] using blocked)
    · intro k blocked
      by_cases eq : k = l
      · exact stays k (by rw [eq]; exact here)
      · exact stays k (wakeup.blocked k (by simpa [eq] using blocked))
  | wake l at_ known =>
    refine wakeupInv_bump wakeup rfl rfl ?_ ?_
    all_goals
      intro k blocked
      have eq : k ≠ l := by
        rintro rfl
        simp at blocked
      have before : s.bThds k ≠ [] := by simpa [eq] using blocked
    · exact wakeup.blocked_known k before
    · exact covered_move inv (.wake l at_ known) (by simpa [at_] using Ne.symm eq) (wakeup.blocked k before)
  | releaseUnknown l at_ unknown =>
    refine wakeupInv_bump wakeup rfl rfl wakeup.blocked_known ?_
    intro k blocked
    have eq : l ≠ k := by
      rintro rfl
      simp [wakeup.blocked_known l blocked] at unknown
    exact covered_move inv (.releaseUnknown l at_ unknown) (by simpa [at_] using eq) (wakeup.blocked k blocked)
  | _ =>
    refine wakeupInv_quiet inv wakeup (by constructor <;> assumption) (by simp [*]) rfl rfl rfl ?_ ?_
    · intro u
      by_cases moved : u = t <;> simp [moved]
    · intro u l at_
      by_cases moved : u = t <;> simp_all

variable {label : Label} {known : LockId → Bool}

theorem wakeupInv_step (inv : LockInv s) (wakeup : WakeupInv s)
    (guard : TakesCurrent s label) (h : step s label = some s') : WakeupInv s' := by
  refine wakeupInv_move inv wakeup (step_move h).1 fun l at_ => ?_
  rw [step_run h (by simp [at_])] at guard
  simpa only [TakesCurrent, at_] using guard

theorem wakeupInv_reachable (reached : Reachable (lockSystem known) TakesCurrent s) : WakeupInv s := by
  have both : LockInv s ∧ WakeupInv s := by
    refine reached.invariant (fun s => LockInv s ∧ WakeupInv s) ⟨lockInv_init known, ?_⟩ ?_
    · constructor <;> simp [lockSystem, init, NoLostWakeup]
    · intro s label s' inv guard h
      exact ⟨lockInv_step inv.1 h, wakeupInv_step inv.1 inv.2 guard h⟩
  exact both.2

/-! ## Progress of sleepers -/

/-- A sleeper leaves the blocked list only by the release that wakes it. -/
theorem sleeper_step (asleep : Asleep s) (mem : t ∈ s.bThds l) (h : step s label = some s') :
    t ∈ s'.bThds l ∨ t ∉ s'.bThds l ∧ s'.pc t = .takeRead l := by
  obtain ⟨move, _⟩ := step_move h
  have sleeping := asleep t l mem
  cases move with
  | block k =>
    refine .inl ?_
    by_cases eq : l = k
    · subst eq
      simp [mem]
    · simpa [eq] using mem
  | wake k at_ =>
    by_cases eq : l = k
    · subst eq
      have moved : t ≠ label.thread := by
        intro same
        simp [← same, sleeping] at at_
      exact .inr ⟨by simp, by simp [moved, mem]⟩
    · exact .inl (by simpa [eq] using mem)
  | _ => exact .inl (by simpa using mem)

variable {u : Tid}

section Progress

variable {known : LockId → Bool} (run : Trace (lockSystem known) TakesCurrent)

/-- Every owner of a lock releases it at some point. -/
def OwnersRelease : Prop :=
  ∀ n l, ((run.state n).word l).owner ≠ 0 → ∃ m, n ≤ m ∧ ((run.state m).word l).owner = 0

/-- No thread that can take its next step is passed over for ever. -/
def FairToThreads : Prop :=
  ∀ n t, ∃ m, n ≤ m ∧ (run.label m = .run t ∨ step (run.state m) (.run t) = none)

variable {run} {n : Nat} {l : LockId}

theorem pending_delivered (fair : FairToThreads run) {u : Tid} (at_ : (run.state n).pc u = .componentRelease l) :
    ∃ m, n ≤ m ∧ run.label m = .run u ∧ (run.state m).pc u = .componentRelease l := by
  by_cases stays : ∀ m, n ≤ m → (run.state m).pc u = .componentRelease l
  · obtain ⟨m, le, ran | disabled⟩ := fair n u
    · exact ⟨m, le, ran, stays m le⟩
    · simp [step, threadStep, stays m le] at disabled
  simp only [not_forall] at stays
  obtain ⟨m, le, left⟩ := stays
  obtain ⟨k, first, _, here, next⟩ :=
    exists_last_before (P := fun m => (run.state m).pc u = .componentRelease l) le at_ left
  refine ⟨k, first, ?_, here⟩
  by_cases own : u = (run.label k).thread
  · exact own ▸ step_run (run.next k) (by simp [← own, here])
  · have asleep := (lockInv_reachable (run.reachable k)).asleep
    exact absurd (componentRelease_stays asleep (step_move (run.next k)).1 own here) next

/-- As long as a thread sleeps, some thread comes to owe the wakeup. -/
theorem sleeper_pending (owners : OwnersRelease run) {t : Tid} (sleeps : ∀ m, n ≤ m → t ∈ (run.state m).bThds l) :
    ∃ m u, n ≤ m ∧ (run.state m).pc u = .componentRelease l := by
  have covered : ∀ m, n ≤ m → Covered (run.state m) l := by
    intro m le
    exact (wakeupInv_reachable (run.reachable m)).blocked l (List.ne_nil_of_mem (sleeps m le))
  rcases covered n (Nat.le_refl n) with owned | ⟨u, at_⟩
  · obtain ⟨m, le, free⟩ := owners n l owned.1
    rcases covered m le with owned | ⟨u, at_⟩
    · exact absurd free owned.1
    · exact ⟨m, u, le, at_⟩
  · exact ⟨n, u, Nat.le_refl n, at_⟩

theorem sleeper_woken (owners : OwnersRelease run) (fair : FairToThreads run) {t : Tid}
    (mem : t ∈ (run.state n).bThds l) :
    ∃ m, n < m ∧ t ∉ (run.state m).bThds l ∧ (run.state m).pc t = .takeRead l := by
  by_cases sleeps : ∀ m, n ≤ m → t ∈ (run.state m).bThds l
  · obtain ⟨m, u, le, at_⟩ := sleeper_pending owners sleeps
    obtain ⟨k, later, ran, here⟩ := pending_delivered fair at_
    have inv := wakeupInv_reachable (run.reachable k)
    have mem := sleeps k (Nat.le_trans le later)
    have known := inv.blocked_known l (List.ne_nil_of_mem mem)
    -- the release of a known lock empties its blocked list
    have released : step _ (.run u) = _ := ran ▸ run.next k
    simp only [step, threadStep, here, lockComponentRelease, known, Option.some.injEq] at released
    have still := sleeps (k + 1) (by omega)
    simp [← released] at still
  · simp only [not_forall] at sleeps
    obtain ⟨m, le, left⟩ := sleeps
    obtain ⟨k, first, _, here, next⟩ := exists_last_before (P := fun m => t ∈ (run.state m).bThds l) le mem left
    have asleep := (lockInv_reachable (run.reachable k)).asleep
    rcases sleeper_step asleep here (run.next k) with still | woken
    · exact absurd still next
    · exact ⟨k + 1, by omega, woken⟩

end Progress

/-- In every run whose takes are current nobody sleeps on a lock that no release will visit; so, if
owners release and threads are scheduled fairly, every sleeper is woken. -/
theorem wakeups_delivered_when_current (known : LockId → Bool) :
    (∀ s, Reachable (lockSystem known) TakesCurrent s → NoLostWakeup s) ∧
    ∀ run : Trace (lockSystem known) TakesCurrent, OwnersRelease run → FairToThreads run →
      ∀ n t l, t ∈ (run.state n).bThds l → ∃ m, n < m ∧ t ∉ (run.state m).bThds l ∧ (run.state m).pc t = .takeRead l :=
  ⟨fun _ reached => (wakeupInv_reachable reached).blocked,
    fun _ owners fair _ _ _ mem => sleeper_woken owners fair mem⟩

/-- A thread takes and releases a lock that nobody else asks for. -/
def takeRelease (t : Tid) (l : LockId) : List Label :=
  [.callTake t l, .run t, .run t, .run t, .callRelease t l, .run t, .run t, .run t]

/-- Outside the lock code everything is as before. -/
theorem takeRelease_returns (thread : t ≠ 0) (idle : s.pc t = .idle) (free : s.word l = .free)
    (apart : s.held t l = false) : exec (lockSystem known) TakesCurrent s (takeRelease t l) = some s := by
  have other := thread.symm
  have same : update s.pc t .idle = s.pc := update_eq_self_iff.mpr idle.symm
  have word : update s.word l ⟨0, false⟩ = s.word := update_eq_self_iff.mpr free.symm
  have held : update s.held t (update (s.held t) l false) = s.held := by
    rw [update_eq_self_iff.mpr (update_eq_self_iff.mpr apart.symm)]
  simp [exec, takeRelease, TakesCurrent, lockSystem, step, threadStep, State.goto, State.store, State.setHeld,
    LockWord.free, *]

/-- Thread 2 sleeps on the lock of thread 1 until thread 1 releases it, and then has its turn. -/
def turns : List Label :=
  [.run 1, .run 1, .run 1, .callTake 2 0, .run 2, .run 2, .run 2, .run 2, .run 2, .run 2, .run 2,
    .callRelease 1 0, .run 1, .run 1, .run 1, .run 2, .run 2, .run 2, .callRelease 2 0, .run 2, .run 2, .run 2]

/-- In a fair run with current takes thread 2 goes to sleep on the lock that thread 1 holds, and is woken. -/
theorem wakeups_delivered_for_sleeper : ∃ run : Trace (lockSystem fun _ => true) TakesCurrent,
    OwnersRelease run ∧ FairToThreads run ∧ (run.state 12).bThds 0 = [2] ∧
      (OwnedContested (run.state 12) 0 ∨ WakeupPending (run.state 12) 0) ∧
      ∃ m, 12 < m ∧ 2 ∉ (run.state m).bThds 0 ∧ (run.state m).pc 2 = .takeRead 0 := by
  have final : ∃ s, exec (lockSystem fun _ => true) TakesCurrent (init fun _ => true) (.callTake 1 0 :: turns) = some s ∧
      (∀ t, s.pc t = .idle) ∧ (∀ l, s.word l = .free) ∧ s.held 1 0 = false := by
    refine ⟨_, rfl, fun t => ?_, fun l => ?_, rfl⟩
    · rcases t with _ | _ | _ | t <;> rfl
    · cases l <;> rfl
  obtain ⟨s, ahead, idle, free, apart⟩ := final
  obtain ⟨run, states, returns⟩ := Trace.exists_laps (takeRelease_returns (by decide) (idle 1) (free 0) apart) ahead
  have owners : OwnersRelease run := by
    intro n l _
    obtain ⟨m, later, here⟩ := returns n
    exact ⟨m, later, by rw [here, free]; rfl⟩
  have fair : FairToThreads run := by
    intro n t
    obtain ⟨m, later, here⟩ := returns n
    exact ⟨m, later, .inr (by rw [here, step, threadStep, idle])⟩
  have sleeper : (run.state 12).bThds 0 = [2] := by
    rw [states]
    rfl
  obtain ⟨safe, progress⟩ := wakeups_delivered_when_current fun _ => true
  exact ⟨run, owners, fair, sleeper, safe _ (run.reachable 12) 0 (by simp [sleeper]),
    progress run owners fair 12 2 0 (by simp [sleeper])⟩

/-! ## The run that loses a wakeup -/

/-- A thread that no label names has stayed outside the lock code. -/
theorem pc_idle_of_unnamed {guard : State → Label → Prop} {labels : List Label}
    (run : Run (lockSystem known) guard labels s) (unnamed : ∀ label ∈ labels, label.thread ≠ u) : s.pc u = .idle := by
  induction run with
  | start => rfl
  | @next labels s label s' before _ h ih =>
    have idle := ih fun label mem => unnamed label (by simp [mem])
    have moved := Ne.symm (unnamed label (by simp))
    have asleep := (lockInv_reachable ⟨labels, before⟩).asleep
    cases (step_move h).1 with
    | wake k =>
      have awake : u ∉ s.bThds k := by
        intro mem
        simp [asleep u k mem] at idle
      simpa [moved, awake] using idle
    | _ => simpa [moved] using idle

/-- Three threads: 1 holds lock 0; 2 and 3 contend and stop before `lock_component_take`; 1
releases and finds nobody to wake; 3's take mismatches and refreshes `gen_num`; 2's take matches. -/
def lostWakeup : List Label :=
  [.callTake 1 0, .run 1, .run 1, .run 1,
   .callTake 2 0, .run 2, .run 2, .run 2, .run 2, .run 2, .run 2,
   .callTake 3 0, .run 3, .run 3, .run 3, .run 3,
   .callRelease 1 0, .run 1, .run 1, .run 1,
   .run 3, .run 2]

/-- At the end of `lostWakeup` thread 2 sleeps on a free lock, and nobody is releasing it. -/
theorem noLostWakeup_fails : ¬ ∀ s, Reachable (lockSystem fun _ => true) ReleasesOwn s → NoLostWakeup s := by
  intro claim
  obtain ⟨s, run, sleeper, free, nobody⟩ := exec_ends (lockSystem fun _ => true) ReleasesOwn lostWakeup
    (fun s => s.bThds 0 = [2] ∧ s.word 0 = .free ∧ ∀ u : Nat, u < 4 → s.pc u ≠ .componentRelease 0) (by decide)
  rcases claim s ⟨lostWakeup, run⟩ 0 (by simp [sleeper]) with owned | ⟨u, at_⟩
  · simp [OwnedContested, free, LockWord.free] at owned
  by_cases named : u < 4
  · exact nobody u named at_
  · have names : ∀ label ∈ lostWakeup, label.thread < 4 := by decide
    have idle : s.pc u = .idle := pc_idle_of_unnamed run fun label mem same =>
      named (same ▸ names label mem)
    simp [idle] at at_

end SuperGlue.Guarantees.LockWakeup
