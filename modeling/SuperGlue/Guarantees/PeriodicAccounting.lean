import SuperGlue.Source.PeriodicWake.Timer

/-!
# Periods, waits and restarts of a periodic thread

Every period that expired since a thread was made periodic is accounted for: a wait returned for it, it
is owed as a restart, or its wakeup is in flight. The account needs two conditions. `needRestart` must
not wrap around, and a thread must not be created anew while it has a missed deadline: creation resets
the restarts that are owed and keeps `missed`, so that the next wait takes the thread for late, saves no
completion time, and blocks.
-/
namespace SuperGlue.Guarantees.PeriodicAccounting
open Option Lib.Transition Source.PeriodicWake.Timer

/-- A thread is not created while it has a missed deadline, and the restarts that are owed fit in
`need_restart`. -/
def careful (s : State) : Nat × Label → Prop
  | (tid, .create _ _ _) => (s tid).te.missed = false
  | (tid, .expire _ _) => (s tid).te.blocked = true ∨ (s tid).te.needRestart + 1 < 2 ^ 16
  | _ => True

instance : DecidableRel careful := by
  intro s label
  unfold careful
  split <;> infer_instance

/-- What the flags of a record say together, and the account of its periods. -/
structure Accounted (h : Thread) : Prop where
  account : h.te.periodic = true → h.expired = h.returned + h.te.needRestart + h.inFlight.toNat
  -- A thread that blocked was on time and has saved when it was done.
  blocked : h.te.blocked = true → h.waiting = true ∧ h.inFlight = false ∧ h.te.missed = false ∧ h.te.completion ≠ 0
  saved : h.te.missed = true → h.te.completion ≠ 0
  owed : h.te.missed = true → h.te.periodic = true → 0 < h.te.needRestart
  inFlight : h.inFlight = true → h.waiting = true

variable {h after : Thread}

section

variable (ok : Accounted h)
include ok

theorem Accounted.running (running : ¬ h.waiting) : h.inFlight = false ∧ h.te.blocked = false := by
  constructor
  · exact Bool.eq_false_iff.mpr fun flight => running (ok.inFlight flight)
  · exact Bool.eq_false_iff.mpr fun blocked => running (ok.blocked blocked).1

theorem create_accounted {ticks period : Nat} {exist : Option Nat} (fresh : h.te.missed = false)
    (step : stepThread h (.create ticks period exist) = some after) : Accounted after := by
  simp only [stepThread, bind_eq_bind, ite_none_left_eq_some] at step
  obtain ⟨running, step⟩ := step
  obtain ⟨idle, unblocked⟩ := ok.running running
  rw [bind_eq_some_iff] at step
  obtain ⟨⟨te, ret⟩, created, step⟩ := step
  simp only [periodicWakeCreate] at created
  split at created
  · cases created
    obtain rfl : h = after := by simpa using step
    exact ok
  obtain ⟨_, created⟩ := ite_none_right_eq_some.mp created
  cases created
  cases step
  refine ⟨fun _ => ?_, fun blocked => ?_, fun missed => ?_, fun missed => ?_, fun flight => ?_⟩
  · simp [idle]
  · simp [unblocked] at blocked
  · simp [fresh] at missed
  · simp [fresh] at missed
  · simp [idle] at flight

theorem remove_accounted (step : stepThread h .remove = some after) : Accounted after := by
  cases step
  unfold periodicWakeRemove
  split
  · exact ⟨nofun, nofun, ok.saved, fun _ => nofun, ok.inFlight⟩
  · exact ok

theorem wait_accounted {t : Nat} (step : stepThread h (.wait t) = some after) : Accounted after := by
  simp only [stepThread, bind_eq_bind, ite_none_left_eq_some, not_or] at step
  obtain ⟨⟨running, later⟩, step⟩ := step
  obtain ⟨idle, unblocked⟩ := ok.running running
  rw [bind_eq_some_iff] at step
  obtain ⟨⟨te, waits⟩, called, step⟩ := step
  simp only [periodicWakeWait] at called
  split at called
  · cases called
    obtain rfl : h = after := by simpa using step
    exact ok
  next periodic =>
  have periodic : h.te.periodic := by simpa using periodic
  have account := ok.account periodic
  simp only [idle, Bool.toNat_false] at account
  obtain ⟨_, called⟩ := ite_none_left_eq_some.mp called
  -- A late thread is owed a restart, so only a thread on time blocks, with its completion time saved.
  by_cases missed : h.te.missed = true
  · have owed := ok.owed missed periodic
    simp only [missed, if_true, owed] at called
    obtain ⟨rfl, rfl⟩ := called
    cases step
    refine ⟨fun _ => ?_, fun blocked => ?_, nofun, nofun, ok.inFlight⟩
    · simp only [idle, if_true, Bool.toNat_false]
      omega
    · simp [unblocked] at blocked
  · have onTime : h.te.missed = false := by simpa using missed
    simp only [onTime, Bool.false_eq_true, if_false] at called
    split at called
    next owed =>
      cases called
      cases step
      refine ⟨fun _ => ?_, fun blocked => ?_, nofun, nofun, ok.inFlight⟩
      · simp only [idle, if_true, Bool.toNat_false]
        omega
      · simp [unblocked] at blocked
    · cases called
      cases step
      refine ⟨fun _ => ?_, fun _ => ⟨rfl, idle, rfl, later⟩, nofun, nofun, fun _ => rfl⟩
      simpa [idle] using account

theorem wake_accounted (step : stepThread h .wake = some after) : Accounted after := by
  obtain ⟨flight, step⟩ := ite_none_right_eq_some.mp step
  cases step
  refine ⟨fun periodic => ?_, fun blocked => ?_, ok.saved, ok.owed, nofun⟩
  · have account := ok.account periodic
    simp only [flight, Bool.toNat_true] at account
    simp only [Bool.toNat_false]
    omega
  · have quiet := (ok.blocked blocked).2.1
    simp [flight] at quiet

theorem expire_accounted {time now : Nat} (fits : h.te.blocked ∨ h.te.needRestart + 1 < 2 ^ 16)
    (step : stepThread h (.expire time now) = some after) : Accounted after := by
  simp only [stepThread, bind_eq_bind, ite_none_left_eq_some, not_or] at step
  obtain ⟨⟨periodic, _, later⟩, step⟩ := step
  rw [bind_eq_some_iff] at step
  obtain ⟨⟨te, triggered⟩, expired, step⟩ := step
  cases step
  have account := ok.account (by simpa using periodic)
  simp only [eventExpiration] at expired
  split at expired
  next blocked =>
    obtain ⟨waiting, idle, onTime, _⟩ := ok.blocked blocked
    obtain ⟨_, expired⟩ := ite_none_right_eq_some.mp expired
    cases expired
    refine ⟨fun _ => ?_, nofun, fun late => ?_, fun late => ?_, fun _ => waiting⟩
    · simp only [idle, Bool.or_true, Bool.toNat_true, Bool.toNat_false] at account ⊢
      omega
    · simp [onTime] at late
    · simp [onTime] at late
  next running =>
    have bound := fits.resolve_left running
    rw [Nat.mod_eq_of_lt bound] at expired
    split at expired
    next late =>
      cases expired
      refine ⟨fun _ => ?_, nofun, ok.saved, fun _ _ => Nat.succ_pos _, fun flight => ?_⟩
      · simp only [Bool.or_false]
        omega
      · exact ok.inFlight (by simpa using flight)
    · cases expired
      refine ⟨fun _ => ?_, nofun, fun _ => later, fun _ _ => Nat.succ_pos _, fun flight => ?_⟩
      · simp only [Bool.or_false]
        omega
      · exact ok.inFlight (by simpa using flight)

end

theorem step_accounted {s t : State} {label : Nat × Label} (ok : ∀ tid, Accounted (s tid)) (allowed : careful s label)
    (step : periodicThreads.step s label = some t) (tid : Nat) : Accounted (t tid) := by
  obtain ⟨thread, label⟩ := label
  obtain ⟨after, stepped, rfl⟩ := map_eq_some_iff.mp step
  by_cases same : tid = thread
  · subst same
    rw [Function.update_self]
    cases label with
    | create => exact create_accounted (ok tid) allowed stepped
    | remove => exact remove_accounted (ok tid) stepped
    | wait => exact wait_accounted (ok tid) stepped
    | wake => exact wake_accounted (ok tid) stepped
    | expire => exact expire_accounted (ok tid) allowed stepped
  · rw [Function.update_of_ne same]
    exact ok tid

theorem reachable_accounted {s : State} (reached : Reachable periodicThreads careful s) (tid : Nat) :
    Accounted (s tid) :=
  reached.invariant (fun s : State => ∀ tid, Accounted (s tid))
    (fun _ => by constructor <;> simp [periodicThreads, ThreadEvent.zero])
    (fun _ _ _ ok allowed step => step_accounted ok allowed step) tid

/-- Under the condition no assertion of the expiration code fails. -/
theorem eventExpiration_completes (ok : Accounted h) (now : Nat) : (eventExpiration h.te now).isSome := by
  unfold eventExpiration
  split
  next blocked =>
    obtain ⟨_, _, onTime, saved⟩ := ok.blocked blocked
    rw [if_pos ⟨onTime, saved⟩]
    rfl
  · split
    · rfl
    · rfl

/-- In every run in which no thread is created while it has a missed deadline, and in which the restarts
that are owed fit in `need_restart`, each period of a periodic thread is accounted for, with at most one
wakeup in flight, and every expiration passes its assertions. -/
theorem periods_accounted {s : State} (reached : Reachable periodicThreads careful s) (tid : Nat) :
    ((s tid).te.periodic = true →
      (s tid).expired = (s tid).returned + (s tid).te.needRestart + (s tid).inFlight.toNat) ∧
    (∀ now, (eventExpiration (s tid).te now).isSome = true) ∧ (∀ t, (periodicWakeWait (s tid).te t).isSome = true) := by
  have ok := reachable_accounted reached tid
  refine ⟨ok.account, eventExpiration_completes ok, fun t => ?_⟩
  unfold periodicWakeWait
  split
  · rfl
  · rw [if_neg fun late => ok.saved late.1 late.2]
    simp [apply_ite Option.isSome]

/-- The run of a thread that misses a deadline, catches up, blocks and is woken. -/
def lateThenOnTime : List (Nat × Label) :=
  [(7, .create 10 5 none), (7, .expire 15 100), (7, .wait 110), (7, .wait 120), (7, .expire 20 130), (7, .wake)]

theorem late_thread_accounted : ∃ s, Run periodicThreads careful lateThenOnTime s ∧
    (s 7).expired = 2 ∧ (s 7).expired = (s 7).returned + (s 7).te.needRestart + (s 7).inFlight.toNat := by
  exact exec_shows (fun s => (s 7).te.periodic = true ∧ (s 7).expired = 2) (by decide +kernel)
    fun s run ⟨periodic, twice⟩ => ⟨twice, (periods_accounted ⟨_, run⟩ 7).1 periodic⟩

/-- A thread misses a deadline and is created again with the deadline still marked as missed. Its next
wait blocks without a completion time, and the expiration that should wake it fails its assertion. -/
theorem recreated_thread_fails : ∃ s, Run periodicThreads anyStep
      [(7, .create 10 5 none), (7, .expire 15 100), (7, .create 16 5 none), (7, .wait 110)] s ∧
    (s 7).te.periodic = true ∧ (s 7).te.blocked = true ∧ eventExpiration (s 7).te 200 = none :=
  exec_ends _ _ _ _ (by decide +kernel)

end SuperGlue.Guarantees.PeriodicAccounting
