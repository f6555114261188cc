import SuperGlue.Guarantees.PeriodicAccounting

/-!
# Deadlines of a thread that is re-created

The deadlines of a periodic thread are its creation plus whole periods. A thread that is re-created after a fault
goes on with the next of them if the time that the scheduler tracks for it is its creation, or whole periods later.
But every `sched_timestamp` of the thread overwrites that time, also the one of a re-creation.
-/
namespace SuperGlue.Guarantees.DeadlineRecovery
open Option Lib.Transition Source.PeriodicWake.Timer PeriodicAccounting

/-- The deadlines still to come. -/
def deadlines (s : Clocked) : Set Nat := {e | s.ticks < e ∧ ∃ k, 1 ≤ k ∧ e = s.created + k * s.thread.te.period}

/-- Ticks and periods fit in 32 bits. A thread is re-created when the tracked time is whole periods after its creation.
It is not created while it has a missed deadline, and the restarts that are owed fit in `need_restart`. -/
def Careful (s : Clocked) : Event → Prop
  | .tick => s.ticks + 1 < 2 ^ 32
  | .create period => period < 2 ^ 32 ∧ s.thread.te.missed = false
  | .fault => s.thread.te.period ∣ s.track - s.created
  | .expire _ => s.thread.te.blocked = true ∨ s.thread.te.needRestart + 1 < 2 ^ 16
  | _ => True

instance : DecidableRel Careful := by
  intro s event
  unfold Careful
  split <;> infer_instance

/-- What is kept of a thread: it has the first deadline that was not handled. -/
structure Timed (s : Clocked) : Prop where
  accounted : Accounted s.thread
  range : s.ticks < 2 ^ 32
  tracked : s.created ≤ s.track ∧ s.track ≤ s.ticks
  period : s.thread.te.periodic = true → 1 ≤ s.thread.te.period ∧ s.thread.te.period < 2 ^ 32
  grid : s.thread.te.periodic = true → ∃ k, 1 ≤ k ∧ s.thread.te.eventExpiration = s.created + k * s.thread.te.period
  late : s.thread.te.periodic = true → s.thread.te.eventExpiration ≤ s.ticks + s.thread.te.period

/-! ## The re-created expiration -/

section
variable {created ticks period : Nat}

theorem next_least (pos : 1 ≤ period) (past : created ≤ ticks) :
    IsLeast {e | ticks < e ∧ ∃ k, 1 ≤ k ∧ e = created + k * period}
      (created + period * ((ticks - created) / period + 1)) := by
  have below := Nat.lt_mul_div_succ (ticks - created) pos
  refine ⟨⟨by omega, (ticks - created) / period + 1, Nat.le_add_left .., by rw [Nat.mul_comm]⟩, ?_⟩
  rintro _ ⟨later, k, -, rfl⟩
  have less : (ticks - created) / period < k := (Nat.div_lt_iff_lt_mul pos).mpr (by omega)
  rw [Nat.mul_comm k]
  exact Nat.add_le_add_left (Nat.mul_le_mul_left period less) created

/-- No sum leaves the 64-bit words. -/
theorem recreated_toNat (pos : 1 ≤ period) (past : created ≤ ticks) (small : ticks < 2 ^ 32) (short : period < 2 ^ 32) :
    (recreated (.ofNat created) (.ofNat ticks) (.ofNat period)).toNat =
      created + period * ((ticks - created) / period + 1) := by
  have product := Nat.mul_div_le (ticks - created) period
  have quotient := Nat.div_le_self (ticks - created) period
  have word : ∀ n, n < 2 ^ 32 → (UInt64.ofNat n).toNat = n := fun n lt => Nat.mod_eq_of_lt (by omega)
  have one : (1 : UInt64).toNat = 1 := rfl
  rw [recreated, UInt64.toNat_add, UInt64.toNat_mul, UInt64.toNat_add, UInt64.toNat_div, one,
    UInt64.toNat_sub_of_le _ _ (by rw [UInt64.le_iff_toNat_le, word _ small, word _ (by omega)]; exact past),
    word _ small, word _ short, word created (by omega), Nat.mod_eq_of_lt (a := _ / _ + 1), Nat.mul_succ]
  all_goals omega

/-- Counted from the tracked time, the next deadline is right exactly if that time is whole periods later. -/
theorem next_least_iff {track : Nat} (pos : 1 ≤ period) (after : created ≤ track) (past : track ≤ ticks) :
    IsLeast {e | ticks < e ∧ ∃ k, 1 ≤ k ∧ e = created + k * period} (track + period * ((ticks - track) / period + 1)) ↔
      period ∣ track - created := by
  constructor
  · rintro ⟨⟨-, k, -, same⟩, -⟩
    have sum : (track - created) + period * ((ticks - track) / period + 1) = k * period := by omega
    exact (Nat.dvd_add_left (Nat.dvd_mul_right ..)).mp (sum ▸ Nat.dvd_mul_left ..)
  · rintro ⟨m, whole⟩
    obtain rfl : track = created + m * period := by rw [Nat.mul_comm]; omega
    obtain ⟨⟨later, k, pos, same⟩, lowest⟩ := next_least pos past
    refine ⟨⟨later, m + k, by omega, by rw [same, Nat.add_mul, Nat.add_assoc]⟩, ?_⟩
    rintro _ ⟨later, j, -, rfl⟩
    have less : m < j := Nat.lt_of_mul_lt_mul_right (a := period) (by omega)
    obtain ⟨i, rfl⟩ := Nat.exists_eq_add_of_lt less
    exact lowest ⟨later, i + 1, by omega, by rw [Nat.add_assoc m, Nat.add_mul, Nat.add_assoc]⟩

end

/-! ## Steps of the thread -/

variable {h h' : Thread} {s s' : Clocked}

theorem create_spec {ticks period : Nat} {exist : Option Nat} (pos : 1 ≤ period)
    (step : stepThread h (.create ticks period exist) = some h') : h'.te.periodic = true ∧ h'.te.period = period ∧
      h'.te.eventExpiration = expiration ticks period exist := by
  simp only [stepThread, bind_eq_bind, ite_none_left_eq_some, bind_eq_some_iff] at step
  obtain ⟨-, ⟨te, ret⟩, made, step⟩ := step
  simp only [periodicWakeCreate, if_neg (Nat.not_lt.mpr pos)] at made
  obtain ⟨-, made⟩ := ite_none_right_eq_some.mp made
  cases made
  cases step
  exact ⟨rfl, rfl, rfl⟩

/-- Waiting does not touch the deadline. -/
theorem wait_keeps {t : Nat} (step : stepThread h (.wait t) = some h') : h'.te.periodic = h.te.periodic ∧
    h'.te.period = h.te.period ∧ h'.te.eventExpiration = h.te.eventExpiration := by
  simp only [stepThread, bind_eq_bind, ite_none_left_eq_some, bind_eq_some_iff] at step
  obtain ⟨-, ⟨te, waits⟩, called, step⟩ := step
  have kept : te.periodic = h.te.periodic ∧ te.period = h.te.period ∧ te.eventExpiration = h.te.eventExpiration := by
    unfold periodicWakeWait at called
    grind
  cases waits <;> cases step <;> exact kept

/-- A turn of the expiration loop adds one period. -/
theorem expire_adds {time now : Nat} (step : stepThread h (.expire time now) = some h') :
    h.te.periodic = true ∧ h.te.eventExpiration ≤ time ∧ h'.te.periodic = true ∧ h'.te.period = h.te.period ∧
      h'.te.eventExpiration = (h.te.eventExpiration + h.te.period) % eventModulus := by
  simp only [stepThread, bind_eq_bind, ite_none_left_eq_some, bind_eq_some_iff] at step
  obtain ⟨due, ⟨te, told⟩, expired, step⟩ := step
  cases step
  simp only [not_or, Bool.not_eq_false, Nat.not_lt] at due
  have added : te.periodic = h.te.periodic ∧ te.period = h.te.period ∧
      te.eventExpiration = (h.te.eventExpiration + h.te.period) % eventModulus := by
    unfold eventExpiration at expired
    grind
  exact ⟨due.1, due.2.1, added.1.trans due.1, added.2⟩

theorem init_accounted : Accounted .init := by constructor <;> simp [Thread.init, ThreadEvent.zero]

section
variable (ok : Timed s)
include ok

/-- A step that leaves the deadline and the clock alone. -/
theorem Timed.keeps {h : Thread} (accounted : Accounted h) (same : h.te.periodic = s.thread.te.periodic ∧
    h.te.period = s.thread.te.period ∧ h.te.eventExpiration = s.thread.te.eventExpiration) :
    Timed { s with thread := h } := by
  obtain ⟨periodic, period, expiration⟩ := same
  exact ⟨accounted, ok.range, ok.tracked, by simpa only [periodic, period] using ok.period,
    by simpa only [periodic, period, expiration] using ok.grid, by simpa only [periodic, period, expiration] using ok.late⟩

/-- A thread that is re-created, and what its expiration is. -/
theorem Timed.fault (periodic : s.thread.te.periodic = true) : ∃ s', stepClocked s .fault = some s' ∧
    Accounted s'.thread ∧ s'.ticks = s.ticks ∧ s'.created = s.created ∧ s'.track = s.ticks ∧
    s'.thread.te.periodic = true ∧ s'.thread.te.period = s.thread.te.period ∧ s'.thread.te.eventExpiration =
      s.track + s.thread.te.period * ((s.ticks - s.track) / s.thread.te.period + 1) := by
  obtain ⟨pos, short⟩ := ok.period periodic
  have next := recreated_toNat pos ok.tracked.2 ok.range short
  have later := (next_least pos ok.tracked.2).1.1
  obtain ⟨h, step⟩ : ∃ h, stepThread .init (.create s.ticks s.thread.te.period (some s.track)) = some h := by
    simp [stepThread, Thread.init, periodicWakeCreate, expiration, Nat.not_lt.mpr pos, next, later]
  obtain ⟨is, period, first⟩ := create_spec pos step
  refine ⟨{ s with thread := h, track := s.ticks }, by simp [stepClocked, periodic, step], ?_⟩
  exact ⟨create_accounted init_accounted rfl step, rfl, rfl, rfl, is, period, first.trans next⟩

/-- A due expiration is handled, and the next one is a period later. -/
theorem Timed.turn (periodic : s.thread.te.periodic = true) (due : s.thread.te.eventExpiration ≤ s.ticks) {now : Nat}
    (running : now ≠ 0) : ∃ s', stepClocked s (.expire now) = some s' ∧ s'.thread.te.period = s.thread.te.period ∧
      s'.created = s.created ∧ s'.thread.te.eventExpiration = s.thread.te.eventExpiration + s.thread.te.period := by
  obtain ⟨⟨te, told⟩, expired⟩ := isSome_iff_exists.mp (eventExpiration_completes ok.accounted now)
  obtain ⟨h, step⟩ : ∃ h, stepThread s.thread (.expire s.ticks now) = some h := by
    simp [stepThread, periodic, Nat.not_lt.mpr due, running, expired]
  obtain ⟨-, -, -, period, added⟩ := expire_adds step
  have short := (ok.period periodic).2
  have small := ok.range
  rw [Nat.mod_eq_of_lt (by rw [eventModulus]; omega)] at added
  exact ⟨{ s with thread := h }, by simp [stepClocked, step], period, rfl, added⟩

/-- If nothing is due, the expiration is the next deadline. -/
theorem Timed.next (periodic : s.thread.te.periodic = true) (later : s.ticks < s.thread.te.eventExpiration) :
    IsLeast (deadlines s) s.thread.te.eventExpiration := by
  obtain ⟨k, pos, at_⟩ := ok.grid periodic
  refine ⟨⟨later, k, pos, at_⟩, ?_⟩
  rintro _ ⟨after, j, -, rfl⟩
  have late := ok.late periodic
  rw [at_] at late ⊢
  have le : k ≤ j := by
    by_contra less
    have step := Nat.mul_le_mul_right s.thread.te.period (Nat.not_le.mp less)
    rw [Nat.succ_mul] at step
    omega
  exact Nat.add_le_add_left (Nat.mul_le_mul_right _ le) _

theorem Timed.step {event : Event} (careful : Careful s event) (step : stepClocked s event = some s') : Timed s' := by
  cases event with
  | tick =>
    cases step
    exact { ok with
      range := careful
      tracked := ⟨ok.tracked.1, Nat.le_succ_of_le ok.tracked.2⟩
      late := fun periodic => Nat.le_trans (ok.late periodic) (by simp only; omega) }
  | stamp =>
    cases step
    exact { ok with tracked := ⟨Nat.le_trans ok.tracked.1 ok.tracked.2, le_refl _⟩ }
  | create period =>
    obtain ⟨h, made, rfl⟩ := map_eq_some_iff.mp step
    split
    · exact ok
    next pos =>
      have pos := Nat.not_lt.mp pos
      obtain ⟨-, is, first⟩ := create_spec pos made
      have small := ok.range
      rw [expiration, Nat.mod_eq_of_lt (by rw [eventModulus]; have := careful.1; omega)] at first
      refine ⟨create_accounted ok.accounted careful.2 made, small, ⟨le_refl _, le_refl _⟩, fun _ => ?_, fun _ => ?_, fun _ => ?_⟩
      · exact is ▸ ⟨pos, careful.1⟩
      · exact ⟨1, le_refl _, by simp only [first, is]; omega⟩
      · simp only [first, is]
        omega
  | fault =>
    have periodic : s.thread.te.periodic = true := (ite_none_right_eq_some.mp step).1
    obtain ⟨made, again, accounted, ticks, created, track, is, period, first⟩ := ok.fault periodic
    cases step.symm.trans again
    obtain ⟨pos, short⟩ := ok.period periodic
    obtain ⟨⟨later, k, le, at_⟩, -⟩ := (next_least_iff pos ok.tracked.1 ok.tracked.2).mpr careful
    refine ⟨accounted, ticks ▸ ok.range, ?_, fun _ => period ▸ ⟨pos, short⟩, fun _ => ?_, fun _ => ?_⟩
    · rw [created, track, ticks]
      exact ⟨Nat.le_trans ok.tracked.1 ok.tracked.2, le_refl _⟩
    · exact ⟨k, le, by rw [first, created, period, at_]⟩
    · have below := Nat.mul_div_le (s.ticks - s.track) s.thread.te.period
      have past := ok.tracked.2
      rw [first, period, ticks, Nat.mul_succ]
      omega
  | wait =>
    obtain ⟨h, waited, rfl⟩ := map_eq_some_iff.mp step
    exact ok.keeps (wait_accounted ok.accounted waited) (wait_keeps waited)
  | wake =>
    obtain ⟨h, woken, rfl⟩ := map_eq_some_iff.mp step
    refine ok.keeps (wake_accounted ok.accounted woken) ?_
    obtain ⟨-, same⟩ := ite_none_right_eq_some.mp woken
    cases same
    exact ⟨rfl, rfl, rfl⟩
  | expire now =>
    obtain ⟨h, expired, rfl⟩ := map_eq_some_iff.mp step
    obtain ⟨periodic, due, is, period, added⟩ := expire_adds expired
    obtain ⟨pos, short⟩ := ok.period periodic
    obtain ⟨k, le, at_⟩ := ok.grid periodic
    have small := ok.range
    rw [Nat.mod_eq_of_lt (by rw [eventModulus]; omega)] at added
    refine ⟨expire_accounted ok.accounted careful expired, small, ok.tracked, fun _ => period ▸ ⟨pos, short⟩, fun _ => ?_, fun _ => ?_⟩
    · exact ⟨k + 1, by omega, by simp only [added, period, at_, Nat.succ_mul]; omega⟩
    · simp only [added, period]
      omega

end

theorem reachable_timed (reached : Reachable clockedThread Careful s) : Timed s := by
  apply reached.invariant
  · refine ⟨init_accounted, by decide, ⟨le_refl _, le_refl _⟩, ?_, ?_, ?_⟩ <;>
      simp [clockedThread, Thread.init, ThreadEvent.zero]
  · intro _ _ _ ok careful step
    exact ok.step careful step

/-- In every careful run, with any number of faults, a periodic thread has one of its deadlines. If that is not due, it
is the first to come; if it is, the loop handles it and goes on to the following one. A thread that is re-created
then gets the first deadline to come exactly if the tracked time is whole periods after its creation. -/
theorem deadlines_survive_faults (reached : Reachable clockedThread Careful s) (periodic : s.thread.te.periodic = true) :
    (∃ k, 1 ≤ k ∧ s.thread.te.eventExpiration = s.created + k * s.thread.te.period) ∧
    (s.ticks < s.thread.te.eventExpiration → IsLeast (deadlines s) s.thread.te.eventExpiration) ∧
    (∀ now, now ≠ 0 → s.thread.te.eventExpiration ≤ s.ticks → ∃ s', stepClocked s (.expire now) = some s' ∧
      s'.thread.te.period = s.thread.te.period ∧ s'.created = s.created ∧
      s'.thread.te.eventExpiration = s.thread.te.eventExpiration + s.thread.te.period) ∧
    ∃ s', stepClocked s .fault = some s' ∧ s'.thread.te.period = s.thread.te.period ∧ s'.created = s.created ∧
      (IsLeast (deadlines s) s'.thread.te.eventExpiration ↔ s.thread.te.period ∣ s.track - s.created) := by
  have ok := reachable_timed reached
  refine ⟨ok.grid periodic, ok.next periodic, fun now running due => ok.turn periodic due running, ?_⟩
  obtain ⟨s', step, -, -, created, -, -, period, expiration⟩ := ok.fault periodic
  refine ⟨s', step, period, created, ?_⟩
  rw [expiration]
  exact next_least_iff (ok.period periodic).1 ok.tracked.1 ok.tracked.2

/-- The thread is created at tick 10 with period 5, and re-created at 12. -/
def recreatedOnce : List Event := List.replicate 10 .tick ++ [.create 5, .tick, .tick, .fault]

/-- Its first deadline is handled at 15, when it waits for it. There it asks for the time. Re-created again at 17, it
has the deadline 20, and after that 25. -/
theorem deadlines_met : ∃ s, Reachable clockedThread Careful s ∧ s.ticks = 20 ∧ s.thread.te.eventExpiration = 25 ∧
    IsLeast (deadlines s) 25 := by
  refine exec_reaches (recreatedOnce ++ [.wait 7, .tick, .tick, .tick, .expire 8, .wake, .stamp, .tick, .tick, .fault,
    .tick, .tick, .tick, .expire 9]) (fun s => s.thread.te.periodic = true ∧ s.ticks = 20 ∧ s.thread.te.eventExpiration = 25)
    (by decide +kernel) fun s reached ⟨periodic, ticks, at_⟩ => ⟨ticks, at_, ?_⟩
  exact at_ ▸ (deadlines_survive_faults reached periodic).2.1 (by omega)

/-- Re-created again at 17, without asking for the time at 15, it gets 22 and misses its deadline 20. -/
theorem deadline_lost : ∃ s, Reachable clockedThread anyStep s ∧ s.ticks = 17 ∧
    ∃ s' ∈ stepClocked s .fault, s'.thread.te.eventExpiration = 22 ∧ 20 ∈ deadlines s := by
  refine exec_reaches (recreatedOnce ++ List.replicate 5 .tick) (fun s => (s.ticks = 17 ∧ s.created = 10 ∧
    s.thread.te.period = 5) ∧ ∃ s' ∈ stepClocked s .fault, s'.thread.te.eventExpiration = 22) (by decide +kernel) ?_
  rintro s - ⟨⟨ticks, created, period⟩, s', step, lost⟩
  exact ⟨ticks, s', step, lost, by omega, 2, by omega, by omega⟩

end SuperGlue.Guarantees.DeadlineRecovery
