import SuperGlue.Lib.Transition
import SuperGlue.Source.Sched.Reboot

/-!
# What a reboot of the scheduler restores

The kernel's records should be enough to rebuild the threads of the scheduler as they were. They hold the
first parameter of each thread, the function it was created with is read but not used, and the tick count
that they hold is one behind. So the reboot is right in runs in which the first parameter says everything,
no thread from the graveyard is given a start argument and the roles do not move, but for the tick count, which
is right if the timer has not ticked.
-/
namespace SuperGlue.Guarantees.SchedulerReboot
open Bool Function Option Lib.Transition Lib.Cursor Source.Sched.Reboot

def schedSystem (cfg : Config) : System State Label := ⟨.init, step cfg⟩

/-- The threads that were created and not killed. -/
def live (s : State) (t : Tid) : Option Thd := (s.sched.thds t).filter fun thd => !thd.dying

/-- The scheduler `s'` after the reboot has the threads and the roles that `s` had before the fault. -/
structure ThreadsRestored (s s' : State) : Prop where
  /-- The thread is there with its priority, its other parameters and its start argument, and knows the
  component it was created in. -/
  alive : ∀ t a, live s t = some a → s'.sched.thds t = some { a with spdid := (s.kernel.tracked t).dest } ∧
    (a.spdid = 0 ∨ a.spdid = (s.kernel.tracked t).dest)
  gone : ∀ t, live s t = none → s'.sched.thds t = none
  idle : s'.sched.idle = s.sched.idle
  timer : s'.sched.timer = s.sched.timer
  ipiHandler : s'.sched.ipiHandler = s.sched.ipiHandler
  timeout : s'.sched.wakeupThd = s.sched.wakeupThd
  /-- The function and the data of the creation are still on record. -/
  records : s'.kernel = s.kernel

/-- It has the tick count too. -/
structure Restored (s s' : State) : Prop extends ThreadsRestored s s' where
  ticks : s'.sched.ticks = s.sched.ticks

/-- Neither the scheduler nor the kernel has counted a tick. -/
def Unticked (s : State) : Prop := s.sched.ticks = 0 ∧ s.kernel.systemTicks = 0

/-! ## The condition -/

def Relative (w : Word) : Prop := w.type = .rprio ∨ w.type = .rlprio

/-- The types for threads of the scheduler itself. -/
def Internal (w : Word) : Prop := w.type = .idle ∨ w.type = .timer ∨ w.type = .ipiHandler

instance (w : Word) : Decidable (Relative w) := inferInstanceAs (Decidable (_ ∨ _))

instance (w : Word) : Decidable (Internal w) := inferInstanceAs (Decidable (_ ∨ _ ∨ _))

variable (cfg : Config)

/-- A list of parameters that sets what its first word sets, for a thread that starts with argument `fn`. -/
def CarefulList (s : State) (cur : Tid) (sp : List Word) (fn : Nat) : Prop :=
  threadParamSet cfg.deferrable (s.sched.parent cur) .blank sp =
      threadParamSet cfg.deferrable none .blank (sp.take 1) ∧
    (∀ w ∈ sp.head?, ¬ Internal w ∧ (cfg.deferrable = true → ¬ Relative w)) ∧
    (s.sched.graveyard ≠ [] → fn = 0)

def Careful (s : State) : Label → Prop
  | .rootInit _ _ _ _ => True
  | .createThd cur _ a => ∀ ws ∈ relativePrioConvert s.sched cur a.words,
      CarefulList cfg s cur (createList ws).1 (createList ws).2
  | .createThreadDefault cur _ a => ∀ ws ∈ relativePrioConvert s.sched cur a.words,
      CarefulList cfg s cur (ws ++ [0]) 0
  | .kill t => s.sched.idle ≠ some t ∧ s.sched.timer ≠ some t ∧ s.sched.ipiHandler ≠ some t ∧
      s.sched.wakeupThd ≠ some t
  | .timeoutThd t => s.sched.wakeupThd = none ∨ s.sched.wakeupThd = some t
  | .tick => True
  | .reboot f => s.sched.runs f.faultThd = true ∧ ∀ t < schedNumThreads, f.behind t = []

-- only the first word is looked at, not all words
instance (s : State) (cur : Tid) (sp : List Word) (fn : Nat) : Decidable (CarefulList cfg s cur sp fn) :=
  @instDecidableAnd _ _ _ (@instDecidableAnd _ _ (Option.decidableForallMem _) _)

instance : DecidableRel (Careful cfg) := by
  intro s label
  unfold Careful
  split <;> infer_instance

/-! ## What both copies say about a thread -/

/-- The record `k` of thread `t` says what the scheduler's entry `a` says. -/
structure Mirrored (t : Tid) (a : Thd) (k : Tracked) : Prop where
  dest : k.dest ≠ 0
  metric : k.metric ≠ 0
  param : k.param = true
  policy : threadParamSet cfg.deferrable none .blank [k.metric] = some a.policy
  plain : cfg.deferrable = true → ¬ Relative k.metric
  start : a.initData = 0
  spdid : a.spdid = 0 ∨ a.spdid = k.dest

structure Mirror (s : State) : Prop where
  alive : ∀ t a, live s t = some a → Mirrored cfg t a (s.kernel.tracked t)
  gone : ∀ t, live s t = none → s.kernel.tracked t = .nothing
  range : ∀ t a, s.sched.thds t = some a → 0 < t ∧ t < schedNumThreads ∧ t ≠ cfg.initThd
  booted : s.sched.init = some cfg.initThd ∨ ∀ t, s.sched.thds t = none

/-- The roles that a type of parameter stands for. -/
inductive Role where
  | idle
  | timer
  | ipiHandler

def Role.type : Role → ParamType
  | .idle => .idle
  | .timer => .timer
  | .ipiHandler => .ipiHandler

def holder (s : PerCore) : Role → Option Tid
  | .idle => s.idle
  | .timer => s.timer
  | .ipiHandler => s.ipiHandler

structure Roles (s : State) : Prop where
  held : ∀ role t, holder s.sched role = some t ↔ (s.kernel.tracked t).metric.type = role.type
  timeout : ∀ t, s.sched.wakeupThd = some t ↔ (s.kernel.tracked t).timeout = true

variable {cfg} {s s' : State} {t : Tid}

theorem live_eq_some {a : Thd} : live s t = some a ↔ s.sched.thds t = some a ∧ a.dying = false := by
  rw [live, filter_eq_some_iff, not_eq_true']

theorem live_eq_none : live s t = none ↔ ∀ a, s.sched.thds t = some a → a.dying := by
  rw [live, filter_eq_none_iff]
  refine forall₂_congr fun a _ => ?_
  rw [not_eq_true', not_eq_false]

theorem runs_iff {s : PerCore} : s.runs t ↔ ∃ a, s.thds t = some a ∧ a.dying = false := by
  rw [PerCore.runs, any_eq_true]
  refine exists_congr fun a => and_congr_right fun _ => ?_
  rw [not_eq_true']

/-! ## `thread_param_set` with one word -/

variable {w : Word} {from_ : Option Policy}

theorem threadParamSet_noop {d : Bool} {p : Policy} {ws : List Word} :
    threadParamSet d from_ p (w :: 0 :: ws) = threadParamSet d from_ p [w] := by
  have stop : (0 : Word).type = .noop := by decide
  simp only [threadParamSet, paramLoop, stop, if_true]

/-- A word that does not name a relative priority does not look at the accounting of another thread, and one
that does takes over nothing from a thread without accounting. -/
theorem threadParamSet_parent {d : Bool} (nothing : ¬ Relative w ∨ ∀ q ∈ from_, q.budget = 0 ∧ q.window = 0) :
    threadParamSet d from_ .blank [w] = threadParamSet d none .blank [w] := by
  have same : paramStep d 0 from_ ⟨prioLowest, 0, 0⟩ w = paramStep d 0 none ⟨prioLowest, 0, 0⟩ w := by
    rcases nothing with absolute | zero
    · unfold paramStep
      split
      case h_1 at_ => exact absurd (.inl at_) absolute
      case h_2 at_ => exact absurd (.inr at_) absolute
      all_goals rfl
    · have blank : (Policy.mk prioLowest 0 0).inherit from_ = ⟨prioLowest, 0, 0⟩ := by
        cases from_ with
        | none => rfl
        | some q =>
          obtain ⟨budget, window⟩ := zero q rfl
          rw [Policy.inherit, budget, window]
      unfold paramStep
      rw [blank]
      rfl
  simp only [threadParamSet, paramLoop, Policy.blank]
  rw [same]

/-- Without deferrable servers no word sets the accounting. -/
theorem paramStep_unaccounted {old : Nat} {p q : Policy} (set : paramStep false old none p w = some q) :
    q.budget = p.budget ∧ q.window = p.window := by
  cases type : w.type with
  | coreId =>
    simp only [paramStep, type] at set
    obtain ⟨_, same⟩ := ite_none_right_eq_some.mp set
    cases same
    exact ⟨rfl, rfl⟩
  | _ =>
    simp only [paramStep, type, false_eq_true, if_false, some.injEq] at set
    subst set
    exact ⟨rfl, rfl⟩

theorem threadParamSet_unaccounted {p : Policy} (set : threadParamSet false none .blank [w] = some p) :
    p.budget = 0 ∧ p.window = 0 := by
  rw [threadParamSet, paramLoop] at set
  obtain ⟨q, loop, bounded⟩ := bind_eq_some_iff.mp set
  obtain ⟨_, same⟩ := ite_none_right_eq_some.mp bounded
  cases same
  split at loop
  · cases loop
    exact ⟨rfl, rfl⟩
  · obtain ⟨r, step, rest⟩ := bind_eq_some_iff.mp loop
    cases rest
    exact paramStep_unaccounted step

/-! ## Creation -/

/-- What `newThread` does: a blank entry for a thread that was not live. -/
structure NewThread (cfg : Config) (s : PerCore) (dest : SpdId) (fn : Nat) (s' : PerCore) (new : Tid) (thd : Thd) : Prop where
  named : dest ≠ 0
  state : ∃ graveyard, s' = { s with graveyard := graveyard }.setThd new thd
  blank : thd.dying = false ∧ thd.policy = .blank
  old : ∀ a, s.thds new = some a → a.dying = true
  free : s.thds new = none → new ≠ 0 ∧ s.free new = true
  start : thd.spdid = 0 ∧ thd.initData = 0 ∨ thd.spdid = dest ∧ thd.initData = fn ∧ s.graveyard ≠ [] ∧ dest ≠ cfg.spd

variable {dest : SpdId} {fn : Nat} {tid new : Tid}

theorem newThread_spec {s s' : PerCore}
    (taken : newThread cfg s dest fn tid = some (s', new)) : ∃ thd, NewThread cfg s dest fn s' new thd := by
  unfold newThread at taken
  split at taken
  next g rest yard =>
    split at taken
    · nomatch taken
    rename_i named
    split at taken
    next a found =>
      split at taken
      next dying =>
        cases taken
        refine ⟨_, fun zero => named (.inl zero), ⟨rest, rfl⟩, ⟨rfl, rfl⟩, ?_, ?_,
          .inr ⟨rfl, rfl, ?_, fun same => named (.inr same)⟩⟩
        · intro b other
          cases found.symm.trans other
          exact dying
        · exact fun none => nomatch found.symm.trans none
        · rw [yard]
          exact List.cons_ne_nil _ _
      · nomatch taken
    · nomatch taken
  next yard =>
    split at taken
    next free =>
      cases taken
      have none : s.thds tid = none := by
        have entry := (and_eq_true_iff.mp (and_eq_true_iff.mp free.2.2).1).2
        exact isNone_iff_eq_none.mp entry
      refine ⟨.blank, free.1, ⟨s.graveyard, rfl⟩, ⟨rfl, rfl⟩, ?_, fun _ => free.2, .inl ⟨rfl, rfl⟩⟩
      exact fun a found => nomatch none.symm.trans found
    · nomatch taken

variable {cur : Tid} {thd : Thd}

theorem NewThread.parent {s s' : PerCore}
    (h : NewThread cfg s dest fn s' new thd) (runs : s.runs cur) : s'.parent cur = s.parent cur := by
  obtain ⟨graveyard, rfl⟩ := h.state
  have ne : cur ≠ new := by
    rintro rfl
    obtain ⟨a, found, alive⟩ := runs_iff.mp runs
    nomatch (h.old a found).symm.trans alive
  have same : ({ s with graveyard }.setThd new thd).thds cur = s.thds cur := update_of_ne ne ..
  simp only [PerCore.parent, PerCore.current, same]
  rfl

variable {sp : List Word} {d : Nat}

theorem setupThreadArg_spec
    (taken : setupThreadArg cfg s cur tid dest sp fn d = some (s', new)) :
    ∃ w ws sched thd policy, sp = w :: ws ∧ w ≠ 0 ∧ NewThread cfg s.sched dest fn sched new thd ∧
      threadParamSet cfg.deferrable (sched.parent cur) .blank sp = some policy ∧
      s' = { sched := sched.setThd new { thd with policy }
             kernel := { s.kernel with
               tracked := update s.kernel.tracked new ⟨dest, w, fn, d, true, false⟩ } } := by
  obtain ⟨⟨sched, new'⟩, created, taken⟩ := bind_eq_some_iff.mp taken
  obtain ⟨thd, spec⟩ := newThread_spec created
  obtain ⟨graveyard, state⟩ := spec.state
  have entry : sched.thds new' = some thd := by
    rw [state]
    exact update_self ..
  cases sp with
  | nil => nomatch taken
  | cons w ws =>
    dsimp only at taken
    rw [entry] at taken
    dsimp only at taken
    split at taken
    · nomatch taken
    next nonzero =>
      rw [spec.blank.2] at taken
      obtain ⟨policy, set, same⟩ := map_eq_some_iff.mp taken
      cases same
      exact ⟨w, ws, sched, thd, policy, rfl, nonzero, spec, set, rfl⟩

/-! ## One thread changes -/

/-- The entry and the record of thread `t` change, and nothing else does but the graveyard and the timeout
thread. -/
structure Changed (s s' : State) (t : Tid) (thd : Thd) (k : Tracked) : Prop where
  thds : ∀ x, s'.sched.thds x = if x = t then some thd else s.sched.thds x
  tracked : ∀ x, s'.kernel.tracked x = if x = t then k else s.kernel.tracked x
  init : s'.sched.init = s.sched.init
  held : ∀ role, holder s'.sched role = holder s.sched role

variable {k : Tracked}

theorem Changed.live (h : Changed s s' t thd k) (x : Tid) :
    live s' x = if x = t then (if thd.dying then none else some thd) else live s x := by
  rw [SchedulerReboot.live, h.thds]
  split
  · cases dying : thd.dying with
    | true => exact filter_some_neg (by rw [dying]; rfl)
    | false => exact filter_some_pos (by rw [dying]; rfl)
  · rfl

theorem Mirror.changed (h : Mirror cfg s) (change : Changed s s' t thd k)
    (booted : s.sched.init = some cfg.initThd) (range : 0 < t ∧ t < schedNumThreads ∧ t ≠ cfg.initThd)
    (alive : thd.dying = false → Mirrored cfg t thd k) (gone : thd.dying → k = .nothing) : Mirror cfg s' where
  alive := by
    intro x a here
    rw [change.live] at here
    rw [change.tracked]
    split at here
    next at_ =>
      obtain ⟨dying, same⟩ := ite_none_left_eq_some.mp here
      cases same
      rw [if_pos at_, at_]
      exact alive (not_eq_true _ ▸ dying)
    next other =>
      rw [if_neg other]
      exact h.alive x a here
  gone := by
    intro x here
    rw [change.live] at here
    rw [change.tracked]
    split at here
    next at_ =>
      rw [if_pos at_]
      split at here
      next dying => exact gone dying
      · nomatch here
    next other =>
      rw [if_neg other]
      exact h.gone x here
  range := by
    intro x a here
    rw [change.thds] at here
    split at here
    next at_ =>
      rw [at_]
      exact range
    · exact h.range x a here
  booted := .inl (change.init.trans booted)

/-- A change that gives no role and takes none. -/
theorem Roles.changed (h : Roles s) (change : Changed s s' t thd k)
    (type : ∀ role : Role, k.metric.type ≠ role.type) (none : ∀ role, holder s.sched role ≠ some t)
    (timeout : ∀ x, s'.sched.wakeupThd = some x ↔ (s'.kernel.tracked x).timeout) : Roles s' where
  held := by
    intro role x
    rw [change.held, change.tracked]
    split
    next at_ =>
      rw [at_]
      exact iff_of_false (none role) (type role)
    · exact h.held role x
  timeout := timeout

/-- The timeout thread stays where it is. -/
theorem Roles.same_timeout (h : Roles s) (change : Changed s s' t thd k)
    (same : s'.sched.wakeupThd = s.sched.wakeupThd) (off : s.sched.wakeupThd ≠ some t) (clear : k.timeout = false)
    (x : Tid) : s'.sched.wakeupThd = some x ↔ (s'.kernel.tracked x).timeout := by
  rw [same, change.tracked]
  split
  next at_ =>
    rw [at_, clear]
    exact iff_of_false off false_ne_true
  · exact h.timeout x

theorem role_type_ne_noop (role : Role) : ParamType.noop ≠ role.type := by
  cases role <;> exact nofun

/-- A thread that is not live has no role. -/
theorem Roles.of_gone (h : Roles s) (gone : s.kernel.tracked t = .nothing) :
    (∀ role, holder s.sched role ≠ some t) ∧ s.sched.wakeupThd ≠ some t := by
  refine ⟨fun role here => ?_, fun here => ?_⟩
  · have type := (h.held role t).mp here
    rw [gone] at type
    exact role_type_ne_noop role type
  · have timeout := (h.timeout t).mp here
    rw [gone] at timeout
    nomatch timeout

theorem Word.not_internal (h : ¬ Internal w) (role : Role) : w.type ≠ role.type := by
  intro type
  cases role with
  | idle => exact h (.inl type)
  | timer => exact h (.inr (.inl type))
  | ipiHandler => exact h (.inr (.inr type))

/-! ## `__sched_setup_thread_arg` -/

/-- What a creation needs to be restored: the list sets what its first word `w` sets. -/
structure Sound (cfg : Config) (s : State) (cur : Tid) (dest : SpdId) (sp : List Word) (fn : Nat) : Prop where
  single : ∀ sched new thd policy, NewThread cfg s.sched dest fn sched new thd →
    threadParamSet cfg.deferrable (sched.parent cur) .blank sp = some policy →
    threadParamSet cfg.deferrable none .blank (sp.take 1) = some policy
  plain : ∀ w ∈ sp.head?, cfg.deferrable = true → ¬ Relative w
  start : s.sched.graveyard ≠ [] → dest ≠ cfg.spd → fn = 0

theorem Mirror.setup (h : Mirror cfg s) (booted : s.sched.init = some cfg.initThd) (sound : Sound cfg s cur dest sp fn)
    (taken : setupThreadArg cfg s cur tid dest sp fn d = some (s', new)) :
    ∃ w thd, sp.head? = some w ∧ Changed s s' new thd ⟨dest, w, fn, d, true, false⟩ ∧ thd.dying = false ∧
      s'.sched.wakeupThd = s.sched.wakeupThd ∧ s.kernel.tracked new = .nothing ∧ Mirror cfg s' := by
  obtain ⟨w, ws, sched, thd, policy, rfl, nonzero, spec, set, rfl⟩ := setupThreadArg_spec taken
  have single := sound.single sched new thd policy spec set
  obtain ⟨graveyard, rfl⟩ := spec.state
  have change : Changed s
      { sched := ({ s.sched with graveyard }.setThd new thd).setThd new { thd with policy }
        kernel := { s.kernel with tracked := update s.kernel.tracked new ⟨dest, w, fn, d, true, false⟩ } }
      new { thd with policy } ⟨dest, w, fn, d, true, false⟩ := by
    refine ⟨fun x => ?_, fun x => ?_, rfl, fun role => ?_⟩
    · change update (update s.sched.thds new _) new _ x = _
      rw [update_idem, update_apply]
    · exact update_apply ..
    · cases role <;> rfl
  have range : 0 < new ∧ new < schedNumThreads ∧ new ≠ cfg.initThd := by
    cases entry : s.sched.thds new with
    | some a => exact h.range new a entry
    | none =>
      obtain ⟨ne, free⟩ := spec.free entry
      simp only [PerCore.free, and_eq_true, decide_eq_true_eq, bne_iff_ne, booted] at free
      exact ⟨Nat.pos_of_ne_zero ne, free.1.1, fun same => free.2 (congrArg some same.symm)⟩
  have mirrored : Mirrored cfg new { thd with policy } ⟨dest, w, fn, d, true, false⟩ := by
    refine ⟨spec.named, nonzero, rfl, single, sound.plain w rfl, ?_, ?_⟩
    · rcases spec.start with ⟨_, none⟩ | ⟨_, start, yard, other⟩
      · exact none
      · exact start.trans (sound.start yard other)
    · rcases spec.start with ⟨none, _⟩ | ⟨same, _⟩
      · exact .inl none
      · exact .inr same
  refine ⟨w, _, rfl, change, spec.blank.1, rfl, h.gone new (live_eq_none.mpr spec.old), ?_⟩
  exact h.changed change booted range (fun _ => mirrored) fun dying => nomatch spec.blank.1.symm.trans dying

theorem Mirror.booted_of {a : Thd} (h : Mirror cfg s) (found : s.sched.thds t = some a) :
    s.sched.init = some cfg.initThd := by
  rcases h.booted with booted | empty
  · exact booted
  · nomatch (empty t).symm.trans found

/-- Both copies say the same. -/
structure Synced (cfg : Config) (s : State) : Prop where
  mirror : Mirror cfg s
  roles : Roles s

/-- A thread is created for a client. -/
theorem Synced.create (h : Synced cfg s) (runs : s.sched.runs cur) (careful : CarefulList cfg s cur sp fn)
    (taken : setupThreadArg cfg s cur tid dest sp fn d = some (s', new)) : Synced cfg s' := by
  obtain ⟨single, words, start⟩ := careful
  obtain ⟨_, found, _⟩ := runs_iff.mp runs
  have booted := h.mirror.booted_of found
  have sound : Sound cfg s cur dest sp fn := by
    refine ⟨?_, fun w head => (words w head).2, fun yard _ => start yard⟩
    intro sched new thd policy spec set
    rw [spec.parent runs] at set
    exact single.symm.trans set
  obtain ⟨w, thd, head, change, _, same, gone, mirror⟩ := h.mirror.setup booted sound taken
  obtain ⟨none, off⟩ := h.roles.of_gone gone
  exact ⟨mirror, h.roles.changed change (Word.not_internal (words w head).1) none
    (h.roles.same_timeout change same off rfl)⟩

/-! ## `sched_root_init` -/

def assign (s : PerCore) (t : Tid) : Role → PerCore
  | .idle => { s with idle := some t }
  | .timer => { s with timer := some t }
  | .ipiHandler => { s with ipiHandler := some t }

theorem holder_assign_self (s : PerCore) (role : Role) : holder (assign s t role) role = some t := by
  cases role <;> rfl

variable {role : Role} {role' : Role}

theorem holder_assign_ne (s : PerCore) (ne : role' ≠ role) : holder (assign s t role) role' = holder s role' := by
  cases role with
  | _ => cases role' with
    | _ => first | rfl | exact absurd rfl ne

theorem Role.type_injective (same : role.type = role'.type) : role = role' := by
  cases role with
  | _ => cases role' with
    | _ => first | rfl | exact nomatch same

theorem Mirror.assign (h : Mirror cfg s) (role : Role) : Mirror cfg { s with sched := assign s.sched t role } := by
  cases role <;> exact { h with }

/-- A new thread gets a role that no thread has. -/
theorem Roles.assign (h : Roles s) (change : Changed s s' t thd k)
    (gone : s.kernel.tracked t = .nothing) (type : k.metric.type = role.type) (vacant : holder s.sched role = none)
    (same : s'.sched.wakeupThd = s.sched.wakeupThd) (clear : k.timeout = false) :
    Roles { s' with sched := assign s'.sched t role } where
  held := by
    intro role' x
    change holder (SchedulerReboot.assign s'.sched t role) role' = some x ↔ (s'.kernel.tracked x).metric.type = role'.type
    rw [change.tracked]
    by_cases this : role' = role
    · subst this
      rw [holder_assign_self]
      split
      next at_ => exact iff_of_true (congrArg some at_.symm) type
      next other =>
        refine iff_of_false (fun here => other (some.inj here).symm) fun here => ?_
        nomatch vacant.symm.trans ((h.held role' x).mpr here)
    · rw [holder_assign_ne _ this, change.held]
      split
      next at_ =>
        rw [at_]
        exact iff_of_false ((h.of_gone gone).1 role') fun here => this (Role.type_injective (here.symm.trans type))
      · exact h.held role' x
  timeout := by
    intro x
    have wakeup : (SchedulerReboot.assign s'.sched t role).wakeupThd = s'.sched.wakeupThd := by
      cases role <;> rfl
    change (SchedulerReboot.assign s'.sched t role).wakeupThd = some x ↔ _
    rw [wakeup]
    exact h.same_timeout change same (h.of_gone gone).2 clear x

theorem internal_sound {type : ParamType} (absolute : ¬ Relative (Word.ofType type))
    (start : dest = cfg.spd ∨ fn = 0) : Sound cfg s cfg.initThd dest [.ofType type, 0] fn := by
  refine ⟨?_, ?_, ?_⟩
  · intro sched new thd policy _ set
    rw [threadParamSet_noop, threadParamSet_parent (.inl absolute)] at set
    exact set
  · intro w head _
    cases head
    exact absolute
  · intro _ other
    rcases start with same | zero
    · exact absurd same other
    · exact zero

theorem Role.ofType_type (role : Role) :
    (Word.ofType role.type).type = role.type ∧ ¬ Relative (Word.ofType role.type) := by
  cases role <;> decide

/-- A scheduler without threads. -/
theorem blank_synced (init : Option Tid) {k : Kernel} (nothing : ∀ t, k.tracked t = .nothing) :
    Synced cfg ⟨{ PerCore.blank with init }, k⟩ := by
  refine ⟨⟨nofun, fun t _ => nothing t, nofun, .inr fun _ => rfl⟩, fun role t => ?_, fun t => ?_⟩
  · have vacant : holder { PerCore.blank with init } role = none := by
      cases role <;> rfl
    dsimp only
    rw [vacant, nothing t]
    exact iff_of_false nofun (role_type_ne_noop role)
  · dsimp only
    rw [nothing t]
    exact iff_of_false nofun false_ne_true

section

variable (h : Synced cfg s)
include h

/-- A thread of the scheduler is created and gets its role. -/
theorem Synced.startRole (booted : s.sched.init = some cfg.initThd)
    (role : Role) (vacant : holder s.sched role = none)
    (taken : setupInternal cfg s cfg.spd role.type fn tid = some (s', new)) :
    Synced cfg { s' with sched := assign s'.sched new role } ∧
      (assign s'.sched new role).init = some cfg.initThd ∧
      ∀ role' ≠ role, holder (assign s'.sched new role) role' = holder s.sched role' := by
  obtain ⟨type, absolute⟩ := role.ofType_type
  obtain ⟨w, thd, head, change, _, same, gone, mirror⟩ :=
    h.mirror.setup booted (internal_sound absolute (.inl rfl)) taken
  cases head
  refine ⟨⟨mirror.assign role, h.roles.assign change gone type vacant same rfl⟩, ?_, ?_⟩
  · have init : (assign s'.sched new role).init = s'.sched.init := by
      cases role <;> rfl
    exact init.trans (change.init.trans booted)
  · intro role' ne
    rw [holder_assign_ne _ ne, change.held]

/-- The thread that boots the other components has no role. -/
theorem Synced.startBoot (booted : s.sched.init = some cfg.initThd)
    (taken : setupInternal cfg s bootSpd .init 0 tid = some (s', new)) :
    Synced cfg s' ∧ s'.sched.init = some cfg.initThd ∧ ∀ role, holder s'.sched role = holder s.sched role := by
  obtain ⟨w, thd, head, change, _, same, gone, mirror⟩ :=
    h.mirror.setup booted (internal_sound (by decide) (.inr rfl)) taken
  cases head
  obtain ⟨none, off⟩ := h.roles.of_gone gone
  refine ⟨⟨mirror, ?_⟩, change.init.trans booted, change.held⟩
  exact h.roles.changed change (Word.not_internal (by decide)) none (h.roles.same_timeout change same off rfl)

/-- Before the first start there are no threads. -/
theorem Synced.beforeInit (off : s.sched.init = none) :
    Synced cfg { s with sched := { PerCore.blank with init := some cfg.initThd } } := by
  have empty : ∀ t, s.sched.thds t = none := by
    rcases h.mirror.booted with booted | empty
    · nomatch off.symm.trans booted
    · exact empty
  have nothing : ∀ t, s.kernel.tracked t = .nothing := by
    intro t
    refine h.mirror.gone t (live_eq_none.mpr fun a found => ?_)
    nomatch (empty t).symm.trans found
  exact blank_synced _ nothing

theorem Synced.rootInit {idle boot timer ipi : Tid}
    (taken : schedRootInit cfg s idle boot timer ipi = some s') : Synced cfg s' := by
  obtain ⟨off, taken⟩ := ite_none_left_eq_some.mp taken
  have start := h.beforeInit (not_isSome_iff_eq_none.mp off)
  obtain ⟨⟨s1, idleThd⟩, first, taken⟩ := bind_eq_some_iff.mp taken
  obtain ⟨synced1, booted1, roles1⟩ := start.startRole rfl .idle rfl first
  obtain ⟨⟨s2, bootThd⟩, second, taken⟩ := bind_eq_some_iff.mp taken
  obtain ⟨synced2, booted2, roles2⟩ := synced1.startBoot booted1 second
  obtain ⟨⟨s3, timerThd⟩, third, taken⟩ := bind_eq_some_iff.mp taken
  have noTimer := (roles2 .timer).trans (roles1 .timer nofun)
  obtain ⟨synced3, booted3, roles3⟩ := synced2.startRole booted2 .timer noTimer third
  obtain ⟨⟨s4, ipiThd⟩, fourth, rfl⟩ := map_eq_some_iff.mp taken
  have noIpi := (roles2 .ipiHandler).trans (roles1 .ipiHandler nofun)
  exact (synced3.startRole booted3 .ipiHandler ((roles3 .ipiHandler nofun).trans noIpi) fourth).1

/-! ## The other steps -/

theorem Synced.createThd {a : Args} (careful : Careful cfg s (.createThd cur tid a))
    (taken : schedCreateThd cfg s cur tid a = some s') : Synced cfg s' := by
  unfold schedCreateThd at taken
  split at taken
  · cases taken
    exact h
  · obtain ⟨allowed, taken⟩ := ite_none_left_eq_some.mp taken
    obtain ⟨ws, converted, taken⟩ := bind_eq_some_iff.mp taken
    obtain ⟨⟨s1, new⟩, setup, rfl⟩ := map_eq_some_iff.mp taken
    exact h.create (not_eq_false _ ▸ (not_or.mp allowed).2) (careful ws converted) setup

theorem Synced.createThreadDefault {a : Args} (careful : Careful cfg s (.createThreadDefault cur tid a))
    (taken : schedCreateThreadDefault cfg s cur tid a = some s') : Synced cfg s' := by
  obtain ⟨allowed, taken⟩ := ite_none_left_eq_some.mp taken
  obtain ⟨ws, converted, taken⟩ := bind_eq_some_iff.mp taken
  obtain ⟨⟨s1, new⟩, setup, rfl⟩ := map_eq_some_iff.mp taken
  exact h.create (not_eq_false _ ▸ (not_or.mp allowed).2) (careful ws converted) setup

theorem Synced.kill (careful : Careful cfg s (.kill t)) (taken : fpKillThd s t = some s') : Synced cfg s' := by
  obtain ⟨idle, timer, ipi, wakeup⟩ := careful
  unfold fpKillThd at taken
  split at taken
  · nomatch taken
  rename_i thd found
  obtain ⟨_, same⟩ := ite_none_left_eq_some.mp taken
  cases same
  have change : Changed s
      { sched := { s.sched with graveyard := t :: s.sched.graveyard }.setThd t { thd with dying := true }
        kernel := { s.kernel with tracked := update s.kernel.tracked t .nothing } }
      t { thd with dying := true } .nothing := by
    refine ⟨fun x => update_apply .., fun x => update_apply .., rfl, fun role => ?_⟩
    cases role <;> rfl
  have none : ∀ role, holder s.sched role ≠ some t := by
    intro role
    cases role with
    | idle => exact idle
    | timer => exact timer
    | ipiHandler => exact ipi
  exact ⟨h.mirror.changed change (h.mirror.booted_of found) (h.mirror.range t thd found) nofun fun _ => rfl,
    h.roles.changed change role_type_ne_noop none (h.roles.same_timeout change rfl wakeup rfl)⟩

theorem Synced.timeoutThd (careful : Careful cfg s (.timeoutThd t))
    (taken : schedTimeoutThd s t = some s') : Synced cfg s' := by
  unfold schedTimeoutThd at taken
  split at taken
  · cases taken
    exact h
  rename_i thd found
  obtain ⟨dying, same⟩ := ite_none_left_eq_some.mp taken
  cases same
  have alive := live_eq_some.mpr ⟨found, not_eq_true _ ▸ dying⟩
  have mirrored := h.mirror.alive t thd alive
  have change : Changed s
      { sched := { s.sched with wakeupThd := some t }
        kernel := { s.kernel with
          tracked := update s.kernel.tracked t { s.kernel.tracked t with timeout := true } } }
      t thd { s.kernel.tracked t with timeout := true } := by
    refine ⟨fun x => ?_, fun x => update_apply .., rfl, fun role => ?_⟩
    · split
      next at_ =>
        rw [at_]
        exact found
      · rfl
    · cases role <;> rfl
  refine ⟨h.mirror.changed change (h.mirror.booted_of found) (h.mirror.range t thd found) ?_ ?_, ?_, ?_⟩
  · exact fun _ => { mirrored with }
  · exact fun gone => absurd gone dying
  · intro role x
    rw [change.tracked]
    split
    next at_ =>
      rw [at_]
      exact h.roles.held role t
    · exact h.roles.held role x
  · intro x
    rw [change.tracked]
    split
    next at_ => exact iff_of_true (congrArg some at_.symm) rfl
    rename_i other
    refine iff_of_false (fun here => other (some.inj here).symm) fun set => ?_
    have before := (h.roles.timeout x).mpr set
    rcases careful with none | self
    · nomatch none.symm.trans before
    · exact other (some.inj (before.symm.trans self))

theorem Synced.tick : Synced cfg (schedTimerTick s) := by
  refine ⟨{ h.mirror with }, fun role t => ?_, h.roles.timeout⟩
  have held := h.roles.held role t
  cases role <;> exact held

end

/-! ## The loop of `sched_reboot` -/

/-- The entry that the loop makes for a live thread. -/
def rebuilt (s : State) (t : Tid) : Option Thd := (live s t).map fun a => { a with spdid := (s.kernel.tracked t).dest }

/-- The scheduler when the threads in `done` have been restored. -/
structure Partial (cfg : Config) (s : State) (done : List Tid) (p : PerCore) : Prop where
  init : p.init = some cfg.initThd
  thds : ∀ t, p.thds t = if t ∈ done then rebuilt s t else none
  held : ∀ role, holder p role = (holder s.sched role).filter fun t => decide (t ∈ done)
  timeout : p.wakeupThd = s.sched.wakeupThd.filter fun t => decide (t ∈ done)
  ticks : s.kernel.systemTicks = 0 → p.ticks = 0

variable {p : PerCore} {done : List Tid} {f : Fault} {a : Thd}

theorem filter_snoc (o : Option Tid) (done : List Tid) (t : Tid) :
    (o.filter fun x => decide (x ∈ done ++ [t])) = if o = some t then some t else o.filter fun x => decide (x ∈ done) := by
  cases o with
  | none => rfl
  | some x =>
    by_cases at_ : x = t <;> simp [filter_some, at_]

theorem giveRole_frame (k : Kernel) (p : PerCore) (t : Tid) :
    (giveRole k p t).thds = p.thds ∧ (giveRole k p t).init = p.init ∧ (giveRole k p t).wakeupThd = p.wakeupThd := by
  unfold giveRole
  split
  all_goals exact ⟨rfl, rfl, rfl⟩

theorem restoreTimeout_frame {k : Kernel} :
    (restoreTimeout k p t).thds = p.thds ∧ (restoreTimeout k p t).init = p.init ∧
      (∀ role, holder (restoreTimeout k p t) role = holder p role) ∧ (restoreTimeout k p t).ticks = p.ticks := by
  unfold restoreTimeout
  split
  · refine ⟨rfl, rfl, fun role => ?_, rfl⟩
    cases role <;> rfl
  · exact ⟨rfl, rfl, fun _ => rfl, rfl⟩

theorem giveRole_ticks {k : Kernel} (zero : k.systemTicks = 0) (start : p.ticks = 0) (t : Tid) :
    (giveRole k p t).ticks = 0 := by
  unfold giveRole
  split
  · exact start
  · rw [zero]
    rfl
  all_goals exact start

theorem holder_giveRole (k : Kernel) (p : PerCore) (t : Tid) (role : Role) :
    holder (giveRole k p t) role = if (k.tracked t).metric.type = role.type then some t else holder p role := by
  cases type : (k.tracked t).metric.type with
  | _ =>
    simp only [giveRole, type]
    cases role <;> rfl

section

variable (h : Partial cfg s done p)
include h

/-- Without deferrable servers no thread has accounting that another one could take over. -/
theorem Partial.parent (mirror : Mirror cfg s) (fprr : cfg.deferrable = false) (blank : thd.policy = .blank)
    (cur : Tid) : ∀ q ∈ (p.setThd t thd).parent cur, q.budget = 0 ∧ q.window = 0 := by
  intro q parent
  unfold PerCore.parent at parent
  split at parent
  · cases parent
    exact ⟨rfl, rfl⟩
  obtain ⟨b, found, rfl⟩ := map_eq_some_iff.mp parent
  by_cases at_ : cur = t
  · have self : (p.setThd t thd).thds cur = some thd := by
      rw [at_]
      exact update_self ..
    cases self.symm.trans found
    rw [blank]
    exact ⟨rfl, rfl⟩
  · have old := (update_of_ne at_ ..).symm.trans found
    rw [h.thds] at old
    obtain ⟨_, same⟩ := ite_none_right_eq_some.mp old
    obtain ⟨a, alive, rfl⟩ := map_eq_some_iff.mp same
    have policy := (mirror.alive cur a alive).policy
    rw [fprr] at policy
    exact threadParamSet_unaccounted policy

theorem Partial.policy (mirror : Mirror cfg s) (alive : live s t = some a) (behind : f.behind t = []) :
    restoredPolicy cfg s.kernel f (p.setThd t (restoredEntry s.kernel t)) t = some a.policy := by
  have mirrored := mirror.alive t a alive
  have nothing : ¬ Relative (s.kernel.tracked t).metric ∨
      ∀ q ∈ (p.setThd t (restoredEntry s.kernel t)).parent f.cur, q.budget = 0 ∧ q.window = 0 := by
    cases deferrable : cfg.deferrable with
    | true => exact .inl (mirrored.plain deferrable)
    | false => exact .inr (h.parent mirror deferrable rfl f.cur)
  rw [restoredPolicy, mirrored.param, if_pos rfl, behind, threadParamSet_parent nothing]
  exact mirrored.policy

/-- One more thread has been restored. -/
theorem Partial.install (synced : Synced cfg s) (alive : live s t = some a) :
    Partial cfg s (done ++ [t]) (giveRole s.kernel
      (restoreTimeout s.kernel (p.setThd t { a with spdid := (s.kernel.tracked t).dest }) t) t) := by
  obtain ⟨thds, init, wakeup⟩ := giveRole_frame s.kernel
    (restoreTimeout s.kernel (p.setThd t { a with spdid := (s.kernel.tracked t).dest }) t) t
  refine ⟨?_, ?_, ?_, ?_, ?_⟩
  · rw [init, restoreTimeout_frame.2.1]
    exact h.init
  · intro x
    rw [thds, restoreTimeout_frame.1]
    change update p.thds t _ x = _
    rw [update_apply, h.thds]
    by_cases at_ : x = t
    · rw [if_pos at_, if_pos (List.mem_append_right _ (List.mem_singleton.mpr at_)), at_, rebuilt, alive]
      rfl
    · simp [at_]
  · intro role
    rw [holder_giveRole, restoreTimeout_frame.2.2.1, filter_snoc]
    simp only [← synced.roles.held role t]
    exact congrArg _ (h.held role)
  · rw [wakeup, filter_snoc, restoreTimeout]
    simp only [← synced.roles.timeout t]
    split
    · rfl
    · exact h.timeout
  · intro zero
    refine giveRole_ticks zero ?_ t
    rw [restoreTimeout_frame.2.2.2]
    exact h.ticks zero

/-- The body of the loop restores one more thread. -/
theorem Partial.recreate (synced : Synced cfg s) (alive : live s t = some a) (new : t ∉ done)
    (behind : f.behind t = []) :
    ∃ p', recreate cfg s.kernel f p t = some p' ∧ Partial cfg s (done ++ [t]) p' := by
  obtain ⟨found, running⟩ := live_eq_some.mp alive
  have mirrored := synced.mirror.alive t a alive
  obtain ⟨_, small, other⟩ := synced.mirror.range t a found
  have free : p.free t := by
    have none : p.thds t = none := (h.thds t).trans (if_neg new)
    rw [PerCore.free, none, h.init, decide_eq_true small]
    exact bne_iff_ne.mpr fun same => other (some.inj same).symm
  have allowed : ¬ ((s.kernel.tracked t).metric = 0 ∨ (s.kernel.tracked t).dest = 0 ∨ p.free t = false) := by
    rintro (metric | dest | taken)
    · exact mirrored.metric metric
    · exact mirrored.dest dest
    · nomatch free.symm.trans taken
  have entry : { restoredEntry s.kernel t with policy := a.policy } = { a with spdid := (s.kernel.tracked t).dest } := by
    rw [running, mirrored.start]
    rfl
  rw [Source.Sched.Reboot.recreate, if_neg allowed, h.policy synced.mirror alive behind, map_some, entry]
  exact ⟨_, rfl, h.install synced alive⟩

end

/-- The threads that the loop finds. -/
def recorded (s : State) : List Tid := entries (fun t => 0 < (s.kernel.tracked t).dest) schedNumThreads

theorem Mirror.live_of_tracked (h : Mirror cfg s) (some : s.kernel.tracked t ≠ .nothing) : ∃ a, live s t = .some a :=
  ne_none_iff_exists'.mp fun none => some (h.gone t none)

theorem Mirror.mem_recorded (h : Mirror cfg s) : t ∈ recorded s ↔ ∃ a, live s t = some a := by
  rw [recorded, mem_entries, decide_eq_true_eq]
  constructor
  · rintro ⟨_, _, dest⟩
    exact h.live_of_tracked fun nothing => absurd dest (by rw [nothing]; decide)
  · rintro ⟨a, alive⟩
    obtain ⟨pos, small, _⟩ := h.range t a (live_eq_some.mp alive).1
    exact ⟨pos, Nat.le_of_lt small, Nat.pos_of_ne_zero (h.alive t a alive).dest⟩

theorem Mirror.mem_of_tracked (h : Mirror cfg s) (some : s.kernel.tracked t ≠ .nothing) : t ∈ recorded s :=
  h.mem_recorded.mpr (h.live_of_tracked some)

theorem Partial.start (cfg : Config) (s : State) : Partial cfg s [] { PerCore.blank with init := some cfg.initThd } := by
  refine ⟨rfl, fun t => (if_neg List.not_mem_nil).symm, fun role => ?_, ?_, fun _ => rfl⟩
  · rw [filter_eq_none_iff.mpr fun t _ => by simp]
    cases role <;> rfl
  · exact (filter_eq_none_iff.mpr fun t _ => by simp).symm

/-- The loop restores all recorded threads. -/
theorem Synced.loop (h : Synced cfg s) (careful : Careful cfg s (.reboot f)) :
    ∃ p, walk (introThdFirst s.kernel) (recreate cfg s.kernel f) schedNumThreads (introThdFirst s.kernel 0)
      { PerCore.blank with init := some cfg.initThd } = some p ∧ Partial cfg s (recorded s) p := by
  have behind := careful.2
  have visits : walk (introThdFirst s.kernel) (recreate cfg s.kernel f) schedNumThreads (introThdFirst s.kernel 0)
      { PerCore.blank with init := some cfg.initThd } =
        (recorded s).foldlM (recreate cfg s.kernel f) { PerCore.blank with init := some cfg.initThd } :=
    walk_after schedNumThreads (Nat.zero_add _) (Nat.le_refl _) _
  rw [visits]
  refine foldlM_spec (Partial cfg s) (Partial.start cfg s) ?_ (entries_nodup schedNumThreads)
  intro done t p mem new visited
  obtain ⟨a, alive⟩ := h.mirror.mem_recorded.mp mem
  have small := (h.mirror.range t a (live_eq_some.mp alive).1).2.1
  exact visited.recreate h alive new (behind t small)

theorem filter_recorded {o : Option Tid} (all : ∀ t, o = some t → t ∈ recorded s) :
    (o.filter fun t => decide (t ∈ recorded s)) = o := by
  cases o with
  | none => rfl
  | some t => exact filter_some_pos (decide_eq_true (all t rfl))

section

variable (h : Partial cfg s (recorded s) p)
include h

/-- Every thread that has a role is recorded, so the loop gives it back. -/
theorem Partial.roles (synced : Synced cfg s) :
    (∀ role, holder p role = holder s.sched role) ∧ p.wakeupThd = s.sched.wakeupThd := by
  constructor
  · intro role
    rw [h.held, filter_recorded]
    exact fun t here => synced.mirror.mem_of_tracked fun nothing => (synced.roles.of_gone nothing).1 role here
  · rw [h.timeout, filter_recorded]
    exact fun t here => synced.mirror.mem_of_tracked fun nothing => (synced.roles.of_gone nothing).2 here

theorem Partial.entry (mirror : Mirror cfg s) (t : Tid) : p.thds t = rebuilt s t := by
  rw [h.thds]
  split
  · rfl
  next absent =>
    rw [mirror.mem_recorded, not_exists] at absent
    rw [rebuilt, eq_none_iff_forall_ne_some.mpr absent]
    rfl

theorem Partial.restored (synced : Synced cfg s) : ThreadsRestored s { s with sched := p } := by
  obtain ⟨roles, timeout⟩ := h.roles synced
  refine ⟨fun t a alive => ⟨?_, (synced.mirror.alive t a alive).spdid⟩, fun t gone => ?_, roles .idle, roles .timer,
    roles .ipiHandler, timeout, rfl⟩
  · exact (h.entry synced.mirror t).trans (congrArg _ alive)
  · exact (h.entry synced.mirror t).trans (congrArg _ gone)

/-- After the reboot both copies say the same again. -/
theorem Partial.synced (synced : Synced cfg s) : Synced cfg { s with sched := p } := by
  obtain ⟨roles, timeout⟩ := h.roles synced
  have entry := h.entry synced.mirror
  refine ⟨⟨?_, ?_, ?_, .inl h.init⟩, ?_, ?_⟩
  · intro t b alive
    obtain ⟨found, _⟩ := live_eq_some.mp alive
    obtain ⟨a, before, rfl⟩ := map_eq_some_iff.mp ((entry t).symm.trans found)
    have mirrored := synced.mirror.alive t a before
    exact { mirrored with spdid := .inr rfl }
  · intro t gone
    refine synced.mirror.gone t (eq_none_iff_forall_ne_some.mpr fun a alive => ?_)
    have dying := live_eq_none.mp gone _ ((entry t).trans (congrArg _ alive))
    nomatch dying.symm.trans (live_eq_some.mp alive).2
  · intro t b found
    obtain ⟨a, before, _⟩ := map_eq_some_iff.mp ((entry t).symm.trans found)
    exact synced.mirror.range t a (live_eq_some.mp before).1
  · intro role t
    rw [roles]
    exact synced.roles.held role t
  · intro t
    rw [timeout]
    exact synced.roles.timeout t

end

theorem Synced.reboot (h : Synced cfg s) (careful : Careful cfg s (.reboot f)) :
    ∃ s', schedReboot cfg s f = some s' ∧ ThreadsRestored s s' ∧ (Unticked s → Restored s s') ∧ Synced cfg s' := by
  obtain ⟨p, loop, visited⟩ := h.loop careful
  obtain ⟨a, found, running⟩ := runs_iff.mp careful.1
  have metric := (h.mirror.alive f.faultThd a (live_eq_some.mpr ⟨found, running⟩)).metric
  have pos := (h.mirror.range f.faultThd a found).1
  rw [schedReboot, if_neg (Nat.ne_of_gt pos), loop, bind_some, if_neg metric]
  have restored := visited.restored h
  refine ⟨_, rfl, restored, fun unticked => ⟨restored, ?_⟩, visited.synced h⟩
  exact (visited.ticks unticked.2).trans unticked.1.symm

/-! ## Every run -/

theorem Synced.next {label : Label} (h : Synced cfg s) (careful : Careful cfg s label)
    (taken : step cfg s label = some s') : Synced cfg s' := by
  cases label with
  | rootInit => exact h.rootInit taken
  | createThd => exact h.createThd careful taken
  | createThreadDefault => exact h.createThreadDefault careful taken
  | kill => exact h.kill careful taken
  | timeoutThd => exact h.timeoutThd careful taken
  | tick =>
    obtain ⟨_, same⟩ := ite_none_right_eq_some.mp taken
    cases same
    exact h.tick
  | reboot =>
    obtain ⟨s1, stepped, _, _, synced⟩ := h.reboot careful
    cases stepped.symm.trans taken
    exact synced

theorem scheduler_restored (cfg : Config) : ∀ s, Reachable (schedSystem cfg) (Careful cfg) s →
    ∀ f, Careful cfg s (.reboot f) → ∃ s', step cfg s (.reboot f) = some s' ∧ ThreadsRestored s s' ∧
      (Unticked s → Restored s s') := by
  intro s reached f careful
  have synced := reached.invariant (Synced cfg) (blank_synced none fun _ => rfl) fun s label s' h careful taken => h.next careful taken
  obtain ⟨s', stepped, threads, restored, _⟩ := synced.reboot careful
  exact ⟨s', stepped, threads, restored⟩

/-- The scheduler without deferrable servers. -/
def fprr : Config where
  spd := 2
  spd_ne := by decide
  initThd := 3
  initThd_ne := by decide
  deferrable := false
  fpIdleLoop := 0x1000
  fpTimer := 0x2000
  ipiHandler := 0x3000

/-- The thread that boots the components is in the scheduler when it fails. -/
def bootFault : Fault := ⟨5, 3, fun _ => []⟩

/-- Two threads are created, with priority 10 and one below the creator's; one becomes the timeout thread and
the other one is killed. -/
def plainHistory : List Label :=
  [.rootInit 4 5 6 7, .createThd 5 8 ⟨9, 0x000A0001, 0, 0⟩, .createThd 5 9 ⟨9, 0x00010003, 0, 0⟩, .timeoutThd 8, .kill 9]

theorem plain_history_restored : (∃ s s', Run (schedSystem fprr) (Careful fprr) plainHistory s ∧
    live s 8 = some ⟨false, ⟨10, 0, 0⟩, 0, 0⟩ ∧ live s 9 = none ∧
    step fprr s (.reboot bootFault) = some s' ∧ Restored s s') ∧
    ∃ s s', Run (schedSystem fprr) (Careful fprr) (plainHistory ++ [.tick]) s ∧ s.sched.ticks = 2 ∧
      step fprr s (.reboot bootFault) = some s' ∧ ThreadsRestored s s' := by
  constructor
  · obtain ⟨s, run, careful, unticked, eight, nine⟩ := exec_ends (schedSystem fprr) (Careful fprr) plainHistory
      (fun s => Careful fprr s (.reboot bootFault) ∧ (s.sched.ticks = 0 ∧ s.kernel.systemTicks = 0) ∧
        live s 8 = some ⟨false, ⟨10, 0, 0⟩, 0, 0⟩ ∧ live s 9 = none)
      (by decide +kernel)
    obtain ⟨s', stepped, -, restored⟩ := scheduler_restored fprr s ⟨_, run⟩ bootFault careful
    exact ⟨s, s', run, eight, nine, stepped, restored unticked⟩
  · obtain ⟨s, run, careful, ticks⟩ := exec_ends (schedSystem fprr) (Careful fprr) (plainHistory ++ [.tick])
      (fun s => Careful fprr s (.reboot bootFault) ∧ s.sched.ticks = 2) (by decide +kernel)
    obtain ⟨s', stepped, restored, -⟩ := scheduler_restored fprr s ⟨_, run⟩ bootFault careful
    exact ⟨s, s', run, ticks, stepped, restored⟩

/-- A thread is created on core 0 with priority 10, in this order, and the timer ticks once. -/
def coreFirst : List Label := [.rootInit 4 5 6 7, .createThd 5 8 ⟨9, 0x0000000D, 0x000A0001, 0⟩, .tick]

theorem second_parameter_lost : ∃ s s', Run (schedSystem fprr) anyStep coreFirst s ∧
    step fprr s (.reboot bootFault) = some s' ∧ (s.sched.thds 8).map (fun a => a.policy.priority) = some 10 ∧
    (s'.sched.thds 8).map (fun a => a.policy.priority) = some 31 ∧ s.sched.ticks = 2 ∧ s'.sched.ticks = 1 ∧
    ¬ Restored s s' := by
  obtain ⟨s, run, s', stepped, before, after, ticks, ticks'⟩ := exec_ends (schedSystem fprr) anyStep coreFirst
    (fun s => ∃ s' ∈ step fprr s (.reboot bootFault), (s.sched.thds 8).map (fun a => a.policy.priority) = some 10 ∧
      (s'.sched.thds 8).map (fun a => a.policy.priority) = some 31 ∧ s.sched.ticks = 2 ∧ s'.sched.ticks = 1)
    (by decide +kernel)
  refine ⟨s, s', run, stepped, before, after, ticks, ticks', fun restored => ?_⟩
  have same := restored.ticks
  rw [ticks, ticks'] at same
  exact absurd same (by decide)

end SuperGlue.Guarantees.SchedulerReboot
