import SuperGlue.Lib.Transition
import SuperGlue.Source.Llboot.Recovery

/-!
# Requests to the recovery thread

There is one set of fields for all requests. A request that begins while another one is pending overwrites it, and
the thread that made the first one returns once the second one is done. A thread that found its own id in `prev_thd`
and switches too late wakes the recovery thread without a request.
-/
namespace SuperGlue.Guarantees.RecoveryRequests
open Option List Function Lib.Transition Source.Llboot.Recovery

variable (initThd : Nat)

/-- The upcall that a thread's request asks for. -/
def upcall (q : Nat × Request) : Request :=
  if q.2.dest = llbootSched then { q.2 with arg := schedArg q.1 initThd } else q.2

/-- The booter, with the requests, the upcalls and the upcalls that have ended. -/
structure Observed where
  s : State
  asked : List (Nat × Request)
  delivered : List Request
  completed : List Request

def observe (recoveryThd initThd : Nat) (o : Observed) (label : Label) : Option Observed :=
  (step recoveryThd initThd o.s label).map fun s =>
    match label, o.s.recovery with
    | .request t r, _ => { o with s := s, asked := o.asked ++ [(t, r)] }
    | .recover, .upcall r => { o with s := s, delivered := o.delivered ++ [r] }
    | .recover, .inside r => { o with s := s, completed := o.completed ++ [r] }
    | _, _ => { o with s := s }

def booter (recoveryThd initThd : Nat) : System Observed Label := ⟨⟨.init, [], [], []⟩, observe recoveryThd initThd⟩

/-- A request begins when none is pending and names a component, and a thread switches while the request is its own. -/
def Careful (o : Observed) : Label → Prop
  | .request _ r => o.s.prevThd = 0 ∧ r.dest ≠ 0
  | .run t => o.s.pc t = .switch → o.s.prevThd = t
  | .recover => True

instance : DecidableRel Careful
  | _, .request .. => inferInstanceAs (Decidable (_ ∧ _))
  | _, .run _ => inferInstanceAs (Decidable (_ → _))
  | _, .recover => instDecidableTrue

/-! ## The stages of a request -/

/-- The thread is in the loop of `recovery_upcall`. -/
def Waits : Pc → Prop
  | .check | .switch => True
  | _ => False

variable (s : State)

/-- How much of its request a thread has written. -/
def Written (q : Nat × Request) : Pc → Prop
  | .out => False
  | .setSpd r => r = q.2
  | .setOp r => r = q.2 ∧ s.recoverSpd = q.2.dest
  | .setArg r => r = q.2 ∧ s.recoverSpd = q.2.dest ∧ s.operation = q.2.op
  | .readPrev => q.2.dest = llbootSched ∧ s.recoverSpd = q.2.dest ∧ s.operation = q.2.op
  | .setSched arg =>
    arg = schedArg q.1 initThd ∧ q.2.dest = llbootSched ∧ s.recoverSpd = q.2.dest ∧ s.operation = q.2.op
  | .check | .switch => ⟨s.operation, s.recoverSpd, s.recoveryArg⟩ = upcall initThd q

/-- The thread in `prev_thd`, which is at `pc`, makes the request. -/
def Asks (pc : Pc) (q : Nat × Request) : Prop :=
  s.prevThd = q.1 ∧ q.2.dest ≠ 0 ∧ Written initThd s q pc

/-- The recovery thread reads the request of a thread that waits, or finds that it is done. -/
def Reads (pc : Pc) (pending : Option (Nat × Request)) : Prop :=
  s.prevThd ≠ 0 ∧ Waits pc ∧ (pending = none ∧ s.recoverSpd = 0 ∨ ∃ q, pending = some q ∧ Asks initThd s pc q)

def Calls (pc : Pc) (pending : Option (Nat × Request)) (r : Request) : Prop :=
  s.prevThd ≠ 0 ∧ Waits pc ∧ s.recoverSpd = 0 ∧ ∃ q, pending = some q ∧ s.prevThd = q.1 ∧ r = upcall initThd q

/-- There is no request, or a thread makes one. -/
def Rests (pc : Pc) (pending : Option (Nat × Request)) : Prop :=
  pending = none ∧ s.prevThd = 0 ∨ s.prevThd ≠ 0 ∧ ∃ q, pending = some q ∧ Asks initThd s pc q

/-- What holds where the recovery thread is. The request `pending` has not been completed, and `pc` is the place of the
thread in `prev_thd`. -/
def Stage (pc : Pc) (pending : Option (Nat × Request)) : Prop :=
  match s.recovery with
  | .parked | .switchBack _ => Rests initThd s pc pending
  | .top => Reads initThd s pc pending
  | .gotPrev pthd => pthd = s.prevThd ∧ Reads initThd s pc pending
  | .gotSpd pthd rspd => (pthd = s.prevThd ∧ rspd = s.recoverSpd) ∧ Reads initThd s pc pending
  | .gotOp pthd rspd op =>
    (pthd = s.prevThd ∧ rspd = s.recoverSpd ∧ op = s.operation) ∧ Reads initThd s pc pending
  | .gotArg pthd r =>
    (pthd = s.prevThd ∧ r = ⟨s.operation, s.recoverSpd, s.recoveryArg⟩) ∧ Reads initThd s pc pending
  | .upcall r | .inside r => Calls initThd s pc pending r
  | .failed => False

/-- The upcall that the recovery thread has made and not ended. -/
def entered : Loop → List Request
  | .inside r => [r]
  | _ => []

/-- The requests in `done` have been completed in order, and `pending` is the last one. -/
structure Orderly (recoveryThd initThd : Nat) (o : Observed) (done : List (Nat × Request))
    (pending : Option (Nat × Request)) : Prop where
  stage : Stage initThd o.s (o.s.pc o.s.prevThd) pending
  caller : o.s.prevThd = 0 ∨ o.s.prevThd ≠ recoveryThd
  aside : ∀ u, u ≠ o.s.prevThd → o.s.pc u = .out ∨ Waits (o.s.pc u)
  zero : o.s.pc 0 = .out
  asked : o.asked = done ++ pending.toList
  completed : o.completed = done.map (upcall initThd)
  delivered : o.delivered = o.completed ++ entered o.s.recovery

variable {recoveryThd initThd : Nat} {s s' : State} {pending : Option (Nat × Request)} {t : Nat} {pc : Pc}
  {o o' : Observed} {done : List (Nat × Request)}

theorem recover_orderly (h : Orderly recoveryThd initThd o done pending)
    (next : observe recoveryThd initThd o .recover = some o') :
    ∃ done pending, Orderly recoveryThd initThd o' done pending := by
  obtain ⟨s', ran, rfl⟩ := map_eq_some_iff.mp next
  obtain ⟨stage, caller, aside, zero, asked, completed, delivered⟩ := h
  simp only [step, recover] at ran
  simp only [Stage] at stage
  cases at_ : o.s.recovery <;> simp only [at_, reduceCtorEq] at ran stage delivered ⊢
  case top =>
    cases ran
    exact ⟨done, pending, ⟨rfl, stage⟩, caller, aside, zero, asked, completed, delivered⟩
  case gotPrev pthd =>
    cases ran
    exact ⟨done, pending, ⟨⟨stage.1, rfl⟩, stage.2⟩, caller, aside, zero, asked, completed, delivered⟩
  case gotSpd pthd rspd =>
    cases ran
    exact ⟨done, pending, ⟨⟨stage.1.1, stage.1.2, rfl⟩, stage.2⟩, caller, aside, zero, asked, completed, delivered⟩
  case gotOp pthd rspd op =>
    cases ran
    obtain ⟨⟨rfl, rfl, rfl⟩, stage⟩ := stage
    exact ⟨done, pending, ⟨⟨rfl, rfl⟩, stage⟩, caller, aside, zero, asked, completed, delivered⟩
  case gotArg pthd r =>
    obtain ⟨⟨rfl, rfl⟩, nonzero, waits, ⟨rfl, spd⟩ | ⟨q, rfl, own, live, written⟩⟩ := stage
    · -- the request is done
      rw [if_neg (by simp [spd]), if_neg (by simp [nonzero, caller.resolve_left nonzero])] at ran
      cases ran
      refine ⟨done, none, .inl ⟨rfl, rfl⟩, .inl rfl, fun u _ => ?_, zero, asked, completed, delivered⟩
      by_cases same : u = o.s.prevThd
      · exact .inr (same ▸ waits)
      · exact aside u same
    · have fields : (⟨o.s.operation, o.s.recoverSpd, o.s.recoveryArg⟩ : Request) = upcall initThd q := by
        cases place : o.s.pc o.s.prevThd <;> simp only [place, Waits] at waits written <;> exact written
      have dest : o.s.recoverSpd = q.2.dest := by
        have same := congrArg Request.dest fields
        unfold upcall at same
        split at same <;> exact same
      rw [if_pos (by rwa [dest]), if_neg nonzero] at ran
      cases ran
      exact ⟨done, some q, ⟨nonzero, waits, rfl, q, rfl, own, fields⟩, caller, aside, zero, asked, completed, delivered⟩
  case upcall r =>
    cases ran
    exact ⟨done, pending, stage, caller, aside, zero, asked, completed, by simp [delivered, entered]⟩
  case inside r =>
    cases ran
    obtain ⟨nonzero, waits, spd, q, rfl, own, rfl⟩ := stage
    refine ⟨done ++ [q], none, ⟨nonzero, waits, .inl ⟨rfl, spd⟩⟩, caller, aside, zero, ?_, ?_, ?_⟩
    · simpa using asked
    · simp [completed]
    · simpa [entered] using delivered
  case switchBack pthd =>
    cases ran
    exact ⟨done, pending, stage, caller, aside, zero, asked, completed, delivered⟩

/-- The recovery thread does not run. -/
def Quiet : Loop → Prop
  | .parked | .switchBack _ => True
  | _ => False

theorem Stage.quiet (stage : Stage initThd s pc pending) (away : s.prevThd = 0 ∨ ¬ Waits pc) :
    Quiet s.recovery ∧ Rests initThd s pc pending := by
  have running : ¬ (s.prevThd ≠ 0 ∧ Waits pc) := fun ⟨nonzero, waits⟩ => (away.resolve_left nonzero) waits
  unfold Stage at stage
  cases at_ : s.recovery <;> simp only [at_] at stage
  case parked | switchBack => exact ⟨trivial, stage⟩
  case top => exact absurd ⟨stage.1, stage.2.1⟩ running
  case upcall | inside => exact absurd ⟨stage.1, stage.2.1⟩ running
  all_goals exact absurd ⟨stage.2.1, stage.2.2.1⟩ running

theorem Quiet.stage (quiet : Quiet s.recovery) (rests : Rests initThd s pc pending) : Stage initThd s pc pending := by
  unfold Stage
  cases at_ : s.recovery <;> simp only [at_, Quiet] at quiet
  case parked | switchBack => exact rests

theorem Stage.woken (stage : Stage initThd s .switch pending) (nonzero : s.prevThd ≠ 0) :
    Stage initThd { s with recovery := s.recovery.woken } .check pending := by
  unfold Stage at stage ⊢
  cases at_ : s.recovery <;> simp only [at_] at stage ⊢
  case parked => exact ⟨nonzero, trivial, .inr (stage.resolve_left fun rests => nonzero rests.2).2⟩
  all_goals exact stage

section

variable (h : Orderly recoveryThd initThd o done pending)
include h

theorem Orderly.moved {place : Pc} (prev : s'.prevThd = o.s.prevThd)
    (loop : entered s'.recovery = entered o.s.recovery) (pcs : s'.pc = update o.s.pc t pc) (nonzero : t ≠ 0)
    (aside : t ≠ o.s.prevThd → pc = .out) (at_ : update o.s.pc t pc o.s.prevThd = place)
    (stage : Stage initThd s' place pending) : Orderly recoveryThd initThd { o with s := s' } done pending := by
  refine ⟨?_, prev.symm ▸ h.caller, fun u other => ?_, ?_, h.asked, h.completed, h.delivered.trans (by rw [loop])⟩
  · rwa [prev, pcs, at_]
  · rw [prev] at other
    rw [pcs]
    by_cases same : u = t
    · subst same
      exact .inl ((update_self ..).trans (aside other))
    · rw [update_of_ne same]
      exact h.aside u other
  · rw [pcs, update_of_ne nonzero.symm]
    exact h.zero

theorem run_orderly (careful : Careful o (.run t)) (next : observe recoveryThd initThd o (.run t) = some o') :
    Orderly recoveryThd initThd o' done pending := by
  obtain ⟨s', ran, rfl⟩ := map_eq_some_iff.mp next
  simp only [step, run] at ran
  have nonzero : t ≠ 0 := by
    rintro rfl
    simp [h.zero] at ran
  by_cases other : t = o.s.prevThd
  swap
  · rcases h.aside t other with place | waits
    · simp [place] at ran
    cases place : o.s.pc t <;> simp only [place, Waits] at waits ran
    case check =>
      rw [if_neg (Ne.symm other)] at ran
      cases ran
      exact h.moved rfl rfl rfl nonzero (fun _ => rfl) (update_of_ne (Ne.symm other) ..) h.stage
    case switch => exact absurd (careful place).symm other
  subst other
  have stage := h.stage
  have own : ∀ {pc : Pc}, o.s.prevThd ≠ o.s.prevThd → pc = .out := fun ne => absurd rfl ne
  cases place : o.s.pc o.s.prevThd <;> simp only [place, reduceCtorEq] at ran stage
  case check =>
    cases ran
    exact h.moved rfl rfl rfl nonzero own (update_self ..) stage
  case switch =>
    cases ran
    refine h.moved rfl ?_ rfl nonzero own (update_self ..) (stage.woken nonzero)
    cases o.s.recovery <;> rfl
  all_goals
    obtain ⟨quiet, rests⟩ := stage.quiet (.inr id)
    obtain ⟨-, q, rfl, made, live, written⟩ := rests.resolve_left fun rests => nonzero rests.2
    obtain rfl := some.inj ran
    refine h.moved rfl rfl rfl nonzero own (update_self ..) (Quiet.stage quiet (.inr ⟨nonzero, q, rfl, made, live, ?_⟩))
  case setSpd r => exact ⟨written, congrArg Request.dest written⟩
  case setOp r => exact ⟨written.1, written.2, congrArg Request.op written.1⟩
  case setArg r =>
    obtain ⟨rfl, spd, op⟩ := written
    split
    next sched => exact ⟨sched, spd, op⟩
    next others => simp [Written, upcall, others, spd, op, State.goto]
  case readPrev => exact ⟨by rw [made], written⟩
  case setSched arg =>
    obtain ⟨rfl, sched, spd, op⟩ := written
    simp [Written, upcall, sched, spd, op, State.goto]

theorem step_orderly {label : Label} (careful : Careful o label) (next : observe recoveryThd initThd o label = some o')
    : ∃ done pending, Orderly recoveryThd initThd o' done pending := by
  cases label with
  | request t r =>
    obtain ⟨s', ran, rfl⟩ := map_eq_some_iff.mp next
    obtain ⟨⟨-, nonzero, caller, -⟩, ran⟩ := ite_none_right_eq_some.mp ran
    obtain rfl := some.inj ran
    obtain ⟨quiet, rests⟩ := h.stage.quiet (.inl careful.1)
    obtain ⟨rfl, -⟩ := rests.resolve_right fun rests => rests.1 careful.1
    refine ⟨done, some (t, r), ?_, .inr caller, fun u other => ?_, ?_, by simp [h.asked], h.completed, h.delivered⟩
    · refine Quiet.stage quiet (.inr ⟨nonzero, (t, r), rfl, rfl, careful.2, ?_⟩)
      simp [State.goto, Written]
    · have same : update o.s.pc t (.setSpd r) u = o.s.pc u := update_of_ne other ..
      dsimp only [State.goto]
      rw [same]
      by_cases zero : u = 0
      · exact .inl (zero ▸ h.zero)
      · exact h.aside u (careful.1 ▸ zero)
    · exact (update_of_ne nonzero.symm ..).trans h.zero
  | run t => exact ⟨done, pending, run_orderly h careful next⟩
  | recover => exact recover_orderly h next

end

/-- The thread whose request is not completed is inside of `recovery_upcall`. -/
theorem Stage.owner {q : Nat × Request} (stage : Stage initThd s pc (some q)) : s.prevThd = q.1 ∧ pc ≠ .out := by
  have waiting : Waits pc → pc ≠ .out := by
    rintro waits rfl
    exact waits
  unfold Stage Rests Reads Calls at stage
  cases at_ : s.recovery <;> simp only [at_, reduceCtorEq, false_and, false_or] at stage
  case parked | switchBack =>
    obtain ⟨-, _, ⟨⟩, own, -, written⟩ := stage
    exact ⟨own, fun out => by rw [out] at written; exact written⟩
  case top =>
    obtain ⟨-, waits, _, ⟨⟩, own, -⟩ := stage
    exact ⟨own, waiting waits⟩
  case upcall | inside =>
    obtain ⟨-, waits, -, _, ⟨⟩, own, -⟩ := stage
    exact ⟨own, waiting waits⟩
  all_goals
    obtain ⟨-, -, waits, _, ⟨⟩, own, -⟩ := stage
    exact ⟨own, waiting waits⟩

/-- In every run of careful steps the upcalls are those of the requests in their order, a thread that has returned has
no request that is not completed, and no assertion fails. -/
theorem requests_served (reached : Reachable (booter recoveryThd initThd) Careful o) :
    o.delivered <+: o.asked.map (upcall initThd) ∧ o.completed <+: o.delivered ∧
    (∀ q ∈ o.asked.drop o.completed.length, o.s.pc q.1 ≠ .out) ∧ o.s.recovery ≠ .failed := by
  have start : Orderly recoveryThd initThd (booter recoveryThd initThd).init [] none :=
    ⟨.inl ⟨rfl, rfl⟩, .inl rfl, fun _ _ => .inl rfl, rfl, rfl, rfl, rfl⟩
  obtain ⟨done, pending, h⟩ := reached.invariant (fun o => ∃ done pending, Orderly recoveryThd initThd o done pending)
    ⟨_, _, start⟩ fun o label o' ⟨done, pending, h⟩ careful next => step_orderly h careful next
  have stage := h.stage
  refine ⟨?_, h.delivered ▸ prefix_append .., fun q mem => ?_, fun failed => ?_⟩
  · rw [h.asked, h.delivered, h.completed, map_append, prefix_append_right_inj]
    cases at_ : o.s.recovery with
    | inside r =>
      rw [Stage, at_] at stage
      obtain ⟨-, -, -, q, rfl, -, rfl⟩ := stage
      exact prefix_rfl
    | _ => exact nil_prefix
  · rw [h.asked, h.completed, length_map, drop_left, mem_toList] at mem
    cases mem
    obtain ⟨own, inside⟩ := stage.owner
    exact own ▸ inside
  · rw [Stage, failed] at stage
    exact stage

/-- Thread 1 asks for a reboot of component 3, and then of the scheduler. -/
def twoRequests : List Label :=
  let served := .run 1 :: .run 1 :: replicate 13 .recover ++ [.run 1]
  .request 1 ⟨7, 3, 40⟩ :: .run 1 :: .run 1 :: .run 1 :: served ++
    .request 1 ⟨7, 2, 40⟩ :: .run 1 :: .run 1 :: .run 1 :: .run 1 :: .run 1 :: served

theorem two_requests_served : ∃ o, Run (booter 9 5) Careful twoRequests o ∧ o.s.pc 1 = .out ∧
    o.completed = [⟨7, 3, 40⟩, ⟨7, 2, 65541⟩] ∧ o.completed <+: o.asked.map (upcall 5) := by
  refine exec_shows (fun o => o.s.pc 1 = .out ∧ o.completed = [⟨7, 3, 40⟩, ⟨7, 2, 65541⟩]) (by decide +kernel)
    fun o run ⟨out, completed⟩ => ?_
  obtain ⟨delivered, ended, -⟩ := requests_served ⟨_, run⟩
  exact ⟨out, completed, ended.trans delivered⟩

/-- Thread 2 makes a request before thread 1, which has written its own one, switches to the recovery thread. -/
def overwritten : List Label :=
  .request 1 ⟨7, 3, 0⟩ :: .run 1 :: .run 1 :: .run 1 :: .request 2 ⟨7, 4, 0⟩ :: replicate 5 (.run 2) ++
    replicate 13 .recover ++ [.run 2, .run 1]

/-- Both threads have returned, and only the second request has been delivered. -/
theorem request_lost : ∃ o, Run (booter 9 5) anyStep overwritten o ∧ o.asked = [(1, ⟨7, 3, 0⟩), (2, ⟨7, 4, 0⟩)] ∧
    o.s.pc 1 = .out ∧ o.s.pc 2 = .out ∧ o.delivered = [⟨7, 4, 0⟩] :=
  exec_ends _ _ _ _ (by decide +kernel)

end SuperGlue.Guarantees.RecoveryRequests
