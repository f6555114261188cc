import SuperGlue.Lib.Transition
import SuperGlue.Source.Sched.Budget

/-!
# Servers keep to their budgets

A server is charged for every quantum that it has gathered as long as no call completes a second quantum, or ends
exactly with one: the first is charged by a later call, and the second when more has gathered.
-/
namespace SuperGlue.Guarantees.ServerBudgets
open Nat Lib.Transition Source.Sched.Budget

/-- A server with the processing time for which it was not charged before the last replenishment. -/
structure Observed where
  st : State
  gathered : Nat

inductive Call where
  | elapsed (time : Nat)
  | tick (numTicks : Nat)

variable (quantum C T : Nat) (s : State)

def perform (o : Observed) : Call → Option Observed
  | .elapsed time => some ⟨timeElapsed quantum C T o.st time, o.gathered + time⟩
  | .tick n => (timerTick T o.st n).map fun st => ⟨st, if o.st.tExp ≤ st.ticks then st.polCycles else o.gathered⟩

def server (start : Nat) : System Observed Call := ⟨⟨.init start, 0⟩, perform quantum C T⟩

/-- No call completes a second quantum or ends with one, and no counter wraps. -/
def Short (o : Observed) : Call → Prop
  | .elapsed time => (o.st.polCycles + time < 2 * quantum ∧ o.st.polCycles + time ≠ quantum) ∧ o.st.cUsed + 1 < wordSize
  | .tick n => o.st.ticks + n + T < wordSize

instance : DecidableRel (Short quantum T)
  | _, .elapsed _ => inferInstanceAs (Decidable (_ ∧ _))
  | _, .tick _ => inferInstanceAs (Decidable (_ < _))

/-- The first replenishment is at the next tick, any other at the next multiple of `T`. -/
def Due : Prop := s.tExp = 0 ∨ s.tExp = (s.ticks / T + 1) * T

/-- A tick to `s'` replenishes the budget if it is due. -/
def Ticked (s' : State) : Prop :=
  s' = if s.tExp ≤ s'.ticks then ⟨s'.ticks, s.polCycles, 0, (s'.ticks / T + 1) * T, false⟩ else { s with ticks := s'.ticks }

structure Regular (o : Observed) : Prop where
  gathered : o.gathered = quantum * o.st.cUsed + o.st.polCycles
  rest : o.st.polCycles < quantum
  suspended : o.st.suspended = true ↔ C ≤ o.st.cUsed
  due : Due T o.st

variable {quantum C T s} {o o' : Observed} {n start : Nat}

theorem timerTick_cases (due : Due T s) (room : s.ticks + n + T < wordSize) {s' : State}
    (run : timerTick T s n = some s') : s'.ticks = s.ticks + n ∧ Due T s' ∧ Ticked T s s' := by
  have ticks : (s.ticks + n) % wordSize = s.ticks + n := mod_eq_of_lt (by omega)
  simp only [timerTick, ticks] at run
  split at run
  · contradiction
  next valid =>
    have rest := mod_lt (s.ticks + n) (show 0 < T by omega)
    have whole := div_add_mod' (s.ticks + n) T
    have following : (s.ticks + n + (T - (s.ticks + n) % T)) % wordSize = ((s.ticks + n) / T + 1) * T := by
      rw [mod_eq_of_lt (by omega), succ_mul]
      omega
    rw [following] at run
    split at run <;> cases run
    next passed => exact ⟨rfl, .inr rfl, (if_pos passed).symm⟩
    next early =>
      refine ⟨rfl, .inr ?_, (if_neg early).symm⟩
      have due := due.resolve_left fun start => early (by omega)
      have low := div_mul_le_self s.ticks T
      have same : (s.ticks + n) / T = s.ticks / T := Nat.div_eq_of_lt_le (by omega) (by omega)
      rw [due, same]

theorem Regular.next {call : Call} (h : Regular quantum C T o) (word : quantum < wordSize) (pos : C ≠ 0) (window : T ≠ 0)
    (short : Short quantum T o call) (run : perform quantum C T o call = some o') : Regular quantum C T o' := by
  obtain ⟨gathered, rest, suspended, due⟩ := h
  cases call with
  | elapsed time =>
    cases run
    obtain ⟨⟨less, ne⟩, room⟩ := short
    have small : o.st.polCycles + time < 2 ^ 64 := by
      unfold wordSize at word
      omega
    simp only [timeElapsed, if_neg window, mod_eq_of_lt small, mod_eq_of_lt room]
    split
    · refine ⟨?_, ?_, ?_, due⟩ <;> simp only [mul_succ, Bool.or_eq_true, decide_eq_true_eq, suspended] <;> omega
    · refine ⟨?_, ?_, suspended, due⟩ <;> dsimp only <;> omega
  | tick n =>
    obtain ⟨st, ticked, rfl⟩ := Option.map_eq_some_iff.mp run
    obtain ⟨-, due, effect⟩ := timerTick_cases due short ticked
    unfold Ticked at effect
    split at effect
    next passed =>
      rw [if_pos passed]
      exact ⟨by rw [effect]; simp, by rwa [effect], by rw [effect]; simpa using pos, due⟩
    next early =>
      rw [if_neg early]
      exact ⟨by rwa [effect], by rwa [effect], by rwa [effect], due⟩

/-- In every run of such calls, with what a further tick does. -/
theorem server_budgeted (positive : 0 < quantum) (word : quantum < wordSize) (pos : C ≠ 0) (window : T ≠ 0)
    (reached : Reachable (server quantum C T start) (Short quantum T) o) :
    o.st.cUsed = o.gathered / quantum ∧ (o.st.suspended = true ↔ C ≤ o.st.cUsed) ∧ Due T o.st ∧
      ∀ n s, Short quantum T o (.tick n) → timerTick T o.st n = some s → s.ticks = o.st.ticks + n ∧ Ticked T o.st s := by
  have h := reached.invariant (Regular quantum C T)
    ⟨rfl, positive, by simpa [server, State.init] using pos, .inl rfl⟩ fun _ _ _ h => h.next word pos window
  refine ⟨?_, h.suspended, h.due, ?_⟩
  · rw [h.gathered, mul_add_div positive, Nat.div_eq_of_lt h.rest]
    rfl
  · intro n s short run
    obtain ⟨ticks, -, ticked⟩ := timerTick_cases h.due short run
    exact ⟨ticks, ticked⟩

theorem second_quantum_suspends : ∃ o, Reachable (server 10 2 5 3) (Short 10 5) o ∧ o.st.cUsed = o.gathered / 10 ∧
    o.gathered = 27 ∧ o.st.suspended = true ∧ o.st.tExp = 5 := by
  refine exec_reaches [.tick 1, .elapsed 9, .elapsed 9, .elapsed 9] _ (by decide) fun o reached h => ⟨?_, h⟩
  exact (server_budgeted (by decide) (by decide) (by decide) (by decide) reached).1

/-- Three quanta in one call cost one unit, and a whole quantum costs nothing. -/
theorem long_call_undercharged :
    (∃ o, Run (server 10 2 5 3) anyStep [.elapsed 35] o ∧
      o.gathered / 10 = 3 ∧ o.st.cUsed = 1 ∧ o.st.suspended = false) ∧
    ∃ o, Run (server 10 1 5 3) anyStep [.elapsed 10] o ∧
      o.gathered / 10 = 1 ∧ o.st.cUsed = 0 ∧ o.st.suspended = false :=
  ⟨⟨_, .next .start trivial rfl, by decide⟩, _, .next .start trivial rfl, by decide⟩

end SuperGlue.Guarantees.ServerBudgets
