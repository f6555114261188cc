import SuperGlue.Lib.Chain
import SuperGlue.Guarantees.SchedulerThreads

/-!
# Dependency walks end

The scheduler follows dependencies to find the thread to run. `sched_block` refuses a dependency only if the other
thread depends on the caller itself, so a walk can run into a longer cycle. It ends in every state of a run in
which a new dependency never leads back to its thread.
-/
namespace SuperGlue.Guarantees.DependencyWalks
open Function (update update_of_ne update_self)
open Option Lib.Transition Lib.Chain Source.Sched.Blocking SchedulerThreads

/-- No thread comes to depend on one that leads back to it. -/
def unlinked (s : State) : Label → Prop
  | .block _ d _ => ∀ curr, s.current = some curr → d ≠ curr → ¬ Leads s.next d curr
  | .take spd => ∀ curr, s.current = some curr → ∀ h, s.holder spd = some h → h ≠ curr → ¬ Leads s.next h curr
  | .resume => ∀ curr, s.current = some curr → ∀ t, s.thd curr = some t → ∀ spd, t.pc = .taking spd →
      ∀ h, s.holder spd = some h → h ≠ curr → ¬ Leads s.next h curr
  | _ => True

/-! ## Successors -/

variable {s s' : State}

theorem dependsOn_congr (same : s'.holder = s.holder) (t : Thd) : dependsOn s' t = dependsOn s t := by
  unfold dependsOn
  rw [same]

theorem next_set (s : State) (i : Nat) (v : Thd) (a : Nat) :
    (s.set i v).next a = if a = i then dependsOn s v else s.next a := by
  unfold State.next State.set
  by_cases same : a = i
  · simp only [same, update_self]
    exact dependsOn_congr rfl v
  · simp only [update_of_ne same, if_neg same]
    exact congrArg _ (funext fun t => dependsOn_congr rfl t)

theorem next_congr (map : s'.thd = s.thd) (holders : s'.holder = s.holder) : s'.next = s.next := by
  funext a
  unfold State.next
  rw [map]
  exact congrArg _ (funext fun t => dependsOn_congr holders t)

/-- Every walk ends. -/
def Walks (s : State) : Prop := ∀ a, Ends s.next a

theorem Walks.congr (walks : Walks s) (map : s'.thd = s.thd) (holders : s'.holder = s.holder) : Walks s' := by
  unfold Walks
  rw [next_congr map holders]
  exact walks

variable {i : Nat} {v : Thd}

/-- A record keeps its dependency. -/
theorem Walks.keep {u : Thd} (walks : Walks s) (known : s.thd i = some u)
    (same : dependsOn s v = dependsOn s u) : Walks (s.set i v) := by
  intro a
  refine (walks a).redirect fun x => .inl ?_
  rw [next_set]
  split
  next own => rw [own, State.next, known, bind_some, same]
  · rfl

theorem Walks.link {d : Nat} (walks : Walks s) (linked : dependsOn s v = some d)
    (apart : ¬ Leads s.next d i) : Walks (s.set i v) := by
  intro a
  refine Ends.link walks ?_ ?_ apart a
  · intro x other
    rw [next_set, if_neg other]
  · rw [next_set, if_pos rfl, linked]

variable {t : Thd}

theorem dependsOn_free (free : t.dependent = false) : dependsOn s t = none := by
  unfold dependsOn
  rw [if_pos free]

variable {spd : Spd} {curr : Nat} {label : Label}

/-- A thread without a dependency takes a critical section or gives it back. -/
theorem Walks.hands {h : Option Nat} (walks : Walks s) (map : s'.thd = update s.thd curr (some t))
    (holders : s'.holder = update s.holder spd h) (free : t.dependent = false) (target : h = none ∨ h = some curr) :
    Walks s' := by
  have last : s'.next curr = none := by simp [State.next, map, dependsOn_free free]
  intro a
  refine (walks a).redirect fun x => ?_
  by_cases own : x = curr
  · exact .inr (.inl (own ▸ last))
  have kept : s'.next x = (s.thd x).bind (dependsOn s') := by rw [State.next, map, update_of_ne own]
  rw [kept, State.next]
  cases s.thd x with
  | none => exact .inl rfl
  | some u =>
    simp only [bind_some, dependsOn]
    split
    · exact .inl rfl
    split
    · exact .inl rfl
    cases u.contendedComponent with
    | none => exact .inl rfl
    | some wanted =>
      rw [bind_some, holders]
      by_cases wants : wanted = spd
      · subst wants
        rw [update_self]
        rcases target with rfl | rfl
        · exact .inr (.inl rfl)
        · exact .inr (.inr ⟨curr, rfl, last⟩)
      · exact .inl (update_of_ne wants ..)

/-! ## Steps -/

theorem Change.walks (walks : Walks s) (allowed : unlinked s label) (change : Change s label s') : Walks s' := by
  cases change with
  | records map holders =>
    intro a
    refine (walks a).redirect fun x => ?_
    unfold State.next
    rcases map x with same | ⟨v, same, plain⟩
    · exact .inl (by rw [same, funext (dependsOn_congr holders)])
    · exact .inr (.inl (by rw [same, bind_some, dependsOn_free plain.free]))
  | waits i v map holders held depends =>
    suffices after : Walks (s.set i v) from after.congr map holders
    cases depends with
    | thread spd d calls on other known depends =>
      subst calls
      exact walks.link (by simp [dependsOn, depends]) (allowed i on other)
    | critical t spd h calls on known holds other depends =>
      refine walks.link (d := h) (by simp [dependsOn, depends, holds]) ?_
      rcases calls with rfl | ⟨rfl, place⟩
      · exact allowed i on h holds other
      · exact allowed i on t known spd place h holds other
    | timeout u calls chosen known due same => exact walks.keep known (by simp [dependsOn, same])
  | hands i t v spd h map holders known awake quiet _ count =>
    refine walks.hands map holders quiet.1 ?_
    rcases count with ⟨-, taken, -⟩ | ⟨-, released, -⟩
    · exact .inr taken
    · exact .inl released

/-! ## The walk of the scheduler -/

theorem Present.next (present : Present s) {a d : Nat} (depends : s.next a = some d) : s.thd d ≠ none := by
  unfold State.next at depends
  rw [bind_eq_some_iff] at depends
  obtain ⟨t, known, depends⟩ := depends
  unfold dependsOn at depends
  split at depends
  · contradiction
  split at depends
  next e waits =>
    cases depends
    exact present.dependency a t d known waits
  · rw [bind_eq_some_iff] at depends
    obtain ⟨spd, -, holds⟩ := depends
    exact present.holder spd d holds

/-- The loop returns if the chain ends. -/
theorem loop_returns {p : Nat} (present : Present s) (ends : Ends s.next p) (known : s.thd p ≠ none) :
    ∃ fuel result, dependencyLoop s curr fuel p = some result := by
  induction ends with
  | @stop p last =>
    obtain ⟨t, found⟩ := ne_none_iff_exists'.mp known
    refine ⟨1, (s.set p t.undepend, if t.blocked = false ∧ p ≠ curr then some p else none), ?_⟩
    rw [dependencyLoop, last, found]
    rfl
  | @step p d hop _ ih =>
    obtain ⟨fuel, result, returns⟩ := ih (Present.next present hop)
    refine ⟨fuel + 1, result, ?_⟩
    rw [dependencyLoop, hop]
    exact returns

/-- The chain ends if the loop returns. -/
theorem loop_ends {fuel p : Nat} {result : State × Option Nat}
    (returns : dependencyLoop s curr fuel p = some result) : Ends s.next p := by
  induction fuel generalizing p with
  | zero => contradiction
  | succ fuel ih =>
    unfold dependencyLoop at returns
    split at returns
    next d hop => exact .step hop (ih returns)
    next last => exact .stop last

/-! ## Results -/

/-- In a run in which no new dependency leads back, every walk and every scheduling decision ends. -/
theorem dependency_walks_end {s : State} (reached : Reachable scheduler unlinked s) : (∀ id, Ends s.next id) ∧
    (∀ id, s.thd id ≠ none → ∃ fuel result, schedThdDependency s fuel id = some result) ∧
    (∀ id t, s.thd id = some t → t.blocked = false → ∃ fuel s', dispatch s id fuel = some s') := by
  have present := reachable_present reached
  have walks : Walks s := by
    refine reachable_kept (fun _ => .stop rfl) (fun s walks => walks.congr rfl rfl) ?_ reached
    exact fun s label s' walks allowed change => Change.walks walks allowed change
  have returns : ∀ id, s.thd id ≠ none → ∃ fuel result, schedThdDependency s fuel id = some result :=
    fun id known => loop_returns present (walks id) known
  refine ⟨walks, returns, ?_⟩
  intro id t known awake
  obtain ⟨fuel, result, walked⟩ := returns id (by simp [known])
  refine ⟨fuel, { result.1 with current := some (result.2.getD id) }, ?_⟩
  rw [dispatch, known]
  simp [awake, walked]

def spd9 : Spd := ⟨⟨9, by decide⟩, by decide⟩

/-- Three threads that depend on each other in a circle. -/
theorem circle_of_three : ∃ s, Reachable scheduler anyStep s ∧ s.failed = false ∧
    ∀ fuel, schedThdDependency s fuel 1 = none := by
  refine exec_reaches
    [.create 1, .create 2, .create 3, .dispatch 1 1, .block spd9 2 true, .dispatch 2 1, .block spd9 3 true,
      .dispatch 3 1, .block spd9 1 true]
    (fun s => s.next 1 = some 2 ∧ s.next 2 = some 3 ∧ s.next 3 = some 1 ∧ s.failed = false) (by decide +kernel)
    fun s _ ⟨first, second, third, going⟩ => ⟨going, ?_⟩
  intro fuel
  by_contra returns
  obtain ⟨result, returns⟩ := ne_none_iff_exists'.mp returns
  exact (loop_ends returns).acyclic 2 first (.step second (.step third (.here 1)))

/-- A dependency on a thread that has none leads nowhere. -/
def direct (s : State) : Label → Prop
  | .block _ d _ => ∀ curr, s.current = some curr → s.next d = none
  | .take spd => ∀ curr, s.current = some curr → ∀ h, s.holder spd = some h → s.next h = none
  | .resume => False
  | _ => True

theorem direct_unlinked (s : State) (label : Label) (allowed : direct s label) : unlinked s label := by
  cases label with
  | block =>
    intro curr on other path
    exact other (leads_last (allowed curr on) path)
  | take =>
    intro curr on h holds other path
    exact other (leads_last (allowed curr on h holds) path)
  | resume => contradiction
  | _ => trivial

instance (s : State) (label : Label) : Decidable (direct s label) := by
  unfold direct
  split <;> infer_instance

/-- One thread waits for a critical section, and one for the thread that holds it. -/
theorem waiters_walk_ends : ∃ s, Reachable scheduler unlinked s ∧ s.next 2 = some 1 ∧ s.next 3 = some 1 ∧
    Ends s.next 2 ∧ Ends s.next 3 := by
  obtain ⟨s, run, second, third⟩ := exec_ends scheduler direct
    [.create 1, .create 2, .create 3, .dispatch 1 1, .take spd9, .dispatch 2 1, .take spd9, .dispatch 3 1,
      .block spd9 1 true]
    (fun s => s.next 2 = some 1 ∧ s.next 3 = some 1) (by decide +kernel)
  have reached : Reachable scheduler unlinked s := ⟨_, run.weaken direct_unlinked⟩
  have ends := (dependency_walks_end reached).1
  exact ⟨s, reached, second, third, ends 2, ends 3⟩

end SuperGlue.Guarantees.DependencyWalks
