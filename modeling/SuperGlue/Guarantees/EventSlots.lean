import SuperGlue.Lib.Transition
import SuperGlue.Source.Sched.EventSlots

/-!
# The slots and the threads point at each other

When the kernel refuses a binding, the slot is marked free again, but the thread stays recorded for it and keeps
its number.
-/
namespace SuperGlue.Guarantees.EventSlots
open Function Lib.Transition Source.Sched.EventSlots

variable (numSchedEvts : Nat) (s : State) (thd : Tid) (accepted : Bool)

/-- A call, with the answer of the kernel if it is asked. -/
inductive Call where
  | alloc (thd : Tid) (accepted : Bool)
  | rem (thd : Tid) (accepted : Bool)

def slots : System State Call := ⟨schedDsInit, fun s call =>
  match call with
  | .alloc thd accepted => (schedAllocEvent numSchedEvts s thd accepted).map (·.1)
  | .rem thd accepted => (schedRemEvent s thd accepted).map (·.1)⟩

/-- The kernel does not refuse an allocation. -/
def Accepting (_ : State) : Call → Prop
  | .alloc _ accepted => accepted = true
  | .rem _ _ => True

structure Linked : Prop where
  free : ∀ i ≠ 0, s.free i = true ↔ s.mapEvtThd i = none
  link : ∀ i ≠ 0, ∀ thd, s.mapEvtThd i = some thd ↔ s.evtId thd = i

variable {s thd accepted} {s' : State} {ret : Int}

theorem allocLoop_cases (i left : Nat) : allocLoop s thd accepted i left = some (s, -1) ∨
    ∃ j, i ≤ j ∧ s.free j = true ∧ allocLoop s thd accepted i left = bindSlot s thd accepted j := by
  induction left generalizing i with
  | zero => exact .inl rfl
  | succ left ih =>
    rw [allocLoop]
    split
    next free => exact .inr ⟨i, Nat.le_refl i, free, rfl⟩
    · refine (ih (i + 1)).imp_right ?_
      rintro ⟨j, le, rest⟩
      exact ⟨j, Nat.le_of_succ_le le, rest⟩

/-- If all slots are taken, nothing changes. Otherwise the assertion holds and the thread gets a free slot. -/
theorem schedAllocEvent_cases (h : Linked s) (idle : s.evtId thd = 0) :
    schedAllocEvent numSchedEvts s thd accepted = some (s, -1) ∨
      ∃ j ≠ 0, s.mapEvtThd j = none ∧ schedAllocEvent numSchedEvts s thd accepted = bindSlot s thd accepted j := by
  rw [schedAllocEvent, if_pos idle]
  refine (allocLoop_cases 1 (numSchedEvts - 1)).imp_right ?_
  rintro ⟨j, pos, free, run⟩
  have ne := Nat.ne_of_gt pos
  exact ⟨j, ne, (h.free j ne).mp free, run⟩

theorem Linked.alloc (h : Linked s) (ok : schedAllocEvent numSchedEvts s thd true = some (s', ret)) :
    Linked s' ∧ (ret = -1 → s' = s) := by
  have idle : s.evtId thd = 0 := by
    by_contra has
    simp [schedAllocEvent, has] at ok
  rcases schedAllocEvent_cases numSchedEvts h idle with full | ⟨j, ne, empty, run⟩
  · cases full.symm.trans ok
    exact ⟨h, fun _ => rfl⟩
  rw [run, bindSlot, if_pos empty] at ok
  cases ok
  refine ⟨⟨fun i pos => ?_, fun i pos t => ?_⟩, by omega⟩
  · have old := h.free i pos
    grind
  · have old := h.link i pos t
    grind

theorem Linked.rem (h : Linked s) (ok : schedRemEvent s thd accepted = some (s', ret)) : Linked s' := by
  rw [schedRemEvent] at ok
  split at ok
  · contradiction
  next has =>
    have own := (h.link (s.evtId thd) (by tauto) thd).mpr rfl
    split at ok <;> cases ok
    · refine ⟨fun i pos => ?_, fun i pos t => ?_⟩
      · have old := h.free i pos
        grind
      · have old := h.link i pos t
        grind
    · exact h

theorem slots_linked (reached : Reachable (slots numSchedEvts) Accepting s) : Linked s := by
  refine reached.invariant Linked ⟨by simp [slots, schedDsInit], by simp [slots, schedDsInit, eq_comm]⟩ ?_
  intro s call t h accepting step
  cases call <;> obtain ⟨⟨_, _⟩, ok, rfl⟩ := Option.map_eq_some_iff.mp step
  · cases accepting
    exact (h.alloc _ ok).1
  · exact h.rem ok

/-- As long as the kernel refuses no allocation: one that fails changes nothing, and no free slot has a thread. -/
theorem event_slots_linked (reached : Reachable (slots numSchedEvts) Accepting s) : Linked s ∧
    (∀ thd s', schedAllocEvent numSchedEvts s thd true = some (s', -1) → s' = s) ∧
    ∀ thd accepted, s.evtId thd = 0 → (schedAllocEvent numSchedEvts s thd accepted).isSome := by
  have h := slots_linked _ reached
  refine ⟨h, fun thd s' ok => (h.alloc _ ok).2 rfl, fun thd accepted idle => ?_⟩
  rcases schedAllocEvent_cases numSchedEvts h idle with full | ⟨j, -, empty, run⟩
  · rw [full]
    rfl
  · rw [run, bindSlot, if_pos empty]
    split <;> rfl

instance : DecidableRel Accepting
  | _, .alloc _ accepted => inferInstanceAs (Decidable (accepted = true))
  | _, .rem _ _ => instDecidableTrue

theorem two_slots_linked : ∃ s, Reachable (slots 3) Accepting s ∧ s.evtId 8 = 2 ∧ s.mapEvtThd 2 = some 8 :=
  exec_reaches [.alloc 7 true, .alloc 8 true, .rem 7 true] (fun s => s.evtId 8 = 2) (by decide) fun _ reached has =>
    ⟨has, ((event_slots_linked 3 reached).1.link 2 nofun 8).mpr has⟩

/-- A refused allocation leaves the thread in the free slot, and the next allocation fails its assertion. -/
theorem refused_slot_kept : ∃ s, Run (slots 3) anyStep [.alloc 7 false] s ∧ s.free 1 = true ∧
    s.mapEvtThd 1 = some 7 ∧ s.evtId 7 = 1 ∧ s.evtId 8 = 0 ∧ (schedAllocEvent 3 s 8 true).isNone :=
  exec_ends _ _ _ _ (by decide)

end SuperGlue.Guarantees.EventSlots
