import SuperGlue.Lib.Transition
import SuperGlue.Source.Event.Service

/-!
# Who owns an event id

The name server `name_server/evt_ns` keeps the creator of an id and never compares it: a request for an
existing id succeeds whenever somebody has the id, and anyone may free one. Freed ids are handed out
again. A client that replays its calls asks for ids that it was given once, and frees them, perhaps twice.
The lookup of the server refuses the ids that are gone, but it can tell them only until a new id is
handed out.
-/
namespace SuperGlue.Guarantees.EventNames
open Finset Option Lib.Transition Lib.Slots Source.Event.Stub Source.Event.Service

structure State where
  ns : SlotMap 1 SpdId
  /-- The ids that a client got from `ns_alloc` and did not free since. -/
  held : Finset (SpdId × Nat)
  /-- The ids that a client has freed since the last new id was handed out. -/
  freed : Finset (SpdId × Nat)

inductive Label where
  | alloc (cli : SpdId) (existing : Eid)
  | free (cli : SpdId) (id : Nat)
  deriving DecidableEq, Repr

def eventNames : System State Label where
  init := ⟨nsInit, ∅, ∅⟩
  step s
    | .alloc cli existing =>
      let (ns, ret) := nsAlloc s.ns cli existing
      some ⟨ns, if 0 < ret then insert (cli, ret.toNat) s.held else s.held, if existing = 0 then ∅ else s.freed⟩
    | .free cli id => some ⟨(nsFree s.ns id).1, s.held.erase (cli, id), insert (cli, id) s.freed⟩

/-- A client asks for an existing id, or frees one, only if it once got that id; and if it has freed it, no
new id was handed out since. -/
def disciplined (s : State) : Label → Prop
  | .alloc cli existing => existing = 0 ∨ 0 < existing ∧ (cli, existing.toNat) ∈ s.held ∪ s.freed
  | .free cli id => (cli, id) ∈ s.held ∪ s.freed

instance : DecidableRel disciplined := by
  intro s label
  unfold disciplined
  split <;> infer_instance

/-- The books of the clients and the server's map of creators. -/
structure Agree (s : State) : Prop where
  owner : ∀ cli id, (cli, id) ∈ s.held ↔ s.ns.get id = some cli
  reserved : s.ns.get 0 = none
  gone : ∀ cli id, (cli, id) ∈ s.freed → s.ns.get id = none

variable {s t : State} {cli : SpdId}

/-- The lookup of the server refuses an id that its client has freed. -/
theorem Agree.existing (agree : Agree s) {existing : Eid} (pos : 0 < existing)
    (got : (cli, existing.toNat) ∈ s.held ∪ s.freed) :
    (cli, existing.toNat) ∈ s.held ∧ nsAlloc s.ns cli existing = (s.ns, existing) ∨ nsAlloc s.ns cli existing = (s.ns, -1) := by
  rcases mem_union.mp got with own | gone
  · refine .inl ⟨own, ?_⟩
    rw [nsAlloc, if_neg (ne_of_gt pos), if_pos (by simp [(agree.owner cli _).mp own])]
  · refine .inr ?_
    rw [nsAlloc, if_neg (ne_of_gt pos), if_neg (by simp [agree.gone cli _ gone])]

theorem alloc_agree (agree : Agree s) {existing : Eid} (allowed : disciplined s (.alloc cli existing))
    (step : eventNames.step s (.alloc cli existing) = some t) : Agree t := by
  rcases allowed with rfl | ⟨pos, got⟩
  · have fresh := s.ns.base_le_slot
    have served : nsAlloc s.ns cli 0 = (s.ns.add cli, (s.ns.slot : Int)) := if_pos rfl
    have given : (0 : Int) < (s.ns.slot : Int) := by omega
    simp only [eventNames, served, given, if_true, some.injEq] at step
    subst step
    refine ⟨?_, ?_, by simp⟩
    · intro other id
      rw [mem_insert, s.ns.get_add, agree.owner]
      by_cases same : id = s.ns.slot
      -- nobody has the slot that is handed out
      · subst same
        simp [s.ns.get_slot, eq_comm]
      · simp [same]
    · rw [s.ns.get_add, if_neg (by omega)]
      exact agree.reserved
  · rcases agree.existing pos got with ⟨own, served⟩ | served
    · simp only [eventNames, served, pos, insert_eq_of_mem own, ne_of_gt pos, if_true, if_false, some.injEq] at step
      subst step
      exact { agree with }
    · have refused : ¬ (0 : Int) < -1 := by omega
      simp only [eventNames, served, refused, ne_of_gt pos, if_false, some.injEq] at step
      subst step
      exact { agree with }

theorem free_agree (agree : Agree s) {id : Nat} (got : (cli, id) ∈ s.held ∪ s.freed)
    (step : eventNames.step s (.free cli id) = some t) : Agree t := by
  cases step
  rcases mem_union.mp got with own | gone
  · have creator := (agree.owner cli id).mp own
    have other : id ≠ 0 := by
      intro zero
      rw [zero, agree.reserved] at creator
      contradiction
    have high : 1 ≤ id := by omega
    simp only [nsFree, other, creator, isSome_some, if_true, if_false]
    refine ⟨?_, ?_, ?_⟩
    · intro client k
      rw [mem_erase, s.ns.get_del high, agree.owner]
      by_cases same : k = id
      · subst same
        simp [creator, eq_comm]
      · simp [same]
    · rw [s.ns.get_del high, if_neg (by omega)]
      exact agree.reserved
    · intro client k mem
      rw [s.ns.get_del high]
      split
      · rfl
      next ne =>
        rw [mem_insert] at mem
        exact agree.gone client k (mem.resolve_left fun same => ne (congrArg Prod.snd same))
  · have none_ := agree.gone cli id gone
    have kept : (nsFree s.ns id).1 = s.ns := by
      rw [nsFree]
      split
      · rfl
      · rw [if_neg (by simp [none_])]
    have absent : (cli, id) ∉ s.held := by simp [agree.owner, none_]
    rw [kept, erase_eq_of_notMem absent, insert_eq_of_mem gone]
    exact agree

theorem reachable_agree (reached : Reachable eventNames disciplined s) : Agree s := by
  refine reached.invariant Agree ?_ ?_
  · exact ⟨by simp [eventNames, nsInit], rfl, by simp [eventNames]⟩
  · intro s label t agree allowed step
    cases label with
    | alloc => exact alloc_agree agree allowed step
    | free => exact free_agree agree allowed step

/-- In every run of disciplined clients, a request for an existing id succeeds only for the client that the
server has as its creator, and no id is in two books. -/
theorem names_owned (reached : Reachable eventNames disciplined s) :
    (∀ cli existing, disciplined s (.alloc cli existing) → existing ≠ 0 →
      0 ≤ (nsAlloc s.ns cli existing).2 → s.ns.get existing.toNat = some cli) ∧
    (∀ cli id, (cli, id) ∈ s.held ↔ s.ns.get id = some cli) ∧
    (∀ cli cli' id, (cli, id) ∈ s.held → (cli', id) ∈ s.held → cli = cli') := by
  have agree := reachable_agree reached
  refine ⟨?_, agree.owner, ?_⟩
  · rintro cli existing (zero | ⟨pos, got⟩) other accepted
    · exact absurd zero other
    · rcases agree.existing pos got with ⟨own, -⟩ | refused
      · exact (agree.owner cli _).mp own
      · rw [refused] at accepted
        contradiction
  · intro cli cli' id own own'
    exact some.inj (((agree.owner cli id).mp own).symm.trans ((agree.owner cli' id).mp own'))

/-- Client 5 frees its id, asks for it in vain and frees it again. Then the id is given to client 6, which
asks for it and gets it. -/
theorem recycled_name_owned : ∃ s, Run eventNames disciplined
      [.alloc 5 0, .alloc 6 0, .free 5 1, .alloc 5 1, .free 5 1, .alloc 6 0, .alloc 6 1] s ∧
      (6, 1) ∈ s.held ∧ (5, 1) ∉ s.held ∧ (nsAlloc s.ns 6 1).2 = 1 ∧ s.ns.get 1 = some 6 := by
  refine exec_shows (fun s => (6, 1) ∈ s.held ∧ (5, 1) ∉ s.held ∧ (nsAlloc s.ns 6 1).2 = 1) (by decide +kernel)
    fun s run ⟨own, lost, answer⟩ => ⟨own, lost, answer, ?_⟩
  exact (names_owned ⟨_, run⟩).1 6 1 (.inr ⟨by decide, by simp [own]⟩) (by decide) (by rw [answer]; decide)

/-- The id that client 5 freed was given to client 6, and client 5 gets it back. Both have it then. -/
theorem name_handed_back : ∃ s, Run eventNames anyStep [.alloc 5 0, .free 5 1, .alloc 6 0, .alloc 5 1] s ∧
    s.ns.get 1 = some 6 ∧ (nsAlloc s.ns 5 1).2 = 1 ∧ (5, 1) ∈ s.held ∧ (6, 1) ∈ s.held :=
  exec_ends _ _ _ _ (by decide +kernel)

end SuperGlue.Guarantees.EventNames
