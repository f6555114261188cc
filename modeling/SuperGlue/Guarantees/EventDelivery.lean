import SuperGlue.Lib.Transition
import SuperGlue.Guarantees.EventQueue

/-!
# Delivery of events

What callers may expect is said without the rings: leaves wait in one queue in the order of their
first trigger, and a wait on an event takes the first one below it.
-/
namespace SuperGlue.Guarantees.EventDelivery
open Function List Lib.FiniteMap Lib.Transition Lib.NestedQueue Source.Event.Groups EventQueue

/-! ## What callers see -/

inductive Op where
  | split (spdid : SpdId) (parent : Eid) (group : Bool) (slab : Option EvtPtr) (ns : Int) (page : Bool)
  | trigger (eid : Eid)
  | wait (spdid : SpdId) (eid : Eid) (thd : ThdId)
  deriving DecidableEq, Repr

/-- No thread has the id 0. -/
def perform (s : State) : Op → Option (State × Int)
  | .split spdid parent group slab ns page => evtSplit s spdid parent group slab ns page
  | .trigger eid => evtTrigger s eid
  | .wait spdid eid thd => if thd = 0 then none else evtWait s spdid eid thd

/-- The component, with what its callers know from their calls and the answers: the events that an
event is below, itself included, and the leaves triggered since they were last returned. Ids are taken
as the slots that they lead to. -/
structure Observed where
  state : State
  above : Eid → List Eid
  pending : List Eid

def observe (t : Observed) (s : State) (ret : Int) : Op → Observed
  | .split _ parent _ _ _ _ =>
    if 0 < ret then
      let up := if parent = 0 then [] else t.above (slot parent)
      { t with state := s, above := update t.above ret (ret :: up) }
    else { t with state := s }
  | .trigger eid =>
    if 0 ≤ ret ∧ slot eid ∉ t.pending then { t with state := s, pending := t.pending ++ [slot eid] }
    else { t with state := s }
  | .wait .. => if 0 < ret then { t with state := s, pending := t.pending.erase ret }
      else { t with state := s }

def eventSystem : System Observed Op where
  init := ⟨init, fun _ => [], []⟩
  step := fun t op => (perform t.state op).map fun (s, ret) => observe t s ret op

/-- What a wait on an event should return: the first pending leaf below it, or 0. -/
def expected (t : Observed) (eid : Eid) : Eid :=
  ((t.pending.filter fun l => decide (eid ∈ t.above l)).head?).getD 0

/-- The condition on a call, in the state before it. -/
def Orderly (t : Observed) : Op → Prop
  | .split _ parent _ _ _ _ => ((t.state.map (slot parent)).all fun p =>
    (t.state.node p).iachildren.all fun h => !(t.state.node h).triggered) = true
  | .trigger eid => ((t.state.map (slot eid)).all (triggerOk t.state (t.state.live.card + 1))) = true
  | .wait spdid eid _ => ((t.state.map (slot eid)).all fun e =>
    (t.state.node e).bthd != 0 || (t.state.node e).creator != spdid ||
      !(t.state.node e).triggered ||
      (bottom (t.state.live.card + 1) t.state e).all (waitOk t.state (t.state.live.card + 1))) = true

instance : DecidableRel Orderly := by
  intro o op
  unfold Orderly
  split <;> infer_instance

/-- It is the queue, and the nesting, that callers know. -/
structure Agrees (t : Observed) (chain : EvtPtr → List EvtPtr) (P : List EvtPtr) : Prop where
  pending : t.pending = P.map (eidOf t.state)
  above : ∀ eid x, t.state.map eid = some x → t.above eid = (chain x).map (eidOf t.state)

variable {s s' : State} {chain : EvtPtr → List EvtPtr} {P : List EvtPtr} {T : EvtPtr → List EvtPtr} {e : EvtPtr}

/-! ## What callers know stays right -/

section
variable {t : Observed} {ret : Int} {eid : Eid} {spdid : SpdId} {parent : Eid} {thd : ThdId}

/-- The same events with another queue. -/
theorem Agrees.requeue {pending : List Eid} {P' : List EvtPtr} (a : Agrees t chain P)
    (map : s'.map = t.state.map) (eids : eidOf s' = eidOf t.state) (queue : pending = P'.map (eidOf t.state)) :
    Agrees { t with state := s', pending } chain P' := by
  refine ⟨?_, ?_⟩
  · rw [eids]
    exact queue
  · intro eid x found
    rw [eids]
    exact a.above eid x (map ▸ found)

theorem split_agrees {p : Option EvtPtr} (group : Bool)
    (slab : Option EvtPtr) (ns : Int) (page : Bool) (h : Delivery t.state chain P T) (a : Agrees t chain P)
    (place : Place t.state parent p) (fresh : e ∉ t.state.live) (kept : ∀ x, x ≠ e → eidOf s' x = eidOf t.state x)
    (named : ret < 0 ∧ s'.map = t.state.map ∨ 0 < ret ∧ t.state.map ret = none ∧ eidOf s' e = ret ∧
      s'.map = if page then update t.state.map ret (some e) else t.state.map) :
    Agrees (observe t s' ret (.split spdid parent group slab ns page)) (update chain e (e :: p.elim [] chain)) P := by
  have other : ∀ x, x ∈ t.state.live → x ≠ e := fun x live eq => fresh (eq ▸ live)
  have pending : t.pending = P.map (eidOf s') := by
    rw [a.pending]
    apply map_congr_left
    intro l waiting
    exact (kept l (other l (h.named _ l (h.queue l waiting)).1)).symm
  have chains : ∀ x, x ∈ t.state.live → (chain x).map (eidOf s') = (chain x).map (eidOf t.state) := by
    intro x live
    apply map_congr_left
    intro y above
    exact kept y (other y (h.above_live live above))
  have old : ∀ eid x, t.state.map eid = some x →
      t.above eid = (update chain e (e :: p.elim [] chain) x).map (eidOf s') := by
    intro eid x found
    have live := (h.named eid x found).1
    rw [update_of_ne (other x live), chains x live]
    exact a.above eid x found
  rcases named with ⟨failed, map⟩ | ⟨pos, unused, eid, map⟩
  · simp only [observe, if_neg failed.asymm]
    exact ⟨pending, fun eid x found => old eid x (map ▸ found)⟩
  simp only [observe, if_pos pos]
  refine ⟨pending, ?_⟩
  intro id x found
  change update t.above ret _ id = _
  rw [update_apply]
  -- an id that is not entered is in nobody's way
  have entered : id = ret ∧ x = e ∨ id ≠ ret ∧ t.state.map id = some x := by
    rw [map] at found
    cases page with
    | false =>
      have found : t.state.map id = some x := found
      refine .inr ⟨?_, found⟩
      rintro rfl
      simp [unused] at found
    | true => exact update_known found
  rcases entered with ⟨eq, rfl⟩ | ⟨ne, found⟩
  · rw [if_pos eq, update_self, map_cons, eid]
    congr 1
    cases place with
    | root => simp
    | @below _ g other found =>
      rw [if_neg other, a.above _ g found]
      exact (chains g (h.named _ g found).1).symm
  · rw [if_neg ne]
    exact old id x found

theorem wait_ready (ok : Orderly t (.wait spdid eid thd)) (found : t.state.map (slot eid) = some e)
    (idle : (t.state.node e).bthd = 0) (mine : (t.state.node e).creator = spdid)
    (triggered : (t.state.node e).triggered) (l : EvtPtr)
    (down : bottom (t.state.live.card + 1) t.state e = some l) : waitOk t.state (t.state.live.card + 1) l := by
  simp only [Orderly, found] at ok
  simpa [idle, mine, triggered, down] using ok

section

variable (h : Delivery t.state chain P T)
include h

section

variable (a : Agrees t chain P)
include a

theorem pending_mem (found : t.state.map eid = some e) : eid ∈ t.pending ↔ e ∈ P := by
  rw [a.pending, mem_map]
  constructor
  · rintro ⟨l, waiting, rfl⟩
    have same := h.queue l waiting
    rw [found] at same
    exact Option.some.inj same ▸ waiting
  · intro waiting
    exact ⟨e, waiting, (h.named eid e found).2.2⟩

theorem pending_erase {l : EvtPtr} (waiting : l ∈ P) :
    t.pending.erase (eidOf t.state l) = (P.erase l).map (eidOf t.state) := by
  have nodup := List.Nodup.map_on (fun x hx y hy same => h.eid_inj hx hy same) h.nested.queue
  rw [a.pending, nodup.erase_eq_filter, h.nested.queue.erase_eq_filter, filter_map]
  congr 1
  apply filter_congr
  intro x mem
  rw [Bool.eq_iff_iff]
  simp only [comp_apply, bne_iff_ne]
  exact not_congr ⟨h.eid_inj mem waiting, fun eq => eq ▸ rfl⟩

/-- What callers expect from a wait is the first leaf of the queue below the event. -/
theorem expected_eq (found : t.state.map eid = some e) :
    expected t eid = ((below chain P e).head?.map (eidOf t.state)).getD 0 := by
  have pending : (t.pending.filter fun l => decide (eid ∈ t.above l)) = (below chain P e).map (eidOf t.state) := by
    rw [a.pending, filter_map]
    congr 1
    apply filter_congr
    intro l waiting
    have queued := h.queue l waiting
    simp only [comp_apply, decide_eq_decide]
    rw [a.above _ l queued, mem_map]
    constructor
    · rintro ⟨y, above, rfl⟩
      have named : t.state.map (eidOf t.state y) = some y := by
        by_cases eq : y = l
        · exact eq ▸ queued
        · obtain ⟨z, _, up⟩ := h.nested.ancestry.child_mem above eq
          exact h.groups z y up
      rw [found] at named
      exact Option.some.inj named ▸ above
    · intro above
      exact ⟨e, above, (h.named eid e found).2.2⟩
  rw [expected, pending, List.head?_map]

theorem split_step {group page : Bool} {slab : Option EvtPtr} {ns : Int}
    (ok : Orderly t (.split spdid parent group slab ns page))
    (run : evtSplit t.state spdid parent group slab ns page = some (s', ret)) : ∃ chain', Delivery s' chain' P T ∧
      Agrees (observe t s' ret (.split spdid parent group slab ns page)) chain' P := by
  rcases evtSplit_cases run with ⟨rfl, failed⟩ | ⟨type, p, e, place, alloc⟩
  · refine ⟨chain, h, ?_⟩
    simp only [observe, if_neg failed.asymm]
    exact a.requeue rfl rfl a.pending
  have group : ∀ g, p = some g → t.state.map (eidOf t.state g) = some g ∧ ¬ isLeaf t.state g := by
    rintro g rfl
    cases place with
    | below _ found group => exact ⟨(h.named _ g found).2.2 ▸ found, group⟩
  have idle : ∀ g, p = some g → ∀ y, (t.state.node g).iachildren = some y → (t.state.node y).triggered = false := by
    rintro g rfl y first
    cases place with
    | below _ found =>
      simp only [Orderly, found, Option.all_some, first] at ok
      simpa using ok
  obtain ⟨fresh, delivery, kept, named⟩ := evtAlloc_delivery h group idle alloc
  exact ⟨_, delivery, split_agrees _ _ _ _ h a place fresh kept named⟩

theorem trigger_step (ok : Orderly t (.trigger eid)) (run : evtTrigger t.state eid = some (s', ret)) :
    ∃ P' T', Delivery s' chain P' T' ∧ Agrees (observe t s' ret (.trigger eid)) chain P' := by
  have failure : s' = t.state → ret < 0 → Delivery s' chain P T ∧
      Agrees (observe t s' ret (.trigger eid)) chain P := by
    rintro rfl failed
    simp only [observe, if_neg fun done : 0 ≤ ret ∧ _ => failed.not_ge done.1]
    exact ⟨h, a.requeue rfl rfl a.pending⟩
  have nonneg : ¬ eid < 0 := fun negative => by simp [evtTrigger, negative] at run
  cases found : t.state.map (slot eid) with
  | none =>
    simp only [evtTrigger, if_neg nonneg, found] at run
    cases run
    exact ⟨P, T, failure rfl (by decide)⟩
  | some e =>
    by_cases leaf : isLeaf t.state e
    · simp only [Orderly, found] at ok
      obtain ⟨s1, ret1, T', run1, nonneg, delivery, map, eids⟩ := evtTrigger_delivery h nonneg found leaf ok
      rw [run1] at run
      cases run
      refine ⟨_, T', delivery, ?_⟩
      simp only [observe, nonneg, pending_mem h a found, addLast]
      by_cases waiting : e ∈ P
      · simp only [waiting]
        exact a.requeue map eids a.pending
      · simp only [waiting, if_false]
        refine a.requeue map eids ?_
        rw [map_append, a.pending, map_singleton, (h.named _ e found).2.2]
    · have other : (t.state.node e).type ≠ .normal := leaf
      simp only [evtTrigger, if_neg nonneg, found] at run
      rw [if_pos other] at run
      cases run
      exact ⟨P, T, failure rfl (by decide)⟩

theorem wait_step (thread : thd ≠ 0) (ok : Orderly t (.wait spdid eid thd))
    (run : evtWait t.state spdid eid thd = some (s', ret)) :
    ∃ P' T', Delivery s' chain P' T' ∧ Agrees (observe t s' ret (.wait spdid eid thd)) chain P' := by
  have nothing : s'.map = t.state.map → eidOf s' = eidOf t.state → ret ≤ 0 →
      Agrees (observe t s' ret (.wait spdid eid thd)) chain P := by
    intro map eids failed
    simp only [observe, if_neg failed.not_gt]
    exact a.requeue map eids a.pending
  have nonneg : ¬ eid < 0 := fun negative => by simp [evtWait, negative] at run
  cases found : t.state.map (slot eid) with
  | none =>
    simp only [evtWait, if_neg nonneg, found] at run
    cases run
    exact ⟨P, T, h, nothing rfl rfl (by decide)⟩
  | some e =>
    by_cases idle : (t.state.node e).bthd = 0
    · by_cases mine : (t.state.node e).creator = spdid
      · rcases evtWait_delivery h nonneg found idle mine thread (wait_ready ok found idle mine) with
          ⟨_, s1, run1, delivery, map, eids⟩ | ⟨l, waiting, _, s1, T', run1, delivery, map, eids⟩
        · rw [run1] at run
          cases run
          exact ⟨P, T, delivery, nothing map eids le_rfl⟩
        rw [run1] at run
        cases run
        refine ⟨_, T', delivery, ?_⟩
        have pos := (h.named _ l (h.queue l waiting)).2.1.1
        simp only [observe, if_pos pos]
        exact a.requeue map eids (pending_erase h a waiting)
      · simp only [evtWait, if_neg nonneg, found, idle] at run
        rw [if_pos mine] at run
        cases run
        exact ⟨P, T, h, nothing rfl rfl (by decide)⟩
    · simp only [evtWait, if_neg nonneg, found] at run
      rw [if_pos idle] at run
      cases run
      exact ⟨P, T, h, nothing rfl rfl (by decide)⟩

end

end

/-! ## Whole runs -/

theorem observe_state (t : Observed) (s : State) (ret : Int) (op : Op) : (observe t s ret op).state = s := by
  cases op <;> simp only [observe] <;> split <;> rfl

def Described (t : Observed) : Prop :=
  ∃ chain P T, Delivery t.state chain P T ∧ Agrees t chain P

theorem described_init : Described eventSystem.init := by
  exact ⟨fun x => [x], [], fun _ => [], delivery_init, rfl, nofun⟩

theorem described_step {t' : Observed} {op : Op} (described : Described t) (ok : Orderly t op)
    (step : eventSystem.step t op = some t') : Described t' := by
  obtain ⟨chain, P, T, h, a⟩ := described
  obtain ⟨⟨s', ret⟩, run, rfl⟩ := Option.map_eq_some_iff.mp step
  simp only [Described, observe_state]
  cases op with
  | split =>
    obtain ⟨chain', delivery, agrees⟩ := split_step h a ok run
    exact ⟨chain', P, T, delivery, agrees⟩
  | trigger =>
    obtain ⟨P', T', delivery, agrees⟩ := trigger_step h a ok run
    exact ⟨chain, P', T', delivery, agrees⟩
  | wait =>
    simp only [perform] at run
    split at run
    · contradiction
    next thread =>
      obtain ⟨P', T', delivery, agrees⟩ := wait_step h a thread ok run
      exact ⟨chain, P', T', delivery, agrees⟩

theorem described_reachable (reached : Reachable eventSystem Orderly t) : Described t :=
  reached.invariant Described described_init fun _ _ _ => described_step

end

/-- As long as every call is made in an orderly state, a trigger of a leaf succeeds and a wait by the
creator of an event that no thread waits for returns the first pending leaf below it, in the order of
the triggers, and blocks only if there is none. On a leaf that is the leaf itself. -/
theorem waits_return_pending_in_order (t : Observed) (reached : Reachable eventSystem Orderly t) :
    (∀ spdid eid thd e, t.state.map eid = some e → (t.state.node e).bthd = 0 →
      (t.state.node e).creator = spdid → thd ≠ 0 → Orderly t (.wait spdid eid thd) →
      ∃ s', evtWait t.state spdid eid thd = some (s', expected t eid)) ∧
    (∀ eid e, t.state.map eid = some e → (t.state.node e).type = .normal →
      expected t eid = (if eid ∈ t.pending then eid else 0) ∧
      (Orderly t (.trigger eid) → ∃ s' ret, evtTrigger t.state eid = some (s', ret) ∧ 0 ≤ ret)) := by
  obtain ⟨chain, P, T, h, a⟩ := described_reachable reached
  refine ⟨?_, ?_⟩
  · intro spdid eid thd e found idle mine thread ok
    obtain ⟨-, ⟨pos, small⟩, -⟩ := h.named eid e found
    rw [expected_eq h a found]
    rw [← slot_small pos small] at found
    rcases evtWait_delivery h pos.not_gt found idle mine thread (wait_ready ok found idle mine) with
      ⟨empty, s', run, _⟩ | ⟨l, _, first, s', _, run, _⟩
    · exact ⟨s', by rw [run, empty]; rfl⟩
    · exact ⟨s', by rw [run, first]; rfl⟩
  · intro eid e found leaf
    constructor
    · -- a leaf is below itself only
      rw [expected_eq h a found]
      by_cases waiting : e ∈ P
      · rw [if_pos ((pending_mem h a found).mpr waiting), h.nested.below_waiting waiting]
        exact (h.named eid e found).2.2
      have empty : below chain P e = [] := by
        apply eq_nil_iff_forall_not_mem.mpr
        intro l mem
        have same := h.nested.below_leaf leaf mem
        exact waiting (same ▸ (mem_below.mp mem).1)
      rw [if_neg fun pending => waiting ((pending_mem h a found).mp pending), empty]
      rfl
    intro ok
    obtain ⟨-, ⟨pos, small⟩, -⟩ := h.named eid e found
    rw [← slot_small pos small] at found
    simp only [Orderly, found] at ok
    obtain ⟨s', ret, _, run, nonneg, _⟩ := evtTrigger_delivery h pos.not_gt found leaf ok
    exact ⟨s', ret, run, nonneg⟩

/-- Two leaves, one of them in a group of its own, triggered and waited for from the outer group. -/
theorem waits_return_pending_of_nested_group : ∃ t, Reachable eventSystem Orderly t ∧ t.pending = [2, 3] ∧
      ∃ s', evtWait t.state 7 1 5 = some (s', 2) := by
  refine exec_reaches
    [.split 7 0 true (some 1) 1 true, .split 7 1 true (some 4) 4 true, .split 7 4 false (some 2) 2 true,
      .split 7 1 false (some 3) 3 true, .trigger 2, .trigger 3]
    (fun t => t.pending = [2, 3] ∧ t.state.map 1 = some 1 ∧ (t.state.node 1).bthd = 0 ∧
      (t.state.node 1).creator = 7 ∧ Orderly t (.wait 7 1 5) ∧ expected t 1 = 2) (by decide)
    fun t reached ⟨pending, found, idle, mine, ok, first⟩ => ⟨pending, ?_⟩
  exact first ▸ (waits_return_pending_in_order t reached).1 7 1 5 1 found idle mine (by decide) ok

/-- Two leaves of a group, the first one triggered last. `iachildren` still points to the first leaf
when the second one is consumed and put back, so it goes into the triggered ring again: the third wait
returns it once more, though nothing is pending. -/
theorem wait_returns_leaf_twice : ¬ ∀ t, Reachable eventSystem anyStep t →
      ∀ spdid eid thd e, t.state.map eid = some e → (t.state.node e).bthd = 0 →
        (t.state.node e).creator = spdid → thd ≠ 0 →
        ∃ s', evtWait t.state spdid eid thd = some (s', expected t eid) := by
  intro claim
  obtain ⟨t, run, found, idle, mine, nothing, again⟩ := exec_ends eventSystem anyStep
    [.split 7 0 true (some 1) 1 true, .split 7 1 false (some 2) 2 true, .split 7 1 false (some 3) 3 true,
      .trigger 3, .trigger 2, .wait 7 1 5, .wait 7 1 5]
    (fun t => t.state.map 1 = some 1 ∧ (t.state.node 1).bthd = 0 ∧
      (t.state.node 1).creator = 7 ∧ expected t 1 = 0 ∧
      (evtWait t.state 7 1 5).map Prod.snd = some 3) (by decide)
  obtain ⟨s', waits⟩ := claim t ⟨_, run⟩ 7 1 5 1 found idle mine (by decide)
  rw [waits, nothing] at again
  simp at again

end SuperGlue.Guarantees.EventDelivery
