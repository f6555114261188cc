import SuperGlue.Lib.FiniteMap
import SuperGlue.Guarantees.EventRings

/-!
# The rings of triggered events as one queue

The triggered children of all groups together describe one queue of leaves. The operations of the
component are operations on that queue as long as no child that is linked in a triggered ring is moved
within it, is taken for an inactive one, or is left there when another one is consumed.
-/
namespace SuperGlue.Guarantees.EventQueue
open Bool Finset Option Function List Lib.FiniteMap Lib.Ring Lib.NestedQueue Source.Event.Groups EventRings

/-! ## The condition -/

/-- On the way up from `g`, every event is not triggered yet or is the last triggered child. -/
def triggerOk (s : State) : Nat → EvtPtr → Bool
  | 0, _ => true
  | fuel + 1, g =>
    match (s.node g).grp with
    | none => true
    | some p => (!(s.node g).triggered || (s.node p).tchildren.any fun h => s.links.prev h == g) &&
        triggerOk s fuel p

/-- On the way up from `x`, as far as groups change: `x` is the first triggered child, and the first
inactive child is `x` or not triggered. -/
def waitOk (s : State) : Nat → EvtPtr → Bool
  | 0, _ => true
  | fuel + 1, x =>
    match (s.node x).grp with
    | none => true
    | some g => (s.node g).tchildren == some x &&
        ((s.node g).iachildren.all fun h => h == x || !(s.node h).triggered) &&
        (s.links.next x != x || waitOk s fuel g)

/-! ## The invariant -/

def isLeaf (s : State) (x : EvtPtr) : Prop := (s.node x).type = .normal

def eidOf (s : State) (x : EvtPtr) : Eid := (s.node x).eid

/-- The rings of the component describe the queue `P` of pending leaves. -/
structure Delivery (s : State) (chain : EvtPtr → List EvtPtr) (P : List EvtPtr)
    (T : EvtPtr → List EvtPtr) : Prop where
  rings : Rings s T
  nested : Nested (grp s) chain (isLeaf s) P T
  triggered : ∀ x, (s.node x).triggered = true ↔ below chain P x ≠ []
  blocked : ∀ x, (s.node x).blocked = true ↔ (s.node x).bthd ≠ 0
  named : ∀ eid x, s.map eid = some x → x ∈ s.live ∧ (0 < eid ∧ eid < cvectMaxId) ∧ eidOf s x = eid
  groups : ∀ x g, grp s x = some g → s.map (eidOf s g) = some g
  queue : ∀ l ∈ P, s.map (eidOf s l) = some l

variable {s s' : State} {chain : EvtPtr → List EvtPtr} {P : List EvtPtr} {T : EvtPtr → List EvtPtr}
  {x e g : EvtPtr} {ups : List EvtPtr}

theorem delivery_init : Delivery init (fun x => [x]) [] (fun _ => []) := by
  refine ⟨⟨⟨fun _ => rfl, fun _ => rfl⟩, fun _ => trivial, fun _ => rfl, ?_, fun _ _ => ⟨rfl, rfl⟩, ?_⟩,
    ⟨⟨fun _ => rfl⟩, ?_, nodup_nil, ?_, fun _ _ => rfl, ?_, ?_, fun _ => nodup_nil⟩, ?_, ?_, ?_,
    ?_, ?_⟩
  all_goals simp [init, blank, grp, below]

theorem Same.kept (same : Same s s') (x : EvtPtr) : (s'.node x).type = (s.node x).type ∧
    (s'.node x).eid = (s.node x).eid ∧ (s'.node x).blocked = (s.node x).blocked ∧
    (s'.node x).bthd = (s.node x).bthd := by
  have eq := same.node x
  simp only [core, Evt.mk.injEq] at eq
  exact ⟨eq.1, eq.2.2.2.1, eq.2.1, eq.2.2.2.2.2.2.2.1⟩

theorem Same.eidOf (same : Same s s') : eidOf s' = eidOf s := by
  funext x
  exact (Same.kept same x).2.1

theorem mark_again {b : Bool} (same : (s.node x).triggered = b) : s.mark x b = s := by
  subst same
  have node := update_eq_self x s.node
  exact congrArg (fun node => { s with node }) node

theorem newEvt_node (type : EvtType) (p : Option EvtPtr) (spdid : SpdId) (y : EvtPtr) :
    (newEvt s type p spdid e).node y =
      if y = e then { blank with type, grp := p, creator := spdid } else s.node y := by
  simp [newEvt, State.set, update_apply]

section

variable (h : Delivery s chain P T)
include h

theorem Delivery.groupLive (up : grp s x = some g) : g ∈ s.live :=
  (h.named _ g (h.groups x g up)).1

theorem Delivery.listed (inside : x ∈ T g) :
    (s.node x).triggered := (h.triggered x).mpr (h.nested.used g x inside)

/-- Different pending leaves have different ids. -/
theorem Delivery.eid_inj {l l' : EvtPtr} (waiting : l ∈ P) (waiting' : l' ∈ P)
    (same : eidOf s l = eidOf s l') : l = l' := by
  have found := h.queue l waiting
  rw [same, h.queue l' waiting'] at found
  exact (some.inj found).symm

theorem Delivery.above_live (live : x ∈ s.live) (above : g ∈ chain x) : g ∈ s.live := by
  by_cases eq : g = x
  · exact eq ▸ live
  · obtain ⟨z, _, up⟩ := h.nested.ancestry.child_mem above eq
    exact h.groupLive up

/-- There are no more events on the way up from a live one than there are live ones. -/
theorem Delivery.chain_live (live : x ∈ s.live) : (chain x).length ≤ s.live.card := by
  have inside : (chain x).toFinset ⊆ s.live := by
    intro y mem
    exact h.above_live live (mem_toFinset.mp mem)
  have card := card_le_card inside
  rwa [toFinset_card_of_nodup (h.nested.ancestry.nodup x)] at card

theorem Delivery.enough (live : x ∈ s.live) (climb : Climb (grp s) x ups) : ups.length < s.live.card + 1 := by
  have bound := h.chain_live live
  rw [climb.chain_eq h.nested.ancestry, length_cons] at bound
  omega

/-! ## From the condition to the rings -/

theorem triggerOk_push {fuel : Nat} (climb : Climb (grp s) x ups)
    (enough : ups.length < fuel) (ok : triggerOk s fuel x) : PushOk x ups T := by
  induction climb generalizing fuel with
  | top => trivial
  | @up x g ups up climb ih =>
    obtain ⟨fuel, rfl⟩ : ∃ n, fuel = n + 1 := ⟨fuel - 1, by omega⟩
    have up' : (s.node x).grp = some g := up
    simp only [triggerOk, up', and_eq_true, or_eq_true] at ok
    refine ⟨?_, ih (by simpa using enough) ok.2⟩
    intro inside
    have last := ok.1.resolve_left (by simp [h.listed inside])
    rw [h.rings.head] at last
    cases list : T g with
    | nil => simp [list] at inside
    | cons first =>
      have back : s.links.prev first = x := by simpa [list] using last
      rw [isRing_prev_first h.rings.linked (list ▸ h.rings.ring g), back]

theorem waitOk_pop {fuel : Nat} (climb : Climb (grp s) x ups)
    (enough : ups.length < fuel) (ok : waitOk s fuel x) : PopOk x ups T ∧ InactiveOk s x ups T := by
  induction climb generalizing fuel with
  | top => exact ⟨trivial, trivial⟩
  | @up x g ups up climb ih =>
    obtain ⟨fuel, rfl⟩ : ∃ n, fuel = n + 1 := ⟨fuel - 1, by omega⟩
    have up' : (s.node x).grp = some g := up
    simp only [waitOk, up', and_eq_true, or_eq_true, beq_iff_eq] at ok
    obtain ⟨⟨head, inactive⟩, rest⟩ := ok
    rw [h.rings.head] at head
    have later : (T g).tail = [] → PopOk g ups T ∧ InactiveOk s g ups T := by
      intro last
      obtain ⟨tail, list⟩ := List.head?_eq_some_iff.mp head
      obtain rfl : tail = [] := by simpa [list] using last
      have single := isRing_singleton.mp (list ▸ h.rings.ring g)
      exact ih (by simpa using enough) (rest.resolve_left (by simp [single]))
    refine ⟨⟨head, fun last => (later last).1⟩, ?_, fun last => (later last).2⟩
    intro y first
    rw [first] at inactive
    simp only [all_some, or_eq_true, beq_iff_eq] at inactive
    refine inactive.imp_right fun idle g' inside => ?_
    rw [h.listed inside] at idle
    contradiction

omit h in
/-- The descent ends at the first pending leaf. -/
theorem bottom_first (fuel : Nat) (h : Delivery s chain P T) (live : x ∈ s.live)
    (enough : s.live.card < fuel + (chain x).length) (some_ : below chain P x ≠ []) :
    ∃ t ∈ P, bottom fuel s x = some t ∧ (below chain P x).head? = some t := by
  have bound := h.chain_live live
  induction fuel generalizing x with
  | zero => omega
  | succ fuel ih =>
    cases list : T x with
    | nil =>
      have waiting := h.nested.bottom some_ list
      refine ⟨x, waiting, ?_, by rw [h.nested.below_waiting waiting]; rfl⟩
      simp [bottom, h.rings.head, list]
    | cons c =>
      have inside : c ∈ T x := list ▸ mem_cons_self
      have up := h.nested.child x c inside
      have longer := h.nested.ancestry.child up
      obtain ⟨t, waiting, found, first⟩ := ih (h.rings.live up) (by rw [longer, length_cons]; omega)
        (h.nested.used x c inside) (h.chain_live (h.rings.live up))
      refine ⟨t, waiting, ?_, (h.nested.first list).trans first⟩
      simpa [bottom, h.rings.head, list] using found

/-! ## Steps that keep the events themselves -/

/-- New rings and a new queue over the same events. -/
theorem Delivery.requeue {P' : List EvtPtr} {T' : EvtPtr → List EvtPtr}
    (same : Same s s') (rings : Rings s' T') (nested : Nested (grp s) chain (isLeaf s) P' T')
    (triggered : ∀ x, (s'.node x).triggered ↔ below chain P' x ≠ [])
    (queue : ∀ l ∈ P', s.map (eidOf s l) = some l) : Delivery s' chain P' T' := by
  have eids := Same.eidOf same
  have leaves : isLeaf s' = isLeaf s := by
    funext x
    simp [isLeaf, (Same.kept same x).1]
  refine ⟨rings, ?_, triggered, ?_, ?_, ?_, ?_⟩
  · rw [same.grp, leaves]
    exact nested
  · intro x
    rw [(Same.kept same x).2.2.1, (Same.kept same x).2.2.2]
    exact h.blocked x
  · intro eid x found
    rw [same.map] at found
    rw [same.live, eids]
    exact h.named eid x found
  · intro x g up
    rw [same.grp] at up
    rw [same.map, eids]
    exact h.groups x g up
  · intro l mem
    rw [same.map, eids]
    exact queue l mem

/-- Blocking or waking a thread changes nothing else. -/
theorem Delivery.setThread (e : EvtPtr) (blocked : Bool) (bthd : ThdId)
    (agree : blocked ↔ bthd ≠ 0) :
    Delivery (s.set e { s.node e with blocked, bthd }) chain P T ∧
      eidOf (s.set e { s.node e with blocked, bthd }) = eidOf s := by
  have groups : grp (s.set e { s.node e with blocked, bthd }) = grp s := funext (set_kept Evt.grp (by rfl))
  have leaves : isLeaf (s.set e { s.node e with blocked, bthd }) = isLeaf s := by
    funext x
    rw [isLeaf, set_kept Evt.type (by rfl), isLeaf]
  have eids : eidOf (s.set e { s.node e with blocked, bthd }) = eidOf s := funext (set_kept Evt.eid (by rfl))
  refine ⟨⟨h.rings.congr rfl (set_kept Evt.tchildren (by rfl)) groups rfl ?_, ?_, ?_, ?_, ?_, ?_, ?_⟩, eids⟩
  · intro g x first
    exact h.rings.inactive g x ((set_kept Evt.iachildren (by rfl) g).symm.trans first)
  · rw [groups, leaves]
    exact h.nested
  · intro x
    rw [set_kept Evt.triggered (by rfl)]
    exact h.triggered x
  · intro x
    rw [set_node]
    split
    · exact agree
    · exact h.blocked x
  · rw [eids]
    exact h.named
  · rw [groups, eids]
    exact h.groups
  · rw [eids]
    exact h.queue

/-! ## `evt_wait` -/

/-- What is triggered after a wait that returned `t`. -/
theorem popped_triggered {t : EvtPtr} (climb : Climb (grp s) t ups)
    (waiting : t ∈ P) (nested : Nested (grp s) chain (isLeaf s) (P.erase t) (popAlong ups T))
    (marked : ∀ y, (s'.node y).triggered = ((s.mark t false).node y).triggered ∧ (popAlong ups T y = [] → T y = []) ∨
      y ∈ ups ∧ (s'.node y).triggered = false ∧ popAlong ups T y = []) (y : EvtPtr) :
    (s'.node y).triggered ↔ below chain (P.erase t) y ≠ [] := by
  have erased : below chain (P.erase t) y = (below chain P y).filter fun l => decide (l ≠ t) :=
    below_erase h.nested.queue t
  have isGroup : y ∈ ups → ¬ isLeaf s y := by
    intro mem
    have above : y ∈ chain t := by
      rw [climb.chain_eq h.nested.ancestry]
      exact mem_cons_of_mem t mem
    have other : y ≠ t := fun eq => climb.fresh h.nested.ancestry (eq ▸ mem)
    obtain ⟨z, _, up⟩ := h.nested.ancestry.child_mem above other
    exact h.nested.group z y up
  rcases marked y with ⟨same, kept⟩ | ⟨mem, cleared, empty⟩
  · rw [same, mark_triggered]
    by_cases eq : y = t
    · subst eq
      simp [erased, h.nested.below_waiting waiting]
    rw [if_neg eq, h.triggered y]
    by_cases only : below chain P y = [t]
    · -- the last leaf below a group is gone, so the group lists nothing any more
      have notLeaf : ¬ isLeaf s y := by
        intro leaf
        have mem : t ∈ below chain P y := by simp [only]
        exact eq (h.nested.below_leaf leaf mem).symm
      have gone : below chain (P.erase t) y = [] := by simp [erased, only]
      have none_ : popAlong ups T y = [] := by
        apply eq_nil_iff_forall_not_mem.mpr
        intro z inside
        have order := nested.order y notLeaf
        rw [gone] at order
        exact nested.used y z inside (flatMap_eq_nil_iff.mp order.symm z inside)
      have order := h.nested.order y notLeaf
      rw [kept none_, only] at order
      simp at order
    · rw [erased]
      refine not_congr ⟨fun empty => by simp [empty], ?_⟩
      intro filtered
      by_contra some_
      apply only
      apply eq_singleton (h.nested.queue.filter _) some_
      intro l mem
      have gone := filter_eq_nil_iff.mp filtered l mem
      simpa using gone
  · rw [cleared]
    have order := nested.order y (isGroup mem)
    rw [empty] at order
    simp [order]

variable {spdid : SpdId}

theorem evtWait_delivery {eid : Eid} {thd : ThdId} (nonneg : ¬ eid < 0) (found : s.map (slot eid) = some e)
    (idle : (s.node e).bthd = 0) (mine : (s.node e).creator = spdid) (thread : thd ≠ 0) (ok : (s.node e).triggered →
      ∀ t, bottom (s.live.card + 1) s e = some t → waitOk s (s.live.card + 1) t) :
    (below chain P e = [] ∧ ∃ s', evtWait s spdid eid thd = some (s', 0) ∧ Delivery s' chain P T ∧
        s'.map = s.map ∧ eidOf s' = eidOf s) ∨
      ∃ t ∈ P, (below chain P e).head? = some t ∧ ∃ s' T', evtWait s spdid eid thd = some (s', eidOf s t) ∧
        Delivery s' chain (P.erase t) T' ∧ s'.map = s.map ∧ eidOf s' = eidOf s := by
  obtain ⟨live, ⟨pos, _⟩, named⟩ := h.named _ e found
  have free : (s.node e).blocked = false := by
    have agree := h.blocked e
    simpa [idle] using agree
  have valid : ¬ ((s.node e).blocked ∨ (s.node e).eid = 0) := by
    have nonzero : (s.node e).eid ≠ 0 := by
      have same : (s.node e).eid = slot eid := named
      rw [same]
      exact pos.ne'
    simp [free, nonzero]
  by_cases triggered : (s.node e).triggered = true
  · right
    have some_ := (h.triggered e).mp triggered
    obtain ⟨t, waiting, down, first⟩ := bottom_first (s.live.card + 1) h live (by omega) some_
    refine ⟨t, waiting, first, ?_⟩
    obtain ⟨liveT, _⟩ := h.named _ t (h.queue t waiting)
    obtain ⟨ups, climb⟩ := h.nested.ancestry.climb t
    have enough := h.enough liveT climb
    obtain ⟨pop, inactive⟩ := waitOk_pop h climb enough (ok triggered t down)
    have same1 := mark_same s t false
    obtain ⟨s', run, rings, same, marked⟩ := waitUp_rings h.nested.ancestry climb same1.grp
      (h.rings.mark t false) pop (inactiveOk_congr inactive (by simp) (fun _ _ => rfl) fun _ _ => id)
      enough
    have same := same1.trans same
    have nested := h.nested.pop climb waiting pop
    refine ⟨s', popAlong ups T, ?_, ?_, same.map, Same.eidOf same⟩
    · have up : ((s.mark t false).node t).grp = grp s t := congrFun same1.grp t
      simp only [evtWait, if_neg nonneg, found]
      rw [if_neg (by simp [idle]), if_neg (by simp [mine]), if_neg valid, if_neg (by simp [triggered]), down]
      simp only [bind_some, up]
      have run : waitUp ((s.mark t false).live.card + 1) (s.mark t false) (grp s t) = some s' := run
      rw [run]
      have eid : (s'.node t).eid = eidOf s t := congrFun (Same.eidOf same) t
      simp [eid]
    · refine h.requeue same rings nested (popped_triggered h climb waiting nested marked) ?_
      intro l mem
      exact h.queue l (mem_of_mem_erase mem)
  · left
    have none_ : below chain P e = [] := by
      by_contra some_
      exact triggered ((h.triggered e).mpr some_)
    obtain ⟨kept, eids⟩ := h.setThread e true thd (by simp [thread])
    refine ⟨none_, _, ?_, kept, rfl, eids⟩
    simp only [evtWait, if_neg nonneg, found]
    rw [if_neg (by simp [idle]), if_neg (by simp [mine]), if_neg valid, if_pos (by simpa using triggered)]

/-! ## `evt_trigger` -/

/-- Waking up the blocked thread, if there is one. -/
theorem triggerWake_delivery {t : EvtPtr} (marked : (s.node t).triggered) :
    ∃ s' ret, triggerWake s t = some (s', ret) ∧ 0 ≤ ret ∧ Delivery s' chain P T ∧ s'.map = s.map ∧
      eidOf s' = eidOf s := by
  have agree := h.blocked t
  simp only [triggerWake, mark_again marked]
  by_cases blocked : (s.node t).blocked = true
  · have thread := agree.mp blocked
    obtain ⟨woken, eids⟩ := h.setThread t false 0 (by simp)
    refine ⟨_, ((s.node t).bthd : Int), ?_, Int.natCast_nonneg _, woken, rfl, eids⟩
    rw [if_pos blocked, if_neg thread]
  · have noThread : (s.node t).bthd = 0 := by
      by_contra thread
      exact blocked (agree.mpr thread)
    refine ⟨s, 0, ?_, le_rfl, h, rfl, rfl⟩
    rw [if_neg blocked, if_neg (by simp [noThread])]

theorem evtTrigger_delivery {eid : Eid} (nonneg : ¬ eid < 0) (found : s.map (slot eid) = some e) (leaf : isLeaf s e)
    (ok : triggerOk s (s.live.card + 1) e) : ∃ s' ret T', evtTrigger s eid = some (s', ret) ∧ 0 ≤ ret ∧
      Delivery s' chain (addLast e P) T' ∧ s'.map = s.map ∧ eidOf s' = eidOf s := by
  obtain ⟨live, _, named⟩ := h.named _ e found
  obtain ⟨ups, climb⟩ := h.nested.ancestry.climb e
  have enough := h.enough live climb
  have push := triggerOk_push h climb enough ok
  obtain ⟨s1, t, run, place, rings, same, marked⟩ :=
    triggerUp_rings h.nested.ancestry climb rfl h.rings push enough none
  have onPath := place.resolve_right (by simp)
  have nested : Nested (grp s) chain (isLeaf s) (addLast e P) (pushAlong e ups T) := by
    rw [addLast]
    split
    next waiting => rw [h.nested.push_again climb waiting]; exact h.nested
    next fresh => exact h.nested.push climb push leaf fresh
  have triggered : ∀ y, (s1.node y).triggered ↔ below chain (addLast e P) y ≠ [] := by
    intro y
    rw [marked, ← climb.chain_eq h.nested.ancestry]
    split
    next above => simpa using ne_nil_of_mem (mem_below.mpr ⟨mem_addLast.mpr (.inr rfl), above⟩)
    next above =>
      rw [h.triggered, addLast]
      split
      · rfl
      · rw [below_push, if_neg above, append_nil]
  have queue : ∀ l ∈ addLast e P, s.map (eidOf s l) = some l := by
    intro l inside
    rcases mem_addLast.mp inside with inside | rfl
    · exact h.queue l inside
    · rw [named, found]
  have delivery := h.requeue same rings nested triggered queue
  obtain ⟨s', ret, woken, accepted, delivery', map, eids⟩ := triggerWake_delivery delivery (by
    rw [marked, if_pos onPath])
  refine ⟨s', ret, pushAlong e ups T, ?_, accepted, delivery', map.trans same.map, eids.trans (Same.eidOf same)⟩
  have leaf : (s.node e).type = .normal := leaf
  simp only [evtTrigger, if_neg nonneg, found]
  rw [if_neg (by simp [leaf]), run]
  exact woken

/-! ## `evt_split` -/

theorem newEvt_rings (type : EvtType) (p : Option EvtPtr) (spdid : SpdId)
    (fresh : e ∉ s.live) (empty : T e = []) : Rings (newEvt s type p spdid e) T := by
  obtain ⟨noGroup, alone⟩ := h.rings.dead e fresh
  have links : (newEvt s type p spdid e).links = s.links := linked_init h.rings.linked alone
  refine ⟨links ▸ h.rings.linked, fun g => links ▸ h.rings.ring g, ?_, ?_, ?_, ?_⟩
  · intro g
    rw [newEvt_node]
    split
    next eq => rw [eq, empty]; rfl
    · exact h.rings.head g
  · intro g x inside
    have listed := h.rings.child g x inside
    have other : x ≠ e := by
      rintro rfl
      rw [noGroup] at listed
      contradiction
    rw [grp, newEvt_node, if_neg other]
    exact listed
  · intro x dead
    have outside : x ∉ s.live := fun inside => dead (mem_insert_of_mem inside)
    have other : x ≠ e := fun eq => dead (eq ▸ mem_insert_self ..)
    rw [grp, newEvt_node, if_neg other, links]
    exact h.rings.dead x outside
  · intro g x first
    rw [newEvt_node] at first
    split at first
    · simp [blank] at first
    · exact mem_insert_of_mem (h.rings.inactive g x first)

omit h in
/-- A new event, below a group whose first inactive child is not triggered, or on its own. -/
theorem newEvt_delivery (type : EvtType) {p : Option EvtPtr} (spdid : SpdId) (ns : Int)
    (h : Delivery s chain P T) (fresh : e ∉ s.live)
    (group : ∀ g, p = some g → s.map (eidOf s g) = some g ∧ ¬ isLeaf s g)
    (ok : ∀ g, p = some g → ∀ y, (s.node g).iachildren = some y → (s.node y).triggered = false)
    (joined : joinParent (newEvt s type p spdid e) p e = s') :
    Delivery (s'.set e { s'.node e with eid := ns }) (update chain e (e :: p.elim [] chain)) P T ∧
      (∀ x, eidOf (s'.set e { s'.node e with eid := ns }) x = if x = e then ns else eidOf s x) ∧
      e ∈ s'.live ∧ s'.map = s.map := by
  have dead := h.rings.dead e fresh
  have lonely : ∀ y, grp s y ≠ some e := fun y up => fresh (h.groupLive up)
  have notQueued : e ∉ P := fun waiting => fresh (h.named _ e (h.queue e waiting)).1
  have empty : T e = [] := by
    apply eq_nil_iff_forall_not_mem.mpr
    intro y inside
    exact lonely y (h.rings.child e y inside)
  have unlisted : ∀ g, e ∉ T g := by
    intro g inside
    have listed := h.rings.child g e inside
    rw [dead.1] at listed
    contradiction
  have other : ∀ g, p = some g → g ≠ e := by
    rintro g parent rfl
    exact fresh (h.named _ g (group g parent).1).1
  have rings1 := newEvt_rings h type p spdid fresh empty
  have joins : Rings s' T ∧ Same (newEvt s type p spdid e) s' ∧
      ∀ x, (s'.node x).triggered = ((newEvt s type p spdid e).node x).triggered := by
    subst joined
    cases p with
    | none => exact ⟨rings1, Same.refl _, fun _ => rfl⟩
    | some g =>
      refine ⟨?_, addInactive_same .., fun x => addInactive_triggered ..⟩
      have alone : (newEvt s type (some g) spdid e).links.next e = e := by simp [newEvt, Links.init]
      refine addInactive_rings rings1 (mem_insert_self ..) alone unlisted ?_
      intro y first
      rw [newEvt_node, if_neg (other g rfl)] at first
      right
      intro g' inside
      have idle := ok g rfl y first
      rw [h.listed inside] at idle
      contradiction
  obtain ⟨rings, same, triggered⟩ := joins
  have groups' : grp (s'.set e { s'.node e with eid := ns }) = grp s' := funext (set_kept Evt.grp (by rfl))
  have groups : grp s' = update (grp s) e p := by
    rw [same.grp]
    funext x
    rw [grp, newEvt_node, update_apply]
    split <;> rfl
  have eids : ∀ x, eidOf (s'.set e { s'.node e with eid := ns }) x = if x = e then ns else eidOf s x := by
    intro x
    simp only [eidOf, set_node]
    split
    · rfl
    next ne => rw [(Same.kept same x).2.1, newEvt_node, if_neg ne]
  have leaves : ∀ x, x ≠ e → (isLeaf (s'.set e { s'.node e with eid := ns }) x ↔ isLeaf s x) := by
    intro x ne
    rw [isLeaf, set_kept Evt.type (by rfl), (Same.kept same x).1, newEvt_node, if_neg ne, isLeaf]
  have map := same.map
  have live := same.live
  refine ⟨⟨?_, ?_, ?_, ?_, ?_, ?_, ?_⟩, eids, live ▸ mem_insert_self .., map⟩
  · refine rings.congr rfl (set_kept Evt.tchildren (by rfl)) groups' rfl fun g x first => ?_
    exact rings.inactive g x ((set_kept Evt.iachildren (by rfl) g).symm.trans first)
  · rw [groups', groups]
    exact h.nested.insert notQueued lonely dead.1 p (fun eq => other e eq rfl)
      (fun g parent => (group g parent).2) leaves
  · intro x
    rw [below_insert notQueued, set_kept Evt.triggered (by rfl), triggered, newEvt_node]
    split
    next eq =>
      subst eq
      have nothing : below chain P x = [] := by
        apply eq_nil_iff_forall_not_mem.mpr
        intro l mem
        obtain ⟨waiting, above⟩ := mem_below.mp mem
        obtain ⟨y, _, up⟩ := h.nested.ancestry.child_mem above fun eq => notQueued (eq ▸ waiting)
        exact lonely y up
      simp [blank, nothing]
    · exact h.triggered x
  · intro x
    rw [set_kept Evt.blocked (by rfl), set_kept Evt.bthd (by rfl), (Same.kept same x).2.2.1, (Same.kept same x).2.2.2,
      newEvt_node]
    split
    · simp [blank]
    · exact h.blocked x
  · intro eid x found
    have found := map ▸ found
    obtain ⟨liveX, pos, named⟩ := h.named eid x found
    have ne : x ≠ e := fun eq => fresh (eq ▸ liveX)
    rw [eids, if_neg ne]
    exact ⟨live ▸ mem_insert_of_mem liveX, pos, named⟩
  · intro x g up
    rw [groups', groups, update_apply] at up
    change s'.map _ = some g
    rw [map, eids]
    split at up
    · rw [if_neg (other g up)]
      exact (group g up).1
    · have ne : g ≠ e := fun eq => lonely x (eq ▸ up)
      rw [if_neg ne]
      exact h.groups x g up
  · intro l waiting
    have ne : l ≠ e := fun eq => notQueued (eq ▸ waiting)
    change s'.map _ = some l
    rw [map, eids, if_neg ne]
    exact h.queue l waiting

variable {ns : Int}

/-- An event gets an id that was not in use. -/
theorem Delivery.name (unused : s.map ns = none) (pos : 0 < ns) (small : ns < cvectMaxId) (live : e ∈ s.live) (eid : eidOf s e = ns) :
    Delivery { s with map := update s.map ns (some e) } chain P T := by
  have kept : ∀ id x, s.map id = some x → update s.map ns (some e) id = some x := by
    intro id x found
    have ne : id ≠ ns := by
      rintro rfl
      rw [unused] at found
      contradiction
    rw [update_of_ne ne, found]
  refine ⟨⟨h.rings.linked, h.rings.ring, h.rings.head, h.rings.child, h.rings.dead, h.rings.inactive⟩,
    h.nested, h.triggered, h.blocked, ?_, fun x g up => kept _ g (h.groups x g up),
    fun l waiting => kept _ l (h.queue l waiting)⟩
  intro id x found
  obtain ⟨rfl, rfl⟩ | ⟨-, found⟩ := update_known found
  · exact ⟨live, ⟨pos, small⟩, eid⟩
  · exact h.named id x found

theorem evtAlloc_delivery {type : EvtType} {p : Option EvtPtr} {ret : Int} {page : Bool}
    (group : ∀ g, p = some g → s.map (eidOf s g) = some g ∧ ¬ isLeaf s g)
    (ok : ∀ g, p = some g → ∀ y, (s.node g).iachildren = some y → (s.node y).triggered = false)
    (run : evtAlloc s type p spdid e ns page = some (s', ret)) :
    e ∉ s.live ∧ Delivery s' (update chain e (e :: p.elim [] chain)) P T ∧
      (∀ x, x ≠ e → eidOf s' x = eidOf s x) ∧ (ret < 0 ∧ s'.map = s.map ∨ 0 < ret ∧ s.map ret = none ∧
        eidOf s' e = ret ∧ s'.map = if page then update s.map ret (some e) else s.map) := by
  simp only [evtAlloc] at run
  split at run
  · contradiction
  rename_i fresh
  obtain ⟨delivery, eids, live, map⟩ := newEvt_delivery type spdid ns h fresh group ok rfl
  have kept : ∀ x, x ≠ e → _ = eidOf s x := fun x ne => (eids x).trans (if_neg ne)
  refine ⟨fresh, ?_⟩
  split at run
  · cases run
    exact ⟨delivery, kept, .inl ⟨by decide, map⟩⟩
  rename_i pos
  rw [Int.not_le] at pos
  split at run
  · contradiction
  next unused =>
    obtain ⟨small, unused⟩ := not_or.mp unused
    have small := Int.not_le.mp small
    have unused := not_isSome_iff_eq_none.mp unused
    have eid := (eids e).trans (if_pos rfl)
    have before : s.map ns = none := map ▸ unused
    cases page with
    | false =>
      cases run
      exact ⟨delivery, kept, .inr ⟨pos, before, eid, map⟩⟩
    | true =>
      cases run
      exact ⟨delivery.name unused pos small live eid, kept, .inr ⟨pos, before, eid, by rw [← map]; rfl⟩⟩

end

/-- Where a new event goes. -/
inductive Place (s : State) : Eid → Option EvtPtr → Prop where
  | root : Place s 0 none
  | below {parent : Eid} {g : EvtPtr} (other : parent ≠ 0) (found : s.map (slot parent) = some g)
      (group : ¬ isLeaf s g) : Place s parent (some g)

theorem evtSplit_cases {parent : Eid} {group page : Bool} {slab : Option EvtPtr} {ret : Int}
    (run : evtSplit s spdid parent group slab ns page = some (s', ret)) :
    (s' = s ∧ ret < 0) ∨ ∃ type p e, Place s parent p ∧ evtAlloc s type p spdid e ns page = some (s', ret) := by
  simp only [evtSplit] at run
  split at run
  next root =>
    subst root
    split at run
    · cases run
      exact .inl ⟨rfl, by decide⟩
    next e => exact .inr ⟨_, none, e, .root, run⟩
  next other =>
    split at run
    · contradiction
    split at run
    · cases run
      exact .inl ⟨rfl, by decide⟩
    rename_i g found
    split at run
    · cases run
      exact .inl ⟨rfl, by decide⟩
    rename_i allowed
    split at run
    · cases run
      exact .inl ⟨rfl, by decide⟩
    rename_i e
    have group : ¬ isLeaf s g := by
      intro leaf
      have leaf : (s.node g).type = .normal := leaf
      simp [leaf] at allowed
    exact .inr ⟨_, some g, e, .below other found group, run⟩

end SuperGlue.Guarantees.EventQueue
