import SuperGlue.Lib.RingFamily
import SuperGlue.Lib.Transition
import SuperGlue.Guarantees.EventQueue

/-!
# The forest of events

Every child of a group is linked into its inactive or its triggered ring, and the group points at the
first node of each. A node is unlinked without a look at these two pointers, so this stays so as long as
the node that goes is not the one pointed at, and as long as an event that joined its group gets an id
and is entered.
-/
namespace SuperGlue.Guarantees.EventIntegrity
open Prod List Function Option Lib.FiniteMap Lib.Ring Lib.Transition Source.Event.Groups EventRings EventQueue

/-- The two rings of a group. -/
inductive Kind where
  | inactive
  | triggered
  deriving DecidableEq, Repr

/-- The event is registered. -/
def Known (s : State) (x : EvtPtr) : Prop := ∃ eid, s.map eid = some x

/-- The rings of a group `g` are `R (g, .inactive)` and `R (g, .triggered)`. -/
structure Intact (s : State) (R : EvtPtr × Kind → List EvtPtr) : Prop where
  /-- No event is in two rings, or twice in one. -/
  family : Family s.links R
  inactive : ∀ g, Known s g → (s.node g).iachildren = (R (g, .inactive)).head?
  triggered : ∀ g, Known s g → (s.node g).tchildren = (R (g, .triggered)).head?
  child : ∀ g k x, x ∈ R (g, k) → Known s g ∧ Known s x ∧ (s.node x).grp = some g
  placed : ∀ x g, Known s x → (s.node x).grp = some g → ∃ k, x ∈ R (g, k)
  named : ∀ eid x, s.map eid = some x → x ∈ s.live ∧ (s.node x).eid = eid

/-- Groups are above their children. -/
structure Forest (s : State) (R : EvtPtr × Kind → List EvtPtr) (rank : EvtPtr → Nat) : Prop
    extends Intact s R where
  above : ∀ x g, Known s x → (s.node x).grp = some g → rank g < rank x

variable {s s' : State} {R R' : EvtPtr × Kind → List EvtPtr} {rank : EvtPtr → Nat} {e x g p h : EvtPtr} {kind : Kind}
  {nodes : List EvtPtr}

theorem init_forest : Forest init (fun _ => []) (fun _ => 0) := by
  have nobody : ∀ x, ¬ Known init x := by
    rintro x ⟨eid, found⟩
    contradiction
  refine ⟨⟨⟨⟨fun _ => rfl, fun _ => rfl⟩, fun _ => trivial, ?_, fun _ _ => rfl⟩, ?_, ?_, ?_, ?_, ?_⟩, ?_⟩
  · simp
  · exact fun g known => absurd known (nobody g)
  · exact fun g known => absurd known (nobody g)
  · simp
  · exact fun x g known => absurd known (nobody x)
  · exact fun eid x found => absurd ⟨eid, found⟩ (nobody x)
  · exact fun x g known => absurd known (nobody x)

theorem Intact.grp_known (f : Intact s R) (known : Known s x) (up : (s.node x).grp = some g) : Known s g := by
  obtain ⟨k, inside⟩ := f.placed x g known up
  exact (f.child g k x inside).1

theorem Intact.unlisted (f : Intact s R) (up : (s.node x).grp = some p) {k : Kind} (other : g ≠ p) : x ∉ R (g, k) := by
  intro inside
  have listed := (f.child g k x inside).2.2
  rw [up] at listed
  exact other (some.inj listed).symm

/-- The node at which a group points for one of its rings. -/
def first (e : Evt) : Kind → Option EvtPtr
  | .inactive => e.iachildren
  | .triggered => e.tchildren

theorem Intact.first (f : Intact s R) (known : Known s g) (k : Kind) : first (s.node g) k = (R (g, k)).head? := by
  cases k with
  | inactive => exact f.inactive g known
  | triggered => exact f.triggered g known

/-- An object that is not registered is in no ring and has none. -/
theorem Intact.unknown (f : Intact s R) (unknown : ¬ Known s x) : (∀ k, x ∉ R k) ∧ ∀ k, R (x, k) = [] := by
  constructor
  · rintro ⟨g, k⟩ inside
    exact unknown (f.child g k x inside).2.1
  · intro k
    apply eq_nil_iff_forall_not_mem.mpr
    intro y inside
    exact unknown (f.child x k y inside).1

variable (f : Forest s R rank)
include f

/-- Other rings over the same events. -/
theorem Forest.change (map : s'.map = s.map) (live : s.live ⊆ s'.live)
    (node : ∀ x, Known s x → (s'.node x).eid = (s.node x).eid ∧ (s'.node x).grp = (s.node x).grp)
    (family : Family s'.links R') (members : ∀ g x, (∃ k, x ∈ R' (g, k)) ↔ ∃ k, x ∈ R (g, k))
    (heads : ∀ g, Known s g → ∀ k, first (s'.node g) k = (R' (g, k)).head?) : Forest s' R' rank := by
  have known : ∀ x, Known s' x ↔ Known s x := fun x => by rw [Known, Known, map]
  refine ⟨⟨family, fun g here => heads g ((known g).mp here) .inactive,
    fun g here => heads g ((known g).mp here) .triggered, ?_, ?_, ?_⟩, ?_⟩
  · intro g k x inside
    obtain ⟨k', before⟩ := (members g x).mp ⟨k, inside⟩
    have old := f.child g k' x before
    rw [known, known, (node x old.2.1).2]
    exact old
  · intro x g here up
    rw [(node x ((known x).mp here)).2] at up
    exact (members g x).mpr (f.placed x g ((known x).mp here) up)
  · intro eid x found
    rw [map] at found
    rw [(node x ⟨eid, found⟩).1]
    exact ⟨live (f.named eid x found).1, (f.named eid x found).2⟩
  · intro x g here up
    rw [(node x ((known x).mp here)).2] at up
    exact f.above x g ((known x).mp here) up

/-- Marks and blocked threads do not matter. -/
theorem Forest.congr (links : s'.links = s.links) (map : s'.map = s.map)
    (live : s.live ⊆ s'.live) (node : ∀ x, Known s x → (s'.node x).eid = (s.node x).eid ∧
      (s'.node x).grp = (s.node x).grp ∧ ∀ k, first (s'.node x) k = first (s.node x) k) : Forest s' R rank := by
  refine f.change map live (fun x known => ⟨(node x known).1, (node x known).2.1⟩) (links ▸ f.family)
    (fun _ _ => Iff.rfl) fun g known k => ?_
  rw [(node g known).2.2]
  exact f.first known k

omit f in
theorem Same.fields (same : Same s s') (x : EvtPtr) :
    (s'.node x).eid = (s.node x).eid ∧ (s'.node x).grp = (s.node x).grp := by
  have eq := same.node x
  simp only [core, Evt.mk.injEq] at eq
  exact ⟨eq.2.2.2.1, eq.2.2.2.2.1⟩

theorem Forest.store {evt : Evt} (eid : evt.eid = (s.node x).eid)
    (group : evt.grp = (s.node x).grp) (heads : ∀ k, first evt k = first (s.node x) k) : Forest (s.set x evt) R rank := by
  refine f.congr rfl rfl (Finset.Subset.refl _) fun y _ => ?_
  rw [set_node]
  split
  next eq => exact eq ▸ ⟨eid, group, heads⟩
  · exact ⟨rfl, rfl, fun _ => rfl⟩

theorem Forest.mark (x : EvtPtr) (b : Bool) : Forest (s.mark x b) R rank :=
  f.store rfl rfl fun k => by cases k <;> rfl

omit f

/-! ## `__evt_trigger` -/

/-- An event can be moved to the triggered ring of its group. -/
def movable (s : State) (g p : EvtPtr) : Bool :=
  decide ((s.node p).iachildren ≠ some g ∧ ((s.node p).tchildren = some g → s.links.next g = g))

/-- So can every event on the way up from `g`. -/
def clear (s : State) : Nat → EvtPtr → Bool
  | 0, _ => true
  | fuel + 1, g =>
    match (s.node g).grp with
    | none => true
    | some p => movable s g p && clear s fuel p

/-- The rings after `x` went to the ring `kind` of its group, which is now `nodes`. -/
def moved (R : EvtPtr × Kind → List EvtPtr) (x p : EvtPtr) (kind : Kind) (nodes : List EvtPtr) :
    EvtPtr × Kind → List EvtPtr :=
  update (fun k => (R k).erase x) (p, kind) nodes

theorem moved_members (f : Intact s R) (known : Known s g)
    (up : (s.node g).grp = some p) (joins : ∀ y, y ∈ nodes ↔ y = g ∨ y ∈ (R (p, kind)).erase g)
    (q x : EvtPtr) : (∃ k, x ∈ moved R g p kind nodes (q, k)) ↔ ∃ k, x ∈ R (q, k) := by
  have cases : ∀ k, x ∈ moved R g p kind nodes (q, k) ↔ (q, k) = (p, kind) ∧ x = g ∨ x ∈ (R (q, k)).erase g := by
    intro k
    unfold moved
    by_cases eq : (q, k) = (p, kind)
    · rw [eq, update_self, joins]
      simp
    · simp [eq]
  constructor
  · rintro ⟨k, inside⟩
    rcases (cases k).mp inside with ⟨eq, rfl⟩ | inside
    · cases eq
      exact f.placed _ _ known up
    · exact ⟨k, mem_of_mem_erase inside⟩
  · rintro ⟨k, inside⟩
    by_cases eq : x = g
    · subst eq
      have group := (f.child q k x inside).2.2
      rw [up] at group
      cases group
      exact ⟨kind, (cases _).mpr (.inl ⟨rfl, rfl⟩)⟩
    · exact ⟨k, (cases k).mpr (.inr ((mem_erase_of_ne eq).mpr inside))⟩

theorem moved_other (f : Intact s R) (up : (s.node g).grp = some p)
    {q : EvtPtr} (other : q ≠ p) (k : Kind) : moved R g p kind nodes (q, k) = R (q, k) := by
  have ne : (q, k) ≠ (p, kind) := fun eq => other (mk.inj eq).1
  rw [moved, update_of_ne ne, erase_of_not_mem (f.unlisted up other)]

/-- The triggered ring of `p` with `g` at its end. -/
def queued (R : EvtPtr × Kind → List EvtPtr) (g p : EvtPtr) : List EvtPtr :=
  (R (p, .triggered)).erase g ++ [g]

/-- What one pass of the loop does to the links and to the pointer of the group. -/
theorem triggerOne_family (f : Intact s R) (known : Known s p) (up : (s.node g).grp = some p)
    (ok : movable s g p) : Family (triggerOne s g).links (moved R g p .triggered (queued R g p)) ∧
      ∀ q, ((triggerOne s g).node q).tchildren = if q = p then (queued R g p).head? else (s.node q).tchildren := by
  have removed := f.family.rem g
  have out := f.family.erased g
  have head := f.triggered p known
  have eq := triggerOne_eq up
  cases list : R (p, .triggered) with
  | nil =>
    rw [list] at head
    simp only [head, head?_nil] at eq
    have nodes : queued R g p = [g] := by simp [queued, list]
    rw [eq, nodes]
    constructor
    · exact removed.single out (by simp [list])
    · intro q
      simp
  | cons first rest =>
    rw [list] at head
    simp only [head, head?_cons] at eq
    by_cases same : first = g
    · -- the only triggered child is triggered again
      subst same
      have ok := (of_decide_eq_true ok).2 head
      have only := (f.family.alone_iff (by rw [list]; rfl)).mp ok
      have nodes : queued R first p = [first] := by simp [queued, only]
      have alone := rem_alone f.family.linked first
      have back := removed.linked.prev_eq_iff.mpr alone
      rw [eq, nodes, back, add_self removed.linked alone]
      constructor
      · exact removed.single out (by simp [only])
      · intro q
        split
        next eq => simp [eq, head]
        · simp
    · have left : (R (p, .triggered)).erase g = first :: rest.erase g := by simp [list, same]
      have nodes : queued R g p = first :: rest.erase g ++ [g] := by rw [queued, left]
      rw [eq, nodes]
      constructor
      · exact removed.last out left
      · intro q
        split
        next eq => simp [eq, head]
        · simp

theorem triggerOne_forest (f : Forest s R rank) (known : Known s g) (up : (s.node g).grp = some p)
    (ok : movable s g p) : Forest (triggerOne s g) (moved R g p .triggered (queued R g p)) rank := by
  have same := triggerOne_same s g
  have parent := f.grp_known known up
  obtain ⟨family, heads⟩ := triggerOne_family f.toIntact parent up ok
  refine f.change same.map same.live.ge (fun x _ => Same.fields same x) family (moved_members f.toIntact known up ?_) ?_
  · intro y
    rw [queued, mem_append, mem_singleton, or_comm]
  intro q here k
  cases k with
  | inactive =>
    refine (triggerOne_iachildren s g q).trans ?_
    rw [f.inactive q here]
    by_cases eq : q = p
    · subst eq
      have notFirst := (of_decide_eq_true ok).1
      rw [f.inactive q here] at notFirst
      rw [moved, update_of_ne (by simp)]
      exact (head_erase notFirst).symm
    · rw [moved_other f.toIntact up eq]
  | triggered =>
    refine (heads q).trans ?_
    split
    next eq => rw [eq, moved, update_self]
    next other => rw [moved_other f.toIntact up other, f.triggered q here]

/-- What is above `p` is not touched when one of its children moves. -/
theorem clear_above (f : Forest s R rank) (f' : Forest s' R' rank) (same : Same s s')
    (kept : ∀ q, rank q < rank p → (s'.node q).iachildren = (s.node q).iachildren ∧ ∀ k, R' (q, k) = R (q, k)) :
    ∀ fuel x, Known s x → rank x ≤ rank p → clear s fuel x → clear s' fuel x := by
  have known : ∀ x, Known s x → Known s' x := fun x => by rw [Known, Known, same.map]; exact id
  intro fuel
  induction fuel with
  | zero => exact fun _ _ _ _ => rfl
  | succ fuel ih =>
    intro x here low ok
    unfold clear at ok ⊢
    rw [(Same.fields same x).2]
    cases up : (s.node x).grp with
    | none => rfl
    | some q =>
      simp only [up, Bool.and_eq_true] at ok ⊢
      have lower := f.above x q here up
      have parent := f.grp_known here up
      obtain ⟨first, rings⟩ := kept q (by omega)
      refine ⟨?_, ih q parent (by omega) ok.2⟩
      obtain ⟨k, inside⟩ := f.placed x q here up
      have ring' := f'.family.ring (q, k)
      rw [rings k] at ring'
      have next := isRing_next_eq (f.family.ring (q, k)) ring' inside
      have second : (s'.node q).tchildren = (s.node q).tchildren := by
        rw [f'.triggered q (known q parent), rings, f.triggered q parent]
      rw [movable, first, second, next]
      exact ok.1

/-- The live events that could be above `x`. -/
def height (s : State) (rank : EvtPtr → Nat) (x : EvtPtr) : Nat := {y ∈ s.live | rank y < rank x}.card

theorem height_lt (f : Forest s R rank) (known : Known s x) (up : (s.node x).grp = some g) :
    height s rank g < height s rank x := by
  have lower := f.above x g known up
  obtain ⟨eid, found⟩ := f.grp_known known up
  apply Finset.card_lt_card
  refine ⟨?_, fun all => ?_⟩
  · intro y inside
    rw [Finset.mem_filter] at inside ⊢
    exact ⟨inside.1, inside.2.trans lower⟩
  · have inside := all (Finset.mem_filter.mpr ⟨(f.named eid g found).1, lower⟩)
    exact lt_irrefl _ (Finset.mem_filter.mp inside).2

variable {fuel : Nat}

theorem triggerUp_forest (f : Forest s R rank) (known : Known s g)
    (ok : clear s fuel g) (enough : height s rank g < fuel) (t : Option EvtPtr) :
    ∃ s' t' R', triggerUp fuel s g t = some (s', t') ∧ Forest s' R' rank := by
  induction fuel generalizing s R g t with
  | zero => contradiction
  | succ fuel ih =>
    have same := triggerOne_same s g
    have group := (Same.fields same g).2
    cases up : (s.node g).grp with
    | none =>
      have eq : triggerOne s g = s.mark g true := by
        have upMarked := (Same.fields (mark_same s g true) g).2.trans up
        simp [triggerOne, upMarked]
      refine ⟨triggerOne s g, _, R, by simp only [triggerUp, group, up]; rfl, ?_⟩
      exact eq ▸ f.mark g true
    | some p =>
      simp only [clear, up, Bool.and_eq_true] at ok
      have f' := triggerOne_forest f known up ok.1
      have parent := f.grp_known known up
      have parent' : Known (triggerOne s g) p := by
        rw [Known, same.map]
        exact parent
      have lower := height_lt f known up
      have enough' : height (triggerOne s g) rank p < fuel := by
        rw [height, same.live]
        exact lt_of_lt_of_le lower (Nat.le_of_lt_succ enough)
      simp only [triggerUp, group, up]
      refine ih f' parent' (clear_above f f' same ?_ fuel p parent (le_refl _) ok.2) enough' _
      intro q lower
      have other : q ≠ p := fun eq => absurd lower (eq ▸ lt_irrefl _)
      exact ⟨triggerOne_iachildren s g q, moved_other f.toIntact up other⟩

variable {ret : Int}

theorem triggerWake_forest (f : Forest s R rank) (run : triggerWake s x = some (s', ret)) : Forest s' R rank := by
  have marked := f.mark x true
  simp only [triggerWake] at run
  split at run
  · split at run
    · contradiction
    cases run
    exact marked.store rfl rfl fun k => by cases k <;> rfl
  · split at run
    · contradiction
    · cases run
      exact marked

variable {eid : Eid}

theorem evtTrigger_forest (f : Forest s R rank) (ok : (s.map (slot eid)).all (clear s (s.live.card + 1)))
    (run : evtTrigger s eid = some (s', ret)) : ∃ R', Forest s' R' rank := by
  unfold evtTrigger at run
  split at run
  · contradiction
  cases found : s.map (slot eid) with
  | none =>
    rw [found] at run
    cases run
    exact ⟨R, f⟩
  | some e =>
    rw [found] at run ok
    simp only at run
    split at run
    · cases run
      exact ⟨R, f⟩
    · have enough : height s rank e < s.live.card + 1 := Nat.lt_succ_of_le (Finset.card_filter_le ..)
      obtain ⟨s1, t, R', loop, f'⟩ := triggerUp_forest f ⟨_, found⟩ ok enough none
      rw [loop, bind_some] at run
      obtain ⟨t, rfl, wake⟩ := bind_eq_some_iff.mp run
      exact ⟨R', triggerWake_forest f' wake⟩

/-! ## `__evt_wait` -/

/-- `x` is linked after the first node. -/
def joined (x : EvtPtr) : List EvtPtr → List EvtPtr
  | [] => [x]
  | first :: rest => first :: x :: rest

theorem mem_joined {l : List EvtPtr} {y : EvtPtr} : y ∈ joined x l ↔ y = x ∨ y ∈ l := by
  cases l with
  | nil => simp [joined]
  | cons =>
    simp only [joined, mem_cons]
    tauto

theorem addInactive_family (family : Family s.links R) (head : (s.node g).iachildren = (R (g, .inactive)).head?)
    (out : ∀ k, x ∉ R k) : Family (addInactive s g x).links (update R (g, .inactive) (joined x (R (g, .inactive)))) ∧
      (∀ q, ((addInactive s g x).node q).iachildren =
        if q = g then (joined x (R (g, .inactive))).head? else (s.node q).iachildren) ∧
      ∀ q, ((addInactive s g x).node q).tchildren = (s.node q).tchildren := by
  cases list : R (g, .inactive) with
  | nil =>
    rw [list] at head
    have eq : addInactive s g x = s.setIachildren g (some x) := by simp only [addInactive, head, head?]
    rw [eq]
    refine ⟨family.single out list, ?_, ?_⟩
    · intro q
      simp [joined]
    · intro q
      simp
  | cons first rest =>
    rw [list] at head
    have eq : addInactive s g x = s.relink (s.links.add first x) := by
      simp [addInactive, head, head?]
    rw [eq]
    have split : R (g, .inactive) = [] ++ first :: rest := list
    refine ⟨family.after out split, ?_, fun q => rfl⟩
    intro q
    split
    next eq => simp [eq, head, joined]
    · rfl

/-- The inactive ring of `g` with `r` in it. -/
def retired (R : EvtPtr × Kind → List EvtPtr) (r g : EvtPtr) : List EvtPtr :=
  joined r ((R (g, .inactive)).erase r)

/-- One pass of the loop, in which `s1` is the state before the child is linked in again. -/
theorem addInactive_forest {s1 : State} {r : EvtPtr} (f : Forest s R rank) (known : Known s g)
    (first : (R (g, .triggered)).head? = some r) (same : Same s s1) (links : s1.links = s.links.rem r)
    (inactive : ∀ q, (s1.node q).iachildren = (s.node q).iachildren)
    (triggered : ∀ q, (s1.node q).tchildren = if q = g then (R (g, .triggered)).tail.head? else (s.node q).tchildren) :
    Forest (addInactive s1 g r) (moved R r g .inactive (retired R r g)) rank := by
  have inside := mem_of_head? first
  obtain ⟨-, mem, up⟩ := f.child g .triggered r inside
  have apart : r ∉ R (g, .inactive) := by
    intro other
    have eq := f.family.apart _ _ r inside other
    simp at eq
  have left := erase_of_not_mem apart
  have family1 := links ▸ f.family.rem r
  have head : (s1.node g).iachildren = ((R (g, .inactive)).erase r).head? := by
    rw [inactive, left, f.inactive g known]
  obtain ⟨family, heads, others⟩ := addInactive_family family1 head (f.family.erased r)
  have whole := same.trans (addInactive_same s1 g r)
  refine f.change whole.map whole.live.ge (fun x _ => Same.fields whole x) family
    (moved_members f.toIntact mem up fun y => mem_joined) fun q here k => ?_
  cases k with
  | inactive =>
    refine (heads q).trans ?_
    by_cases eq : q = g
    · rw [if_pos eq, eq, moved, update_self]
      rfl
    · rw [if_neg eq, inactive, f.inactive q here, moved_other f.toIntact up eq]
  | triggered =>
    refine ((others q).trans (triggered q)).trans ?_
    by_cases eq : q = g
    · have tail : (R (g, .triggered)).erase r = (R (g, .triggered)).tail := by
        obtain ⟨rest, list⟩ := head?_eq_some_iff.mp first
        simp [list]
      rw [if_pos eq, eq, moved, update_of_ne (by simp), tail]
    · rw [if_neg eq, f.triggered q here, moved_other f.toIntact up eq]

variable {up : Option EvtPtr}

theorem waitUp_forest (f : Forest s R rank)
    (known : ∀ g, up = some g → Known s g) (run : waitUp fuel s up = some s') : ∃ R', Forest s' R' rank := by
  induction fuel generalizing s R up with
  | zero =>
    cases up with
    | none =>
      cases run
      exact ⟨R, f⟩
    | some => contradiction
  | succ fuel ih =>
    cases up with
    | none =>
      cases run
      exact ⟨R, f⟩
    | some g =>
      have here := known g rfl
      have head := f.triggered g here
      simp only [waitUp] at run
      split at run
      · contradiction
      rename_i r first
      rw [first] at head
      obtain ⟨rest, list⟩ := head?_eq_some_iff.mp head.symm
      split at run
      next alone =>
        have only := (f.family.alone_iff head.symm).mp alone
        have same : Same s (((s.relink (s.links.rem r)).setTchildren g none).mark g false) :=
          ((relink_same ..).trans (setTchildren_same ..)).trans (mark_same ..)
        have next := addInactive_forest f here head.symm same rfl (fun q => by simp) (fun q => by simp [only])
        apply ih next _ run
        intro p above
        have whole := same.trans (addInactive_same _ g r)
        rw [(Same.fields whole g).2] at above
        rw [Known, whole.map]
        exact f.grp_known here above
      next more =>
        cases run
        have same : Same s ((s.relink (s.links.rem r)).setTchildren g (some (s.links.next r))) :=
          (relink_same ..).trans (setTchildren_same ..)
        have second : some (s.links.next r) = rest.head? := by
          have ring := f.family.ring (g, .triggered)
          rw [list] at ring
          cases rest with
          | nil => exact absurd (isRing_singleton.mp ring) more
          | cons => exact congrArg some ring.2.1
        exact ⟨_, addInactive_forest f here head.symm same rfl (fun q => by simp) (fun q => by simp [list, second])⟩

theorem bottom_known {t : EvtPtr} (f : Forest s R rank) (known : Known s x)
    (run : bottom fuel s x = some t) : Known s t := by
  induction fuel generalizing x with
  | zero => contradiction
  | succ fuel ih =>
    simp only [bottom] at run
    split at run
    · cases run
      exact known
    next c first =>
      have head := f.triggered x known
      rw [first] at head
      exact ih (f.child x .triggered c (mem_of_head? head.symm)).2.1 run

variable {spdid : SpdId} {type : EvtType}

theorem evtWait_forest {thd : ThdId} (f : Forest s R rank)
    (run : evtWait s spdid eid thd = some (s', ret)) : ∃ R', Forest s' R' rank := by
  unfold evtWait at run
  split at run
  · contradiction
  cases found : s.map (slot eid) with
  | none =>
    rw [found] at run
    cases run
    exact ⟨R, f⟩
  | some =>
    rw [found] at run
    simp only at run
    split at run
    · cases run
      exact ⟨R, f⟩
    split at run
    · cases run
      exact ⟨R, f⟩
    split at run
    · contradiction
    split at run
    · cases run
      exact ⟨R, f.store rfl rfl fun k => by cases k <;> rfl⟩
    · obtain ⟨t, below, rest⟩ := bind_eq_some_iff.mp run
      obtain ⟨s1, loop, eq⟩ := map_eq_some_iff.mp rest
      cases eq
      have known := bottom_known f ⟨_, found⟩ below
      apply waitUp_forest (f.mark t false) _ loop
      intro g up
      rw [(Same.fields (mark_same s t false) t).2] at up
      exact f.grp_known known up

/-! ## `__evt_free` -/

/-- Once the node that ends the loop is unlinked, the loop does not end. -/
theorem freeLoop_never {f : EvtPtr} (linked : Linked s.links) (alone : s.links.next f = f) (other : h ≠ f)
    (fuel : Nat) : freeLoop fuel s h f = none := by
  induction fuel generalizing s with
  | zero => rfl
  | succ fuel ih =>
    have notNext : ∀ {L : Links EvtPtr}, Linked L → L.next f = f → f ≠ L.next h := by
      intro L linked alone eq
      exact other (linked.next_inj (eq.symm.trans alone.symm))
    have linked' : Linked (orphan s (s.links.next h)).links := rem_linked linked _
    have alone' := rem_dead linked (notNext linked alone) alone
    rw [freeLoop, if_neg (notNext linked' alone')]
    exact ih linked' alone'

/-- The loop ends for a ring of one node only. -/
theorem freeLoop_stuck (linked : Linked s.links) (pair : s.links.next h ≠ h) (fuel : Nat) :
    freeLoop fuel s h (s.links.next h) = none := by
  cases fuel with
  | zero => rfl
  | succ =>
    have linked' : Linked (orphan s (s.links.next h)).links := rem_linked linked _
    have alone : (orphan s (s.links.next h)).links.next (s.links.next h) = s.links.next h := rem_alone linked _
    have off : s.links.next h ≠ (orphan s (s.links.next h)).links.next h := by
      intro eq
      exact pair (linked'.next_inj (alone.trans eq))
    rw [freeLoop, if_neg off, freeLoop_never linked' alone pair.symm]

theorem freeChildren_cases (family : Family s.links R) (k : EvtPtr × Kind) :
    ((R k).length ≤ 1 ∧ ∃ s', freeChildren s (R k).head? = some s' ∧ s'.map = s.map ∧ s'.live = s.live ∧
      Family s'.links (update R k []) ∧
      ∀ x, s'.node x = if x ∈ R k then { s.node x with grp := none } else s.node x) ∨
    1 < (R k).length ∧ freeChildren s (R k).head? = none := by
  cases list : R k with
  | nil =>
    refine .inl ⟨Nat.zero_le _, s, rfl, rfl, rfl, ?_, by simp⟩
    rw [← list, update_eq_self]
    exact family
  | cons h rest =>
    have alone := family.alone_iff (a := h) (by rw [list]; rfl)
    cases rest with
    | nil =>
      refine .inl ⟨le_rfl, orphan s h, ?_, rfl, rfl, ?_, ?_⟩
      · change freeLoop (s.live.card + 1) s h (s.links.next h) = _
        rw [freeLoop, alone.mpr list]
        exact if_pos (rem_alone family.linked h).symm
      · have erased : (fun k' => (R k').erase h) = update R k [] := by
          funext k'
          by_cases eq : k' = k
          · simp [eq, list]
          · rw [update_of_ne eq, erase_of_not_mem]
            intro inside
            exact eq (family.apart k' k h inside (by simp [list]))
        rw [← erased]
        exact family.rem h
      · intro x
        rw [orphan, relink_node, set_node]
        by_cases eq : x = h <;> simp [eq]
    | cons =>
      refine .inr ⟨by simp, freeLoop_stuck family.linked ?_ _⟩
      intro eq
      simpa [list] using alone.mp eq

/-- The rings without `e` and its own. -/
def without (R : EvtPtr × Kind → List EvtPtr) (e : EvtPtr) : EvtPtr × Kind → List EvtPtr :=
  fun k => if k.1 = e then [] else (R k).erase e

theorem mem_without (f : Intact s R) {k : Kind} : x ∈ without R e (g, k) ↔ g ≠ e ∧ x ≠ e ∧ x ∈ R (g, k) := by
  by_cases eq : g = e
  · simp [without, eq]
  · simp only [without, eq, if_false, ne_eq, not_false_eq_true, true_and]
    exact (isRing_nodup (f.family.ring (g, k))).mem_erase_iff

/-- The event is gone with its rings and its children have no group. Nothing else has changed. -/
structure Removed (s s' : State) (R : EvtPtr × Kind → List EvtPtr) (eid : Eid) (e : EvtPtr) : Prop where
  map : s'.map = update s.map eid none
  live : s'.live = s.live.erase e
  family : Family s'.links (without R e)
  node : ∀ x, Known s x → x ≠ e →
    s'.node x = if (s.node x).grp = some e then { s.node x with grp := none } else s.node x

theorem Forest.remove (f : Forest s R rank) (found : s.map eid = some e) (removed : Removed s s' R eid e)
    (ok : ∀ p, (s.node e).grp = some p → ∀ k, first (s.node p) k ≠ some e) : Forest s' (without R e) rank := by
  obtain ⟨map, live, family, node⟩ := removed
  have known : ∀ x, Known s' x ↔ Known s x ∧ x ≠ e := by
    intro x
    constructor
    · rintro ⟨id, here⟩
      obtain ⟨other, here⟩ := erase_known (map ▸ here)
      refine ⟨⟨id, here⟩, ?_⟩
      rintro rfl
      exact other ((f.named id x here).2.symm.trans (f.named eid x found).2)
    · rintro ⟨⟨id, here⟩, other⟩
      refine ⟨id, ?_⟩
      rw [map, update_of_ne, here]
      rintro rfl
      exact other (some.inj (here.symm.trans found))
  have fields : ∀ x, Known s x → x ≠ e →
      (s'.node x).eid = (s.node x).eid ∧ ∀ k, first (s'.node x) k = first (s.node x) k := by
    intro x here other
    rw [node x here other]
    split <;> exact ⟨rfl, fun k => by cases k <;> rfl⟩
  have heads : ∀ g, Known s' g → ∀ k, first (s'.node g) k = (without R e (g, k)).head? := by
    intro g here k
    obtain ⟨before, other⟩ := (known g).mp here
    rw [(fields g before other).2, f.first before, without, if_neg other]
    refine (head_erase fun head => ?_).symm
    exact ok g (f.child g k e (mem_of_head? head)).2.2 k ((f.first before k).trans head)
  -- the children of `e` have no group any more, and those of other groups keep theirs
  have group : ∀ x g, Known s x → x ≠ e → ((s'.node x).grp = some g ↔ g ≠ e ∧ (s.node x).grp = some g) := by
    intro x g here other
    rw [node x here other]
    split
    next mine => simp +contextual [mine, eq_comm]
    next notMine =>
      refine ⟨fun up => ⟨?_, up⟩, And.right⟩
      rintro rfl
      exact notMine up
  refine ⟨⟨family, fun g here => heads g here .inactive, fun g here => heads g here .triggered, ?_, ?_, ?_⟩, ?_⟩
  · intro g k x mem
    obtain ⟨otherG, otherX, before⟩ := (mem_without f.toIntact).mp mem
    obtain ⟨knownG, knownX, up⟩ := f.child g k x before
    exact ⟨(known g).mpr ⟨knownG, otherG⟩, (known x).mpr ⟨knownX, otherX⟩, (group x g knownX otherX).mpr ⟨otherG, up⟩⟩
  · intro x g here up
    obtain ⟨before, other⟩ := (known x).mp here
    obtain ⟨otherG, upBefore⟩ := (group x g before other).mp up
    obtain ⟨k, mem⟩ := f.placed x g before upBefore
    exact ⟨k, (mem_without f.toIntact).mpr ⟨otherG, other, mem⟩⟩
  · intro id x here
    obtain ⟨before, other⟩ := (known x).mp ⟨id, here⟩
    have here := (erase_known (map ▸ here)).2
    rw [live, (fields x before other).1]
    exact ⟨Finset.mem_erase.mpr ⟨other, (f.named id x here).1⟩, (f.named id x here).2⟩
  · intro x g here up
    obtain ⟨before, other⟩ := (known x).mp here
    exact f.above x g before ((group x g before other).mp up).2

/-- The event is not the one a group points at. -/
def unheaded (s : State) (e : EvtPtr) : Bool :=
  (s.node e).grp.all fun p => decide ((s.node p).iachildren ≠ some e ∧ (s.node p).tchildren ≠ some e)

theorem unheaded_iff : unheaded s e ↔ ∀ p, (s.node e).grp = some p → ∀ k, first (s.node p) k ≠ some e := by
  cases up : (s.node e).grp with
  | none => simp [unheaded, up]
  | some p =>
    simp only [unheaded, up, all_some, decide_eq_true_eq, some.injEq, forall_eq']
    refine ⟨?_, fun free => ⟨free .inactive, free .triggered⟩⟩
    rintro ⟨inactive, triggered⟩ (_ | _)
    · exact inactive
    · exact triggered

theorem evtFree_cases (f : Forest s R rank) (nonneg : 0 ≤ eid) (found : s.map (slot eid) = some e)
    (owner : (s.node e).creator = spdid) (idle : (s.node e).bthd = 0) :
    ((∀ k, (R (e, k)).length ≤ 1) ∧ ∃ s', evtFree s spdid eid = some (s', 0) ∧ Removed s s' R (slot eid) e) ∨
    (∃ k, 1 < (R (e, k)).length) ∧ evtFree s spdid eid = none := by
  have known : Known s e := ⟨_, found⟩
  have notMine : ∀ k, e ∉ R (e, k) := by
    intro k inside
    exact absurd (f.above e e known (f.child e k e inside).2.2) (lt_irrefl _)
  simp only [evtFree, not_lt.mpr nonneg, found, owner, idle, ne_eq, not_true, if_false, f.inactive e known]
  rcases freeChildren_cases f.family (e, .inactive) with ⟨few1, s1, first, map1, live1, family1, node1⟩ | ⟨many, never⟩
  case inr => exact .inr ⟨⟨_, many⟩, by rw [never]; rfl⟩
  have key : update R (e, .inactive) [] (e, .triggered) = R (e, .triggered) := update_of_ne (by simp) ..
  have head : ((s1.setIachildren e none).node e).tchildren = (R (e, .triggered)).head? := by
    rw [setIachildren_tchildren, node1, if_neg (notMine _), f.triggered e known]
  have second := freeChildren_cases (s := s1.setIachildren e none) family1 (e, .triggered)
  rw [key] at second
  rw [first, Option.bind_some, head]
  rcases second with ⟨few2, s2, second, map2, live2, family2, node2⟩ | ⟨many, never⟩
  case inr => exact .inr ⟨⟨_, many⟩, by rw [never]; rfl⟩
  refine .inl ⟨?_, _, by rw [second]; rfl, ?_, ?_, ?_, ?_⟩
  · rintro (_ | _)
    · exact few1
    · exact few2
  · exact congrArg (update · (slot eid) none) (map2.trans map1)
  · exact congrArg (Finset.erase · e) (live2.trans live1)
  · have rings : without R e = fun k => (update (update R (e, .inactive) []) (e, .triggered) [] k).erase e := by
      funext ⟨g, k⟩
      rw [without]
      split
      next eq =>
        obtain rfl : g = e := eq
        cases k <;> simp
      next other =>
        have here : ∀ k', (g, k) ≠ (e, k') := fun k' eq => other (mk.inj eq).1
        rw [update_of_ne (here _), update_of_ne (here _)]
    rw [rings]
    exact family2.rem e
  · intro x here other
    change (s2.setTchildren e none).node x = _
    have mine : (s.node x).grp = some e ↔ x ∈ R (e, .inactive) ∨ x ∈ R (e, .triggered) := by
      constructor
      · intro up
        obtain ⟨_ | _, inside⟩ := f.placed x e here up
        · exact .inl inside
        · exact .inr inside
      · rintro (inside | inside) <;> exact (f.child _ _ _ inside).2.2
    rw [State.setTchildren, set_node, if_neg other, node2, State.setIachildren, set_node, if_neg other, node1]
    by_cases inactive : x ∈ R (e, .inactive) <;> by_cases triggered : x ∈ R (e, .triggered) <;>
      simp [mine, inactive, triggered]

theorem evtFree_forest (f : Forest s R rank)
    (ok : ∀ e, s.map (slot eid) = some e → (s.node e).creator = spdid → (s.node e).bthd = 0 → unheaded s e)
    (run : evtFree s spdid eid = some (s', ret)) : ∃ R', Forest s' R' rank := by
  have nonneg : ¬ eid < 0 := fun negative => by simp [evtFree, negative] at run
  cases found : s.map (slot eid) with
  | none =>
    simp only [evtFree, if_neg nonneg, found] at run
    cases run
    exact ⟨R, f⟩
  | some e =>
    by_cases allowed : (s.node e).creator = spdid ∧ (s.node e).bthd = 0
    · obtain ⟨owner, idle⟩ := allowed
      rcases evtFree_cases f (not_lt.mp nonneg) found owner idle with ⟨-, s1, freed, removed⟩ | ⟨-, never⟩
      · cases freed.symm.trans run
        exact ⟨_, f.remove found removed (unheaded_iff.mp (ok e found owner idle))⟩
      · cases never.symm.trans run
    · have same : s' = s := by grind [evtFree]
      exact ⟨R, same ▸ f⟩

/-! ## `__evt_alloc` and `__evt_split` -/

/-- The rings with a new event in the inactive one of its group. -/
def grown (R : EvtPtr × Kind → List EvtPtr) (up : Option EvtPtr) (e : EvtPtr) : EvtPtr × Kind → List EvtPtr :=
  match up with
  | none => R
  | some g => update R (g, .inactive) (joined e (R (g, .inactive)))

theorem mem_grown {k : Kind} : x ∈ grown R up e (g, k) ↔ (up = some g ∧ k = .inactive ∧ x = e) ∨ x ∈ R (g, k) := by
  cases up with
  | none => simp [grown]
  | some p =>
    rw [grown]
    by_cases eq : (g, k) = (p, .inactive)
    · cases eq
      rw [update_self, mem_joined]
      simp
    · rw [update_of_ne eq]
      have other : ¬ (some p = some g ∧ k = .inactive ∧ x = e) := by
        rintro ⟨⟨⟩, rfl, -⟩
        exact eq rfl
      simp only [other, false_or]

/-- The new event with its parent, before it has an id. -/
theorem joinParent_family (f : Forest s R rank) (fresh : e ∉ s.live) (parent : ∀ g, up = some g → Known s g)
    (run : joinParent (newEvt s type up spdid e) up e = s') :
    Family s'.links (grown R up e) ∧ s'.map = s.map ∧ s'.live = insert e s.live ∧
      (∀ x, (s'.node x).grp = if x = e then up else (s.node x).grp) ∧ (∀ x, x ≠ e → (s'.node x).eid = (s.node x).eid) ∧
      ∀ x, x = e ∨ Known s x → ∀ k, first (s'.node x) k = (grown R up e (x, k)).head? := by
  have live : ∀ x, Known s x → x ∈ s.live := fun x ⟨eid, found⟩ => (f.named eid x found).1
  have unknown : ¬ Known s e := fun known => fresh (live e known)
  obtain ⟨out, empty⟩ := f.unknown unknown
  have links := linked_init f.family.linked (f.family.outside e out)
  have heads : ∀ x, x = e ∨ Known s x → ∀ k, first ((newEvt s type up spdid e).node x) k = (R (x, k)).head? := by
    intro x here k
    rw [newEvt_node]
    split
    next eq =>
      rw [eq, empty]
      cases k <;> rfl
    next other => exact f.first (here.resolve_left other) k
  have groups : ∀ x, ((newEvt s type up spdid e).node x).grp = if x = e then up else (s.node x).grp := by
    intro x
    rw [newEvt_node]
    split <;> rfl
  have ids : ∀ x, x ≠ e → ((newEvt s type up spdid e).node x).eid = (s.node x).eid := by
    intro x other
    rw [newEvt_node, if_neg other]
  have family := links ▸ f.family
  subst run
  cases up with
  | none => exact ⟨family, rfl, rfl, groups, ids, heads⟩
  | some g =>
    have same := addInactive_same (newEvt s type (some g) spdid e) g e
    obtain ⟨family', inactive, triggered⟩ := addInactive_family family (heads g (.inr (parent g rfl)) .inactive) out
    refine ⟨family', same.map, same.live, ?_, ?_, ?_⟩
    · intro x
      exact (Same.fields same x).2.trans (groups x)
    · intro x other
      exact (Same.fields same x).1.trans (ids x other)
    intro x here k
    have before := heads x here k
    cases k with
    | inactive =>
      refine (inactive x).trans ?_
      split
      next eq => rw [eq, grown, update_self]
      next other =>
        rw [grown, update_of_ne (by simpa using other)]
        exact before
    | triggered =>
      rw [grown, update_of_ne (by simp), ← before]
      exact triggered x

variable {ns : Int}

/-- The new event gets an id that was not in use. -/
theorem Forest.insert (f : Forest s R rank) (unknown : ¬ Known s e) (unused : s.map ns = none)
    (parent : ∀ g, up = some g → Known s g) (map : s'.map = update s.map ns (some e)) (live : s'.live = insert e s.live)
    (family : Family s'.links (grown R up e)) (groups : ∀ x, (s'.node x).grp = if x = e then up else (s.node x).grp)
    (ids : ∀ x, (s'.node x).eid = if x = e then ns else (s.node x).eid)
    (heads : ∀ x, x = e ∨ Known s x → ∀ k, first (s'.node x) k = (grown R up e (x, k)).head?) :
    Forest s' (grown R up e) (update rank e (up.elim 0 fun g => rank g + 1)) := by
  have known : ∀ x, Known s' x ↔ x = e ∨ Known s x := by
    intro x
    constructor
    · rintro ⟨id, found⟩
      obtain ⟨-, rfl⟩ | ⟨-, found⟩ := update_known (map ▸ found)
      · exact .inl rfl
      · exact .inr ⟨id, found⟩
    · rintro (rfl | ⟨id, found⟩)
      · exact ⟨ns, by rw [map, update_self]⟩
      · refine ⟨id, ?_⟩
        rw [map, update_of_ne, found]
        rintro rfl
        rw [unused] at found
        contradiction
  have other : ∀ x, Known s x → x ≠ e := fun x here eq => unknown (eq ▸ here)
  refine ⟨⟨family, fun g here => heads g ((known g).mp here) .inactive,
    fun g here => heads g ((known g).mp here) .triggered, ?_, ?_, ?_⟩, ?_⟩
  · intro g k x inside
    rw [known, known, groups]
    rcases mem_grown.mp inside with ⟨rfl, -, rfl⟩ | inside
    · exact ⟨.inr (parent g rfl), .inl rfl, if_pos rfl⟩
    · obtain ⟨knownG, knownX, group⟩ := f.child g k x inside
      exact ⟨.inr knownG, .inr knownX, by rw [if_neg (other x knownX), group]⟩
  · intro x g here group
    rw [groups] at group
    split at group
    next eq =>
      subst eq
      exact ⟨.inactive, mem_grown.mpr (.inl ⟨group, rfl, rfl⟩)⟩
    next ne =>
      obtain ⟨k, inside⟩ := f.placed x g (((known x).mp here).resolve_left ne) group
      exact ⟨k, mem_grown.mpr (.inr inside)⟩
  · intro id x found
    rw [live, ids]
    obtain ⟨rfl, rfl⟩ | ⟨-, found⟩ := update_known (map ▸ found)
    · exact ⟨Finset.mem_insert_self .., if_pos rfl⟩
    · obtain ⟨alive, named⟩ := f.named id x found
      exact ⟨Finset.mem_insert_of_mem alive, by rw [if_neg (other x ⟨id, found⟩), named]⟩
  · intro x g here group
    rw [groups] at group
    split at group
    next eq =>
      subst eq group
      rw [update_self, update_of_ne (other g (parent g rfl))]
      exact Nat.lt_succ_self _
    next ne =>
      have before := ((known x).mp here).resolve_left ne
      have above := f.grp_known before group
      rw [update_of_ne ne, update_of_ne (other g above)]
      exact f.above x g before group

/-- Nothing that is registered has changed. -/
structure SameForest (s s' : State) : Prop where
  map : s'.map = s.map
  links : s'.links = s.links
  node : ∀ x, Known s x → s'.node x = s.node x

theorem SameForest.forest (f : Forest s R rank) (same : SameForest s s') (live : s.live ⊆ s'.live) :
    Forest s' R rank := by
  refine f.congr same.links same.map live fun x known => ?_
  rw [same.node x known]
  exact ⟨rfl, rfl, fun _ => rfl⟩

variable {page : Bool}

theorem evtAlloc_forest {ns ret : Int} (f : Forest s R rank) (parent : ∀ g, up = some g → Known s g)
    (ok : up ≠ none → 0 < ns ∧ page = true) (run : evtAlloc s type up spdid e ns page = some (s', ret)) :
    (SameForest s s' ∧ s.live ⊆ s'.live) ∨ 0 < ret ∧ ∃ R' rank', Forest s' R' rank' := by
  simp only [evtAlloc] at run
  split at run
  · contradiction
  rename_i fresh
  have unknown : ¬ Known s e := by
    rintro ⟨eid, found⟩
    exact fresh (f.named eid e found).1
  generalize joins : joinParent (newEvt s type up spdid e) up e = s2 at run
  obtain ⟨family, map, live, groups, ids, heads⟩ := joinParent_family f fresh parent joins
  -- an event without a group that is not entered is in nobody's way
  have left : up = none → s' = s2.set e { s2.node e with eid := ns } → SameForest s s' ∧ s.live ⊆ s'.live := by
    rintro root rfl
    subst root joins
    refine ⟨⟨rfl, ?_, ?_⟩, Finset.subset_insert ..⟩
    · exact linked_init f.family.linked (f.family.outside e (f.unknown unknown).1)
    · intro x known
      have other : x ≠ e := fun eq => unknown (eq ▸ known)
      rw [set_node, if_neg other, joinParent, newEvt_node, if_neg other]
  split at run
  next refused =>
    cases run
    refine .inl (left ?_ rfl)
    by_contra below
    exact absurd (ok below).1 (not_lt.mpr refused)
  next accepted =>
    split at run
    · contradiction
    rename_i unused
    cases page with
    | false =>
      cases run
      refine .inl (left ?_ rfl)
      by_contra below
      exact absurd (ok below).2 (by simp)
    | true =>
      obtain ⟨rfl, rfl⟩ := mk.inj (some.inj run)
      simp only [if_true]
      have unused := map ▸ not_isSome_iff_eq_none.mp (not_or.mp unused).2
      refine .inr ⟨not_le.mp accepted, _, _, f.insert unknown unused parent ?_ live family ?_ ?_ ?_⟩
      · exact congrArg (update · ns (some e)) map
      · exact fun x => (set_kept Evt.grp (by rfl) x).trans (groups x)
      · intro x
        rw [set_node]
        split
        · rfl
        next other => exact ids x other
      · exact fun x here k => (set_kept (first · k) (by cases k <;> rfl) x).trans (heads x here k)

theorem evtSplit_forest {parent : Eid} {group : Bool} {slab : Option EvtPtr} (f : Forest s R rank)
    (ok : parent ≠ 0 → 0 < ns ∧ page = true) (run : evtSplit s spdid parent group slab ns page = some (s', ret)) :
    (SameForest s s' ∧ s.live ⊆ s'.live) ∨ 0 < ret ∧ ∃ R' rank', Forest s' R' rank' := by
  rcases evtSplit_cases run with ⟨rfl, -⟩ | ⟨type, up, e, place, run⟩
  · exact .inl ⟨⟨rfl, rfl, fun _ _ => rfl⟩, Finset.Subset.refl _⟩
  refine evtAlloc_forest f ?_ ?_ run
  · rintro g rfl
    cases place with
    | below other found => exact ⟨_, found⟩
  · intro below
    cases place with
    | root => contradiction
    | below other => exact ok other

/-! ## Every run -/

inductive Label where
  | split (spdid : SpdId) (parent : Eid) (group : Bool) (slab : Option EvtPtr) (ns : Int) (page : Bool)
  | trigger (eid : Eid)
  | wait (spdid : SpdId) (eid : Eid) (thd : ThdId)
  | free (spdid : SpdId) (eid : Eid)
  deriving DecidableEq, Repr

def perform (s : State) : Label → Option (State × Int)
  | .split spdid parent group slab ns page => evtSplit s spdid parent group slab ns page
  | .trigger eid => evtTrigger s eid
  | .wait spdid eid thd => evtWait s spdid eid thd
  | .free spdid eid => evtFree s spdid eid

def events : System State Label := ⟨init, fun s label => (perform s label).map fst⟩

/-- The condition on a call, in the state before it. -/
def Careful (s : State) : Label → Prop
  | .split _ parent _ _ ns page => parent ≠ 0 → 0 < ns ∧ page = true
  | .trigger eid => (s.map (slot eid)).all (clear s (s.live.card + 1)) = true
  | .wait .. => True
  | .free spdid eid => ((s.map (slot eid)).all fun e =>
    (s.node e).creator != spdid || (s.node e).bthd != 0 || unheaded s e) = true

instance : DecidableRel Careful := by
  intro o label
  unfold Careful
  split <;> infer_instance

theorem perform_forest {label : Label} (f : Forest s R rank) (careful : Careful s label)
    (run : perform s label = some (s', ret)) : ∃ R' rank', Forest s' R' rank' := by
  cases label with
  | split =>
    rcases evtSplit_forest f careful run with ⟨same, live⟩ | ⟨-, added⟩
    · exact ⟨R, rank, same.forest f live⟩
    · exact added
  | trigger =>
    obtain ⟨R', f'⟩ := evtTrigger_forest f careful run
    exact ⟨R', rank, f'⟩
  | wait =>
    obtain ⟨R', f'⟩ := evtWait_forest f run
    exact ⟨R', rank, f'⟩
  | free spdid eid =>
    have allowed : ∀ e, s.map (slot eid) = some e → (s.node e).creator = spdid → (s.node e).bthd = 0 →
        unheaded s e := by
      intro e found owner idle
      simpa [Careful, found, owner, idle] using careful
    obtain ⟨R', f'⟩ := evtFree_forest f allowed run
    exact ⟨R', rank, f'⟩

theorem events_forest (reached : Reachable events Careful s) : ∃ R rank, Forest s R rank := by
  refine reached.invariant (fun s => ∃ R rank, Forest s R rank) ⟨_, _, init_forest⟩ ?_
  rintro s label s' ⟨R, rank, f⟩ careful next
  obtain ⟨⟨s1, ret⟩, run, rfl⟩ := map_eq_some_iff.mp next
  exact perform_forest f careful run

/-- In every run of careful calls every child of a group is in one of its two rings, the group points at
their first nodes, and a split that fails changes nothing that is registered. -/
theorem forest_intact (reached : Reachable events Careful s) : (∃ R, Intact s R) ∧
      ∀ spdid parent group slab ns page s' ret, Careful s (.split spdid parent group slab ns page) →
        evtSplit s spdid parent group slab ns page = some (s', ret) → ret ≤ 0 → SameForest s s' := by
  obtain ⟨R, rank, f⟩ := events_forest reached
  refine ⟨⟨R, f.toIntact⟩, ?_⟩
  intro spdid parent group slab ns page s' ret careful run failed
  rcases evtSplit_forest f careful run with ⟨same, -⟩ | ⟨pos, -⟩
  · exact same
  · omega

/-- A group with two leaves and a group of two leaves. The second leaf of each is triggered and waited for,
and one of them is freed. -/
def nestedCalls : List Label :=
  [.split 7 0 true (some 0) 1 true, .split 7 1 false (some 1) 2 true, .split 7 1 true (some 2) 3 true,
    .split 7 3 false (some 3) 4 true, .split 7 3 false (some 4) 5 true, .split 7 1 false (some 5) 6 true,
    .trigger 5, .trigger 6, .wait 7 1 9, .wait 7 1 9, .free 7 6]

theorem nested_intact : ∃ s, Run events Careful nestedCalls s ∧ (∃ R, Intact s R) ∧
    ∃ s', evtSplit s 7 0 true (some 5) 0 true = some (s', enomem) ∧ SameForest s s' := by
  refine exec_shows (fun s => ∃ r ∈ evtSplit s 7 0 true (some 5) 0 true, r.2 = enomem) (by decide +kernel) ?_
  rintro s run ⟨⟨s', ret⟩, refused, rfl⟩
  obtain ⟨intact, failed⟩ := forest_intact ⟨_, run⟩
  exact ⟨intact, s', refused, failed _ _ _ _ _ _ s' _ (fun other => absurd rfl other) refused (by decide)⟩

/-- The only child of a group is triggered: the group still points at it as its first inactive child. A
split refused by the name server leaves a child in its group, and one whose id is in a part of the map that
gets no page a child that nobody can find. -/
theorem forest_broken :
    (∃ s, Run events anyStep [.split 7 0 true (some 0) 1 true, .split 7 1 false (some 1) 2 true, .trigger 2] s ∧
      ¬ ∃ R, Intact s R) ∧ (∃ s s', Run events anyStep [.split 7 0 true (some 0) 1 true] s ∧
      evtSplit s 7 1 false (some 1) 0 true = some (s', enomem) ∧ ¬ SameForest s s') ∧
    ∃ s, Run events anyStep [.split 7 0 true (some 0) 1 true, .split 7 1 false (some 1) 1024 false] s ∧
      ¬ ∃ R, Intact s R := by
  refine ⟨?_, ?_, ?_⟩
  · refine exec_shows (fun s => s.map 1 = some 0 ∧ (s.node 0).iachildren = some 1 ∧ (s.node 0).tchildren = some 1)
      (by decide +kernel) ?_
    rintro s - ⟨found, inactive, triggered⟩ ⟨R, intact⟩
    rw [intact.inactive 0 ⟨1, found⟩] at inactive
    rw [intact.triggered 0 ⟨1, found⟩] at triggered
    have both := intact.family.apart _ _ 1 (mem_of_head? inactive) (mem_of_head? triggered)
    simp at both
  · obtain ⟨s, run, found, ⟨s', ret⟩, refused, rfl, differs⟩ := exec_ends events anyStep [.split 7 0 true (some 0) 1 true]
      (fun s => s.map 1 = some 0 ∧ ∃ r ∈ evtSplit s 7 1 false (some 1) 0 true,
        r.2 = enomem ∧ (r.1.node 0).iachildren ≠ (s.node 0).iachildren) (by decide +kernel)
    refine ⟨s, s', run, refused, ?_⟩
    intro same
    exact differs (by rw [same.node 0 ⟨1, found⟩])
  · refine exec_shows (fun s => s.map 1 = some 0 ∧ (s.node 0).iachildren = some 1 ∧ s.map (s.node 1).eid = none)
      (by decide +kernel) ?_
    rintro s - ⟨found, inactive, unknown⟩ ⟨R, intact⟩
    rw [intact.inactive 0 ⟨1, found⟩] at inactive
    obtain ⟨-, ⟨eid, known⟩, -⟩ := intact.child _ _ 1 (mem_of_head? inactive)
    rw [(intact.named eid 1 known).2, known] at unknown
    contradiction

/-! ## What a free does -/

/-- The children are linked to themselves, and the event is left in no ring and no group points at it. -/
structure Freed (s s' : State) (R : EvtPtr × Kind → List EvtPtr) (eid : Eid) (e : EvtPtr) : Prop
    extends Removed s s' R eid e where
  alone : ∀ x, x = e ∨ (s.node x).grp = some e → s'.links.next x = x
  unheaded : ∀ p, (s.node e).grp = some p → ∀ k, first (s'.node p) k ≠ some e

/-- A group and its two children. -/
def pairCalls : List Label :=
  [.split 7 0 true (some 0) 1 true, .split 7 1 false (some 1) 2 true, .split 7 1 false (some 2) 3 true]

end SuperGlue.Guarantees.EventIntegrity
