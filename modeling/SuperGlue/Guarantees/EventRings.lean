import SuperGlue.Lib.NestedQueue
import SuperGlue.Source.Event.Groups

/-!
# The rings of triggered children

What one pass of the loops of `__evt_trigger` and `__evt_wait` does to the rings, and from it what
the loops do: they push along the groups above an event, and pop along them, as long as nothing that
is linked in a triggered ring is taken for inactive or moved.
-/
namespace SuperGlue.Guarantees.EventRings
open Option Function List Lib.Ring Lib.NestedQueue Source.Event.Groups

def grp (s : State) (x : EvtPtr) : Option EvtPtr := (s.node x).grp

/-- The triggered ring of every group `g` is `T g`, and objects of the slab are in no ring. -/
structure Rings (s : State) (T : EvtPtr → List EvtPtr) : Prop where
  linked : Linked s.links
  ring : ∀ g, IsRing s.links (T g)
  head : ∀ g, (s.node g).tchildren = (T g).head?
  child : ∀ g x, x ∈ T g → grp s x = some g
  dead : ∀ x, x ∉ s.live → grp s x = none ∧ s.links.next x = x
  inactive : ∀ g x, (s.node g).iachildren = some x → x ∈ s.live

/-- An event without what triggering and waiting change. -/
def core (evt : Evt) : Evt := { evt with triggered := false, iachildren := none, tchildren := none }

structure Same (s s' : State) : Prop where
  live : s'.live = s.live
  map : s'.map = s.map
  node : ∀ x, core (s'.node x) = core (s.node x)

variable {s s' s'' : State} {T : EvtPtr → List EvtPtr} {x g p : EvtPtr}

theorem Same.refl (s : State) : Same s s := ⟨rfl, rfl, fun _ => rfl⟩

theorem Same.trans (first : Same s s') (second : Same s' s'') : Same s s'' :=
  ⟨second.live.trans first.live, second.map.trans first.map, fun x => (second.node x).trans (first.node x)⟩

theorem Same.grp (h : Same s s') : EventRings.grp s' = EventRings.grp s := by
  funext x
  have eq : (core (s'.node x)).grp = (core (s.node x)).grp := by rw [h.node x]
  exact eq

section
variable (s : State)

theorem same_set (x : EvtPtr) (evt : Evt) (same : core evt = core (s.node x)) : Same s (s.set x evt) := by
  refine ⟨rfl, rfl, ?_⟩
  intro y
  by_cases eq : y = x
  · subst eq
    simpa [State.set] using same
  · simp [State.set, eq]

theorem mark_same (x : EvtPtr) (b : Bool) : Same s (s.mark x b) := same_set s x _ rfl

theorem setTchildren_same (x : EvtPtr) (c : Option EvtPtr) : Same s (s.setTchildren x c) :=
  same_set s x _ rfl

theorem setIachildren_same (x : EvtPtr) (c : Option EvtPtr) : Same s (s.setIachildren x c) :=
  same_set s x _ rfl

theorem relink_same (links : Links EvtPtr) : Same s (s.relink links) :=
  ⟨rfl, rfl, fun _ => rfl⟩

/-! The three fields after each of these stores. -/

theorem set_node (x y : EvtPtr) (evt : Evt) : (s.set x evt).node y = if y = x then evt else s.node y := by
  simp [State.set, update_apply]

end

/-- A field that the store writes back as it was. -/
theorem set_kept {β : Type} {s : State} {x : EvtPtr} {evt : Evt} (field : Evt → β)
    (kept : field evt = field (s.node x)) (y : EvtPtr) : field ((s.set x evt).node y) = field (s.node y) := by
  rw [set_node]
  split
  next eq => rw [eq, kept]
  · rfl

section Fields

variable (s : State) (x y : EvtPtr) (b : Bool) (c : Option EvtPtr)

@[simp] theorem mark_triggered : ((s.mark x b).node y).triggered = if y = x then b else (s.node y).triggered := by
  rw [State.mark, set_node]
  split <;> rfl

@[simp] theorem mark_tchildren : ((s.mark x b).node y).tchildren = (s.node y).tchildren :=
  set_kept Evt.tchildren (by rfl) y

@[simp] theorem mark_iachildren : ((s.mark x b).node y).iachildren = (s.node y).iachildren :=
  set_kept Evt.iachildren (by rfl) y

@[simp] theorem mark_live : (s.mark x b).live = s.live := rfl

@[simp] theorem setTchildren_triggered : ((s.setTchildren x c).node y).triggered = (s.node y).triggered :=
  set_kept Evt.triggered (by rfl) y

@[simp] theorem setTchildren_tchildren :
    ((s.setTchildren x c).node y).tchildren = if y = x then c else (s.node y).tchildren := by
  rw [State.setTchildren, set_node]
  split <;> rfl

@[simp] theorem setTchildren_iachildren : ((s.setTchildren x c).node y).iachildren = (s.node y).iachildren :=
  set_kept Evt.iachildren (by rfl) y

@[simp] theorem setTchildren_live : (s.setTchildren x c).live = s.live := rfl

@[simp] theorem setIachildren_triggered : ((s.setIachildren x c).node y).triggered = (s.node y).triggered :=
  set_kept Evt.triggered (by rfl) y

@[simp] theorem setIachildren_tchildren : ((s.setIachildren x c).node y).tchildren = (s.node y).tchildren :=
  set_kept Evt.tchildren (by rfl) y

@[simp] theorem setIachildren_iachildren :
    ((s.setIachildren x c).node y).iachildren = if y = x then c else (s.node y).iachildren := by
  rw [State.setIachildren, set_node]
  split <;> rfl

end Fields

@[simp] theorem relink_live (s : State) (links : Links EvtPtr) : (s.relink links).live = s.live := rfl

@[simp] theorem relink_node (s : State) (links : Links EvtPtr) : (s.relink links).node = s.node := rfl

/-- The marks, and which inactive child comes first, do not matter. -/
theorem Rings.congr (h : Rings s T) (links : s'.links = s.links)
    (head : ∀ g, (s'.node g).tchildren = (s.node g).tchildren) (groups : EventRings.grp s' = EventRings.grp s)
    (live : s'.live = s.live) (inactive : ∀ g x, (s'.node g).iachildren = some x → x ∈ s.live) : Rings s' T := by
  refine ⟨links ▸ h.linked, fun g => links ▸ h.ring g, fun g => (head g).trans (h.head g), ?_, ?_,
    fun g x first => live ▸ inactive g x first⟩
  · intro g x inside
    rw [groups]
    exact h.child g x inside
  · intro x outside
    rw [groups, links]
    exact h.dead x (live ▸ outside)

theorem Rings.live (h : Rings s T) (up : EventRings.grp s x = some p) : x ∈ s.live := by
  by_contra outside
  rw [(h.dead x outside).1] at up
  contradiction

theorem Rings.mark (h : Rings s T) (x : EvtPtr) (b : Bool) : Rings (s.mark x b) T :=
  h.congr rfl (by simp) (mark_same s x b).grp rfl (by simpa using h.inactive)

theorem Rings.unlisted (h : Rings s T) (up : grp s x = some p) {g : EvtPtr} (other : g ≠ p) : x ∉ T g := by
  intro inside
  have listed := h.child g x inside
  rw [up] at listed
  exact other (some.inj listed).symm

/-- The ring of one group is replaced. -/
theorem Rings.replace {l : List EvtPtr} (h : Rings s T) (same : Same s s') (linked : Linked s'.links)
    (ring : IsRing s'.links l) (others : ∀ g ≠ p, IsRing s'.links (T g))
    (head : ∀ g, (s'.node g).tchildren = if g = p then l.head? else (s.node g).tchildren)
    (child : ∀ y ∈ l, grp s y = some p) (dead : ∀ z ∉ s.live, s'.links.next z = z)
    (inactive : ∀ g, (s'.node g).iachildren = (s.node g).iachildren) : Rings s' (update T p l) := by
  refine ⟨linked, fun g => ?_, fun g => ?_, fun g y inside => ?_, fun z outside => ?_, fun g x first => ?_⟩
  · rw [update_apply]
    split
    · exact ring
    next other => exact others g other
  · rw [head, update_apply]
    split
    · rfl
    · exact h.head g
  · rw [same.grp]
    rw [update_apply] at inside
    split at inside
    next eq => exact eq ▸ child y inside
    · exact h.child g y inside
  · rw [same.live] at outside
    rw [same.grp]
    exact ⟨(h.dead z outside).1, dead z outside⟩
  · rw [inactive] at first
    exact same.live ▸ h.inactive g x first

/-- What is left when a child of `p` is unlinked. -/
theorem Rings.rem (h : Rings s T) (up : grp s x = some p) :
    (∀ g ≠ p, IsRing (s.links.rem x) (T g)) ∧ ∀ z ∉ s.live, (s.links.rem x).next z = z :=
  ⟨fun g other => isRing_rem_other h.linked (h.ring g) (h.unlisted up other),
    fun z dead => rem_dead h.linked (ne_of_mem_of_not_mem (h.live up) dead).symm (h.dead z dead).2⟩

/-! ## Becoming inactive -/

theorem addInactive_same (s : State) (g x : EvtPtr) : Same s (addInactive s g x) := by
  unfold addInactive
  split
  · exact relink_same s _
  · exact setIachildren_same s g _

@[simp] theorem addInactive_triggered (s : State) (g x y : EvtPtr) :
    ((addInactive s g x).node y).triggered = (s.node y).triggered := by
  unfold addInactive
  split <;> simp

/-- A node outside all triggered rings is added next to itself or to another one outside them. -/
theorem addInactive_rings (h : Rings s T) (live : x ∈ s.live) (alone : s.links.next x = x) (off : ∀ g, x ∉ T g)
    (inactive : ∀ y, (s.node g).iachildren = some y → y = x ∨ ∀ g', y ∉ T g') : Rings (addInactive s g x) T := by
  unfold addInactive
  split
  next y first =>
    by_cases eq : x = y
    · subst eq
      rw [add_self h.linked alone]
      exact h
    have outside := (inactive y first).resolve_left (Ne.symm eq)
    refine ⟨add_linked h.linked alone eq, fun g => isRing_add_other (h.ring g) (outside g) (off g),
      h.head, h.child, ?_, h.inactive⟩
    intro z dead
    have notX := (ne_of_mem_of_not_mem live dead).symm
    have notY := (ne_of_mem_of_not_mem (h.inactive g y first) dead).symm
    exact ⟨(h.dead z dead).1, add_dead notX notY (h.dead z dead).2⟩
  · refine h.congr rfl (by simp) (setIachildren_same s g _).grp rfl ?_
    intro g' y first
    rw [setIachildren_iachildren] at first
    split at first
    · exact some.inj first ▸ live
    · exact h.inactive g' y first

/-! ## One pass of `__evt_trigger` -/

theorem triggerOne_same (s : State) (x : EvtPtr) : Same s (triggerOne s x) := by
  unfold triggerOne
  simp only
  split
  · exact mark_same s x true
  · have before := (mark_same s x true).trans (relink_same _ ((s.mark x true).links.rem x))
    split
    · exact before.trans (setTchildren_same ..)
    · exact before.trans (relink_same ..)

theorem triggerOne_iachildren (s : State) (x y : EvtPtr) :
    ((triggerOne s x).node y).iachildren = (s.node y).iachildren := by
  unfold triggerOne
  simp only
  split
  · simp
  · split <;> simp

theorem triggerOne_eq (up : grp s x = some p) : triggerOne s x = match (s.node p).tchildren with
    | none => ((s.mark x true).relink (s.links.rem x)).setTchildren p (some x)
    | some h => (s.mark x true).relink ((s.links.rem x).add ((s.links.rem x).prev h) x) := by
  have upMarked : ((s.mark x true).node x).grp = some p := (congrFun (mark_same s x true).grp x).trans up
  simp only [triggerOne, upMarked, relink_node, mark_tchildren]
  rfl

variable {rest : List EvtPtr}

/-- Unlinking `x` and linking it in at the end of the ring of `p`. -/
theorem relast_ring {L : Links EvtPtr} {first : EvtPtr} (linked : Linked L) (ring : IsRing L (first :: rest))
    (ok : x ∈ first :: rest → (first :: rest).getLast? = some x) : Linked ((L.rem x).add ((L.rem x).prev first) x) ∧
      IsRing ((L.rem x).add ((L.rem x).prev first) x) (addLast x (first :: rest)) ∧
      ((L.rem x).prev first = x ∨ (L.rem x).prev first ∈ first :: rest) := by
  have linked' := rem_linked linked x
  have alone := rem_alone linked x
  by_cases listed : x ∈ first :: rest
  · rw [addLast, if_pos listed]
    obtain ⟨front, eq⟩ := List.getLast?_eq_some_iff.mp (ok listed)
    cases front with
    | nil =>
      obtain ⟨rfl, rfl⟩ : first = x ∧ rest = [] := by simpa using eq
      have back := linked'.prev_eq_iff.mpr alone
      rw [back, add_self linked' alone]
      exact ⟨linked', isRing_singleton.mpr alone, .inl rfl⟩
    | cons f front =>
      obtain ⟨rfl, rfl⟩ : first = f ∧ rest = front ++ [x] := by simpa using eq
      have whole : IsRing L ((first :: front) ++ x :: []) := ring
      have left : IsRing (L.rem x) (first :: front) := by simpa using isRing_rem linked whole
      have off : x ∉ first :: front := by
        have nodup := isRing_nodup ring
        intro again
        exact (nodup_append.mp nodup).2.2 x again x (mem_singleton_self x) rfl
      have last := mem_of_getLast? (isRing_prev_first linked' left)
      refine ⟨add_linked linked' alone fun eq => off (eq ▸ last), isRing_add_end linked' left off, ?_⟩
      exact .inr (by simpa using mem_append_left [x] last)
  · rw [addLast, if_neg listed]
    have left := isRing_rem_other linked ring listed
    have last := mem_of_getLast? (isRing_prev_first linked' left)
    exact ⟨add_linked linked' alone fun eq => listed (eq ▸ last), isRing_add_end linked' left listed, .inr last⟩

/-- An event that is not listed yet, or is listed last, ends up last. -/
theorem triggerOne_rings (h : Rings s T) (up : grp s x = some p) (ok : x ∈ T p → (T p).getLast? = some x) :
    Rings (triggerOne s x) (update T p (addLast x (T p))) := by
  have same := triggerOne_same s x
  have child : ∀ y ∈ addLast x (T p), grp s y = some p := by
    intro y inside
    rw [addLast] at inside
    split at inside
    · exact h.child p y inside
    · rcases mem_append.mp inside with inside | inside
      · exact h.child p y inside
      · exact mem_singleton.mp inside ▸ up
  obtain ⟨others, removed⟩ := h.rem up
  have head := h.head p
  have eq := triggerOne_eq up
  cases list : T p with
  | nil =>
    have single : addLast x ([] : List EvtPtr) = [x] := by simp [addLast]
    rw [list, single] at child
    rw [list] at head
    rw [head] at eq
    rw [single]
    rw [eq] at same ⊢
    exact h.replace same (rem_linked h.linked x) (isRing_singleton.mpr (rem_alone h.linked x)) others (by simp) child
      removed (by simp)
  | cons first rest =>
    rw [list] at child head ok
    rw [head] at eq
    obtain ⟨linked, ring, last⟩ := relast_ring h.linked (list ▸ h.ring p) ok
    have end_ : (s.links.rem x).prev first ∈ x :: T p := by simpa [list] using last
    have above : grp s ((s.links.rem x).prev first) = some p := by
      rcases mem_cons.mp end_ with same | inside
      · rw [same, up]
      · exact h.child p _ inside
    have front : (addLast x (first :: rest)).head? = some first := by
      unfold addLast
      split <;> simp
    rw [eq] at same ⊢
    refine h.replace same linked ring ?_ ?_ child ?_ (by simp)
    · exact fun g other => isRing_add_other (others g other) (h.unlisted above other) (h.unlisted up other)
    · intro g
      by_cases eq : g = p
      · simp [eq, head, front]
      · simp [eq]
    · intro z dead
      have notX := (ne_of_mem_of_not_mem (h.live up) dead).symm
      exact add_dead notX (ne_of_mem_of_not_mem (h.live above) dead).symm (removed z dead)

/-! ## The loop of `__evt_trigger` -/

variable {parent : EvtPtr → Option EvtPtr} {chain : EvtPtr → List EvtPtr} {ups : List EvtPtr} {fuel : Nat}

theorem triggerUp_rings (ancestry : Ancestry parent chain) (climb : Climb parent x ups) (parents : grp s = parent)
    (h : Rings s T) (ok : PushOk x ups T) (enough : ups.length < fuel) (t : Option EvtPtr) :
    ∃ s' t', triggerUp fuel s x t = some (s', some t') ∧ (t' ∈ x :: ups ∨ t = some t') ∧
      Rings s' (pushAlong x ups T) ∧ Same s s' ∧
      ∀ y, (s'.node y).triggered = if y ∈ x :: ups then true else (s.node y).triggered := by
  induction climb generalizing s T fuel t with
  | @top x top =>
    obtain ⟨fuel, rfl⟩ : ∃ n, fuel = n + 1 := ⟨fuel - 1, by omega⟩
    have root := parents ▸ top
    have rootMarked : ((s.mark x true).node x).grp = none := (congrFun (mark_same s x true).grp x).trans root
    have eq : triggerOne s x = s.mark x true := by
      simp [triggerOne, rootMarked]
    have found : ∃ t', (if t.isNone && (((s.mark x true).node x).blocked ||
        ((s.mark x true).node x).grp.isNone) then some x else t) = some t' ∧
        (t' ∈ [x] ∨ t = some t') := by
      cases t with
      | none => exact ⟨x, by simp [rootMarked]⟩
      | some t => exact ⟨t, by simp⟩
    obtain ⟨t', found, place⟩ := found
    refine ⟨s.mark x true, t', ?_, place, ?_, mark_same s x true, by simp⟩
    · simp only [triggerUp, eq, found]
      simp [rootMarked]
    · exact h.mark x true
  | @up x g ups up climb ih =>
    obtain ⟨fuel, rfl⟩ : ∃ n, fuel = n + 1 := ⟨fuel - 1, by omega⟩
    have upS := parents ▸ up
    have same := triggerOne_same s x
    have upOne : ((triggerOne s x).node x).grp = some g := (congrFun same.grp x).trans upS
    have later : ∀ u ∈ ups, update T g (addLast x (T g)) u = T u := fun u mem =>
      update_of_ne (ne_of_mem_of_not_mem mem (climb.fresh ancestry)) ..
    obtain ⟨s', t', run, place, rings, same', triggered⟩ := ih (same.grp.trans parents)
      (triggerOne_rings h upS ok.1) (pushOk_congr ok.2 later) (by simpa using enough)
      (if t.isNone && (((triggerOne s x).node x).blocked || ((triggerOne s x).node x).grp.isNone) then some x else t)
    refine ⟨s', t', ?_, ?_, rings, same.trans same', ?_⟩
    · rw [triggerUp]
      simp only [upOne] at run ⊢
      exact run
    · rcases place with above | given
      · exact .inl (mem_cons_of_mem x above)
      · split at given
        · exact .inl (some.inj given ▸ mem_cons_self)
        · exact .inr given
    · intro y
      have one : ((triggerOne s x).node y).triggered = if y = x then true else (s.node y).triggered := by
        unfold triggerOne
        simp only
        split
        · simp
        · split <;> simp
      rw [triggered, one]
      by_cases eq : y = x <;> simp [eq]

/-! ## The loop of `__evt_wait` -/

/-- What is taken for inactive, at every group that changes, is not in a triggered ring. -/
def InactiveOk (s : State) : EvtPtr → List EvtPtr → (EvtPtr → List EvtPtr) → Prop
  | _, [], _ => True
  | x, g :: up, T => (∀ y, (s.node g).iachildren = some y → y = x ∨ ∀ g', y ∉ T g') ∧
      ((T g).tail = [] → InactiveOk s g up T)

theorem inactiveOk_congr {T' : EvtPtr → List EvtPtr} (ok : InactiveOk s x ups T)
    (inactive : ∀ g ∈ ups, (s'.node g).iachildren = (s.node g).iachildren)
    (lists : ∀ g ∈ ups, T' g = T g) (fewer : ∀ g y, y ∈ T' g → y ∈ T g) : InactiveOk s' x ups T' := by
  induction ups generalizing x with
  | nil => trivial
  | cons u ups ih =>
    refine ⟨?_, ?_⟩
    · intro y first
      rw [inactive u mem_cons_self] at first
      exact (ok.1 y first).imp_right fun outside g inside => outside g (fewer g y inside)
    · intro last
      rw [lists u mem_cons_self] at last
      exact ih (ok.2 last) (fun g mem => inactive g (mem_cons_of_mem u mem))
        fun g mem => lists g (mem_cons_of_mem u mem)

theorem unlinkHead_fewer (list : T g = x :: rest) (g' y : EvtPtr) (inside : y ∈ update T g rest g') : y ∈ T g' := by
  by_cases eq : g' = g
  · subst eq
    rw [update_self] at inside
    exact list ▸ mem_cons_of_mem x inside
  · rwa [update_of_ne eq] at inside

/-- The head of a triggered ring is unlinked. -/
theorem unlinkHead_rings (h : Rings s T) (list : T g = x :: rest) :
    Rings ((s.relink (s.links.rem x)).setTchildren g rest.head?) (update T g rest) := by
  have up := h.child g x (list ▸ mem_cons_self)
  have same := (relink_same s (s.links.rem x)).trans (setTchildren_same _ g rest.head?)
  have whole : IsRing s.links ([] ++ x :: rest) := list ▸ h.ring g
  exact h.replace same (rem_linked h.linked x) (isRing_rem h.linked whole) (h.rem up).1 (by simp)
    (fun y inside => h.child g y (list ▸ mem_cons_of_mem x inside)) (h.rem up).2 (by simp)

theorem unlinkHead_off (h : Rings s T) (list : T g = x :: rest) (g' : EvtPtr) : x ∉ update T g rest g' := by
  have up := h.child g x (list ▸ mem_cons_self)
  by_cases eq : g' = g
  · subst eq
    rw [update_self]
    exact (nodup_cons.mp (isRing_nodup (list ▸ h.ring g'))).1
  · rw [update_of_ne eq]
    exact h.unlisted up eq

theorem waitUp_rings (ancestry : Ancestry parent chain) (climb : Climb parent x ups) (parents : grp s = parent)
    (h : Rings s T) (ok : PopOk x ups T) (inactive : InactiveOk s x ups T) (enough : ups.length < fuel) :
    ∃ s', waitUp fuel s (parent x) = some s' ∧ Rings s' (popAlong ups T) ∧ Same s s' ∧
      ∀ y, (s'.node y).triggered = (s.node y).triggered ∧ (popAlong ups T y = [] → T y = []) ∨
        y ∈ ups ∧ (s'.node y).triggered = false ∧ popAlong ups T y = [] := by
  induction climb generalizing s T fuel with
  | @top x top =>
    refine ⟨s, ?_, h, Same.refl s, fun y => .inl ⟨rfl, id⟩⟩
    rw [top]
    unfold waitUp
    rfl
  | @up x g ups up climb ih =>
    obtain ⟨fuel, rfl⟩ : ∃ n, fuel = n + 1 := ⟨fuel - 1, by omega⟩
    obtain ⟨rest, list⟩ := List.head?_eq_some_iff.mp ok.1
    have head : (s.node g).tchildren = some x := by rw [h.head, list]; rfl
    have unlinked := unlinkHead_rings h list
    have fewer := unlinkHead_fewer list
    have off := unlinkHead_off h list
    have alone := rem_alone h.linked x
    have apart : ∀ y, (s.node g).iachildren = some y → y = x ∨ ∀ g', y ∉ update T g rest g' := by
      intro y first
      exact (inactive.1 y first).imp_right fun outside g' inside => outside g' (fewer g' y inside)
    have ring := list ▸ h.ring g
    have live : x ∈ s.live := h.live (parents ▸ up)
    rw [up]
    cases rest with
    | nil =>
      have single := isRing_singleton.mp ring
      let s1 := ((s.relink (s.links.rem x)).setTchildren g none).mark g false
      have same1 : Same s s1 := ((relink_same s _).trans (setTchildren_same _ g none)).trans (mark_same _ g false)
      have rings1 := unlinked.mark g false
      have rings2 := addInactive_rings rings1 live alone off (by simpa [s1] using apart)
      have same2 := same1.trans (addInactive_same s1 g x)
      have later : ∀ u ∈ ups, u ≠ g := fun u mem => ne_of_mem_of_not_mem mem (climb.fresh ancestry)
      have lists : ∀ u ∈ ups, update T g [] u = T u := fun u mem => update_of_ne (later u mem) ..
      have tail : (T g).tail = [] := by rw [list]; rfl
      obtain ⟨s', run, rings, same, triggered⟩ := ih (same2.grp.trans parents) rings2
        (popOk_congr (ok.2 tail) lists)
        (inactiveOk_congr (inactive.2 tail) (by
          intro u mem
          unfold addInactive
          split <;> simp [later u mem, s1]) lists fewer)
        (by simpa using enough)
      have upG : ((addInactive s1 g x).node g).grp = parent g := congrFun (same2.grp.trans parents) g
      have pops : popAlong (g :: ups) T = popAlong ups (update T g []) := by
        rw [popAlong, if_pos tail]
      refine ⟨s', ?_, pops ▸ rings, same2.trans same, ?_⟩
      · simp only [waitUp, head, single, if_true]
        rw [← run, ← upG]
      intro y
      rw [pops]
      rcases triggered y with ⟨unchanged, kept⟩ | ⟨mem, cleared, empty⟩
      · by_cases eq : y = g
        · subst eq
          right
          refine ⟨mem_cons_self, by simpa [s1] using unchanged, ?_⟩
          rw [popAlong_off (climb.fresh ancestry), update_self]
        · left
          rw [update_of_ne eq] at kept
          exact ⟨by simpa [s1, eq] using unchanged, kept⟩
      · exact .inr ⟨mem_cons_of_mem g mem, cleared, empty⟩
    | cons z rest =>
      obtain ⟨nodup, next, _⟩ := ring
      have other : z ≠ x := by
        rintro rfl
        simp at nodup
      let s1 := (s.relink (s.links.rem x)).setTchildren g (some z)
      have same1 : Same s s1 := (relink_same s _).trans (setTchildren_same _ g (some z))
      have rings2 := addInactive_rings unlinked live alone off (by simpa [s1] using apart)
      have pops : popAlong (g :: ups) T = update T g (z :: rest) := by
        rw [popAlong, if_neg (by simp [list]), list, tail_cons]
      refine ⟨addInactive s1 g x, ?_, pops ▸ rings2, same1.trans (addInactive_same s1 g x), ?_⟩
      · simp only [waitUp, head, next, if_neg other]
        rfl
      intro y
      left
      refine ⟨by simp [s1], ?_⟩
      rw [pops]
      by_cases eq : y = g
      · simp [eq]
      · rw [update_of_ne eq]
        exact id

end SuperGlue.Guarantees.EventRings
