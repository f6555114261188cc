import SuperGlue.Guarantees.EventRings
import SuperGlue.Source.Event.Service

/-!
# The event component as a forest

What the component knows about an event that outlives triggering and waiting: its kind, its group and
its creator. `evt_split` adds one such description, and nothing else changes them.
-/
namespace SuperGlue.Guarantees.EventForest
open Prod Finset Function Option Lib.FiniteMap Lib.Slots Source.Event.Groups EventRings

structure Desc where
  type : EvtType
  group : Option Eid
  creator : SpdId
  deriving DecidableEq, Repr

def descOf (s : State) (x : EvtPtr) : Desc :=
  ⟨(s.node x).type, (s.node x).grp.map fun p => (s.node p).eid, (s.node x).creator⟩

def describe (s : State) (id : Eid) : Option Desc := (s.map id).map (descOf s)

/-- Ids and groups lead to objects in use. -/
structure Named (s : State) : Prop where
  event : ∀ id x, s.map id = some x → x ∈ s.live ∧ (s.node x).eid = id
  group : ∀ x p, x ∈ s.live → (s.node x).grp = some p → p ∈ s.live

variable {s s' : State}

theorem named_init : Named init := ⟨nofun, nofun⟩

/-- Nothing that a description uses has changed. -/
structure Keeps (s s' : State) : Prop where
  live : s'.live = s.live
  map : s'.map = s.map
  type : ∀ x, (s'.node x).type = (s.node x).type
  grp : ∀ x, (s'.node x).grp = (s.node x).grp
  eid : ∀ x, (s'.node x).eid = (s.node x).eid
  creator : ∀ x, (s'.node x).creator = (s.node x).creator

theorem Keeps.refl (s : State) : Keeps s s :=
  ⟨rfl, rfl, fun _ => rfl, fun _ => rfl, fun _ => rfl, fun _ => rfl⟩

theorem Keeps.trans {s'' : State} (h : Keeps s s') (k : Keeps s' s'') : Keeps s s'' :=
  ⟨k.live.trans h.live, k.map.trans h.map, fun x => (k.type x).trans (h.type x),
    fun x => (k.grp x).trans (h.grp x), fun x => (k.eid x).trans (h.eid x),
    fun x => (k.creator x).trans (h.creator x)⟩

theorem keeps_of_same (same : Same s s') : Keeps s s' := by
  have eq := same.node
  simp only [core, Evt.mk.injEq] at eq
  exact ⟨same.live, same.map, fun x => (eq x).1, fun x => (eq x).2.2.2.2.1, fun x => (eq x).2.2.2.1,
    fun x => (eq x).2.2.2.2.2.2.2.2⟩

/-- Blocking and waking a thread. -/
theorem keeps_thread (s : State) (x : EvtPtr) (blocked : Bool) (bthd : ThdId) :
    Keeps s (s.set x { s.node x with blocked, bthd }) := by
  refine ⟨rfl, rfl, ?_, ?_, ?_, ?_⟩ <;>
  · intro y
    by_cases same : y = x
    · subst same
      simp [State.set]
    · simp [State.set, same]

theorem Keeps.describe (h : Keeps s s') : describe s' = describe s := by
  have eid := funext h.eid
  have desc : descOf s' = descOf s := by
    funext x
    rw [descOf, descOf, h.type, h.grp, h.creator, eid]
  funext id
  rw [EventForest.describe, EventForest.describe, h.map, desc]

theorem Keeps.named (h : Keeps s s') (named : Named s) : Named s' where
  event := by
    intro id x found
    rw [h.map] at found
    rw [h.live, h.eid]
    exact named.event id x found
  group := by
    intro x p live up
    rw [h.live] at live ⊢
    rw [h.grp] at up
    exact named.group x p live up

/-! ## Triggering and waiting -/

theorem triggerUp_same {fuel : Nat} {g : EvtPtr} {t t' : Option EvtPtr}
    (run : triggerUp fuel s g t = some (s', t')) : Same s s' := by
  induction fuel generalizing s g t with
  | zero => nomatch run
  | succ fuel ih =>
    simp only [triggerUp] at run
    split at run
    · cases run
      exact triggerOne_same s g
    · exact (triggerOne_same s g).trans (ih run)

theorem waitUp_same {fuel : Nat} {g : Option EvtPtr} (run : waitUp fuel s g = some s') : Same s s' := by
  induction fuel generalizing s g with
  | zero =>
    cases g with
    | none =>
      cases run
      exact Same.refl _
    | some => nomatch run
  | succ fuel ih =>
    cases g with
    | none =>
      cases run
      exact Same.refl _
    | some =>
      simp only [waitUp] at run
      split at run
      · contradiction
      split at run
      · refine Same.trans ?_ (ih run)
        exact (((relink_same s _).trans (setTchildren_same _ _ _)).trans (mark_same _ _ _)).trans
          (addInactive_same _ _ _)
      · cases run
        exact ((relink_same s _).trans (setTchildren_same _ _ _)).trans (addInactive_same _ _ _)

variable {ret : Int}

theorem triggerWake_keeps {t : EvtPtr} (run : triggerWake s t = some (s', ret)) : Keeps s s' := by
  have marked := keeps_of_same (mark_same s t true)
  simp only [triggerWake] at run
  split at run
  · split at run
    · contradiction
    · obtain ⟨rfl, -⟩ := mk.inj (some.inj run)
      exact marked.trans (keeps_thread _ t false 0)
  · split at run
    · contradiction
    · obtain ⟨rfl, -⟩ := mk.inj (some.inj run)
      exact marked

variable {eid : Eid}

theorem evtTrigger_keeps (run : evtTrigger s eid = some (s', ret)) : Keeps s s' := by
  simp only [evtTrigger] at run
  split at run
  · contradiction
  split at run
  · cases run
    exact Keeps.refl _
  split at run
  · cases run
    exact Keeps.refl _
  · obtain ⟨⟨s1, t⟩, up, run⟩ := bind_eq_some_iff.mp run
    obtain ⟨woken, -, run⟩ := bind_eq_some_iff.mp run
    exact (keeps_of_same (triggerUp_same up)).trans (triggerWake_keeps run)

variable {spdid : SpdId}

theorem evtWait_keeps {thd : ThdId} (run : evtWait s spdid eid thd = some (s', ret)) : Keeps s s' := by
  simp only [evtWait] at run
  split at run
  · contradiction
  split at run
  · cases run
    exact Keeps.refl _
  rename_i e _
  split at run
  · cases run
    exact Keeps.refl _
  split at run
  · cases run
    exact Keeps.refl _
  split at run
  · contradiction
  split at run
  · obtain ⟨rfl, -⟩ := mk.inj (some.inj run)
    exact keeps_thread s e true thd
  · obtain ⟨t, -, run⟩ := bind_eq_some_iff.mp run
    obtain ⟨s1, up, run⟩ := map_eq_some_iff.mp run
    obtain ⟨rfl, -⟩ := mk.inj run
    exact keeps_of_same ((mark_same s t false).trans (waitUp_same up))

/-! ## Splitting -/

/-- The state in which `__evt_alloc` has made its event but has not entered it into the map. -/
def allocated (s : State) (type : EvtType) (p : Option EvtPtr) (spdid : SpdId) (e : EvtPtr) (ns : Int) : State :=
  let s := joinParent (newEvt s type p spdid e) p e
  s.set e { s.node e with eid := ns }

/-- A new object with its description, and everything else as before. -/
structure Made (s s' : State) (type : EvtType) (p : Option EvtPtr) (spdid : SpdId) (e : EvtPtr) (ns : Int) :
    Prop where
  live : s'.live = insert e s.live
  map : s'.map = s.map
  new : (s'.node e).type = type ∧ (s'.node e).grp = p ∧ (s'.node e).eid = ns ∧ (s'.node e).creator = spdid
  old : ∀ x, x ≠ e → (s'.node x).type = (s.node x).type ∧ (s'.node x).grp = (s.node x).grp ∧
    (s'.node x).eid = (s.node x).eid ∧ (s'.node x).creator = (s.node x).creator

theorem joinParent_keeps (s : State) (p : Option EvtPtr) (e : EvtPtr) : Keeps s (joinParent s p e) := by
  cases p with
  | none => exact Keeps.refl s
  | some p => exact keeps_of_same (addInactive_same s p e)

theorem allocated_made (s : State) (type : EvtType) (p : Option EvtPtr) (spdid : SpdId) (e : EvtPtr)
    (ns : Int) : Made s (allocated s type p spdid e ns) type p spdid e ns := by
  have joined := joinParent_keeps (newEvt s type p spdid e) p e
  have node : ∀ y, (newEvt s type p spdid e).node y =
      if y = e then { blank with type, grp := p, creator := spdid } else s.node y := by
    intro y
    simp [newEvt, State.set, update_apply]
  refine ⟨joined.live, joined.map, ?_, ?_⟩
  · simp only [allocated, State.set, update_self]
    rw [joined.type, joined.grp, joined.creator, node, if_pos rfl]
    exact ⟨rfl, rfl, trivial, rfl⟩
  · intro x ne
    simp only [allocated, State.set, update_of_ne ne]
    rw [joined.type, joined.grp, joined.eid, joined.creator, node, if_neg ne]
    exact ⟨rfl, rfl, rfl, rfl⟩

section Made

variable {type : EvtType} {p : Option EvtPtr} {spdid : SpdId} {e : EvtPtr} {ns : Int}

section

variable (h : Made s s' type p spdid e ns) (before : Named s) (fresh : e ∉ s.live)
include h before fresh

/-- Objects in use keep their descriptions. -/
theorem Made.descOf {x : EvtPtr} (live : x ∈ s.live) :
    descOf s' x = descOf s x := by
  have ne : x ≠ e := fun same => fresh (same ▸ live)
  obtain ⟨type, grp, -, creator⟩ := h.old x ne
  rw [EventForest.descOf, EventForest.descOf, type, grp, creator]
  congr 1
  apply Option.map_congr
  intro g up
  have inside := before.group x g live up
  exact (h.old g fun same => fresh (same ▸ inside)).2.2.1

theorem Made.describe : describe s' = describe s := by
  funext id
  rw [EventForest.describe, EventForest.describe, h.map]
  exact map_congr fun x found => h.descOf before fresh (before.event id x found).1

theorem Made.named (below : ∀ g, p = some g → g ∈ s.live) : Named s' where
  event := by
    intro id x found
    rw [h.map] at found
    obtain ⟨live, eid⟩ := before.event id x found
    have ne : x ≠ e := fun same => fresh (same ▸ live)
    rw [h.live, (h.old x ne).2.2.1]
    exact ⟨mem_insert_of_mem live, eid⟩
  group := by
    intro x g live up
    rw [h.live] at live ⊢
    apply mem_insert_of_mem
    by_cases same : x = e
    · rw [same, h.new.2.1] at up
      exact below g up
    · rw [(h.old x same).2.1] at up
      exact before.group x g (mem_of_mem_insert_of_ne live same) up

/-- The map entry of the new event. -/
theorem Made.enter (below : ∀ g, p = some g → g ∈ s.live)
    (unused : s.map ns = none) :
    Named { s' with map := update s'.map ns (some e) } ∧
      EventForest.describe { s' with map := update s'.map ns (some e) } =
        update (EventForest.describe s) ns (some ⟨type, p.map fun g => (s.node g).eid, spdid⟩) := by
  have named' := h.named before fresh below
  constructor
  · refine ⟨?_, named'.group⟩
    intro id x found
    obtain ⟨rfl, rfl⟩ | ⟨-, found⟩ := update_known found
    · exact ⟨h.live ▸ mem_insert_self x s.live, h.new.2.2.1⟩
    · exact named'.event id x found
  · funext id
    by_cases same : id = ns
    · subst same
      simp only [EventForest.describe, update_self, map_some, some.injEq]
      obtain ⟨type, grp, -, creator⟩ := h.new
      rw [EventForest.descOf]
      simp only [type, grp, creator, Desc.mk.injEq, true_and, and_true]
      exact map_congr fun g up => (h.old g fun same => fresh (same ▸ below g up)).2.2.1
    · rw [← h.describe before fresh]
      simp only [EventForest.describe, update_of_ne same]
      rfl

end

end Made

/-- The root, or a group of the creator that the component knows. -/
def Under (s : State) (parent : Eid) (spdid : SpdId) : Prop :=
  parent ≠ 0 → 0 < parent ∧ ∃ d, describe s (slot parent) = some d ∧ d.type = .group ∧ d.creator = spdid

def groupOf (parent : Eid) : Option Eid := if parent = 0 then none else some (slot parent)

def typeOf (group : Bool) : EvtType := if group then .group else .normal

variable {e : EvtPtr} {ns : Int}

theorem evtAlloc_eq (type : EvtType) (p : Option EvtPtr) (spdid : SpdId) (fresh : e ∉ s.live) (pos : 0 < ns)
    (small : ns < cvectMaxId) (unused : s.map ns = none) : evtAlloc s type p spdid e ns true =
      some ({ allocated s type p spdid e ns with
        map := update (allocated s type p spdid e ns).map ns (some e) }, ns) := by
  have unused : (allocated s type p spdid e ns).map ns = none := by
    rw [(allocated_made s type p spdid e ns).map, unused]
  rw [evtAlloc, if_neg fresh]
  change (if ns ≤ 0 then _ else if cvectMaxId ≤ ns ∨ ((allocated s type p spdid e ns).map ns).isSome then _ else _) = _
  rw [if_neg (Int.not_le.mpr pos), unused, if_neg (by simpa using small)]
  rfl

variable {parent : Eid}

/-- A split below the root or a group gets its id, if that is not in use. -/
theorem evtSplit_creates (named : Named s) (under : Under s parent spdid) (group : Bool) (fresh : e ∉ s.live)
    (pos : 0 < ns) (small : ns < cvectMaxId) (unused : describe s ns = none) :
    ∃ s', evtSplit s spdid parent group (some e) ns true = some (s', ns) ∧ Named s' ∧
      describe s' = update (describe s) ns (some ⟨typeOf group, groupOf parent, spdid⟩) := by
  have unused := map_eq_none_iff.mp unused
  by_cases root : parent = 0
  · subst root
    obtain ⟨named', described⟩ := (allocated_made s (typeOf group) none spdid e ns).enter named fresh nofun unused
    exact ⟨_, evtAlloc_eq (typeOf group) none spdid fresh pos small unused, named', described⟩
  obtain ⟨posP, d, found, type, creator⟩ := under root
  obtain ⟨g, at_, rfl⟩ := map_eq_some_iff.mp found
  obtain ⟨live, eid⟩ := named.event _ g at_
  have below : ∀ g', some g = some g' → g' ∈ s.live := by
    intro g' same
    cases same
    exact live
  obtain ⟨named', described⟩ := (allocated_made s (typeOf group) (some g) spdid e ns).enter named fresh below unused
  have allowed : ¬ ((s.node g).creator ≠ spdid ∨ (s.node g).type ≠ .group) :=
    not_or_intro (not_not_intro creator) (not_not_intro type)
  refine ⟨_, ?_, named', ?_⟩
  · rw [evtSplit]
    simp only [if_neg root, if_neg posP.not_gt, at_, if_neg allowed]
    exact evtAlloc_eq (typeOf group) (some g) spdid fresh pos small unused
  · rw [described, groupOf, if_neg root, map_some, eid]

variable {page : Bool}

/-- What `__evt_alloc` does: without an id or a page the object stays in its group and is not entered. -/
theorem evtAlloc_effect (named : Named s) {type : EvtType} {p : Option EvtPtr}
    (below : ∀ g, p = some g → g ∈ s.live) (run : evtAlloc s type p spdid e ns page = some (s', ret)) :
    Named s' ∧ (ret < 0 ∧ describe s' = describe s ∨ 0 < ret ∧ ret = ns ∧ describe s ns = none ∧ describe s' =
      if page then update (describe s) ns (some ⟨type, p.map fun g => (s.node g).eid, spdid⟩) else describe s) := by
  have made := allocated_made s type p spdid e ns
  rw [evtAlloc] at run
  split at run
  · contradiction
  rename_i fresh
  change (if ns ≤ 0 then some (allocated s type p spdid e ns, enomem)
    else if cvectMaxId ≤ ns ∨ ((allocated s type p spdid e ns).map ns).isSome then none else some
      (if page then { allocated s type p spdid e ns with
        map := update (allocated s type p spdid e ns).map ns (some e) } else allocated s type p spdid e ns, ns)) =
    some (s', ret) at run
  split at run
  · cases run
    exact ⟨made.named named fresh below, .inl ⟨by decide, made.describe named fresh⟩⟩
  rename_i pos
  split at run
  · contradiction
  next unused =>
    have unused : s.map ns = none := by simpa [made.map] using (not_or.mp unused).2
    cases page with
    | false =>
      cases run
      exact ⟨made.named named fresh below,
        .inr ⟨Int.not_le.mp pos, rfl, map_eq_none_iff.mpr unused, made.describe named fresh⟩⟩
    | true =>
      cases run
      obtain ⟨named', described⟩ := made.enter named fresh below unused
      exact ⟨named', .inr ⟨Int.not_le.mp pos, rfl, map_eq_none_iff.mpr unused, described⟩⟩

/-- What any split does: it fails and no description changes, or it has a new id and, given a page, adds a
description under it. -/
theorem evtSplit_effect (named : Named s) {group : Bool} {slab : Option EvtPtr}
    (run : evtSplit s spdid parent group slab ns page = some (s', ret)) :
    Named s' ∧ (ret < 0 ∧ describe s' = describe s ∨ 0 < ret ∧ ret = ns ∧ Under s parent spdid ∧ describe s ns = none ∧
      describe s' = if page then update (describe s) ns (some ⟨typeOf group, groupOf parent, spdid⟩) else describe s) := by
  simp only [evtSplit] at run
  split at run
  next root =>
    subst root
    split at run
    · cases run
      exact ⟨named, .inl ⟨by decide, rfl⟩⟩
    · obtain ⟨named', failed | ⟨pos, same, unused, described⟩⟩ := evtAlloc_effect (p := none) named nofun run
      · exact ⟨named', .inl failed⟩
      · exact ⟨named', .inr ⟨pos, same, fun other => absurd rfl other, unused, described⟩⟩
  next inner =>
    split at run
    · contradiction
    rename_i nonneg
    split at run
    · cases run
      exact ⟨named, .inl ⟨by decide, rfl⟩⟩
    rename_i g at_
    obtain ⟨live, eid⟩ := named.event _ g at_
    split at run
    · cases run
      exact ⟨named, .inl ⟨by decide, rfl⟩⟩
    rename_i allowed
    obtain ⟨creator, type⟩ := not_or.mp allowed
    split at run
    · cases run
      exact ⟨named, .inl ⟨by decide, rfl⟩⟩
    have below : ∀ g', some g = some g' → g' ∈ s.live := by
      intro g' same
      cases same
      exact live
    obtain ⟨named', failed | ⟨pos, same, unused, described⟩⟩ := evtAlloc_effect named below run
    · exact ⟨named', .inl failed⟩
    refine ⟨named', .inr ⟨pos, same, ?_, unused, ?_⟩⟩
    · intro _
      exact ⟨lt_of_le_of_ne (not_lt.mp nonneg) (Ne.symm inner), descOf s g, map_eq_some_iff.mpr ⟨g, at_, rfl⟩, of_not_not type, of_not_not creator⟩
    · rw [described, groupOf, if_neg inner, map_some, eid]
      rfl

end SuperGlue.Guarantees.EventForest
