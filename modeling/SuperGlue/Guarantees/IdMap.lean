import SuperGlue.Lib.Transition
import SuperGlue.Source.CosMap.Map

/-!
# The growing id map keeps its values and its free list

Whatever array a slot is in, a store changes the value of one slot. Growing re-roots the vector and adds an
array, which changes no slot that is there. So the values and the free list, which is threaded through the
slots, are those of a plain array.
-/
namespace SuperGlue.Guarantees.IdMap
open Function (update update_apply update_of_ne update_self)
open List Option Lib.Transition Source.CosMap.Map

variable {v : Vect} {n id : Nat} {is : Nat × Nat} {x : Int} {root leaf : Option Nat}

/-! ## Vectors as plain arrays -/

/-- The value in a slot. -/
def content (v : Vect) (id : Nat) : Option Int := (v.lookup id).map fun is => v.val is.1 is.2

/-- The vector has `n` arrays of slots, and each slot is in a place of its own. -/
structure Shape (v : Vect) (n : Nat) : Prop where
  inside : ∀ id, (v.lookup id).isSome = true ↔ id < vectBase * n
  inj : ∀ id id' is, v.lookup id = some is → v.lookup id' = some is → id = id'
  apart : v.deep = true → ∀ id is, v.lookup id = some is → is.1 ≠ v.vect
  nonnull : v.vect ≠ 0
  single : v.deep = false → n = 1

variable (shape : Shape v n)
include shape

theorem Shape.slot (inside : id < vectBase * n) : ∃ is, v.lookup id = some is :=
  isSome_iff_exists.mp ((shape.inside id).mpr inside)

theorem write_lookup (slot : v.lookup id = some is) (x : Int) (id' : Nat) :
    (v.write is x).lookup id' = v.lookup id' := by
  cases deep : v.deep with
  | false => simp [Vect.lookup, Vect.write, deep]
  | true =>
    have kept : (v.write is x).val v.vect = v.val v.vect := update_of_ne (shape.apart deep id is slot).symm ..
    rw [Vect.lookup, show (v.write is x).vect = v.vect from rfl, kept]
    rfl

theorem write_spec (slot : v.lookup id = some is) (x : Int) :
    Shape (v.write is x) n ∧ ∀ id', content (v.write is x) id' = if id' = id then some x else content v id' := by
  have same := write_lookup shape slot x
  refine ⟨⟨?_, ?_, ?_, shape.nonnull, shape.single⟩, fun id' => ?_⟩
  · simpa only [same] using shape.inside
  · simpa only [same] using shape.inj
  · intro deep id' is' slot'
    exact shape.apart deep id' is' (same id' ▸ slot')
  rw [content, content, same]
  by_cases here : id' = id
  · rw [here, slot]
    simp [Vect.write]
  rw [if_neg here]
  cases slot' : v.lookup id' with
  | none => rfl
  | some is' =>
    have other : is' ≠ is := fun eq => here (shape.inj id' id is (eq ▸ slot') slot)
    simp only [map_some, Vect.write]
    by_cases node : is'.1 = is.1
    · rw [node, update_self, update_of_ne fun index => other (Prod.ext node index)]
    · rw [update_of_ne node]

theorem set_spec (id : Nat) (inside : id < vectBase * n) (x : Int) :
    ∃ v', v.set id x = some v' ∧ Shape v' n ∧ ∀ id', content v' id' = if id' = id then some x else content v id' := by
  obtain ⟨is, slot⟩ := shape.slot inside
  exact ⟨v.write is x, by rw [Vect.set, slot, map_some], write_spec shape slot x⟩

omit shape

/-- The two slots of an id are next to each other. -/
theorem lookup_next {i : Nat} (slot : v.lookup (2 * i) = some is) : v.lookup (2 * i + 1) = some (is.1, is.2 + 1) := by
  have quotient : (2 * i + 1) / vectBase = 2 * i / vectBase := by unfold vectBase; omega
  have rest : (2 * i + 1) % vectBase = 2 * i % vectBase + 1 := by unfold vectBase; omega
  unfold Vect.lookup at slot ⊢
  rw [quotient, rest]
  split at slot
  next deep =>
    obtain ⟨present, same⟩ := ite_none_left_eq_some.mp slot
    cases same
    rw [if_pos deep, if_neg present]
  next shallow =>
    obtain ⟨small, same⟩ := ite_none_left_eq_some.mp slot
    cases same
    rw [if_neg shallow, if_neg (by unfold vectBase at small ⊢; omega)]

/-! ## Growing -/

/-- An array that the vector does not have. -/
def Fresh (v : Vect) (is : Nat) : Prop :=
  is ≠ 0 ∧ is ≠ v.vect ∧ (v.deep = true → ∀ i < vectBase, v.val v.vect i ≠ is)

instance (v : Vect) (is : Nat) : Decidable (Fresh v is) := inferInstanceAs (Decidable (_ ∧ _))

theorem promote_spec {r : Nat} (shape : Shape v n) (shallow : v.deep = false) (fresh : Fresh v r) :
    Shape (v.promote r) n ∧ ∀ id, content (v.promote r) id = content v id := by
  have same : ∀ id, (v.promote r).lookup id = v.lookup id := by
    intro id
    simp only [Vect.lookup, Vect.promote, shallow, update_self, if_true, Bool.false_eq_true, if_false]
    by_cases small : vectBase ≤ id
    · rw [if_pos small, if_pos]
      by_cases first : vectBase ≤ id / vectBase
      · exact .inl first
      · exact .inr (if_neg (by unfold vectBase at small ⊢; omega))
    · have zero := Nat.div_eq_of_lt (Nat.not_le.mp small)
      have rest := Nat.mod_eq_of_lt (Nat.not_le.mp small)
      rw [if_neg small, zero, rest, if_pos rfl, if_neg (by simp [vectBase, shape.nonnull]), Int.toNat_natCast]
  have node : ∀ id is, v.lookup id = some is → is.1 = v.vect := by
    intro id is slot
    simp only [Vect.lookup, shallow] at slot
    obtain ⟨-, same⟩ := ite_none_left_eq_some.mp slot
    cases same
    rfl
  refine ⟨⟨?_, ?_, fun _ id is slot => ?_, fresh.1, nofun⟩, fun id => ?_⟩
  · simpa only [same] using shape.inside
  · simpa only [same] using shape.inj
  · rw [same] at slot
    rw [node id is slot]
    exact fresh.2.1.symm
  · rw [content, content, same]
    cases slot : v.lookup id with
    | none => rfl
    | some is =>
      have other : is.1 ≠ r := by
        rw [node id is slot]
        exact fresh.2.1.symm
      have kept : (v.promote r).val is.1 = v.val is.1 := update_of_ne other ..
      rw [map_some, map_some, kept]

theorem attach_spec {r : Nat} (shape : Shape v n) (deep : v.deep) (room : n < vectBase) (fresh : Fresh v r) :
    Shape (v.attach n r) (n + 1) ∧
      ∀ id, content (v.attach n r) id = if id / vectBase = n then some 0 else content v id := by
  obtain ⟨nonnull, notRoot, absent⟩ := fresh
  have root : ∀ i, (v.attach n r).val v.vect i = if i = n then (r : Int) else v.val v.vect i := by
    intro i
    simp [Vect.attach, Vect.write, update_apply, if_neg notRoot.symm]
  have cells : ∀ node, node ≠ v.vect → (v.attach n r).val node = if node = r then fun _ => 0 else v.val node := by
    intro node other
    exact (update_of_ne other ..).trans (update_apply ..)
  have places : ∀ id, (v.attach n r).lookup id =
      if id / vectBase = n then some (r, id % vectBase) else v.lookup id := by
    intro id
    rw [Vect.lookup, show (v.attach n r).vect = v.vect from rfl, show (v.attach n r).deep = true from deep, root]
    by_cases here : id / vectBase = n
    · have present : ¬ (vectBase ≤ id / vectBase ∨ (r : Int) = 0) := by omega
      rw [if_pos rfl, if_pos here, if_pos here, if_neg present, Int.toNat_natCast]
    · rw [if_pos rfl, if_neg here, if_neg here, Vect.lookup, if_pos deep]
  -- a slot that was there is in an array that was there
  have old : ∀ id is, v.lookup id = some is → is.1 ≠ r := by
    intro id is slot
    rw [Vect.lookup, if_pos deep] at slot
    obtain ⟨present, same⟩ := ite_none_left_eq_some.mp slot
    cases same
    have other := absent deep (id / vectBase) (Nat.not_le.mp fun high => present (.inl high))
    omega
  have inside : ∀ id, id / vectBase ≠ n → ((v.lookup id).isSome ↔ id < vectBase * (n + 1)) := by
    intro id other
    rw [shape.inside id]
    unfold vectBase at other ⊢
    omega
  refine ⟨⟨fun id => ?_, fun id id' is slot slot' => ?_, fun _ id is slot => ?_, shape.nonnull, ?_⟩, fun id => ?_⟩
  · rw [places]
    split
    next here =>
      unfold vectBase at here ⊢
      simp only [isSome_some, true_iff]
      omega
    next other => exact inside id other
  · rw [places] at slot slot'
    split at slot <;> split at slot'
    next here here' =>
      cases slot
      have rest := congrArg Prod.snd (some.inj slot')
      unfold vectBase at here here' rest
      omega
    · cases slot
      exact absurd rfl (old id' _ slot')
    · cases slot'
      exact absurd rfl (old id _ slot)
    · exact shape.inj id id' is slot slot'
  · rw [places] at slot
    split at slot
    · cases slot
      exact notRoot
    · exact shape.apart deep id is slot
  · exact fun shallow => absurd (deep.symm.trans shallow) (by decide)
  · rw [content, places]
    split
    · rw [map_some, cells r notRoot, if_pos rfl]
    · rw [content]
      cases slot : v.lookup id with
      | none => rfl
      | some is =>
        rw [map_some, map_some, cells is.1 (shape.apart deep id is slot), if_neg (old id is slot)]

/-- Answers of `COS_VECT_ALLOC` for a root and an array of slots. -/
def Available (v : Vect) (root leaf : Option Nat) : Prop :=
  (∀ is ∈ root, Fresh v is) ∧ (∀ is ∈ leaf, Fresh v is) ∧ (root = leaf → root = none)

instance (v : Vect) (root leaf : Option Nat) : Decidable (Available v root leaf) :=
  inferInstanceAs (Decidable (_ ∧ _))

/-- The vector is as before for all the slots that it had. -/
def Kept (v v' : Vect) (n n' : Nat) : Prop :=
  Shape v' n' ∧ ∀ id < vectBase * n, content v' id = content v id

theorem extend_spec (shape : Shape v n) (deep : v.deep) (room : n < vectBase) (leaf : Option Nat)
    (fresh : ∀ is ∈ leaf, Fresh v is) : ∃ v' grown, v.extend (vectBase * n) leaf = some (v', grown) ∧
      Kept v v' n (if grown then n + 1 else n) ∧ (grown = false → leaf = none) := by
  have place : vectBase * n / vectBase = n := Nat.mul_div_cancel_left n (by decide)
  have index : vectBase * n / vectBase % vectBase = n := by rw [place, Nat.mod_eq_of_lt room]
  unfold Vect.extend
  rw [if_neg (by simp [deep]), index]
  cases leaf with
  | none => exact ⟨v, false, rfl, ⟨shape, fun _ _ => rfl⟩, fun _ => rfl⟩
  | some r =>
    have empty : v.val v.vect n = 0 := by
      have outside : v.lookup (vectBase * n) = none := by
        rw [← not_isSome_iff_eq_none, shape.inside]
        exact Nat.lt_irrefl _
      rw [Vect.lookup, if_pos deep, place] at outside
      by_contra present
      rw [if_neg (by omega)] at outside
      contradiction
    obtain ⟨attached, contents⟩ := attach_spec shape deep room (fresh r rfl)
    refine ⟨v.attach n r, true, if_neg (not_not.mpr empty), ⟨attached, fun id inside => ?_⟩, by simp⟩
    rw [contents, if_neg (Nat.ne_of_lt (Nat.div_lt_of_lt_mul inside))]

/-- An allocation that growing needs fails, or the second level is full. -/
def Stuck (v : Vect) (n : Nat) (root leaf : Option Nat) : Prop :=
  leaf = none ∨ (v.deep = false ∧ root = none) ∨ vectBase ≤ n

theorem expand_spec (shape : Shape v n) (available : Available v root leaf) :
    ∃ v' grown, v.expand (vectBase * n) root leaf = some (v', grown) ∧ Kept v v' n (if grown then n + 1 else n) ∧
      (grown = false → Stuck v n root leaf) := by
  unfold Vect.expand
  cases deep : v.deep with
  | true =>
    simp only [if_true]
    split
    next full =>
      refine ⟨v, false, rfl, ⟨shape, fun _ _ => rfl⟩, fun _ => .inr (.inr ?_)⟩
      unfold vectBase at full ⊢
      omega
    next small =>
      have room : n < vectBase := by
        unfold vectBase at small ⊢
        omega
      obtain ⟨v', grown, run, kept, stuck⟩ := extend_spec shape deep room leaf available.2.1
      exact ⟨v', grown, run, kept, fun failed => .inl (stuck failed)⟩
  | false =>
    obtain rfl := shape.single deep
    cases root with
    | none => exact ⟨v, false, rfl, ⟨shape, fun _ _ => rfl⟩, fun _ => .inr (.inl ⟨deep, rfl⟩)⟩
    | some r =>
      obtain ⟨promoted, same⟩ := promote_spec shape deep (available.1 r rfl)
      obtain ⟨v', grown, run, ⟨shape', contents⟩, stuck⟩ := extend_spec promoted rfl (by decide) leaf (by
        intro is mem
        obtain ⟨nonnull, other, -⟩ := available.2.1 is mem
        refine ⟨nonnull, ?_, fun _ i _ => ?_⟩
        · rintro rfl
          nomatch available.2.2 mem.symm
        · simp only [Vect.promote, update_self]
          split <;> omega)
      exact ⟨v', grown, run, ⟨shape', fun id inside => (contents id inside).trans (same id)⟩,
        fun failed => .inl (stuck failed)⟩

/-! ## The free list -/

/-- The list that starts at `head` is threaded through the second slots of its ids. -/
def Listed (v : Vect) (head : Int) : List Nat → Prop
  | [] => head = -1
  | i :: rest => head = i ∧ ∃ next, content v (2 * i + 1) = some next ∧ Listed v next rest

theorem Listed.congr {v' : Vect} {head : Int} {free : List Nat} (listed : Listed v head free)
    (same : ∀ i ∈ free, content v' (2 * i + 1) = content v (2 * i + 1)) : Listed v' head free := by
  induction free generalizing head with
  | nil => exact listed
  | cons i rest ih =>
    obtain ⟨first, next, found, listed⟩ := listed
    exact ⟨first, next, (same i mem_cons_self).trans found,
      ih listed fun j mem => same j (mem_cons_of_mem i mem)⟩

theorem linkFree_spec (k lower : Nat) (shape : Shape v n) (inside : 2 * (lower + k) ≤ vectBase * n) :
    ∃ v', linkFree v lower k = some v' ∧ Shape v' n ∧ ∀ id, content v' id =
      if id % 2 = 1 ∧ lower ≤ id / 2 ∧ id / 2 < lower + k then some ((id / 2 : Nat) + 1 : Int) else content v id := by
  induction k generalizing v lower with
  | zero =>
    refine ⟨v, rfl, shape, fun id => ?_⟩
    rw [if_neg (by omega)]
  | succ k ih =>
    obtain ⟨v1, stored, shape1, contents1⟩ := set_spec shape (2 * lower + 1) (by omega) (lower + 1)
    obtain ⟨v', linked, shape', contents⟩ := ih (lower + 1) shape1 (by omega)
    refine ⟨v', by rw [linkFree, stored, bind_some, linked], shape', fun id => ?_⟩
    rw [contents, contents1]
    by_cases first : id = 2 * lower + 1
    · rw [if_neg (by omega), if_pos first, if_pos (by omega)]
      congr 2
      omega
    · rw [if_neg first]
      congr 1
      exact propext (by omega)

theorem newFree_spec (lower : Nat) (shape : Shape v n) (inside : 2 * (lower + mapBase) ≤ vectBase * n) :
    ∃ v', newFree v lower = some v' ∧ Shape v' n ∧ Listed v' lower (range' lower mapBase) ∧
      ∀ id, id % 2 = 0 ∨ id / 2 < lower → content v' id = content v id := by
  have many : 0 < mapBase := by decide
  obtain ⟨v1, linked, shape1, contents1⟩ := linkFree_spec mapBase lower shape inside
  obtain ⟨v', stored, shape', contents⟩ := set_spec shape1 (2 * (lower + mapBase - 1) + 1) (by omega) (-1)
  refine ⟨v', by rw [newFree, linked, bind_some, stored], shape', ?_, fun id kept => ?_⟩
  · have threaded : ∀ k i, lower ≤ i → i + k + 1 = lower + mapBase → Listed v' i (range' i (k + 1)) := by
      intro k
      induction k with
      | zero =>
        intro i low last
        refine ⟨rfl, -1, ?_, rfl⟩
        rw [contents, if_pos (by omega)]
      | succ k ih =>
        intro i low last
        refine ⟨rfl, (i + 1 : Nat), ?_, ih (i + 1) (by omega) (by omega)⟩
        rw [contents, if_neg (by omega), contents1, if_pos (by omega)]
        congr 1
        omega
    exact threaded (mapBase - 1) lower (Nat.le_refl _) (by omega)
  · rw [contents, if_neg (by omega), contents1, if_neg (by omega)]

/-! ## Every run -/

structure Observed where
  map : CosMapT
  /-- The values of the ids that were added and not deleted since. -/
  live : Nat → Option Int

inductive Call where
  | add (val : Int) (root leaf : Option Nat)
  | del (mid : Nat)
  deriving DecidableEq, Repr

def perform (o : Observed) : Call → Option Observed
  | .add val root leaf =>
    if Available o.map.data root leaf then
      (cosMapAdd o.map val root leaf).map fun (m, ret) =>
        ⟨m, if 0 ≤ ret then update o.live ret.toNat (some val) else o.live⟩
    else none
  | .del mid =>
    if (o.live mid).isSome then
      (cosMapDel o.map mid).map fun (m, _) => ⟨m, update o.live mid none⟩
    else none

/-- Adds and deletes of live ids on a map that was initialised. -/
def idMap (m : CosMapT) : System Observed Call := ⟨⟨m, fun _ => none⟩, perform⟩

/-- The values are in their slots, and the ids without one are on the free list. -/
structure Tracked (m : CosMapT) (live : Nat → Option Int) (n : Nat) (free : List Nat) : Prop where
  shape : Shape m.data n
  boundary : m.idBoundary = mapBase * n
  listed : Listed m.data m.freeList free
  nodup : free.Nodup
  unused : ∀ i, i ∈ free ↔ i < m.idBoundary ∧ live i = none
  values : ∀ i x, live i = some x → i < m.idBoundary ∧ content m.data (2 * i) = some x

variable {m : CosMapT} {live : Nat → Option Int} {free rest : List Nat} {i : Nat}

theorem lookup_eq (found : content m.data (2 * i) = some x) : cosMapLookup m i = x := by
  obtain ⟨is, slot, rfl⟩ := map_eq_some_iff.mp found
  rw [cosMapLookup, slot]

theorem Tracked.inside (h : Tracked m live n free) (below : i < m.idBoundary) : 2 * i + 1 < vectBase * n := by
  have boundary := h.boundary
  have half : vectBase = 2 * mapBase := rfl
  rw [half, Nat.mul_assoc]
  omega

theorem takeFree_spec (h : Tracked m live n (i :: rest)) (val : Int) :
    ∃ m', takeFree m i val = some (m', (i : Int)) ∧ cosMapLookup m' i = val ∧
      Tracked m' (update live i (some val)) n rest ∧ m'.data.deep = m.data.deep ∧ m'.data.vect = m.data.vect := by
  obtain ⟨-, next, found, listed⟩ := h.listed
  obtain ⟨apart, nodup⟩ := nodup_cons.mp h.nodup
  have below := ((h.unused i).mp mem_cons_self).1
  obtain ⟨is, slot⟩ := h.shape.slot (Nat.lt_of_succ_lt (h.inside below))
  obtain ⟨shape1, contents1⟩ := write_spec h.shape slot val
  have slot1 : (m.data.write is val).lookup (2 * i + 1) = some (is.1, is.2 + 1) := by
    rw [write_lookup h.shape slot val, lookup_next slot]
  obtain ⟨shape2, contents2⟩ := write_spec shape1 slot1 (-1)
  have head : (m.data.write is val).val is.1 (is.2 + 1) = next := by
    have kept := contents1 (2 * i + 1)
    rw [if_neg (by omega), found, content, slot1] at kept
    exact some.inj kept
  have here : content ((m.data.write is val).write (is.1, is.2 + 1) (-1)) (2 * i) = some val := by
    rw [contents2, if_neg (by omega), contents1, if_pos rfl]
  refine ⟨⟨(m.data.write is val).write (is.1, is.2 + 1) (-1), next, m.idBoundary⟩, ?_, lookup_eq here,
    ⟨shape2, h.boundary, ?_, nodup, ?_, ?_⟩, rfl, rfl⟩
  · rw [takeFree, slot, ← head]
    rfl
  · refine listed.congr fun j mem => ?_
    have other : j ≠ i := fun same => apart (same ▸ mem)
    rw [contents2, if_neg (by omega), contents1, if_neg (by omega)]
  · intro j
    have before := h.unused j
    by_cases same : j = i
    · subst same
      simp [apart]
    · simpa [same] using before
  · intro j x on
    by_cases same : j = i
    · subst same
      rw [update_self] at on
      exact ⟨below, here.trans on⟩
    · rw [update_of_ne same] at on
      obtain ⟨bound, value⟩ := h.values j x on
      refine ⟨bound, ?_⟩
      rw [contents2, if_neg (by omega), contents1, if_neg (by omega)]
      exact value

/-- The free list is empty: the vector grows, or nothing changes. -/
theorem grow_spec (h : Tracked m live n []) (available : Available m.data root leaf) {val : Int} (nonnull : val ≠ 0) :
    (∃ m', cosMapAdd m val root leaf = some (m', -1) ∧ Stuck m.data n root leaf ∧ Tracked m' live n []) ∨
    ∃ m', ∃ i : Nat, cosMapAdd m val root leaf = some (m', (i : Int)) ∧ live i = none ∧ cosMapLookup m' i = val ∧
      ∃ rest, Tracked m' (update live i (some val)) (n + 1) rest := by
  have half : vectBase = 2 * mapBase := rfl
  have start : 2 * m.idBoundary = vectBase * n := by rw [h.boundary, half, Nat.mul_assoc]
  have outside : m.data.lookup (2 * m.idBoundary) = none := by
    rw [← not_isSome_iff_eq_none, h.shape.inside, start]
    exact Nat.lt_irrefl _
  have empty := h.listed
  obtain ⟨v, grown, run, ⟨shape, contents⟩, stuck⟩ := expand_spec h.shape available
  have add_eq : cosMapAdd m val root leaf = _ := if_pos empty
  rw [if_neg nonnull, Vect.addId, outside, start, run] at add_eq
  cases grown with
  | false =>
    refine .inl ⟨_, add_eq, stuck rfl, shape, h.boundary, h.listed, h.nodup, h.unused, fun i x on => ?_⟩
    obtain ⟨below, value⟩ := h.values i x on
    exact ⟨below, (contents _ (Nat.lt_of_succ_lt (h.inside below))).trans value⟩
  | true =>
    have room : 2 * (m.idBoundary + mapBase) = vectBase * (n + 1) := by
      rw [Nat.mul_succ]
      omega
    have many : 0 < mapBase := by decide
    have shape : Shape v (n + 1) := shape
    obtain ⟨v1, stored, shape1, contents1⟩ := set_spec shape (vectBase * n) (by omega) val
    obtain ⟨v2, listed, shape2, threaded, contents2⟩ := newFree_spec m.idBoundary shape1 (by omega)
    have absent : ∀ i, m.idBoundary ≤ i → live i = none := by
      intro i high
      cases on : live i with
      | none => rfl
      | some x => exact absurd (h.values i x on).1 (Nat.not_lt.mpr high)
    have fresh : Tracked ⟨v2, m.idBoundary, m.idBoundary + mapBase⟩ live (n + 1)
        (range' m.idBoundary (mapBase - 1 + 1)) := by
      refine ⟨shape2, ?_, threaded, nodup_range', fun i => ?_, fun i x on => ?_⟩
      · rw [h.boundary, Nat.mul_succ]
      · rw [mem_range'_1]
        constructor
        · exact fun mem => ⟨mem.2, absent i mem.1⟩
        · rintro ⟨below, none⟩
          refine ⟨Nat.not_lt.mp fun low => ?_, below⟩
          nomatch (h.unused i).mpr ⟨low, none⟩
      · obtain ⟨below, value⟩ := h.values i x on
        refine ⟨Nat.lt_add_right _ below, ?_⟩
        rw [contents2 _ (.inl (by omega)), contents1, if_neg (by omega), contents _ (by omega), value]
    obtain ⟨m', taken, value, tracked, -⟩ := takeFree_spec fresh val
    refine .inr ⟨m', m.idBoundary, add_eq.trans ?_, absent _ (Nat.le_refl _), value, _, tracked⟩
    simp only [bind_some, if_true, stored, map_some, listed]
    exact taken

/-- A NULL value does not make the vector grow, so the slots of the new ids are missing. -/
theorem grow_null (h : Tracked m live n []) (root leaf : Option Nat) : cosMapAdd m 0 root leaf = none := by
  have outside : m.data.lookup (2 * m.idBoundary + 1) = none := by
    have half : vectBase = 2 * mapBase := rfl
    rw [← not_isSome_iff_eq_none, h.shape.inside, h.boundary, half, Nat.mul_assoc]
    omega
  have blocked : newFree m.data m.idBoundary = none := by
    rw [newFree, show mapBase = mapBase - 1 + 1 from rfl, linkFree, Vect.set, outside]
    rfl
  have empty : m.freeList = -1 := h.listed
  rw [cosMapAdd, if_pos empty, if_pos rfl, bind_some]
  exact congrArg (Option.bind · _) blocked

theorem add_spec (h : Tracked m live n free) (available : Available m.data root leaf) (val : Int) :
    (val = 0 ∧ free = [] ∧ cosMapAdd m val root leaf = none) ∨
    (∃ m', cosMapAdd m val root leaf = some (m', -1) ∧ (free = [] ∧ Stuck m.data n root leaf) ∧
      Tracked m' live n free) ∨
    ∃ m', ∃ i : Nat, cosMapAdd m val root leaf = some (m', (i : Int)) ∧ live i = none ∧ cosMapLookup m' i = val ∧
      ∃ n' rest, Tracked m' (update live i (some val)) n' rest := by
  cases free with
  | nil =>
    by_cases null : val = 0
    · subst null
      exact .inl ⟨rfl, rfl, grow_null h root leaf⟩
    · rcases grow_spec h available null with ⟨m', failed, stuck, kept⟩ | ⟨m', i, added, fresh, value, rest, tracked⟩
      · exact .inr (.inl ⟨m', failed, ⟨rfl, stuck⟩, kept⟩)
      · exact .inr (.inr ⟨m', i, added, fresh, value, n + 1, rest, tracked⟩)
  | cons i rest =>
    have head := h.listed.1
    obtain ⟨m', taken, value, tracked, -⟩ := takeFree_spec h val
    refine .inr (.inr ⟨m', i, ?_, ((h.unused i).mp mem_cons_self).2, value, n, rest, tracked⟩)
    rw [cosMapAdd, if_neg (by omega), head, Int.toNat_natCast, taken]

theorem del_spec (h : Tracked m live n free) (on : live i = some x) :
    ∃ m', cosMapDel m i = some (m', 0) ∧ Tracked m' (update live i none) n (i :: free) := by
  have below := (h.values i x on).1
  obtain ⟨is, slot⟩ := h.shape.slot (Nat.lt_of_succ_lt (h.inside below))
  obtain ⟨shape1, contents1⟩ := write_spec h.shape slot 0
  obtain ⟨is', slot'⟩ := shape1.slot (h.inside below)
  obtain ⟨shape2, contents2⟩ := write_spec shape1 slot' m.freeList
  have apart : i ∉ free := by
    intro mem
    rw [((h.unused i).mp mem).2] at on
    contradiction
  refine ⟨⟨(m.data.write is 0).write is' m.freeList, i, m.idBoundary⟩, ?_, shape2, h.boundary,
    ⟨rfl, m.freeList, ?_, h.listed.congr fun j mem => ?_⟩, nodup_cons.mpr ⟨apart, h.nodup⟩, ?_, ?_⟩
  · rw [cosMapDel, slot]
    simp [slot']
  · rw [contents2, if_pos rfl]
  · have other : j ≠ i := fun same => apart (same ▸ mem)
    rw [contents2, if_neg (by omega), contents1, if_neg (by omega)]
  · intro j
    rw [mem_cons, h.unused]
    by_cases same : j = i
    · subst same
      simp [below]
    · simp [same]
  · intro j y on
    by_cases same : j = i
    · simp [same] at on
    · rw [update_of_ne same] at on
      obtain ⟨bound, value⟩ := h.values j y on
      refine ⟨bound, ?_⟩
      rw [contents2, if_neg (by omega), contents1, if_neg (by omega)]
      exact value

theorem perform_tracked {o o' : Observed} {call : Call} (h : ∃ n free, Tracked o.map o.live n free)
    (run : perform o call = some o') : ∃ n free, Tracked o'.map o'.live n free := by
  obtain ⟨n, free, h⟩ := h
  cases call with
  | add val root leaf =>
    obtain ⟨available, run⟩ := ite_none_right_eq_some.mp run
    rcases add_spec h available val with ⟨-, -, failed⟩ | ⟨m, failed, -, kept⟩ | ⟨m, i, added, -, -, n', rest, tracked⟩
    · rw [failed] at run
      contradiction
    · rw [failed] at run
      cases run
      exact ⟨n, free, kept⟩
    · rw [added] at run
      cases run
      exact ⟨n', rest, by simpa using tracked⟩
  | del mid =>
    obtain ⟨present, run⟩ := ite_none_right_eq_some.mp run
    obtain ⟨x, on⟩ := isSome_iff_exists.mp present
    obtain ⟨m, deleted, tracked⟩ := del_spec h on
    rw [deleted] at run
    cases run
    exact ⟨n, mid :: free, tracked⟩

theorem init_tracked {vect : Nat} (nonnull : vect ≠ 0) (made : cosMapInit vect = some m) :
    ∃ n free, Tracked m (fun _ => none) n free := by
  have shape : Shape ⟨false, vect, fun _ _ => 0⟩ 1 := by
    refine ⟨fun id => ?_, fun id id' is slot slot' => ?_, nofun, nonnull, fun _ => rfl⟩
    · simp [Vect.lookup]
    obtain ⟨-, same⟩ := ite_none_left_eq_some.mp slot
    obtain ⟨-, same'⟩ := ite_none_left_eq_some.mp slot'
    cases same
    cases same'
    rfl
  obtain ⟨v, run, shape', listed, -⟩ := newFree_spec 0 shape (by decide)
  rw [cosMapInit, run] at made
  cases made
  refine ⟨1, _, shape', rfl, listed, nodup_range', fun i => ?_, nofun⟩
  simp

/-- In every run of adds and deletes of live ids, with every allocation succeeding or failing: a lookup of a live
id finds its value, and the free list has the other ids below the boundary once each. An add returns an id that is
not live, or it fails because the free list is empty and the vector is full or an allocation failed, and changes no
value; only a NULL value on an empty free list stops it. -/
theorem id_map {vect : Nat} {m : CosMapT} {o : Observed} (nonnull : vect ≠ 0) (made : cosMapInit vect = some m)
    (reached : Reachable (idMap m) anyStep o) : (∀ i x, o.live i = some x → cosMapLookup o.map i = x) ∧
    (∃ free, Listed o.map.data o.map.freeList free ∧ free.Nodup ∧
      ∀ i, i ∈ free ↔ i < o.map.idBoundary ∧ o.live i = none) ∧
    (∀ val root leaf, Available o.map.data root leaf → (val = 0 ∧ o.map.freeList = -1) ∨
      ∃ m' ret, cosMapAdd o.map val root leaf = some (m', ret) ∧
        (ret = -1 ∧ o.map.freeList = -1 ∧
            (leaf = none ∨ (o.map.data.deep = false ∧ root = none) ∨ mapBase * vectBase ≤ o.map.idBoundary) ∧
            (∀ i x, o.live i = some x → cosMapLookup m' i = x) ∨
          ∃ i : Nat, ret = i ∧ o.live i = none ∧ cosMapLookup m' i = val)) ∧
    ∀ i, (o.live i).isSome = true → ∃ m', cosMapDel o.map i = some (m', 0) := by
  obtain ⟨n, free, h⟩ := reached.invariant (fun o => ∃ n free, Tracked o.map o.live n free)
    (init_tracked nonnull made) fun o call o' h _ next => perform_tracked h next
  refine ⟨fun i x on => lookup_eq (h.values i x on).2, ⟨free, h.listed, h.nodup, h.unused⟩, ?_, fun i present => ?_⟩
  · intro val root leaf available
    rcases add_spec h available val with
      ⟨null, rfl, -⟩ | ⟨m', failed, ⟨rfl, stuck⟩, kept⟩ | ⟨m', i, added, fresh, value, -⟩
    · exact .inl ⟨null, h.listed⟩
    · refine .inr ⟨m', -1, failed, .inl ⟨rfl, h.listed, ?_, fun i x on => lookup_eq (kept.values i x on).2⟩⟩
      rw [h.boundary]
      exact stuck.imp_right (Or.imp_right (Nat.mul_le_mul_left mapBase))
    · exact .inr ⟨m', i, added, .inr ⟨i, rfl, fresh, value⟩⟩
  · obtain ⟨x, on⟩ := isSome_iff_exists.mp present
    obtain ⟨m', deleted, -⟩ := del_spec h on
    exact ⟨m', deleted⟩

/-- Adds use the free list up. -/
theorem fills {o : Observed} (reached : Reachable (idMap m) anyStep o) (h : Tracked o.map o.live n free) :
    ∃ o', Reachable (idMap m) anyStep o' ∧ Tracked o'.map o'.live n [] ∧
      o'.map.data.deep = o.map.data.deep ∧ o'.map.data.vect = o.map.data.vect := by
  induction free generalizing o with
  | nil => exact ⟨o, reached, h, rfl, rfl⟩
  | cons i rest ih =>
    obtain ⟨m', taken, -, tracked, deep, vect⟩ := takeFree_spec h 7
    have head := h.listed.1
    have added : (idMap m).step o (.add 7 none none) = some ⟨m', update o.live i (some 7)⟩ := by
      have taken : cosMapAdd o.map 7 none none = _ := (if_neg (by omega)).trans (by rw [head, Int.toNat_natCast, taken])
      simp [idMap, perform, Available, taken]
    obtain ⟨labels, run⟩ := reached
    obtain ⟨o', reached, full, deep', vect'⟩ := ih ⟨_, .next run trivial added⟩ tracked
    exact ⟨o', reached, full, deep'.trans deep, vect'.trans vect⟩

/-- When all the ids of the first array are live, an add whose allocations succeed returns an id of a second one. -/
theorem grown_id_mapped : ∃ m o, cosMapInit 1 = some m ∧ Reachable (idMap m) anyStep o ∧ o.map.idBoundary = 512 ∧
    (∀ i < 512, o.live i ≠ none) ∧ ∃ m' i, cosMapAdd o.map 9 (some 2) (some 3) = some (m', Int.ofNat i) ∧
      512 ≤ i ∧ cosMapLookup m' i = 9 := by
  have made : (cosMapInit 1).any (fun m => decide (m.data.deep = false ∧ m.data.vect = 1)) = true := by decide +kernel
  obtain ⟨m, made, shallow⟩ := any_eq_true _ _ |>.mp made
  obtain ⟨shallow, root⟩ := of_decide_eq_true shallow
  obtain ⟨n, free, start⟩ := init_tracked (by decide) made
  obtain ⟨o, reached, full, deep, vect⟩ := fills (m := m) (o := (idMap m).init) ⟨[], .start⟩ start
  rw [show (idMap m).init.map = m from rfl] at deep vect
  have boundary : o.map.idBoundary = 512 := by
    rw [full.boundary, full.shape.single (deep.trans shallow)]
    rfl
  have live : ∀ i < 512, o.live i ≠ none := by
    intro i below absent
    simpa using (full.unused i).mpr ⟨boundary ▸ below, absent⟩
  have unused : ∀ is, is ≠ 0 → is ≠ 1 → Fresh o.map.data is := by
    intro is nonnull other
    refine ⟨nonnull, vect.trans root ▸ other, fun high => ?_⟩
    exact absurd (high.symm.trans (deep.trans shallow)) (by decide)
  have available : Available o.map.data (some 2) (some 3) :=
    ⟨by simpa using unused 2, by simpa using unused 3, by simp⟩
  refine ⟨m, o, made, reached, boundary, live, ?_⟩
  rcases (id_map (by decide) made reached).2.2.1 9 _ _ available with
    ⟨null, -⟩ | ⟨m', ret, added, ⟨-, -, stuck, -⟩ | ⟨i, rfl, fresh, value⟩⟩
  · exact absurd null (by decide)
  · simp [boundary, mapBase, vectBase] at stuck
  · exact ⟨m', i, added, Nat.not_lt.mp fun below => live i below fresh, value⟩

end SuperGlue.Guarantees.IdMap
