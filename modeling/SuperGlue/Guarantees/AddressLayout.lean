import SuperGlue.Lib.Transition
import SuperGlue.Source.Kernel.Layout

/-!
# Ranges of virtual addresses

A size is rounded down to 4MB for the global table, so what is left of a range after its last 4MB is nobody's there
and can be given to another component. As long as sizes are multiples of 4MB, and ranges end where the addresses
do, the table and the recorded ranges agree.
-/
namespace SuperGlue.Guarantees.AddressLayout
open Function Option Lib.Transition Source.Kernel.Layout

def Inside (l : Location) (a : Nat) : Prop := l.lowestAddr ≤ a ∧ a < l.lowestAddr + l.size

instance : DecidableRel Inside := fun _ _ => inferInstanceAs (Decidable (_ ∧ _))

inductive Call where
  | add (spd : Spd) (base size : Nat)
  | rem (spd : Spd) (base size : Nat)

def perform (s : State) : Call → State × Int
  | .add spd base size => spdAddLocation s spd base size
  | .rem spd base size => spdRemLocation s spd base size

/-- Calls, where `pgTbl` are the components with a page table. -/
def layouts (pgTbl : Spd → Bool) : System State Call :=
  ⟨⟨fun _ => none, fun _ _ => ⟨0, 0⟩, pgTbl⟩, fun s call => some (perform s call).1⟩

/-- The condition on a call. -/
def Careful (_ : State) : Call → Prop
  | .add _ base size => hpageSize ∣ size ∧ base + size ≤ 2 ^ 32
  | .rem .. => True

instance : DecidableRel Careful
  | _, .add .. => inferInstanceAs (Decidable (_ ∧ _))
  | _, .rem .. => inferInstanceAs (Decidable True)

/-- A range of whole entries of the table. -/
structure Whole (l : Location) : Prop where
  base : hpageSize ∣ l.lowestAddr
  size : hpageSize ∣ l.size

/-- Every entry of the table that is in use belongs to one recorded range. -/
structure Laid (s : State) (own : Nat → Option (Spd × Fin maxSpdVasLocations)) : Prop where
  whole : ∀ spd i, Whole (s.location spd i)
  table : ∀ j, s.virtualSpdLayout j = (own j).map Prod.fst
  owner : ∀ j spd i, own j = some (spd, i) ↔ Inside (s.location spd i) (j * hpageSize)

variable {s s' : State} {own : Nat → Option (Spd × Fin maxSpdVasLocations)} {spd : Spd}
  {i : Fin maxSpdVasLocations} {l : Location} {base size a j : Nat} {ret : Int}

theorem not_inside (zero : l.size = 0) : ¬ Inside l a := by
  rw [Inside]
  omega

theorem whole_none : Whole ⟨0, 0⟩ := ⟨Nat.dvd_zero _, Nat.dvd_zero _⟩

theorem Whole.inside_iff (h : Whole l) : Inside l a ↔ l.lowestAddr / hpageSize ≤ a / hpageSize ∧
    a / hpageSize < l.lowestAddr / hpageSize + l.size / hpageSize := by
  obtain ⟨⟨b, base⟩, ⟨n, size⟩⟩ := h
  unfold Inside hpageSize at *
  omega

theorem Whole.entry_iff (h : Whole l) : Inside l (j * hpageSize) ↔
    l.lowestAddr / hpageSize ≤ j ∧ j < l.lowestAddr / hpageSize + l.size / hpageSize := by
  rw [h.inside_iff, Nat.mul_div_cancel j (by decide)]

/-- A range takes the place of another of the component, in the table as well. -/
theorem Laid.record (h : Laid s own) (whole : Whole l)
    (empty : ∀ j, Inside l (j * hpageSize) → s.virtualSpdLayout j = none) (location : s'.location = s.location)
    (table : ∀ j, s'.virtualSpdLayout j = if Inside l (j * hpageSize) then some spd
      else if Inside (s.location spd i) (j * hpageSize) then none else s.virtualSpdLayout j) :
    ∃ own, Laid (s'.record spd i l) own := by
  have recorded : ∀ spd' i', (s'.record spd i l).location spd' i' =
      if (spd', i') = (spd, i) then l else s.location spd' i' := by
    intro spd' i'
    simp only [State.record, location]
    by_cases same : spd' = spd
    · subst same
      simp [update_apply]
    · simp [same]
  refine ⟨fun j => if Inside l (j * hpageSize) then some (spd, i) else if own j = some (spd, i) then none else own j,
    fun spd' i' => ?_, fun j => ?_, fun j spd' i' => ?_⟩
  · rw [recorded]
    split
    · exact whole
    · exact h.whole spd' i'
  · simp only [State.record, table, h.table, h.owner]
    split
    · rfl
    · split <;> rfl
  · have free := empty j
    rw [h.table, map_eq_none_iff] at free
    rw [recorded]
    by_cases new : Inside l (j * hpageSize) <;> by_cases same : (spd', i') = (spd, i)
    · simp [new, same]
    · simp [new, same, ← h.owner, free new, Ne.symm same]
    · by_cases old : own j = some (spd, i) <;> simp [new, same, old]
    · by_cases old : own j = some (spd, i) <;> simp [new, same, ← h.owner, old, Ne.symm same]

theorem add_cases (run : spdAddLocation s spd base size = (s', ret)) : (ret = -1 ∧ s' = s) ∨
    ret = 0 ∧ base % hpageSize = 0 ∧
      (∀ j, base / hpageSize ≤ j ∧ j < base / hpageSize + size / hpageSize → s.virtualSpdLayout j = none) ∧
      ∃ i, (s.location spd i).size = 0 ∧
        s' = (s.fill (base / hpageSize) (size / hpageSize) spd).record spd i ⟨base, size⟩ := by
  rw [spdAddLocation] at run
  split at run
  next allowed =>
    split at run
    next i s1 found alloc =>
      rw [virtualNamespaceAlloc] at alloc
      split at alloc
      · contradiction
      next free =>
        cases alloc
        cases run
        exact .inr ⟨rfl, allowed.2, by simpa using free, i, by simpa using List.find?_some found, rfl⟩
    · simp_all
  · simp_all

theorem rem_cases (run : spdRemLocation s spd base size = (s', ret)) : (ret = -1 ∧ s' = s) ∨
    ret = 0 ∧ ∃ i, s.location spd i = ⟨base, size⟩ ∧
      s' = (s.fill (base / hpageSize) (size / hpageSize) none).record spd i ⟨0, 0⟩ := by
  rw [spdRemLocation] at run
  split at run
  · split at run
    next i s1 found free =>
      rw [virtualNamespaceFree] at free
      split at free
      · contradiction
      cases free
      cases run
      have same := List.find?_some found
      rw [Bool.and_eq_true, beq_iff_eq, beq_iff_eq] at same
      exact .inr ⟨rfl, i, by rw [← same.1, ← same.2], rfl⟩
    · simp_all
  · simp_all

theorem perform_laid {call : Call} (h : Laid s own) (careful : Careful s call)
    (run : perform s call = (s', ret)) : ∃ own, Laid s' own := by
  cases call with
  | add spd base size =>
    obtain ⟨-, rfl⟩ | ⟨-, aligned, free, i, zero, rfl⟩ := add_cases run
    · exact ⟨own, h⟩
    have whole : Whole ⟨base, size⟩ := ⟨Nat.dvd_of_mod_eq_zero aligned, careful.1⟩
    refine h.record whole (fun j inside => free j (whole.entry_iff.mp inside)) rfl fun j => ?_
    simp [State.fill, whole.entry_iff, not_inside zero]
  | rem spd base size =>
    obtain ⟨-, rfl⟩ | ⟨-, i, found, rfl⟩ := rem_cases run
    · exact ⟨own, h⟩
    have whole := found ▸ h.whole spd i
    refine h.record whole_none (fun j inside => absurd inside (not_inside rfl)) rfl fun j => ?_
    simp [State.fill, not_inside, whole.entry_iff, found]

/-- In every run, ranges are disjoint, an address is attributed to the component with a range around it, a range
that is removed frees its own entries and no others, and what is refused changes nothing. -/
theorem ranges_agree {pgTbl : Spd → Bool} (reached : Reachable (layouts pgTbl) Careful s) :
    (∀ spd i spd' i' a, Inside (s.location spd i) a → Inside (s.location spd' i') a → spd = spd' ∧ i = i') ∧
    (∀ a spd, virtualNamespaceQuery s a = some spd ↔ ∃ i, Inside (s.location spd i) a) ∧
    (∀ spd base size s', spdRemLocation s spd base size = (s', 0) → ∀ j, s'.virtualSpdLayout j =
      if Inside ⟨base, size⟩ (j * hpageSize) then none else s.virtualSpdLayout j) ∧
    ∀ call s', perform s call = (s', -1) → s' = s := by
  have start : Laid (layouts pgTbl).init fun _ => none :=
    ⟨fun _ _ => whole_none, fun _ => rfl, fun _ _ _ => ⟨nofun, fun inside => absurd inside (not_inside rfl)⟩⟩
  obtain ⟨own, h⟩ := reached.invariant (fun s => ∃ own, Laid s own) ⟨_, start⟩
    fun s call s' ⟨own, h⟩ careful next => perform_laid h careful (Prod.ext (some.inj next) rfl)
  have owner : ∀ {a spd i}, own (a / hpageSize) = some (spd, i) ↔ Inside (s.location spd i) a := by
    intro a spd i
    rw [h.owner, (h.whole spd i).entry_iff, (h.whole spd i).inside_iff]
  refine ⟨?_, fun a spd => ?_, fun spd base size s' run => ?_, fun call s' run => ?_⟩
  · intro spd i spd' i' a first second
    simpa using (owner.mpr first).symm.trans (owner.mpr second)
  · rw [virtualNamespaceQuery, h.table]
    simp [owner]
  · obtain ⟨refused, -⟩ | ⟨-, i, found, rfl⟩ := rem_cases run
    · contradiction
    have whole := found ▸ h.whole spd i
    simp [State.fill, State.record, whole.entry_iff]
  · cases call with
    | add =>
      obtain ⟨-, same⟩ | ⟨done, -⟩ := add_cases run
      · exact same
      · contradiction
    | rem =>
      obtain ⟨-, same⟩ | ⟨done, -⟩ := rem_cases run
      · exact same
      · contradiction

/-- Two components with a range of 8MB each. -/
theorem two_ranges_agree : ∃ s, Run (layouts fun _ => true) Careful [.add 1 0 8388608, .add 2 8388608 8388608] s ∧
    virtualNamespaceQuery s 9000000 = some 2 ∧ ∃ i, Inside (s.location 2 i) 9000000 := by
  refine exec_shows (fun s => virtualNamespaceQuery s 9000000 = some 2) (by decide +kernel) fun s run query => ?_
  exact ⟨query, ((ranges_agree ⟨_, run⟩).2.1 9000000 2).mp query⟩

/-- Two components with the same range of 1MB. -/
theorem ranges_overlap : ∃ s, Run (layouts fun _ => true) anyStep [.add 1 4194304 1048576, .add 2 4194304 1048576] s ∧
    Inside (s.location 1 0) 4194304 ∧ Inside (s.location 2 0) 4194304 :=
  exec_ends _ _ _ _ (by decide +kernel)

end SuperGlue.Guarantees.AddressLayout
