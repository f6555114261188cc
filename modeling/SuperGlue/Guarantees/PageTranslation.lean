import SuperGlue.Lib.Transition
import SuperGlue.Guarantees.TrieWalks
import SuperGlue.Source.Ert.PageTable

/-!
# What the page table translates

A page that was mapped and not deleted since is translated to its frame and flags. But a page that
`pgtbl_init_pte` prepared has entries that translate to the last page of the address space, `pgtbl_intern_prune`
leaves an entry that is present and leads to the page at address 0, and `pgtbl_mapping_mod` runs into an
assertion. It is shown for every run which translations and which calls this concerns, and that there are no
others. Each page that a run expands with is prepared; what an unprepared page holds is not spoken of.
-/
namespace SuperGlue.Guarantees.PageTranslation
open Function (update update_apply update_eq_self update_of_ne update_self)
open BitVec Lib.RadixTrie Lib.Transition Source.Ert.Trie Source.Ert.PageTable

variable {s s' : Pgtbl} {addr page flags v q data : Word} {r i id : Nat}

/-! ## Words -/

theorem get_eq (e : Word) : pgtblGet e = ~~~e &&& frameMask := by
  rw [pgtblGet, chalPa2va, frameMask]
  ext i
  simp only [getElem_and, getElem_not]
  cases e[i] <;> cases flagMask[i] <;> rfl

theorem get_set (v : Word) : pgtblGet (pgtblSet v) = v &&& frameMask := by
  have disjoint : internDef &&& frameMask = 0 := by decide
  rw [get_eq, pgtblSet, chalVa2pa]
  ext i
  have bit := congrArg (fun w : Word => w[i]) disjoint
  simp only [getElem_and, getElem_or, getElem_not] at bit ⊢
  revert bit
  cases v[i] <;> cases flagMask[i] <;> cases internDef[i] <;> simp

theorem get_setleaf (v : Word) : pgtblGet (pgtblSetleaf v) = v &&& frameMask := by
  rw [get_eq, pgtblSetleaf, chalVa2pa, frameMask]
  ext i
  simp only [getElem_and, getElem_or, getElem_not]
  cases v[i] <;> cases flagMask[i] <;> rfl

theorem flags_setleaf (v : Word) : pgtblSetleaf v &&& flagMask = v &&& flagMask := by
  rw [pgtblSetleaf, chalVa2pa, frameMask]
  ext i
  simp only [getElem_and, getElem_or, getElem_not]
  cases v[i] <;> cases flagMask[i] <;> rfl

theorem frame_aligned (aligned : flagMask &&& q = 0) : q &&& frameMask = q := by
  rw [frameMask]
  ext i
  have bit := congrArg (fun w : Word => w[i]) aligned
  simp only [getElem_and, getElem_not] at bit ⊢
  revert bit
  cases q[i] <;> cases flagMask[i] <;> simp

theorem flags_only (inside : frameMask &&& flags = 0) : flags &&& flagMask = flags ∧ flags &&& frameMask = 0 := by
  refine ⟨?_, by rw [BitVec.and_comm, inside]⟩
  rw [frameMask] at inside
  ext i
  have bit := congrArg (fun w : Word => w[i]) inside
  simp only [getElem_and, getElem_not] at bit ⊢
  revert bit
  cases flags[i] <;> cases flagMask[i] <;> simp

/-- A page and flags are told apart again. -/
theorem mapped_word (aligned : flagMask &&& page = 0) (inside : frameMask &&& flags = 0) :
    (page ||| flags) &&& frameMask = page ∧ (page ||| flags) &&& flagMask = flags := by
  obtain ⟨kept, gone⟩ := flags_only inside
  have page_flags : page &&& flagMask = 0 := by rw [BitVec.and_comm, aligned]
  rw [and_or_distrib_right, and_or_distrib_right]
  exact ⟨by rw [frame_aligned aligned, gone]; exact or_zero, by rw [page_flags, kept]; exact zero_or⟩

theorem isnull_set (v : Word) : pgtblIsnull (pgtblSet v) = false := by
  have on : (pgtblSet v &&& (present ||| cosframe)).getLsbD 0 := by
    rw [pgtblSet]
    simp [internDef, present, cosframe]
  rw [pgtblIsnull, beq_eq_false_iff_ne]
  intro zero
  rw [zero] at on
  contradiction

/-! ## The two levels -/

def root (s : Pgtbl) : Word := pgtblGet s.pt

/-- The entry of the directory. -/
def pgd (s : Pgtbl) (r : Nat) : Word := s.mem (root s) r

/-- The entry of the directory that an address is under. -/
def region (addr : Word) : Nat := pageIdx addr / 2 ^ 10

theorem pageIdx_lt (addr : Word) : pageIdx addr < 2 ^ 20 := by
  rw [pageIdx, toNat_ushiftRight]
  omega

theorem region_lt (addr : Word) : region addr < 2 ^ 10 := by
  have lt := pageIdx_lt addr
  rw [region]
  omega

theorem walk_pgd (s : Pgtbl) (addr accum : Word) :
    ertWalk pgtblConsts s.mem (.root s.pt) (pageIdx addr) accum (pgtblConsts.depth - 0) =
      (.slot (root s) (region addr), s.pt &&& flagMask) := by
  have lt := region_lt addr
  have index := Nat.mod_eq_of_lt lt
  rw [← index]
  rfl

theorem lookup_eq (linked : pgtblIsnull s.pt = false) (dlimit : Nat) (deep : 2 ≤ dlimit) (accum : Word) :
    ertLookup pgtblConsts s.mem s.pt (pageIdx addr) dlimit accum =
      if pgtblIsnull (pgd s (region addr)) then (none, s.pt &&& flagMask)
      else (some (.slot (pgtblGet (pgd s (region addr))) (pageIdx addr % 2 ^ 10)), pgd s (region addr) &&& flagMask) := by
  have rounds : min dlimit pgtblConsts.depth = 2 := Nat.min_eq_right deep
  have first : ¬ pgtblConsts.isnullfn s.pt := ne_true_of_eq_false linked
  rw [ertLookup, rounds, lookupLoop, Place.read_root, if_neg first, walk_pgd]
  rfl

/-- A leaf is taken as it is. -/
theorem init_leaf (m : Memory Word Word) (page : Word) : ertInit pgtblConsts m page true = m := by
  have cells : (fun i => if i < 2 ^ 10 then m page i else m page i) = m page := by
    funext i
    exact ite_self _
  exact (congrArg (update m page) cells).trans (update_eq_self page m)

theorem expand_pgd (accum pte : Word) : expandLoop pgtblConsts (pageIdx addr) 1 0 s.mem (.root s.pt) accum pte =
      if pgtblIsnull (pgd s (region addr)) then if pte = 0 then (s.mem, none, s.pt &&& flagMask, pte)
        else (write s.mem (root s) (region addr) (pgtblSet pte), some (.slot (root s) (region addr)), s.pt &&& flagMask, 0)
      else (s.mem, some (.slot (root s) (region addr)), s.pt &&& flagMask, pte) := by
  rw [expandLoop, walk_pgd]
  change (if !pgtblIsnull (pgd s (region addr)) then _ else _) = _
  cases null : pgtblIsnull (pgd s (region addr)) with
  | false => rfl
  | true =>
    by_cases nothing : pte = 0
    · subst nothing
      rfl
    · have answer : pgtblConsts.allocfn pte (!decide (0 + 2 < pgtblConsts.depth)) = (some pte, 0) := if_neg nothing
      simp only [Bool.not_true, Bool.false_eq_true, if_false, if_true, answer, if_neg nothing, expandLoop]
      rw [show decide (pgtblConsts.depth ≤ 0 + 2) = true from rfl, init_leaf]
      rfl

/-- What `__pgtbl_expandn` does for `pgtbl_intern_expand`. -/
theorem expand_intern (accum pte : Word) (nonnull : pte ≠ 0) :
    ertExpand pgtblConsts s.mem s.pt (pageIdx addr) 2 accum pte 0 =
      if pgtblIsnull (pgd s (region addr)) then ⟨0, write s.mem (root s) (region addr) (pgtblSet pte), 0⟩
      else ⟨0, s.mem, pte⟩ := by
  have rounds : min 2 pgtblConsts.depth - 1 = 1 := rfl
  rw [ertExpand, rounds, expand_pgd, if_neg nonnull]
  cases pgtblIsnull (pgd s (region addr)) <;> rfl

/-- What it does for `pgtbl_mapping_add` and `pgtbl_mapping_del`. -/
theorem expand_leaf (accum : Word) : ertExpand pgtblConsts s.mem s.pt (pageIdx addr) 3 accum 0 data =
      if pgtblIsnull (pgd s (region addr)) then ⟨-1, s.mem, 0⟩ else if data ≠ 0 ∧
          pgtblIsnull (s.mem (pgtblGet (pgd s (region addr))) (pageIdx addr % 2 ^ 10)) = false then ⟨1, s.mem, 0⟩
      else ⟨0, write s.mem (pgtblGet (pgd s (region addr))) (pageIdx addr % 2 ^ 10) (pgtblSetleaf data), 0⟩ := by
  have rounds : min 3 pgtblConsts.depth - 1 = 1 := rfl
  rw [ertExpand, rounds, expand_pgd, if_pos rfl]
  cases pgtblIsnull (pgd s (region addr)) <;> rfl

/-! ## What happened to an address -/

inductive Seen where
  | never
  | deleted
  | mapped (page flags : Word)
  deriving DecidableEq, Repr

def Seen.entry : Seen → Word
  | .never => 0
  | .deleted => pgtblSetleaf 0
  | .mapped page flags => pgtblSetleaf (page ||| flags)

inductive Region where
  | unexpanded
  | expanded (page : Word)
  | pruned
  deriving DecidableEq, Repr

def Region.entry : Region → Word
  | .unexpanded => 0
  | .expanded page => pgtblSet page
  | .pruned => pgtblSet 0

structure Observed where
  t : Pgtbl
  /-- By page numbers. -/
  seen : Nat → Seen
  /-- By entries of the directory. -/
  regions : Nat → Region

/-- Entries are what the history says they are. -/
structure Tracked (o : Observed) : Prop where
  linked : pgtblIsnull o.t.pt = false
  pgds : ∀ r < 2 ^ 10, pgd o.t r = (o.regions r).entry
  pages : ∀ r < 2 ^ 10, ∀ q, o.regions r = .expanded q → flagMask &&& q = 0 ∧ q ≠ 0 ∧ q ≠ root o.t
  apart : ∀ r < 2 ^ 10, ∀ r' < 2 ^ 10, ∀ q, o.regions r = .expanded q → o.regions r' = .expanded q → r = r'
  cells : ∀ r < 2 ^ 10, ∀ q, o.regions r = .expanded q → ∀ i < 2 ^ 10, o.t.mem q i = (o.seen (r * 2 ^ 10 + i)).entry
  blank : ∀ r < 2 ^ 10, (∀ q, o.regions r ≠ .expanded q) → ∀ i < 2 ^ 10, o.seen (r * 2 ^ 10 + i) = .never
  words : ∀ id page flags, o.seen id = .mapped page flags → flagMask &&& page = 0 ∧ frameMask &&& flags = 0

variable {o o' : Observed}

theorem Tracked.leaf (h : Tracked o) (bound : r < 2 ^ 10) (expanded : o.regions r = .expanded q) :
    pgtblGet (pgd o.t r) = q := by
  rw [h.pgds r bound, expanded, Region.entry, get_set, frame_aligned (h.pages r bound q expanded).1]

theorem pageIdx_eq (addr : Word) : region addr * 2 ^ 10 + pageIdx addr % 2 ^ 10 = pageIdx addr := by
  rw [region]
  omega

theorem isnull_region (h : Tracked o) (bound : r < 2 ^ 10) :
    pgtblIsnull (pgd o.t r) = decide (o.regions r = .unexpanded) := by
  rw [h.pgds r bound]
  cases o.regions r with
  | unexpanded => rfl
  | expanded page => exact isnull_set page
  | pruned => exact isnull_set 0

theorem translate_eq (h : Tracked o) (addr flags : Word) :
    pgtblTranslate o.t addr flags =
      match o.regions (region addr) with
      | .unexpanded => some (0, o.t.pt &&& flagMask)
      | .expanded _ => some (pgtblGet (o.seen (pageIdx addr)).entry, (o.seen (pageIdx addr)).entry &&& flagMask)
      | .pruned => if pageIdx addr % 2 ^ 10 = 0 then some (0, pgtblSet 0 &&& flagMask) else none := by
  have bound := region_lt addr
  have null := isnull_region h bound
  have deep : 2 ≤ pgtblConsts.depth + 1 := by decide
  rw [pgtblTranslate, lookup_eq h.linked _ deep, null]
  cases status : o.regions (region addr) with
  | unexpanded => rfl
  | expanded q =>
    obtain ⟨-, nonnull, -⟩ := h.pages _ bound q status
    have cell := h.cells _ bound q status (pageIdx addr % 2 ^ 10) (Nat.mod_lt _ (by decide))
    rw [pageIdx_eq] at cell
    rw [if_neg (by simp), h.leaf bound status]
    dsimp only
    rw [if_neg nonnull, cell]
  | pruned =>
    have entry : pgd o.t (region addr) = pgtblSet 0 := by rw [h.pgds _ bound, status, Region.entry]
    have zero : pgtblGet (pgtblSet 0) = 0 := by decide
    rw [if_neg (by simp), entry, zero]
    exact if_pos rfl

/-! ## Calls -/

/-- A page for `pgtbl_intern_expand`: NULL, or not in use in the table. -/
def Available (s : Pgtbl) (pte : Word) : Prop :=
  pte = 0 ∨ pte ≠ root s ∧ ∀ r < 2 ^ 10, pgtblIsnull (pgd s r) = false → pgtblGet (pgd s r) ≠ pte

instance (s : Pgtbl) (pte : Word) : Decidable (Available s pte) :=
  inferInstanceAs (Decidable (_ ∨ _ ∧ ∀ r < 2 ^ 10, _))

/-- The page is prepared with `pgtbl_init_pte`. -/
def prepared (s : Pgtbl) (pte : Word) : Pgtbl := if pte = 0 then s else pgtblInitPte s pte

theorem prepared_other (other : q ≠ page ∨ page = 0) : (prepared s page).mem q = s.mem q := by
  rw [prepared]
  split
  · rfl
  next nonnull => exact update_of_ne (other.resolve_right nonnull) ..

theorem prepared_pt (s : Pgtbl) (pte : Word) : (prepared s pte).pt = s.pt := by
  rw [prepared]
  split <;> rfl

theorem prepared_cell (nonnull : page ≠ 0) (inside : i < 2 ^ 10) : (prepared s page).mem page i = 0 := by
  rw [prepared, if_neg nonnull]
  exact (congrFun (update_self ..) i).trans (if_pos inside)

/-- The page is not the root, and not the leaf of a region. -/
theorem Available.unused (available : Available o.t page) (h : Tracked o) (nonnull : page ≠ 0) :
    page ≠ root o.t ∧ ∀ r < 2 ^ 10, o.regions r ≠ .expanded page := by
  obtain ⟨other, free⟩ := available.resolve_left nonnull
  refine ⟨other, fun r bound expanded => free r bound ?_ (h.leaf bound expanded)⟩
  rw [isnull_region h bound, expanded]
  rfl

section
variable (h : Tracked o)
include h

theorem prepared_tracked (available : Available o.t page) : Tracked { o with t := prepared o.t page } := by
  have pt := prepared_pt o.t page
  have root_eq : root (prepared o.t page) = root o.t := by rw [root, root, pt]
  by_cases null : page = 0
  · rw [prepared, if_pos null]
    exact h
  obtain ⟨other, free⟩ := available.unused h null
  refine ⟨?_, ?_, ?_, h.apart, ?_, h.blank, h.words⟩
  · rw [pt]
    exact h.linked
  · intro r bound
    rw [pgd, root_eq, prepared_other (.inl other.symm)]
    exact h.pgds r bound
  · intro r bound q expanded
    rw [root_eq]
    exact h.pages r bound q expanded
  · intro r bound q expanded i inside
    have ne : q ≠ page := fun same => free r bound (same ▸ expanded)
    rw [prepared_other (.inl ne)]
    exact h.cells r bound q expanded i inside

/-- An entry of the directory is written. -/
theorem Tracked.enter (bound : r < 2 ^ 10) (x : Region) (seen : Nat → Seen)
    (page : ∀ q, x = .expanded q → (flagMask &&& q = 0 ∧ q ≠ 0 ∧ q ≠ root o.t) ∧
      (∀ r < 2 ^ 10, o.regions r ≠ .expanded q) ∧ ∀ i < 2 ^ 10, o.t.mem q i = (seen (r * 2 ^ 10 + i)).entry)
    (blank : (∀ q, x ≠ .expanded q) → ∀ i < 2 ^ 10, seen (r * 2 ^ 10 + i) = .never)
    (others : ∀ id, id / 2 ^ 10 ≠ r → seen id = o.seen id)
    (words : ∀ id page flags, seen id = .mapped page flags → flagMask &&& page = 0 ∧ frameMask &&& flags = 0) :
    Tracked ⟨{ o.t with mem := write o.t.mem (root o.t) r x.entry }, seen, update o.regions r x⟩ := by
  have elsewhere : ∀ r' ≠ r, ∀ i < 2 ^ 10, seen (r' * 2 ^ 10 + i) = o.seen (r' * 2 ^ 10 + i) := by
    intro r' ne i inside
    exact others _ (by omega)
  refine ⟨h.linked, ?_, ?_, ?_, ?_, ?_, words⟩
  · intro r' bound'
    dsimp only
    rw [update_apply]
    split
    next same =>
      subst same
      exact write_self ..
    next ne => exact (write_other _ _ fun both => ne both.2).trans (h.pgds r' bound')
  · intro r' bound' q expanded
    dsimp only at expanded
    rw [update_apply] at expanded
    split at expanded
    · exact (page q expanded).1
    · exact h.pages r' bound' q expanded
  · intro r1 bound1 r2 bound2 q expanded1 expanded2
    dsimp only at expanded1 expanded2
    rw [update_apply] at expanded1 expanded2
    split at expanded1
    next same1 =>
      split at expanded2
      next same2 => rw [same1, same2]
      · exact absurd expanded2 ((page q expanded1).2.1 r2 bound2)
    · split at expanded2
      · exact absurd expanded1 ((page q expanded2).2.1 r1 bound1)
      · exact h.apart r1 bound1 r2 bound2 q expanded1 expanded2
  · intro r' bound' q expanded i inside
    dsimp only at expanded ⊢
    rw [update_apply] at expanded
    split at expanded
    next same =>
      obtain ⟨⟨-, -, apart⟩, -, cells⟩ := page q expanded
      rw [write_other _ _ fun both => apart both.1, same]
      exact cells i inside
    next ne =>
      have apart := (h.pages r' bound' q expanded).2.2
      rw [write_other _ _ fun both => apart both.1, elsewhere r' ne i inside]
      exact h.cells r' bound' q expanded i inside
  · intro r' bound' unexpanded i inside
    dsimp only at unexpanded ⊢
    rw [update_apply] at unexpanded
    split at unexpanded
    next same =>
      rw [same]
      exact blank unexpanded i inside
    next ne =>
      rw [elsewhere r' ne i inside]
      exact h.blank r' bound' unexpanded i inside

/-- An entry of a leaf is written. -/
theorem Tracked.store (expanded : o.regions (region addr) = .expanded q) (x : Seen)
    (words : ∀ page flags, x = .mapped page flags → flagMask &&& page = 0 ∧ frameMask &&& flags = 0) :
    Tracked ⟨{ o.t with mem := write o.t.mem q (pageIdx addr % 2 ^ 10) x.entry },
      update o.seen (pageIdx addr) x, o.regions⟩ := by
  have bound := region_lt addr
  have index := pageIdx_eq addr
  have apart := (h.pages _ bound q expanded).2.2
  refine ⟨h.linked, ?_, h.pages, h.apart, ?_, ?_, ?_⟩
  · intro r bound'
    exact (write_other _ _ fun both => apart both.1.symm).trans (h.pgds r bound')
  · intro r bound' q' expanded' i inside
    dsimp only
    rw [update_apply]
    split
    next same =>
      obtain ⟨rfl, rfl⟩ : r = region addr ∧ i = pageIdx addr % 2 ^ 10 := by omega
      rw [expanded] at expanded'
      cases expanded'
      exact write_self ..
    next ne =>
      refine (write_other _ _ ?_).trans (h.cells r bound' q' expanded' i inside)
      rintro ⟨rfl, rfl⟩
      rw [h.apart r bound' _ bound q' expanded' expanded] at ne
      exact ne index
  · intro r bound' unexpanded i inside
    dsimp only
    rw [update_apply]
    split
    next same =>
      obtain rfl : r = region addr := by omega
      exact absurd expanded (unexpanded q)
    · exact h.blank r bound' unexpanded i inside
  · intro id page flags mapped
    dsimp only at mapped
    rw [update_apply] at mapped
    split at mapped
    · exact words page flags mapped
    · exact h.words id page flags mapped

theorem expandLeaf_eq (addr data : Word) : expandLeaf o.t addr data = match o.regions (region addr) with
      | .unexpanded => some (o.t, -1)
      | .expanded q =>
        if data ≠ 0 ∧ pgtblIsnull (o.seen (pageIdx addr)).entry = false then some (o.t, 1)
        else some ({ o.t with mem := write o.t.mem q (pageIdx addr % 2 ^ 10) (pgtblSetleaf data) }, 0)
      | .pruned => none := by
  have bound := region_lt addr
  have null := isnull_region h bound
  have run : ertExpand pgtblConsts o.t.mem o.t.pt (pageIdx addr) (pgtblConsts.depth + 1) 0 0 data = _ := expand_leaf 0
  have deep : 2 ≤ pgtblConsts.depth := by decide
  rw [expandLeaf, faults, lookup_eq h.linked _ deep, null, run, null]
  cases status : o.regions (region addr) with
  | unexpanded => rfl
  | expanded q =>
    obtain ⟨-, nonnull, -⟩ := h.pages _ bound q status
    have cell := h.cells _ bound q status (pageIdx addr % 2 ^ 10) (Nat.mod_lt _ (by decide))
    rw [pageIdx_eq] at cell
    have present : ¬ decide (Region.expanded q = .unexpanded) := by simp
    have reachable : ¬ (q == 0) := by simpa using nonnull
    rw [if_neg present, if_neg present, h.leaf bound status, cell]
    rw [if_neg reachable]
    split <;> rfl
  | pruned =>
    have entry : pgd o.t (region addr) = pgtblSet 0 := by rw [h.pgds _ bound, status, Region.entry]
    have zero : pgtblGet (pgtblSet 0) = 0 := by decide
    have present : ¬ decide (Region.pruned = .unexpanded) := by simp
    rw [if_neg present, entry, zero]
    rfl

theorem internExpand_eq (addr : Word) (aligned : flagMask &&& page = 0)
    (inside : frameMask &&& flags = 0) (nonnull : page ≠ 0) :
    pgtblInternExpand o.t addr page flags =
      if o.regions (region addr) = .unexpanded then
        some ({ o.t with mem := write o.t.mem (root o.t) (region addr) (pgtblSet page) }, 0)
      else some (o.t, -eexist) := by
  have null := isnull_region h (region_lt addr)
  have run : ertExpand pgtblConsts o.t.mem o.t.pt (pageIdx addr) pgtblConsts.depth flags page 0 = _ :=
    expand_intern flags page nonnull
  rw [pgtblInternExpand, if_pos ⟨aligned, inside⟩, if_neg nonnull, run, null]
  by_cases unexpanded : o.regions (region addr) = .unexpanded
  · rw [if_pos (decide_eq_true unexpanded), if_pos unexpanded]
    rfl
  · have present : ¬ decide (o.regions (region addr) = .unexpanded) := by simpa using unexpanded
    rw [if_neg present, if_neg unexpanded]
    exact if_pos ⟨rfl, nonnull⟩

end

/-! ## Every run -/

inductive Call where
  | expand (addr pte flags : Word)
  | prune (addr : Word)
  | add (addr page flags : Word)
  | mod (addr flags : Word)
  | del (addr : Word)
  deriving DecidableEq, Repr

def perform (o : Observed) : Call → Option Observed
  | .expand addr pte flags =>
    if Available o.t pte then
      (pgtblInternExpand (prepared o.t pte) addr pte flags).map fun (t, ret) =>
        ⟨t, o.seen, if ret = 0 then update o.regions (region addr) (.expanded pte) else o.regions⟩
    else none
  | .prune addr =>
    (pgtblInternPrune o.t addr).map fun (t, _) =>
      ⟨t, fun id => if id / 2 ^ 10 = region addr then .never else o.seen id, update o.regions (region addr) .pruned⟩
  | .add addr page flags =>
    (pgtblMappingAdd o.t addr page flags).map fun (t, ret) =>
      ⟨t, if ret = 0 then update o.seen (pageIdx addr) (.mapped page flags) else o.seen, o.regions⟩
  | .mod addr flags => (pgtblMappingMod o.t addr flags).map fun (t, _, _) => ⟨t, o.seen, o.regions⟩
  | .del addr =>
    (pgtblMappingDel o.t addr).map fun (t, ret) =>
      ⟨t, if ret = 0 then update o.seen (pageIdx addr) .deleted else o.seen, o.regions⟩

/-- Calls on a page table that was allocated. -/
def pageTable (t : Pgtbl) : System Observed Call := ⟨⟨t, fun _ => .never, fun _ => .unexpanded⟩, perform⟩

variable {ret : Int}

theorem expandLeaf_tracked (h : Tracked o) {x : Seen} (entry : x.entry = pgtblSetleaf data)
    (words : ∀ page flags, x = .mapped page flags → flagMask &&& page = 0 ∧ frameMask &&& flags = 0)
    (run : expandLeaf o.t addr data = some (s, ret)) :
    Tracked ⟨s, if ret = 0 then update o.seen (pageIdx addr) x else o.seen, o.regions⟩ := by
  rw [expandLeaf_eq h] at run
  split at run
  · cases run
    exact h
  next q expanded =>
    split at run
    · cases run
      exact h
    · cases run
      rw [← entry]
      exact h.store expanded x words
  · contradiction

/-- `pgtbl_mapping_mod` never changes anything. -/
theorem mappingMod_some {prevflags : Word}
    (run : pgtblMappingMod s addr flags = some (s', prevflags, ret)) : s' = s ∧ ret = -enoent := by
  rw [pgtblMappingMod] at run
  split at run
  · split at run
    · contradiction
    split at run
    · cases run
      exact ⟨rfl, rfl⟩
    · contradiction
  · contradiction

theorem internExpand_cases (h : Tracked o) (run : pgtblInternExpand o.t addr page flags = some (s, ret)) :
    s = o.t ∧ ret ≠ 0 ∨ flagMask &&& page = 0 ∧ page ≠ 0 ∧ o.regions (region addr) = .unexpanded ∧ ret = 0 ∧
      s = { o.t with mem := write o.t.mem (root o.t) (region addr) (pgtblSet page) } := by
  have asserted : flagMask &&& page = 0 ∧ frameMask &&& flags = 0 := by
    by_contra refused
    have failed : pgtblInternExpand o.t addr page flags = none := if_neg refused
    rw [failed] at run
    contradiction
  by_cases null : page = 0
  · rw [pgtblInternExpand, if_pos asserted, if_pos null] at run
    cases run
    exact .inl ⟨rfl, by decide⟩
  rw [internExpand_eq h addr asserted.1 asserted.2 null] at run
  split at run
  next unexpanded =>
    cases run
    exact .inr ⟨asserted.1, null, unexpanded, rfl, rfl⟩
  · cases run
    exact .inl ⟨rfl, by decide⟩

theorem internExpand_tracked (h : Tracked o) (available : Available o.t page)
    (run : pgtblInternExpand (prepared o.t page) addr page flags = some (s, ret)) :
    Tracked ⟨s, o.seen, if ret = 0 then update o.regions (region addr) (.expanded page) else o.regions⟩ := by
  have ready := prepared_tracked h available
  rcases internExpand_cases ready run with ⟨rfl, failed⟩ | ⟨aligned, nonnull, unexpanded, rfl, rfl⟩
  · rw [if_neg failed]
    exact ready
  obtain ⟨other, free⟩ := available.unused h nonnull
  have root_eq : root (prepared o.t page) = root o.t := by rw [root, root, prepared_pt]
  have never := h.blank _ (region_lt addr) fun q expanded => by
    rw [unexpanded] at expanded
    contradiction
  refine ready.enter (region_lt addr) (.expanded page) o.seen (fun q same => ?_) (fun none => ?_) (fun _ _ => rfl)
    h.words
  · cases same
    refine ⟨⟨aligned, nonnull, root_eq ▸ other⟩, free, fun i inside => ?_⟩
    exact (prepared_cell nonnull inside).trans (congrArg Seen.entry (never i inside)).symm
  · exact absurd rfl (none page)

theorem internPrune_tracked {page : Word} (h : Tracked o) (run : pgtblInternPrune o.t addr = some (s, page)) :
    Tracked ⟨s, fun id => if id / 2 ^ 10 = region addr then .never else o.seen id,
      update o.regions (region addr) .pruned⟩ := by
  have aligned : flagMask &&& addr = 0 := by
    by_contra refused
    have failed : pgtblInternPrune o.t addr = none := if_neg refused
    rw [failed] at run
    contradiction
  have first : ¬ pgtblConsts.isnullfn o.t.pt := by
    change ¬ pgtblIsnull o.t.pt = true
    simp [h.linked]
  have rounds : min 1 pgtblConsts.depth = 1 := rfl
  rw [pgtblInternPrune, if_pos aligned, ertLookup, rounds, lookupLoop, Place.read_root, if_neg first, walk_pgd] at run
  cases run
  refine h.enter (region_lt addr) .pruned _ (by simp) (fun _ i inside => ?_) (fun id other => if_neg other) ?_
  · exact if_pos (by omega)
  · intro id page flags mapped
    split at mapped
    · contradiction
    · exact h.words id page flags mapped

theorem perform_tracked {call : Call} (h : Tracked o) (run : perform o call = some o') : Tracked o' := by
  cases call with
  | expand =>
    rw [perform] at run
    split at run
    next available =>
      obtain ⟨⟨t, ret⟩, expanded, rfl⟩ := Option.map_eq_some_iff.mp run
      exact internExpand_tracked h available expanded
    · contradiction
  | prune =>
    obtain ⟨⟨t, page⟩, pruned, rfl⟩ := Option.map_eq_some_iff.mp run
    exact internPrune_tracked h pruned
  | add addr page flags =>
    obtain ⟨⟨t, ret⟩, added, rfl⟩ := Option.map_eq_some_iff.mp run
    rw [pgtblMappingAdd] at added
    split at added
    next asserted =>
      refine expandLeaf_tracked h rfl (fun page flags same => ?_) added
      cases same
      exact asserted.2
    · contradiction
  | mod =>
    obtain ⟨⟨t, prevflags, ret⟩, changed, rfl⟩ := Option.map_eq_some_iff.mp run
    obtain ⟨rfl, -⟩ := mappingMod_some changed
    exact h
  | del =>
    obtain ⟨⟨t, ret⟩, deleted, rfl⟩ := Option.map_eq_some_iff.mp run
    rw [pgtblMappingDel] at deleted
    split at deleted
    · exact expandLeaf_tracked h rfl nofun deleted
    · contradiction

variable {t : Pgtbl}

theorem alloc_tracked {m : Memory Word Word} (aligned : flagMask &&& page = 0)
    (made : pgtblAlloc m page = some (some t)) : Tracked ⟨t, fun _ => .never, fun _ => .unexpanded⟩ := by
  have nonnull : page ≠ 0 := by
    rintro rfl
    cases made
  have answer : (pgtblConsts.allocfn page (!decide (1 < pgtblConsts.depth))).1 = some page := by
    change (if page = 0 then (none, page) else (some page, 0)).1 = some page
    rw [if_neg nonnull]
  have t_eq : t = ⟨ertInit pgtblConsts m page false, pgtblSet page⟩ := by
    rw [pgtblAlloc, ertAlloc, if_pos (by decide), answer] at made
    cases made
    rfl
  subst t_eq
  refine ⟨isnull_set page, ?_, nofun, nofun, nofun, fun _ _ _ _ _ => rfl, nofun⟩
  intro r bound
  have root_eq : root ⟨ertInit pgtblConsts m page false, pgtblSet page⟩ = page := by
    rw [root, get_set, frame_aligned aligned]
  rw [pgd, root_eq]
  exact (congrFun (update_self ..) r).trans (if_pos bound)

/-- The translation is as it should be after this history. -/
def Faithful (o : Observed) (addr : Word) : Prop :=
  match o.seen (pageIdx addr) with
  | .mapped page mapped => ∀ flags, pgtblTranslate o.t addr flags = some (page, mapped)
  | _ => ∀ flags, ∃ left, pgtblTranslate o.t addr flags = some (0, left)

/-- The address was mapped or deleted since there is a page for its entry. If there is none, then the last one
was not cut off, or the entry is the first one in it. -/
def Settled (o : Observed) (addr : Word) : Prop :=
  match o.regions (region addr) with
  | .unexpanded => True
  | .expanded _ => o.seen (pageIdx addr) ≠ .never
  | .pruned => pageIdx addr % 2 ^ 10 = 0

theorem faithful_iff (h : Tracked o) (addr : Word) : Faithful o addr ↔ Settled o addr := by
  have bound := region_lt addr
  have blank := h.blank _ bound
  simp only [Faithful, Settled, translate_eq h]
  cases status : o.regions (region addr) with
  | unexpanded =>
    have never := blank (by simp [status]) (pageIdx addr % 2 ^ 10) (Nat.mod_lt _ (by decide))
    rw [pageIdx_eq] at never
    simp [never]
  | expanded =>
    cases seen : o.seen (pageIdx addr) with
    | never =>
      have high : pgtblGet Seen.never.entry ≠ 0 := by decide
      simpa using high
    | deleted =>
      have null : pgtblGet Seen.deleted.entry = 0 := by decide
      simp [null]
    | mapped page flags =>
      obtain ⟨aligned, inside⟩ := h.words _ page flags seen
      obtain ⟨frame, rest⟩ := mapped_word aligned inside
      simp [Seen.entry, get_setleaf, flags_setleaf, frame, rest]
  | pruned =>
    have never := blank (by simp [status]) (pageIdx addr % 2 ^ 10) (Nat.mod_lt _ (by decide))
    rw [pageIdx_eq] at never
    simp [never]

theorem expandLeaf_failed (h : Tracked o) (run : expandLeaf o.t addr data = some (s, ret))
    (failed : ret ≠ 0) : s = o.t := by
  rw [expandLeaf_eq h] at run
  split at run
  · cases run
    rfl
  · split at run
    · cases run
      rfl
    · cases run
      exact absurd rfl failed
  · contradiction

/-- In every run, exactly the addresses that are settled translate as they should, a region can be expanded
exactly if it never was, `pgtbl_mapping_mod` returns exactly if the address has no page, and a call that
returns an error changes no translation. -/
theorem page_translations {m : Memory Word Word} {t : Pgtbl} (aligned : flagMask &&& page = 0)
    (made : pgtblAlloc m page = some (some t)) (reached : Reachable (pageTable t) anyStep o) :
    (∀ addr, Faithful o addr ↔ Settled o addr) ∧
    (∀ addr pte flags, flagMask &&& pte = 0 → frameMask &&& flags = 0 → pte ≠ 0 → Available o.t pte →
      ((∃ t', pgtblInternExpand (prepared o.t pte) addr pte flags = some (t', 0)) ↔
        o.regions (region addr) = .unexpanded)) ∧ (∀ addr flags, flagMask &&& addr = 0 → frameMask &&& flags = 0 →
      ((∃ result, pgtblMappingMod o.t addr flags = some result) ↔ ∃ left, pgtblTranslate o.t addr 0 = some (0, left))) ∧
    ∀ addr page flags t', ∀ ret ≠ 0,
      (Available o.t page ∧ pgtblInternExpand (prepared o.t page) addr page flags = some (t', ret) ∨
        pgtblMappingAdd o.t addr page flags = some (t', ret) ∨ pgtblMappingDel o.t addr = some (t', ret) ∨
        ∃ left, pgtblMappingMod o.t addr flags = some (t', left, ret)) →
      ∀ addr' flags', pgtblTranslate t' addr' flags' = pgtblTranslate o.t addr' flags' := by
  have h := reached.invariant Tracked (alloc_tracked aligned made) fun o call o' h _ next => perform_tracked h next
  refine ⟨faithful_iff h, ?_, ?_, ?_⟩
  · intro addr pte flags aligned inside nonnull available
    rw [internExpand_eq (prepared_tracked h available) addr aligned inside nonnull]
    by_cases unexpanded : o.regions (region addr) = .unexpanded
    · simp [unexpanded]
    · simp [unexpanded, eexist]
  · intro addr flags aligned inside
    rw [pgtblMappingMod, if_pos ⟨aligned, inside⟩]
    cases pgtblTranslate o.t addr 0 with
    | none => simp
    | some result =>
      obtain ⟨page, prevflags⟩ := result
      simp
  · rintro addr page flags t' ret failed (⟨available, expanded⟩ | added | deleted | ⟨left, changed⟩) addr' flags'
    · have ready := prepared_tracked h available
      rcases internExpand_cases ready expanded with ⟨rfl, -⟩ | ⟨-, -, -, done, -⟩
      · rw [translate_eq h, ← prepared_pt o.t page]
        exact translate_eq ready addr' flags'
      · exact absurd done failed
    · rw [pgtblMappingAdd] at added
      split at added
      · rw [expandLeaf_failed h added failed]
      · contradiction
    · rw [pgtblMappingDel] at deleted
      split at deleted
      · rw [expandLeaf_failed h deleted failed]
      · contradiction
    · rw [(mappingMod_some changed).1]

def sample : Pgtbl := ⟨ertInit pgtblConsts (fun _ _ => 0) 0x1000 false, pgtblSet 0x1000⟩

/-- A mapping that a second one does not replace, and one that is deleted. -/
theorem few_pages_translated : ∃ o, Reachable (pageTable sample) anyStep o ∧
    (∀ flags, pgtblTranslate o.t 0x1000000 flags = some (0xadead000, 7)) ∧
    ∀ flags, ∃ left, pgtblTranslate o.t 0x8000000 flags = some (0, left) := by
  refine exec_reaches
    [.expand 0x1000000 0x2000 0x67, .add 0x1000000 0xadead000 7, .add 0x1000000 0xbdead000 5,
      .expand 0x8000000 0x3000 0x67, .add 0x8000000 0xcdead000 0x200, .del 0x8000000]
    (fun o => o.regions (region 0x1000000) = .expanded 0x2000 ∧ o.regions (region 0x8000000) = .expanded 0x3000 ∧
      o.seen (pageIdx 0x1000000) = .mapped 0xadead000 7 ∧ o.seen (pageIdx 0x8000000) = .deleted) (by decide +kernel)
    fun o reached ⟨first, second, mapped, deleted⟩ => ?_
  have faithful := (page_translations (by decide : flagMask &&& 0x1000 = 0) rfl reached).1
  have one := (faithful 0x1000000).mpr (by rw [Settled, first, mapped]; simp)
  have two := (faithful 0x8000000).mpr (by rw [Settled, second, deleted]; simp)
  rw [Faithful, mapped] at one
  rw [Faithful, deleted] at two
  exact ⟨one, two⟩

/-- Next to a page that is mapped, an address that never was translates to the last page. The flags of the page
that is mapped cannot be changed. After the region is cut off, the address next to it is a fault, and the region
cannot be expanded again. -/
theorem translations_misled : ∃ o o', Reachable (pageTable sample) anyStep o ∧
    o.seen (pageIdx 0x1000000) = .mapped 0xadead000 7 ∧ o.seen (pageIdx 0x1001000) = .never ∧
    pgtblTranslate o.t 0x1001000 0 = some (0xfffff000, 0) ∧ pgtblMappingMod o.t 0x1000000 5 = none ∧
    perform o (.prune 0x1000000) = some o' ∧ pgtblTranslate o'.t 0x1001000 0 = none ∧ Available o'.t 0x2000 ∧
    (pgtblInternExpand (prepared o'.t 0x2000) 0x1000000 0x2000 0x67).map Prod.snd = some (-eexist) := by
  obtain ⟨o, run, mapped, never, last, asserted, o', pruned, rest⟩ := exec_ends (pageTable sample) anyStep
    [.expand 0x1000000 0x2000 0x67, .add 0x1000000 0xadead000 7]
    (fun o => o.seen (pageIdx 0x1000000) = .mapped 0xadead000 7 ∧ o.seen (pageIdx 0x1001000) = .never ∧
      pgtblTranslate o.t 0x1001000 0 = some (0xfffff000, 0) ∧ (pgtblMappingMod o.t 0x1000000 5).isNone = true ∧
      ∃ o' ∈ perform o (.prune 0x1000000), pgtblTranslate o'.t 0x1001000 0 = none ∧ Available o'.t 0x2000 ∧
        (pgtblInternExpand (prepared o'.t 0x2000) 0x1000000 0x2000 0x67).map Prod.snd = some (-eexist))
    (by decide +kernel)
  exact ⟨o, o', ⟨_, run⟩, mapped, never, last, Option.isNone_iff_eq_none.mp asserted, pruned, rest⟩

end SuperGlue.Guarantees.PageTranslation
