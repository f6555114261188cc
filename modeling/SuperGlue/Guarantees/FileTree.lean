import SuperGlue.Guarantees.FileChanges

/-!
# The tree of objects

Children and parents of the file system objects fit together, and stay so when an object is changed, added below a
directory, or removed as a leaf.
-/
namespace SuperGlue.Guarantees.FileTree
open List Function Lib.FiniteMap Source.Ramfs.Tree FileChanges

/-- Children and parents fit together, and only the root has no parent. -/
structure Wooded (h : Heap) : Prop where
  root : ∃ r, h 0 = some r ∧ r.parent = none
  orphan : ∀ c g, h c = some g → g.parent = none → c = 0
  child : ∀ a f c, h a = some f → c ∈ f.child → ∃ g, h c = some g ∧ g.parent = some a
  parent : ∀ c g p, h c = some g → g.parent = some p → ∃ f, h p = some f ∧ c ∈ f.child
  nodup : ∀ a f, h a = some f → f.child.Nodup

variable {h : Heap}

theorem Wooded.closed (wooded : Wooded h) : Closed h := by
  constructor
  · intro a f c known mem
    obtain ⟨g, found, -⟩ := wooded.child a f c known mem
    simp [found]
  · intro c g p known above
    obtain ⟨f, found, -⟩ := wooded.parent c g p known above
    simp [found]

variable {o x : Nat} {l : List Nat}

theorem mem_addList : x ∈ addList l o ↔ x = o ∨ x ∈ l := by
  cases l with
  | nil => simp [addList]
  | cons =>
    simp only [addList, mem_cons]
    tauto

theorem addList_nodup (nodup : l.Nodup) (fresh : o ∉ l) : (addList l o).Nodup := by
  cases l with
  | nil => simp [addList]
  | cons =>
    simp only [addList, nodup_cons, mem_cons, not_or] at nodup fresh ⊢
    exact ⟨⟨Ne.symm fresh.1, nodup.1⟩, fresh.2, nodup.2⟩

variable {f : Fsobj}

/-- An object is changed, but not its place. -/
theorem Wooded.edit {a : Nat} {f' : Fsobj} (wooded : Wooded h) (known : h a = some f) (up : f'.parent = f.parent)
    (down : f'.child = f.child) : Wooded (update h a (some f')) := by
  -- every object of the new heap has the links of the old one
  have old : ∀ x g, update h a (some f') x = some g →
      ∃ g₀, h x = some g₀ ∧ g.parent = g₀.parent ∧ g.child = g₀.child := by
    intro x g found
    obtain ⟨rfl, rfl⟩ | ⟨-, found⟩ := update_known found
    · exact ⟨f, known, up, down⟩
    · exact ⟨g, found, rfl, rfl⟩
  have new : ∀ x g₀, h x = some g₀ →
      ∃ g, update h a (some f') x = some g ∧ g.parent = g₀.parent ∧ g.child = g₀.child := by
    intro x g₀ found
    by_cases same : x = a
    · subst same
      cases known.symm.trans found
      exact ⟨f', update_self .., up, down⟩
    · exact ⟨g₀, by rwa [update_of_ne same], rfl, rfl⟩
  constructor
  · obtain ⟨r, found, none_⟩ := wooded.root
    obtain ⟨r', found', up', -⟩ := new 0 r found
    exact ⟨r', found', up'.trans none_⟩
  · intro c g found none_
    obtain ⟨g₀, found0, up0, -⟩ := old c g found
    exact wooded.orphan c g₀ found0 (up0.symm.trans none_)
  · intro x g c found mem
    obtain ⟨g₀, found0, -, down0⟩ := old x g found
    obtain ⟨k, below, above⟩ := wooded.child x g₀ c found0 (down0 ▸ mem)
    obtain ⟨k', below', up', -⟩ := new c k below
    exact ⟨k', below', up'.trans above⟩
  · intro c g p found above
    obtain ⟨g₀, found0, up0, -⟩ := old c g found
    obtain ⟨k, known', mem⟩ := wooded.parent c g₀ p found0 (up0.symm.trans above)
    obtain ⟨k', found', -, down'⟩ := new p k known'
    exact ⟨k', found', down' ▸ mem⟩
  · intro x g found
    obtain ⟨g₀, found0, -, down0⟩ := old x g found
    rw [down0]
    exact wooded.nodup x g₀ found0

variable {parent : Nat} {c p : Fsobj} {g₀ : Fsobj}

variable (above : h parent = some p)
include above

/-- An object behind an addition is the new one, or an old one that differs in its children at most. -/
theorem added_known {g : Fsobj}
    (found : fsobjChildAdd h o parent c p x = some g) : x = o ∧ g = { c with parent := some parent } ∨
      ∃ g₀, h x = some g₀ ∧ g = { g₀ with child := g.child } ∧
        (g.child = g₀.child ∨ x = parent ∧ g.child = addList g₀.child o) := by
  obtain ⟨rfl, rfl⟩ | ⟨-, found⟩ := update_known found
  · exact .inr ⟨p, above, rfl, .inr ⟨rfl, rfl⟩⟩
  · exact (update_known found).imp_right fun ⟨_, found⟩ => ⟨g, found, rfl, .inl rfl⟩

theorem added_kept (unused : h o = none) (found : h x = some g₀) :
    ∃ g, fsobjChildAdd h o parent c p x = some g ∧ g = { g₀ with child := g.child } ∧ ∀ y ∈ g₀.child, y ∈ g.child := by
  by_cases here : x = parent
  · subst here
    cases above.symm.trans found
    exact ⟨_, update_self .., rfl, fun y mem => mem_addList.mpr (.inr mem)⟩
  · have other : x ≠ o := by
      rintro rfl
      simp [unused] at found
    exact ⟨g₀, by simp [fsobjChildAdd, here, other, found], rfl, fun y mem => mem⟩

theorem added_new (unused : h o = none) :
    fsobjChildAdd h o parent c p o = some { c with parent := some parent } := by
  have apart : o ≠ parent := by
    rintro rfl
    simp [unused] at above
  simp [fsobjChildAdd, apart]

/-- A new leaf below a directory. -/
theorem Wooded.add (wooded : Wooded h) (unused : h o = none)
    (leaf : c.child = []) : Wooded (fsobjChildAdd h o parent c p) := by
  have notChild : ∀ x g, h x = some g → o ∉ g.child := by
    intro x g found member
    obtain ⟨k, allocated, -⟩ := wooded.child x g o found member
    simp [unused] at allocated
  constructor
  · obtain ⟨r, found, none_⟩ := wooded.root
    obtain ⟨r', found', frame, -⟩ := added_kept above unused found
    exact ⟨r', found', by rw [frame, none_]⟩
  · intro x g found none_
    obtain ⟨-, rfl⟩ | ⟨g₀, found0, frame, -⟩ := added_known above found
    · contradiction
    · rw [frame] at none_
      exact wooded.orphan x g₀ found0 none_
  · intro x g y found member
    have oldChild : ∀ g₀, h x = some g₀ → y ∈ g₀.child →
        ∃ k, fsobjChildAdd h o parent c p y = some k ∧ k.parent = some x := by
      intro g₀ found0 member
      obtain ⟨k, below, up⟩ := wooded.child x g₀ y found0 member
      obtain ⟨k', below', frame, -⟩ := added_kept above unused below
      exact ⟨k', below', by rw [frame, up]⟩
    obtain ⟨-, rfl⟩ | ⟨g₀, found0, -, same | ⟨rfl, more⟩⟩ := added_known above found
    · simp [leaf] at member
    · exact oldChild g₀ found0 (same ▸ member)
    · rcases mem_addList.mp (more ▸ member) with rfl | member
      · exact ⟨_, added_new above unused, rfl⟩
      · exact oldChild g₀ found0 member
  · intro x g q found up
    obtain ⟨rfl, rfl⟩ | ⟨g₀, found0, frame, -⟩ := added_known above found
    · cases up
      exact ⟨_, update_self .., mem_addList.mpr (.inl rfl)⟩
    · rw [frame] at up
      obtain ⟨k, found1, member⟩ := wooded.parent x g₀ q found0 up
      obtain ⟨k', found', -, members⟩ := added_kept above unused found1
      exact ⟨k', found', members x member⟩
  · intro x g found
    obtain ⟨-, rfl⟩ | ⟨g₀, found0, -, same | ⟨-, more⟩⟩ := added_known above found
    · simp [leaf]
    · rw [same]
      exact wooded.nodup x g₀ found0
    · rw [more]
      exact addList_nodup (wooded.nodup x g₀ found0) (notChild x g₀ found0)

theorem removed_none (x : Nat) :
    update (fsobjRem h o parent f p) o none x = none ↔ x = o ∨ h x = none := by
  by_cases removed : x = o
  · simp [removed]
  · by_cases here : x = parent
    · simp [fsobjRem, here, above, here ▸ removed]
    · simp [fsobjRem, here, removed]

/-- What is left behind a removal differs in its children at most. -/
theorem removed_known {g : Fsobj}
    (found : update (fsobjRem h o parent f p) o none x = some g) :
    x ≠ o ∧ ∃ g₀, h x = some g₀ ∧ g = { g₀ with child := g.child } ∧
      (x ≠ parent ∧ g.child = g₀.child ∨ g.child = g₀.child.erase o) := by
  have other : x ≠ o := by
    rintro rfl
    simp at found
  refine ⟨other, ?_⟩
  rw [update_of_ne other] at found
  obtain ⟨rfl, rfl⟩ | ⟨elsewhere, found⟩ := update_known found
  · exact ⟨p, above, rfl, .inr rfl⟩
  · rw [update_of_ne other] at found
    exact ⟨g, found, rfl, .inl ⟨elsewhere, rfl⟩⟩

theorem removed_kept (other : x ≠ o) (found : h x = some g₀) :
    ∃ g, update (fsobjRem h o parent f p) o none x = some g ∧ g = { g₀ with child := g.child } ∧
      ∀ y ∈ g₀.child, y ≠ o → y ∈ g.child := by
  by_cases here : x = parent
  · subst here
    cases above.symm.trans found
    refine ⟨{ p with child := p.child.erase o }, by simp [fsobjRem, other], rfl, fun y mem ne => ?_⟩
    exact (mem_erase_of_ne ne).mpr mem
  · exact ⟨g₀, by simp [fsobjRem, other, here, found], rfl, fun y mem _ => mem⟩

/-- A leaf is taken out of the tree and freed. -/
theorem Wooded.remove (wooded : Wooded h) (known : h o = some f) (leaf : f.child = []) (inside : f.parent = some parent)
    : Wooded (update (fsobjRem h o parent f p) o none) := by
  -- the removed object is no child any more, as it had one parent
  have members : ∀ x g, update (fsobjRem h o parent f p) o none x = some g →
      ∃ g₀, h x = some g₀ ∧ ∀ y ∈ g.child, y ∈ g₀.child ∧ y ≠ o := by
    intro x g found
    obtain ⟨-, g₀, found0, -, ⟨elsewhere, same⟩ | less⟩ := removed_known above found
    · refine ⟨g₀, found0, fun y mem => ⟨same ▸ mem, ?_⟩⟩
      rintro rfl
      obtain ⟨k, below, up⟩ := wooded.child x g₀ y found0 (same ▸ mem)
      cases known.symm.trans below
      exact elsewhere (Option.some.inj (up.symm.trans inside))
    · have nodup := wooded.nodup x g₀ found0
      refine ⟨g₀, found0, fun y mem => ?_⟩
      rw [less] at mem
      exact ⟨mem_of_mem_erase mem, fun same => nodup.not_mem_erase (same ▸ mem)⟩
  constructor
  · obtain ⟨r, found, none_⟩ := wooded.root
    have other : 0 ≠ o := by
      rintro rfl
      cases known.symm.trans found
      simp [inside] at none_
    obtain ⟨r', found', frame, -⟩ := removed_kept above other found
    exact ⟨r', found', by rw [frame, none_]⟩
  · intro x g found none_
    obtain ⟨-, g₀, found0, frame, -⟩ := removed_known above found
    rw [frame] at none_
    exact wooded.orphan x g₀ found0 none_
  · intro x g y found mem
    obtain ⟨g₀, found0, members⟩ := members x g found
    obtain ⟨mem, ne⟩ := members y mem
    obtain ⟨k, below, up⟩ := wooded.child x g₀ y found0 mem
    obtain ⟨k', below', frame, -⟩ := removed_kept above ne below
    exact ⟨k', below', by rw [frame, up]⟩
  · intro x g q found up
    obtain ⟨other, g₀, found0, frame, -⟩ := removed_known above found
    rw [frame] at up
    obtain ⟨k, found1, mem⟩ := wooded.parent x g₀ q found0 up
    have notLeaf : q ≠ o := by
      rintro rfl
      cases known.symm.trans found1
      simp [leaf] at mem
    obtain ⟨k', found', -, members⟩ := removed_kept above notLeaf found1
    exact ⟨k', found', members x mem other⟩
  · intro x g found
    obtain ⟨-, g₀, found0, -, ⟨-, same⟩ | less⟩ := removed_known above found
    · rw [same]
      exact wooded.nodup x g₀ found0
    · rw [less]
      exact (wooded.nodup x g₀ found0).erase o

end SuperGlue.Guarantees.FileTree
