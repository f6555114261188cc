import SuperGlue.Lib.PrefixTree

/-!
# Ids of names

`uniq_map/fs_map/uniq_map.c` as far as it gives ids to names. The children of a node are an array of 27 entries
that is indexed by `c - 'a'`. The index of most other characters, `/` among them, is negative and falls into the
array in front of it in the same node, which holds zeroes for a name of a file, so there the character has an
entry of its own as well. The characters after `{` fall behind the node.
-/
namespace SuperGlue.Source.UniqMap.Names
open Function Lib.PrefixTree

/-- A string without its final zero. -/
abbrev Str := List UInt8

def alphabetSize : Int := 27

/-- `CHAR_TO_INDEX` of a `char`, which is signed. -/
def charToIndex (c : UInt8) : Int := (if c.toNat < 128 then (c.toNat : Int) else c.toNat - 256) - 97

/-- The entry of the character is in its node. -/
def inNode (c : UInt8) : Bool := charToIndex c < alphabetSize

structure NameMap where
  trie : Trie UInt8
  /-- The ids that `cos_map_add` has given out. -/
  used : Nat → Bool

/-- The root has the id 0. -/
def NameMap.init : NameMap := ⟨.empty, fun id => id == 0⟩

/-- `uniq_map_lookup`, with the answer of `cos_map_add`. Without a result, it has left a node. -/
def uniqMapLookup (m : NameMap) (str : Str) (fresh : Nat) : Option (NameMap × Nat) :=
  if str.all inNode = false then none
  else if m.trie.search str ≠ 0 then some (m, m.trie.search str)
  else some (⟨m.trie.insert str fresh, update m.used fresh true⟩, fresh)

/-! ## What it returns -/

/-- The ids of names are in use, and no two names have the same. -/
structure NameMap.Valid (m : NameMap) : Prop where
  wellFormed : m.trie.WellFormed
  used : ∀ str, m.trie.search str ≠ 0 → m.used (m.trie.search str) = true
  distinct : ∀ str str', m.trie.search str ≠ 0 → m.trie.search str = m.trie.search str' → str = str'
  zero : m.used 0 = true

theorem search_empty (str : Str) : (Trie.empty : Trie UInt8).search str = 0 := by
  cases str <;> rfl

theorem init_valid : NameMap.init.Valid :=
  ⟨Trie.empty_wellFormed, fun str named => absurd (search_empty str) named,
    fun str _ named => absurd (search_empty str) named, rfl⟩

variable {m m' : NameMap} {str : Str} {fresh id : Nat}

/-- A new name with an id that is not in use. -/
theorem NameMap.Valid.insert (valid : m.Valid) (unused : m.used fresh = false) (str : Str) :
    (⟨m.trie.insert str fresh, update m.used fresh true⟩ : NameMap).Valid := by
  have self := Trie.search_insert_self m.trie valid.wellFormed str fresh
  have other : ∀ key, key ≠ str → (m.trie.insert str fresh).search key = m.trie.search key := fun key ne =>
    Trie.search_insert_other m.trie valid.wellFormed ne fresh
  have apart : ∀ key, m.trie.search key ≠ 0 → m.trie.search key ≠ fresh := by
    intro key named same
    have inUse := valid.used key named
    rw [same, unused] at inUse
    contradiction
  have pos : fresh ≠ 0 := by
    rintro rfl
    have inUse := valid.zero
    rw [unused] at inUse
    contradiction
  refine ⟨Trie.insert_wellFormed m.trie valid.wellFormed str fresh, ?_, ?_, ?_⟩
  · intro key named
    dsimp only at named ⊢
    by_cases same : key = str
    · rw [same, self, update_self]
    · rw [other key same] at named ⊢
      rw [update_of_ne (apart key named)]
      exact valid.used key named
  · intro key key' named same
    by_cases isNew : key = str
    · by_cases isNew' : key' = str
      · rw [isNew, isNew']
      · rw [isNew, self, other key' isNew'] at same
        exact absurd same.symm (apart key' (by omega))
    rw [other key isNew] at named same
    by_cases isNew' : key' = str
    · rw [isNew', self] at same
      exact absurd same (apart key named)
    · rw [other key' isNew'] at same
      exact valid.distinct key key' named same
  · dsimp only
    rw [update_of_ne (Ne.symm pos)]
    exact valid.zero

/-- The name has the id that is returned, and the others keep theirs. -/
theorem uniqMapLookup_spec (valid : m.Valid) (unused : m.used fresh = false)
    (found : uniqMapLookup m str fresh = some (m', id)) : m'.Valid ∧ id ≠ 0 ∧ m'.trie.search str = id ∧
      ∀ key, m.trie.search key ≠ 0 → m'.trie.search key = m.trie.search key := by
  unfold uniqMapLookup at found
  split at found
  · contradiction
  split at found
  next named =>
    cases found
    exact ⟨valid, named, rfl, fun _ _ => rfl⟩
  rename_i new
  have new := not_not.mp new
  cases found
  refine ⟨valid.insert unused str, ?_, Trie.search_insert_self m.trie valid.wellFormed str fresh, ?_⟩
  · rintro rfl
    have inUse := valid.zero
    rw [unused] at inUse
    contradiction
  · intro key named
    have ne : key ≠ str := by
      rintro rfl
      exact named new
    exact Trie.search_insert_other m.trie valid.wellFormed ne fresh

end SuperGlue.Source.UniqMap.Names
