import SuperGlue.Source.UniqMap.Names

/-!
# Ids of paths

Equal paths get equal ids and different paths different ones, in every order of lookups. The index of `/` is not one
of the 27 children, though the comment at `ALPHABET_SIZE` counts it among them.
-/
namespace SuperGlue.Guarantees.NameIds
open List Source.UniqMap.Names

variable {m : NameMap} {log : List (Str × Nat)}

def slash : UInt8 := 47

/-- A string of lower-case letters and `/`. -/
def IsPath (str : Str) : Prop := ∀ c ∈ str, c = slash ∨ 97 ≤ c.toNat ∧ c.toNat ≤ 122

def inChildren (c : UInt8) : Bool := 0 ≤ charToIndex c ∧ charToIndex c < alphabetSize

/-- Lookups in their order, each with what it returns. `cos_map_add` answers with an id that is not in use. -/
inductive Lookups : NameMap → List (Str × Nat) → Prop
  | nil (m : NameMap) : Lookups m []
  | cons {m m' : NameMap} {str : Str} {id : Nat} {log : List (Str × Nat)} (fresh : Nat) (unused : m.used fresh = false)
      (found : uniqMapLookup m str fresh = some (m', id)) (later : Lookups m' log) : Lookups m ((str, id) :: log)

structure Identifies (log : List (Str × Nat)) : Prop where
  positive : ∀ a ∈ log, 0 < a.2
  same : ∀ a ∈ log, ∀ b ∈ log, a.2 = b.2 ↔ a.1 = b.1
  inside : ∀ a ∈ log, ∀ c ∈ a.1, inChildren c

theorem path_inNode {str : Str} (path : IsPath str) : str.all inNode := by
  rw [all_eq_true]
  intro c mem
  rw [inNode, charToIndex, alphabetSize, decide_eq_true_iff]
  rcases path c mem with rfl | ⟨low, high⟩
  · decide
  · rw [if_pos (by omega)]
    omega

theorem uniqMapLookup_returns {str : Str} (path : IsPath str) (fresh : Nat) :
    (uniqMapLookup m str fresh).isSome := by
  rw [uniqMapLookup, if_neg (by simp [path_inNode path])]
  split <;> rfl

theorem lookups_spec (run : Lookups m log) (valid : m.Valid) :
    ∃ m' : NameMap, m'.Valid ∧ (∀ key, m.trie.search key ≠ 0 → m'.trie.search key = m.trie.search key) ∧
      ∀ a ∈ log, a.2 ≠ 0 ∧ m'.trie.search a.1 = a.2 := by
  induction run with
  | nil m => exact ⟨m, valid, fun _ _ => rfl, by simp⟩
  | cons fresh unused found _ ih =>
    obtain ⟨valid, pos, named, keeps⟩ := uniqMapLookup_spec valid unused found
    obtain ⟨m', valid, later, logged⟩ := ih valid
    refine ⟨m', valid, fun key old => ?_, forall_mem_cons.mpr ⟨⟨pos, ?_⟩, logged⟩⟩
    · rw [later key (by rwa [keeps key old]), keeps key old]
    · rw [later _ (by rwa [named]), named]

theorem letter_inside {c : UInt8} (low : 97 ≤ c.toNat) (high : c.toNat ≤ 122) : inChildren c := by
  rw [inChildren, charToIndex, alphabetSize, if_pos (by omega), decide_eq_true_iff]
  omega

/-- Every lookup of a path returns, and all that is asked holds exactly if no path has a `/`. -/
theorem lookups_identify_iff (run : Lookups .init log) (paths : ∀ a ∈ log, IsPath a.1) :
    (∀ m fresh, ∀ a ∈ log, (uniqMapLookup m a.1 fresh).isSome) ∧
      (Identifies log ↔ ∀ a ∈ log, slash ∉ a.1) := by
  refine ⟨fun m fresh a member => uniqMapLookup_returns (paths a member) fresh, ?_, ?_⟩
  · intro all a member has
    exact absurd (all.inside a member slash has) (by decide)
  intro none
  obtain ⟨_, valid, -, logged⟩ := lookups_spec run init_valid
  refine ⟨fun a member => Nat.pos_of_ne_zero (logged a member).1, fun a mem b mem' => ?_, fun a member c has => ?_⟩
  · obtain ⟨pos, named⟩ := logged a mem
    obtain ⟨-, named'⟩ := logged b mem'
    constructor
    · intro same
      exact valid.distinct _ _ (by rwa [named]) (by rw [named, named', same])
    · intro same
      rw [← named, ← named', same]
  · rcases paths a member c has with rfl | ⟨low, high⟩
    · exact absurd has (none a member)
    · exact letter_inside low high

/-- `a`, `ab` and `b`, the first two of them again. -/
def repeated : List (Str × Nat) := [([97], 1), ([97, 98], 2), ([97], 1), ([98], 3), ([97, 98], 2)]

theorem repeated_identified : Lookups .init repeated ∧ Identifies repeated :=
  have run : Lookups .init repeated :=
    .cons 1 rfl rfl (.cons 2 rfl rfl (.cons 3 rfl rfl (.cons 3 rfl rfl (.cons 4 rfl rfl (.nil _)))))
  ⟨run, (lookups_identify_iff run (by simp [repeated, IsPath])).2.mpr (by simp [repeated, slash])⟩

theorem slash_no_child : Lookups .init [([slash], 1)] ∧ IsPath [slash] ∧ ¬ Identifies [([slash], 1)] :=
  ⟨.cons 1 rfl rfl (.nil _), by simp [IsPath], fun all => absurd (all.inside _ mem_cons_self slash mem_cons_self) (by decide)⟩

end SuperGlue.Guarantees.NameIds
