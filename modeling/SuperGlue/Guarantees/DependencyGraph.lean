import SuperGlue.Source.Loader.Dependencies

/-!
# The check of the dependency graph

There is a cycle if and only if the dependencies of some service can be followed deeper than there are services.
-/
namespace SuperGlue.Guarantees.DependencyGraph
open Function List Relation Source.Loader.Dependencies

/-! ## Chains -/

variable {n : Nat} (depth : Fin n → Nat) {dependencies : Fin n → List (Fin n)} {a b s : Fin n}

def Acyclic (dependencies : Fin n → List (Fin n)) : Prop := ∀ s, ¬ TransGen (fun a b => b ∈ dependencies a) s s

/-- `k` dependencies lead from `a` to `b`. -/
def Chain (dependencies : Fin n → List (Fin n)) : Nat → Fin n → Fin n → Prop
  | 0, a, b => a = b
  | k + 1, a, b => ∃ d ∈ dependencies a, Chain dependencies k d b

/-- Around a cycle there are chains of every length. -/
theorem chain_of_cycle (cycle : TransGen (fun a b => b ∈ dependencies a) s s) (k : Nat) :
    ∃ b, Chain dependencies k s b := by
  induction k generalizing s with
  | zero => exact ⟨s, rfl⟩
  | succ k ih =>
    obtain ⟨d, next, back⟩ := TransGen.head'_iff.mp cycle
    obtain ⟨b, chain⟩ := ih (.tail' back next)
    exact ⟨b, d, next, chain⟩

/-- Without a cycle the services of a chain are different ones. -/
theorem chain_services {k : Nat} (acyclic : Acyclic dependencies) (chain : Chain dependencies k a b) :
    ∃ services : Finset (Fin n), services.card = k + 1 ∧
      ∀ s ∈ services, ReflTransGen (fun a b => b ∈ dependencies a) a s := by
  induction k generalizing a with
  | zero => exact ⟨{a}, rfl, fun s member => Finset.mem_singleton.mp member ▸ .refl⟩
  | succ k ih =>
    obtain ⟨d, next, rest⟩ := chain
    obtain ⟨services, count, reached⟩ := ih rest
    have outside : a ∉ services := fun member => acyclic a (.head' next (reached a member))
    refine ⟨insert a services, by rw [Finset.card_insert_of_notMem outside, count], ?_⟩
    intro s member
    rcases Finset.mem_insert.mp member with rfl | member
    · exact .refl
    · exact .head next (reached s member)

theorem long_chain_iff : (∃ a b, Chain dependencies (n + 1) a b) ↔ ¬ Acyclic dependencies := by
  constructor
  · rintro ⟨a, b, chain⟩ acyclic
    obtain ⟨services, count, -⟩ := chain_services acyclic chain
    have bound := services.card_le_univ
    rw [Fintype.card_fin] at bound
    omega
  · intro cyclic
    obtain ⟨s, cycle⟩ := not_forall.mp cyclic
    exact ⟨s, chain_of_cycle (not_not.mp cycle) (n + 1)⟩

/-! ## What the recursion records -/

theorem le_raise (s b : Fin n) (c m : Nat) : m ≤ raise depth s c b ↔ m ≤ depth b ∨ s = b ∧ m ≤ c := by
  unfold raise
  split <;> grind [update_apply]

/-- A check fails if it gets too `deep`, and else raises every depth to those of the visits. -/
def Records (deep : Prop) (visited : Fin n → Nat → Prop) : Option (Fin n → Nat) → Prop
  | none => deep
  | some depth' => ¬ deep ∧ ∀ b m, m ≤ depth' b ↔ m ≤ depth b ∨ visited b m

theorem foldlM_records {check : (Fin n → Nat) → Fin n → Option (Fin n → Nat)} {deep : Fin n → Prop}
    {visited : Fin n → Fin n → Nat → Prop} (each : ∀ depth s, Records depth (deep s) (visited s) (check depth s))
    (services : List (Fin n)) (depth : Fin n → Nat) :
    Records depth (∃ s ∈ services, deep s) (fun b m => ∃ s ∈ services, visited s b m) (services.foldlM check depth) := by
  induction services generalizing depth with
  | nil => simp [Records]
  | cons s services ih =>
    have first := each depth s
    rw [foldlM_cons]
    simp only [exists_mem_cons_iff]
    cases checked : check depth s with
    | none =>
      rw [checked] at first
      exact .inl first
    | some depth1 =>
      rw [checked] at first
      have rest := ih depth1
      rw [Option.bind_eq_bind, Option.bind_some]
      cases result : services.foldlM check depth1 with
      | none =>
        rw [result] at rest
        exact .inr rest
      | some depth2 =>
        rw [result] at rest
        refine ⟨not_or.mpr ⟨first.1, rest.1⟩, fun b m => ?_⟩
        rw [rest.2, first.2, or_assoc]

/-- Everything is visited that a chain from the service leads to, at the depth that the chain adds. -/
theorem recVerifyDag_records (dependencies : Fin n → List (Fin n)) {maxDepth c r : Nat} (left : c + r = maxDepth + 1)
    (depth : Fin n → Nat) (s : Fin n) :
    Records depth (∃ b, Chain dependencies r s b) (fun b m => ∃ k, Chain dependencies k s b ∧ m ≤ c + k)
      (recVerifyDag dependencies maxDepth c depth s) := by
  induction r generalizing c depth s with
  | zero =>
    rw [recVerifyDag, if_pos (by omega)]
    exact ⟨s, rfl⟩
  | succ r ih =>
    have folded := foldlM_records (ih (c := c + 1) (by omega)) (dependencies s) (raise depth s c)
    rw [recVerifyDag, if_neg (by omega)]
    generalize foldlM (recVerifyDag _ _ _) _ _ = result at folded ⊢
    cases result with
    | none =>
      obtain ⟨d, next, b, chain⟩ := folded
      exact ⟨b, d, next, chain⟩
    | some depth' =>
      obtain ⟨short, raised⟩ := folded
      refine ⟨fun ⟨b, d, next, chain⟩ => short ⟨d, next, b, chain⟩, fun b m => ?_⟩
      rw [raised, le_raise, or_assoc]
      refine or_congr_right ⟨?_, ?_⟩
      · rintro (⟨same, low⟩ | ⟨d, next, k, chain, low⟩)
        · exact ⟨0, same, low⟩
        · exact ⟨k + 1, ⟨d, next, chain⟩, by omega⟩
      · rintro ⟨_ | k, chain, low⟩
        · exact .inl ⟨chain, low⟩
        · obtain ⟨d, next, chain⟩ := chain
          exact .inr ⟨d, next, k, chain, by omega⟩

/-- The check of new services succeeds if and only if there is no cycle, and then the depth of a service is the length
of the longest chain that ends in it. -/
theorem dependency_graph_checked (dependencies : Fin n → List (Fin n)) :
    ((verifyDependencySoundness dependencies fun _ => 0).isSome ↔ Acyclic dependencies) ∧
      ∀ depth, verifyDependencySoundness dependencies (fun _ => 0) = some depth →
        ∀ b, IsGreatest {k | ∃ a, Chain dependencies k a b} (depth b) := by
  have records := foldlM_records (recVerifyDag_records dependencies (Nat.zero_add (n + 1)))
    (finRange n) fun _ => 0
  simp only [mem_finRange, true_and, long_chain_iff, Nat.zero_add] at records
  cases result : verifyDependencySoundness dependencies fun _ => 0 with
  | none =>
    rw [← verifyDependencySoundness, result] at records
    exact ⟨⟨nofun, fun acyclic => absurd acyclic records⟩, nofun⟩
  | some depth =>
    rw [← verifyDependencySoundness, result] at records
    obtain ⟨acyclic, recorded⟩ := records
    refine ⟨⟨fun _ => not_not.mp acyclic, fun _ => rfl⟩, ?_⟩
    rintro _ ⟨⟩ b
    have bound : ∀ {a k}, Chain dependencies k a b → k ≤ depth b := fun chain =>
      (recorded b _).mpr (.inr ⟨_, _, chain, Nat.le_refl _⟩)
    refine ⟨?_, fun k ⟨a, chain⟩ => bound chain⟩
    rcases (recorded b (depth b)).mp (Nat.le_refl _) with zero | ⟨a, k, chain, low⟩
    · exact ⟨b, by rw [Nat.le_zero.mp zero]; rfl⟩
    · exact ⟨a, Nat.le_antisymm low (bound chain) ▸ chain⟩

end SuperGlue.Guarantees.DependencyGraph
