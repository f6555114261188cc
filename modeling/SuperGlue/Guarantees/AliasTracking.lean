import SuperGlue.Guarantees.AliasTrees

/-!
# Looking up records of aliases

Looking an address up should give the record of that address and no other. This takes that no alias is made
from an address which is itself a tracked alias: the two fields that link a record to its parent are those
that link its own aliases to it, so such an alias joins two rings, and the removal of one page then reaches
the records of the other. Without such aliases, only pages that are no aliases have some, so every traversal
is one over the aliases of a page.
-/
namespace SuperGlue.Guarantees.AliasTracking
open Lib.Transition Lib.Ring Source.MemMgr.Stub AliasTrees

/-- The lookup of the addresses in `D`. -/
structure Tracked (D : Addr → Prop) (s : State) : Prop where
  /-- What is found is live and is the record of this address. -/
  same : ∀ a, D a → ∀ p, rdmmLookup s a = some p → p ∈ s.live ∧ s.home p = a
  /-- Every live record is found at its address, so no two share an entry. -/
  found : ∀ p ∈ s.live, rdmmLookup s (s.home p) = some p

/-- The addresses of the call are in `D`, and a new alias is made from a page that has no record or that of
a parent. -/
def Careful (D : Addr → Prop) (s : State) : Label → Prop
  | .aliasPage _ sAddr _ dAddr _ =>
    D sAddr ∧ D dAddr ∧ (rdmmLookup s dAddr = none → ∀ q ∈ rdmmLookup s sAddr, (s.node q).isParent = true)
  | .revokePage _ _ _ => True

instance (D : Addr → Prop) [DecidablePred D] : DecidableRel (Careful D)
  | _, .aliasPage .. => inferInstanceAs (Decidable (_ ∧ _))
  | _, .revokePage .. => instDecidableTrue

variable {D : Addr → Prop} {R : Ptr → List Ptr} {s s' : State} {me : SpdId} {addr : Addr}

/-- Aliases are made only from pages that are no aliases. -/
def Flattened (s : State) : Prop := ∀ q ∈ s.live, (s.node q).isParent = true → Root s q

theorem passable_flattened (h : Trees D R s) (flat : Flattened s) (me : SpdId) (addr : Addr) :
    Passable me R s addr := by
  intro rd found
  obtain ⟨lookup, isParent⟩ := parentAt_some found
  have live := (h.entry _ rd lookup).1
  have root := flat rd live isParent
  refine ⟨root, h.ring live root, fun q inside isParent => ?_⟩
  obtain ⟨mem, other⟩ := (mem_tail_iff h.toRecords live root).mp inside
  obtain ⟨-, liveQ, only⟩ := h.member rd q mem
  exact absurd (only (flat q liveQ isParent)) other

theorem step_flattened {label : Label} (h : Trees D R s) (flat : Flattened s) (distinct : Distinct D)
    (careful : Careful D s label) (taken : step me s label = some s') : ∃ R', Trees D R' s' ∧ Flattened s' := by
  cases label with
  | aliasPage =>
    rcases aliasPage_cases taken with rfl | ⟨nonzero, tracked⟩
    · exact ⟨R, h, flat⟩
    obtain ⟨inS, inD, nested⟩ := careful
    obtain ⟨⟨R', h'⟩, parents⟩ := track_trees h distinct inS inD nonzero tracked
    refine ⟨R', h', fun q live isParent => ?_⟩
    by_contra notRoot
    obtain ⟨old, was, isParent | ⟨free, source⟩⟩ := parents q live isParent notRoot
    · exact was (flat q old isParent)
    · exact was (flat q old (nested free q source))
  | revokePage addr =>
    obtain ⟨⟨R', h'⟩, removed⟩ := revoke_trees h (passable_flattened h flat me addr) taken
    refine ⟨R', h', fun q live isParent => ?_⟩
    rw [removed.live, Finset.mem_sdiff] at live
    rw [removed.node] at isParent
    rw [Root, removed.node, removed.home]
    exact flat q live.1 isParent

/-- The server accepts the replay of every alias. -/
theorem accepted_replays (h : Records D R s) {nodes : List Ptr} (me : SpdId)
    (aliases : ∀ q ∈ nodes, q ∈ s.live ∧ ¬ Root s q) :
    accepted me s nodes (nodes.map fun q => [.value (s.node q).dAddr]) := by
  induction nodes with
  | nil => rfl
  | cons q rest ih =>
    obtain ⟨live, notRoot⟩ := aliases q List.mem_cons_self
    have found := (h.lookup_alias live notRoot).1
    rw [List.map_cons, accepted, ih fun x mem => aliases x (List.mem_cons_of_mem q mem), mmanAliasPage,
      if_pos rfl, track, found, ite_self]
    rfl

/-- With enough fuel, and a server that accepts the replays, the call returns. -/
theorem revoke_returns (h : Trees D R s) (flat : Flattened s) (me : SpdId) (nonzero : addr ≠ 0) :
    ∃ fuel rounds s', mmanRevokePage me fuel s addr rounds = some s' := by
  have pass := passable_flattened h flat me addr
  have aliases : ∀ q ∈ subtree R s addr, q ∈ s.live ∧ ¬ Root s q := by
    intro q inside
    cases found : parentAt s addr with
    | none => simp [subtree, found] at inside
    | some rd =>
      have inside : q ∈ (R rd).tail := by simpa [subtree, found] using inside
      have live := (h.entry _ rd (parentAt_some found).1).1
      obtain ⟨mem, other⟩ := (mem_tail_iff h.toRecords live (pass rd found).1).mp inside
      obtain ⟨-, liveQ, only⟩ := h.member rd q mem
      exact ⟨liveQ, fun root => other (only root)⟩
  have traversed := h.traversed pass nonzero
  obtain ⟨s', removed, -⟩ := traversed.removed _ (Nat.lt_succ_self _)
  have updated := traversed.recreated _ _ (Nat.lt_succ_self _) (accepted_replays h.toRecords me aliases)
  refine ⟨(subtree R s addr).length + 1, [(subtree R s addr).map fun q => [.value (s.node q).dAddr]], s', ?_⟩
  rw [mmanRevokePage, ← rdUpdateVisits_state, updated, Option.map_some, Option.bind_some, ← rdRemoveVisits_state,
    removed]
  rfl

/-- For addresses that differ in the twelve bits of the index, in runs that make no alias from a tracked
alias, every address is looked up right; and the next revocation can return. -/
theorem aliases_tracked (D : Addr → Prop) (distinct : Distinct D) (me : SpdId) (s : State)
    (reached : Reachable (stubSystem me) (Careful D) s) :
    Tracked D s ∧ ∀ addr, addr ≠ 0 → ∃ fuel rounds s', mmanRevokePage me fuel s addr rounds = some s' := by
  have trees : ∃ R, Trees D R s ∧ Flattened s := by
    refine reached.invariant (fun s => ∃ R, Trees D R s ∧ Flattened s)
      ⟨_, init_trees D, fun q live => absurd live (Finset.notMem_empty q)⟩ ?_
    rintro s label s' ⟨R, h, flat⟩ careful taken
    exact step_flattened h flat distinct careful taken
  obtain ⟨R, h, flat⟩ := trees
  refine ⟨⟨fun a inD p lookup => h.live_of_lookup distinct inD lookup, h.found⟩, ?_⟩
  exact fun addr nonzero => revoke_returns h flat me nonzero

/-- Component 3 aliases one page twice and revokes it, after a fault of the server. -/
def aliasAndRevoke : List Label :=
  [.aliasPage 3 0x1000 0x70000 0x2000 [.value 0x2000], .aliasPage 3 0x1000 0x70000 0x3000 [.fault, .value 0x3000],
    .revokePage 0x1000 4 [[[.value 0x3000], [.einval, .value 0x2000]]],
    .aliasPage 3 0x1000 0x70000 0x4000 [.value 0x4000]]

theorem aliases_tracked_window : ∃ s, Run (stubSystem 3) (Careful firstWindow) aliasAndRevoke s ∧
    rdmmLookup s 0x2000 = none ∧ (rdmmLookup s 0x4000).isSome ∧ Tracked firstWindow s := by
  refine exec_shows (fun s => rdmmLookup s 0x2000 = none ∧ (rdmmLookup s 0x4000).isSome = true) (by decide)
    fun s run ⟨removed, made⟩ => ?_
  exact ⟨removed, made, (aliases_tracked firstWindow firstWindow_distinct 3 s ⟨_, run⟩).1⟩

/-- The page addresses of the 32-bit space. -/
def pageAddress (a : Addr) : Prop := a % 2 ^ 12 = 0 ∧ a < 2 ^ 32

instance : DecidablePred pageAddress := fun _ => inferInstanceAs (Decidable (_ ∧ _))

/-- Two destinations 16 MB apart. -/
def collidingAliases : List Label :=
  [.aliasPage 3 0x1000 0x70000 0x2000 [.value 0x2000], .aliasPage 3 0x1000 0x70000 0x1002000 [.value 0x1002000]]

/-- An alias of an alias, whose source is then revoked. -/
def nestedAlias : List Label :=
  [.aliasPage 3 0x1000 0x70000 0x2000 [.value 0x2000], .aliasPage 3 0x2000 0x70000 0x3000 [.value 0x3000],
    .revokePage 0x2000 4 [[[.value 0x3000], [.value 0x2000]]]]

/-- Two addresses share an entry; and even within one window, the lookup of a page gives a record that has
been freed while a live one is not found. -/
theorem records_confused : (∃ s p, Run (stubSystem 3) anyStep collidingAliases s ∧ rdmmLookup s 0x2000 = some p ∧
      rdmmLookup s 0x1002000 = some p ∧ ¬ Tracked pageAddress s) ∧
    ∃ s p q, Run (stubSystem 3) anyStep nestedAlias s ∧ rdmmLookup s 0x1000 = some p ∧ p ∉ s.live ∧
      q ∈ s.live ∧ s.home q = 0x2000 ∧ rdmmLookup s 0x2000 = none ∧ ¬ Tracked firstWindow s := by
  obtain ⟨s, run, first, second, home⟩ := exec_ends (stubSystem 3) anyStep collidingAliases
    (fun s => rdmmLookup s 0x2000 = some 1 ∧ rdmmLookup s 0x1002000 = some 1 ∧ s.home 1 = 0x2000) (by decide)
  obtain ⟨s', run', stale, freed, live, home', lost⟩ := exec_ends (stubSystem 3) anyStep nestedAlias
    (fun s => rdmmLookup s 0x1000 = some 2 ∧ 2 ∉ s.live ∧ 1 ∈ s.live ∧ s.home 1 = 0x2000 ∧
      rdmmLookup s 0x2000 = none) (by decide)
  refine ⟨⟨s, 1, run, first, second, fun tracked => ?_⟩,
    ⟨s', 2, 1, run', stale, freed, live, home', lost, fun tracked => ?_⟩⟩
  · have same := (tracked.same 0x1002000 (by decide) 1 second).2
    rw [home] at same
    exact absurd same (by decide)
  · exact freed (tracked.same 0x1000 (by decide) 2 stale).1

end SuperGlue.Guarantees.AliasTracking
