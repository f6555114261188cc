import SuperGlue.Lib.Transition
import SuperGlue.Guarantees.TrieWalks
import SuperGlue.Source.Ert.KeyValue

/-!
# The key-value trie is a partial map

For every depth and all orders, a lookup returns the value that was added last and not deleted since. An `add`
for which a node cannot be allocated runs into its own assertion, and a `del` never tells that there was
nothing to delete.
-/
namespace SuperGlue.Guarantees.KeyValueTrie
open Option Function Lib.RadixTrie Lib.Transition Source.Ert.Trie Source.Ert.KeyValue TrieWalks

variable (P : Consts Ptr Ptr Unit (List (Option Ptr)) Ptr) {depth order lastOrder id : Nat} {t t' : Kvt}
  {answers : List (Option Ptr)}

/-- Nodes that `allocfn` hands out: not NULL, not in the trie, and each of them once. -/
def Available (t : Kvt) (answers : List (Option Ptr)) : Prop :=
  answers.reduceOption.Nodup ∧ ∀ q ∈ answers.reduceOption, q ≠ 0 ∧ q ∉ collect (link P) t.mem (2 ^ P.order) P.depth t.v

instance (t : Kvt) (answers : List (Option Ptr)) : Decidable (Available P t answers) :=
  inferInstanceAs (Decidable (_ ∧ ∀ q ∈ answers.reduceOption, _))

/-- All nodes that the way to the id needs can be allocated. -/
def Supplied (t : Kvt) (id : Nat) (answers : List (Option Ptr)) : Prop :=
  supplied P (missing (link P) t.mem t.v (high P id)) answers = true

instance (t : Kvt) (id : Nat) (answers : List (Option Ptr)) : Decidable (Supplied P t id answers) :=
  inferInstanceAs (Decidable (_ = true))

theorem kvt_lawful (deep : 1 ≤ depth) : Lawful (kvt depth order lastOrder) List.reduceOption := by
  refine ⟨deep, fun _ => rfl, fun _ _ => rfl, ?_, ?_⟩
  · intro c q c' answer
    obtain ⟨first, rfl⟩ := Prod.mk.inj answer
    cases c with
    | nil => contradiction
    | cons a =>
      obtain rfl : a = some q := first
      rfl
  · intro c c' answer
    obtain ⟨first, rfl⟩ := Prod.mk.inj answer
    cases c with
    | nil => rfl
    | cons a =>
      obtain rfl : a = none := first
      rfl

theorem kvt_link {q : Ptr} (nonnull : q ≠ 0) : link (kvt depth order lastOrder) q = some q :=
  if_neg fun null => nonnull (beq_iff_eq.mp null)

/-- The trie is one, and has an address. -/
structure Shaped (depth order lastOrder : Nat) (t : Kvt) : Prop where
  deep : 1 ≤ depth
  root : t.v ≠ 0
  tree : Tree (link (kvt depth order lastOrder)) t.mem t.v (2 ^ order) depth

structure Observed where
  t : Kvt
  /-- What was added last and not deleted since, or 0. -/
  vals : Nat → Ptr

inductive Call where
  | add (id : Nat) (val : Ptr) (answers : List (Option Ptr))
  | del (id : Nat) (answers : List (Option Ptr))
  deriving DecidableEq, Repr

def perform (o : Observed) : Call → Option Observed
  | .add id val answers =>
    if Available P o.t answers then
      (kvtAdd P o.t id val answers).map fun (t, ret) =>
        ⟨t, if ret = 0 then update o.vals id val else o.vals⟩
    else none
  | .del id answers =>
    if Available P o.t answers then
      (kvtDel P o.t id answers).map fun (t, _) => ⟨t, update o.vals id 0⟩
    else none

/-- Calls on a trie that was allocated. -/
def trie (t : Kvt) : System Observed Call :=
  ⟨⟨t, fun _ => 0⟩, perform P⟩

structure Mapped (depth order lastOrder : Nat) (o : Observed) : Prop where
  shaped : Shaped depth order lastOrder o.t
  values : ∀ id < ertMaxid (kvt depth order lastOrder), kvtLkupp (kvt depth order lastOrder) o.t id = o.vals id

section Lookups

variable {P} (code : P = kvt depth order lastOrder) {m : Memory Ptr Ptr} {val : Ptr}
include code

theorem Available.fresh (available : Available P t answers) : Fresh P t.mem t.v answers.reduceOption := by
  refine ⟨available.1, fun q mem => code ▸ kvt_link (available.2 q mem).1, ?_⟩
  intro q mem ds path reached
  exact (available.2 q mem).2 (mem_collect.mpr ⟨ds, path, reached⟩)

/-! ## Lookups -/

theorem initval_zero : P.initval = 0 := by
  rw [code]
  rfl

theorem add_present (nonnull : val ≠ 0) (bound : id < ertMaxid P) (present : kvtLkupp P t id ≠ 0) :
    kvtAdd P t id val answers = some (t, 1) := by
  rw [kvtAdd, initval_zero code, if_pos ⟨nonnull, bound⟩, if_pos present]

section

variable (h : Shaped depth order lastOrder t)
include h

theorem kvtLkupp_eq (id : Nat) : kvtLkupp P t id = (lookup (link P) t.mem t.v (high P id) (low P id)).getD 0 := by
  subst code
  rw [kvtLkupp, ertLookup_eq h.deep (Nat.le_succ _) (kvt_link h.root), slotOf, lookup]
  cases follow _ t.mem t.v (high _ id) with
  | none | some p => rfl

/-- An expansion changes no lookup. -/
theorem expansion_lookup {nodes : List Ptr} {id' : Nat} (expansion : Expansion P t.mem m t.v (high P id') nodes) :
    Shaped depth order lastOrder { t with mem := m } ∧ ∀ id, kvtLkupp P { t with mem := m } id = kvtLkupp P t id := by
  subst code
  have shaped : Shaped depth order lastOrder { t with mem := m } := ⟨h.deep, h.root, expansion.tree⟩
  refine ⟨shaped, fun id => ?_⟩
  rw [kvtLkupp_eq rfl shaped, kvtLkupp_eq rfl h]
  by_cases same : high (kvt depth order lastOrder) id = high (kvt depth order lastOrder) id'
  · rw [same]
    rcases expansion.here (low _ id) with eq | ⟨absent, q, -, cell⟩
    · rw [eq]
    · have inside : id % 2 ^ lastOrder < 2 ^ lastOrder := Nat.mod_lt _ (Nat.two_pow_pos lastOrder)
      rw [absent, cell, ertInit, update_self]
      exact if_pos inside
  · rw [expansion.elsewhere _ _ (high_path _ h.deep id) (length_high _ h.deep id) same]

omit h in
/-- An entry of a leaf is set. -/
theorem write_lookup {p : Ptr} (val : Ptr) (h : Shaped depth order lastOrder t) (bound : id < ertMaxid P)
    (reached : follow (link P) t.mem t.v (high P id) = some p) :
    Shaped depth order lastOrder { t with mem := write t.mem p (low P id) val } ∧
      ∀ id' < ertMaxid P, kvtLkupp P { t with mem := write t.mem p (low P id) val } id' =
        if id' = id then val else kvtLkupp P t id' := by
  subst code
  have path := high_path (kvt depth order lastOrder) h.deep id
  have full := length_high (kvt depth order lastOrder) h.deep id
  have shaped : Shaped depth order lastOrder { t with mem := write t.mem p (low (kvt depth order lastOrder) id) val } :=
    ⟨h.deep, h.root, h.tree.congr fun ds path' => follow_write_leaf h.tree path reached full path'⟩
  refine ⟨shaped, fun id' bound' => ?_⟩
  rw [kvtLkupp_eq rfl shaped, kvtLkupp_eq rfl h, lookup_write h.tree path reached full
    (high_path (kvt depth order lastOrder) h.deep id')]
  by_cases same : id' = id
  · rw [same, if_pos ⟨rfl, rfl⟩, if_pos rfl, getD_some]
  · rw [if_neg same, if_neg]
    rintro ⟨digits, rest⟩
    exact same (high_low_inj bound' bound digits rest)

/-- What `__ert_expand` does for `__kvt_add` and `__kvt_del`. -/
theorem expand_cases (bound : id < ertMaxid P)
    (available : Available P t answers) (data : Ptr) :
    ∃ ret m c, ertExpand P t.mem t.v id (P.depth + 1) () answers data = ⟨ret, m, c⟩ ∧
      Shaped depth order lastOrder { t with mem := m } ∧
      ((¬ Supplied P t id answers ∧ ret = -1 ∧ kvtLkupp P t id = 0 ∧
          ∀ id', kvtLkupp P { t with mem := m } id' = kvtLkupp P t id') ∨
        Supplied P t id answers ∧
          (data = 0 ∨ kvtLkupp P t id = 0 → ret = 0 ∧ ∀ id' < ertMaxid P,
            kvtLkupp P { t with mem := m } id' = if id' = id then data else kvtLkupp P t id')) := by
  subst code
  obtain ⟨m1, expansion, run⟩ :=
    ertExpand_leaf (kvt_lawful h.deep) () (kvt_link h.root) h.tree (available.fresh rfl) id data
  obtain ⟨shaped, same⟩ := expansion_lookup rfl h expansion
  split at run
  next enough =>
    obtain ⟨p, c, reached, run⟩ := run
    have entry : m1 p (low (kvt depth order lastOrder) id) = kvtLkupp (kvt depth order lastOrder) t id := by
      rw [← same id, kvtLkupp_eq rfl shaped, lookup, reached]
      rfl
    split at run
    next refused =>
      refine ⟨1, m1, c, run, shaped, .inr ⟨enough, ?_⟩⟩
      rintro (zero | absent)
      · exact absurd zero refused.1
      · rw [entry, absent] at refused
        exact absurd refused.2 (by simp [kvt])
    · obtain ⟨written, values⟩ := write_lookup rfl data shaped bound reached
      refine ⟨0, _, c, run, written, .inr ⟨enough, fun _ => ⟨rfl, fun id' bound' => ?_⟩⟩⟩
      rw [← same id']
      exact values id' bound'
  next short =>
    obtain ⟨c, run⟩ := run
    refine ⟨-1, m1, c, run, shaped, .inl ⟨short, rfl, ?_, same⟩⟩
    rw [kvtLkupp_eq rfl h, lookup]
    cases reached : follow (link (kvt depth order lastOrder)) t.mem t.v (high _ id) with
    | none => rfl
    | some p =>
      rw [missing_eq_zero_iff.mpr ⟨p, reached⟩] at short
      exact absurd rfl short

/-! ## Calls -/

section

variable (nonnull : val ≠ 0) (bound : id < ertMaxid P) (available : Available P t answers)
  (absent : kvtLkupp P t id = 0)
include nonnull bound available absent

theorem add_supplied (enough : Supplied P t id answers) :
    ∃ t', kvtAdd P t id val answers = some (t', 0) ∧ Shaped depth order lastOrder t' ∧
      ∀ id' < ertMaxid P, kvtLkupp P t' id' = if id' = id then val else kvtLkupp P t id' := by
  obtain ⟨ret, m, c, run, shaped, ⟨short, -⟩ | ⟨-, done⟩⟩ := expand_cases code h bound available val
  · exact absurd enough short
  obtain ⟨rfl, values⟩ := done (.inr absent)
  refine ⟨{ t with mem := m }, ?_, shaped, values⟩
  have stored : val = kvtLkupp P { t with mem := m } id := by rw [values id bound, if_pos rfl]
  rw [kvtAdd, initval_zero code, if_pos ⟨nonnull, bound⟩, if_neg (not_not.mpr absent), run]
  exact if_pos stored

/-- Without a node there is nothing at the id afterwards, and that is asserted not to be so. -/
theorem add_short (short : ¬ Supplied P t id answers) : kvtAdd P t id val answers = none := by
  obtain ⟨ret, m, c, run, shaped, ⟨-, -, -, same⟩ | ⟨enough, -⟩⟩ := expand_cases code h bound available val
  · have missing : ¬ val = kvtLkupp P { t with mem := m } id := by
      rw [same id, absent]
      exact nonnull
    rw [kvtAdd, initval_zero code, if_pos ⟨nonnull, bound⟩, if_neg (not_not.mpr absent), run]
    exact if_neg missing
  · exact absurd enough short

end

theorem del_spec (bound : id < ertMaxid P) (available : Available P t answers) :
    ∃ t', kvtDel P t id answers = some (t', 0) ∧ Shaped depth order lastOrder t' ∧
      ∀ id' < ertMaxid P, kvtLkupp P t' id' = if id' = id then 0 else kvtLkupp P t id' := by
  obtain ⟨ret, m, c, run, shaped, done⟩ := expand_cases code h bound available 0
  have values : ∀ id' < ertMaxid P, kvtLkupp P { t with mem := m } id' = if id' = id then 0 else kvtLkupp P t id' := by
    rcases done with ⟨-, -, absent, same⟩ | ⟨-, done⟩
    · intro id' _
      rw [same id']
      split
      next eq => rw [eq, absent]
      · rfl
    · exact (done (.inl rfl)).2
  refine ⟨{ t with mem := m }, ?_, shaped, values⟩
  have gone : kvtLkupp P { t with mem := m } id = 0 := by rw [values id bound, if_pos rfl]
  rw [kvtDel, if_pos bound, initval_zero code, run]
  exact if_pos gone

end

/-! ## Every run -/

variable {v : Ptr}

theorem alloc_eq (made : kvtAlloc P m (some v) = some (some t)) :
    1 ≤ depth ∧ t = ⟨ertInit P m v (decide (depth = 1)), v⟩ := by
  subst code
  rw [kvtAlloc, ertAlloc] at made
  split at made
  next allowed =>
    refine ⟨allowed.2, ?_⟩
    cases made
    rfl
  · contradiction

/-- In a new trie nothing but the root is reached. -/
theorem init_follow {p : Ptr} {ds : List Nat} (path : Path (2 ^ order) depth ds)
    (reached : follow (link P) (ertInit P m v (decide (depth = 1))) v ds = some p) : ds = [] := by
  subst code
  cases ds with
  | nil => rfl
  | cons d =>
    have short := path.short
    rw [List.length_cons] at short
    rw [follow, decide_eq_false (by omega), ertInit_blank (kvt_lawful (by omega))] at reached
    · contradiction
    · exact path.digit d List.mem_cons_self

theorem alloc_mapped (nonnull : v ≠ 0) (made : kvtAlloc P m (some v) = some (some t)) :
    Mapped depth order lastOrder ⟨t, fun _ => 0⟩ := by
  subst code
  obtain ⟨deep, rfl⟩ := alloc_eq rfl made
  have shaped : Shaped depth order lastOrder ⟨ertInit (kvt depth order lastOrder) m v (decide (depth = 1)), v⟩ := by
    refine ⟨deep, nonnull, ?_⟩
    intro ds ds' p path path' reached reached'
    rw [init_follow rfl path reached, init_follow rfl path' reached']
  refine ⟨shaped, fun id bound => ?_⟩
  rw [kvtLkupp_eq rfl shaped, lookup]
  cases reached : follow _ (ertInit (kvt depth order lastOrder) m v (decide (depth = 1))) v (high _ id) with
  | none => rfl
  | some p =>
    -- the trie is a single leaf, and its entries are NULL
    have empty := init_follow rfl (high_path (kvt depth order lastOrder) deep id) reached
    have full := length_high (kvt depth order lastOrder) deep id
    rw [empty] at full reached
    cases reached
    have single : depth = 1 := full.symm
    have inside : id % 2 ^ lastOrder < 2 ^ lastOrder := Nat.mod_lt _ (Nat.two_pow_pos lastOrder)
    rw [map_some]
    dsimp only
    rw [ertInit, update_self, decide_eq_true single]
    exact if_pos inside

/-- One value is stored. -/
theorem Mapped.stored {o : Observed} (h : Mapped depth order lastOrder o) (shaped : Shaped depth order lastOrder t)
    (values : ∀ id' < ertMaxid P, kvtLkupp P t id' = if id' = id then val else kvtLkupp P o.t id') :
    Mapped depth order lastOrder ⟨t, update o.vals id val⟩ := by
  subst code
  refine ⟨shaped, fun id' bound' => ?_⟩
  rw [values id' bound', h.values id' bound']
  exact (update_apply ..).symm

theorem perform_mapped {o o' : Observed} {call : Call} (h : Mapped depth order lastOrder o)
    (run : perform P o call = some o') : Mapped depth order lastOrder o' := by
  cases call with
  | add id val answers =>
    rw [perform] at run
    split at run
    next available =>
      obtain ⟨⟨t, ret⟩, added, rfl⟩ := map_eq_some_iff.mp run
      have allowed : val ≠ 0 ∧ id < ertMaxid P := by
        by_contra refused
        rw [kvtAdd, initval_zero code, if_neg refused] at added
        contradiction
      obtain ⟨nonnull, bound⟩ := allowed
      by_cases present : kvtLkupp P o.t id ≠ 0
      · rw [add_present code nonnull bound present] at added
        cases added
        exact h
      have absent := not_not.mp present
      by_cases enough : Supplied P o.t id answers
      · obtain ⟨t', done, shaped, values⟩ := add_supplied code h.shaped nonnull bound available absent enough
        rw [done] at added
        cases added
        exact h.stored code shaped values
      · rw [add_short code h.shaped nonnull bound available absent enough] at added
        contradiction
    · contradiction
  | del id =>
    rw [perform] at run
    split at run
    next available =>
      obtain ⟨⟨t, ret⟩, deleted, rfl⟩ := map_eq_some_iff.mp run
      have bound : id < ertMaxid P := by
        by_contra refused
        rw [kvtDel, if_neg refused] at deleted
        contradiction
      obtain ⟨t', done, shaped, values⟩ := del_spec code h.shaped bound available
      rw [done] at deleted
      cases deleted
      exact h.stored code shaped values
    · contradiction

end Lookups

theorem free_nodes (m : Memory Ptr Ptr) (lvl : Nat) (vi : Ptr) :
    (kvtFreeRec P m (lvl + 1) vi).map Freed.node = collect (link P) m (2 ^ P.order) (lvl + 1) vi := by
  induction lvl generalizing vi with
  | zero =>
    have nothing : ∀ o : Option Ptr, (o.map (collect (link P) m (2 ^ P.order) 0)).getD [] = [] := by
      rintro (- | q) <;> rfl
    rw [collect, List.flatMap_eq_nil_iff.mpr fun i _ => nothing _]
    rfl
  | succ lvl ih =>
    have below : ∀ i, (if P.isnullfn (m vi i) then [] else kvtFreeRec P m (lvl + 1) (P.getfn (m vi i))).map Freed.node =
        ((link P (m vi i)).map (collect (link P) m (2 ^ P.order) (lvl + 1))).getD [] := by
      intro i
      rw [link]
      split
      · rfl
      · exact ih _
    rw [kvtFreeRec, collect, List.map_append, List.map_flatMap]
    simp [below]

/-- The code that the comment on `__kvt_del` gives. -/
def delCode (val : Ptr) : Int := if val = 0 then 1 else 0

/-- In every run, `lkupp` is the map of what was added and not deleted. An `add` of an absent id stores its
value exactly if there are nodes for it, `del` returns the code it should exactly for ids that are present, and
all nodes are freed once. -/
theorem key_value_map {m : Memory Ptr Ptr} {v : Ptr} {o : Observed} (nonnull : v ≠ 0)
    (made : kvtAlloc (kvt depth order lastOrder) m (some v) = some (some t))
    (reached : Reachable (trie (kvt depth order lastOrder) t) anyStep o) :
    (∀ id < ertMaxid (kvt depth order lastOrder), kvtLkupp (kvt depth order lastOrder) o.t id = o.vals id) ∧
      (∀ id < ertMaxid (kvt depth order lastOrder), ∀ val ≠ 0, ∀ answers,
        Available (kvt depth order lastOrder) o.t answers →
          if o.vals id ≠ 0 then kvtAdd (kvt depth order lastOrder) o.t id val answers = some (o.t, 1) else
            (∃ t', kvtAdd (kvt depth order lastOrder) o.t id val answers = some (t', 0) ∧
              ∀ id' < ertMaxid (kvt depth order lastOrder), kvtLkupp (kvt depth order lastOrder) t' id' =
                if id' = id then val else o.vals id') ↔ Supplied (kvt depth order lastOrder) o.t id answers) ∧
      (∀ id < ertMaxid (kvt depth order lastOrder), ∀ answers, Available (kvt depth order lastOrder) o.t answers →
        ∃ t' ret, kvtDel (kvt depth order lastOrder) o.t id answers = some (t', ret) ∧
          (∀ id' < ertMaxid (kvt depth order lastOrder), kvtLkupp (kvt depth order lastOrder) t' id' =
            if id' = id then 0 else o.vals id') ∧ (ret = delCode (o.vals id) ↔ o.vals id ≠ 0)) ∧
      ((kvtFree (kvt depth order lastOrder) o.t).map Freed.node).Nodup ∧
      ∀ q, q ∈ (kvtFree (kvt depth order lastOrder) o.t).map Freed.node ↔
        ∃ ds, Path (2 ^ order) depth ds ∧ follow (link (kvt depth order lastOrder)) o.t.mem o.t.v ds = some q := by
  have h := reached.invariant (Mapped depth order lastOrder) (alloc_mapped rfl nonnull made)
    fun o call o' h _ next => perform_mapped rfl h next
  have nodes : (kvtFree (kvt depth order lastOrder) o.t).map Freed.node =
      collect (link (kvt depth order lastOrder)) o.t.mem (2 ^ order) depth o.t.v := by
    have deep := (Nat.sub_add_cancel h.shaped.deep).symm
    rw [deep]
    exact free_nodes ..
  refine ⟨h.values, ?_, ?_, ?_, ?_⟩
  · intro id bound val nonnull answers available
    rw [← h.values id bound]
    split
    next present => exact add_present rfl nonnull bound present
    rename_i absent
    have absent := not_not.mp absent
    constructor
    · rintro ⟨t', added, -⟩
      by_contra short
      rw [add_short rfl h.shaped nonnull bound available absent short] at added
      contradiction
    · intro enough
      obtain ⟨t', added, -, values⟩ := add_supplied rfl h.shaped nonnull bound available absent enough
      refine ⟨t', added, fun id' bound' => ?_⟩
      rw [values id' bound', h.values id' bound']
  · intro id bound answers available
    obtain ⟨t', deleted, -, values⟩ := del_spec rfl h.shaped bound available
    refine ⟨t', 0, deleted, ?_, ?_⟩
    · intro id' bound'
      rw [values id' bound', h.values id' bound']
    · rw [delCode]
      split
      next absent => simp [absent]
      next present => simp [present]
  · rw [nodes]
    exact nodup_collect h.shaped.tree
  · intro q
    rw [nodes]
    exact mem_collect

/-- Two values below one node of a trie of depth 3, and one of them deleted. -/
def fewValues : List Call := [.add 5 77 [some 20, some 30], .add 7 88 [some 40], .del 5 []]

/-- A trie as `kvtAlloc` makes it from memory of zeros, at the address 10. -/
def newTrie (P : Consts Ptr Ptr Unit (List (Option Ptr)) Ptr) : Kvt := ⟨ertInit P (fun _ _ => 0) 10 false, 10⟩

theorem few_values_mapped : ∃ o, Run (trie (kvt 3 1 2) (newTrie (kvt 3 1 2))) anyStep fewValues o ∧
    kvtLkupp (kvt 3 1 2) o.t 7 = 88 ∧ kvtLkupp (kvt 3 1 2) o.t 5 = 0 ∧
    ((kvtFree (kvt 3 1 2) o.t).map Freed.node).Nodup := by
  refine exec_shows (fun o => o.vals 7 = 88 ∧ o.vals 5 = 0) (by decide +kernel) fun o run ⟨seven, five⟩ => ?_
  have made : kvtAlloc (kvt 3 1 2) (fun _ _ => 0) (some 10) = some (some (newTrie (kvt 3 1 2))) := rfl
  obtain ⟨values, -, -, once, -⟩ := key_value_map (by decide) made ⟨_, run⟩
  exact ⟨(values 7 (by decide)).trans seven, (values 5 (by decide)).trans five, once⟩

/-- In a new trie an `add` that gets no node does not return, and the `del` of an id that was never added
returns 0. -/
theorem codes_missing : kvtAlloc (kvt 2 12 8) (fun _ _ => 0) (some 10) = some (some (newTrie (kvt 2 12 8))) ∧
      kvtAdd (kvt 2 12 8) (newTrie (kvt 2 12 8)) 5 77 [none] = none ∧
      kvtLkupp (kvt 2 12 8) (newTrie (kvt 2 12 8)) 5 = 0 ∧
      (kvtDel (kvt 2 12 8) (newTrie (kvt 2 12 8)) 5 [none]).map Prod.snd = some 0 ∧ delCode 0 = 1 := by
  refine ⟨rfl, ?_, ?_, ?_, rfl⟩
  · exact isNone_iff_eq_none.mp (by decide +kernel)
  · decide +kernel
  · decide +kernel

end SuperGlue.Guarantees.KeyValueTrie
