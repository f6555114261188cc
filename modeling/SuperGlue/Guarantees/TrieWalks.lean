import SuperGlue.Source.Ert.Trie

/-!
# Lookups and expansions of the radix trie

A lookup follows the digits of the id. An expansion adds the nodes that are missing on this way and changes
nothing else: every node is still reached by the digits it was reached by, and every entry of a leaf is the
same.
-/
namespace SuperGlue.Guarantees.TrieWalks
open Option Lib.RadixTrie Source.Ert.Trie

variable {ν ε α μ δ : Type} {P : Consts ν ε α μ δ} {m m' : Memory ν ε} {root p q : ν} {ds : List Nat} {i id : Nat}

section
variable (P : Consts ν ε α μ δ)

/-- The node that an entry leads to. -/
def link (e : ε) : Option ν := if P.isnullfn e then none else some (P.getfn e)

/-- The digits of the id down to a leaf. -/
def high (id : Nat) : List Nat := digits P.order (P.depth - 1) (id / 2 ^ P.lastOrder)

/-- The index in the leaf. -/
def low (id : Nat) : Nat := id % 2 ^ P.lastOrder

/-- The place of an id in the last level. -/
def slotOf (m : Memory ν ε) (root : ν) (id : Nat) : Option (Place ν ε) :=
  (follow (link P) m root (high P id)).map fun p => .slot p (low P id)

theorem high_path (depth : 1 ≤ P.depth) (id : Nat) : Path (2 ^ P.order) P.depth (high P id) := by
  have path := digits_path P.order (P.depth - 1) (id / 2 ^ P.lastOrder)
  rwa [Nat.sub_add_cancel depth] at path

theorem length_high (depth : 1 ≤ P.depth) (id : Nat) : (high P id).length + 1 = P.depth := by
  rw [high, length_digits, Nat.sub_add_cancel depth]

end

theorem high_low_inj {id' : Nat} (bound : id < ertMaxid P) (bound' : id' < ertMaxid P)
    (same : high P id = high P id') (rest : low P id = low P id') : id = id' :=
  digits_low_inj bound bound' same rest

/-! ## Lookups -/

/-- The index that `__ert_walk` computes above the last level is the next digit. -/
theorem walk_digit (P : Consts ν ε α μ δ) (id k : Nat) : id / 2 ^ (P.order * k + P.lastOrder) % 2 ^ P.order =
      id / 2 ^ P.lastOrder / 2 ^ (P.order * k) % 2 ^ P.order := by
  rw [Nat.div_div_eq_div_mul, ← Nat.pow_add, Nat.add_comm]

theorem lookupLoop_eq (id rounds i : Nat) (n : Place ν ε) (accum : α) (levels : P.depth - i = rounds + 1) :
    (lookupLoop P m id (rounds + 1) i n accum).1 = (link P (n.read m)).bind fun p =>
        (follow (link P) m p (digits P.order rounds (id / 2 ^ P.lastOrder))).map fun p => .slot p (low P id) := by
  induction rounds generalizing i n accum with
  | zero =>
    rw [lookupLoop, link]
    split
    · rfl
    · simp [ertWalk, levels, lookupLoop, digits, follow, low]
  | succ rounds ih =>
    rw [lookupLoop, link]
    split
    · rfl
    simp only [ertWalk, levels]
    rw [ih (i + 1) _ _ (by omega)]
    rw [walk_digit, bind_some, digits, follow]
    simp only [map_bind]
    rfl

/-- Both for `dlimit = depth` and for `dlimit = depth + 1`. -/
theorem ertLookup_eq {dlimit : Nat} (depth : 1 ≤ P.depth) (deep : P.depth ≤ dlimit) {v : ε}
    (linked : link P v = some root) (id : Nat) (accum : α) :
    (ertLookup P m v id dlimit accum).1 = slotOf P m root id := by
  obtain ⟨rounds, eq⟩ : ∃ rounds, P.depth = rounds + 1 := ⟨P.depth - 1, by omega⟩
  rw [ertLookup, Nat.min_eq_right deep, eq, lookupLoop_eq id rounds 0 _ accum (by omega)]
  rw [slotOf, high, eq, Nat.add_sub_cancel]
  simp [Place.read, linked]

/-! ## Expansions -/

/-- How many nodes are missing along the digits. -/
def missing (next : ε → Option ν) (m : Memory ν ε) : ν → List Nat → Nat
  | _, [] => 0
  | p, d :: ds =>
    match next (m p d) with
    | none => ds.length + 1
    | some q => missing next m q ds

theorem missing_eq_zero_iff {next : ε → Option ν} : missing next m p ds = 0 ↔ ∃ q, follow next m p ds = some q := by
  induction ds generalizing p with
  | nil => exact ⟨fun _ => ⟨p, rfl⟩, fun _ => rfl⟩
  | cons d ds ih =>
    rw [missing, follow]
    cases next (m p d) with
    | none => simp
    | some => exact ih

/-- Whether `allocfn` has that many nodes. -/
def supplied (P : Consts ν ε α μ δ) : Nat → μ → Bool
  | 0, _ => true
  | k + 1, memctxt =>
    match P.allocfn memctxt false with
    | (none, _) => false
    | (some _, memctxt) => supplied P k memctxt

/-- What is assumed of the functions of a trie; `supply` are the nodes that `allocfn` hands out. -/
structure Lawful (P : Consts ν ε α μ δ) (supply : μ → List ν) : Prop where
  depth : 1 ≤ P.depth
  blank : ∀ e, P.isnullfn (P.initfn e false) = true
  alike : ∀ c leaf, P.allocfn c leaf = P.allocfn c false
  takes : ∀ {c q c'}, P.allocfn c false = (some q, c') → supply c = q :: supply c'
  fails : ∀ {c c'}, P.allocfn c false = (none, c') → supply c' = supply c

/-- Nodes that are not in the trie and that an entry can lead to. -/
structure Fresh (P : Consts ν ε α μ δ) (m : Memory ν ε) (root : ν) (nodes : List ν) : Prop where
  nodup : nodes.Nodup
  linkable : ∀ q ∈ nodes, link P (P.setfn q) = some q
  unreached : ∀ q ∈ nodes, ∀ ds, Path (2 ^ P.order) P.depth ds → follow (link P) m root ds ≠ some q

variable {D : List Nat} {supply : μ → List ν} {nodes : List ν}

/-- What is left to hand out is still not in the trie. -/
theorem Fresh.rest (fresh : Fresh P m root (q :: nodes)) (attached : ∀ ds', Path (2 ^ P.order) P.depth ds' →
      follow (link P) m' root ds' = if ds' = ds ++ [i] then some q else follow (link P) m root ds') :
    Fresh P m' root nodes := by
  obtain ⟨apart, nodup⟩ := List.nodup_cons.mp fresh.nodup
  refine ⟨nodup, fun q' mem => fresh.linkable q' (List.mem_cons_of_mem q mem), ?_⟩
  intro q' mem ds' path' reached
  rw [attached ds' path'] at reached
  split at reached
  · cases reached
    exact apart mem
  · exact fresh.unreached q' (List.mem_cons_of_mem q mem) ds' path' reached

theorem missing_none (next : ε → Option ν) (width : Nat) (blank : ∀ d < width, next (m p d) = none)
    (digit : ∀ d ∈ ds, d < width) : missing next m p ds = ds.length := by
  cases ds with
  | nil => rfl
  | cons d =>
    rw [missing, blank d (digit d List.mem_cons_self)]
    rfl

theorem link_some {e : ε} (linked : link P e = some p) : P.isnullfn e = false ∧ P.getfn e = p := by
  rw [link] at linked
  split at linked
  · contradiction
  next present => exact ⟨Bool.not_eq_true _ ▸ present, some.inj linked⟩

variable [DecidableEq ν]

/-- What an expansion along the digits `D` with new nodes from `nodes` does. -/
structure Expansion (P : Consts ν ε α μ δ) (m m' : Memory ν ε) (root : ν) (D : List Nat) (nodes : List ν) :
    Prop where
  tree : Tree (link P) m' root (2 ^ P.order) P.depth
  kept : ∀ ds p, Path (2 ^ P.order) P.depth ds → follow (link P) m root ds = some p →
    follow (link P) m' root ds = some p
  reached : ∀ ds q, Path (2 ^ P.order) P.depth ds → follow (link P) m' root ds = some q →
    follow (link P) m root ds = some q ∨ q ∈ nodes
  elsewhere : ∀ ds d, Path (2 ^ P.order) P.depth ds → ds.length + 1 = P.depth → ds ≠ D →
    lookup (link P) m' root ds d = lookup (link P) m root ds d
  here : ∀ d, lookup (link P) m' root D d = lookup (link P) m root D d ∨
    lookup (link P) m root D d = none ∧ ∃ q ∈ nodes, lookup (link P) m' root D d = some (ertInit P m q true q d)

theorem Expansion.refl (tree : Tree (link P) m root (2 ^ P.order) P.depth) : Expansion P m m root D nodes :=
  ⟨tree, fun _ _ _ => id, fun _ _ _ h => .inl h, fun _ _ _ _ _ => rfl, fun _ => .inl rfl⟩

theorem ertInit_other {leaf : Bool} (other : p ≠ q) : ertInit P m q leaf p = m p := Function.update_of_ne other ..

theorem ertInit_blank (lawful : Lawful P supply) {d : Nat} (digit : d < 2 ^ P.order) :
    link P (ertInit P m q false q d) = none := by
  rw [ertInit, Function.update_self]
  simp [if_pos digit, link, lawful.blank]

/-- One missing node is made. -/
theorem attach_expansion (lawful : Lawful P supply) (tree : Tree (link P) m root (2 ^ P.order) P.depth)
    (whole : Path (2 ^ P.order) P.depth D) (length : D.length + 1 = P.depth) (along : ds ++ [i] <+: D)
    (reached : follow (link P) m root ds = some p) (empty : link P (m p i) = none) (fresh : Fresh P m root nodes)
    (mem : q ∈ nodes) : (∀ ds', Path (2 ^ P.order) P.depth ds' →
      follow (link P) (write (ertInit P m q (decide (P.depth ≤ ds.length + 2))) p i (P.setfn q)) root ds' =
        if ds' = ds ++ [i] then some q else follow (link P) m root ds') ∧
    Expansion P m (write (ertInit P m q (decide (P.depth ≤ ds.length + 2))) p i (P.setfn q)) root D nodes := by
  set leaf := decide (P.depth ≤ ds.length + 2) with def_leaf
  have path : Path (2 ^ P.order) P.depth (ds ++ [i]) := by
    obtain ⟨rest, rfl⟩ := along
    exact whole.prefix_path
  have unreached := fresh.unreached q mem
  have linked := fresh.linkable q mem
  have base : ∀ ds', Path (2 ^ P.order) P.depth ds' →
      follow (link P) (ertInit P m q leaf) root ds' = follow (link P) m root ds' :=
    fun ds' path' => follow_fresh unreached (fun p other => ertInit_other other) path'
  have other : p ≠ q := fun eq => unreached ds path.prefix_path (eq ▸ reached)
  have tree1 := tree.congr base
  have reached1 : follow (link P) (ertInit P m q leaf) root ds = some p := by rw [base ds path.prefix_path, reached]
  have empty1 : link P (ertInit P m q leaf p i) = none := by rw [ertInit_other other, empty]
  have unreached1 : ∀ ds', Path (2 ^ P.order) P.depth ds' → follow (link P) (ertInit P m q leaf) root ds' ≠ some q := by
    intro ds' path'
    rw [base ds' path']
    exact unreached ds' path'
  have blank : ds.length + 2 < P.depth → ∀ d < 2 ^ P.order, link P (ertInit P m q leaf q d) = none := by
    intro deep d digit
    rw [def_leaf, decide_eq_false (by omega)]
    exact ertInit_blank lawful digit
  have attached : ∀ ds', Path (2 ^ P.order) P.depth ds' →
      follow (link P) (write (ertInit P m q leaf) p i (P.setfn q)) root ds' =
        if ds' = ds ++ [i] then some q else follow (link P) m root ds' := by
    intro ds' path'
    rw [follow_attach tree1 path.prefix_path reached1 empty1 unreached1 blank linked path']
    split
    · rfl
    · exact base ds' path'
  -- the cell that is written is above the last level
  have cells : ∀ ds' d, Path (2 ^ P.order) P.depth ds' → ds'.length + 1 = P.depth → ds' ≠ ds ++ [i] →
      lookup (link P) (write (ertInit P m q leaf) p i (P.setfn q)) root ds' d = lookup (link P) m root ds' d := by
    intro ds' d path' full ne
    rw [lookup, lookup, attached ds' path', if_neg ne]
    cases before : follow (link P) m root ds' with
    | none => rfl
    | some p' =>
      have above : ¬ (p' = p ∧ d = i) := by
        rintro ⟨rfl, rfl⟩
        have same := tree ds' ds p' path' path.prefix_path before reached
        have short := path.short
        rw [List.length_append, List.length_singleton] at short
        rw [same] at full
        omega
      have old : p' ≠ q := by
        rintro rfl
        exact unreached ds' path' before
      rw [map_some, map_some, write_other _ _ above, ertInit_other old]
  refine ⟨attached, tree1.attach path.prefix_path reached1 empty1 unreached1 blank linked, ?_, ?_, ?_, ?_⟩
  · intro ds' p' path' before
    rw [attached ds' path', if_neg]
    · exact before
    · rintro rfl
      rw [follow_snoc, reached, bind_some, empty] at before
      contradiction
  · intro ds' q' path' after
    rw [attached ds' path'] at after
    split at after
    · cases after
      exact .inr mem
    · exact .inl after
  · intro ds' d path' full ne
    apply cells ds' d path' full
    rintro rfl
    exact ne (along.eq_of_length (by omega))
  · intro d
    by_cases last : D = ds ++ [i]
    · subst last
      rw [List.length_append, List.length_singleton] at length
      have on : leaf := decide_eq_true (by omega)
      refine .inr ⟨?_, q, mem, ?_⟩
      · rw [lookup, follow_snoc, reached, bind_some, empty]
        rfl
      · rw [lookup, attached _ path, if_pos rfl, map_some, write_other _ _ fun both => other both.1.symm, on]
    · exact .inl (cells D d whole length last)

theorem Expansion.trans {m1 m2 : Memory ν ε} {nodes rest : List ν}
    (first : Expansion P m m1 root D nodes) (second : Expansion P m1 m2 root D rest)
    (sub : ∀ q ∈ rest, q ∈ nodes ∧ m1 q = m q) : Expansion P m m2 root D nodes := by
  refine ⟨second.tree, ?_, ?_, ?_, ?_⟩
  · exact fun ds p path before => second.kept ds p path (first.kept ds p path before)
  · intro ds q path after
    rcases second.reached ds q path after with middle | new
    · exact first.reached ds q path middle
    · exact .inr (sub q new).1
  · exact fun ds d path full other =>
      (second.elsewhere ds d path full other).trans (first.elsewhere ds d path full other)
  · intro d
    rcases second.here d with same | ⟨absent, q, new, cell⟩
    · rw [same]
      exact first.here d
    rcases first.here d with same1 | ⟨-, q1, -, cell1⟩
    · refine .inr ⟨same1 ▸ absent, q, (sub q new).1, ?_⟩
      rw [cell]
      simp [ertInit, (sub q new).2]
    · rw [absent] at cell1
      contradiction

theorem expandLoop_spec (lawful : Lawful P supply) (id rounds : Nat) {n : Place ν ε} (accum : α) {c : μ}
    (tree : Tree (link P) m root (2 ^ P.order) P.depth)
    (whole : Path (2 ^ P.order) P.depth (ds ++ digits P.order rounds (id / 2 ^ P.lastOrder)))
    (length : ds.length + rounds + 1 = P.depth) (reached : follow (link P) m root ds = some (P.getfn (n.read m)))
    (fresh : Fresh P m root (supply c)) :
    ∃ m' place accum' c', expandLoop P id rounds ds.length m n accum c = (m', place, accum', c') ∧
      Expansion P m m' root (ds ++ digits P.order rounds (id / 2 ^ P.lastOrder)) (supply c) ∧
      place.isSome = supplied P (missing (link P) m (P.getfn (n.read m))
        (digits P.order rounds (id / 2 ^ P.lastOrder))) c ∧ ∀ n', place = some n' →
        follow (link P) m' root (ds ++ digits P.order rounds (id / 2 ^ P.lastOrder)) = some (P.getfn (n'.read m')) := by
  induction rounds generalizing m n ds accum c with
  | zero =>
    refine ⟨m, some n, accum, c, rfl, .refl tree, rfl, ?_⟩
    rintro n' ⟨⟩
    rwa [digits, List.append_nil]
  | succ rounds ih =>
    have walk : ertWalk P m n id accum (P.depth - ds.length) =
        (.slot (P.getfn (n.read m)) (id / 2 ^ P.lastOrder / 2 ^ (P.order * rounds) % 2 ^ P.order),
          P.accumfn (n.read m) accum) := by
      have level : P.depth - ds.length - 2 = rounds := by omega
      rw [ertWalk, if_neg (by omega), level, walk_digit]
    rw [digits] at whole ⊢
    set d := id / 2 ^ P.lastOrder / 2 ^ (P.order * rounds) % 2 ^ P.order with def_d
    set p := P.getfn (n.read m) with def_p
    set D := digits P.order rounds (id / 2 ^ P.lastOrder) with def_D
    have split : ds ++ d :: D = (ds ++ [d]) ++ D := by simp
    have longer : (ds ++ [d]).length = ds.length + 1 := by simp
    rw [expandLoop, walk]
    simp only [Place.read_slot]
    cases child : link P (m p d) with
    | some =>
      obtain ⟨present, getfn⟩ := link_some child
      have reached' : follow (link P) m root (ds ++ [d]) = some (P.getfn ((Place.slot p d).read m)) := by
        rw [follow_snoc, reached, bind_some, child, Place.read_slot, getfn]
      obtain ⟨m', place, accum', c', run, expansion, completes, arrives⟩ :=
        ih (P.accumfn (n.read m) accum) tree (split ▸ whole) (by omega) reached' fresh
      rw [longer] at run
      rw [← split] at expansion arrives
      refine ⟨m', place, accum', c', ?_, expansion, ?_, arrives⟩
      · have on : (!P.isnullfn (m p d)) := by rw [present, Bool.not_false]
        exact (if_pos on).trans run
      · rw [completes, missing, child, Place.read_slot, getfn]
    | none =>
      have absent : P.isnullfn (m p d) := by simpa [link] using child
      simp only [absent, Bool.not_true, Bool.false_eq_true, if_false, lawful.alike]
      rw [missing, child, supplied]
      cases answer : P.allocfn c false with
      | mk new c1 =>
        cases new with
        | none =>
          exact ⟨m, none, P.accumfn (n.read m) accum, c1, rfl, .refl tree, rfl, by simp⟩
        | some q =>
          have taken := lawful.takes answer
          have along : ds ++ [d] <+: ds ++ d :: D := split ▸ List.prefix_append ..
          have full : (ds ++ d :: D).length + 1 = P.depth := by
            rw [List.length_append, List.length_cons, def_D, length_digits]
            omega
          have mem := taken ▸ List.mem_cons_self
          obtain ⟨attached, first⟩ := attach_expansion lawful tree whole full along reached child fresh mem
          set m1 := write (ertInit P m q (decide (P.depth ≤ ds.length + 2))) p d (P.setfn q) with def_m1
          have linked := link_some (fresh.linkable q mem)
          have path : Path (2 ^ P.order) P.depth (ds ++ [d]) := by
            rw [split] at whole
            exact whole.prefix_path
          have reached1 : follow (link P) m1 root (ds ++ [d]) = some (P.getfn ((Place.slot p d).read m1)) := by
            rw [attached _ path, if_pos rfl, Place.read_slot, def_m1, write_self, linked.2]
          have fresh1 := Fresh.rest (taken ▸ fresh) attached
          obtain ⟨m', place, accum', c', run, second, completes, arrives⟩ :=
            ih (P.accumfn (n.read m) accum) first.tree (split ▸ whole) (by omega) reached1 fresh1
          rw [longer] at run
          rw [← split] at second arrives
          have sub : ∀ q' ∈ supply c1, q' ∈ supply c ∧ m1 q' = m q' := by
            intro q' left
            have mem' := taken ▸ List.mem_cons_of_mem q left
            have other : q' ≠ q := by
              rintro rfl
              have nodup := fresh.nodup
              rw [taken] at nodup
              exact (List.nodup_cons.mp nodup).1 left
            have outside : q' ≠ p := by
              rintro rfl
              exact fresh.unreached _ mem' ds path.prefix_path reached
            exact ⟨mem', (Function.update_of_ne outside ..).trans (ertInit_other other)⟩
          refine ⟨m', place, accum', c', run, first.trans second sub, ?_, arrives⟩
          -- below the new node everything is missing
          have all : missing (link P) m1 q D = D.length := by
            by_cases last : D = []
            · rw [last]
              rfl
            have deep : ¬ P.depth ≤ ds.length + 2 := by
              have pos := List.length_pos_iff.mpr last
              rw [List.length_append, List.length_cons] at full
              omega
            have outside : q ≠ p := fun eq => fresh.unreached q mem ds path.prefix_path (eq ▸ reached)
            refine missing_none (link P) (2 ^ P.order) (fun d' digit => ?_) fun d' inside =>
              whole.digit d' (List.mem_append_right ds (List.mem_cons_of_mem d inside))
            rw [def_m1, write_other _ _ fun both => outside both.1, decide_eq_false deep]
            exact ertInit_blank lawful digit
          rw [completes, Place.read_slot, def_m1, write_self, linked.2, ← def_m1, all]

variable (lawful : Lawful P supply) {v : ε} (accum : α) {c : μ} (linked : link P v = some root)
  (tree : Tree (link P) m root (2 ^ P.order) P.depth) (fresh : Fresh P m root (supply c)) (id : Nat)
include lawful linked tree fresh

/-- The part of `__ert_expand` before the last level. -/
theorem expand_path :
    ∃ m' place accum' c', expandLoop P id (P.depth - 1) 0 m (.root v) accum c = (m', place, accum', c') ∧
      Expansion P m m' root (high P id) (supply c) ∧ place.isSome = supplied P (missing (link P) m root (high P id)) c ∧
      ∀ n', place = some n' → follow (link P) m' root (high P id) = some (P.getfn (n'.read m')) := by
  have depth := lawful.depth
  have getfn := (link_some linked).2
  have start : follow (link P) m root [] = some (P.getfn ((Place.root v).read m)) := by
    rw [Place.read_root, getfn, follow]
  have spec := expandLoop_spec lawful id (P.depth - 1) accum tree
    (high_path P depth id) (by rw [List.length_nil]; omega) start fresh
  rwa [Place.read_root, getfn] at spec

/-- `__ert_expand` down to an entry of a leaf. -/
theorem ertExpand_leaf [DecidableEq δ] (data : δ) : ∃ m1, Expansion P m m1 root (high P id) (supply c) ∧
      if supplied P (missing (link P) m root (high P id)) c then ∃ p c', follow (link P) m1 root (high P id) = some p ∧
          ertExpand P m v id (P.depth + 1) accum c data =
            if data ≠ P.initval ∧ P.isnullfn (m1 p (low P id)) = false then ⟨1, m1, c'⟩
            else ⟨0, write m1 p (low P id) (P.setleaffn data), c'⟩
      else ∃ c', ertExpand P m v id (P.depth + 1) accum c data = ⟨-1, m1, c'⟩ := by
  obtain ⟨m1, place, accum', c', run, expansion, completes, arrives⟩ := expand_path lawful accum linked tree fresh id
  have rounds : min (P.depth + 1) P.depth - 1 = P.depth - 1 := by rw [Nat.min_eq_right (Nat.le_succ _)]
  refine ⟨m1, expansion, ?_⟩
  rw [← completes]
  cases place with
  | none =>
    refine ⟨c', ?_⟩
    simp [ertExpand, run]
  | some n =>
    refine ⟨P.getfn (n.read m1), c', arrives n rfl, ?_⟩
    have last : P.depth - (P.depth - 1) - 1 = 0 := by
      omega
    simp only [ertExpand, rounds, run, if_true, ertWalk, last, Place.read_slot, Place.write_slot]
    rfl

end SuperGlue.Guarantees.TrieWalks
