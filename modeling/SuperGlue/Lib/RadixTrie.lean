import Mathlib

/-!
# Radix tries in a memory of nodes

A node is an array of cells, and a cell of a node that is not a leaf leads to another node or to nowhere. All
leaves have the same depth. The node that a list of digits leads to does not change if a cell elsewhere is
written, provided that no node is reached by two lists.
-/
namespace SuperGlue.Lib.RadixTrie
open Function Option List

variable {ν ε : Type}

abbrev Memory (ν ε : Type) := ν → Nat → ε

def write [DecidableEq ν] (m : Memory ν ε) (p : ν) (i : Nat) (e : ε) : Memory ν ε :=
  update m p (update (m p) i e)

/-- The node that the digits lead to. -/
def follow (next : ε → Option ν) (m : Memory ν ε) : ν → List Nat → Option ν
  | p, [] => some p
  | p, d :: ds => (next (m p d)).bind fun q => follow next m q ds

/-- Digits of a node that is at most `height` levels down. -/
structure Path (width height : Nat) (ds : List Nat) : Prop where
  short : ds.length < height
  digit : ∀ d ∈ ds, d < width

/-- No node is reached by two lists of digits. -/
def Tree (next : ε → Option ν) (m : Memory ν ε) (root : ν) (width height : Nat) : Prop :=
  ∀ ds ds' p, Path width height ds → Path width height ds' → follow next m root ds = some p →
    follow next m root ds' = some p → ds = ds'

variable {next : ε → Option ν} {m m' : Memory ν ε} {root p q : ν} {width height i : Nat} {e : ε} {ds ds' : List Nat}

theorem follow_append (next : ε → Option ν) (m : Memory ν ε) (p : ν) (ds ds' : List Nat) :
    follow next m p (ds ++ ds') = (follow next m p ds).bind fun q => follow next m q ds' := by
  induction ds generalizing p with
  | nil => rfl
  | cons d ds ih =>
    rw [cons_append, follow, follow, bind_assoc]
    exact congrArg _ (funext fun q => ih q)

theorem follow_snoc (next : ε → Option ν) (m : Memory ν ε) (p : ν) (ds : List Nat) (d : Nat) :
    follow next m p (ds ++ [d]) = (follow next m p ds).bind fun q => next (m q d) := by
  rw [follow_append]
  exact congrArg _ (funext fun q => bind_fun_some (next (m q d)))

theorem Path.prefix_path (path : Path width height (ds ++ ds')) : Path width height ds :=
  ⟨by
    have short := path.short
    rw [length_append] at short
    omega, fun d mem => path.digit d (mem_append_left ds' mem)⟩

variable {j : Nat}

theorem Path.cons (path : Path width height ds) (digit : j < width) : Path width (height + 1) (j :: ds) := by
  refine ⟨Nat.succ_lt_succ path.short, fun d mem => ?_⟩
  rcases mem_cons.mp mem with rfl | later
  · exact digit
  · exact path.digit d later

/-- The cell of a leaf. -/
def lookup (next : ε → Option ν) (m : Memory ν ε) (root : ν) (ds : List Nat) (d : Nat) : Option ε :=
  (follow next m root ds).map fun p => m p d

/-! ## Changes of the memory -/

/-- Memories that agree on the cells along the way. -/
theorem follow_congr (same : ∀ done d q, done ++ [d] <+: ds → follow next m root done = some q →
    m' q d = m q d) : follow next m' root ds = follow next m root ds := by
  induction ds using List.reverseRecOn with
  | nil => rfl
  | append_singleton ds d ih =>
    have before := ih fun done d' q within reached =>
      same done d' q (within.trans (prefix_append ds [d])) reached
    rw [follow_snoc, follow_snoc, before]
    cases reached : follow next m root ds with
    | none => rfl
    | some q =>
      rw [bind_some, bind_some, same ds d q (prefix_refl _) reached]

theorem Tree.congr (tree : Tree next m root width height)
    (same : ∀ ds, Path width height ds → follow next m' root ds = follow next m root ds) :
    Tree next m' root width height := by
  intro ds ds' p path path' reached reached'
  rw [same ds path] at reached
  rw [same ds' path'] at reached'
  exact tree ds ds' p path path' reached reached'

/-- A node that nothing leads to may change. -/
theorem follow_fresh (fresh : ∀ ds, Path width height ds → follow next m root ds ≠ some q)
    (same : ∀ p, p ≠ q → m' p = m p) (path : Path width height ds) :
    follow next m' root ds = follow next m root ds := by
  apply follow_congr
  intro done d p within reached
  obtain ⟨rest, rfl⟩ := within
  rw [append_assoc] at path
  have other : p ≠ q := by
    rintro rfl
    exact fresh done path.prefix_path reached
  rw [same p other]

variable [DecidableEq ν]

theorem write_self (m : Memory ν ε) (p : ν) (i : Nat) (e : ε) : write m p i e p i = e := by
  rw [write, update_self, update_self]

theorem write_other (m : Memory ν ε) {p q : ν} {i : Nat} (e : ε) (other : ¬ (q = p ∧ j = i)) :
    write m p i e q j = m q j := by
  rw [write]
  by_cases node : q = p
  · subst node
    rw [update_self, update_of_ne fun cell => other ⟨rfl, cell⟩]
  · rw [update_of_ne node]

omit [DecidableEq ν] in
theorem not_prefix_of_length (longer : ds'.length < ds.length + 1) : ¬ ds ++ [i] <+: ds' := by
  intro within
  have short := within.length_le
  rw [length_append, length_singleton] at short
  omega

section

variable (tree : Tree next m root width height) (path : Path width height ds)
  (reached : follow next m root ds = some p)
include tree path reached

/-- A cell that is not on the way. -/
theorem follow_write (path' : Path width height ds') (elsewhere : ¬ ds ++ [i] <+: ds') :
    follow next (write m p i e) root ds' = follow next m root ds' := by
  apply follow_congr
  intro done d q within reached'
  apply write_other
  rintro ⟨rfl, rfl⟩
  obtain ⟨rest, rfl⟩ := within
  rw [append_assoc] at path'
  have same := tree ds done q path path'.prefix_path reached reached'
  subst same
  exact elsewhere (prefix_append ..)

/-- A cell of a leaf is on no way. -/
theorem follow_write_leaf (leaf : ds.length + 1 = height) (path' : Path width height ds') :
    follow next (write m p i e) root ds' = follow next m root ds' :=
  follow_write tree path reached path' (not_prefix_of_length (by have := path'.short; omega))

variable (empty : next (m p i) = none) (fresh : ∀ ds, Path width height ds → follow next m root ds ≠ some q)
  (blank : ds.length + 2 < height → ∀ d < width, next (m q d) = none) (link : next e = some q)

include empty fresh blank link in
/-- A new node with no cell in use is reached by one more list of digits. -/
theorem follow_attach (path' : Path width height ds') :
    follow next (write m p i e) root ds' = if ds' = ds ++ [i] then some q else follow next m root ds' := by
  have other : q ≠ p := fun eq => fresh ds path (eq ▸ reached)
  have base : follow next (write m p i e) root ds = some p := by
    rw [follow_write tree path reached path (not_prefix_of_length (Nat.lt_succ_self _)), reached]
  by_cases below : ds ++ [i] <+: ds'
  · obtain ⟨rest, rfl⟩ := below
    have new : follow next (write m p i e) root (ds ++ [i]) = some q := by
      rw [follow_snoc, base, bind_some, write_self, link]
    have old : follow next m root (ds ++ [i]) = none := by
      rw [follow_snoc, reached, bind_some, empty]
    cases rest with
    | nil => rw [append_nil, if_pos rfl, new]
    | cons d =>
      have deep : ds.length + 2 < height := by
        have short := path'.short
        simp only [length_append, length_cons] at short
        omega
      have digit := path'.digit d (by simp)
      rw [if_neg (by simp), follow_append, new, bind_some, follow,
        write_other m e (fun both => other both.1), blank deep d digit, follow_append, old]
      rfl
  · rw [if_neg fun eq : ds' = ds ++ [i] => below (eq ▸ prefix_refl _), follow_write tree path reached path' below]

include empty fresh blank link in
theorem Tree.attach : Tree next (write m p i e) root width height := by
  intro ds1 ds2 p' path1 path2 reached1 reached2
  rw [follow_attach tree path reached empty fresh blank link path1] at reached1
  rw [follow_attach tree path reached empty fresh blank link path2] at reached2
  split at reached1
  next eq1 =>
    cases reached1
    split at reached2
    next eq2 => rw [eq1, eq2]
    · exact absurd reached2 (fresh ds2 path2)
  · split at reached2
    · cases reached2
      exact absurd reached1 (fresh ds1 path1)
    · exact tree ds1 ds2 p' path1 path2 reached1 reached2

/-- One cell of one leaf changes. -/
theorem lookup_write {d : Nat} (leaf : ds.length + 1 = height) (path' : Path width height ds') :
    lookup next (write m p i e) root ds' d = if ds' = ds ∧ d = i then some e else lookup next m root ds' d := by
  rw [lookup, lookup, follow_write_leaf tree path reached leaf path']
  cases reached' : follow next m root ds' with
  | none =>
    rw [if_neg]
    · rfl
    · rintro ⟨rfl, rfl⟩
      rw [reached] at reached'
      contradiction
  | some q =>
    rw [map_some, map_some]
    by_cases here : q = p ∧ d = i
    · obtain ⟨rfl, rfl⟩ := here
      rw [if_pos ⟨tree ds' ds q path' path reached' reached, rfl⟩, write_self]
    · rw [write_other m e here, if_neg]
      rintro ⟨rfl, rfl⟩
      rw [reached] at reached'
      cases reached'
      exact here ⟨rfl, rfl⟩

end

omit [DecidableEq ν]

/-! ## All nodes -/

/-- The nodes below a node and then itself, as a walk with the children first lists them. -/
def collect (next : ε → Option ν) (m : Memory ν ε) (width : Nat) : Nat → ν → List ν
  | 0, _ => []
  | height + 1, p =>
    ((List.range width).flatMap fun i => ((next (m p i)).map (collect next m width height)).getD []) ++ [p]

theorem mem_below : q ∈ ((next (m p j)).map (collect next m width height)).getD [] ↔
    ∃ r, next (m p j) = some r ∧ q ∈ collect next m width height r := by
  cases next (m p j) with
  | none | some r => simp

theorem mem_collect : q ∈ collect next m width height p ↔ ∃ ds, Path width height ds ∧ follow next m p ds = some q := by
  induction height generalizing p with
  | zero =>
    constructor
    · intro mem
      contradiction
    · rintro ⟨ds, path, -⟩
      exact absurd path.short (Nat.not_lt_zero _)
  | succ height ih =>
    simp only [collect, mem_append, mem_flatMap, mem_range, mem_singleton, mem_below, ih]
    constructor
    · rintro (⟨j, digit, r, link, ds, path, reached⟩ | rfl)
      · refine ⟨j :: ds, path.cons digit, ?_⟩
        rw [follow, link]
        exact reached
      · exact ⟨[], ⟨Nat.succ_pos height, by simp⟩, rfl⟩
    · rintro ⟨ds, path, reached⟩
      cases ds with
      | nil => exact .inr (some.inj reached).symm
      | cons j ds =>
        obtain ⟨r, link, rest⟩ := bind_eq_some_iff.mp reached
        exact .inl ⟨j, path.digit j mem_cons_self, r, link, ds,
          ⟨Nat.lt_of_succ_lt_succ path.short, fun d mem => path.digit d (mem_cons_of_mem j mem)⟩, rest⟩

/-- Every node is listed once. -/
theorem nodup_collect (tree : Tree next m p width height) : (collect next m width height p).Nodup := by
  induction height generalizing p with
  | zero => exact nodup_nil
  | succ height ih =>
    have below : ∀ j < width, ∀ r, next (m p j) = some r → ∀ ds, follow next m p (j :: ds) = follow next m r ds := by
      intro j _ r link ds
      rw [follow, link, bind_some]
    rw [collect, nodup_append, nodup_flatMap]
    refine ⟨⟨?_, ?_⟩, nodup_singleton p, ?_⟩
    · intro j mem
      have digit := mem_range.mp mem
      cases link : next (m p j) with
      | none => exact nodup_nil
      | some r =>
        apply ih
        intro ds ds' q path path' reached reached'
        rw [← below j digit r link] at reached reached'
        exact (List.cons.inj (tree _ _ q (path.cons digit) (path'.cons digit) reached reached')).2
    · refine pairwise_lt_range.imp_of_mem ?_
      intro j k memberj memberk less q first second
      obtain ⟨r, link, inside⟩ := mem_below.mp first
      obtain ⟨r', link', inside'⟩ := mem_below.mp second
      obtain ⟨ds, path, reached⟩ := mem_collect.mp inside
      obtain ⟨ds', path', reached'⟩ := mem_collect.mp inside'
      rw [← below j (mem_range.mp memberj) r link] at reached
      rw [← below k (mem_range.mp memberk) r' link'] at reached'
      have same := tree _ _ q (path.cons (mem_range.mp memberj)) (path'.cons (mem_range.mp memberk)) reached reached'
      exact absurd (List.cons.inj same).1 (Nat.ne_of_lt less)
    · intro q mem q' single
      obtain rfl := mem_singleton.mp single
      rintro rfl
      obtain ⟨j, inside, found⟩ := mem_flatMap.mp mem
      obtain ⟨r, link, inside'⟩ := mem_below.mp found
      obtain ⟨ds, path, reached⟩ := mem_collect.mp inside'
      rw [← below j (mem_range.mp inside) r link] at reached
      have same := tree _ [] q (path.cons (mem_range.mp inside)) ⟨Nat.succ_pos height, by simp⟩ reached rfl
      contradiction

/-! ## Digits of a number -/

/-- The lowest `count` digits of `bits` bits each, the most significant one first. -/
def digits (bits : Nat) : Nat → Nat → List Nat
  | 0, _ => []
  | count + 1, n => n / 2 ^ (bits * count) % 2 ^ bits :: digits bits count n

@[simp]
theorem length_digits (bits count n : Nat) : (digits bits count n).length = count := by
  induction count with
  | zero => rfl
  | succ count ih => rw [digits, length_cons, ih]

theorem digits_path (bits count n : Nat) : Path (2 ^ bits) (count + 1) (digits bits count n) := by
  refine ⟨by simp, fun d mem => ?_⟩
  induction count with
  | zero => contradiction
  | succ count ih =>
    rcases mem_cons.mp mem with rfl | later
    · exact Nat.mod_lt _ (Nat.two_pow_pos bits)
    · exact ih later

theorem digits_inj {bits count n n' : Nat} (same : digits bits count n = digits bits count n') :
    n % 2 ^ (bits * count) = n' % 2 ^ (bits * count) := by
  induction count with
  | zero => simp [Nat.mod_one]
  | succ count ih =>
    obtain ⟨first, rest⟩ := List.cons.inj same
    rw [Nat.mul_succ, pow_add, Nat.mod_mul, Nat.mod_mul, first, ih rest]

/-- A number is given by its digits and the bits below them. -/
theorem digits_low_inj {bits count low n n' : Nat} (bound : n < 2 ^ (bits * count + low))
    (bound' : n' < 2 ^ (bits * count + low)) (high : digits bits count (n / 2 ^ low) = digits bits count (n' / 2 ^ low))
    (rest : n % 2 ^ low = n' % 2 ^ low) : n = n' := by
  have small : ∀ k < 2 ^ (bits * count + low), k / 2 ^ low % 2 ^ (bits * count) = k / 2 ^ low := by
    intro k less
    rw [pow_add] at less
    exact Nat.mod_eq_of_lt (Nat.div_lt_of_lt_mul (Nat.mul_comm _ _ ▸ less))
  have same := digits_inj high
  rw [small n bound, small n' bound'] at same
  rw [← Nat.div_add_mod n (2 ^ low), ← Nat.div_add_mod n' (2 ^ low), same, rest]

end SuperGlue.Lib.RadixTrie
