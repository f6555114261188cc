import SuperGlue.Guarantees.FileIdentity

/-!
# Resolving a path

`fsobj_find_child` compares as many characters as a component has, so it also takes a child whose name is longer, and
it asserts that what it searches is a directory. A path is resolved exactly if neither happens on the way.
-/
namespace SuperGlue.Guarantees.PathResolution
open List Source.UniqMap.Names Source.Ramfs.Tree FileTree FileIdentity

/-- The names in a path. -/
def components (path : Str) : List Str := (path.splitOnP (· == slash)).filter (· ≠ [])

/-- What `fsobj_path2obj` should return: the object at the path, or, if there is none, the last directory on the way
that exists and the path from the first component that is not in it. -/
def Right (h : Heap) (base : List Str) (path : Str) : Resolved → Prop
  | .found o => Place h o (base ++ components path)
  | .missing parent subpath => subpath <:+ path ∧ subpath.head? ≠ some slash ∧
    ∃ names name rest, components path = names ++ name :: rest ∧ components subpath = name :: rest ∧
      Place h parent (base ++ names) ∧ (∃ d, h parent = some d ∧ d.dir = true) ∧
      -- there is nothing by the next name or below it, so nothing at the path
      ∀ o below, ¬ Place h o (base ++ names ++ name :: below)

/-- Every object on the way is a directory, and the first of its children whose name begins with the next component
has it as its name. -/
def Clear (h : Heap) : Nat → List Str → Prop
  | _, [] => True
  | dir, name :: rest =>
    match fsobjFindChild h name dir with
    | .ok none => True
    | .ok (some c) => (h c).map Fsobj.name = some name ∧ Clear h c rest
    | .error _ => False

/-! ## Strings -/

theorem components_append (a b : Str) : components (a ++ slash :: b) = components a ++ components b := by
  have split := splitOnP_append_cons (p := (· == slash)) a b (beq_self_eq_true slash)
  rw [components, split, filter_append]
  rfl

theorem components_drop (path : Str) : components (path.dropWhile (· == slash)) = components path := by
  induction path with
  | nil => rfl
  | cons c rest ih =>
    by_cases front : c = slash
    · subst front
      have skipped := components_append [] rest
      simp only [dropWhile_cons, beq_self_eq_true, if_true, ih]
      exact skipped.symm
    · rw [dropWhile_cons_of_neg (by simpa using front)]

/-- A path that starts with a name. -/
theorem components_cons {path : Str} (some_ : path ≠ []) (front : path.head? ≠ some slash) :
    components path = path.takeWhile (· != slash) :: components (path.dropWhile (· != slash)).tail := by
  have first : components (path.takeWhile (· != slash)) = [path.takeWhile (· != slash)] := by
    have whole : ∀ c ∈ path.takeWhile (· != slash), (c == slash) = false := fun c inside => by
      simpa using mem_takeWhile_imp inside
    rw [components, splitOnP_eq_singleton whole]
    cases path with
    | nil => contradiction
    | cons c =>
      have other : c ≠ slash := by simpa using front
      simp [other]
  cases split : path.dropWhile (· != slash) with
  | nil =>
    have parts := takeWhile_append_dropWhile (p := (· != slash)) (l := path)
    rw [split, append_nil] at parts
    rwa [parts] at first ⊢
  | cons c next =>
    conv_lhs => rw [path_split split]
    rw [components_append, first]
    rfl

/-- The walk of `fsobj_path2obj` along the names, with what is left of them. -/
def walk (h : Heap) : Nat → List Str → Except Fault (Nat × List Str)
  | dir, [] => .ok (dir, [])
  | dir, name :: rest => (fsobjFindChild h name dir).bind fun
    | none => .ok (dir, name :: rest)
    | some o => walk h o rest

/-- What the walk along the names says about the one along the string. -/
def Follows (path : Str) (result : Except Fault Resolved) : Except Fault (Nat × List Str) → Prop
  | .error fault => result = .error fault
  | .ok (o, []) => result = .ok (.found o)
  | .ok (o, name :: more) => ∃ subpath, result = .ok (.missing o subpath) ∧ components subpath = name :: more ∧
    subpath <:+ path ∧ subpath.head? ≠ some slash

theorem Follows.mono {path next : Str} {result : Except Fault Resolved} {along : Except Fault (Nat × List Str)}
    (follows : Follows next result along) (suffix : next <:+ path) : Follows path result along := by
  rcases along with fault | ⟨o, _ | ⟨name, more⟩⟩
  · exact follows
  · exact follows
  · obtain ⟨subpath, found, left, within, start⟩ := follows
    exact ⟨subpath, found, left, within.trans suffix, start⟩

variable {h : Heap}

theorem path2obj_follows {path : Str} {fuel : Nat} (dir : Nat) (enough : path.length ≤ fuel) :
    Follows path (path2obj h fuel dir path) (walk h dir (components path)) := by
  induction fuel generalizing path dir with
  | zero =>
    obtain rfl : path = [] := length_eq_zero_iff.mp (Nat.le_zero.mp enough)
    rfl
  | succ fuel ih =>
    have suffix : path.dropWhile (· == slash) <:+ path := dropWhile_suffix _
    have front : (path.dropWhile (· == slash)).head? ≠ some slash := by
      intro first
      have stopped := head?_dropWhile_not (· == slash) path
      rw [first] at stopped
      contradiction
    rw [← components_drop, path2obj]
    generalize path.dropWhile (· == slash) = rest at suffix front
    split
    next none_ =>
      subst none_
      rfl
    rename_i some_
    have shape := components_cons some_ front
    rw [shape, walk]
    cases fsobjFindChild h (rest.takeWhile (· != slash)) dir with
    | error => rfl
    | ok child =>
      cases child with
      | none => exact ⟨rest, rfl, shape, suffix, front⟩
      | some o =>
        cases split : rest.dropWhile (· != slash) with
        | nil => simp [Except.bind, walk, components, Follows]
        | cons c next =>
          have parts := path_split split
          have below : next <:+ rest := ⟨rest.takeWhile (· != slash) ++ [slash], by simpa using parts.symm⟩
          have shorter : next.length ≤ fuel := by
            have size := congrArg length parts
            have le := suffix.length_le
            simp only [length_append, length_cons] at size
            omega
          exact (ih o shorter).mono (below.trans suffix)

/-! ## The tree -/

variable {dir o : Nat} {name : Str} {base names front rest : List Str}

/-- The way to a place leads through every name in it. -/
theorem Place.through (place : Place h o (base ++ name :: rest)) :
    ∃ p d c f, Place h p base ∧ h p = some d ∧ c ∈ d.child ∧ h c = some f ∧ f.name = name := by
  generalize same : base ++ name :: rest = names at place
  induction place generalizing rest with
  | root => simp at same
  | @child p c f g names above known mem found ih =>
    rcases eq_nil_or_concat rest with rfl | ⟨rest, last, rfl⟩
    · obtain ⟨rfl, eq⟩ := append_inj' same rfl
      exact ⟨p, f, c, g, above, known, mem, found, (cons.inj eq).1.symm⟩
    · rw [concat_eq_append, ← cons_append, ← append_assoc] at same
      exact ih (append_inj' same rfl).1

/-- A clear walk ends at the last name that is in the tree. -/
theorem walk_clear (siblings : Siblings h) (clear : Clear h dir names) (place : Place h dir base) :
    ∃ o front rest, walk h dir names = .ok (o, rest) ∧ names = front ++ rest ∧ Place h o (base ++ front) ∧
      ∀ name more, rest = name :: more →
        (∃ d, h o = some d ∧ d.dir) ∧ ∀ x below, ¬ Place h x (base ++ front ++ name :: below) := by
  induction names generalizing dir base with
  | nil => exact ⟨dir, [], [], rfl, rfl, by simpa using place, nofun⟩
  | cons name rest ih =>
    rw [Clear] at clear
    rw [walk]
    split at clear
    next found =>
      obtain ⟨d, known, isDir, among⟩ := fsobjFindChild_ok found
      rw [found]
      refine ⟨dir, [], name :: rest, rfl, rfl, by simpa using place, ?_⟩
      rintro _ _ ⟨⟩
      refine ⟨⟨d, known, isDir⟩, fun x below at_ => ?_⟩
      rw [append_nil] at at_
      obtain ⟨p, d', c, f, there, known', mem, found', rfl⟩ := Place.through at_
      cases there.object siblings place
      cases known.symm.trans known'
      obtain ⟨g, same, other⟩ := findAmong_none among mem
      cases found'.symm.trans same
      exact other prefix_rfl
    next c found =>
      obtain ⟨d, known, -, among⟩ := fsobjFindChild_ok found
      obtain ⟨is, clear⟩ := clear
      obtain ⟨f, there, rfl⟩ := Option.map_eq_some_iff.mp is
      obtain ⟨o, front, rest', walked, rfl, at_, last⟩ := ih clear (.child place known (findAmong_some among).1 there)
      rw [found]
      exact ⟨o, f.name :: front, rest', walked, rfl, by simpa using at_, by simpa using last⟩
    · contradiction

theorem walk_place (walked : walk h dir names = .ok (o, rest)) (place : Place h dir base) :
    ∃ front, Place h o (base ++ front) := by
  induction names generalizing dir base with
  | nil =>
    cases walked
    exact ⟨[], by simpa using place⟩
  | cons name names ih =>
    obtain ⟨child, found, walked⟩ := bind_ok walked
    obtain ⟨d, known, -, among⟩ := fsobjFindChild_ok found
    cases child with
    | none =>
      cases walked
      exact ⟨[], by simpa using place⟩
    | some c =>
      obtain ⟨mem, f, there, -⟩ := findAmong_some among
      obtain ⟨front, at_⟩ := ih walked (.child place known mem there)
      exact ⟨f.name :: front, by simpa using at_⟩

/-- A walk that ends at the place of the names it has read was clear. -/
theorem clear_of_walk (wooded : Wooded h) (walked : walk h dir names = .ok (o, rest)) (place : Place h dir base)
    (split : names = front ++ rest) (at_ : Place h o (base ++ front)) : Clear h dir names := by
  induction names generalizing dir base front with
  | nil => trivial
  | cons name names ih =>
    obtain ⟨child, found, walked⟩ := bind_ok walked
    obtain ⟨d, known, -, among⟩ := fsobjFindChild_ok found
    rw [Clear, found]
    cases child with
    | none => trivial
    | some c =>
      obtain ⟨mem, f, there, -⟩ := findAmong_some among
      have below : Place h c (base ++ [f.name]) := .child place known mem there
      obtain ⟨more, further⟩ := walk_place walked below
      -- the object has one place, so the child is named as the path has it
      have same := at_.unique wooded further
      rw [append_assoc, append_cancel_left_eq] at same
      subst same
      obtain ⟨rfl, rfl⟩ := cons.inj split
      exact ⟨Option.map_eq_some_iff.mpr ⟨f, there, rfl⟩, ih walked below rfl further⟩

/-- A path is resolved as it should be if and only if every object on the way is a directory and the first of its
children whose name begins with the next component is the one with that name. -/
theorem path_resolved_iff {h : Heap} {root : Nat} {base : List Str} (wooded : Wooded h) (siblings : Siblings h)
    (start : Place h root base) (path : Str) :
    (∃ r, fsobjPath2obj h path root = .ok r ∧ Right h base path r) ↔ Clear h root (components path) := by
  have follows := path2obj_follows (h := h) root (le_refl path.length)
  constructor
  · rintro ⟨r, result, right⟩
    generalize along : walk h root (components path) = walked at follows
    rcases walked with fault | ⟨p, _ | ⟨name, rest⟩⟩
    · cases follows.symm.trans result
    · cases follows.symm.trans result
      exact clear_of_walk wooded along start (append_nil _).symm right
    · obtain ⟨subpath, missing, left, -⟩ := follows
      cases missing.symm.trans result
      obtain ⟨-, -, names, name', rest', split, left', at_, -⟩ := right
      cases left.symm.trans left'
      exact clear_of_walk wooded along start split at_
  · intro clear
    obtain ⟨o, front, rest, walked, split, at_, last⟩ := walk_clear siblings clear start
    rw [walked] at follows
    cases rest with
    | nil =>
      rw [append_nil] at split
      rw [← split] at at_
      exact ⟨.found o, follows, at_⟩
    | cons name rest =>
      obtain ⟨subpath, missing, left, within, first⟩ := follows
      exact ⟨_, missing, within, first, front, name, rest, split, left, at_, last name rest rfl⟩

/-- A file `ab` in the root. -/
def oneFile : Heap
  | 0 => some { fsInitRoot with child := [1] }
  | 1 => some { fsobjCons [97, 98] false 0 [] with parent := some 0 }
  | _ => none

theorem oneFile_tree : Wooded oneFile ∧ Siblings oneFile := by
  refine ⟨⟨⟨_, rfl, rfl⟩, ?_, ?_, ?_, ?_⟩, ?_⟩
  · rintro (_ | _ | c) g ⟨⟩ up
    · rfl
    · contradiction
  · rintro (_ | _ | a) f c ⟨⟩ mem
    · obtain rfl := mem_singleton.mp mem
      exact ⟨_, rfl, rfl⟩
    · contradiction
  · rintro (_ | _ | c) g p ⟨⟩ ⟨⟩
    exact ⟨_, rfl, mem_singleton_self 1⟩
  · rintro (_ | _ | a) f ⟨⟩ <;> decide
  · rintro (_ | _ | a) f c d g k ⟨⟩ first second - - -
    · rw [mem_singleton.mp first, mem_singleton.mp second]
    · contradiction

/-- A file `ab` and a directory `abc` in the root, and a file `d` in the directory. -/
def nested : Heap
  | 0 => some { fsInitRoot with child := [1, 2] }
  | 1 => some { fsobjCons [97, 98] false 0 [] with parent := some 0 }
  | 2 => some { fsobjCons [97, 98, 99] true 0 [] with parent := some 0, child := [3] }
  | 3 => some { fsobjCons [100] false 0 [] with parent := some 2 }
  | _ => none

theorem nested_tree : Wooded nested ∧ Siblings nested := by
  constructor
  · refine ⟨⟨_, rfl, rfl⟩, ?_, ?_, ?_, ?_⟩
    · rintro (_ | _ | _ | _ | c) g ⟨⟩ up
      · rfl
      all_goals contradiction
    · rintro (_ | _ | _ | _ | a) f c ⟨⟩ mem
      · rcases mem with _ | ⟨_, _ | ⟨_, ⟨⟩⟩⟩ <;> exact ⟨_, rfl, rfl⟩
      · contradiction
      · obtain rfl := mem_singleton.mp mem
        exact ⟨_, rfl, rfl⟩
      · contradiction
    · rintro (_ | _ | _ | _ | c) g p ⟨⟩ ⟨⟩ <;> exact ⟨_, rfl, by decide⟩
    · rintro (_ | _ | _ | _ | a) f ⟨⟩ <;> decide
  · rintro (_ | _ | _ | _ | a) f c d g k ⟨⟩ first second here there same
    · rcases first with _ | ⟨_, _ | ⟨_, ⟨⟩⟩⟩ <;> rcases second with _ | ⟨_, _ | ⟨_, ⟨⟩⟩⟩ <;>
        cases here <;> cases there <;> first | rfl | exact absurd same (by decide)
    · contradiction
    · rw [mem_singleton.mp first, mem_singleton.mp second]
    · contradiction

/-- `ab` is found though `abc` begins with it, `abc//d` is found, and of `abc/e` the `e` is missing. -/
theorem file_resolved : fsobjPath2obj nested [97, 98] 0 = .ok (.found 1) ∧
    fsobjPath2obj nested [97, 98, 99, 47, 47, 100] 0 = .ok (.found 3) ∧
    fsobjPath2obj nested [97, 98, 99, 47, 101] 0 = .ok (.missing 2 [101]) ∧
    ∀ path ∈ [[97, 98], [97, 98, 99, 47, 47, 100], [97, 98, 99, 47, 101]],
      ∃ r, fsobjPath2obj nested path 0 = .ok r ∧ Right nested [] path r := by
  refine ⟨rfl, rfl, rfl, fun path mem => (path_resolved_iff nested_tree.1 nested_tree.2 .root _).mpr ?_⟩
  fin_cases mem
  · exact ⟨rfl, trivial⟩
  · exact ⟨rfl, rfl, trivial⟩
  · exact ⟨rfl, trivial⟩

/-- The path `a` finds the file `ab`, and the path `ab/c` fails the assertion that `ab` is a directory. -/
theorem longer_name_found : Wooded oneFile ∧ Siblings oneFile ∧
    fsobjPath2obj oneFile [97] 0 = .ok (.found 1) ∧ ¬ Place oneFile 1 (components [97]) ∧
    fsobjPath2obj oneFile [97, 98, 47, 99] 0 = .error .assertion := by
  refine ⟨oneFile_tree.1, oneFile_tree.2, rfl, fun at_ => ?_, rfl⟩
  have place := Place.child (h := oneFile) .root rfl (mem_singleton_self 1) rfl
  exact absurd (at_.unique oneFile_tree.1 place) (by decide)

end SuperGlue.Guarantees.PathResolution
