import SuperGlue.Lib.Paths
import SuperGlue.Guarantees.FileLiveness

/-!
# The ids of files

A run in which paths are spelled without leading and repeated slashes, every component of a path that is found is
the whole name of what it finds, and the memory for a new path is clear, stores for every object the names on the
way to it, so that its id stands for its place in the tree and nothing else. The ids are kept by another component,
and are the same after the file system was started again.
-/
namespace SuperGlue.Guarantees.FileIdentity
open Function (update update_of_ne update_self)
open List Lib.FiniteMap Lib.Transition Lib.Paths Source.UniqMap.Names Source.Ramfs.Tree Source.Ramfs.Server FileChanges
  FileTree FileLiveness

/-! ## Places -/

/-- The names on the way from the root to an object. -/
inductive Place (h : Heap) : Nat → List Str → Prop where
  | root : Place h 0 []
  | child {p c : Nat} {f g : Fsobj} {names : List Str} (above : Place h p names) (known : h p = some f)
      (member : c ∈ f.child) (found : h c = some g) : Place h c (names ++ [g.name])

section Places
variable {h h' : Heap} {a b : Nat} {names names' : List Str}

/-- A place is the same in a heap that has the same way to it. -/
theorem Place.transport (keep : Nat → Prop) (up : ∀ p f c, h p = some f → c ∈ f.child → keep p)
    (edges : ∀ p f c g, keep c → h p = some f → c ∈ f.child → h c = some g →
      ∃ f' g', h' p = some f' ∧ c ∈ f'.child ∧ h' c = some g' ∧ g'.name = g.name)
    (place : Place h a names) (kept : keep a) : Place h' a names := by
  induction place with
  | root => exact .root
  | @child p c f g names _ known mem found ih =>
    obtain ⟨f', g', known', mem', found', same⟩ := edges p f c g kept known mem found
    rw [← same]
    exact .child (ih (up p f c known mem)) known' mem' found'

theorem root_no_child (wooded : Wooded h) (p : Nat) (f : Fsobj) (known : h p = some f) : 0 ∉ f.child := by
  intro mem
  obtain ⟨r, root, none_⟩ := wooded.root
  obtain ⟨g, found, up⟩ := wooded.child p f 0 known mem
  cases root.symm.trans found
  simp [none_] at up

/-- An object has one place. -/
theorem Place.unique (wooded : Wooded h) (place : Place h a names) (place' : Place h a names') : names = names' := by
  have notRoot := root_no_child wooded
  induction place generalizing names' with
  | root =>
    cases place' with
    | root => rfl
    | child _ known mem => exact absurd mem (notRoot _ _ known)
  | @child p c f g names _ known mem found ih =>
    cases place' with
    | root => exact absurd mem (notRoot _ _ known)
    | @child q _ f' g' names' above' known' mem' found' =>
      cases found.symm.trans found'
      obtain ⟨k, at_, up⟩ := wooded.child p f c known mem
      obtain ⟨k', at', up'⟩ := wooded.child q f' c known' mem'
      cases at_.symm.trans at'
      cases up.symm.trans up'
      rw [ih above']

/-- Siblings have different names. -/
def Siblings (h : Heap) : Prop :=
  ∀ a f c d g k, h a = some f → c ∈ f.child → d ∈ f.child → h c = some g → h d = some k → g.name = k.name → c = d

/-- At a place there is one object. -/
theorem Place.object (siblings : Siblings h) (place : Place h a names) (place' : Place h b names) : a = b := by
  generalize same : names = names' at place'
  induction place generalizing b names' with
  | root =>
    cases place' with
    | root => rfl
    | child => simp at same
  | @child p c f g names _ known mem found ih =>
    cases place' with
    | root => simp at same
    | @child q _ f' g' names' above' known' mem' found' =>
      obtain ⟨rfl, eq⟩ := append_inj' same rfl
      cases ih _ rfl above'
      cases known.symm.trans known'
      exact siblings p f c b g g' known mem mem' found found' (by simpa using eq)

theorem Place.names_valid (wooded : Wooded h) (valid : ∀ a f, h a = some f → a ≠ 0 → IsName slash f.name)
    (place : Place h a names) : ∀ name ∈ names, IsName slash name := by
  induction place with
  | root => simp
  | @child p c f g names _ known mem found ih =>
    intro name inside
    rcases mem_append.mp inside with inside | inside
    · exact ih name inside
    rw [mem_singleton.mp inside]
    refine valid c g found ?_
    rintro rfl
    exact root_no_child wooded p f known mem

theorem Place.ne_nil (place : Place h a names) (other : a ≠ 0) : names ≠ [] := by
  cases place with
  | root => contradiction
  | child => simp

end Places

/-! ## Paths -/

/-- A path that is spelled as the tree has it: no slash is skipped, and a component that is found is the whole name of
what it finds. -/
def exactWalk (h : Heap) : Nat → Nat → Str → Bool
  | 0, _, _ => true
  | fuel + 1, dir, path =>
    path.isEmpty || (path.head? != some slash &&
      match fsobjFindChild h (path.takeWhile (· != slash)) dir with
      | .ok (some o) =>
        (h o).any (fun f => f.name == path.takeWhile (· != slash)) &&
          match path.dropWhile (· != slash) with
          | [] => true
          | _ :: next => exactWalk h fuel o next
      | _ => true)

/-- The caller spells the path as the tree has it, and the memory for a new path is clear. -/
def plain (s : State) : Label → Prop
  | .tsplit td param _ a =>
    (∀ t ∈ s.torrents.get td, exactWalk s.obj param.length t.data param = true) ∧ a.stale = none ∧ a.dirt = []
  | _ => True

section Paths
variable {h : Heap}

/-- A path up to its first slash. -/
theorem path_split {path next : Str} {c : UInt8} (rest : path.dropWhile (· != slash) = c :: next) :
    path = path.takeWhile (· != slash) ++ slash :: next := by
  have atSlash : c = slash := by
    have stopped := head_dropWhile_not (· != slash) (by simp [rest] : path.dropWhile (· != slash) ≠ [])
    simpa [rest] using stopped
  have whole := takeWhile_append_dropWhile (p := (· != slash)) (l := path)
  rw [rest, atSlash] at whole
  exact whole.symm

/-- A walk that ends at a missing object, with the names of the directories on its way. -/
theorem walk_missing {fuel dir parent : Nat} {path subpath : Str} {base : List Str}
    (exact_ : exactWalk h fuel dir path) (missing : path2obj h fuel dir path = .ok (.missing parent subpath))
    (start : Place h dir base) :
    ∃ comps : List Str, path = comps.flatMap (· ++ [slash]) ++ subpath ∧ Place h parent (base ++ comps) ∧
      subpath ≠ [] ∧ subpath.head? ≠ some slash ∧
      (∃ d, h parent = some d ∧ findAmong h (subpath.takeWhile (· != slash)) d.child = .ok none) ∧
      ∃ f, h dir = some f ∧ f.dir := by
  induction fuel generalizing dir path base with
  | zero => cases missing
  | succ fuel ih =>
    simp only [path2obj] at missing
    simp only [exactWalk, Bool.or_eq_true, List.isEmpty_iff, Bool.and_eq_true, bne_iff_ne] at exact_
    rcases exact_ with rfl | ⟨front, exact_⟩
    · simp at missing
    rw [List.dropWhile_beq_eq_self_of_head?_ne front] at missing
    split at missing
    · cases missing
    rename_i some_
    obtain ⟨child, found, missing⟩ := bind_ok missing
    obtain ⟨d, known, isDir, among⟩ := fsobjFindChild_ok found
    rw [found] at exact_
    cases child with
    | none =>
      cases missing
      exact ⟨[], by simp, by simpa using start, some_, front, ⟨d, known, among⟩, d, known, isDir⟩
    | some o =>
      simp only [Bool.and_eq_true, Option.any_eq_true, beq_iff_eq] at exact_
      obtain ⟨⟨g, there, named⟩, exact_⟩ := exact_
      dsimp only at missing
      split at missing
      · cases missing
      rename_i c next rest
      rw [rest] at exact_
      have below : Place h o (base ++ [g.name]) := .child start known (findAmong_some among).1 there
      obtain ⟨comps, spelled, place, some', front', last, -⟩ := ih exact_ missing below
      refine ⟨g.name :: comps, ?_, by simpa using place, some', front', last, d, known, isDir⟩
      rw [path_split rest, spelled, named]
      simp

/-- The name of a new object is what stands in front of the slash. -/
theorem childName_some {subpath name : Str} {dir : Bool} (some_ : subpath ≠ []) (front : subpath.head? ≠ some slash)
    (named : childName subpath = some (name, dir)) :
    subpath = name ++ (if dir then [slash] else []) ∧ name = subpath.takeWhile (· != slash) ∧ IsName slash name := by
  have part : IsName slash (subpath.takeWhile (· != slash)) := by
    constructor
    · cases subpath with
      | nil => contradiction
      | cons c =>
        have other : c ≠ slash := by simpa using front
        simp [other]
    · intro inside
      have := mem_takeWhile_imp inside
      simp at this
  unfold childName at named
  split at named
  next none_ =>
    cases named
    have whole : subpath.takeWhile (· != slash) = subpath := by
      have parts := takeWhile_append_dropWhile (p := (· != slash)) (l := subpath)
      rwa [none_, append_nil] at parts
    rw [whole] at part
    exact ⟨by simp, whole.symm, part⟩
  next c rest =>
    cases named
    exact ⟨path_split rest, rfl, part⟩
  · cases named

end Paths

/-! ## Stored paths -/

/-- Every object stores its place. -/
structure Spelled (s : State) : Prop where
  wooded : Wooded s.obj
  name : ∀ a f, s.obj a = some f → a ≠ 0 → IsName slash f.name
  siblings : Siblings s.obj
  path : ∀ a f, s.obj a = some f → ∃ names, Place s.obj a names ∧ f.uniquePath = spell slash names f.dir
  valid : s.uniq.Valid

section Stored
variable {s s' : State} {label : Label}

section
variable (spelled : Spelled s) {o parent : Nat}
include spelled

/-- Every object that is left has its name and its path still, and is where it was. -/
theorem Spelled.of_old (wooded : Wooded s'.obj) (ids : s'.uniq = s.uniq)
    (old : ∀ x g, s'.obj x = some g → ∃ g0, s.obj x = some g0 ∧ g.name = g0.name ∧ g.uniquePath = g0.uniquePath ∧
      g.dir = g0.dir ∧ ∀ c ∈ g.child, c ∈ g0.child)
    (places : ∀ x g names, s'.obj x = some g → Place s.obj x names → Place s'.obj x names) : Spelled s' := by
  refine ⟨wooded, ?_, ?_, ?_, ids ▸ spelled.valid⟩
  · intro x g found other
    obtain ⟨g0, found0, same, -⟩ := old x g found
    rw [same]
    exact spelled.name x g0 found0 other
  · intro x g c d k l found first second atC atD same
    obtain ⟨g0, found0, -, -, -, fewer⟩ := old x g found
    obtain ⟨k0, atC0, nameC, -⟩ := old c k atC
    obtain ⟨l0, atD0, nameD, -⟩ := old d l atD
    exact spelled.siblings x g0 c d k0 l0 found0 (fewer c first) (fewer d second) atC0 atD0
      (nameC.symm.trans (same.trans nameD))
  · intro x g found
    obtain ⟨g0, found0, -, path, dir, -⟩ := old x g found
    obtain ⟨names, place, stored⟩ := spelled.path x g0 found0
    exact ⟨names, places x g names found place, by rw [path, dir, stored]⟩

/-- An object is changed, but neither its place nor its path. -/
theorem Spelled.edit {a : Nat} {f f' : Fsobj} (known : s.obj a = some f)
    (objects : s'.obj = update s.obj a (some f')) (ids : s'.uniq = s.uniq)
    (frame : f'.name = f.name ∧ f'.uniquePath = f.uniquePath ∧ f'.dir = f.dir ∧ f'.parent = f.parent ∧
      f'.child = f.child) : Spelled s' := by
  obtain ⟨name, path, dir, up, down⟩ := frame
  have new : ∀ x g0, s.obj x = some g0 → ∃ g, s'.obj x = some g ∧ g.name = g0.name ∧ g.child = g0.child := by
    intro x g0 found
    rw [objects]
    by_cases same : x = a
    · subst same
      cases known.symm.trans found
      exact ⟨f', update_self .., name, down⟩
    · exact ⟨g0, by rwa [update_of_ne same], rfl, rfl⟩
  refine spelled.of_old (objects ▸ spelled.wooded.edit known up down) ids ?_ ?_
  · intro x g found
    rw [objects] at found
    obtain ⟨rfl, rfl⟩ | ⟨-, found⟩ := update_known found
    · exact ⟨f, known, name, path, dir, fun _ mem => down ▸ mem⟩
    · exact ⟨g, found, rfl, rfl, rfl, fun _ => id⟩
  · intro x g names _ place
    refine place.transport (fun _ => True) (fun _ _ _ _ _ => trivial) ?_ trivial
    intro p k c l _ atP mem atC
    obtain ⟨k', atP', -, children⟩ := new p k atP
    obtain ⟨l', atC', named, -⟩ := new c l atC
    exact ⟨k', l', atP', children ▸ mem, atC', named⟩

/-- A new object below a directory. -/
theorem Spelled.create {p c : Fsobj} {names : List Str} (unused : s.obj o = none) (above : s.obj parent = some p)
    (leaf : c.child = []) (valid : IsName slash c.name) (new : ∀ d k, d ∈ p.child → s.obj d = some k → k.name ≠ c.name)
    (place : Place s.obj parent names) (stored : c.uniquePath = spell slash (names ++ [c.name]) c.dir) :
    Spelled { s with obj := fsobjChildAdd s.obj o parent c p } := by
  have notChild : ∀ x g, s.obj x = some g → o ∉ g.child := by
    intro x g found mem
    obtain ⟨k, allocated, -⟩ := spelled.wooded.child x g o found mem
    simp [unused] at allocated
  have places : ∀ x names, Place s.obj x names → Place (fsobjChildAdd s.obj o parent c p) x names := by
    intro x names place
    refine place.transport (fun _ => True) (fun _ _ _ _ _ => trivial) ?_ trivial
    intro q k d l _ atQ mem atD
    obtain ⟨k', atQ', -, members⟩ := added_kept above unused atQ
    obtain ⟨l', atD', frame, -⟩ := added_kept above unused atD
    exact ⟨k', l', atQ', members d mem, atD', by rw [frame]⟩
  -- a child behind the addition is the new one, or has the name that it had
  have children : ∀ x g d k, fsobjChildAdd s.obj o parent c p x = some g → d ∈ g.child →
      fsobjChildAdd s.obj o parent c p d = some k → ∃ g0, s.obj x = some g0 ∧
        (d = o ∧ x = parent ∧ k.name = c.name ∨ d ∈ g0.child ∧ ∃ k0, s.obj d = some k0 ∧ k.name = k0.name) := by
    intro x g d k found mem atD
    obtain ⟨-, rfl⟩ | ⟨g0, found0, -, same⟩ := added_known above found
    · simp [leaf] at mem
    refine ⟨g0, found0, ?_⟩
    obtain ⟨rfl, rfl⟩ | ⟨k0, atD0, frame, -⟩ := added_known above atD
    · rcases same with same | ⟨here, -⟩
      · exact absurd (same ▸ mem) (notChild x g0 found0)
      · exact .inl ⟨rfl, here, rfl⟩
    refine .inr ⟨?_, k0, atD0, by rw [frame]⟩
    rcases same with same | ⟨-, more⟩
    · exact same ▸ mem
    · refine (mem_addList.mp (more ▸ mem)).resolve_left ?_
      rintro rfl
      simp [unused] at atD0
  refine ⟨spelled.wooded.add above unused leaf, ?_, ?_, ?_, spelled.valid⟩
  · intro x g found other
    obtain ⟨-, rfl⟩ | ⟨g0, found0, frame, -⟩ := added_known above found
    · exact valid
    · rw [frame]
      exact spelled.name x g0 found0 other
  · intro x g d e k l found first second atD atE same
    obtain ⟨g0, found0, childD⟩ := children x g d k found first atD
    obtain ⟨g1, found1, childE⟩ := children x g e l found second atE
    cases found0.symm.trans found1
    rcases childD with ⟨rfl, rfl, nameD⟩ | ⟨memberD, k0, atD0, nameD⟩
    · rcases childE with ⟨rfl, -, -⟩ | ⟨memberE, l0, atE0, nameE⟩
      · rfl
      · cases above.symm.trans found0
        exact absurd (nameE.symm.trans (same.symm.trans nameD)) (new e l0 memberE atE0)
    · rcases childE with ⟨rfl, rfl, nameE⟩ | ⟨memberE, l0, atE0, nameE⟩
      · cases above.symm.trans found0
        exact absurd (nameD.symm.trans (same.trans nameE)) (new d k0 memberD atD0)
      · exact spelled.siblings x g0 d e k0 l0 found0 memberD memberE atD0 atE0 (nameD.symm.trans (same.trans nameE))
  · intro x g found
    obtain ⟨rfl, rfl⟩ | ⟨g0, found0, frame, -⟩ := added_known above found
    · have here := added_new (c := c) above unused
      have placed : Place (fsobjChildAdd s.obj x parent c p) x
          (names ++ [({ c with parent := some parent } : Fsobj).name]) :=
        .child (places parent names place) (update_self ..) (mem_addList.mpr (.inl rfl)) here
      exact ⟨_, placed, stored⟩
    · obtain ⟨names, place, stored⟩ := spelled.path x g0 found0
      exact ⟨names, places x names place, by rw [frame, stored]⟩

/-- A leaf is deleted. -/
theorem Spelled.remove {f p : Fsobj} (known : s.obj o = some f) (leaf : f.child = []) (inside : f.parent = some parent)
    (above : s.obj parent = some p) (objects : s'.obj = update (fsobjRem s.obj o parent f p) o none)
    (ids : s'.uniq = s.uniq) : Spelled s' := by
  refine spelled.of_old (objects ▸ spelled.wooded.remove above known leaf inside) ids ?_ ?_
  · intro x g found
    rw [objects] at found
    obtain ⟨-, g0, found0, frame, children⟩ := removed_known above found
    refine ⟨g0, found0, by rw [frame], by rw [frame], by rw [frame], fun c mem => ?_⟩
    rcases children with ⟨-, same⟩ | less
    · exact same ▸ mem
    · exact mem_of_mem_erase (less ▸ mem)
  · intro x g names found place
    rw [objects] at found ⊢
    refine place.transport (· ≠ o) ?_ ?_ (removed_known above found).1
    · -- no way leads through a leaf
      rintro q k d atQ mem rfl
      cases known.symm.trans atQ
      simp [leaf] at mem
    intro q k d l ne atQ mem atD
    have notLeaf : q ≠ o := by
      rintro rfl
      cases known.symm.trans atQ
      simp [leaf] at mem
    obtain ⟨k', atQ', -, members⟩ := removed_kept above notLeaf atQ
    obtain ⟨l', atD', frame', -⟩ := removed_kept above ne atD
    exact ⟨k', l', atQ', members d mem ne, atD', by rw [frame']⟩

end

theorem cosInit_spelled {uniq : NameMap} (records : Nat → List Record) (valid : uniq.Valid) :
    Spelled (cosInit uniq records) := by
  refine ⟨(cosInit_held uniq records).wooded, ?_, ?_, ?_, valid⟩
  · intro a f known other
    exact absurd (cosInit_obj known).1 other
  · intro a f c d g k known mem
    rw [(cosInit_obj known).2] at mem
    contradiction
  · intro a f known
    obtain ⟨rfl, rfl⟩ := cosInit_obj known
    exact ⟨[], .root, rfl⟩

theorem Spelled.change (spelled : Spelled s) (change : Change plain label s s') : Spelled s' := by
  cases change with
  | quiet | fails | adjusts | records =>
    exact { spelled with }
  | reboots => exact cosInit_spelled s.records spelled.valid
  | @creates _ td param tflags a t fso p parent o subpath name dir allowed opener base missing above named memory
      unused =>
      obtain ⟨walk, noStale, noDirt⟩ := allowed
      obtain ⟨names, place, stored⟩ := spelled.path t.data fso base
      obtain ⟨comps, spelling, below, some_, front, ⟨d, known, among⟩, f, atBase, isDir⟩ :=
        walk_missing (walk t opener) missing place
      cases above.symm.trans known
      cases base.symm.trans atBase
      obtain ⟨whole, first, valid⟩ := childName_some some_ front named
      refine spelled.create unused above rfl valid ?_ below ?_
      · intro e k mem atE same
        obtain ⟨k', atE', ne⟩ := findAmong_none among mem
        cases atE.symm.trans atE'
        rw [← first] at ne
        exact ne (same ▸ prefix_rfl)
      · change newPath fso param a = spell slash (names ++ comps ++ [name]) dir
        rw [spell_append, spell_dir, flatMap_append, ← spell_dir, newPath, noStale, noDirt, stored, isDir,
          spelling, whole]
        simp
  | opens _ _ _ known => exact spelled.edit known rfl rfl ⟨rfl, rfl, rfl, rfl, rfl⟩
  | identifies _ _ _ unused found =>
    have spec := uniqMapLookup_spec spelled.valid unused found
    exact { spelled with valid := spec.1 }
  | recovers _ known _ _ replayed =>
    have frame := replay_frame replayed
    exact spelled.edit known rfl rfl ⟨by rw [frame], by rw [frame], by rw [frame], by rw [frame], by rw [frame]⟩
  | writes _ known _ _ room =>
    have frame := makeRoom_frame room
    exact spelled.edit known rfl rfl ⟨by rw [frame], by rw [frame], by rw [frame], by rw [frame], by rw [frame]⟩
  | merges _ _ _ known inside leaf above => exact spelled.remove known leaf inside above rfl rfl
  | releases _ _ known => exact spelled.edit known rfl rfl ⟨rfl, rfl, rfl, rfl, rfl⟩

theorem Spelled.step (spelled : Spelled s) (allowed : plain s label) (next : step s label = some s') : Spelled s' :=
  step_keeps Spelled allowed next spelled fun _ _ spelled change => spelled.change change

end Stored

/-! ## Ids -/

/-- The torrent has the id of the path of its object. -/
def Identified (m : NameMap) (a : Answers) (nt : Nat) (s : State) : Prop :=
  ∃ t f id, s.torrents.get nt = some t ∧ s.obj t.data = some f ∧ s.tiduniq nt = some id ∧ f.uniquePath ≠ [] ∧
    uniqMapLookup m f.uniquePath a.id = some (s.uniq, id)

/-- The ids and the paths of objects stay as they are. -/
structure Names (s s' : State) : Prop where
  uniq : s'.uniq = s.uniq
  tiduniq : s'.tiduniq = s.tiduniq
  path : ∀ x f, s.obj x = some f → ∃ f', s'.obj x = some f' ∧ f'.uniquePath = f.uniquePath

section Ids
variable {s : State} {a : Answers} {t : Torrent}

theorem Names.fail (s : State) (fault : Fault) : Names s (s.fail fault) := ⟨rfl, rfl, fun _ f known => ⟨f, known, rfl⟩⟩

theorem after_names {α : Type} {x : Except Fault α} {rest : α → State} (runs : ∀ a, x = .ok a → Names s (rest a)) :
    Names s (s.after x rest) := by
  cases x with
  | error fault => exact .fail s fault
  | ok a => exact runs a rfl

theorem recoverData_names (td : Nat) (t : Torrent) (mapped : Bool) : Names s (recoverData s td t mapped) := by
  refine after_names fun f known => ?_
  refine after_names fun _ _ => ?_
  refine after_names fun id _ => ?_
  split
  · exact .fail s .assertion
  refine after_names fun (f', offset) replayed => ⟨rfl, rfl, ?_⟩
  intro x g found
  by_cases here : x = t.data
  · subst here
    cases (access_ok.mp known).symm.trans found
    exact ⟨f', update_self .., by rw [replay_frame replayed]⟩
  · refine ⟨g, ?_, rfl⟩
    dsimp only
    rwa [update_of_ne here]

theorem restore_names {nt : Nat} (opened : s.torrents.get nt = some t) (f : Fsobj) (id : Nat)
    (mapped : Bool) : Names s (restore s f nt t id mapped) ∧
      ∃ t', (restore s f nt t id mapped).torrents.get nt = some t' ∧ t'.data = t.data := by
  unfold restore
  split
  · have names := recoverData_names (s := s) nt t mapped
    dsimp only
    split
    · exact ⟨{ names with }, _, Table.get_set_self .., rfl⟩
    · exact ⟨names, recoverData_torrent mapped opened⟩
  · exact ⟨⟨rfl, rfl, fun _ f known => ⟨f, known, rfl⟩⟩, t, opened, rfl⟩

theorem identify_identified {nt : Nat} {f : Fsobj} (opened : s.torrents.get nt = some t) (known : s.obj t.data = some f)
    (fine : (identify s f nt t a).failed = none) : Identified s.uniq a nt (identify s f nt t a) := by
  unfold identify at fine ⊢
  split at fine
  · contradiction
  rename_i named
  rw [if_neg named]
  split at fine
  · contradiction
  rename_i uniq id found
  obtain ⟨names, t', opened', same⟩ := restore_names
    (s := { s with uniq, tiduniq := update s.tiduniq nt (some id) }) opened f id a.mapped
  obtain ⟨f', known', path⟩ := names.path t.data f known
  refine ⟨t', f', id, opened', same ▸ known', ?_, path ▸ named, ?_⟩
  · rw [names.tiduniq]
    exact update_self ..
  · rw [path, names.uniq]
    exact found

/-- If the call returns and the torrent is open, it has its id. -/
def Named (m : NameMap) (a : Answers) (nt : Nat) (s : State) : Prop :=
  s.failed = none → s.torrents.get nt ≠ none → Identified m a nt s

variable {m : NameMap} {a : Answers} {nt : Nat} {tflags : BitVec 32} {param : Str}

theorem after_named {α : Type} {x : Except Fault α} {rest : α → State} (runs : ∀ v, x = .ok v → Named m a nt (rest v)) :
    Named m a nt (s.after x rest) := by
  cases x with
  | error => exact nofun
  | ok v => exact runs v rfl

theorem returns_named (unused : s.torrents.get nt = none) (ret : Int) : Named m a nt (s.returns ret) :=
  fun _ opened => absurd unused opened

theorem openObject_named {o : Nat} (torrent : a.torrent = some nt) : Named s.uniq a nt (openObject s o tflags a) := by
  refine after_named fun obj taken => ?_
  obtain ⟨f, known, -, rfl⟩ := fsobjTake_ok taken
  rw [torrent]
  refine after_named fun g found => ?_
  rw [access_ok, update_self] at found
  cases found
  exact fun fine _ => identify_identified (Table.get_set_self ..) (update_self ..) fine

/-- A torrent that `tsplit` has opened has the id of its path. -/
theorem tsplit_named {td : Nat} (torrent : a.torrent = some nt)
    (unused : s.torrents.get nt = none) : Named s.uniq a nt (tsplit s td param tflags a) := by
  refine after_named fun found _ => ?_
  cases found with
  | none => exact returns_named unused einval
  | some =>
    refine after_named fun fso _ => ?_
    refine after_named fun r _ => ?_
    cases r with
    | found =>
      refine after_named fun fsc _ => ?_
      split
      · exact returns_named unused eacces
      · exact openObject_named torrent
    | missing =>
      refine after_named fun p _ => ?_
      split
      · exact returns_named unused eacces
      · split
        · exact returns_named unused einval
        · exact openObject_named torrent

/-- No id is lost. -/
def Keeps (m m' : NameMap) : Prop := ∀ key, m.trie.search key ≠ 0 → m'.trie.search key = m.trie.search key

theorem Keeps.trans {m m1 m2 : NameMap} (first : Keeps m m1) (second : Keeps m1 m2) : Keeps m m2 := by
  intro key named
  have same := first key named
  exact (second key (same ▸ named)).trans same

theorem change_keeps {s' : State} (spelled : Spelled s) (change : Change plain label s s') : Keeps s.uniq s'.uniq := by
  cases change with
  | identifies _ _ _ unused found => exact (uniqMapLookup_spec spelled.valid unused found).2.2.2
  | quiet | fails | reboots | creates | opens | recovers | adjusts | writes | records | merges | releases =>
    exact fun _ _ => rfl

theorem step_ids {s' : State} (inv : Spelled s ∧ Keeps m s.uniq) (allowed : plain s label)
    (next : step s label = some s') : Spelled s' ∧ Keeps m s'.uniq := by
  refine step_keeps (fun s => Spelled s ∧ Keeps m s.uniq) allowed next inv ?_
  intro s1 s2 inv change
  exact ⟨inv.1.change change, inv.2.trans (change_keeps inv.1 change)⟩

end Ids

/-! ## Results -/

/-- A call of `tsplit` that opens a torrent: the place and the type of its object, the path that is stored for it, and
its id. -/
structure Opens (s : State) (label : Label) (s' : State) (names : List Str) (dir : Bool) (path : Str) (id : Nat) :
    Prop where
  taken : step s label = some s'
  fine : s'.failed = none
  result : ∃ td param tflags a nt t f, label = .tsplit td param tflags a ∧ a.torrent = some nt ∧
    s'.torrents.get nt = some t ∧ s'.obj t.data = some f ∧ Place s'.obj t.data names ∧ f.dir = dir ∧
    f.uniquePath = path ∧ s'.tiduniq nt = some id

section Results
variable {s s' : State} {label : Label} {names : List Str} {dir : Bool} {path : Str} {id : Nat}

/-- The stored path spells the place, and has the id. -/
theorem Opens.spec (opens : Opens s label s' names dir path id) (spelled : Spelled s) (allowed : plain s label) :
    path = spell slash names dir ∧ (∀ name ∈ names, IsName slash name) ∧ names ≠ [] ∧ id ≠ 0 ∧
      s'.uniq.trie.search path = id := by
  have spelled' := spelled.step allowed opens.taken
  obtain ⟨td, param, tflags, a, nt, t, f, rfl, torrent, opened, known, place, rfl, rfl, mapped⟩ := opens.result
  have taken := opens.taken
  simp only [step, Option.ite_none_right_eq_some, Answers.fresh, Bool.and_eq_true, Option.all_eq_true,
    decide_eq_true_eq, Bool.not_eq_true', Option.some.injEq] at taken
  obtain ⟨⟨-, ⟨-, torrents⟩, unused⟩, rfl⟩ := taken
  obtain ⟨t', f', id', opened', known', mapped', named, found⟩ :=
    tsplit_named torrent (torrents nt torrent).2 opens.fine (by simp [opened])
  cases opened.symm.trans opened'
  cases known.symm.trans known'
  cases mapped.symm.trans mapped'
  obtain ⟨-, pos, searched, -⟩ := uniqMapLookup_spec spelled.valid unused found
  obtain ⟨names', place', stored⟩ := spelled'.path t.data f known
  cases place.unique spelled'.wooded place'
  refine ⟨stored, place.names_valid spelled'.wooded spelled'.name, ?_, pos, searched⟩
  rintro rfl
  exact named stored

instance : DecidableRel plain := by
  intro s label
  unfold plain
  split <;> infer_instance

/-- The torrent 3 is open on the file `f` at 2, which is in the directory `d` at 1. -/
def InDirectory (s : State) (id : Nat) : Prop :=
  s.failed = none ∧ (∃ r ∈ s.obj 0, 1 ∈ r.child) ∧ (∃ d ∈ s.obj 1, d.name = [100] ∧ 2 ∈ d.child) ∧
    (∃ f ∈ s.obj 2, f.name = [102] ∧ f.dir = false ∧ f.uniquePath = [100, 47, 102]) ∧
    (∃ t ∈ s.torrents.get 3, t.data = 2) ∧ s.tiduniq 3 = some id

instance (s : State) (id : Nat) : Decidable (InDirectory s id) := inferInstanceAs (Decidable (_ ∧ _))

theorem InDirectory.opens {td : Nat}
    (next : step s (.tsplit td param tflags a) = some s') (torrent : a.torrent = some 3) (result : InDirectory s' id) :
    Opens s (.tsplit td param tflags a) s' [[100], [102]] false [100, 47, 102] id := by
  obtain ⟨fine, ⟨r, root, first⟩, ⟨d, dir, named, second⟩, ⟨f, file, called, isFile, stored⟩, ⟨t, opened, on⟩, mapped⟩ :=
    result
  have place : Place s'.obj 2 [[100], [102]] := by
    have outer : Place s'.obj 1 ([] ++ [d.name]) := .child .root root first dir
    have inner : Place s'.obj 2 ([] ++ [d.name] ++ [f.name]) := .child outer dir second file
    rw [named, called] at inner
    exact inner
  exact ⟨next, fine, td, param, tflags, a, 3, t, f, rfl, torrent, opened, on ▸ file, on ▸ place, isFile, stored, mapped⟩

/-- The torrent 2 is open on the file `f` at 1, which is below the root. -/
def BelowRoot (s : State) (path : Str) (id : Nat) : Prop :=
  s.failed = none ∧ (∃ r ∈ s.obj 0, 1 ∈ r.child) ∧
    (∃ f ∈ s.obj 1, f.name = [102] ∧ f.dir = false ∧ f.uniquePath = path) ∧ (∃ t ∈ s.torrents.get 2, t.data = 1) ∧
    s.tiduniq 2 = some id

instance (s : State) (path : Str) (id : Nat) : Decidable (BelowRoot s path id) := inferInstanceAs (Decidable (_ ∧ _))

theorem BelowRoot.opens {td : Nat} (next : step s (.tsplit td param tflags a) = some s') (torrent : a.torrent = some 2)
    (result : BelowRoot s' path id) : Opens s (.tsplit td param tflags a) s' [[102]] false path id := by
  obtain ⟨fine, ⟨r, root, first⟩, ⟨f, file, called, isFile, stored⟩, ⟨t, opened, on⟩, mapped⟩ := result
  have place : Place s'.obj 1 ([] ++ [f.name]) := .child .root root first file
  rw [called] at place
  exact ⟨next, fine, td, param, tflags, a, 2, t, f, rfl, torrent, opened, on ▸ file, on ▸ place, isFile, stored, mapped⟩

end Results

end SuperGlue.Guarantees.FileIdentity
