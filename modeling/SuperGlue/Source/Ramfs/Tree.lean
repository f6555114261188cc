import SuperGlue.Source.UniqMap.Names

/-!
# The objects of the file system

`include/__fs_rec`: the tree of file system objects. An object is known by its address, and the children of a
directory are listed in the order of their ring, from `child` on.
-/
namespace SuperGlue.Source.Ramfs.Tree
open List Function UniqMap.Names

/-- How a call ends that does not return. -/
inductive Fault where
  /-- An access to an object that is not allocated. -/
  | dangling
  /-- The assertions on a size or an offset. -/
  | bounds
  /-- Another assertion. -/
  | assertion
  /-- An access outside of a block of memory. -/
  | overrun
  deriving DecidableEq, Repr

def slash : UInt8 := 47

def torWrite : BitVec 32 := 1
def torRead : BitVec 32 := 2
def torSplit : BitVec 32 := 4

/-- `struct fsobj`. Of the data it matters here whether there are any. -/
structure Fsobj where
  name : Str
  uniquePath : Str
  /-- The type is `FSOBJ_DIR`. -/
  dir : Bool
  size : Nat
  allocated : Nat
  refcnt : Nat
  flags : BitVec 32
  data : Bool
  parent : Option Nat
  child : List Nat
  deriving DecidableEq, Repr

abbrev Heap := Nat → Option Fsobj

variable (h : Heap)

/-- The object at an address. -/
def access (o : Nat) : Except Fault Fsobj :=
  match h o with
  | some obj => .ok obj
  | none => .error .dangling

/-- `fs_init_root`, with the flags that `cos_init` gives it. -/
def fsInitRoot : Fsobj := ⟨[], [], true, 0, 0, 1, torRead ||| torSplit, false, none, []⟩

/-- `ADD_LIST` to the first child. -/
def addList : List Nat → Nat → List Nat
  | [], o => [o]
  | first :: rest, o => first :: o :: rest

/-- `fsobj_child_add` to a directory. -/
def fsobjChildAdd (child parent : Nat) (o p : Fsobj) : Heap :=
  update (update h child (some { o with parent := some parent })) parent
    (some { p with child := addList p.child child })

/-- `fsobj_cons`. The caller sets the flags and the path. -/
def fsobjCons (name : Str) (dir : Bool) (flags : BitVec 32) (uniquePath : Str) : Fsobj :=
  ⟨name, uniquePath, dir, 0, 0, 1, flags, false, none, []⟩

/-- The name that `fsobj_alloc` takes, and whether it is one of a directory. One slash is allowed, at the end. -/
def childName (subpath : Str) : Option (Str × Bool) :=
  match subpath.dropWhile (· != slash) with
  | [] => some (subpath, false)
  | [_] => some (subpath.takeWhile (· != slash), true)
  | _ => none

/-- The loop of `fsobj_find_child`. It compares as many characters as the path has. -/
def findAmong (h : Heap) (name : Str) : List Nat → Except Fault (Option Nat)
  | [] => .ok none
  | c :: rest =>
    (access h c).bind fun sibling =>
      if name.isPrefixOf sibling.name then .ok (some c) else findAmong h name rest

def fsobjFindChild (name : Str) (dir : Nat) : Except Fault (Option Nat) :=
  (access h dir).bind fun d => if d.dir then findAmong h name d.child else .error .assertion

/-- What `fsobj_path2obj` finds. -/
inductive Resolved where
  | found (o : Nat)
  | missing (parent : Nat) (subpath : Str)
  deriving DecidableEq, Repr

/-- The loop of `fsobj_path2obj`. Every round reads at least one character, so as many rounds are enough as the path
has characters. -/
def path2obj (h : Heap) : Nat → Nat → Str → Except Fault Resolved
  | 0, dir, _ => .ok (.found dir)
  | fuel + 1, dir, path =>
    let path := path.dropWhile (· == slash)
    if path = [] then .ok (.found dir)
    else
      (fsobjFindChild h (path.takeWhile (· != slash)) dir).bind fun
        | none => .ok (.missing dir path)
        | some o =>
          match path.dropWhile (· != slash) with
          | [] => .ok (.found o)
          | _ :: next => path2obj h fuel o next

def fsobjPath2obj (path : Str) (root : Nat) : Except Fault Resolved :=
  path2obj h path.length root path

/-- `fsobj_rem`. -/
def fsobjRem (o parent : Nat) (obj p : Fsobj) : Heap :=
  update (update h o (some { obj with parent := none })) parent (some { p with child := p.child.erase o })

def fsobjFree (o : Nat) : Except Fault Heap :=
  (access h o).bind fun obj =>
    if obj.parent = none ∧ obj.child = [] then .ok (update h o none) else .error .assertion

def fsobjTake (o : Nat) : Except Fault Heap :=
  (access h o).bind fun obj =>
    if obj.refcnt = 0 then .error .assertion
    else .ok (update h o (some { obj with refcnt := obj.refcnt + 1 }))

/-- `fsobj_release`. An object that loses its last reference in the tree still has its parent or is the root, and
then neither `__fsobj_free_hier` nor `fsobj_free` get past their assertions. -/
def fsobjRelease (o : Nat) : Except Fault Heap :=
  (access h o).bind fun obj =>
    if obj.refcnt ≤ 1 then .error .assertion
    else .ok (update h o (some { obj with refcnt := obj.refcnt - 1 }))

/-! ## What they return -/

section Results
variable {h : Heap} {o : Nat} {obj : Fsobj} {fault : Fault} {children : List Nat} {name : Str} {α β : Type}

theorem access_ok : access h o = .ok obj ↔ h o = some obj := by
  unfold access
  split
  next found => simp [found]
  next absent => simp [absent]

theorem access_error (failed : access h o = .error fault) : fault = .dangling ∧ h o = none := by
  unfold access at failed
  split at failed
  · contradiction
  next absent =>
    cases failed
    exact ⟨rfl, absent⟩

theorem bind_ok {x : Except Fault α} {f : α → Except Fault β} {b : β} (result : x.bind f = .ok b) :
    ∃ a, x = .ok a ∧ f a = .ok b := by
  cases x with
  | error => contradiction
  | ok a => exact ⟨a, rfl, result⟩

theorem bind_error {x : Except Fault α} {f : α → Except Fault β} (failed : x.bind f = .error fault) :
    x = .error fault ∨ ∃ a, x = .ok a ∧ f a = .error fault := by
  cases x with
  | error =>
    cases failed
    exact .inl rfl
  | ok a => exact .inr ⟨a, rfl, failed⟩

theorem findAmong_some {c : Nat} (found : findAmong h name children = .ok (some c)) :
    c ∈ children ∧ ∃ f, h c = some f ∧ name <+: f.name := by
  induction children with
  | nil => cases found
  | cons first rest ih =>
    obtain ⟨f, known, found⟩ := bind_ok found
    split at found
    next matching =>
      cases found
      exact ⟨mem_cons_self, f, access_ok.mp known, isPrefixOf_iff_prefix.mp matching⟩
    · obtain ⟨mem, known⟩ := ih found
      exact ⟨mem_cons_of_mem first mem, known⟩

theorem findAmong_none (missing : findAmong h name children = .ok none) {c : Nat}
    (member : c ∈ children) : ∃ f, h c = some f ∧ ¬ name <+: f.name := by
  induction children with
  | nil => contradiction
  | cons first rest ih =>
    obtain ⟨f, known, missing⟩ := bind_ok missing
    split at missing
    · cases missing
    next ne =>
      rcases mem_cons.mp member with rfl | member
      · exact ⟨f, access_ok.mp known, by simpa using ne⟩
      · exact ih missing member

theorem findAmong_error (failed : findAmong h name children = .error fault) :
    fault = .dangling ∧ ∃ c ∈ children, h c = none := by
  induction children with
  | nil => contradiction
  | cons first rest ih =>
    rcases bind_error failed with failed | ⟨f, known, failed⟩
    · obtain ⟨rfl, absent⟩ := access_error failed
      exact ⟨rfl, first, mem_cons_self, absent⟩
    · split at failed
      · contradiction
      · obtain ⟨same, c, mem, absent⟩ := ih failed
        exact ⟨same, c, mem_cons_of_mem first mem, absent⟩

/-- A search that ends was in a directory. -/
theorem fsobjFindChild_ok {dir : Nat} {result : Option Nat} (found : fsobjFindChild h name dir = .ok result) :
    ∃ d, h dir = some d ∧ d.dir ∧ findAmong h name d.child = .ok result := by
  obtain ⟨d, known, found⟩ := bind_ok found
  split at found
  next isDir => exact ⟨d, access_ok.mp known, isDir, found⟩
  · contradiction

end Results

end SuperGlue.Source.Ramfs.Tree
