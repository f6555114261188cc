import SuperGlue.Guarantees.FileTree

/-!
# The objects of torrents

A run in which every merge that deletes an object is by its only torrent leaves no torrent on freed memory. The
objects are a tree, and the reference count of each of them is one more than the number of its torrents.
-/
namespace SuperGlue.Guarantees.FileLiveness
open Function (update update_of_ne)
open Option Lib.FiniteMap Lib.Transition Source.UniqMap.Names Source.Ramfs.Tree Source.Ramfs.Server FileChanges FileTree

/-! ## References -/

/-- The number of torrents that `tsplit` has opened on an object. -/
def torrentsOn (s : State) (a : Nat) : Nat := s.torrents.count fun td t => torIsUsrdef td && t.data == a

structure Held (s : State) : Prop where
  wooded : Wooded s.obj
  torrents : ∀ td t, s.torrents.get td = some t → s.obj t.data ≠ none
  roots : ∀ td t, s.torrents.get td = some t → torIsUsrdef td = false → t.data = 0
  refcnt : ∀ a f, s.obj a = some f → f.refcnt = 1 + torrentsOn s a
  alive : s.failed ≠ some .dangling

/-- A merge that deletes an object is by its only torrent: one reference is of the tree, and one of the torrent. -/
def sole (s : State) : Label → Prop
  | .tmerge td tdInto =>
    tdInto = tdNull → ∀ t ∈ s.torrents.get td, ∀ f ∈ s.obj t.data, f.child = [] → f.refcnt = 2
  | _ => True

section References
variable {s : State} {td : Nat} {t : Torrent} {t' : Torrent}

theorem set_torrents (opened : s.torrents.get td = some t) (same : t'.data = t.data) (td' : Nat) (u : Torrent)
    (found : (s.torrents.set td t').get td' = some u) : ∃ u0, s.torrents.get td' = some u0 ∧ u.data = u0.data := by
  obtain ⟨rfl, rfl⟩ | ⟨-, found⟩ := update_known found
  · exact ⟨t, opened, same⟩
  · exact ⟨u, found, rfl⟩

theorem erase_torrents (td' : Nat) (u : Torrent) (found : (s.torrents.erase td).get td' = some u) :
    s.torrents.get td' = some u :=
  (erase_known found).2

theorem Held.whole (held : Held s) : Whole s := ⟨held.wooded.closed, held.torrents⟩

variable {f f' : Fsobj} {a : Nat} {uniq : NameMap} {records : Nat → List Record} {label : Label}

/-- An object is changed, but neither its place nor its references. -/
theorem Held.object (held : Held s) (known : s.obj a = some f) (up : f'.parent = f.parent) (down : f'.child = f.child)
    (count : f'.refcnt = f.refcnt) : Held { s with obj := update s.obj a (some f') } := by
  refine ⟨held.wooded.edit known up down, ?_, held.roots, ?_, held.alive⟩
  · intro td t opened
    exact update_present (held.torrents td t opened)
  · intro x g found
    obtain ⟨rfl, rfl⟩ | ⟨-, found⟩ := update_known found
    · exact count.trans (held.refcnt x f known)
    · exact held.refcnt x g found

/-- A torrent is changed, but not its object. -/
theorem Held.torrent (held : Held s) (opened : s.torrents.get td = some t)
    (same : t'.data = t.data) : Held { s with torrents := s.torrents.set td t' } := by
  refine ⟨held.wooded, ?_, ?_, ?_, held.alive⟩
  · intro td' u found
    obtain ⟨u0, found, eq⟩ := set_torrents opened same td' u found
    rw [eq]
    exact held.torrents td' u0 found
  · intro td' u found system
    obtain ⟨u0, found, eq⟩ := set_torrents opened same td' u found
    exact eq.trans (held.roots td' u0 found system)
  · intro a f known
    have count : torrentsOn { s with torrents := s.torrents.set td t' } a = torrentsOn s a :=
      Table.count_set_same opened (by rw [same])
    rw [count]
    exact held.refcnt a f known

theorem replay_frame {offset offset' : Nat} {records : List Record}
    (replayed : replay f offset records = .ok (f', offset')) :
    f' = { f with size := f'.size, allocated := f'.allocated, data := f'.data } := by
  induction records generalizing f offset with
  | nil =>
    cases replayed
    rfl
  | cons r rest ih =>
    simp only [replay] at replayed
    split at replayed
    · have rest := ih replayed
      exact rest
    · split at replayed
      · cases replayed
      · have rest := ih replayed
        exact rest

theorem makeRoom_frame {offset sz ret : Nat} {memory : Bool} (room : makeRoom f offset sz memory = some (f', ret)) :
    f' = { f with size := f'.size, allocated := f'.allocated, data := f'.data } := by
  unfold makeRoom at room
  split at room
  · cases room
    rfl
  · split at room
    · cases room
    · cases room
      rfl

/-- A new object has no torrent yet. -/
theorem Held.create {o parent : Nat} {p : Fsobj} {name path : Str} {dir : Bool} {flags : BitVec 32} (held : Held s)
    (unused : s.obj o = none) (above : s.obj parent = some p) :
    Held { s with obj := fsobjChildAdd s.obj o parent (fsobjCons name dir flags path) p } := by
  refine ⟨held.wooded.add above unused rfl, ?_, held.roots, ?_, held.alive⟩
  · intro td t opened
    exact update_present (update_present (held.torrents td t opened))
  intro x g found
  obtain ⟨rfl, rfl⟩ | ⟨-, found⟩ := update_known found
  · exact held.refcnt x p above
  obtain ⟨rfl, rfl⟩ | ⟨-, found⟩ := update_known found
  · have none_ : torrentsOn s x = 0 := by
      apply Table.count_eq_zero
      intro td t opened
      have other : t.data ≠ x := fun same => held.torrents td t opened (same ▸ unused)
      simp [other]
    change 1 = 1 + torrentsOn s x
    rw [none_]
  · exact held.refcnt x g found

theorem Held.opened {o nt : Nat} (held : Held s) (user : torIsUsrdef nt)
    (unused : s.torrents.get nt = none) (known : s.obj o = some f) (on : t.data = o) : Held { s with
      obj := update s.obj o (some { f with refcnt := f.refcnt + 1 })
      torrents := s.torrents.set nt t } := by
  refine ⟨held.wooded.edit known rfl rfl, ?_, ?_, ?_, held.alive⟩
  · intro td u found
    obtain ⟨rfl, rfl⟩ | ⟨-, found⟩ := update_known found
    · simp [on]
    · exact update_present (held.torrents td u found)
  · intro td u found system
    obtain ⟨rfl, rfl⟩ | ⟨-, found⟩ := update_known found
    · simp [user] at system
    · exact held.roots td u found system
  · intro x g found
    have count : (s.torrents.set nt t).count (fun td t => torIsUsrdef td && t.data == x) =
        torrentsOn s x + if torIsUsrdef nt && t.data == x then 1 else 0 := Table.count_set unused t _
    change g.refcnt = 1 + (s.torrents.set nt t).count (fun td t => torIsUsrdef td && t.data == x)
    rw [count, user, on]
    obtain ⟨rfl, rfl⟩ | ⟨other, found⟩ := update_known found
    · have before := held.refcnt x f known
      simp
      omega
    · simp [Ne.symm other, held.refcnt x g found]

/-- A torrent is closed whose object stays. -/
theorem Held.released (held : Held s) (user : torIsUsrdef td)
    (opened : s.torrents.get td = some t) (known : s.obj t.data = some f) : Held { s with
      obj := update s.obj t.data (some { f with refcnt := f.refcnt - 1 })
      torrents := s.torrents.erase td } := by
  refine ⟨held.wooded.edit known rfl rfl, ?_, ?_, ?_, held.alive⟩
  · intro td' u found
    exact update_present (held.torrents td' u (erase_torrents td' u found))
  · intro td' u found
    exact held.roots td' u (erase_torrents td' u found)
  intro x g found
  have count : torrentsOn s x = (s.torrents.erase td).count (fun td t => torIsUsrdef td && t.data == x) +
      if torIsUsrdef td && t.data == x then 1 else 0 := Table.count_erase opened _
  change g.refcnt = 1 + (s.torrents.erase td).count (fun td t => torIsUsrdef td && t.data == x)
  rw [user] at count
  obtain ⟨rfl, rfl⟩ | ⟨other, found⟩ := update_known found
  · have before := held.refcnt t.data f known
    simp at count
    simp
    omega
  · simp [Ne.symm other] at count
    rw [held.refcnt x g found, count]

/-- An object is deleted with its only torrent. -/
theorem Held.merged {parent : Nat} {p : Fsobj} (held : Held s) (user : torIsUsrdef td)
    (opened : s.torrents.get td = some t) (known : s.obj t.data = some f) (inside : f.parent = some parent)
    (leaf : f.child = []) (above : s.obj parent = some p) (only : f.refcnt = 2) : Held { s with
      obj := update (fsobjRem s.obj t.data parent f p) t.data none
      torrents := s.torrents.erase td } := by
  have countErase : ∀ x, torrentsOn s x = (s.torrents.erase td).count (fun td t => torIsUsrdef td && t.data == x) +
      if torIsUsrdef td && t.data == x then 1 else 0 := fun x => Table.count_erase opened _
  -- no other torrent has the object
  have gone : (s.torrents.erase td).count (fun td u => torIsUsrdef td && u.data == t.data) = 0 := by
    have before := held.refcnt t.data f known
    have count := countErase t.data
    simp only [user, Bool.true_and, beq_self_eq_true, if_true] at count
    omega
  have others : ∀ td' u, (s.torrents.erase td).get td' = some u → s.torrents.get td' = some u ∧ u.data ≠ t.data := by
    intro td' u found
    have found' := erase_torrents td' u found
    refine ⟨found', fun same => ?_⟩
    cases isUser : torIsUsrdef td' with
    | true =>
      have counted := Table.count_pos (P := fun td u => torIsUsrdef td && u.data == t.data) found (by simp [isUser, same])
      omega
    | false =>
      have atRoot := held.roots td' u found' isUser
      obtain ⟨r, root, none_⟩ := held.wooded.root
      rw [← same, atRoot, root] at known
      cases known
      simp [inside] at none_
  refine ⟨held.wooded.remove above known leaf inside, ?_, ?_, ?_, held.alive⟩
  · intro td' u found
    obtain ⟨found, other⟩ := others td' u found
    intro absent
    rcases (removed_none above u.data).mp absent with same | absent
    · exact other same
    · exact held.torrents td' u found absent
  · intro td' u found
    exact held.roots td' u (others td' u found).1
  · intro x g found
    obtain ⟨other, g0, found0, frame, -⟩ := removed_known above found
    have count := countErase x
    simp only [user, Bool.true_and, beq_iff_eq, Ne.symm other] at count
    rw [frame]
    rw [held.refcnt x g0 found0, count]
    rfl

theorem cosInit_obj (known : (cosInit uniq records).obj a = some f) : a = 0 ∧ f = fsInitRoot := by
  change update (fun _ => none) 0 (some fsInitRoot) a = some f at known
  obtain same | ⟨-, absent⟩ := update_known known
  · exact same
  · contradiction

theorem cosInit_torrents
    (opened : (cosInit uniq records).torrents.get td = some t) : td = tdRoot ∧ t = rootTorrent := by
  obtain same | ⟨-, absent⟩ := update_known opened
  · exact same
  · contradiction

theorem cosInit_held (uniq : NameMap) (records : Nat → List Record) : Held (cosInit uniq records) := by
  refine ⟨⟨⟨fsInitRoot, rfl, rfl⟩, ?_, ?_, ?_, ?_⟩, ?_, ?_, ?_, nofun⟩
  · intro c g known _
    exact (cosInit_obj known).1
  · intro a f c known mem
    rw [(cosInit_obj known).2] at mem
    contradiction
  · intro c g q known up
    rw [(cosInit_obj known).2] at up
    contradiction
  · intro a f known
    rw [(cosInit_obj known).2]
    exact List.nodup_nil
  · intro td t opened
    rw [(cosInit_torrents opened).2]
    exact nofun
  · intro td t opened _
    rw [(cosInit_torrents opened).2]
    rfl
  · intro a f known
    rw [(cosInit_obj known).2]
    rfl

theorem Held.change {guard : State → Label → Prop} {s' : State}
    (imp : ∀ s label, guard s label → sole s label) (held : Held s) (change : Change guard label s s') : Held s' := by
  cases change with
  | quiet => exact { held with }
  | fails fault excused =>
    refine ⟨held.wooded, held.torrents, held.roots, held.refcnt, ?_⟩
    intro dangles
    exact excused.dangling (some.inj dangles) held.whole
  | reboots => exact cosInit_held s.uniq s.records
  | creates _ _ _ _ above _ _ unused => exact held.create unused above
  | opens _ user unused known => exact held.opened user unused known rfl
  | identifies => exact { held with }
  | recovers opened known _ _ replayed =>
    have frame := replay_frame replayed
    exact (held.object known (by rw [frame]) (by rw [frame]) (by rw [frame])).torrent opened rfl
  | adjusts opened same => exact held.torrent opened same
  | writes opened known _ _ room =>
    have frame := makeRoom_frame room
    exact (held.object known (by rw [frame]) (by rw [frame]) (by rw [frame])).torrent opened rfl
  | records => exact { held with }
  | merges allowed user opened known inside leaf above =>
    exact held.merged user opened known inside leaf above (imp _ _ allowed rfl _ opened _ known leaf)
  | releases user opened known => exact held.released user opened known

theorem Held.step {s' : State} (held : Held s) (allowed : sole s label) (next : step s label = some s') : Held s' :=
  step_keeps Held allowed next held fun _ _ held change => held.change (fun _ _ => id) change

end References

/-! ## What a step does to objects and torrents -/

/-- Only `tsplit` makes objects and torrents, and only `tmerge` frees an object. -/
structure Frame (label : Label) (s s' : State) : Prop where
  born : ∀ x, s.obj x = none → s'.obj x ≠ none → label = .reboot ∧ x = 0 ∨
    ∃ td param tflags a, label = .tsplit td param tflags a ∧ a.object = some x
  freed : ∀ x, s.obj x ≠ none → s'.obj x = none → label = .reboot ∨
    ∃ td t, label = .tmerge td tdNull ∧ s.torrents.get td = some t ∧ t.data = x
  torrent : ∀ td t', s'.torrents.get td = some t' → (∃ t, s.torrents.get td = some t ∧ t'.data = t.data) ∨
    label = .reboot ∧ td = tdRoot ∧ t'.data = 0 ∨ ∃ td₀ param tflags a, label = .tsplit td₀ param tflags a ∧ a.torrent = some td

section Frames
variable {label : Label} {s s' : State}

theorem Frame.trans {s1 : State} (first : Frame label s s1) (second : Frame label s1 s') : Frame label s s' := by
  constructor
  · intro x absent present
    by_cases between : s1.obj x = none
    · exact second.born x between present
    · exact first.born x absent between
  · intro x present absent
    by_cases between : s1.obj x = none
    · exact first.freed x present between
    · refine (second.freed x between absent).imp_right fun ⟨td, t, merges, opened, on⟩ => ?_
      rcases first.torrent td t opened with ⟨t0, opened0, same⟩ | ⟨reboots, -⟩ | ⟨_, _, _, _, splits, -⟩
      · exact ⟨td, t0, merges, opened0, same.symm.trans on⟩
      · cases merges.symm.trans reboots
      · cases merges.symm.trans splits
  · intro td t' opened'
    rcases second.torrent td t' opened' with ⟨t1, opened1, same1⟩ | new
    · rcases first.torrent td t1 opened1 with ⟨t, opened, same⟩ | ⟨reboots, root, atRoot⟩ | new
      · exact .inl ⟨t, opened, same1.trans same⟩
      · exact .inr (.inl ⟨reboots, root, same1.trans atRoot⟩)
      · exact .inr (.inr new)
    · exact .inr new

theorem Frame.same (objects : ∀ x, s'.obj x = none ↔ s.obj x = none)
    (torrents : ∀ td t', s'.torrents.get td = some t' → ∃ t, s.torrents.get td = some t ∧ t'.data = t.data) :
    Frame label s s' :=
  ⟨fun x absent present => absurd ((objects x).mpr absent) present,
    fun x present absent => absurd ((objects x).mp absent) present, fun td t' opened => .inl (torrents td t' opened)⟩

theorem update_none {h : Heap} {f f' : Fsobj} (known : h a = some f) (x : Nat) :
    update h a (some f') x = none ↔ h x = none := by
  by_cases same : x = a
  · simp [same, known]
  · rw [update_of_ne same]

theorem change_frame {guard : State → Label → Prop} (change : Change guard label s s') : Frame label s s' := by
  cases change with
  | quiet | fails | identifies | records => exact .same (fun _ => .rfl) fun td t opened => ⟨t, opened, rfl⟩
  | reboots =>
    refine ⟨?_, fun _ _ _ => .inl rfl, ?_⟩
    · intro x _ present
      obtain ⟨f, known⟩ := ne_none_iff_exists'.mp present
      exact .inl ⟨rfl, (cosInit_obj known).1⟩
    · intro td t opened
      obtain ⟨rfl, rfl⟩ := cosInit_torrents opened
      exact .inr (.inl ⟨rfl, rfl, rfl⟩)
  | creates _ _ _ _ above _ memory =>
    refine ⟨?_, ?_, fun td t opened => .inl ⟨t, opened, rfl⟩⟩
    · intro x absent present
      obtain ⟨f, known⟩ := ne_none_iff_exists'.mp present
      obtain ⟨rfl, -⟩ | ⟨-, known⟩ := update_known known
      · simp [absent] at above
      · obtain ⟨rfl, -⟩ | ⟨-, known⟩ := update_known known
        · exact .inr ⟨_, _, _, _, rfl, memory⟩
        · simp [absent] at known
    · intro x present absent
      exact absurd absent (update_present (update_present present))
  | opens torrent _ _ known =>
    refine ⟨?_, ?_, ?_⟩
    · intro x absent present
      exact absurd ((update_none known x).mpr absent) present
    · intro x present absent
      exact absurd ((update_none known x).mp absent) present
    · intro td t opened
      obtain ⟨rfl, -⟩ | ⟨-, opened⟩ := update_known opened
      · exact .inr (.inr ⟨_, _, _, _, rfl, torrent⟩)
      · exact .inl ⟨t, opened, rfl⟩
  | recovers opened known => exact .same (update_none known) (set_torrents opened rfl)
  | adjusts opened same => exact .same (fun _ => .rfl) (set_torrents opened same)
  | writes opened known => exact .same (update_none known) (set_torrents opened rfl)
  | @merges _ td _ t _ _ _ _ opened _ _ _ above =>
    refine ⟨?_, ?_, fun td' u found => .inl ⟨u, erase_torrents td' u found, rfl⟩⟩
    · intro x absent present
      exact absurd ((removed_none above x).mpr (.inr absent)) present
    · intro x present absent
      have here := ((removed_none above x).mp absent).resolve_right present
      exact .inr ⟨td, t, rfl, opened, here.symm⟩
  | releases _ opened known =>
    exact .same (update_none known) fun td t found => ⟨t, erase_torrents td t found, rfl⟩

theorem step_frame (next : step s label = some s') : Frame label s s' := by
  have changes : Changes anyStep label s s' := step_changes trivial next
  clear next
  induction changes with
  | refl => exact .same (fun _ => .rfl) fun td t opened => ⟨t, opened, rfl⟩
  | tail _ change ih => exact ih.trans (change_frame change)

end Frames

/-! ## Objects by number -/

/-- The file system with numbers for its objects. Memory is used again, but a number is not. -/
structure Observed where
  s : State
  /-- The number of the object at an address. -/
  serial : Nat → Nat
  made : Nat
  /-- The object that a torrent was opened on. -/
  opened : Nat → Nat
  /-- How often an object was freed. -/
  frees : Nat → Nat

/-- The numbers after `tsplit`. -/
def Observed.serialAfter (o : Observed) (a : Answers) (s' : State) : Nat → Nat :=
  match a.object with
  | some x => if (s'.obj x).isSome then update o.serial x o.made else o.serial
  | none => o.serial

def Observed.openedAfter (o : Observed) (a : Answers) (s' : State) : Nat → Nat :=
  match a.torrent with
  | some td =>
    match s'.torrents.get td with
    | some t => update o.opened td (o.serialAfter a s' t.data)
    | none => o.opened
  | none => o.opened

def observe (o : Observed) (label : Label) (s' : State) : Observed :=
  match label with
  | .tsplit _ _ _ a => ⟨s', o.serialAfter a s', o.made + 1, o.openedAfter a s', o.frees⟩
  | .tmerge td _ =>
    match o.s.torrents.get td with
    | some t =>
      if (s'.obj t.data).isNone then
        { o with s := s', frees := update o.frees (o.serial t.data) (o.frees (o.serial t.data) + 1) }
      else { o with s := s' }
    | none => { o with s := s' }
  | _ => { o with s := s' }

def observed : System Observed Label :=
  ⟨⟨init, fun _ => 0, 1, fun _ => 0, fun _ => 0⟩, fun o label => (step o.s label).map (observe o label)⟩

/-- Numbers tell objects apart, and every torrent has the object that it was opened on. -/
structure Numbered (o : Observed) : Prop where
  held : Held o.s
  distinct : ∀ a b, o.s.obj a ≠ none → o.s.obj b ≠ none → o.serial a = o.serial b → a = b
  old : ∀ a, o.s.obj a ≠ none → o.serial a < o.made
  unfreed : ∀ a, o.s.obj a ≠ none → o.frees (o.serial a) = 0
  once : ∀ n, o.frees n ≤ 1
  future : ∀ n, o.made ≤ n → o.frees n = 0
  opened : ∀ td t, o.s.torrents.get td = some t → o.opened td = o.serial t.data
  root : o.opened tdRoot = o.serial 0

section Numbers
variable {o : Observed} {label : Label} {s' : State}

theorem Held.root_known {s : State} (held : Held s) : s.obj 0 ≠ none := by
  obtain ⟨r, known, -⟩ := held.wooded.root
  simp [known]

/-- No object and no torrent is new. -/
theorem Numbered.fewer (numbered : Numbered o) (held : Held s') (objects : ∀ x, s'.obj x ≠ none → o.s.obj x ≠ none)
    (torrents : ∀ td t', s'.torrents.get td = some t' → (∃ t, o.s.torrents.get td = some t ∧ t'.data = t.data) ∨
      td = tdRoot ∧ t'.data = 0) : Numbered { o with s := s' } := by
  refine ⟨held, ?_, ?_, ?_, numbered.once, numbered.future, ?_, numbered.root⟩
  · intro a b first second
    exact numbered.distinct a b (objects a first) (objects b second)
  · intro a present
    exact numbered.old a (objects a present)
  · intro a present
    exact numbered.unfreed a (objects a present)
  · intro td t' opened
    rcases torrents td t' opened with ⟨t, opened, same⟩ | ⟨rfl, atRoot⟩
    · rw [same]
      exact numbered.opened td t opened
    · rw [atRoot]
      exact numbered.root

/-- A call that is no `tsplit`. -/
theorem Numbered.rest (numbered : Numbered o) (held : Held s') (frame : Frame label o.s s')
    (no : ∀ td param tflags a, label ≠ .tsplit td param tflags a) : Numbered { o with s := s' } := by
  refine numbered.fewer held ?_ ?_
  · intro x present absent
    rcases frame.born x absent present with ⟨-, rfl⟩ | ⟨td, param, tflags, a, same, -⟩
    · exact numbered.held.root_known absent
    · exact no td param tflags a same
  · intro td t' opened
    rcases frame.torrent td t' opened with old | ⟨-, root⟩ | ⟨td0, param, tflags, a, same, -⟩
    · exact .inl old
    · exact .inr root
    · exact absurd same (no td0 param tflags a)

/-- An object is freed that is gone from the heap. -/
theorem Numbered.free (before : o.s.obj a ≠ none) (gone : s'.obj a = none) (numbered : Numbered o)
    (after : Numbered { o with s := s' }) (objects : ∀ x, s'.obj x ≠ none → o.s.obj x ≠ none) :
    Numbered { o with s := s', frees := update o.frees (o.serial a) (o.frees (o.serial a) + 1) } := by
  refine ⟨after.held, after.distinct, after.old, ?_, ?_, ?_, after.opened, after.root⟩
  · intro b present
    have other : o.serial b ≠ o.serial a := by
      intro same
      have here := numbered.distinct b a (objects b present) before same
      rw [here] at present
      exact present gone
    dsimp only
    rw [update_of_ne other]
    exact after.unfreed b present
  · intro n
    dsimp only
    by_cases here : n = o.serial a
    · simp [here, numbered.unfreed a before]
    · rw [update_of_ne here]
      exact after.once n
  · intro n later
    have small := numbered.old a before
    dsimp only at later ⊢
    rw [update_of_ne (by omega)]
    exact after.future n later

variable {a : Answers}

theorem serialAfter_old {x : Nat} (unused : ∀ y, a.object = some y → o.s.obj y = none)
    (present : o.s.obj x ≠ none) : o.serialAfter a s' x = o.serial x := by
  unfold Observed.serialAfter
  cases memory : a.object with
  | none => rfl
  | some y =>
    have other : x ≠ y := fun same => present (same ▸ unused y memory)
    dsimp only
    split
    · exact update_of_ne other ..
    · rfl

variable {td : Nat}

theorem openedAfter_other (other : a.torrent ≠ some td) : o.openedAfter a s' td = o.opened td := by
  unfold Observed.openedAfter
  cases torrent : a.torrent with
  | none => rfl
  | some nt =>
    have ne : td ≠ nt := fun same => other (same ▸ torrent)
    dsimp only
    cases s'.torrents.get nt with
    | none => rfl
    | some => exact update_of_ne ne ..

/-- `tsplit` gives its object the next number. -/
theorem Numbered.split {param : Str} {tflags : BitVec 32} (numbered : Numbered o) (held : Held s')
    (frame : Frame (.tsplit td param tflags a) o.s s') (objects : ∀ x, a.object = some x → o.s.obj x = none)
    (torrents : ∀ nt, a.torrent = some nt → torIsUsrdef nt ∧ o.s.torrents.get nt = none) :
    Numbered ⟨s', o.serialAfter a s', o.made + 1, o.openedAfter a s', o.frees⟩ := by
  have number : ∀ x, s'.obj x ≠ none →
      o.s.obj x ≠ none ∧ o.serialAfter a s' x = o.serial x ∨ a.object = some x ∧ o.serialAfter a s' x = o.made := by
    intro x present
    by_cases before : o.s.obj x = none
    · rcases frame.born x before present with ⟨reboots, -⟩ | ⟨_, _, _, _, same, memory⟩
      · cases reboots
      · cases same
        refine .inr ⟨memory, ?_⟩
        simp [Observed.serialAfter, memory, isSome_iff_ne_none.mpr present]
    · exact .inl ⟨before, serialAfter_old objects before⟩
  have atRoot : o.serialAfter a s' 0 = o.serial 0 := serialAfter_old objects numbered.held.root_known
  refine ⟨held, ?_, ?_, ?_, numbered.once, ?_, ?_, ?_⟩
  · intro x y first second same
    dsimp only at same
    rcases number x first with ⟨oldX, isX⟩ | ⟨newX, isX⟩
    · rcases number y second with ⟨oldY, isY⟩ | ⟨newY, isY⟩
      · exact numbered.distinct x y oldX oldY (by rw [← isX, ← isY, same])
      · have := numbered.old x oldX
        omega
    · rcases number y second with ⟨oldY, isY⟩ | ⟨newY, isY⟩
      · have := numbered.old y oldY
        omega
      · exact some.inj (newX.symm.trans newY)
  · intro x present
    dsimp only
    rcases number x present with ⟨old, is⟩ | ⟨-, is⟩
    · have := numbered.old x old
      omega
    · omega
  · intro x present
    dsimp only
    rcases number x present with ⟨old, is⟩ | ⟨-, is⟩
    · rw [is]
      exact numbered.unfreed x old
    · rw [is]
      exact numbered.future o.made (Nat.le_refl _)
  · intro n later
    dsimp only at later
    exact numbered.future n (by omega)
  · intro td' t' opened
    dsimp only at opened ⊢
    by_cases isNew : a.torrent = some td'
    · simp [Observed.openedAfter, isNew, opened]
    rw [openedAfter_other isNew]
    rcases frame.torrent td' t' opened with ⟨t, before, same⟩ | ⟨reboots, -⟩ | ⟨_, _, _, _, same, torrent⟩
    · rw [same, serialAfter_old objects (numbered.held.torrents td' t before)]
      exact numbered.opened td' t before
    · cases reboots
    · cases same
      exact absurd torrent isNew
  · dsimp only
    rw [atRoot, openedAfter_other]
    · exact numbered.root
    · intro torrent
      have := (torrents tdRoot torrent).1
      contradiction

theorem Numbered.step {o' : Observed} (numbered : Numbered o) (allowed : sole o.s label)
    (next : observed.step o label = some o') : Numbered o' := by
  obtain ⟨s', taken, rfl⟩ := map_eq_some_iff.mp next
  have held : Held s' := numbered.held.step allowed taken
  have frame := step_frame taken
  cases label with
  | tsplit =>
    simp only [step, ite_none_right_eq_some, Answers.fresh, Bool.and_eq_true, all_eq_true, decide_eq_true_eq] at taken
    obtain ⟨⟨-, ⟨objects, torrents⟩, -⟩, -⟩ := taken
    exact numbered.split held frame objects torrents
  | tmerge td =>
    have after : Numbered { o with s := s' } := numbered.rest held frame (by simp)
    unfold observe
    dsimp only
    split
    next t opened =>
      split
      next gone =>
        have gone : s'.obj t.data = none := by simpa using gone
        refine numbered.free (numbered.held.torrents td t opened) gone after ?_
        intro x present absent
        rcases frame.born x absent present with ⟨reboots, -⟩ | ⟨_, _, _, _, same, -⟩
        · cases reboots
        · cases same
      · exact after
    · exact after
  | twritep | treadp | twmeta | trelease | reboot => exact numbered.rest held frame (by simp)

theorem reachable_numbered (reached : Reachable observed (fun o label => sole o.s label) o) : Numbered o := by
  refine reached.invariant Numbered ?_ fun _ _ _ numbered allowed next => numbered.step allowed next
  have only : ∀ a, init.obj a ≠ none → a = 0 := by
    intro a present
    obtain ⟨f, known⟩ := ne_none_iff_exists'.mp present
    exact (cosInit_obj known).1
  refine ⟨cosInit_held .init _, ?_, fun _ _ => Nat.one_pos, fun _ _ => rfl, fun _ => Nat.zero_le 1, fun _ _ => rfl,
    fun _ _ _ => rfl, rfl⟩
  intro a b first second _
  rw [only a first, only b second]

end Numbers

/-! ## Results -/

instance : DecidableRel sole := by
  intro s label
  unfold sole
  split <;> infer_instance

instance : DecidableRel fun (o : Observed) label => sole o.s label := fun o label =>
  inferInstanceAs (Decidable (sole o.s label))

def answers (object torrent id : Nat) : Answers := ⟨some object, none, [], some torrent, id, true⟩

end SuperGlue.Guarantees.FileLiveness
