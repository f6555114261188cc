import SuperGlue.Lib.Transition
import SuperGlue.Source.Ramfs.Server

/-!
# What a call of the file system changes

Every call is a sequence of small changes, each of them at one object or one torrent. An invariant of the file
system is kept by every call if it is kept by these changes.
-/
namespace SuperGlue.Guarantees.FileChanges
open Function Relation Lib.FiniteMap Lib.Transition Source.UniqMap.Names Source.Ramfs.Tree Source.Ramfs.Server

def ramfs : System State Label := ⟨init, step⟩

/-- The children and the parents of objects are allocated. -/
structure Closed (h : Heap) : Prop where
  child : ∀ a f c, h a = some f → c ∈ f.child → h c ≠ none
  parent : ∀ a f p, h a = some f → f.parent = some p → h p ≠ none

/-- No pointer is to memory that is not allocated. -/
structure Whole (s : State) : Prop where
  objects : Closed s.obj
  torrents : ∀ td t, s.torrents.get td = some t → s.obj t.data ≠ none

/-- What the assertions on sizes and offsets ask for. -/
structure Bounded (s : State) : Prop where
  size : ∀ a f, s.obj a = some f → f.size ≤ f.allocated
  offset : ∀ td t f, s.torrents.get td = some t → s.obj t.data = some f → t.offset ≤ f.size

/-- A fault that needs an earlier mistake. -/
structure Excused (s : State) (fault : Fault) : Prop where
  dangling : fault = .dangling → ¬ Whole s
  bounds : fault = .bounds → ¬ Bounded s

theorem excused_assertion (s : State) : Excused s .assertion := ⟨nofun, nofun⟩

theorem excused_overrun (s : State) : Excused s .overrun := ⟨nofun, nofun⟩

/-- The offset of a torrent moves inside of its file. -/
def Inside (s : State) (t : Torrent) (offset : Nat) : Prop :=
  ∀ f, s.obj t.data = some f → t.offset ≤ f.size → offset ≤ f.size

/-- `tsplit` recovers a file without data, and `twmeta` any file. -/
def Recovers (guard : State → Label → Prop) (s : State) (td : Nat) (f : Fsobj) : Label → Prop
  | .tsplit .. => f.data = false
  | .twmeta td' key klen val vlen mapped =>
    td' = td ∧ guard s (.twmeta td' key klen val vlen mapped) ∧ key.length = klen ∧ val.length = vlen ∧
      metaKey key = some .data
  | _ => False

/-- `twmeta` sets the offset to a number from its caller. -/
def Sets (guard : State → Label → Prop) (s : State) (td offset : Nat) : Label → Prop
  | .twmeta td' key klen val vlen mapped =>
    td' = td ∧ guard s (.twmeta td' key klen val vlen mapped) ∧ key.length = klen ∧ val.length = vlen ∧
      metaKey key = some .offset ∧ offset = (atoi val % 2 ^ 32).toNat
  | _ => False

section Changes
variable (guard : State → Label → Prop)

/-- The changes that calls are made of. The guard is known where a call starts. -/
inductive Change : Label → State → State → Prop where
  | quiet {label : Label} {s : State} (ret : Int) (locked : Bool) : Change label s { s with ret := ret, metaLocked := locked }
  | fails {label : Label} {s : State} (fault : Fault) (excused : Excused s fault) :
      Change label s { s with failed := some fault }
  | reboots {s : State} : Change .reboot s (cosInit s.uniq s.records)
  | creates {s : State} {td : Nat} {param : Str} {tflags : BitVec 32} {a : Answers} {t : Torrent} {fso p : Fsobj}
      {parent o : Nat} {subpath name : Str} {dir : Bool} (allowed : guard s (.tsplit td param tflags a))
      (opener : s.torrents.get td = some t) (base : s.obj t.data = some fso)
      (missing : fsobjPath2obj s.obj param t.data = .ok (.missing parent subpath)) (above : s.obj parent = some p)
      (named : childName subpath = some (name, dir)) (memory : a.object = some o) (unused : s.obj o = none) :
      Change (.tsplit td param tflags a) s
        { s with obj := fsobjChildAdd s.obj o parent (fsobjCons name dir tflags (newPath fso param a)) p }
  | opens {s : State} {td nt o : Nat} {param : Str} {tflags : BitVec 32} {a : Answers} {f : Fsobj}
      (torrent : a.torrent = some nt) (user : torIsUsrdef nt = true) (unused : s.torrents.get nt = none)
      (known : s.obj o = some f) :
      Change (.tsplit td param tflags a) s
        { s with
          obj := update s.obj o (some { f with refcnt := f.refcnt + 1 })
          torrents := s.torrents.set nt ⟨nt, 0, tflags, o⟩ }
  | identifies {s : State} {td nt id : Nat} {param : Str} {tflags : BitVec 32} {a : Answers} {t : Torrent} {f : Fsobj}
      {uniq : NameMap} (torrent : a.torrent = some nt) (opened : s.torrents.get nt = some t)
      (known : s.obj t.data = some f) (unused : s.uniq.used a.id = false)
      (found : uniqMapLookup s.uniq f.uniquePath a.id = some (uniq, id)) :
      Change (.tsplit td param tflags a) s { s with uniq := uniq, tiduniq := update s.tiduniq nt (some id) }
  | recovers {label : Label} {s : State} {td id offset : Nat} {t : Torrent} {f f' : Fsobj}
      (opened : s.torrents.get td = some t) (known : s.obj t.data = some f) (why : Recovers guard s td f label)
      (mapping : s.tiduniq td = some id) (replayed : replay f t.offset (s.records id) = .ok (f', offset)) :
      Change label s
        { s with
          obj := update s.obj t.data (some f')
          torrents := s.torrents.set td { t with offset := offset } }
  | adjusts {label : Label} {s : State} {td : Nat} {t t' : Torrent} (opened : s.torrents.get td = some t)
      (same : t'.data = t.data) (why : Inside s t t'.offset ∨ Sets guard s td t'.offset label) :
      Change label s { s with torrents := s.torrents.set td t' }
  | writes {label : Label} {s : State} {td sz ret : Nat} {t : Torrent} {f f' : Fsobj} {memory : Bool}
      (opened : s.torrents.get td = some t) (known : s.obj t.data = some f) (fits : f.size ≤ f.allocated)
      (below : t.offset ≤ f.size)
      (room : makeRoom f t.offset sz memory = some (f', ret)) :
      Change label s
        { s with
          obj := update s.obj t.data (some f')
          torrents := s.torrents.set td { t with offset := t.offset + ret } }
  | records {label : Label} {s : State} (id : Nat) (r : Record) :
      Change label s { s with records := update s.records id (r :: s.records id) }
  | merges {s : State} {td parent : Nat} {t : Torrent} {f p : Fsobj} (allowed : guard s (.tmerge td tdNull))
      (user : torIsUsrdef td = true) (opened : s.torrents.get td = some t) (known : s.obj t.data = some f)
      (inside : f.parent = some parent) (leaf : f.child = []) (above : s.obj parent = some p) :
      Change (.tmerge td tdNull) s
        { s with
          obj := update (fsobjRem s.obj t.data parent f p) t.data none
          torrents := s.torrents.erase td }
  | releases {s : State} {td : Nat} {t : Torrent} {f : Fsobj} (user : torIsUsrdef td = true)
      (opened : s.torrents.get td = some t) (known : s.obj t.data = some f) (shared : 1 < f.refcnt) :
      Change (.trelease td) s
        { s with
          obj := update s.obj t.data (some { f with refcnt := f.refcnt - 1 })
          torrents := s.torrents.erase td }

/-- The changes of one call. -/
abbrev Changes (label : Label) : State → State → Prop := ReflTransGen (Change guard label)

end Changes

/-! ## Resolving a path -/

section Resolving
variable {h : Heap} {fuel dir : Nat} {path : Str}

/-- The last object that a path leads to. -/
def lastObject : Resolved → Nat
  | .found o => o
  | .missing parent _ => parent

theorem path2obj_known (closed : Closed h) (known : h dir ≠ none) {r : Resolved}
    (resolved : path2obj h fuel dir path = .ok r) : h (lastObject r) ≠ none := by
  induction fuel generalizing dir path with
  | zero =>
    cases resolved
    exact known
  | succ fuel ih =>
    simp only [path2obj] at resolved
    split at resolved
    · cases resolved
      exact known
    obtain ⟨child, found, resolved⟩ := bind_ok resolved
    obtain ⟨d, isDir, -, found⟩ := fsobjFindChild_ok found
    cases child with
    | none =>
      cases resolved
      exact known
    | some o =>
      have allocated := closed.child dir d o isDir (findAmong_some found).1
      dsimp only at resolved
      split at resolved
      · cases resolved
        exact allocated
      · exact ih allocated resolved

theorem path2obj_error {fault : Fault} (failed : path2obj h fuel dir path = .error fault) :
    fault = .assertion ∨ fault = .dangling ∧ ¬ (Closed h ∧ h dir ≠ none) := by
  induction fuel generalizing dir path with
  | zero => cases failed
  | succ fuel ih =>
    simp only [path2obj] at failed
    split at failed
    · cases failed
    rcases bind_error failed with failed | ⟨child, found, failed⟩
    · rcases bind_error failed with failed | ⟨d, isDir, failed⟩
      · obtain ⟨rfl, absent⟩ := access_error failed
        exact .inr ⟨rfl, fun whole => whole.2 absent⟩
      split at failed
      · obtain ⟨rfl, c, mem, absent⟩ := findAmong_error failed
        exact .inr ⟨rfl, fun whole => whole.1.child dir d c (access_ok.mp isDir) mem absent⟩
      · cases failed
        exact .inl rfl
    · cases child with
      | none => cases failed
      | some o =>
        dsimp only at failed
        split at failed
        · cases failed
        · obtain ⟨d, isDir, -, found⟩ := fsobjFindChild_ok found
          refine (ih failed).imp_right fun ⟨same, broken⟩ => ⟨same, fun whole => broken ⟨whole.1, ?_⟩⟩
          exact whole.1.child dir d o isDir (findAmong_some found).1

end Resolving

/-! ## Calls -/

section Calls
variable {guard : State → Label → Prop} {label : Label} {s : State}

theorem after_changes {α : Type} {x : Except Fault α} {rest : α → State}
    (fails : ∀ fault, x = .error fault → Excused s fault)
    (runs : ∀ a, x = .ok a → Changes guard label s (rest a)) : Changes guard label s (s.after x rest) := by
  cases x with
  | error fault => exact .single (.fails fault (fails fault rfl))
  | ok a => exact runs a rfl

theorem returns_changes (ret : Int) : Changes guard label s (s.returns ret) :=
  .single (.quiet ret s.metaLocked)

variable {fault : Fault}

theorem fail_changes (excused : Excused s fault) : Changes guard label s (s.fail fault) :=
  .single (.fails fault excused)

variable {o : Nat}

/-- An access whose address is known to be allocated. -/
theorem access_excused (known : Whole s → s.obj o ≠ none)
    (failed : access s.obj o = .error fault) : Excused s fault := by
  obtain ⟨rfl, absent⟩ := access_error failed
  exact ⟨fun _ whole => known whole absent, nofun⟩

variable {td : Nat}

theorem torLookup_ok {result : Option Torrent} (found : torLookup s td = .ok result) : s.torrents.get td = result := by
  unfold torLookup at found
  split at found
  next absent =>
    cases found
    exact absent
  next t known =>
    split at found
    · cases found
      exact known
    · cases found

theorem torLookup_excused (failed : torLookup s td = .error fault) : Excused s fault := by
  unfold torLookup at failed
  split at failed
  · cases failed
  · split at failed
    · cases failed
    · cases failed
      exact excused_assertion s

/-- A call that starts with the lookup of its torrent. -/
theorem lookup_changes {rest : Option Torrent → State} (absent : Changes guard label s (rest none))
    (runs : ∀ t, s.torrents.get td = some t → Changes guard label s (rest (some t))) :
    Changes guard label s (s.after (torLookup s td) rest) := by
  refine after_changes (fun _ failed => torLookup_excused failed) ?_
  intro result found
  cases result with
  | none => exact absent
  | some t => exact runs t (torLookup_ok found)

variable {t : Torrent}

variable (opened : s.torrents.get td = some t)
include opened

/-- The access to the object of a torrent. -/
theorem object_changes {rest : Fsobj → State}
    (runs : ∀ f, s.obj t.data = some f → Changes guard label s (rest f)) :
    Changes guard label s (s.after (access s.obj t.data) rest) := by
  refine after_changes (fun _ failed => access_excused (fun whole => whole.torrents td t opened) failed) ?_
  intro f known
  exact runs f (access_ok.mp known)

variable {f : Fsobj}

/-- The assertions on the size and the offset. -/
theorem bounds_changes {rest : Unit → State} (known : s.obj t.data = some f)
    (runs : f.size ≤ f.allocated → t.offset ≤ f.size → Changes guard label s (rest ())) :
    Changes guard label s (s.after (checkBounds t f) rest) := by
  unfold checkBounds
  split
  next inside => exact runs inside.1 inside.2
  next outside =>
    refine fail_changes ⟨nofun, fun _ bounded => outside ?_⟩
    exact ⟨bounded.size t.data f known, bounded.offset td t f opened known⟩

omit opened in
theorem mapping_changes {rest : Nat → State} (runs : ∀ id, s.tiduniq td = some id → Changes guard label s (rest id)) :
    Changes guard label s (s.after (tiduniqLookup s td) rest) := by
  unfold tiduniqLookup
  split
  next id found => exact runs id found
  · exact fail_changes (excused_assertion s)

omit opened in
theorem replay_error {offset : Nat} {records : List Record}
    (failed : replay f offset records = .error fault) : fault = .overrun := by
  induction records generalizing f offset with
  | nil => cases failed
  | cons r rest ih =>
    simp only [replay] at failed
    split at failed
    · exact ih failed
    · split at failed
      · cases failed
        rfl
      · exact ih failed

variable {mapped : Bool}

theorem recoverData_changes (why : ∀ f, s.obj t.data = some f → Recovers guard s td f label) :
    Changes guard label s (recoverData s td t mapped) := by
  refine object_changes opened fun f known => ?_
  refine bounds_changes opened known fun _ _ => ?_
  refine mapping_changes fun id mapping => ?_
  split
  · exact fail_changes (excused_assertion s)
  refine after_changes ?_ ?_
  · intro fault failed
    rw [replay_error failed]
    exact excused_overrun s
  · intro (f', offset) replayed
    exact .single (.recovers opened known (why f known) mapping replayed)

theorem after_torrent {α : Type} {x : Except Fault α} {rest : α → State}
    (runs : ∀ a, ∃ t', (rest a).torrents.get td = some t' ∧ t'.data = t.data) :
    ∃ t', (s.after x rest).torrents.get td = some t' ∧ t'.data = t.data := by
  cases x with
  | error => exact ⟨t, opened, rfl⟩
  | ok a => exact runs a

omit opened

theorem recoverData_torrent (mapped : Bool) (opened : s.torrents.get td = some t) :
    ∃ t', (recoverData s td t mapped).torrents.get td = some t' ∧ t'.data = t.data := by
  refine after_torrent opened fun f => ?_
  refine after_torrent opened fun _ => ?_
  refine after_torrent opened fun id => ?_
  split
  · exact ⟨t, opened, rfl⟩
  · refine after_torrent opened fun (_, offset) => ?_
    exact ⟨{ t with offset }, Table.get_set_self .., rfl⟩

variable {param : Str} {tflags : BitVec 32} {a : Answers}

/-- The recovery in `tsplit`. -/
theorem restore_changes {nt id : Nat} (opened : s.torrents.get nt = some t) (known : s.obj t.data = some f) :
    Changes guard (.tsplit td param tflags a) s (restore s f nt t id mapped) := by
  unfold restore
  split
  next empty =>
    have recovered : Changes guard (.tsplit td param tflags a) s (recoverData s nt t mapped) :=
      recoverData_changes opened fun g same => by
        cases known.symm.trans same
        exact empty.1
    dsimp only
    split
    · obtain ⟨t', opened', same⟩ := recoverData_torrent mapped opened
      have rewinds : Change guard (.tsplit td param tflags a) (recoverData s nt t mapped)
          { recoverData s nt t mapped with
            torrents := (recoverData s nt t mapped).torrents.set nt { t with offset := 0 } } :=
        .adjusts opened' same.symm (.inl fun _ _ _ => Nat.zero_le _)
      exact (recovered.tail rewinds).tail (.quiet nt _)
    · exact recovered
  · exact returns_changes nt

variable {h : Heap}

theorem fsobjTake_ok {h' : Heap} (taken : fsobjTake h o = .ok h') :
    ∃ f, h o = some f ∧ f.refcnt ≠ 0 ∧ h' = update h o (some { f with refcnt := f.refcnt + 1 }) := by
  obtain ⟨f, known, taken⟩ := bind_ok taken
  split at taken
  · cases taken
  next counted =>
    cases taken
    exact ⟨f, access_ok.mp known, counted, rfl⟩

/-- `tsplit` from `fsobj_take` on. -/
theorem openObject_changes (known : Whole s → s.obj o ≠ none)
    (torrents : ∀ nt, a.torrent = some nt → torIsUsrdef nt ∧ s.torrents.get nt = none)
    (unused : s.uniq.used a.id = false) : Changes guard (.tsplit td param tflags a) s (openObject s o tflags a) := by
  refine after_changes ?_ ?_
  · intro fault failed
    rcases bind_error failed with failed | ⟨f, -, failed⟩
    · exact access_excused known failed
    · split at failed
      · cases failed
        exact excused_assertion s
      · cases failed
  · intro obj taken
    obtain ⟨f, allocated, counted, rfl⟩ := fsobjTake_ok taken
    have found : access (update s.obj o (some { f with refcnt := f.refcnt + 1 })) o =
        .ok { f with refcnt := f.refcnt + 1 } := access_ok.mpr (update_self ..)
    split
    · -- the reference that was just taken is given back
      have more : ¬ f.refcnt + 1 ≤ 1 := by omega
      have same : update s.obj o (some f) = s.obj := by rw [← allocated, update_eq_self]
      have released : fsobjRelease (update s.obj o (some { f with refcnt := f.refcnt + 1 })) o = .ok s.obj := by
        simp [fsobjRelease, found, more, Except.bind, same]
      rw [released]
      exact returns_changes enomem
    next nt torrent =>
      obtain ⟨user, free⟩ := torrents nt torrent
      rw [found]
      refine .head (.opens torrent user free allocated) ?_
      change Changes _ _ _ (identify _ _ nt _ a)
      unfold identify
      split
      · exact fail_changes (excused_assertion _)
      split
      · exact fail_changes (excused_overrun _)
      next uniq id found =>
        refine .head (.identifies torrent (Table.get_set_self ..) (update_self ..) unused found) ?_
        exact restore_changes (Table.get_set_self ..) (update_self ..)

theorem tsplit_changes (allowed : guard s (.tsplit td param tflags a)) (fresh : a.fresh s) :
    Changes guard (.tsplit td param tflags a) s (tsplit s td param tflags a) := by
  simp only [Answers.fresh, Bool.and_eq_true, Option.all_eq_true, decide_eq_true_eq, Bool.not_eq_true'] at fresh
  obtain ⟨⟨objects, torrents⟩, unused⟩ := fresh
  refine lookup_changes (returns_changes einval) fun t opener => ?_
  refine object_changes opener fun fso base => ?_
  refine after_changes ?_ ?_
  · intro fault failed
    rcases path2obj_error failed with rfl | ⟨rfl, broken⟩
    · exact excused_assertion s
    · exact ⟨fun _ whole => broken ⟨whole.objects, whole.torrents td t opener⟩, nofun⟩
  intro r resolved
  have known : Whole s → s.obj (lastObject r) ≠ none := fun whole =>
    path2obj_known whole.objects (whole.torrents td t opener) resolved
  refine match r, resolved, known with
    | .found o, _, known => ?_
    | .missing parent subpath, missing, known => ?_
  · refine after_changes (fun _ failed => access_excused known failed) fun fsc _ => ?_
    split
    · exact returns_changes eacces
    · exact openObject_changes known torrents unused
  · refine after_changes (fun _ failed => access_excused known failed) fun p above => ?_
    split
    · exact returns_changes eacces
    split
    · exact returns_changes einval
    rename_i o obj made
    unfold fsobjAlloc at made
    split at made
    next name dir o named memory =>
      cases made
      refine .head (.creates allowed opener base missing (access_ok.mp above) named memory (objects o memory)) ?_
      refine openObject_changes (fun _ => ?_) torrents unused
      dsimp only
      rw [fsobjChildAdd, update_apply]
      split <;> simp
    · cases made

theorem twritep_changes {sz : Int} {memory : Bool} : Changes guard label s (twritep s td sz mapped memory) := by
  unfold twritep
  split
  · exact returns_changes einval
  refine lookup_changes (returns_changes einval) fun t opened => ?_
  dsimp only
  split
  · exact returns_changes eacces
  refine object_changes opened fun f known => ?_
  refine bounds_changes opened known fun fits below => ?_
  split
  · exact fail_changes (excused_assertion s)
  split
  · exact returns_changes enomem
  next f' ret room =>
    refine .head (.writes opened known fits below room) ?_
    refine mapping_changes fun id _ => ?_
    exact .head (.records id _) (returns_changes _)

/-- A torrent is changed, and the call returns. -/
theorem adjust_changes (t' : Torrent) (ret : Int) (opened : s.torrents.get td = some t)
    (same : t'.data = t.data) (why : Inside s t t'.offset ∨ Sets guard s td t'.offset label) :
    Changes guard label s { s with torrents := s.torrents.set td t', ret } :=
  .head (.adjusts opened same why) (returns_changes ret)

theorem treadp_changes {len : Int} : Changes guard label s (treadp s td len) := by
  unfold treadp
  split
  · exact returns_changes einval
  refine lookup_changes (returns_changes einval) fun t opened => ?_
  dsimp only
  split
  · exact returns_changes eacces
  refine object_changes opened fun f known => ?_
  refine bounds_changes opened known fun fits below => ?_
  split
  · exact returns_changes 0
  split
  · exact fail_changes (excused_assertion s)
  · refine adjust_changes _ _ opened rfl (.inl fun g same below => ?_)
    cases known.symm.trans same
    dsimp only
    omega

theorem fsobjFree_ok {h' : Heap} (freed : fsobjFree h o = .ok h') : h' = update h o none := by
  obtain ⟨f, -, freed⟩ := bind_ok freed
  split at freed
  · cases freed
    rfl
  · cases freed

theorem tmerge_changes {tdInto : Nat} (allowed : guard s (.tmerge td tdInto)) :
    Changes guard (.tmerge td tdInto) s (tmerge s td tdInto) := by
  unfold tmerge
  split
  · exact returns_changes (-1)
  rename_i user
  refine lookup_changes (returns_changes einval) fun t opened => ?_
  dsimp only
  split
  · exact returns_changes einval
  rename_i deletes
  refine object_changes opened fun f known => ?_
  split
  · exact fail_changes (excused_assertion s)
  rename_i parent inside
  split
  · exact returns_changes einval
  rename_i leaf
  refine after_changes ?_ ?_
  · intro fault failed
    exact access_excused (fun whole => whole.objects.parent t.data f parent known inside) failed
  intro p above
  refine after_changes ?_ ?_
  · intro fault failed
    rcases bind_error failed with failed | ⟨g, -, failed⟩
    · refine absurd (access_error failed).2 ?_
      unfold fsobjRem
      by_cases same : t.data = parent <;> simp [same]
    · split at failed
      · cases failed
      · cases failed
        exact excused_assertion s
  · intro obj freed
    rw [fsobjFree_ok freed]
    obtain rfl := not_not.mp deletes
    have merges := Change.merges allowed (by simpa using user) opened known inside (not_not.mp leaf)
      (access_ok.mp above)
    exact .head merges (returns_changes 0)

theorem trelease_changes : Changes guard (.trelease td) s (trelease s td) := by
  unfold trelease
  split
  · exact .refl
  rename_i user
  refine lookup_changes .refl fun t opened => ?_
  refine after_changes ?_ ?_
  · intro fault failed
    rcases bind_error failed with failed | ⟨f, -, failed⟩
    · exact access_excused (fun whole => whole.torrents td t opened) failed
    · split at failed
      · cases failed
        exact excused_assertion s
      · cases failed
  · intro obj released
    obtain ⟨f, known, released⟩ := bind_ok released
    split at released
    · cases released
    next shared =>
      cases released
      exact .single (.releases (by simpa using user) opened (access_ok.mp known) (by omega))

theorem twmeta_changes {klen vlen : Nat} {key val : Str} (allowed : guard s (.twmeta td key klen val vlen mapped)) :
    Changes guard (.twmeta td key klen val vlen mapped) s (twmeta s td key klen val vlen mapped) := by
  refine lookup_changes (returns_changes (-1)) fun t opened => ?_
  dsimp only
  split
  · exact .single (.quiet (-1) true)
  rename_i lengths
  push Not at lengths
  split
  · exact adjust_changes _ 0 opened rfl (.inl fun _ _ => id)
  next isOffset => exact adjust_changes _ 0 opened rfl (.inr ⟨rfl, allowed, lengths.1, lengths.2, isOffset, rfl⟩)
  · exact adjust_changes _ 0 opened rfl (.inl fun _ _ => id)
  · exact returns_changes 0
  next isData =>
    refine (recoverData_changes opened fun f _ => ?_).tail (.quiet 0 _)
    exact ⟨rfl, allowed, lengths.1, lengths.2, isData⟩
  · exact returns_changes (-1)

/-- A step is made of changes. -/
theorem step_changes {s' : State} (allowed : guard s label) (next : step s label = some s') :
    Changes guard label s s' := by
  unfold step at next
  split at next
  case h_1 =>
    cases next
    exact .single .reboots
  all_goals
    rw [Option.ite_none_right_eq_some] at next
    obtain ⟨enabled, same⟩ := next
    cases same
  case h_2 => exact tsplit_changes allowed enabled.2
  case h_3 => exact twritep_changes
  case h_4 => exact treadp_changes
  case h_5 => exact twmeta_changes allowed
  case h_6 => exact tmerge_changes allowed
  case h_7 => exact trelease_changes

/-- What every change keeps is kept by every step. -/
theorem step_keeps (Inv : State → Prop) {s' : State} (allowed : guard s label) (next : step s label = some s')
    (inv : Inv s) (keeps : ∀ s s', Inv s → Change guard label s s' → Inv s') : Inv s' := by
  have changes := step_changes allowed next
  clear next
  induction changes with
  | refl => exact inv
  | tail _ change ih => exact keeps _ _ ih change

end Calls

end SuperGlue.Guarantees.FileChanges
